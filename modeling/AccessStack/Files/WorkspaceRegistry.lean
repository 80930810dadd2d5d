import AccessStack.Files.PathSecurity
import AccessStack.Policies.Merge
import AccessStack.Rows

/-!
# Loading a workspace

`resolveWorkspaces` for one workspace of the policy file. The root and the
allowed roots are looked up in the file system, and the policy keeps the
locations it has found. When several allowed roots are refused, the error is
that of the first one in the policy.
-/

set_option autoImplicit false

namespace AccessStack.Files
open AccessStack.FileTree AccessStack.Rows AccessStack.Keys AccessStack.Policies

section Loading

/-- The texts of a policy are trimmed and not empty. -/
structure PolicyWorkspace where
  rootPath : List String
  permissionProfile : PermissionProfile
  allowedRoots : List String
  blockedGlobs : List String
  maxFileBytes : ℕ
  allowWrites : List String
  allowShell : List String
  rules : ∀ pattern ∈ blockedGlobs, pattern ≠ ""

def mandatoryBlockedGlobs : List String :=
  ["**/.env", "**/.env.!(example|sample|template)", "**/*.pem", "**/*.key", "**/*.pfx", "**/*.crt",
    "**/secrets.*", "**/credentials.*", "**/id_rsa", "**/id_dsa", "**/.git/**", "**/.runtime-private",
    "**/.runtime-private/**", "**/node_modules/**", "**/bin/**", "**/obj/**", "**/dist/**", "**/build/**",
    "**/coverage/**"]

def resolveAllowedRoot (t : Tree) (canonicalWorkspaceRoot : Location) (workspaceRoot : List String)
    (configuredPath : String) : Except FileError ResolvedAllowedRoot := do
  let logicalPath ← normalizeRelativePath configuredPath true
  match realpath t (toNativeAbsolute workspaceRoot logicalPath) with
  | .error _ => .error (.app "POLICY_INVALID" "An allowed root does not exist.")
  | .ok canonicalPath =>
    if !isContained canonicalWorkspaceRoot canonicalPath then
      .error (.app "POLICY_INVALID" "An allowed root resolves outside the workspace.")
    else
      match stat t canonicalPath with
      | .error e => .error (.errno e)
      | .ok (.link _ _) => .error (.app "POLICY_INVALID" "An allowed root has an unsupported type.")
      | .ok (.file _) => return ⟨logicalPath, canonicalPath, .file⟩
      | .ok .dir => return ⟨logicalPath, canonicalPath, .directory⟩

/-- `allowedRoots` is `["."]`. -/
def coversAll (allowedRoots : List ResolvedAllowedRoot) : Bool := allowedRoots.map (·.logicalPath) = [[]]

/-- `[...new Set([...mandatoryBlockedGlobs, ...blockedGlobs])]` -/
def resolvedGlobs (blockedGlobs : List String) : List String :=
  deduplicateBy id (mandatoryBlockedGlobs ++ blockedGlobs)

theorem resolvedGlobs_rules (workspace : PolicyWorkspace) :
    ∀ pattern ∈ resolvedGlobs workspace.blockedGlobs, pattern ≠ "" := by
  intro pattern hmem
  rcases List.mem_append.mp (deduplicateBy_subset hmem) with hmem | hmem
  · rintro rfl
    revert hmem
    decide
  · exact workspace.rules pattern hmem

def resolveWorkspace (t : Tree) (workspace : PolicyWorkspace) : Except FileError ResolvedWorkspace :=
  match realpath t workspace.rootPath with
  | .error _ => .error (.app "POLICY_INVALID" "Workspace rootPath is not a directory.")
  | .ok canonicalRootPath =>
    match stat t canonicalRootPath with
    | .ok .dir => do
      let allowedRoots ← workspace.allowedRoots.mapM
        (resolveAllowedRoot t canonicalRootPath workspace.rootPath)
      if workspace.permissionProfile = .fullRepoReadonly ∧ coversAll allowedRoots = false then
        .error (.app "POLICY_INVALID" "full-repo-readonly requires allowedRoots to contain only '.'.")
      else if workspace.permissionProfile = .fullRepoWrite ∧
          (coversAll allowedRoots = false ∨ workspace.allowWrites = []) then
        .error (.app "POLICY_INVALID"
          "full-repo-write requires allowedRoots ['.'] and a non-empty allowWrites list.")
      else do
        let allowWrites ← workspace.allowWrites.mapM (normalizeRelativePath · true)
        let _ ← workspace.allowShell.mapM (normalizeRelativePath · true)
        return {
          rootPath := workspace.rootPath, canonicalRootPath, allowedRoots
          blockedGlobs := resolvedGlobs workspace.blockedGlobs, allowWrites
          maxFileBytes := workspace.maxFileBytes, rules := resolvedGlobs_rules workspace }
    | _ => .error (.app "POLICY_INVALID" "Workspace rootPath is not a directory.")

end Loading

section Resolved

variable {t : Tree} {ws : ResolvedWorkspace} {workspace : PolicyWorkspace}

/-- The roots of a workspace are where its paths lead. -/
structure Resolved (t : Tree) (ws : ResolvedWorkspace) : Prop where
  root : realpath t ws.rootPath = .ok ws.canonicalRootPath
  directory : t.nodes ws.canonicalRootPath = some .dir
  allowed : ∀ root ∈ ws.allowedRoots,
    realpath t (toNativeAbsolute ws.rootPath root.logicalPath) = .ok root.canonicalPath

theorem mapM_ok {ε α β : Type} {f : α → Except ε β} {xs : List α} {ys : List β} (h : xs.mapM f = .ok ys) :
    ∀ y ∈ ys, ∃ x ∈ xs, f x = .ok y := by
  induction xs generalizing ys with
  | nil =>
    cases h
    simp
  | cons x xs ih =>
    rw [List.mapM_cons] at h
    obtain ⟨first, hfirst, h⟩ := bind_ok.mp h
    obtain ⟨rest, hrest, h⟩ := bind_ok.mp h
    cases h
    intro y hy
    rcases List.mem_cons.mp hy with rfl | hy
    · exact ⟨x, by simp, hfirst⟩
    · obtain ⟨z, hz, hfz⟩ := ih hrest y hy
      exact ⟨z, by simp [hz], hfz⟩

theorem resolveAllowedRoot_ok {canonicalRoot : Location} {rootPath : List String} {configuredPath : String}
    {root : ResolvedAllowedRoot} (h : resolveAllowedRoot t canonicalRoot rootPath configuredPath = .ok root) :
    realpath t (toNativeAbsolute rootPath root.logicalPath) = .ok root.canonicalPath := by
  obtain ⟨logicalPath, _, h⟩ := bind_ok.mp h
  split at h
  · cases h
  rename_i canonicalPath hreal
  split at h
  · cases h
  split at h
  · cases h
  · cases h
  · cases h
    exact hreal
  · cases h
    exact hreal

theorem resolveWorkspace_ok (h : resolveWorkspace t workspace = .ok ws) : Resolved t ws := by
  unfold resolveWorkspace at h
  split at h
  · cases h
  rename_i canonicalRootPath hroot
  split at h
  · rename_i hstat
    obtain ⟨allowedRoots, hallowed, h⟩ := bind_ok.mp h
    split at h
    · cases h
    split at h
    · cases h
    obtain ⟨allowWrites, _, h⟩ := bind_ok.mp h
    obtain ⟨_, _, h⟩ := bind_ok.mp h
    cases h
    refine ⟨hroot, ?_, ?_⟩
    · obtain ⟨node, hnode, _⟩ := realpath_node hroot
      simp only [stat, realpath_idem hroot, bind, Except.bind, hnode] at hstat
      cases hstat
      exact hnode
    · intro root hmem
      obtain ⟨_, _, hresolved⟩ := mapM_ok hallowed root hmem
      exact resolveAllowedRoot_ok hresolved
  · cases h

end Resolved

end AccessStack.Files
