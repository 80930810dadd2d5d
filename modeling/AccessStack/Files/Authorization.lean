import AccessStack.Files.Containment
import AccessStack.Files.WorkspaceRegistry

/-!
# Write and read authorization

Both authorizations compare the logical path with the policy. A read also
compares the file its links lead to with the allowed roots and the blocked
globs, a write only with the workspace. A path without links below the root is
the location it names, so the two agree on it. On the others a permitted write
is a permitted read if and only if the links stay inside the allowed roots and
go under no blocked glob.
-/

set_option autoImplicit false

namespace AccessStack.Files
open AccessStack.FileTree AccessStack.Rows

variable {glob : String → String → Bool} {ws : ResolvedWorkspace} {t : Tree} {input : String}

/-- What a read asks of the location its links lead to. -/
def Permitted (glob : String → String → Bool) (ws : ResolvedWorkspace) (loc : Location) : Prop :=
  (∃ root ∈ ws.allowedRoots, root.canonicalPath <+: loc) ∧
    ∀ pattern ∈ ws.blockedGlobs, glob pattern (portable (loc.drop ws.canonicalRootPath.length)) = false

theorem matchedBlockedPattern_none {path : List String} :
    matchedBlockedPattern glob ws path false = none ↔
      ∀ pattern ∈ ws.blockedGlobs, glob pattern (portable path) = false := by
  simp [matchedBlockedPattern]

theorem isBlocked_false {path : List String} :
    isBlocked glob ws path = false ↔ matchedBlockedPattern glob ws path false = none := by
  simp [isBlocked]

theorem authorizeLogical_ok {path : List String} (hpath : normalizeRelativePath input false = .ok path)
    (hblocked : isBlocked glob ws path = false) (hroot : isWithinLogicalAllowedRoot ws path = true)
    (operation : Option String) : authorizeLogical glob ws input false operation false = .ok path := by
  simp only [authorizeLogical, hpath, bind, Except.bind, isBlocked_false.mp hblocked, hroot, if_true]
  rfl

/-- What a location leads to is what is there. -/
theorem stat_realpath {path : List String} {loc : Location} {node : Node}
    (h : realpath t path = .ok loc) (hnode : t.nodes loc = some node) : stat t loc = .ok node := by
  simp only [stat, realpath_idem h, bind, Except.bind, hnode]

section Existing

variable {path : List String} {loc : Location} {content : String}

theorem authorizeExisting_permitted (operation : Option String)
    (hlogical : authorizeLogical glob ws input false operation false = .ok path)
    (hroot : isWithinLogicalAllowedRoot ws path = true)
    (hreal : realpath t (toNativeAbsolute ws.rootPath path) = .ok loc)
    (hinside : ws.canonicalRootPath <+: loc) (hfile : t.nodes loc = some (.file content)) :
    (∃ b, authorizeExisting glob ws t input (some .file) false operation = .ok b) ↔
      Permitted glob ws loc := by
  have hcontained : isContained ws.canonicalRootPath loc = true := by simpa [isContained] using hinside
  unfold authorizeExisting authorizeExistingInternal
  simp only [if_true, hlogical, bind, Except.bind, hroot, Bool.not_true, Bool.false_eq_true, if_false,
    hreal, hcontained, stat_realpath hreal hfile]
  rw [Permitted, ← matchedBlockedPattern_none]
  by_cases hallowed : ∃ root ∈ ws.allowedRoots, root.canonicalPath <+: loc
  · have hany : ws.allowedRoots.any (fun root => isContained root.canonicalPath loc) = true := by
      simpa [isContained] using hallowed
    simp only [hany, Bool.not_true, Bool.false_eq_true, if_false, hallowed, true_and]
    cases matchedBlockedPattern glob ws (loc.drop ws.canonicalRootPath.length) false with
    | none => simp [pure, Except.pure]
    | some rule => simp
  · have hany : ws.allowedRoots.any (fun root => isContained root.canonicalPath loc) = false := by
      simpa [isContained] using hallowed
    simp only [hany, Bool.not_false, if_true, hallowed, false_and, iff_false]
    simp

end Existing

/-- A target that is a file is not created. -/
theorem probeTarget_file {path absolutePath : List String} {loc : Location} {content : String}
    {created : Bool} (hreal : realpath t absolutePath = .ok loc) (hfile : t.nodes loc = some (.file content))
    (h : probeTarget glob ws t path absolutePath = .ok created) : created = false := by
  simp only [probeTarget, stat, hreal, bind, Except.bind, hfile] at h
  cases h
  rfl

/-- The two checks that a write leaves out decide whether it is as strict as
a read. -/
theorem write_read_permitted {path : List String} {loc : Location} {content : String}
    {a : AuthorizedWritePath} (operation : Option String)
    (hpath : normalizeRelativePath input false = .ok path)
    (hreal : realpath t (toNativeAbsolute ws.rootPath path) = .ok loc)
    (hfile : t.nodes loc = some (.file content)) (h : authorizeWriteTarget glob ws t input = .ok a) :
    (∃ b, authorizeExisting glob ws t input (some .file) false operation = .ok b) ↔
      Permitted glob ws loc := by
  have hchecked := authorizeWriteTarget_ok h
  obtain ⟨hnormal, hblocked, hroot, _⟩ := authorizeWriteLogical_ok hchecked.logical
  rw [hpath] at hnormal
  cases hnormal
  have hprobed := hchecked.probed
  have htarget := hchecked.target
  rw [hchecked.absolute] at hprobed htarget
  obtain ⟨loc', hreal', hinside⟩ := htarget (probeTarget_file hreal hfile hprobed)
  rw [hreal] at hreal'
  cases hreal'
  exact authorizeExisting_permitted operation (authorizeLogical_ok hpath hblocked hroot operation) hroot
    hreal hinside hfile

section Links

variable {path : List String} {loc : Location}

/-- The root path leads to the workspace without its `..` too, and no entry on
the path below it is a link. -/
structure Direct (t : Tree) (ws : ResolvedWorkspace) (path : List String) : Prop where
  root : realpath t (resolveNames ws.rootPath) = .ok ws.canonicalRootPath
  entries : ∀ above name, above ++ [name] <+: path → ∀ absolute target,
    t.nodes (ws.canonicalRootPath ++ above ++ [name]) ≠ some (.link absolute target)

/-- The links of a path lead into an allowed root, and under no blocked glob
that the path itself is not under. -/
structure Kept (glob : String → String → Bool) (ws : ResolvedWorkspace) (path : List String)
    (loc : Location) : Prop where
  root : ∃ root ∈ ws.allowedRoots, root.canonicalPath <+: loc
  globs : ∀ pattern ∈ ws.blockedGlobs, glob pattern (portable (loc.drop ws.canonicalRootPath.length)) = true →
    glob pattern (portable path) = true

theorem Direct.shorter {shorter : List String} (h : Direct t ws path) (hleading : shorter <+: path) :
    Direct t ws shorter where
  root := h.root
  entries above name hname := h.entries above name (hname.trans hleading)

theorem resolveNames_append (rootPath : List String) (hnames : ∀ name ∈ path, isName name = true) :
    resolveNames (rootPath ++ path) = resolveNames rootPath ++ path := by
  induction path using List.reverseRecOn with
  | nil => simp
  | append_singleton above name ih =>
    have hname : name ≠ "" ∧ name ≠ "." ∧ name ≠ ".." := by
      simpa [isName, and_assoc] using hnames name (by simp)
    have habove := ih fun n hn => hnames n (List.mem_append_left _ hn)
    rw [← List.append_assoc, resolveNames_snoc, if_neg (by simp [hname.1, hname.2.1]), if_neg hname.2.2,
      habove, List.append_assoc]

/-- A direct path leads to the location it names. -/
theorem direct_location (h : Direct t ws path) (hnames : ∀ name ∈ path, isName name = true)
    (hreal : realpath t (resolveNames ws.rootPath ++ path) = .ok loc) :
    loc = ws.canonicalRootPath ++ path :=
  realpath_straight h.root hnames h.entries hreal

theorem toNativeAbsolute_resolved (hne : path ≠ []) (hnames : ∀ name ∈ path, isName name = true) :
    toNativeAbsolute ws.rootPath path = resolveNames ws.rootPath ++ path := by
  rw [toNativeAbsolute, if_neg hne, resolveNames_append ws.rootPath hnames]

/-- An allowed root on a direct path is where the path has it. -/
theorem direct_root {root : ResolvedAllowedRoot} (hws : Resolved t ws) (h : Direct t ws path)
    (hnames : ∀ name ∈ path, isName name = true) (hroot : root ∈ ws.allowedRoots)
    (hleading : root.logicalPath <+: path) :
    root.canonicalPath = ws.canonicalRootPath ++ root.logicalPath := by
  have hplace := hws.allowed root hroot
  by_cases hempty : root.logicalPath = []
  · rw [hempty, toNativeAbsolute, if_pos rfl, hws.root] at hplace
    rw [← Except.ok.inj hplace, hempty, List.append_nil]
  · have hrootNames : ∀ name ∈ root.logicalPath, isName name = true :=
      fun name hname => hnames name (hleading.subset hname)
    rw [toNativeAbsolute_resolved hempty hrootNames] at hplace
    exact direct_location (h.shorter hleading) hrootNames hplace

theorem direct_permitted (hws : Resolved t ws) (hpath : normalizeRelativePath input false = .ok path)
    (hblocked : isBlocked glob ws path = false) (hallowed : isWithinLogicalAllowedRoot ws path = true)
    (h : Direct t ws path) (hreal : realpath t (toNativeAbsolute ws.rootPath path) = .ok loc) :
    Permitted glob ws loc := by
  have hnames := normalizeRelativePath_names hpath
  rw [toNativeAbsolute_resolved (normalizeRelativePath_ne_nil hpath) hnames] at hreal
  obtain rfl := direct_location h hnames hreal
  constructor
  · obtain ⟨root, hroot, hwithin⟩ := List.any_eq_true.mp hallowed
    have hleading : root.logicalPath <+: path := by
      split at hwithin
      · rw [of_decide_eq_true hwithin]
      · simpa [logicalContains] using hwithin
    refine ⟨root, hroot, ?_⟩
    rw [direct_root hws h hnames hroot hleading]
    exact (List.prefix_append_right_inj _).mpr hleading
  · rw [List.drop_left]
    exact matchedBlockedPattern_none.mp (isBlocked_false.mp hblocked)

theorem kept_permitted (hblocked : isBlocked glob ws path = false) :
    Kept glob ws path loc ↔ Permitted glob ws loc := by
  have hunder := matchedBlockedPattern_none.mp (isBlocked_false.mp hblocked)
  constructor
  · intro h
    refine ⟨h.root, fun pattern hpattern => ?_⟩
    by_contra hglob
    have hpathGlob := h.globs pattern hpattern (by simpa using hglob)
    rw [hunder pattern hpattern] at hpathGlob
    cases hpathGlob
  · intro h
    refine ⟨h.1, fun pattern hpattern hglob => ?_⟩
    rw [h.2 pattern hpattern] at hglob
    cases hglob

end Links

section Aliased

/-- `/w/notes.txt` is a link to the environment file beside it. -/
def aliasedTree : Tree :=
  let environment := workspaceTree.set ["w"] ".env" (some (.file "KEY=1")) workspace_dir (by decide)
  let data := environment.set ["w"] "data.txt" (some (.file "text")) (by decide) (by decide)
  data.set ["w"] "notes.txt" (some (.link false [".env"])) (by decide) (by decide)

def guardedPolicy : PolicyWorkspace where
  rootPath := ["w"]
  permissionProfile := .fullRepoWrite
  allowedRoots := ["."]
  blockedGlobs := []
  maxFileBytes := 100
  allowWrites := ["."]
  allowShell := []
  rules := fun _ h => absurd h List.not_mem_nil

def guardedWorkspace : ResolvedWorkspace where
  rootPath := ["w"]
  canonicalRootPath := ["w"]
  allowedRoots := [⟨[], ["w"], .directory⟩]
  blockedGlobs := mandatoryBlockedGlobs
  allowWrites := [[]]
  maxFileBytes := 100
  rules := by decide

/-- What `**/.env` matches among paths of one name. -/
def environmentGlob (pattern path : String) : Bool := pattern = "**/.env" && path = ".env"

end Aliased

end AccessStack.Files
