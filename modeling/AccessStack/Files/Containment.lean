import AccessStack.Files.PathSecurity
import AccessStack.FileChanges

/-!
# Where a write lands

The directories and files of a write are all below one location: that of the
deepest directory above the target that is there. Only a parent directory
that is there is compared with the workspace, so a link in the middle of a
longer path leads out of it.
-/

set_option autoImplicit false

namespace AccessStack.Files
open AccessStack.FileTree AccessStack.Rows

section Names

theorem collectSegments_names {segments path : List String} (h : collectSegments segments = .ok path) :
    ∀ name ∈ path, isName name = true := by
  induction segments generalizing path with
  | nil =>
    cases h
    simp
  | cons segment rest ih =>
    rw [collectSegments] at h
    split at h
    · exact ih h
    split at h
    · cases h
    rename_i hdot hdots
    cases hrest : collectSegments rest with
    | error e =>
      rw [hrest] at h
      cases h
    | ok more =>
      rw [hrest] at h
      cases h
      intro name hmem
      rcases List.mem_cons.mp hmem with rfl | hmem
      · simp only [not_or] at hdot
        simp [isName, hdot.1, hdot.2, hdots]
      · exact ih hrest name hmem

theorem normalizeRelativePath_names {input : String} {allowDot : Bool} {path : List String}
    (h : normalizeRelativePath input allowDot = .ok path) : ∀ name ∈ path, isName name = true := by
  unfold normalizeRelativePath at h
  split at h
  · cases h
  split at h
  · cases h
  obtain ⟨segments, hsegments, h⟩ := bind_ok.mp h
  split at h
  · cases h
  · cases h
    exact collectSegments_names hsegments

theorem normalizeRelativePath_ne_nil {input : String} {path : List String}
    (h : normalizeRelativePath input false = .ok path) : path ≠ [] := by
  unfold normalizeRelativePath at h
  split at h
  · cases h
  split at h
  · cases h
  obtain ⟨segments, hsegments, h⟩ := bind_ok.mp h
  split at h
  · cases h
  · rename_i hne
    cases h
    simpa using hne

theorem resolveNames_snoc (names : List String) (name : String) :
    resolveNames (names ++ [name]) =
      if name = "" ∨ name = "." then resolveNames names
      else if name = ".." then (resolveNames names).dropLast
      else resolveNames names ++ [name] := by
  simp [resolveNames, List.foldl_append]

theorem resolveNames_names (names : List String) : ∀ name ∈ resolveNames names, isName name = true := by
  induction names using List.reverseRecOn with
  | nil => simp [resolveNames]
  | append_singleton names last ih =>
    intro name hmem
    rw [resolveNames_snoc] at hmem
    split at hmem
    · exact ih name hmem
    split at hmem
    · exact ih name (List.mem_of_mem_dropLast hmem)
    rename_i hdot hdots
    rcases List.mem_append.mp hmem with hmem | hmem
    · exact ih name hmem
    · rw [List.mem_singleton.mp hmem]
      simp only [not_or] at hdot
      simp [isName, hdot.1, hdot.2, hdots]

theorem toNativeAbsolute_names (rootPath : List String) {path : List String} (hpath : path ≠ []) :
    ∀ name ∈ toNativeAbsolute rootPath path, isName name = true := by
  rw [toNativeAbsolute, if_neg hpath]
  exact resolveNames_names _

end Names

section Authorized

variable {glob : String → String → Bool} {ws : ResolvedWorkspace} {t : Tree} {input : String}

theorem authorizeWriteLogical_ok {path : List String} (h : authorizeWriteLogical glob ws input = .ok path) :
    normalizeRelativePath input false = .ok path ∧ isBlocked glob ws path = false ∧
      isWithinLogicalAllowedRoot ws path = true ∧ isAllowedWritePath ws path = true := by
  obtain ⟨path', hpath, h⟩ := bind_ok.mp h
  split at h
  · cases h
  split at h
  · cases h
  split at h
  · cases h
  rename_i hblocked hroot hwrite
  cases h
  exact ⟨hpath, by simpa using hblocked, by simpa using hroot, by simpa using hwrite⟩

/-- What an authorized target has been compared with. -/
structure Checked (glob : String → String → Bool) (ws : ResolvedWorkspace) (t : Tree) (input : String)
    (a : AuthorizedWritePath) : Prop where
  logical : authorizeWriteLogical glob ws input = .ok a.logicalPath
  absolute : a.absolutePath = toNativeAbsolute ws.rootPath a.logicalPath
  probed : probeTarget glob ws t a.logicalPath a.absolutePath = .ok a.created
  parent : ∀ loc, realpath t a.absolutePath.dropLast = .ok loc → ws.canonicalRootPath <+: loc
  target : a.created = false →
    ∃ loc, realpath t a.absolutePath = .ok loc ∧ ws.canonicalRootPath <+: loc

theorem authorizeWriteTarget_ok {a : AuthorizedWritePath} (h : authorizeWriteTarget glob ws t input = .ok a) :
    Checked glob ws t input a := by
  obtain ⟨path, hpath, h⟩ := bind_ok.mp h
  obtain ⟨created, hcreated, h⟩ := bind_ok.mp h
  split at h
  · rename_i e hparent
    split at h
    · rename_i hnew
      cases h
      refine ⟨hpath, rfl, hcreated, ?_, ?_⟩
      · intro loc hloc
        rw [hparent] at hloc
        cases hloc
      · intro hold
        rw [hnew] at hold
        cases hold
    · cases h
  · rename_i parentLoc hparent
    split at h
    · cases h
    rename_i hinside
    have hinside : ws.canonicalRootPath <+: parentLoc := by simpa [isContained] using hinside
    have hchecked : ∀ loc, realpath t (toNativeAbsolute ws.rootPath path).dropLast = .ok loc →
        ws.canonicalRootPath <+: loc := by
      intro loc hloc
      rw [hparent] at hloc
      cases hloc
      exact hinside
    split at h
    · rename_i hnew
      cases h
      refine ⟨hpath, rfl, hcreated, hchecked, ?_⟩
      intro hold
      rw [hnew] at hold
      cases hold
    · split at h
      · cases h
      · rename_i loc hloc
        split at h
        · cases h
        · rename_i hcanonical
          cases h
          exact ⟨hpath, rfl, hcreated, hchecked, fun _ =>
            ⟨loc, hloc, by simpa [isContained] using hcanonical⟩⟩

end Authorized

section Writes

variable {glob : String → String → Bool} {ws : ResolvedWorkspace} {t : Tree} {input content random : String}

theorem liftErrno_ok {α : Type} {x : Except Errno α} {a : α} (h : liftErrno x = .ok a) : x = .ok a := by
  cases x with
  | ok b =>
    cases h
    rfl
  | error e => cases h

/-- A write goes to the directory its path leads to, and makes the missing
directories of the path. -/
structure Places (ws : ResolvedWorkspace) (t : Tree) (path : List String) (written : Written) : Prop where
  frame : ∀ loc, loc ∉ written.touched → written.tree.nodes loc = t.nodes loc
  below : ∀ loc ∈ written.touched, anchor t (toNativeAbsolute ws.rootPath path).dropLast <+: loc
  checked : ∀ loc, realpath t (toNativeAbsolute ws.rootPath path).dropLast = .ok loc →
    ws.canonicalRootPath <+: loc
  started : (∃ e, realpath t (toNativeAbsolute ws.rootPath path).dropLast = .error e) →
    ∃ name, anchor t (toNativeAbsolute ws.rootPath path).dropLast ++ [name] ∈ written.touched ∧
      t.nodes (anchor t (toNativeAbsolute ws.rootPath path).dropLast ++ [name]) = none

theorem writeFile_places {written : Written} {path : List String}
    (hpath : normalizeRelativePath input false = .ok path)
    (h : writeFile glob ws t input content random = .ok written) : Places ws t path written := by
  obtain ⟨a, hauth, h⟩ := bind_ok.mp h
  have hchecked := authorizeWriteTarget_ok hauth
  obtain ⟨hnormal, _⟩ := authorizeWriteLogical_ok hchecked.logical
  rw [hpath] at hnormal
  cases hnormal
  split at h
  · cases h
  obtain ⟨⟨t1, made⟩, hmade, h⟩ := bind_ok.mp h
  obtain ⟨⟨t2, temp⟩, htemp, h⟩ := bind_ok.mp h
  obtain ⟨⟨t3, target⟩, htarget, h⟩ := bind_ok.mp h
  cases h
  have hparent := hchecked.parent
  rw [hchecked.absolute] at hmade htemp htarget hparent
  set parent := (toNativeAbsolute ws.rootPath a.logicalPath).dropLast with hparentDef
  have hnames : ∀ name ∈ parent.reverse, isName name = true := by
    intro name hmem
    have hmem := List.mem_of_mem_dropLast (List.mem_reverse.mp hmem)
    exact toNativeAbsolute_names ws.rootPath (normalizeRelativePath_ne_nil hpath) name hmem
  obtain ⟨names, hmakes⟩ := mkdirs_makes hnames (liftErrno_ok hmade)
  rw [List.reverse_reverse] at hmakes
  obtain ⟨dir, hdir, _, rfl, hadds⟩ := create_ok (liftErrno_ok htemp)
  obtain ⟨dir', hdir', rfl, hrenamed⟩ := rename_ok (liftErrno_ok htarget)
  rw [realpath_extends hadds.larger hdir] at hdir'
  cases hdir'
  rw [hmakes.reached] at hdir
  cases hdir
  refine ⟨?_, ?_, hparent, ?_⟩
  · intro loc hloc
    simp only [List.mem_append, List.mem_cons, List.not_mem_nil, or_false, not_or] at hloc
    rw [hrenamed loc hloc.2.1 hloc.2.2, hadds.frame loc hloc.2.1, hmakes.frame loc hloc.1]
  · intro loc hloc
    simp only [List.mem_append, List.mem_cons, List.not_mem_nil, or_false] at hloc
    rcases hloc with hloc | rfl | rfl
    · obtain ⟨ns, _, _, rfl⟩ := (hmakes.chain loc).mp hloc
      exact List.prefix_append _ _
    · rw [List.append_assoc]
      exact List.prefix_append _ _
    · rw [List.append_assoc]
      exact List.prefix_append _ _
  · intro hmissing
    obtain ⟨name, rest, rfl⟩ := List.exists_cons_of_ne_nil (makes_nonempty hmakes hmissing)
    have hmem : anchor t parent ++ [name] ∈ made :=
      (hmakes.chain _).mpr ⟨[name], by simp, by simp, rfl⟩
    exact ⟨name, List.mem_append_left _ hmem, hmakes.new _ hmem⟩

/-- A write stays inside the workspace if and only if the deepest directory
above its target that is there does. -/
theorem writeFile_contained (glob : String → String → Bool) (ws : ResolvedWorkspace) (t : Tree)
    (input content random : String) (path : List String) (written : Written)
    (hroot : realpath t ws.rootPath = .ok ws.canonicalRootPath)
    (hpath : normalizeRelativePath input false = .ok path)
    (h : writeFile glob ws t input content random = .ok written) :
    (∀ loc, loc ∉ written.touched → written.tree.nodes loc = t.nodes loc) ∧
      ((∀ loc ∈ written.touched, ws.canonicalRootPath <+: loc) ↔
        ws.canonicalRootPath <+: anchor t (toNativeAbsolute ws.rootPath path).dropLast) := by
  have hplaces := writeFile_places hpath h
  refine ⟨hplaces.frame, ?_⟩
  constructor
  · intro hinside
    cases hparent : realpath t (toNativeAbsolute ws.rootPath path).dropLast with
    | ok loc =>
      rw [anchor_reached hparent]
      exact hplaces.checked loc hparent
    | error e =>
      obtain ⟨name, hmem, hnew⟩ := hplaces.started ⟨e, hparent⟩
      rcases List.prefix_concat_iff.mp (hinside _ hmem) with heq | hprefix
      · obtain ⟨node, hnode, _⟩ := realpath_node hroot
        rw [heq, hnew] at hnode
        cases hnode
      · exact hprefix
  · intro hanchor loc hloc
    exact hanchor.trans (hplaces.below loc hloc)

section Linked

/-- The workspace `/w`, with nothing in it. -/
def workspaceTree : Tree := (Tree.empty 8).set [] "w" (some .dir) rfl (by decide)

theorem workspace_dir : workspaceTree.nodes ["w"] = some .dir := by decide

/-- `/w/a` is a link to the directory `/out` beside the workspace `/w`. -/
def linkedTree : Tree :=
  let outside := (Tree.empty 8).set [] "out" (some .dir) rfl (by decide)
  let root := outside.set [] "w" (some .dir) (by decide) (by decide)
  root.set ["w"] "a" (some (.link true ["out"])) (by decide) (by decide)

def openWorkspace : ResolvedWorkspace where
  rootPath := ["w"]
  canonicalRootPath := ["w"]
  allowedRoots := [⟨[], ["w"], .directory⟩]
  blockedGlobs := []
  allowWrites := [[]]
  maxFileBytes := 100
  rules := by simp

/-- The content a write leaves at a location. -/
def contentAt (written : Except FileError Written) (loc : Location) : Option Node :=
  match written with
  | .ok written => written.tree.nodes loc
  | .error _ => none

theorem contentAt_some {written : Except FileError Written} {loc : Location} {node : Node}
    (h : contentAt written loc = some node) :
    ∃ w, written = .ok w ∧ w.tree.nodes loc = some node := by
  cases written with
  | ok w => exact ⟨w, rfl, h⟩
  | error e => cases h

/-- `a/b/c.txt` is written to `/out/b/c.txt`. -/
theorem linked_write_escapes :
    realpath linkedTree openWorkspace.rootPath = .ok openWorkspace.canonicalRootPath ∧
      ∃ written, writeFile (fun _ _ => false) openWorkspace linkedTree "a/b/c.txt" "text" "00" = .ok written ∧
        linkedTree.nodes ["out", "b", "c.txt"] = none ∧
        written.tree.nodes ["out", "b", "c.txt"] = some (.file "text") ∧
        ¬ openWorkspace.canonicalRootPath <+: ["out", "b", "c.txt"] := by
  have hrun : realpath linkedTree openWorkspace.rootPath = .ok openWorkspace.canonicalRootPath ∧
      linkedTree.nodes ["out", "b", "c.txt"] = none ∧
      contentAt (writeFile (fun _ _ => false) openWorkspace linkedTree "a/b/c.txt" "text" "00")
        ["out", "b", "c.txt"] = some (.file "text") := by decide +kernel
  obtain ⟨hroot, hnew, hcontent⟩ := hrun
  obtain ⟨written, hwritten, hnode⟩ := contentAt_some hcontent
  exact ⟨hroot, written, hwritten, hnew, hnode, by decide⟩

/-- Nothing is above `b/c.txt` but the workspace itself. -/
theorem writeFile_contained_new :
    ∃ written, writeFile (fun _ _ => false) openWorkspace linkedTree "b/c.txt" "text" "00" = .ok written ∧
      ∀ loc ∈ written.touched, ["w"] <+: loc := by
  have hrun : realpath linkedTree openWorkspace.rootPath = .ok openWorkspace.canonicalRootPath ∧
      normalizeRelativePath "b/c.txt" false = .ok ["b", "c.txt"] ∧
      contentAt (writeFile (fun _ _ => false) openWorkspace linkedTree "b/c.txt" "text" "00")
        ["w", "b", "c.txt"] = some (.file "text") ∧
      openWorkspace.canonicalRootPath <+:
        anchor linkedTree (toNativeAbsolute openWorkspace.rootPath ["b", "c.txt"]).dropLast := by
          decide +kernel
  obtain ⟨hroot, hpath, hcontent, hanchor⟩ := hrun
  obtain ⟨written, hwritten, _⟩ := contentAt_some hcontent
  have hcontained := writeFile_contained _ _ _ _ _ _ ["b", "c.txt"] written hroot hpath hwritten
  exact ⟨written, hwritten, hcontained.2.mpr hanchor⟩

end Linked

end Writes

end AccessStack.Files
