import Mathlib

/-!
# Trees of directories, files and symbolic links

A location is the list of names from the root to an entry. A path is a list
of names too, but a name on it may lead through a link, and only `resolve`
finds the location it means. At most `maxLinks` links are followed on one
path. The operations are those of a POSIX file system without permissions.
-/

set_option autoImplicit false

namespace AccessStack.FileTree

abbrev Location := List String

inductive Node where
  | dir
  | file (content : String)
  | link (absolute : Bool) (target : List String)
  deriving DecidableEq

inductive Errno where
  | enoent | enotdir | eexist | eloop | eisdir
  deriving DecidableEq

/-- Every entry but the root is in a directory. -/
structure Tree where
  nodes : Location → Option Node
  maxLinks : ℕ
  root : nodes [] = some .dir
  parents : ∀ loc name, (nodes (loc ++ [name])).isSome = true → nodes loc = some .dir

def Tree.empty (maxLinks : ℕ) : Tree where
  nodes loc := if loc = [] then some .dir else none
  maxLinks
  root := rfl
  parents loc name h := by simp at h

theorem Tree.absent_below (t : Tree) {loc : Location} (h : t.nodes loc ≠ some .dir) (name : String) :
    t.nodes (loc ++ [name]) = none := by
  by_contra hsome
  exact h (t.parents loc name (Option.isSome_iff_ne_none.mpr hsome))

/-- The tree with another entry, or none, in a directory. -/
def Tree.set (t : Tree) (dir : Location) (name : String) (node : Option Node)
    (hdir : t.nodes dir = some .dir) (hold : t.nodes (dir ++ [name]) ≠ some .dir) : Tree where
  nodes := Function.update t.nodes (dir ++ [name]) node
  maxLinks := t.maxLinks
  root := by
    rw [Function.update_of_ne (by simp)]
    exact t.root
  parents loc child h := by
    by_cases hparent : loc = dir ++ [name]
    · subst hparent
      rw [Function.update_of_ne (by simp), t.absent_below hold] at h
      cases h
    · rw [Function.update_of_ne hparent]
      by_cases hentry : loc ++ [child] = dir ++ [name]
      · rw [(List.append_inj' hentry rfl).1]
        exact hdir
      · rw [Function.update_of_ne hentry] at h
        exact t.parents loc child h

@[simp] theorem Tree.set_maxLinks (t : Tree) (dir : Location) (name : String) (node : Option Node)
    (hdir : t.nodes dir = some .dir) (hold : t.nodes (dir ++ [name]) ≠ some .dir) :
    (t.set dir name node hdir hold).maxLinks = t.maxLinks := rfl

@[simp] theorem Tree.set_self (t : Tree) (dir : Location) (name : String) (node : Option Node)
    (hdir : t.nodes dir = some .dir) (hold : t.nodes (dir ++ [name]) ≠ some .dir) :
    (t.set dir name node hdir hold).nodes (dir ++ [name]) = node :=
  Function.update_self ..

theorem Tree.set_other (t : Tree) (dir : Location) (name : String) (node : Option Node)
    (hdir : t.nodes dir = some .dir) (hold : t.nodes (dir ++ [name]) ≠ some .dir) {loc : Location}
    (h : loc ≠ dir ++ [name]) : (t.set dir name node hdir hold).nodes loc = t.nodes loc :=
  Function.update_of_ne h ..

section Resolution

/-- The names of a path from a directory on. A link is handed on with the
names that remain. -/
def follow (t : Tree) (next : Location → List String → Except Errno Location) :
    Location → List String → Except Errno Location
  | loc, [] => .ok loc
  | loc, name::rest =>
    if name = "" ∨ name = "." then follow t next loc rest
    else if name = ".." then follow t next loc.dropLast rest
    else match t.nodes (loc ++ [name]) with
      | none => .error .enoent
      | some .dir => follow t next (loc ++ [name]) rest
      | some (.file _) => if rest = [] then .ok (loc ++ [name]) else .error .enotdir
      | some (.link absolute target) => next (if absolute then [] else loc) (target ++ rest)

def resolve (t : Tree) : ℕ → Location → List String → Except Errno Location
  | 0 => follow t fun _ _ => .error .eloop
  | links+1 => follow t (resolve t links)

def realpath (t : Tree) (path : List String) : Except Errno Location :=
  resolve t t.maxLinks [] path

/-- A name that is an entry of a directory. -/
def isName (name : String) : Bool := name ≠ "" && name ≠ "." && name ≠ ".."

/-- The kind of entry a path leads to; it is no link. -/
def stat (t : Tree) (path : List String) : Except Errno Node := do
  let loc ← realpath t path
  match t.nodes loc with
  | some node => .ok node
  | none => .error .enoent

end Resolution

section Resolved

variable {t t' : Tree}

attribute [local simp] follow in
/-- What a path leads to is there and is no link. -/
theorem follow_node {next : Location → List String → Except Errno Location}
    (hnext : ∀ loc segs loc', t.nodes loc = some .dir → next loc segs = .ok loc' →
      ∃ node, t.nodes loc' = some node ∧ ∀ absolute target, node ≠ .link absolute target)
    {segs : List String} {loc loc' : Location} (hloc : t.nodes loc = some .dir)
    (h : follow t next loc segs = .ok loc') :
    ∃ node, t.nodes loc' = some node ∧ ∀ absolute target, node ≠ .link absolute target := by
  induction segs generalizing loc with
  | nil =>
    cases h
    exact ⟨.dir, hloc, by simp⟩
  | cons name rest ih =>
    rw [follow] at h
    split at h
    · exact ih hloc h
    split at h
    · apply ih _ h
      rcases List.eq_nil_or_concat loc with rfl | ⟨above, last, rfl⟩
      · exact hloc
      · rw [List.concat_eq_append, List.dropLast_concat]
        rw [List.concat_eq_append] at hloc
        exact t.parents above last (by simp [hloc])
    · split at h
      · cases h
      · rename_i hdir
        exact ih hdir h
      · rename_i content hfile
        split at h
        · cases h
          exact ⟨.file content, hfile, by simp⟩
        · cases h
      · rename_i absolute target hlink
        apply hnext _ _ _ _ h
        split
        · exact t.root
        · exact hloc

theorem resolve_node {links : ℕ} {segs : List String} {loc loc' : Location}
    (hloc : t.nodes loc = some .dir) (h : resolve t links loc segs = .ok loc') :
    ∃ node, t.nodes loc' = some node ∧ ∀ absolute target, node ≠ .link absolute target := by
  induction links generalizing loc loc' segs with
  | zero => exact follow_node (fun _ _ _ _ h => by cases h) hloc h
  | succ links ih => exact follow_node (fun _ _ _ hl h => ih hl h) hloc h

theorem realpath_node {path : List String} {loc : Location} (h : realpath t path = .ok loc) :
    ∃ node, t.nodes loc = some node ∧ ∀ absolute target, node ≠ .link absolute target :=
  resolve_node t.root h

/-- Every entry of the first tree is one of the second. -/
structure Extends (t t' : Tree) : Prop where
  nodes : ∀ loc node, t.nodes loc = some node → t'.nodes loc = some node
  maxLinks : t'.maxLinks = t.maxLinks

theorem Extends.refl (t : Tree) : Extends t t := ⟨fun _ _ h => h, rfl⟩

theorem Extends.trans {t1 t2 t3 : Tree} (h : Extends t1 t2) (h' : Extends t2 t3) : Extends t1 t3 :=
  ⟨fun loc node hn => h'.nodes loc node (h.nodes loc node hn), h'.maxLinks.trans h.maxLinks⟩

theorem follow_extends (h : Extends t t') {next next' : Location → List String → Except Errno Location}
    (hnext : ∀ loc segs loc', next loc segs = .ok loc' → next' loc segs = .ok loc')
    {segs : List String} {loc loc' : Location} (hf : follow t next loc segs = .ok loc') :
    follow t' next' loc segs = .ok loc' := by
  induction segs generalizing loc with
  | nil => exact hf
  | cons name rest ih =>
    rw [follow] at hf ⊢
    split at hf
    · rename_i hname
      rw [if_pos hname]
      exact ih hf
    rename_i hname
    rw [if_neg hname]
    split at hf
    · rename_i hdots
      rw [if_pos hdots]
      exact ih hf
    rename_i hdots
    rw [if_neg hdots]
    split at hf
    · cases hf
    · rename_i hdir
      rw [h.nodes _ _ hdir]
      exact ih hf
    · rename_i hfile
      rw [h.nodes _ _ hfile]
      exact hf
    · rename_i hlink
      rw [h.nodes _ _ hlink]
      exact hnext _ _ _ hf

theorem resolve_extends (h : Extends t t') {links : ℕ} {segs : List String} {loc loc' : Location}
    (hr : resolve t links loc segs = .ok loc') : resolve t' links loc segs = .ok loc' := by
  induction links generalizing loc loc' segs with
  | zero => exact follow_extends h (fun _ _ _ hn => hn) hr
  | succ links ih => exact follow_extends h (fun _ _ _ hn => ih hn) hr

theorem realpath_extends (h : Extends t t') {path : List String} {loc : Location}
    (hr : realpath t path = .ok loc) : realpath t' path = .ok loc := by
  unfold realpath at hr ⊢
  rw [h.maxLinks]
  exact resolve_extends h hr

/-- From the directory a path leads to, the rest of a longer path goes on
with the links that are left. -/
theorem follow_append {next : Location → List String → Except Errno Location} {links : ℕ}
    (hresolve : resolve t links = follow t next)
    (hnext : ∀ loc segs loc' rest, next loc segs = .ok loc' → t.nodes loc' = some .dir →
      ∃ left, next loc (segs ++ rest) = resolve t left loc' rest)
    {segs : List String} {loc loc' : Location} (h : follow t next loc segs = .ok loc')
    (hdir : t.nodes loc' = some .dir) (rest : List String) :
    ∃ left, follow t next loc (segs ++ rest) = resolve t left loc' rest := by
  induction segs generalizing loc with
  | nil =>
    cases h
    refine ⟨links, ?_⟩
    rw [hresolve]
    rfl
  | cons name more ih =>
    rw [follow] at h
    rw [List.cons_append, follow]
    split at h
    · rename_i hname
      rw [if_pos hname]
      exact ih h
    rename_i hname
    rw [if_neg hname]
    split at h
    · rename_i hdots
      rw [if_pos hdots]
      exact ih h
    rename_i hdots
    rw [if_neg hdots]
    split at h
    · cases h
    · exact ih h
    · rename_i hfile
      split at h
      · cases h
        rw [hfile] at hdir
        cases hdir
      · cases h
    · rw [← List.append_assoc]
      exact hnext _ _ _ _ h hdir

theorem resolve_append {links : ℕ} {segs : List String} {loc loc' : Location}
    (h : resolve t links loc segs = .ok loc') (hdir : t.nodes loc' = some .dir) (rest : List String) :
    ∃ left, resolve t links loc (segs ++ rest) = resolve t left loc' rest := by
  induction links generalizing loc loc' segs rest with
  | zero =>
    have hstart : resolve t 0 = follow t fun _ _ => .error .eloop := rfl
    exact follow_append hstart (fun _ _ _ _ hn => by cases hn) h hdir rest
  | succ links ih =>
    have hstart : resolve t (links+1) = follow t (resolve t links) := rfl
    exact follow_append hstart (fun _ _ _ rest' hn hd => ih hn hd rest') h hdir rest

/-- A path that leads somewhere leads through a directory. -/
theorem follow_init {next : Location → List String → Except Errno Location}
    (hnext : ∀ loc segs rest loc', t.nodes loc = some .dir → rest ≠ [] →
      next loc (segs ++ rest) = .ok loc' → ∃ dir, next loc segs = .ok dir ∧ t.nodes dir = some .dir)
    {segs rest : List String} (hrest : rest ≠ []) {loc loc' : Location}
    (hloc : t.nodes loc = some .dir) (h : follow t next loc (segs ++ rest) = .ok loc') :
    ∃ dir, follow t next loc segs = .ok dir ∧ t.nodes dir = some .dir := by
  induction segs generalizing loc with
  | nil => exact ⟨loc, rfl, hloc⟩
  | cons name more ih =>
    rw [List.cons_append, follow] at h
    rw [follow]
    split at h
    · rename_i hname
      rw [if_pos hname]
      exact ih hloc h
    rename_i hname
    rw [if_neg hname]
    split at h
    · rename_i hdots
      rw [if_pos hdots]
      refine ih ?_ h
      rcases List.eq_nil_or_concat loc with rfl | ⟨above, last, rfl⟩
      · exact hloc
      · rw [List.concat_eq_append, List.dropLast_concat]
        rw [List.concat_eq_append] at hloc
        exact t.parents above last (by simp [hloc])
    rename_i hdots
    rw [if_neg hdots]
    split at h
    · cases h
    · rename_i hdir
      exact ih hdir h
    · rw [if_neg (by simp [hrest])] at h
      cases h
    · rw [← List.append_assoc] at h
      refine hnext _ _ _ _ ?_ hrest h
      split
      · exact t.root
      · exact hloc

theorem resolve_init {links : ℕ} {segs rest : List String} (hrest : rest ≠ []) {loc loc' : Location}
    (hloc : t.nodes loc = some .dir) (h : resolve t links loc (segs ++ rest) = .ok loc') :
    ∃ dir, resolve t links loc segs = .ok dir ∧ t.nodes dir = some .dir := by
  induction links generalizing loc loc' segs rest with
  | zero => exact follow_init (fun _ _ _ _ _ _ hn => by cases hn) hrest hloc h
  | succ links ih => exact follow_init (fun _ _ _ _ hl hr hn => ih hr hl hn) hrest hloc h

theorem resolve_name (t : Tree) (links : ℕ) (loc : Location) {name : String} (hname : isName name = true) :
    resolve t links loc [name] = match t.nodes (loc ++ [name]) with
      | none => .error .enoent
      | some (.link absolute target) =>
        match links with
        | 0 => .error .eloop
        | left+1 => resolve t left (if absolute then [] else loc) target
      | some _ => .ok (loc ++ [name]) := by
  simp only [isName, ne_eq, decide_not, Bool.and_eq_true, Bool.not_eq_true', decide_eq_false_iff_not] at hname
  obtain ⟨⟨h1, h2⟩, h3⟩ := hname
  cases links with
  | zero =>
    simp only [resolve, follow, h1, h2, h3, or_self, if_false]
    cases t.nodes (loc ++ [name]) with
    | none => rfl
    | some node => cases node <;> simp
  | succ links =>
    simp only [resolve, follow, h1, h2, h3, or_self, if_false]
    cases t.nodes (loc ++ [name]) with
    | none => rfl
    | some node => cases node <;> simp

section Entries

variable {parent : List String} {loc : Location} {name : String}

theorem realpath_entry (hparent : realpath t parent = .ok loc) (hloc : t.nodes loc = some .dir)
    (hname : isName name = true) {node : Node} (hnode : t.nodes (loc ++ [name]) = some node)
    (hlink : ∀ absolute target, node ≠ .link absolute target) :
    realpath t (parent ++ [name]) = .ok (loc ++ [name]) := by
  obtain ⟨left, hleft⟩ := resolve_append hparent hloc [name]
  rw [realpath, hleft, resolve_name t left loc hname, hnode]
  cases node with
  | dir => rfl
  | file content => rfl
  | link absolute target => exact absurd rfl (hlink absolute target)

theorem realpath_missing (hparent : realpath t parent = .ok loc) (hloc : t.nodes loc = some .dir)
    (hname : isName name = true) (hnone : t.nodes (loc ++ [name]) = none) :
    realpath t (parent ++ [name]) = .error .enoent := by
  obtain ⟨left, hleft⟩ := resolve_append hparent hloc [name]
  rw [realpath, hleft, resolve_name t left loc hname, hnone]

theorem realpath_parent {loc' : Location} (h : realpath t (parent ++ [name]) = .ok loc') :
    ∃ dir, realpath t parent = .ok dir ∧ t.nodes dir = some .dir :=
  resolve_init (by simp) t.root h

theorem realpath_nil (t : Tree) : realpath t [] = .ok [] := by
  unfold realpath
  cases t.maxLinks <;> rfl

end Entries

/-- A location a path leads to has only names on it. -/
theorem follow_names {next : Location → List String → Except Errno Location}
    (hnext : ∀ loc segs loc', (∀ name ∈ loc, isName name = true) → next loc segs = .ok loc' →
      ∀ name ∈ loc', isName name = true)
    {segs : List String} {loc loc' : Location} (hloc : ∀ name ∈ loc, isName name = true)
    (h : follow t next loc segs = .ok loc') : ∀ name ∈ loc', isName name = true := by
  induction segs generalizing loc with
  | nil =>
    cases h
    exact hloc
  | cons name rest ih =>
    rw [follow] at h
    split at h
    · exact ih hloc h
    rename_i hdot
    split at h
    · exact ih (fun n hn => hloc n (List.mem_of_mem_dropLast hn)) h
    rename_i hdots
    have hentry : ∀ n ∈ loc ++ [name], isName n = true := by
      intro n hn
      rcases List.mem_append.mp hn with hn | hn
      · exact hloc n hn
      · simp only [not_or] at hdot
        simp [List.mem_singleton.mp hn, isName, hdot.1, hdot.2, hdots]
    split at h
    · cases h
    · exact ih hentry h
    · split at h
      · cases h
        exact hentry
      · cases h
    · apply hnext _ _ _ _ h
      split
      · simp
      · exact hloc

theorem resolve_names {links : ℕ} {segs : List String} {loc loc' : Location}
    (hloc : ∀ name ∈ loc, isName name = true) (h : resolve t links loc segs = .ok loc') :
    ∀ name ∈ loc', isName name = true := by
  induction links generalizing loc loc' segs with
  | zero => exact follow_names (fun _ _ _ _ h => by cases h) hloc h
  | succ links ih => exact follow_names (fun _ _ _ hl h => ih hl h) hloc h

/-- A location without a link on it leads to itself. -/
theorem realpath_location {loc : Location} (hnames : ∀ name ∈ loc, isName name = true) {node : Node}
    (hnode : t.nodes loc = some node) (hlink : ∀ absolute target, node ≠ .link absolute target) :
    realpath t loc = .ok loc := by
  induction loc using List.reverseRecOn generalizing node with
  | nil => exact realpath_nil t
  | append_singleton above name ih =>
    have hdir : t.nodes above = some .dir := t.parents above name (by simp [hnode])
    have habove : realpath t above = .ok above :=
      ih (fun n hn => hnames n (List.mem_append_left _ hn)) hdir (by simp)
    exact realpath_entry habove hdir (hnames name (by simp)) hnode hlink

theorem realpath_idem {path : List String} {loc : Location} (h : realpath t path = .ok loc) :
    realpath t loc = .ok loc := by
  obtain ⟨node, hnode, hlink⟩ := realpath_node h
  exact realpath_location (resolve_names (by simp) h) hnode hlink

/-- Below a directory a path without links on it leads where its names say. -/
theorem realpath_straight {parent names : List String} {base loc : Location}
    (hparent : realpath t parent = .ok base) (hnames : ∀ name ∈ names, isName name = true)
    (hlinks : ∀ above name, above ++ [name] <+: names → ∀ absolute target,
      t.nodes (base ++ above ++ [name]) ≠ some (.link absolute target))
    (h : realpath t (parent ++ names) = .ok loc) : loc = base ++ names := by
  induction names using List.reverseRecOn generalizing loc with
  | nil =>
    rw [List.append_nil] at h ⊢
    exact Except.ok.inj (h.symm.trans hparent)
  | append_singleton above name ih =>
    rw [← List.append_assoc] at h ⊢
    obtain ⟨dir, habove, hdir⟩ := realpath_parent h
    have hplace : dir = base ++ above := ih (fun n hn => hnames n (List.mem_append_left _ hn))
      (fun above' name' hleading => hlinks above' name' (hleading.trans (List.prefix_append _ _))) habove
    have hname := hnames name (by simp)
    subst hplace
    cases hnode : t.nodes (base ++ above ++ [name]) with
    | none =>
      rw [realpath_missing habove hdir hname hnode] at h
      cases h
    | some node =>
      have hlink : ∀ absolute target, node ≠ .link absolute target := by
        rintro absolute target rfl
        exact hlinks above name List.prefix_rfl absolute target hnode
      rw [realpath_entry habove hdir hname hnode hlink] at h
      exact (Except.ok.inj h).symm

end Resolved

section Operations

/-- The directory a path leads to. -/
def directory (t : Tree) (path : List String) : Except Errno { loc // t.nodes loc = some .dir } := do
  let loc ← realpath t path
  if h : t.nodes loc = some .dir then .ok ⟨loc, h⟩ else .error .enotdir

def mkdir (t : Tree) (parent : List String) (name : String) : Except Errno (Tree × Location) := do
  let dir ← directory t parent
  if h : t.nodes (dir.1 ++ [name]) = none then
    if isName name then .ok (t.set dir.1 name (some .dir) dir.2 (by simp [h]), dir.1 ++ [name])
    else .error .eexist
  else .error .eexist

/-- What `mkdir -p` makes of an error of `mkdir`: a directory that is there
is fine. -/
def existing (t : Tree) (path : List String) (e : Errno) : Except Errno (Tree × List Location) :=
  if e = .enotdir then .error e
  else
    match stat t path with
    | .ok .dir => .ok (t, [])
    | .ok _ => .error .eexist
    | .error e' => .error e'

/-- `mkdir(path, { recursive: true })` on the reversed path, with the
locations it makes. -/
def mkdirs (t : Tree) : List String → Except Errno (Tree × List Location)
  | [] => .ok (t, [])
  | name::above =>
    match mkdir t above.reverse name with
    | .ok (t', loc) => .ok (t', [loc])
    | .error .enoent => do
      let (t1, made) ← mkdirs t above
      match mkdir t1 above.reverse name with
      | .ok (t2, loc) => .ok (t2, made ++ [loc])
      | .error e => do
        let (t2, _) ← existing t1 (above.reverse ++ [name]) e
        return (t2, made)
    | .error e => existing t (above.reverse ++ [name]) e

/-- A new file in the directory a path leads to. -/
def create (t : Tree) (parent : List String) (name content : String) : Except Errno (Tree × Location) := do
  let dir ← directory t parent
  if h : t.nodes (dir.1 ++ [name]) = none then
    .ok (t.set dir.1 name (some (.file content)) dir.2 (by simp [h]), dir.1 ++ [name])
  else .error .eexist

/-- `rename` of a file within the directory a path leads to. A link or a file
of the new name is replaced. -/
def rename (t : Tree) (parent : List String) (old new : String) : Except Errno (Tree × Location) := do
  let dir ← directory t parent
  match hfile : t.nodes (dir.1 ++ [old]) with
  | some (.file content) =>
    if hsame : new = old then .ok (t, dir.1 ++ [new])
    else if hnew : t.nodes (dir.1 ++ [new]) ≠ some .dir then
      let removed := t.set dir.1 old none dir.2 (by simp [hfile])
      .ok (removed.set dir.1 new (some (.file content))
        (by rw [Tree.set_other _ _ _ _ _ _ (by simp)]; exact dir.2)
        (by rw [Tree.set_other _ _ _ _ _ _ (by simpa using hsame)]; exact hnew), dir.1 ++ [new])
    else .error .eisdir
  | _ => .error .enoent

end Operations

section Anchors

/-- The location of the deepest directory on a path that is there, from the
reversed path. -/
def anchorAbove (t : Tree) : List String → Location
  | [] => []
  | name::above =>
    match realpath t (above.reverse ++ [name]) with
    | .ok loc => loc
    | .error _ => anchorAbove t above

def anchor (t : Tree) (path : List String) : Location := anchorAbove t path.reverse

end Anchors

end AccessStack.FileTree
