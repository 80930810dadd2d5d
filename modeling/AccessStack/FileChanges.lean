import AccessStack.FileTree
import AccessStack.Rows

/-!
# What the operations on a tree change

`mkdirs` starts from the deepest directory that is there, wherever the links
of the path have led to, and makes a chain of directories below it. A file is
created and renamed in the directory its path leads to.
-/

set_option autoImplicit false

namespace AccessStack.FileTree
open AccessStack.Rows

variable {t t' : Tree} {parent : List String} {name : String}

theorem directory_ok {dir : { loc // t.nodes loc = some .dir }} :
    directory t parent = .ok dir ↔ realpath t parent = .ok dir.1 := by
  constructor
  · intro h
    obtain ⟨loc, hloc, h⟩ := bind_ok.mp h
    split at h
    · cases h
      exact hloc
    · cases h
  · intro h
    simp [directory, h, bind, Except.bind, dir.2]

/-- The second tree has one more entry. -/
structure Adds (t : Tree) (loc : Location) (node : Node) (t' : Tree) : Prop where
  new : t.nodes loc = none
  added : t'.nodes loc = some node
  frame : ∀ x, x ≠ loc → t'.nodes x = t.nodes x
  maxLinks : t'.maxLinks = t.maxLinks

theorem Adds.larger {loc : Location} {node : Node} (h : Adds t loc node t') : Extends t t' := by
  refine ⟨?_, h.maxLinks⟩
  intro x y hx
  have hne : x ≠ loc := by
    rintro rfl
    rw [h.new] at hx
    cases hx
  rw [h.frame x hne]
  exact hx

theorem adds_set {dir : Location} (node : Node) (hdir : t.nodes dir = some .dir)
    (hnew : t.nodes (dir ++ [name]) = none) (hold : t.nodes (dir ++ [name]) ≠ some .dir) :
    Adds t (dir ++ [name]) node (t.set dir name (some node) hdir hold) where
  new := hnew
  added := t.set_self ..
  frame _ hx := t.set_other dir name _ hdir hold hx
  maxLinks := rfl

theorem mkdir_ok {loc : Location} (h : mkdir t parent name = .ok (t', loc)) :
    ∃ dir, realpath t parent = .ok dir ∧ t.nodes dir = some .dir ∧ isName name = true ∧
      loc = dir ++ [name] ∧ Adds t loc .dir t' := by
  obtain ⟨dir, hdir, h⟩ := bind_ok.mp h
  split at h
  · rename_i hnew
    split at h
    · rename_i hname
      cases h
      exact ⟨dir.1, directory_ok.mp hdir, dir.2, hname, rfl, adds_set .dir dir.2 hnew _⟩
    · cases h
  · cases h

theorem create_ok {content : String} {loc : Location}
    (h : create t parent name content = .ok (t', loc)) :
    ∃ dir, realpath t parent = .ok dir ∧ t.nodes dir = some .dir ∧ loc = dir ++ [name] ∧
      Adds t loc (.file content) t' := by
  obtain ⟨dir, hdir, h⟩ := bind_ok.mp h
  split at h
  · rename_i hnew
    cases h
    exact ⟨dir.1, directory_ok.mp hdir, dir.2, rfl, adds_set _ dir.2 hnew _⟩
  · cases h

theorem rename_ok {old new : String} {loc : Location}
    (h : rename t parent old new = .ok (t', loc)) :
    ∃ dir, realpath t parent = .ok dir ∧ loc = dir ++ [new] ∧
      ∀ x, x ≠ dir ++ [old] → x ≠ dir ++ [new] → t'.nodes x = t.nodes x := by
  obtain ⟨dir, hdir, h⟩ := bind_ok.mp h
  refine ⟨dir.1, directory_ok.mp hdir, ?_⟩
  split at h
  · split at h
    · cases h
      exact ⟨rfl, fun _ _ _ => rfl⟩
    · split at h
      · cases h
        refine ⟨rfl, ?_⟩
        intro x hold hnew
        rw [Tree.set_other _ _ _ _ _ _ hnew, Tree.set_other _ _ _ _ _ _ hold]
      · cases h
  · cases h

theorem mkdir_enoent (h : mkdir t parent name = .error .enoent) :
    ∃ e, realpath t parent = .error e := by
  cases hr : realpath t parent with
  | error e => exact ⟨e, rfl⟩
  | ok loc =>
    exfalso
    simp only [mkdir, directory, hr, bind, Except.bind] at h
    split at h
    · rename_i heq
      split at heq <;> cases heq
      cases h
    · repeat' split at h
      all_goals cases h

theorem existing_ok {path : List String} {e : Errno} {made : List Location}
    (h : existing t path e = .ok (t', made)) :
    t' = t ∧ made = [] ∧ ∃ loc, realpath t path = .ok loc ∧ t.nodes loc = some .dir := by
  unfold existing at h
  split at h
  · cases h
  split at h
  · rename_i hstat
    cases h
    refine ⟨rfl, rfl, ?_⟩
    obtain ⟨loc, hloc, hnode⟩ := bind_ok.mp hstat
    split at hnode
    · rename_i node hn
      cases hnode
      exact ⟨loc, hloc, hn⟩
    · cases hnode
  · cases h
  · cases h

section Anchors

theorem anchor_reached {path : List String} {loc : Location} (h : realpath t path = .ok loc) :
    anchor t path = loc := by
  rcases List.eq_nil_or_concat path with rfl | ⟨above, last, rfl⟩
  · rw [realpath_nil] at h
    cases h
    rfl
  · rw [List.concat_eq_append] at h ⊢
    simp [anchor, anchorAbove, h]

theorem anchor_missing {e : Errno} (h : realpath t (parent ++ [name]) = .error e) :
    anchor t (parent ++ [name]) = anchor t parent := by
  simp [anchor, anchorAbove, h]

end Anchors

/-- What `mkdirs` makes: a chain of new directories below the anchor, down to
where the path now leads. -/
structure Makes (t : Tree) (path : List String) (t' : Tree) (made : List Location)
    (names : List String) : Prop where
  larger : Extends t t'
  frame : ∀ x, x ∉ made → t'.nodes x = t.nodes x
  reached : realpath t' path = .ok (anchor t path ++ names)
  directory : t'.nodes (anchor t path ++ names) = some .dir
  chain : ∀ x, x ∈ made ↔ ∃ ns, ns ≠ [] ∧ ns <+: names ∧ x = anchor t path ++ ns
  new : ∀ x ∈ made, t.nodes x = none

theorem makes_none {path : List String} {loc : Location} (h : realpath t path = .ok loc)
    (hdir : t.nodes loc = some .dir) : Makes t path t [] [] := by
  have hanchor := anchor_reached h
  refine ⟨Extends.refl t, fun _ _ => rfl, ?_, ?_, ?_, ?_⟩
  · rw [hanchor, List.append_nil]
    exact h
  · rw [hanchor, List.append_nil]
    exact hdir
  · intro x
    simp only [List.not_mem_nil, false_iff]
    rintro ⟨ns, hne, hns, _⟩
    exact hne (List.prefix_nil.mp hns)
  · intro x hx
    cases hx

/-- One more directory at the end of the chain. -/
theorem makes_snoc {t1 t2 : Tree} {made : List Location} {names : List String}
    (h : Makes t parent t1 made names) (hname : isName name = true)
    (hanchor : anchor t (parent ++ [name]) = anchor t parent)
    (hadd : Adds t1 (anchor t parent ++ names ++ [name]) .dir t2) :
    Makes t (parent ++ [name]) t2 (made ++ [anchor t parent ++ names ++ [name]]) (names ++ [name]) := by
  have hold := hadd.larger
  refine ⟨h.larger.trans hold, ?_, ?_, ?_, ?_, ?_⟩
  · intro x hx
    simp only [List.mem_append, List.mem_singleton, not_or] at hx
    rw [hadd.frame x hx.2, h.frame x hx.1]
  · rw [hanchor, ← List.append_assoc]
    exact realpath_entry (realpath_extends hold h.reached) (hold.nodes _ _ h.directory) hname hadd.added
      (by simp)
  · rw [hanchor, ← List.append_assoc]
    exact hadd.added
  · intro x
    rw [hanchor, List.mem_append, h.chain, List.mem_singleton]
    constructor
    · rintro (⟨ns, hne, hns, rfl⟩ | rfl)
      · exact ⟨ns, hne, hns.trans (List.prefix_append _ _), rfl⟩
      · exact ⟨names ++ [name], by simp, List.prefix_rfl, by simp⟩
    · rintro ⟨ns, hne, hns, rfl⟩
      rcases List.prefix_concat_iff.mp (by simpa using hns) with rfl | hns
      · exact .inr (by simp)
      · exact .inl ⟨ns, hne, hns, rfl⟩
  · intro x hx
    rcases List.mem_append.mp hx with hx | hx
    · exact h.new x hx
    · rw [List.mem_singleton.mp hx]
      by_contra hsome
      obtain ⟨node, hnode⟩ := Option.ne_none_iff_exists'.mp hsome
      have := h.larger.nodes _ _ hnode
      rw [hadd.new] at this
      cases this

/-- A path that led nowhere has a new directory on it. -/
theorem makes_nonempty {made : List Location} {names : List String}
    (h : Makes t parent t' made names) (hmissing : ∃ e, realpath t parent = .error e) :
    names ≠ [] := by
  rintro rfl
  have hback : Extends t' t := by
    refine ⟨?_, h.larger.maxLinks.symm⟩
    intro x node hx
    rw [← h.frame x, hx]
    intro hmem
    obtain ⟨ns, hne, hns, _⟩ := (h.chain x).mp hmem
    exact hne (List.prefix_nil.mp hns)
  obtain ⟨e, he⟩ := hmissing
  rw [realpath_extends hback h.reached] at he
  cases he

/-- A directory that has just been made is empty. -/
theorem makes_empty {made : List Location} {names : List String}
    (h : Makes t parent t' made names) (hmissing : ∃ e, realpath t parent = .error e) (name : String) :
    t'.nodes (anchor t parent ++ names ++ [name]) = none := by
  have hne := makes_nonempty h hmissing
  have hmade : anchor t parent ++ names ∈ made := (h.chain _).mpr ⟨names, hne, List.prefix_rfl, rfl⟩
  have hbelow : anchor t parent ++ names ++ [name] ∉ made := by
    intro hmem
    obtain ⟨ns, _, hns, heq⟩ := (h.chain _).mp hmem
    have hlength := hns.length_le
    have heq' := congrArg List.length heq
    simp only [List.length_append, List.length_singleton] at heq'
    omega
  rw [h.frame _ hbelow]
  exact t.absent_below (by simp [h.new _ hmade]) name

attribute [local simp] mkdirs in
theorem mkdirs_makes {above : List String} (hnames : ∀ name ∈ above, isName name = true)
    {made : List Location} (h : mkdirs t above = .ok (t', made)) :
    ∃ names, Makes t above.reverse t' made names := by
  induction above generalizing t' made with
  | nil =>
    cases h
    exact ⟨[], makes_none (realpath_nil t) t.root⟩
  | cons name above ih =>
    have hname := hnames name (by simp)
    rw [List.reverse_cons]
    rw [mkdirs] at h
    split at h
    · rename_i t1 loc hmk
      cases h
      obtain ⟨dir, hdir, hnode, _, rfl, hadd⟩ := mkdir_ok hmk
      have hanchor := anchor_missing (realpath_missing hdir hnode hname hadd.new)
      have hstart := makes_none hdir hnode
      rw [← anchor_reached hdir] at hadd ⊢
      refine ⟨[name], ?_⟩
      simpa using makes_snoc hstart hname hanchor (by simpa using hadd)
    · rename_i hmk
      have hmissing := mkdir_enoent hmk
      obtain ⟨⟨t1, made1⟩, hmade, h⟩ := bind_ok.mp h
      obtain ⟨names, hmakes⟩ := ih (fun n hn => hnames n (by simp [hn])) hmade
      have hanchor : anchor t (above.reverse ++ [name]) = anchor t above.reverse := by
        cases hr : realpath t (above.reverse ++ [name]) with
        | error e => exact anchor_missing hr
        | ok loc =>
          obtain ⟨dir, hdir, _⟩ := realpath_parent hr
          obtain ⟨e, he⟩ := hmissing
          rw [hdir] at he
          cases he
      simp only at h
      split at h
      · rename_i t2 loc hmk2
        cases h
        obtain ⟨dir, hdir, hnode, _, rfl, hadd⟩ := mkdir_ok hmk2
        rw [hmakes.reached] at hdir
        cases hdir
        exact ⟨names ++ [name], makes_snoc hmakes hname hanchor hadd⟩
      · rename_i e hmk2
        exfalso
        have hempty := makes_empty hmakes hmissing name
        have hdirectory : FileTree.directory t1 above.reverse =
            .ok ⟨anchor t above.reverse ++ names, hmakes.directory⟩ := directory_ok.mpr hmakes.reached
        simp only [mkdir, hdirectory, bind, Except.bind, hempty, hname, dite_true, if_true] at hmk2
        cases hmk2
    · rename_i e _ _
      obtain ⟨rfl, rfl, loc, hloc, hnode⟩ := existing_ok h
      exact ⟨[], makes_none hloc hnode⟩

end AccessStack.FileTree
