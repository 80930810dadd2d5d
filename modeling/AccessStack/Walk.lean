import Mathlib

/-!
# Depth-first walks that refuse cycles

`visit` walks along `next` from one node and returns the nodes it has left,
in the order it left them. A node met again on the path from the root of the
walk is a cycle. The walk of all nodes of a finite closed domain succeeds
exactly when the nodes can be ranked so that every edge goes down; the fuel
only has to exceed the number of nodes.
-/

set_option autoImplicit false

namespace AccessStack.Walk

variable {α ε : Type} [DecidableEq α] (next : α → Option (List α)) (cycle missing : α → ε)

def visit : ℕ → List α → List α → α → Except ε (List α)
  | 0, _, _, a => .error (missing a)
  | fuel+1, path, visited, a =>
    if path.contains a then .error (cycle a)
    else if visited.contains a then .ok visited
    else match next a with
      | none => .error (missing a)
      | some children => (children.foldlM (visit fuel (a::path)) visited).map (· ++ [a])

def visitAll (fuel : ℕ) (roots : List α) : Except ε (List α) :=
  roots.foldlM (visit next cycle missing fuel []) []

/-- Every node follows all nodes it points to. -/
inductive Ordered : List α → Prop
  | nil : Ordered []
  | snoc {done : List α} {a : α} {children : List α} (h : Ordered done)
      (hn : next a = some children) (hc : ∀ c ∈ children, c ∈ done) : Ordered (done ++ [a])

def Ranks (rank : α → ℕ) (nodes : List α) : Prop :=
  ∀ a ∈ nodes, ∃ children, next a = some children ∧ ∀ c ∈ children, c ∈ nodes ∧ rank c < rank a

variable {next cycle missing}

omit [DecidableEq α] in
theorem fold_ordered {f : List α → α → Except ε (List α)}
    (hf : ∀ visited a done, f visited a = .ok done → Ordered next visited →
      Ordered next done ∧ visited ⊆ done ∧ a ∈ done)
    (roots visited done : List α) (h : roots.foldlM f visited = .ok done)
    (hv : Ordered next visited) :
    Ordered next done ∧ visited ⊆ done ∧ ∀ a ∈ roots, a ∈ done := by
  induction roots generalizing visited with
  | nil =>
    obtain rfl : visited = done := by simpa [pure, Except.pure] using h
    exact ⟨hv, List.Subset.refl _, by simp⟩
  | cons a roots ih =>
    rw [List.foldlM_cons] at h
    cases hm : f visited a with
    | error e => simp [hm, bind, Except.bind] at h
    | ok mid =>
      simp only [hm, bind, Except.bind] at h
      obtain ⟨ho, hs, ha⟩ := hf visited a mid hm hv
      obtain ⟨ho', hs', hr⟩ := ih mid h ho
      refine ⟨ho', List.Subset.trans hs hs', ?_⟩
      intro b hb
      rcases List.mem_cons.mp hb with rfl | hb
      · exact hs' ha
      · exact hr b hb

theorem visit_ordered (fuel : ℕ) (path visited : List α) (a : α) (done : List α)
    (h : visit next cycle missing fuel path visited a = .ok done) (hv : Ordered next visited) :
    Ordered next done ∧ visited ⊆ done ∧ a ∈ done := by
  induction fuel generalizing path visited a done with
  | zero => simp [visit] at h
  | succ fuel ih =>
    rw [visit] at h
    split_ifs at h with h1 h2
    · obtain rfl : visited = done := by simpa using h
      exact ⟨hv, List.Subset.refl _, by simpa using h2⟩
    · cases hn : next a with
      | none => simp [hn] at h
      | some children =>
        rw [hn] at h
        cases hm : children.foldlM (visit next cycle missing fuel (a::path)) visited with
        | error e => simp [hm, Except.map] at h
        | ok mid =>
          obtain rfl : mid ++ [a] = done := by simpa [hm, Except.map] using h
          obtain ⟨ho, hs, hc⟩ := fold_ordered (fun v b d => ih (a::path) v b d) children visited mid hm hv
          exact ⟨.snoc ho hn hc, fun b hb => by simp [hs hb], by simp⟩

theorem ordered_ranks {done : List α} (h : Ordered next done) :
    ∃ rank : α → ℕ, Ranks next rank done ∧ ∀ a ∈ done, rank a < done.length := by
  induction h with
  | nil => exact ⟨fun _ => 0, by simp [Ranks], by simp⟩
  | @snoc done a children _ hn hc ih =>
    obtain ⟨rank, hr, hb⟩ := ih
    by_cases ha : a ∈ done
    · refine ⟨rank, ?_, ?_⟩
      · intro b hb'
        obtain ⟨cs, hcs, hlt⟩ := hr b (by
          rcases List.mem_append.mp hb' with hb' | hb'
          · exact hb'
          · rwa [List.mem_singleton.mp hb'])
        exact ⟨cs, hcs, fun c h => ⟨List.mem_append_left _ (hlt c h).1, (hlt c h).2⟩⟩
      · intro b hb'
        rcases List.mem_append.mp hb' with hb' | hb'
        · have := hb b hb'; simp; omega
        · rw [List.mem_singleton.mp hb']; have := hb a ha; simp; omega
    · -- The new node is ranked above everything before it.
      refine ⟨Function.update rank a done.length, ?_, ?_⟩
      · intro b hb'
        rcases List.mem_append.mp hb' with hb' | hb'
        · obtain ⟨cs, hcs, hlt⟩ := hr b hb'
          refine ⟨cs, hcs, fun c h => ⟨List.mem_append_left _ (hlt c h).1, ?_⟩⟩
          have hca : c ≠ a := fun e => ha (e ▸ (hlt c h).1)
          have hba : b ≠ a := fun e => ha (e ▸ hb')
          simpa [Function.update_of_ne hca, Function.update_of_ne hba] using (hlt c h).2
        · obtain rfl := List.mem_singleton.mp hb'
          refine ⟨children, hn, fun c h => ⟨List.mem_append_left _ (hc c h), ?_⟩⟩
          have hca : c ≠ b := fun e => ha (e ▸ hc c h)
          simpa [Function.update_of_ne hca] using hb c (hc c h)
      · intro b hb'
        by_cases hba : b = a
        · simp [hba]
        · have hbd : b ∈ done := by simpa [hba] using hb'
          have := hb b hbd
          simp [Function.update_of_ne hba]
          omega

/-- An accepted walk leaves a ranking of everything it has visited. -/
theorem visitAll_ranks {fuel : ℕ} {roots done : List α}
    (h : visitAll next cycle missing fuel roots = .ok done) :
    ∃ rank : α → ℕ, ∀ a ∈ roots, ∃ children, next a = some children ∧
      ∀ c ∈ children, rank c < rank a := by
  obtain ⟨ho, _, hr⟩ := fold_ordered (fun v b d => visit_ordered fuel [] v b d) roots [] done h .nil
  obtain ⟨rank, hk, _⟩ := ordered_ranks ho
  refine ⟨rank, fun a ha => ?_⟩
  obtain ⟨cs, hcs, hlt⟩ := hk a (hr a ha)
  exact ⟨cs, hcs, fun c hc => (hlt c hc).2⟩

omit [DecidableEq α] in
theorem fold_succeeds {f : List α → α → Except ε (List α)} (roots : List α)
    (hf : ∀ a ∈ roots, ∀ visited, ∃ done, f visited a = .ok done) (visited : List α) :
    ∃ done, roots.foldlM f visited = .ok done := by
  induction roots generalizing visited with
  | nil => exact ⟨visited, rfl⟩
  | cons a roots ih =>
    obtain ⟨mid, hm⟩ := hf a (by simp) visited
    obtain ⟨done, hd⟩ := ih (fun b hb => hf b (by simp [hb])) mid
    exact ⟨done, by simp [List.foldlM_cons, hm, hd, bind, Except.bind]⟩

theorem visit_succeeds {rank : α → ℕ} {nodes : List α} (hr : Ranks next rank nodes) (fuel : ℕ)
    (path visited : List α) (a : α) (ha : a ∈ nodes) (hp : path.Nodup) (hs : path ⊆ nodes)
    (hlt : ∀ p ∈ path, rank a < rank p) (hf : nodes.length < fuel+path.length) :
    ∃ done, visit next cycle missing fuel path visited a = .ok done := by
  induction fuel generalizing path visited a with
  | zero =>
    have hle := (List.subperm_of_subset hp hs).length_le
    omega
  | succ fuel ih =>
    have hap : a ∉ path := fun h => Nat.lt_irrefl _ (hlt a h)
    rw [visit, if_neg (by simpa using hap)]
    split_ifs with h2
    · exact ⟨visited, rfl⟩
    · obtain ⟨children, hn, hc⟩ := hr a ha
      have hstep : ∀ c ∈ children, ∀ v, ∃ done,
          visit next cycle missing fuel (a::path) v c = .ok done := by
        intro c hcm v
        refine ih (a::path) v c (hc c hcm).1 (List.nodup_cons.mpr ⟨hap, hp⟩)
          (List.cons_subset.mpr ⟨ha, hs⟩) ?_ (by simp only [List.length_cons]; omega)
        intro p hpm
        rcases List.mem_cons.mp hpm with rfl | hpm
        · exact (hc c hcm).2
        · exact (hc c hcm).2.trans (hlt p hpm)
      obtain ⟨done, hd⟩ := fold_succeeds children hstep visited
      exact ⟨done ++ [a], by simp [hn, hd, Except.map]⟩

theorem visitAll_succeeds (rank : α → ℕ) {nodes : List α} (hr : Ranks next rank nodes)
    {fuel : ℕ} (hf : nodes.length < fuel) :
    ∃ done, visitAll next cycle missing fuel nodes = .ok done :=
  fold_succeeds nodes (fun a ha visited => visit_succeeds hr fuel [] visited a ha .nil
    (List.nil_subset _) (by simp) (by simpa using hf)) []

end AccessStack.Walk
