import Mathlib

/-!
# Indexed records

Records with an owner, and for each owner the list of the ids of its records.
The lists have no duplicates and a limit. What an index says is kept when a
record is rewritten for the same owner, inserted under a new id at the end of
its owner's list, erased with its id, or handed over with all the others of
its owner to an owner that has none.
-/

set_option autoImplicit false

namespace AccessStack.Index

variable {K I R : Type}

structure Indexes (limit : ℕ) (ids : K → List I) (records : I → Option R) (owner : R → K) : Prop where
  nodup : ∀ k, (ids k).Nodup
  bound : ∀ k, (ids k).length ≤ limit
  mem : ∀ k i, i ∈ ids k ↔ ∃ x, records i = some x ∧ owner x = k

variable {limit : ℕ} {ids : K → List I} {records : I → Option R} {owner : R → K}

theorem indexes_empty (limit : ℕ) (owner : R → K) :
    Indexes limit (fun _ => []) (fun _ : I => none) owner where
  nodup _ := List.nodup_nil
  bound _ := Nat.zero_le _
  mem k i := by simp

theorem Indexes.mem_owner (h : Indexes limit ids records owner) {i : I} {x : R} (hx : records i = some x) :
    i ∈ ids (owner x) := (h.mem _ i).mpr ⟨x, hx, rfl⟩

/-- An owner without records has an empty list. -/
theorem Indexes.nil (h : Indexes limit ids records owner) {k : K}
    (hk : ∀ i x, records i = some x → owner x ≠ k) : ids k = [] := by
  apply List.eq_nil_iff_forall_not_mem.mpr
  intro i hi
  obtain ⟨x, hx, howner⟩ := (h.mem k i).mp hi
  exact hk i x hx howner

/-- The records of the list of an owner are its records. -/
theorem Indexes.listed (h : Indexes limit ids records owner) {k : K} {i : I} (hi : i ∈ ids k) :
    ∃ x, records i = some x ∧ owner x = k := (h.mem k i).mp hi

/-- The records change and keep their owners. -/
theorem Indexes.mapped (h : Indexes limit ids records owner) {records' : I → Option R} {f : R → R}
    (hrecords : ∀ i, records' i = (records i).map f) (hf : ∀ x, owner (f x) = owner x) :
    Indexes limit ids records' owner where
  nodup := h.nodup
  bound := h.bound
  mem k i := by
    rw [h.mem k i, hrecords i]
    cases records i with
    | none => simp
    | some x => simp [hf]

section Writes

variable [DecidableEq I]

/-- Stored records are written back one by one, each changed in the same way. -/
theorem foldl_rewrite (f : R → R) (key : R → I) (records base : I → Option R) (l : List R)
    (hl : ∀ x ∈ l, base (key x) = some x) (i : I) :
    l.foldl (fun records x => Function.update records (key x) (some (f x))) records i =
      if i ∈ l.map key then (base i).map f else records i := by
  induction l generalizing records with
  | nil => simp
  | cons x l ih =>
    rw [List.foldl_cons, ih _ fun y hy => hl y (List.mem_cons_of_mem x hy)]
    have hx : base (key x) = some x := hl x List.mem_cons_self
    by_cases hi : i = key x
    · subst hi
      simp [hx]
    · simp [hi]

theorem Indexes.rewrite (h : Indexes limit ids records owner) {i : I} {x y : R} (hx : records i = some x)
    (howner : owner y = owner x) : Indexes limit ids (Function.update records i (some y)) owner where
  nodup := h.nodup
  bound := h.bound
  mem k j := by
    rw [h.mem k j]
    by_cases hj : j = i
    · subst hj
      simp [hx, howner]
    · simp [Function.update_of_ne hj]

variable [DecidableEq K]

theorem Indexes.insert (h : Indexes limit ids records owner) {i : I} (x : R) (hi : records i = none)
    (hroom : (ids (owner x)).length < limit) :
    Indexes limit (Function.update ids (owner x) (ids (owner x) ++ [i])) (Function.update records i (some x))
      owner := by
  have hnew : ∀ k, i ∉ ids k := by
    intro k hmem
    obtain ⟨y, hy, _⟩ := h.listed hmem
    rw [hi] at hy
    cases hy
  constructor
  · intro k
    by_cases hk : k = owner x
    · subst hk
      rw [Function.update_self, ← List.concat_eq_append]
      exact (h.nodup _).concat (hnew _)
    · rw [Function.update_of_ne hk]
      exact h.nodup k
  · intro k
    by_cases hk : k = owner x
    · subst hk
      rw [Function.update_self, List.length_append, List.length_singleton]
      omega
    · rw [Function.update_of_ne hk]
      exact h.bound k
  · intro k j
    by_cases hj : j = i
    · subst hj
      by_cases hk : k = owner x
      · subst hk
        simp
      · simp [Function.update_of_ne hk, hnew k, Ne.symm hk]
    · rw [Function.update_of_ne hj, ← h.mem k j]
      by_cases hk : k = owner x
      · subst hk
        simp [hj]
      · rw [Function.update_of_ne hk]

theorem Indexes.erase (h : Indexes limit ids records owner) {i : I} {x : R} (hx : records i = some x) :
    Indexes limit (Function.update ids (owner x) ((ids (owner x)).filter (· ≠ i)))
    (Function.update records i none)
      owner := by
  constructor
  · intro k
    by_cases hk : k = owner x
    · subst hk
      rw [Function.update_self]
      exact (h.nodup _).filter _
    · rw [Function.update_of_ne hk]
      exact h.nodup k
  · intro k
    by_cases hk : k = owner x
    · subst hk
      rw [Function.update_self]
      exact (List.length_filter_le _ _).trans (h.bound _)
    · rw [Function.update_of_ne hk]
      exact h.bound k
  · intro k j
    by_cases hj : j = i
    · subst hj
      by_cases hk : k = owner x
      · subst hk
        simp
      · rw [Function.update_of_ne hk, Function.update_self]
        constructor
        · intro hmem
          obtain ⟨y, hy, howner⟩ := h.listed hmem
          rw [hx] at hy
          cases hy
          exact absurd howner.symm hk
        · rintro ⟨y, hy, _⟩
          cases hy
    · rw [Function.update_of_ne hj, ← h.mem k j]
      by_cases hk : k = owner x
      · subst hk
        simp [hj]
      · rw [Function.update_of_ne hk]

end Writes

variable [DecidableEq K]

/-- All the records of one owner are handed over. -/
theorem Indexes.transfer (h : Indexes limit ids records owner) {records' : I → Option R} {f : R → R} {a b : K}
    (hne : a ≠ b) (hb : ids b = []) (hrecords : ∀ i, records' i = (records i).map f)
    (hf : ∀ i x, records i = some x → owner (f x) = if owner x = a then b else owner x) :
    Indexes limit (Function.update (Function.update ids b (ids a)) a []) records' owner := by
  have hfree : ∀ i x, records i = some x → owner x ≠ b := by
    intro i x hx howner
    have hmem := h.mem_owner hx
    rw [howner, hb] at hmem
    cases hmem
  have hmem : ∀ k i, (∃ x, records' i = some x ∧ owner x = k) ↔
      ∃ x, records i = some x ∧ (if owner x = a then b else owner x) = k := by
    intro k i
    simp only [hrecords, Option.map_eq_some_iff]
    constructor
    · rintro ⟨y, ⟨x, hx, rfl⟩, howner⟩
      exact ⟨x, hx, (hf i x hx).symm.trans howner⟩
    · rintro ⟨x, hx, howner⟩
      exact ⟨f x, ⟨x, hx, rfl⟩, (hf i x hx).trans howner⟩
  have hcases : ∀ k, (Function.update (Function.update ids b (ids a)) a []) k =
      if k = a then [] else if k = b then ids a else ids k := by
    intro k
    simp only [Function.update_apply]
  constructor
  · intro k
    rw [hcases k]
    split_ifs
    · exact List.nodup_nil
    · exact h.nodup a
    · exact h.nodup k
  · intro k
    rw [hcases k]
    split_ifs
    · exact Nat.zero_le _
    · exact h.bound a
    · exact h.bound k
  · intro k i
    rw [hcases k, hmem k i]
    split_ifs with hka hkb
    · subst hka
      simp only [List.not_mem_nil, false_iff]
      rintro ⟨x, _, howner⟩
      split_ifs at howner with hx
      · exact hne howner.symm
      · exact hx howner
    · subst hkb
      rw [h.mem a i]
      constructor
      · rintro ⟨x, hx, howner⟩
        exact ⟨x, hx, by rw [if_pos howner]⟩
      · rintro ⟨x, hx, howner⟩
        split_ifs at howner with hxa
        · exact ⟨x, hx, hxa⟩
        · exact absurd howner (hfree i x hx)
    · rw [h.mem k i]
      constructor
      · rintro ⟨x, hx, howner⟩
        refine ⟨x, hx, ?_⟩
        rw [if_neg (fun hxa => hka (howner.symm.trans hxa))]
        exact howner
      · rintro ⟨x, hx, howner⟩
        split_ifs at howner with hxa
        · exact absurd howner.symm hkb
        · exact ⟨x, hx, howner⟩

end AccessStack.Index
