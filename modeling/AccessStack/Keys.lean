import Mathlib

/-!
# Lists of records with keys

`deduplicateBy` keeps the first record of each key. `lookup` is `get` on a map
that is built from the list, where the last record of a key wins. Where the
keys are distinct the two agree.
-/

set_option autoImplicit false

namespace AccessStack.Keys

variable {α β κ : Type} [DecidableEq κ] (keyOf : α → κ)

/-- The first record of each key, in the order of the list. -/
def deduplicateBy : List α → List α
  | [] => []
  | x::xs => x :: (deduplicateBy xs).filter (fun y => keyOf y ≠ keyOf x)

/-- The last record of a key. -/
def lookup (xs : List α) (k : κ) : Option α := xs.reverse.find? (fun x => keyOf x = k)

variable {keyOf} {xs : List α} {x : α} {k : κ}

attribute [local simp] deduplicateBy in
theorem mem_deduplicateBy : x ∈ deduplicateBy keyOf xs ↔ xs.find? (fun y => keyOf y = keyOf x) = some x := by
  induction xs with
  | nil => simp [deduplicateBy]
  | cons y ys ih =>
    by_cases h : keyOf y = keyOf x
    · simp [deduplicateBy, h, eq_comm]
    · have hne : x ≠ y := fun he => h (he ▸ rfl)
      have hne' : keyOf x ≠ keyOf y := Ne.symm h
      simp [deduplicateBy, h, hne, hne', ih]

theorem deduplicateBy_subset (h : x ∈ deduplicateBy keyOf xs) : x ∈ xs :=
  List.mem_of_find?_eq_some (mem_deduplicateBy.mp h)

theorem deduplicateBy_sublist (xs : List α) : (deduplicateBy keyOf xs).Sublist xs := by
  induction xs with
  | nil => exact .slnil
  | cons x xs ih => exact (List.filter_sublist.trans ih).cons_cons x

theorem nodup_deduplicateBy (xs : List α) : ((deduplicateBy keyOf xs).map keyOf).Nodup := by
  induction xs with
  | nil => exact List.nodup_nil
  | cons x xs ih =>
    rw [deduplicateBy, List.map_cons, List.nodup_cons]
    refine ⟨?_, ih.sublist (List.filter_sublist.map keyOf)⟩
    intro h
    obtain ⟨y, hy, hkey⟩ := List.mem_map.mp h
    simp [hkey] at hy

theorem keys_deduplicateBy : k ∈ (deduplicateBy keyOf xs).map keyOf ↔ k ∈ xs.map keyOf := by
  constructor
  · intro h
    obtain ⟨x, hx, rfl⟩ := List.mem_map.mp h
    exact List.mem_map_of_mem (deduplicateBy_subset hx)
  · intro h
    obtain ⟨y, hy, rfl⟩ := List.mem_map.mp h
    have hsome : (xs.find? fun z => keyOf z = keyOf y).isSome = true := by
      rw [List.find?_isSome]
      exact ⟨y, hy, by simp⟩
    obtain ⟨z, hz⟩ := Option.isSome_iff_exists.mp hsome
    have hkey : keyOf z = keyOf y := by simpa using List.find?_some hz
    exact List.mem_map.mpr ⟨z, mem_deduplicateBy.mpr (hkey ▸ hz), hkey⟩

/-- Records with distinct keys are all kept. -/
theorem deduplicateBy_eq (h : (xs.map keyOf).Nodup) : deduplicateBy keyOf xs = xs := by
  induction xs with
  | nil => rfl
  | cons x xs ih =>
    rw [List.map_cons, List.nodup_cons] at h
    rw [deduplicateBy, ih h.2, List.filter_eq_self.mpr]
    intro y hy
    have hne : keyOf y ≠ keyOf x := fun he => h.1 (he ▸ List.mem_map_of_mem hy)
    simpa using hne

theorem lookup_mem (h : lookup keyOf xs k = some x) : x ∈ xs ∧ keyOf x = k := by
  refine ⟨List.mem_reverse.mp (List.mem_of_find?_eq_some h), ?_⟩
  simpa using List.find?_some h

theorem lookup_isSome : (lookup keyOf xs k).isSome = true ↔ k ∈ xs.map keyOf := by
  simp [lookup, List.find?_isSome]

theorem lookup_eq_none : lookup keyOf xs k = none ↔ k ∉ xs.map keyOf := by
  rw [← lookup_isSome, Option.not_isSome_iff_eq_none]

theorem lookup_of_mem (h : (xs.map keyOf).Nodup) (hx : x ∈ xs) : lookup keyOf xs (keyOf x) = some x := by
  obtain ⟨y, hy⟩ := Option.isSome_iff_exists.mp (lookup_isSome.mpr (List.mem_map_of_mem (f := keyOf) hx))
  rw [hy, List.inj_on_of_nodup_map h (lookup_mem hy).1 hx (lookup_mem hy).2]

theorem lookup_eq_some (h : (xs.map keyOf).Nodup) : lookup keyOf xs k = some x ↔ x ∈ xs ∧ keyOf x = k := by
  constructor
  · exact lookup_mem
  · rintro ⟨hx, rfl⟩
    exact lookup_of_mem h hx

end AccessStack.Keys
