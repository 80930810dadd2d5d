import Mathlib

/-!
# Rows of a table and computations that may fail

A table is the list of its rows in insertion order. `update` is an SQL
`UPDATE … WHERE`, which rewrites rows in place; a `SELECT` is `filter` or
`find?`. The lemmas say how the two commute when an update keeps the columns
a selection reads. The second half inverts successful computations.
-/

set_option autoImplicit false

namespace AccessStack.Rows

variable {α β : Type*}

def update (p : α → Bool) (f : α → α) (rows : List α) : List α :=
  rows.map fun r => if p r then f r else r

@[simp] theorem mem_update {p : α → Bool} {f : α → α} {rows : List α} {r : α} :
    r ∈ update p f rows ↔ ∃ q ∈ rows, (if p q then f q else q) = r := by
  simp [update]

theorem update_of_none {p : α → Bool} (f : α → α) {rows : List α}
    (h : ∀ r ∈ rows, p r = false) : update p f rows = rows := by
  have : rows.map (fun r => if p r then f r else r) = rows.map id :=
    List.map_congr_left fun r hr => by simp [h r hr]
  simpa [update] using this

theorem map_update (p : α → Bool) (f : α → α) (rows : List α) (key : α → β)
    (h : ∀ r, key (f r) = key r) : (update p f rows).map key = rows.map key := by
  rw [update, List.map_map]
  refine List.map_congr_left fun r _ => ?_
  simp only [Function.comp_apply]
  split <;> simp [h]

theorem filter_update (p q : α → Bool) (f : α → α) (rows : List α)
    (h : ∀ r, q (f r) = q r) : (update p f rows).filter q = update p f (rows.filter q) := by
  have hq : q ∘ (fun r => if p r then f r else r) = q := by
    funext r
    simp only [Function.comp_apply]
    split <;> simp [h]
  rw [update, update, List.filter_map, hq]

theorem find_update (p q : α → Bool) (f : α → α) (rows : List α)
    (h : ∀ r, q (f r) = q r) :
    (update p f rows).find? q = (rows.find? q).map fun r => if p r then f r else r := by
  have hq : q ∘ (fun r => if p r then f r else r) = q := by
    funext r
    simp only [Function.comp_apply]
    split <;> simp [h]
  rw [update, List.find?_map, hq]

/-- When keys are pairwise distinct and the selection `p` fixes the key, the
row it selects is the one `find?` returns. -/
theorem find_of_mem {rows : List α} {key : α → β} (hn : (rows.map key).Nodup) {p : α → Bool}
    {r : α} (hr : r ∈ rows) (hp : p r = true) (hk : ∀ q, p q = true → key q = key r) :
    rows.find? p = some r := by
  induction rows with
  | nil => cases hr
  | cons q rows ih =>
    rw [List.map_cons, List.nodup_cons] at hn
    rcases List.mem_cons.mp hr with rfl | hm
    · exact List.find?_cons_of_pos hp
    · have hq : ¬p q = true := fun h => hn.1 (List.mem_map.mpr ⟨r, hm, (hk q h).symm⟩)
      rw [List.find?_cons_of_neg hq]
      exact ih hn.2 hm

theorem bind_ok {ε α β : Type} {x : Except ε α} {f : α → Except ε β} {b : β} :
    (x >>= f) = .ok b ↔ ∃ a, x = .ok a ∧ f a = .ok b := by
  cases x with
  | error e => simp [bind, Except.bind]
  | ok a => simp [bind, Except.bind]

theorem bind_error {ε α β : Type} {x : Except ε α} {f : α → Except ε β} {e : ε} :
    (x >>= f) = .error e ↔ x = .error e ∨ ∃ a, x = .ok a ∧ f a = .error e := by
  cases x with
  | error e => simp [bind, Except.bind]
  | ok a => simp [bind, Except.bind]

theorem fails_first {ε α β : Type} {x : Except ε α} {f : α → Except ε β} {e : ε}
    (h : x = .error e) : (x >>= f) = .error e := bind_error.mpr (.inl h)

/-- A computation with the same first part fails where the first one fails, if
its second part does. -/
theorem fails_mono {ε α β γ : Type} {x : Except ε α} {f : α → Except ε β} {g : α → Except ε γ} {e : ε}
    (h : (x >>= f) = .error e) (hfg : ∀ a, f a = .error e → g a = .error e) :
    (x >>= g) = .error e :=
  bind_error.mpr ((bind_error.mp h).imp_right fun ⟨a, ha, hf⟩ => ⟨a, ha, hfg a hf⟩)

end AccessStack.Rows
