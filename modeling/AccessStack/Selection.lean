import Mathlib

/-!
# Scanning for the preferred one

One pass over a list keeps the preferred of the eligible elements it has met.
Where the preference orders the eligible elements strictly and totally the
pass ends with the greatest, in whatever order they came.
-/

set_option autoImplicit false

namespace AccessStack.Selection

variable {α : Type*} (eligible : α → Bool) (better : α → α → Bool)

def pick (selected : Option α) (x : α) : Option α :=
  if !eligible x then selected
  else
    match selected with
    | none => some x
    | some current => if better x current then some x else selected

def select (xs : List α) : Option α := xs.foldl (pick eligible better) none

/-- Nothing eligible in the list is better. -/
structure Greatest (xs : List α) (m : α) : Prop where
  mem : m ∈ xs
  allowed : eligible m = true
  best : ∀ x ∈ xs, eligible x = true → x ≠ m → better m x = true

/-- The preference orders the eligible elements of the list. -/
def Ordered (xs : List α) : Prop :=
  IsStrictTotalOrder {x // x ∈ xs ∧ eligible x = true} fun x y => better x.1 y.1 = true

/-- What the pass holds after the first elements. -/
def Held (xs : List α) : Option α → Prop
  | none => ∀ x ∈ xs, eligible x = false
  | some m => Greatest eligible better xs m

variable {eligible better} {xs ys : List α} {x y z m : α}

theorem Ordered.asymm (h : Ordered eligible better xs) (hx : x ∈ xs ∧ eligible x = true)
    (hy : y ∈ xs ∧ eligible y = true) (hxy : better x y = true) : ¬better y x = true :=
  fun hyx => h.toIrrefl.irrefl ⟨x, hx⟩ (h.toIsTrans.trans ⟨x, hx⟩ ⟨y, hy⟩ ⟨x, hx⟩ hxy hyx)

theorem Ordered.trans (h : Ordered eligible better xs) (hx : x ∈ xs ∧ eligible x = true)
    (hy : y ∈ xs ∧ eligible y = true) (hz : z ∈ xs ∧ eligible z = true) (hxy : better x y = true)
    (hyz : better y z = true) : better x z = true :=
  h.toIsTrans.trans ⟨x, hx⟩ ⟨y, hy⟩ ⟨z, hz⟩ hxy hyz

theorem Ordered.total (h : Ordered eligible better xs) (hx : x ∈ xs ∧ eligible x = true)
    (hy : y ∈ xs ∧ eligible y = true) (hne : x ≠ y) : better x y = true ∨ better y x = true := by
  by_contra hnot
  obtain ⟨hxy, hyx⟩ := not_or.mp hnot
  exact hne (congrArg Subtype.val (h.toTrichotomous.trichotomous ⟨x, hx⟩ ⟨y, hy⟩ hxy hyx))

theorem Ordered.subset (h : Ordered eligible better xs) (hsub : ∀ x ∈ ys, x ∈ xs) :
    Ordered eligible better ys where
  irrefl := fun x => h.toIrrefl.irrefl ⟨x.1, hsub _ x.2.1, x.2.2⟩
  trans := fun x y z =>
    h.toIsTrans.trans ⟨x.1, hsub _ x.2.1, x.2.2⟩ ⟨y.1, hsub _ y.2.1, y.2.2⟩ ⟨z.1, hsub _ z.2.1, z.2.2⟩
  trichotomous := by
    intro x y hxy hyx
    by_contra hne
    rcases h.total ⟨hsub _ x.2.1, x.2.2⟩ ⟨hsub _ y.2.1, y.2.2⟩ fun heq =>
      hne (Subtype.ext heq) with hbetter | hworse
    · exact hxy hbetter
    · exact hyx hworse

theorem Greatest.unique (h : Ordered eligible better xs) (hx : Greatest eligible better xs x)
    (hy : Greatest eligible better xs y) : x = y := by
  by_contra hne
  exact h.asymm ⟨hx.mem, hx.allowed⟩ ⟨hy.mem, hy.allowed⟩ (hx.best y hy.mem hy.allowed (Ne.symm hne))
    (hy.best x hx.mem hx.allowed hne)

theorem Greatest.perm (hperm : xs.Perm ys) (h : Greatest eligible better xs m) :
    Greatest eligible better ys m :=
  ⟨hperm.mem_iff.mp h.mem, h.allowed, fun x hx => h.best x (hperm.mem_iff.mpr hx)⟩

theorem pick_held (h : Ordered eligible better (xs ++ [x])) {selected : Option α}
    (hheld : Held eligible better xs selected) :
    Held eligible better (xs ++ [x]) (pick eligible better selected x) := by
  have hlast : x ∈ xs ++ [x] := List.mem_append_right _ (List.mem_singleton.mpr rfl)
  have hmem : ∀ y ∈ xs ++ [x], y ∈ xs ∨ y = x :=
    fun y hy => (List.mem_append.mp hy).imp_right List.mem_singleton.mp
  unfold pick
  cases hx : eligible x with
  | false =>
    cases selected with
    | none =>
      intro y hy
      rcases hmem y hy with hold | rfl
      · exact hheld y hold
      · exact hx
    | some m =>
      refine ⟨List.mem_append_left _ hheld.mem, hheld.allowed, fun y hy hok hne => ?_⟩
      rcases hmem y hy with hold | rfl
      · exact hheld.best y hold hok hne
      · rw [hx] at hok
        exact absurd hok nofun
  | true =>
    cases selected with
    | none =>
      refine ⟨hlast, hx, fun y hy hok hne => ?_⟩
      rcases hmem y hy with hold | heq
      · rw [hheld y hold] at hok
        exact absurd hok nofun
      · exact absurd heq hne
    | some m =>
      have hm : m ∈ xs ++ [x] := List.mem_append_left _ hheld.mem
      dsimp only
      split_ifs with hnever hbetter
      · exact absurd hnever nofun
      · refine ⟨hlast, hx, fun y hy hok hne => ?_⟩
        rcases hmem y hy with hold | heq
        · rcases eq_or_ne y m with rfl | hother
          · exact hbetter
          · exact h.trans ⟨hlast, hx⟩ ⟨hm, hheld.allowed⟩ ⟨hy, hok⟩ hbetter (hheld.best y hold hok hother)
        · exact absurd heq hne
      · refine ⟨hm, hheld.allowed, fun y hy hok hne => ?_⟩
        rcases hmem y hy with hold | rfl
        · exact hheld.best y hold hok hne
        · exact (h.total ⟨hm, hheld.allowed⟩ ⟨hlast, hx⟩ (Ne.symm hne)).resolve_right hbetter

theorem select_held (h : Ordered eligible better xs) :
    Held eligible better xs (select eligible better xs) := by
  induction xs using List.reverseRecOn with
  | nil => exact fun x hx => absurd hx List.not_mem_nil
  | append_singleton xs x ih =>
    have hstep := pick_held h (ih (h.subset fun y hy => List.mem_append_left _ hy))
    unfold select at hstep ⊢
    rwa [List.foldl_append]

/-- The order of the list does not matter. -/
theorem select_perm (h : Ordered eligible better xs) (hperm : xs.Perm ys) :
    select eligible better xs = select eligible better ys := by
  have hx := select_held h
  have hy := select_held (h.subset fun y hy => hperm.mem_iff.mpr hy)
  cases hxs : select eligible better xs with
  | none =>
    rw [hxs] at hx
    cases hys : select eligible better ys with
    | none => rfl
    | some m =>
      rw [hys] at hy
      have hnot := hx m (hperm.mem_iff.mpr hy.mem)
      rw [hy.allowed] at hnot
      exact absurd hnot nofun
  | some m =>
    rw [hxs] at hx
    cases hys : select eligible better ys with
    | none =>
      rw [hys] at hy
      have hnot := hy m (hperm.mem_iff.mp hx.mem)
      rw [hx.allowed] at hnot
      exact absurd hnot nofun
    | some m' =>
      rw [hys] at hy
      rw [Greatest.unique h hx (hy.perm hperm.symm)]

end AccessStack.Selection
