import Mathlib

/-!
# Texts that can be told apart from what follows them

A text of a language is told apart when it is known from any continuation that
may follow it. Separated parts between brackets are then known as well, and so
are the entries of a table that is written in the order of its keys.
-/

set_option autoImplicit false

namespace AccessStack.Delimiters

section Languages
variable {U : Type} {Stop Language : List U → Prop}

/-- No text of the language but `t` begins like `t` with what may follow. -/
def Told (Stop Language : List U → Prop) (t : List U) : Prop :=
  ∀ u r s, Language u → Stop r → Stop s → t ++ r = u ++ s → t = u ∧ r = s

/-- The text begins with something else than `c`. -/
def OpensWithout (c : U) (t : List U) : Prop := ∃ d rest, t = d :: rest ∧ d ≠ c

/-- Parts with a separator between them. -/
def separated (sep : U) (parts : List (List U)) : List U := [sep].intercalate parts

theorem separated_one (sep : U) (t : List U) : separated sep [t] = t := List.intercalate_singleton

theorem separated_more (sep : U) (t t' : List U) (ts : List (List U)) :
    separated sep (t :: t' :: ts) = t ++ sep :: separated sep (t' :: ts) := by
  rw [separated, List.intercalate_cons_cons, List.append_assoc]
  rfl

/-- A nonempty list of parts opens like its first part. -/
theorem separated_opens {sep c : U} {t : List U} (h : OpensWithout c t) (ts : List (List U)) :
    OpensWithout c (separated sep (t :: ts)) := by
  obtain ⟨d, rest, rfl, hd⟩ := h
  cases ts with
  | nil => exact ⟨d, rest, separated_one sep _, hd⟩
  | cons t' ts => exact ⟨d, rest ++ sep :: separated sep (t' :: ts), separated_more sep _ t' ts, hd⟩

theorem opens_ne {c : U} {t : List U} (h : OpensWithout c t) (r s : List U) : t ++ r ≠ c :: s := by
  obtain ⟨d, rest, rfl, hd⟩ := h
  intro heq
  exact hd (List.cons.inj heq).1

/-- Parts up to a closing mark are known from the text. -/
theorem separated_told {sep close : U} (hmarks : sep ≠ close) (hsep : ∀ r, Stop (sep :: r))
    (hclose : ∀ r, Stop (close :: r)) (hopens : ∀ t, Language t → OpensWithout close t)
    {ts us : List (List U)} (hts : ∀ t ∈ ts, Language t ∧ Told Stop Language t)
    (hus : ∀ u ∈ us, Language u) {r s : List U}
    (heq : separated sep ts ++ close :: r = separated sep us ++ close :: s) : ts = us ∧ r = s := by
  induction ts generalizing us with
  | nil =>
    cases us with
    | nil => exact ⟨rfl, (List.cons.inj heq).2⟩
    | cons u us => exact absurd heq.symm (opens_ne (separated_opens (hopens u (hus u (by simp))) us) _ _)
  | cons t ts ih =>
    obtain ⟨hlanguage, htold⟩ := hts t (by simp)
    cases us with
    | nil => exact absurd heq (opens_ne (separated_opens (hopens t hlanguage) ts) _ _)
    | cons u us =>
      have hu := hus u (by simp)
      cases ts with
      | nil =>
        cases us with
        | nil =>
          rw [separated_one, separated_one] at heq
          obtain ⟨rfl, hrest⟩ := htold u _ _ hu (hclose r) (hclose s) heq
          exact ⟨rfl, (List.cons.inj hrest).2⟩
        | cons u' us =>
          rw [separated_one, separated_more, List.append_assoc] at heq
          obtain ⟨-, hrest⟩ := htold u _ _ hu (hclose r) (hsep _) heq
          exact absurd (List.cons.inj hrest).1.symm hmarks
      | cons t' ts =>
        cases us with
        | nil =>
          rw [separated_one, separated_more, List.append_assoc] at heq
          obtain ⟨-, hrest⟩ := htold u _ _ hu (hsep _) (hclose s) heq
          exact absurd (List.cons.inj hrest).1 hmarks
        | cons u' us =>
          rw [separated_more, separated_more, List.append_assoc, List.append_assoc] at heq
          obtain ⟨rfl, hrest⟩ := htold u _ _ hu (hsep _) (hsep _) heq
          obtain ⟨hsame, hr⟩ :=
            ih (fun t ht => hts t (List.mem_cons_of_mem _ ht)) (fun u hu => hus u (List.mem_cons_of_mem _ hu))
            (List.cons.inj hrest).2
          exact ⟨by rw [hsame], hr⟩

end Languages

section Tables
variable {K α : Type} (le : K → K → Prop) [DecidableRel le]

/-- The entries of a table in the order of their keys. -/
def byKey (es : List (K × α)) : List (K × α) := es.insertionSort fun d e => le d.1 e.1

theorem perm_byKey (es : List (K × α)) : (byKey le es).Perm es := List.perm_insertionSort _ es

variable [Std.Total le] [IsTrans K le]

theorem pairwise_byKey (es : List (K × α)) : (byKey le es).Pairwise fun d e => le d.1 e.1 := by
  have : Std.Total fun d e : K × α => le d.1 e.1 := ⟨fun d e => Std.Total.total d.1 e.1⟩
  have : IsTrans (K × α) fun d e => le d.1 e.1 := ⟨fun _ _ _ h h' => IsTrans.trans _ _ _ h h'⟩
  exact List.pairwise_insertionSort _ es

/-- Two tables with the same entries are written in the same order. -/
theorem byKey_eq_iff (hantisymm : ∀ a b, le a b → le b a → a = b) {es ds : List (K × α)}
    (hes : (es.map Prod.fst).Nodup) : byKey le es = byKey le ds ↔ es.Perm ds := by
  constructor
  · intro h
    exact (perm_byKey le es).symm.trans (h ▸ perm_byKey le ds)
  · intro h
    refine List.Perm.eq_of_pairwise ?_ (pairwise_byKey le es) (pairwise_byKey le ds)
      ((perm_byKey le es).trans (h.trans (perm_byKey le ds).symm))
    intro d e hd he hde hed
    have hd' : d ∈ es := (perm_byKey le es).mem_iff.mp hd
    have he' : e ∈ es := h.mem_iff.mpr ((perm_byKey le ds).mem_iff.mp he)
    exact List.inj_on_of_nodup_map hes hd' he' (hantisymm _ _ hde hed)

end Tables

end AccessStack.Delimiters
