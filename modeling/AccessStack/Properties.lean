import Mathlib

/-!
# The order of an object's properties

An object lists the names that are array indices in ascending order, and the
other names behind them in the order in which they were made. An object is the
list of its properties as they were made.
-/

set_option autoImplicit false

namespace AccessStack.Properties

variable {K α : Type}

section Objects

/-- `slice(-n)` -/
def lastOf {β : Type} (n : ℕ) (l : List β) : List β := l.drop (l.length - n)

variable (index : K → Option ℕ)

def IsIndex (e : K × α) : Prop := (index e.1).isSome = true

instance (e : K × α) : Decidable (IsIndex index e) := inferInstanceAs (Decidable (_ = true))

def Before (d e : K × α) : Prop := (index d.1).getD 0 ≤ (index e.1).getD 0

instance : DecidableRel (Before (α := α) index) :=
  fun d e => inferInstanceAs (Decidable ((index d.1).getD 0 ≤ (index e.1).getD 0))

/-- `Object.entries` -/
def entries (o : List (K × α)) : List (K × α) :=
  (o.filter (IsIndex index ·)).insertionSort (Before index) ++ o.filter (¬ IsIndex index ·)

variable [DecidableEq K]

def remove (o : List (K × α)) (k : K) : List (K × α) := o.filter (·.1 ≠ k)

def get (o : List (K × α)) (k : K) : Option α := (o.find? (·.1 = k)).map Prod.snd

/-- The property is made anew behind a copy of the object, and the last entries are kept. -/
def renew (limit : ℕ) (o : List (K × α)) (k : K) (v : α) : List (K × α) :=
  lastOf limit (entries index (entries index (remove o k) ++ [(k, v)]))

/-- The order of the last writes. -/
def latest (o : List (K × α)) (k : K) (v : α) : List (K × α) := remove o k ++ [(k, v)]

end Objects

section Lists

variable {β : Type}

theorem lastOf_all {n : ℕ} {l : List β} (h : l.length ≤ n) : lastOf n l = l := by
  rw [lastOf, Nat.sub_eq_zero_of_le h]
  rfl

theorem lastOf_append {n : ℕ} (l : List β) {m : List β} (h : n ≤ m.length) :
    lastOf n (l ++ m) = lastOf n m := by
  rw [lastOf, lastOf, List.length_append, show l.length + m.length - n = l.length + (m.length - n) by omega,
    List.drop_length_add_append]

theorem lastOf_tail {n : ℕ} {x : β} {l : List β} (h : l.length = n) : lastOf n (x :: l) = l := by
  rw [lastOf, List.length_cons, h, Nat.add_sub_cancel_left]
  rfl

theorem lastOf_split (n : ℕ) (l : List β) :
    l = l.take (l.length - n) ++ lastOf n l ∧ (lastOf n l).length ≤ n ∧
      (l.take (l.length - n) = [] ∨ (lastOf n l).length = n) := by
  refine ⟨(List.take_append_drop _ _).symm, by rw [lastOf, List.length_drop]; omega, ?_⟩
  by_cases h : l.length ≤ n
  · left
    rw [Nat.sub_eq_zero_of_le h]
    rfl
  · right
    rw [lastOf, List.length_drop]
    omega

theorem lastOf_snoc (n : ℕ) (l : List β) (x : β) : lastOf (n+1) (l ++ [x]) = lastOf n l ++ [x] := by
  rw [lastOf, lastOf, List.length_append, List.length_singleton, Nat.add_sub_add_right,
    List.drop_append_of_le_length]
  exact Nat.sub_le _ _

theorem last_mem (n : ℕ) (l : List β) (x : β) : x ∈ lastOf (n+1) (l ++ [x]) := by
  rw [lastOf_snoc]
  exact List.mem_append_right _ List.mem_cons_self

theorem lastOf_lastOf {m n : ℕ} (h : m ≤ n) (l : List β) : lastOf m (lastOf n l) = lastOf m l := by
  rw [lastOf, lastOf, lastOf, List.length_drop, List.drop_drop]
  congr 1
  omega

theorem lastOf_map {γ : Type} (f : β → γ) (n : ℕ) (l : List β) : (lastOf n l).map f = lastOf n (l.map f) := by
  rw [lastOf, lastOf, List.map_drop, List.length_map]

end Lists

section Latest

def Distinct (o : List (K × α)) : Prop := (o.map Prod.fst).Nodup

theorem distinct_sublist {o p : List (K × α)} (h : o.Sublist p) (hp : Distinct p) :
    Distinct o := hp.sublist (h.map _)

variable [DecidableEq K]

theorem distinct_latest {o : List (K × α)} (h : Distinct o) (k : K) (v : α) : Distinct (latest o k v) := by
  rw [latest, Distinct, List.map_append, List.nodup_append]
  refine ⟨distinct_sublist List.filter_sublist h, List.nodup_singleton _, ?_⟩
  intro a ha b hb
  obtain ⟨e, he, rfl⟩ := List.mem_map.mp ha
  have hk : b = k := by simpa using hb
  rw [hk]
  simpa using (List.mem_filter.mp he).2

theorem get_of_mem {o : List (K × α)} (h : Distinct o) {k : K} {v : α} (hmem : (k, v) ∈ o) :
    get o k = some v := by
  induction o with
  | nil => cases hmem
  | cons e o ih =>
    obtain ⟨hfresh, hrest⟩ := List.nodup_cons.mp h
    rcases List.mem_cons.mp hmem with rfl | hmem
    · simp [get]
    · have hne : e.1 ≠ k := by
        rintro rfl
        exact hfresh (List.mem_map.mpr ⟨_, hmem, rfl⟩)
      have hfind := ih hrest hmem
      rw [get, List.find?_cons_of_neg (by simpa using hne)]
      exact hfind

theorem length_remove {o : List (K × α)} (h : Distinct o) (k : K) : o.length ≤ (remove o k).length + 1 := by
  induction o with
  | nil => exact Nat.zero_le _
  | cons e o ih =>
    obtain ⟨hfresh, hrest⟩ := List.nodup_cons.mp h
    by_cases hk : e.1 = k
    · have hsame : remove o k = o := by
        rw [remove, List.filter_eq_self]
        intro d hd
        have hne : d.1 ≠ k := by
          rintro rfl
          exact hfresh (hk ▸ List.mem_map_of_mem hd)
        simpa using hne
      have hall : remove (e :: o) k = remove o k := List.filter_cons_of_neg (by simp [hk])
      rw [hall, hsame]
      exact Nat.le_refl _
    · have hall : remove (e :: o) k = e :: remove o k := List.filter_cons_of_pos (by simpa using hk)
      rw [hall, List.length_cons, List.length_cons]
      exact Nat.succ_le_succ (ih hrest)

/-- Only the last writes matter to what the last writes are. -/
theorem lastOf_latest (limit : ℕ) {o : List (K × α)} (h : Distinct o) (k : K) (v : α) :
    lastOf limit (latest o k v) = lastOf limit (latest (lastOf limit o) k v) := by
  obtain ⟨hsplit, -, hold⟩ := lastOf_split limit o
  have hall : latest o k v = remove (o.take (o.length - limit)) k ++ latest (lastOf limit o) k v := by
    rw [latest, latest, ← List.append_assoc]
    congr 1
    rw [remove, remove, remove, ← List.filter_append, ← hsplit]
  rcases hold with hold | hfull
  · rw [hall, hold]
    rfl
  · have hlast : Distinct (lastOf limit o) := distinct_sublist (List.drop_sublist _ _) h
    have hlength := length_remove hlast k
    rw [hall, lastOf_append]
    rw [latest, List.length_append, List.length_singleton]
    omega

end Latest

section Tracking

variable (index : K → Option ℕ)

/-- The object has these properties, and the names that are no indices come in their order. -/
structure Tracks (o recent : List (K × α)) : Prop where
  perm : o.Perm recent
  names : o.filter (¬ IsIndex index ·) = recent.filter (¬ IsIndex index ·)

/-- If some name is an index then the smallest index is the first name. -/
def IndexFirst (recent : List (K × α)) : Prop :=
  ∀ e ∈ recent, IsIndex index e → (∀ d ∈ recent, IsIndex index d → Before index e d) → recent.head? = some e

variable {index}

theorem tracks_entries {o recent : List (K × α)} (h : Tracks index o recent) :
    Tracks index (entries index o) recent := by
  have hsorted := List.perm_insertionSort (Before index) (o.filter (IsIndex index ·))
  constructor
  · refine ((hsorted.append_right _).trans ?_).trans h.perm
    simpa using List.filter_append_perm (fun e : K × α => decide (IsIndex index e)) o
  · have hnone : ((o.filter (IsIndex index ·)).insertionSort (Before index)).filter
        (¬ IsIndex index ·) = [] := by
      rw [List.filter_eq_nil_iff]
      intro e he
      simpa using (List.mem_filter.mp (hsorted.mem_iff.mp he)).2
    rw [entries, List.filter_append, hnone, List.nil_append, List.filter_filter, ← h.names]
    simp

theorem tracks_append {o recent o' recent' : List (K × α)} (h : Tracks index o recent)
    (h' : Tracks index o' recent') :
    Tracks index (o ++ o') (recent ++ recent') :=
  ⟨h.perm.append h'.perm, by rw [List.filter_append, List.filter_append, h.names, h'.names]⟩

theorem tracks_filter {o recent : List (K × α)} (h : Tracks index o recent) (p : K × α → Bool) :
    Tracks index (o.filter p) (recent.filter p) := by
  refine ⟨h.perm.filter p, ?_⟩
  rw [List.filter_comm, h.names, List.filter_comm]

theorem tracks_tail {e : K × α} {o recent : List (K × α)} (h : Tracks index (e :: o) (e :: recent)) :
    Tracks index o recent := by
  refine ⟨h.perm.cons_inv, ?_⟩
  have hnames := h.names
  by_cases he : IsIndex index e
  · simpa [he] using hnames
  · simpa [he] using hnames

theorem entries_head {o recent : List (K × α)} (h : Tracks index o recent)
    (hfirst : IndexFirst index recent) :
    (entries index o).head? = recent.head? := by
  have hsorted := List.perm_insertionSort (Before index) (o.filter (IsIndex index ·))
  cases hcase : (o.filter (IsIndex index ·)).insertionSort (Before index) with
  | nil =>
    have hnone : ∀ e ∈ recent, ¬ IsIndex index e := by
      intro e he hindex
      have hmem := hsorted.mem_iff.mpr (List.mem_filter.mpr ⟨h.perm.mem_iff.mpr he, by simpa using hindex⟩)
      rw [hcase] at hmem
      cases hmem
    rw [entries, hcase, List.nil_append, h.names]
    congr 1
    rw [List.filter_eq_self]
    intro e he
    simpa using hnone e he
  | cons e l =>
    rw [hcase] at hsorted
    have hpairs : (e :: l).Pairwise (Before index) := by
      rw [← hcase]
      have : Std.Total (Before (α := α) index) := ⟨fun d e => Nat.le_total _ _⟩
      have : IsTrans (K × α) (Before index) := ⟨fun _ _ _ => Nat.le_trans⟩
      exact List.pairwise_insertionSort (Before index) _
    have hat : e ∈ o ∧ IsIndex index e := by
      have hmem := List.mem_filter.mp (hsorted.mem_iff.mp List.mem_cons_self)
      simpa using hmem
    have hsmallest : ∀ d ∈ recent, IsIndex index d → Before index e d := by
      intro d hd hindex
      have hmem := hsorted.mem_iff.mpr (List.mem_filter.mpr ⟨h.perm.mem_iff.mpr hd, by simpa using hindex⟩)
      rcases List.mem_cons.mp hmem with rfl | hmem
      · exact Nat.le_refl _
      · exact (List.pairwise_cons.mp hpairs).1 d hmem
    rw [entries, hcase, hfirst e (h.perm.mem_iff.mp hat.1) hat.2 hsmallest]
    rfl

variable [DecidableEq K]

/-- What is pushed out is the oldest write, where the smallest index is one. -/
theorem renew_tracks {limit : ℕ} {o recent : List (K × α)} (h : Tracks index o (lastOf limit recent))
    (hdistinct : Distinct recent) {k : K} {v : α}
    (hfirst : limit < (latest (lastOf limit recent) k v).length →
      IndexFirst index (latest (lastOf limit recent) k v)) :
    Tracks index (renew index limit o k v) (lastOf limit (latest recent k v)) := by
  obtain ⟨-, hlimit, -⟩ := lastOf_split limit recent
  rw [lastOf_latest limit hdistinct]
  generalize lastOf limit recent = kept at *
  have hmade : Tracks index (entries index (remove o k) ++ [(k, v)]) (latest kept k v) :=
    tracks_append (tracks_entries (tracks_filter h _)) ⟨.refl _, rfl⟩
  have hall := tracks_entries hmade
  have hlength := hall.perm.length_eq
  have hmost : (latest kept k v).length ≤ limit + 1 := by
    have hless := List.length_filter_le (fun e : K × α => decide (e.1 ≠ k)) kept
    rw [latest, List.length_append, List.length_singleton, remove]
    omega
  rw [renew]
  by_cases hfits : (latest kept k v).length ≤ limit
  · rw [lastOf_all hfits, lastOf_all (by omega)]
    exact hall
  · have hhead := entries_head hmade (hfirst (by omega))
    generalize entries index (entries index (remove o k) ++ [(k, v)]) = made at *
    generalize latest kept k v = wanted at *
    cases wanted with
    | nil => exact absurd (Nat.zero_le _) hfits
    | cons e wanted =>
      cases made with
      | nil => cases hhead
      | cons d made =>
        obtain rfl : d = e := Option.some.inj hhead
        simp only [List.length_cons] at hlength hmost hfits
        rw [lastOf_tail (by omega), lastOf_tail (by omega)]
        exact tracks_tail hall

end Tracking

section Placing

variable {index : K → Option ℕ} [DecidableEq K]

omit [DecidableEq K] in
theorem entries_plain {o : List (K × α)} (h : ∀ e ∈ o, ¬ IsIndex index e) : entries index o = o := by
  have hnone : o.filter (IsIndex index ·) = [] := List.filter_eq_nil_iff.mpr fun e he => by simpa using h e he
  have hall : o.filter (¬ IsIndex index ·) = o := List.filter_eq_self.mpr fun e he => by simpa using h e he
  rw [entries, hnone, hall]
  rfl

theorem remove_fresh {o : List (K × α)} {k : K} (h : ∀ e ∈ o, e.1 ≠ k) : remove o k = o :=
  List.filter_eq_self.mpr fun e he => by simpa using h e he

theorem renew_plain {limit : ℕ} {o : List (K × α)} (h : ∀ e ∈ o, ¬ IsIndex index e) {k : K}
    (hk : index k = none) (hfresh : ∀ e ∈ o, e.1 ≠ k) (hroom : o.length < limit) (v : α) :
    renew index limit o k v = o ++ [(k, v)] := by
  have hboth : ∀ e ∈ o ++ [(k, v)], ¬ IsIndex index e := by
    intro e he
    rcases List.mem_append.mp he with he | he
    · exact h e he
    · rw [List.mem_singleton.mp he, IsIndex, hk]
      simp
  rw [renew, remove_fresh hfresh, entries_plain h, entries_plain hboth, lastOf_all]
  rw [List.length_append, List.length_singleton]
  exact hroom

/-- A name that is an index comes first, so where there is no room it is lost at once. -/
theorem renew_lost {limit : ℕ} {o : List (K × α)} (h : ∀ e ∈ o, ¬ IsIndex index e) {k : K}
    (hk : (index k).isSome = true) (hfresh : ∀ e ∈ o, e.1 ≠ k) (hfull : o.length = limit) (v : α) :
    renew index limit o k v = o := by
  have hnone : o.filter (IsIndex index ·) = [] := List.filter_eq_nil_iff.mpr fun e he => by simpa using h e he
  have hall : o.filter (¬ IsIndex index ·) = o := List.filter_eq_self.mpr fun e he => by simpa using h e he
  have hindex : IsIndex index (k, v) := hk
  have hentries : entries index (o ++ [(k, v)]) = (k, v) :: o := by
    rw [entries, List.filter_append, List.filter_append, hnone, hall]
    simp [hindex]
  rw [renew, remove_fresh hfresh, entries_plain h, hentries, lastOf_tail hfull]

end Placing

end AccessStack.Properties
