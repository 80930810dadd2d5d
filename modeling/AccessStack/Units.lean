import Mathlib

/-!
# Strings of UTF-16 code units

A string as the list of its code units, where the halves of a character above
the basic plane may stand alone. `byteLength` is the length of the string in
UTF-8: a low half adds one byte behind a high one, and every half that stands
alone is written as three. `bisect` finds the last index at which a condition
holds that holds at all smaller ones.
-/

set_option autoImplicit false

namespace AccessStack.Units

section Bytes

def isHigh (u : UInt16) : Bool := 0xd800 ≤ u && u ≤ 0xdbff

def isLow (u : UInt16) : Bool := 0xdc00 ≤ u && u ≤ 0xdfff

def unitBytes (u : UInt16) : ℕ := if u < 0x80 then 1 else if u < 0x800 then 2 else 3

def byteLengthAfter : Bool → List UInt16 → ℕ
  | _, [] => 0
  | high, u::us => (if high && isLow u then 1 else unitBytes u) + byteLengthAfter (isHigh u) us

/-- The UTF-8 length of a string. -/
def byteLength (us : List UInt16) : ℕ := byteLengthAfter false us

/-- A high half stands last. -/
def endsHigh : Bool → List UInt16 → Bool
  | high, [] => high
  | _, u::us => endsHigh (isHigh u) us

theorem isHigh_bytes {u : UInt16} (h : isHigh u = true) : isLow u = false ∧ unitBytes u = 3 := by
  simp only [isHigh, Bool.and_eq_true, decide_eq_true_eq, UInt16.le_iff_toNat_le] at h
  have hbounds : 0xd800 ≤ u.toNat ∧ u.toNat ≤ 0xdbff := h
  constructor
  · simp only [isLow, Bool.and_eq_false_iff, decide_eq_false_iff_not, UInt16.le_iff_toNat_le]
    left
    show ¬ 0xdc00 ≤ u.toNat
    omega
  · have hone : ¬ u < 0x80 := by
      rw [UInt16.lt_iff_toNat_lt]
      show ¬ u.toNat < 0x80
      omega
    have htwo : ¬ u < 0x800 := by
      rw [UInt16.lt_iff_toNat_lt]
      show ¬ u.toNat < 0x800
      omega
    simp [unitBytes, hone, htwo]

theorem isLow_bytes {u : UInt16} (h : isLow u = true) : isHigh u = false ∧ unitBytes u = 3 := by
  simp only [isLow, Bool.and_eq_true, decide_eq_true_eq, UInt16.le_iff_toNat_le] at h
  have hbounds : 0xdc00 ≤ u.toNat ∧ u.toNat ≤ 0xdfff := h
  constructor
  · simp only [isHigh, Bool.and_eq_false_iff, decide_eq_false_iff_not, UInt16.le_iff_toNat_le]
    right
    show ¬ u.toNat ≤ 0xdbff
    omega
  · have hone : ¬ u < 0x80 := by
      rw [UInt16.lt_iff_toNat_lt]
      show ¬ u.toNat < 0x80
      omega
    have htwo : ¬ u < 0x800 := by
      rw [UInt16.lt_iff_toNat_lt]
      show ¬ u.toNat < 0x800
      omega
    simp [unitBytes, hone, htwo]

theorem unitBytes_bounds (u : UInt16) : 1 ≤ unitBytes u ∧ unitBytes u ≤ 3 := by
  unfold unitBytes
  split_ifs <;> omega

theorem byteLengthAfter_append (high : Bool) (us vs : List UInt16) :
    byteLengthAfter high (us ++ vs) = byteLengthAfter high us + byteLengthAfter (endsHigh high us) vs := by
  induction us generalizing high with
  | nil => simp [byteLengthAfter, endsHigh]
  | cons u us ih => simp [byteLengthAfter, endsHigh, ih, Nat.add_assoc]

/-- What stands before a string saves at most two of its bytes. -/
theorem byteLength_le (high : Bool) (us : List UInt16) : byteLength us ≤ byteLengthAfter high us + 2 := by
  cases us with
  | nil => exact Nat.zero_le _
  | cons u us =>
    have hbounds := unitBytes_bounds u
    simp only [byteLength, byteLengthAfter, Bool.false_and, Bool.false_eq_true, if_false]
    split_ifs <;> omega

/-- It saves bytes only if it ends with a high half, which has three itself. -/
theorem endsHigh_bytes {high : Bool} {us : List UInt16} (h : endsHigh high us = true) :
    us = [] ∨ 3 ≤ byteLengthAfter high us := by
  induction us generalizing high with
  | nil => exact .inl rfl
  | cons u us ih =>
    right
    rw [byteLengthAfter]
    rcases ih h with rfl | hrest
    · obtain ⟨hlow, hthree⟩ := isHigh_bytes (show isHigh u = true from h)
      simp [hlow, hthree]
    · omega

theorem byteLength_infix {us vs : List UInt16} (h : us <:+: vs) : byteLength us ≤ byteLength vs := by
  obtain ⟨before, after, rfl⟩ := h
  have hsplit : byteLength (before ++ us ++ after) = byteLengthAfter false before +
      byteLengthAfter (endsHigh false before) us + byteLengthAfter (endsHigh false (before ++ us)) after := by
    rw [byteLength, byteLengthAfter_append, byteLengthAfter_append]
  rw [hsplit]
  cases hend : endsHigh false before with
  | false => exact (Nat.le_add_left _ _).trans (Nat.le_add_right _ _)
  | true =>
    rcases endsHigh_bytes hend with rfl | hthree
    · cases hend
    · have hsaved := byteLength_le true us
      omega

theorem byteLength_initial {us vs : List UInt16} (h : us <+: vs) : byteLength us ≤ byteLength vs :=
  byteLength_infix h.isInfix

/-- The UTF-8 bytes of a code point. -/
def scalarBytes (c : ℕ) : List ℕ :=
  if c < 0x80 then [c]
  else if c < 0x800 then [0xc0 + c / 64, 0x80 + c % 64]
  else if c < 0x10000 then [0xe0 + c / 4096, 0x80 + c / 64 % 64, 0x80 + c % 64]
  else [0xf0 + c / 262144, 0x80 + c / 4096 % 64, 0x80 + c / 64 % 64, 0x80 + c % 64]

/-- A half that stands alone is written as the replacement character. -/
def unitScalar (u : UInt16) : ℕ := if isHigh u || isLow u then 0xfffd else u.toNat

def pairScalar (u v : UInt16) : ℕ := 0x10000 + (u.toNat - 0xd800) * 1024 + (v.toNat - 0xdc00)

/-- The UTF-8 bytes of a string. -/
def encode : List UInt16 → List ℕ
  | [] => []
  | [u] => scalarBytes (unitScalar u)
  | u::v::us =>
    if isHigh u && isLow v then scalarBytes (pairScalar u v) ++ encode us
    else scalarBytes (unitScalar u) ++ encode (v::us)

theorem pairScalar_bounds {u v : UInt16} (hu : isHigh u = true) (hv : isLow v = true) :
    0x10000 ≤ pairScalar u v ∧ pairScalar u v < 0x110000 := by
  simp only [isHigh, isLow, Bool.and_eq_true, decide_eq_true_eq, UInt16.le_iff_toNat_le] at hu hv
  have hhigh : 0xd800 ≤ u.toNat ∧ u.toNat ≤ 0xdbff := hu
  have hlow : 0xdc00 ≤ v.toNat ∧ v.toNat ≤ 0xdfff := hv
  unfold pairScalar
  omega

theorem length_unitScalar (u : UInt16) : (scalarBytes (unitScalar u)).length = unitBytes u := by
  have hlt := u.toNat_lt
  by_cases hhalf : (isHigh u || isLow u) = true
  · have hthree : unitBytes u = 3 := by
      rcases Bool.or_eq_true_iff.mp hhalf with hhigh | hlow
      · exact (isHigh_bytes hhigh).2
      · exact (isLow_bytes hlow).2
    rw [unitScalar, if_pos hhalf, hthree]
    rfl
  · have hone : u < 0x80 ↔ u.toNat < 0x80 := UInt16.lt_iff_toNat_lt
    have htwo : u < 0x800 ↔ u.toNat < 0x800 := UInt16.lt_iff_toNat_lt
    have hthree : u.toNat < 0x10000 := hlt
    rw [unitScalar, if_neg hhalf, scalarBytes, unitBytes]
    simp only [hone, htwo, hthree, if_true]
    split_ifs <;> rfl

theorem length_encode (us : List UInt16) : (encode us).length = byteLength us := by
  induction us using encode.induct with
  | case1 => rfl
  | case2 u => simp [encode, byteLength, byteLengthAfter, length_unitScalar]
  | case3 u v us hpair ih =>
    obtain ⟨hu, hv⟩ := Bool.and_eq_true_iff.mp hpair
    have hbounds := pairScalar_bounds hu hv
    have hfour : (scalarBytes (pairScalar u v)).length = 4 := by
      unfold scalarBytes
      rw [if_neg (by omega), if_neg (by omega), if_neg (by omega)]
      rfl
    have hhigh : isHigh v = false := (isLow_bytes hv).1
    rw [encode, if_pos hpair, List.length_append, hfour, ih]
    simp [byteLength, byteLengthAfter, hu, hv, hhigh, (isHigh_bytes hu).2]
    omega
  | case4 u v us hpair ih =>
    have halone : (isHigh u && isLow v) = false := Bool.not_eq_true _ ▸ hpair
    rw [encode, if_neg hpair, List.length_append, length_unitScalar, ih]
    simp [byteLength, byteLengthAfter, halone]

end Bytes

section Characters

/-- The units of a code point. -/
def scalarUnits (c : ℕ) : List UInt16 :=
  if c < 0x10000 then [UInt16.ofNat c]
  else [UInt16.ofNat (0xd800 + (c - 0x10000) / 1024), UInt16.ofNat (0xdc00 + (c - 0x10000) % 1024)]

def ofString (s : String) : List UInt16 := s.toList.flatMap fun c => scalarUnits c.toNat

/-- The units of `\s`, which `trim` takes away at both ends. -/
def isBlank (u : UInt16) : Bool :=
  [0x9, 0xa, 0xb, 0xc, 0xd, 0x20, 0xa0, 0x1680, 0x2028, 0x2029, 0x202f, 0x205f, 0x3000, 0xfeff].contains u ||
    (0x2000 ≤ u && u ≤ 0x200a)

def trim (us : List UInt16) : List UInt16 := (us.dropWhile isBlank).rdropWhile isBlank

/-- The characters that a loop over a string goes through: the halves of a pair come together. -/
def characters : List UInt16 → List (List UInt16)
  | [] => []
  | [u] => [[u]]
  | u::v::us => if isHigh u && isLow v then [u, v] :: characters us else [u] :: characters (v::us)

theorem trim_eq_self {us : List UInt16} (hfirst : ∀ u ∈ us.head?, isBlank u = false)
    (hlast : ∀ u ∈ us.getLast?, isBlank u = false) : trim us = us := by
  have hdrop : us.dropWhile isBlank = us := by
    cases us with
    | nil => rfl
    | cons u us =>
      rw [List.dropWhile_cons_of_neg]
      simpa using hfirst u rfl
  rw [trim, hdrop, List.rdropWhile_eq_self_iff]
  intro hne
  have hblank := hlast (us.getLast hne) (List.getLast?_eq_some_getLast hne)
  simp [hblank]

theorem flatten_characters (us : List UInt16) : (characters us).flatten = us := by
  induction us using characters.induct with
  | case1 => rfl
  | case2 u => rfl
  | case3 u v us hpair ih => rw [characters, if_pos hpair, List.flatten_cons, ih]; rfl
  | case4 u v us hpair ih => rw [characters, if_neg hpair, List.flatten_cons, ih]; rfl

/-- A loop that treats a pair as its halves goes by units. -/
theorem foldl_characters {σ : Type} {f : σ → List UInt16 → σ}
    (hpair : ∀ s u v, isHigh u = true → isLow v = true → f s [u, v] = f (f s [u]) [v])
    (us : List UInt16) (s : σ) :
    (characters us).foldl f s = us.foldl (fun s u => f s [u]) s := by
  induction us using characters.induct generalizing s with
  | case1 => rfl
  | case2 u => rfl
  | case3 u v us h ih =>
    obtain ⟨hu, hv⟩ := Bool.and_eq_true_iff.mp h
    rw [characters, if_pos h, List.foldl_cons, ih, hpair s u v hu hv]
    rfl
  | case4 u v us h ih =>
    rw [characters, if_neg h, List.foldl_cons, ih]
    rfl

end Characters

section Bisection

/-- The loop between two indexes, which comes closer with each unit of fuel. -/
def bisect (fits : ℕ → Bool) : ℕ → ℕ → ℕ → ℕ
  | 0, low, _ => low
  | fuel+1, low, high =>
    if low < high then
      let middle := (low + high + 1) / 2
      if fits middle then bisect fits fuel middle high else bisect fits fuel low (middle - 1)
    else low

/-- The last index that fits. -/
theorem bisect_last {fits : ℕ → Bool} (hdown : ∀ m n, m ≤ n → fits n = true → fits m = true)
    (fuel low high : ℕ) (hfuel : high - low ≤ fuel) (hle : low ≤ high) (hlow : fits low = true) :
    bisect fits fuel low high ≤ high ∧ fits (bisect fits fuel low high) = true ∧
      ∀ n, n ≤ high → fits n = true → n ≤ bisect fits fuel low high := by
  induction fuel generalizing low high with
  | zero =>
    have heq : low = high := by omega
    subst heq
    exact ⟨Nat.le_refl _, hlow, fun n hn _ => hn⟩
  | succ fuel ih =>
    rw [bisect]
    by_cases hlt : low < high
    · rw [if_pos hlt]
      dsimp only
      by_cases hmiddle : fits ((low + high + 1) / 2) = true
      · rw [if_pos hmiddle]
        exact ih _ _ (by omega) (by omega) hmiddle
      · rw [if_neg hmiddle]
        obtain ⟨hbound, hfits, hlast⟩ := ih low ((low + high + 1) / 2 - 1) (by omega) (by omega) hlow
        refine ⟨by omega, hfits, ?_⟩
        intro n hn hfit
        apply hlast n _ hfit
        by_contra hbeyond
        exact hmiddle (hdown _ n (by omega) hfit)
    · rw [if_neg hlt]
      exact ⟨hle, hlow, fun n hn _ => by omega⟩

end Bisection

section Lines

variable {α : Type}

theorem intercalate_append (sep : List α) {ls ms : List (List α)} (hl : ls ≠ []) (hm : ms ≠ []) :
    sep.intercalate (ls ++ ms) = sep.intercalate ls ++ sep ++ sep.intercalate ms := by
  induction ls with
  | nil => exact absurd rfl hl
  | cons l ls ih =>
    by_cases hls : ls = []
    · subst hls
      rw [List.singleton_append, List.intercalate_cons_of_ne_nil hm, List.intercalate_singleton]
    · rw [List.cons_append, List.intercalate_cons_of_ne_nil (by simp [hls]), ih hls,
        List.intercalate_cons_of_ne_nil hls]
      simp only [List.append_assoc]

/-- Lines that stand at the front come out at the front. -/
theorem intercalate_prefix (sep : List α) (ls ms : List (List α)) :
    sep.intercalate ls <+: sep.intercalate (ls ++ ms) := by
  by_cases hl : ls = []
  · subst hl
    exact List.nil_prefix
  by_cases hm : ms = []
  · subst hm
    rw [List.append_nil]
  · rw [intercalate_append sep hl hm, List.append_assoc]
    exact List.prefix_append _ _

theorem intercalate_suffix (sep : List α) (ls ms : List (List α)) :
    sep.intercalate ms <:+ sep.intercalate (ls ++ ms) := by
  by_cases hm : ms = []
  · subst hm
    exact List.nil_suffix
  by_cases hl : ls = []
  · subst hl
    rw [List.nil_append]
  · rw [intercalate_append sep hl hm]
    exact List.suffix_append _ _

theorem intercalate_part (sep : List α) {l : List α} {ls : List (List α)} (h : l ∈ ls) :
    l <:+: sep.intercalate ls := by
  obtain ⟨before, after, rfl⟩ := List.append_of_mem h
  have hprefix := intercalate_prefix sep [l] after
  rw [List.intercalate_singleton] at hprefix
  exact hprefix.isInfix.trans (intercalate_suffix sep before (l::after)).isInfix

end Lines

end AccessStack.Units
