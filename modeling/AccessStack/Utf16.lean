import AccessStack.Utf8

/-!
# UTF-16 without lone halves

A list of units in which the halves of pairs stand together is the text of a
list of characters. Its UTF-8 bytes then say which list it was.
-/

set_option autoImplicit false

namespace AccessStack.Utf16
open AccessStack.Units AccessStack.Utf8

inductive Paired : List UInt16 → Prop where
  | nil : Paired []
  | single {u : UInt16} {us : List UInt16} : isHigh u = false → isLow u = false → Paired us → Paired (u :: us)
  | pair {u v : UInt16} {us : List UInt16} : isHigh u = true → isLow v = true → Paired us →
    Paired (u :: v :: us)

/-- The characters of a text. -/
def scalars : List UInt16 → List ℕ
  | [] => []
  | [u] => [unitScalar u]
  | u::v::us => if isHigh u && isLow v then pairScalar u v :: scalars us else unitScalar u :: scalars (v::us)

theorem paired_append {us vs : List UInt16} (h : Paired us) (h' : Paired vs) : Paired (us ++ vs) := by
  induction h with
  | nil => exact h'
  | single hhigh hlow _ ih => exact .single hhigh hlow ih
  | pair hhigh hlow _ ih => exact .pair hhigh hlow ih

theorem paired_flatten {texts : List (List UInt16)} (h : ∀ t ∈ texts, Paired t) : Paired texts.flatten := by
  induction texts with
  | nil => exact .nil
  | cons t texts ih =>
    exact paired_append (h t List.mem_cons_self) (ih fun t ht => h t (List.mem_cons_of_mem _ ht))

theorem encode_scalars (us : List UInt16) : encode us = encodeText (scalars us) := by
  induction us using scalars.induct with
  | case1 => rfl
  | case2 u => exact (List.append_nil _).symm
  | case3 u v us hpair ih =>
    rw [encode, if_pos hpair, scalars, if_pos hpair, ih]
    rfl
  | case4 u v us hpair ih =>
    rw [encode, if_neg hpair, scalars, if_neg hpair, ih]
    rfl

theorem unitScalar_scalar (u : UInt16) : IsScalar (unitScalar u) := by
  have hlt := u.toNat_lt
  unfold unitScalar
  split_ifs with hhalf
  · exact .inr (by decide)
  · simp only [isHigh, isLow, UInt16.le_iff_toNat_le, Bool.or_eq_true, Bool.and_eq_true,
      decide_eq_true_eq, not_or, not_and] at hhalf
    have hhigh : 0xd800 ≤ u.toNat → ¬ u.toNat ≤ 0xdbff := hhalf.1
    have hlow : 0xdc00 ≤ u.toNat → ¬ u.toNat ≤ 0xdfff := hhalf.2
    unfold IsScalar
    omega

theorem scalar_scalars {us : List UInt16} {c : ℕ} (h : c ∈ scalars us) : IsScalar c := by
  induction us using scalars.induct with
  | case1 => simp [scalars] at h
  | case2 u =>
    rw [List.mem_singleton.mp h]
    exact unitScalar_scalar u
  | case3 u v us hpair ih =>
    rw [scalars, if_pos hpair, List.mem_cons] at h
    obtain ⟨hu, hv⟩ := Bool.and_eq_true_iff.mp hpair
    rcases h with hfirst | h
    · have hbounds := pairScalar_bounds hu hv
      rw [hfirst]
      unfold IsScalar
      omega
    · exact ih h
  | case4 u v us hpair ih =>
    rw [scalars, if_neg hpair, List.mem_cons] at h
    rcases h with rfl | h
    · exact unitScalar_scalar u
    · exact ih h

theorem units_single {u : UInt16} (hhigh : isHigh u = false) (hlow : isLow u = false) :
    scalarUnits (unitScalar u) = [u] := by
  have hlt := u.toNat_lt
  have hscalar : unitScalar u = u.toNat := by rw [unitScalar, hhigh, hlow]; rfl
  have hsmall : u.toNat < 0x10000 := hlt
  rw [hscalar, scalarUnits, if_pos hsmall, UInt16.ofNat_toNat]

theorem units_pair {u v : UInt16} (hhigh : isHigh u = true) (hlow : isLow v = true) :
    scalarUnits (pairScalar u v) = [u, v] := by
  have hbounds := pairScalar_bounds hhigh hlow
  simp only [isHigh, isLow, Bool.and_eq_true, decide_eq_true_eq, UInt16.le_iff_toNat_le] at hhigh hlow
  have hu : 0xd800 ≤ u.toNat ∧ u.toNat ≤ 0xdbff := hhigh
  have hv : 0xdc00 ≤ v.toNat ∧ v.toNat ≤ 0xdfff := hlow
  have hfirst : 0xd800 + (pairScalar u v - 0x10000) / 1024 = u.toNat := by unfold pairScalar; omega
  have hsecond : 0xdc00 + (pairScalar u v - 0x10000) % 1024 = v.toNat := by unfold pairScalar; omega
  rw [scalarUnits, if_neg (by omega), hfirst, hsecond, UInt16.ofNat_toNat, UInt16.ofNat_toNat]

theorem high_not_low {u : UInt16} (h : isHigh u = true) : isLow u = false := (isHigh_bytes h).1

theorem scalars_single {u : UInt16} (hhigh : isHigh u = false) (us : List UInt16) :
    scalars (u :: us) = unitScalar u :: scalars us := by
  cases us with
  | nil => rfl
  | cons v us => rw [scalars, hhigh]; rfl

theorem units_scalars {us : List UInt16} (h : Paired us) : (scalars us).flatMap scalarUnits = us := by
  induction h with
  | nil => rfl
  | single hhigh hlow _ ih => rw [scalars_single hhigh, List.flatMap_cons, units_single hhigh hlow, ih]; rfl
  | pair hhigh hlow _ ih =>
    rw [scalars, if_pos (Bool.and_eq_true_iff.mpr ⟨hhigh, hlow⟩), List.flatMap_cons,
      units_pair hhigh hlow, ih]
    rfl

theorem half_iff (u : UInt16) : (isHigh u = true ↔ 0xd800 ≤ u.toNat ∧ u.toNat ≤ 0xdbff) ∧
    (isLow u = true ↔ 0xdc00 ≤ u.toNat ∧ u.toNat ≤ 0xdfff) := by
  simp only [isHigh, isLow, Bool.and_eq_true, decide_eq_true_eq, UInt16.le_iff_toNat_le]
  exact ⟨Iff.rfl, Iff.rfl⟩

theorem toNat_ofNat {n : ℕ} (h : n < 0x10000) : (UInt16.ofNat n).toNat = n := UInt16.toNat_ofNat_of_lt' h

theorem small_scalar {c : ℕ} (h : IsScalar c) (hsmall : c < 0x10000) :
    isHigh (UInt16.ofNat c) = false ∧ isLow (UInt16.ofNat c) = false ∧ unitScalar (UInt16.ofNat c) = c := by
  have hnat := toNat_ofNat hsmall
  obtain ⟨hhigh, hlow⟩ := half_iff (UInt16.ofNat c)
  rw [hnat] at hhigh hlow
  unfold IsScalar at h
  have hnothigh : isHigh (UInt16.ofNat c) = false := by
    rw [← Bool.not_eq_true, hhigh]
    omega
  have hnotlow : isLow (UInt16.ofNat c) = false := by
    rw [← Bool.not_eq_true, hlow]
    omega
  refine ⟨hnothigh, hnotlow, ?_⟩
  rw [unitScalar, hnothigh, hnotlow]
  exact hnat

/-- The two halves of a character above the basic plane. -/
def highHalf (c : ℕ) : UInt16 := UInt16.ofNat (0xd800 + (c - 0x10000) / 1024)

def lowHalf (c : ℕ) : UInt16 := UInt16.ofNat (0xdc00 + (c - 0x10000) % 1024)

theorem large_scalar {c : ℕ} (h : IsScalar c) (hlarge : ¬ c < 0x10000) :
    isHigh (highHalf c) = true ∧ isLow (lowHalf c) = true ∧ pairScalar (highHalf c) (lowHalf c) = c := by
  unfold IsScalar at h
  have hfirst : (highHalf c).toNat = 0xd800 + (c - 0x10000) / 1024 := toNat_ofNat (by omega)
  have hsecond : (lowHalf c).toNat = 0xdc00 + (c - 0x10000) % 1024 := toNat_ofNat (by omega)
  refine ⟨(half_iff _).1.mpr (by omega), (half_iff _).2.mpr (by omega), ?_⟩
  unfold pairScalar
  omega

theorem scalarUnits_small {c : ℕ} (hsmall : c < 0x10000) : scalarUnits c = [UInt16.ofNat c] := if_pos hsmall

theorem scalarUnits_large {c : ℕ} (hlarge : ¬ c < 0x10000) :
    scalarUnits c = [highHalf c, lowHalf c] := if_neg hlarge

theorem paired_scalarUnits {c : ℕ} (h : IsScalar c) {us : List UInt16} (hus : Paired us) :
    Paired (scalarUnits c ++ us) := by
  by_cases hsmall : c < 0x10000
  · obtain ⟨hhigh, hlow, -⟩ := small_scalar h hsmall
    rw [scalarUnits_small hsmall]
    exact .single hhigh hlow hus
  · obtain ⟨hhigh, hlow, -⟩ := large_scalar h hsmall
    rw [scalarUnits_large hsmall]
    exact .pair hhigh hlow hus

theorem paired_scalars {cs : List ℕ} (h : ∀ c ∈ cs, IsScalar c) : Paired (cs.flatMap scalarUnits) := by
  induction cs with
  | nil => exact .nil
  | cons c cs ih =>
    exact paired_scalarUnits (h c List.mem_cons_self) (ih fun d hd => h d (List.mem_cons_of_mem _ hd))

/-- The units of characters are read as these characters. -/
theorem scalars_units {cs : List ℕ} (h : ∀ c ∈ cs, IsScalar c) : scalars (cs.flatMap scalarUnits) = cs := by
  induction cs with
  | nil => rfl
  | cons c cs ih =>
    have hc := h c List.mem_cons_self
    have hcs := ih fun d hd => h d (List.mem_cons_of_mem _ hd)
    rw [List.flatMap_cons]
    by_cases hsmall : c < 0x10000
    · obtain ⟨hhigh, -, hscalar⟩ := small_scalar hc hsmall
      rw [scalarUnits_small hsmall, List.singleton_append, scalars_single hhigh, hscalar, hcs]
    · obtain ⟨hhigh, hlow, hscalar⟩ := large_scalar hc hsmall
      have hpair : (isHigh (highHalf c) && isLow (lowHalf c)) = true := Bool.and_eq_true_iff.mpr ⟨hhigh, hlow⟩
      show scalars (scalarUnits c ++ cs.flatMap scalarUnits) = _
      rw [scalarUnits_large hsmall]
      show scalars (highHalf c :: lowHalf c :: cs.flatMap scalarUnits) = _
      rw [scalars, if_pos hpair, hscalar, hcs]

theorem scalarBytes_inj {c d : ℕ} (hc : IsScalar c) (hd : IsScalar d)
    (h : scalarBytes c = scalarBytes d) : c = d := by
  have hruns := run_scalar hc
  rw [h, run_scalar hd] at hruns
  exact (Option.some.inj (Piece.mk.inj (List.cons.inj (Prod.mk.inj hruns).1).1).2).symm

theorem encode_cons {u : UInt16} (hhigh : isHigh u = false) (us : List UInt16) :
    encode (u :: us) = scalarBytes (unitScalar u) ++ encode us := by
  cases us with
  | nil => exact (List.append_nil _).symm
  | cons v us => rw [encode, hhigh]; rfl

/-- Where no pair is cut, the bytes of two parts follow each other. -/
theorem encode_append (us : List UInt16) {vs : List UInt16} (h : ∀ v ∈ vs.head?, isLow v = false) :
    encode (us ++ vs) = encode us ++ encode vs := by
  induction us using encode.induct with
  | case1 => rfl
  | case2 u =>
    cases vs with
    | nil => exact (List.append_nil _).symm
    | cons v vs =>
      have hlow : isLow v = false := h v rfl
      have hpair : ¬ (isHigh u && isLow v) = true := by rw [hlow, Bool.and_false]; exact Bool.false_ne_true
      show encode (u :: v :: vs) = scalarBytes (unitScalar u) ++ encode (v :: vs)
      rw [encode, if_neg hpair]
  | case3 u v us hpair ih =>
    show encode (u :: v :: (us ++ vs)) = _
    rw [encode, if_pos hpair, ih, encode, if_pos hpair, List.append_assoc]
  | case4 u v us hpair ih =>
    show encode (u :: v :: (us ++ vs)) = _
    rw [encode, if_neg hpair, encode, if_neg hpair, List.append_assoc, ← ih]
    rfl

/-- The bytes determine a text without lone halves. -/
theorem encode_inj {us vs : List UInt16} (hus : Paired us) (hvs : Paired vs)
    (h : encode us = encode vs) : us = vs := by
  rw [encode_scalars, encode_scalars] at h
  have hscalars : scalars us = scalars vs := by
    rw [← decode_encode fun c hc => scalar_scalars hc, h, decode_encode fun c hc => scalar_scalars hc]
  rw [← units_scalars hus, hscalars, units_scalars hvs]

end AccessStack.Utf16
