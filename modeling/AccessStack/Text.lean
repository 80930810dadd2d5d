import Mathlib

/-!
# Anchored text patterns

The identifiers of the stack are checked by regular expressions of two
shapes: one character class followed by a bounded repetition of another, and
a fixed number of characters of one class. Lengths are those of a pattern
with the `u` flag, which counts code points.
-/

set_option autoImplicit false

namespace AccessStack.Text

/-- `^[first][rest]{0,extra}$` -/
def bounded (first rest : Char → Bool) (extra : ℕ) (s : String) : Bool :=
  match s.toList with
  | [] => false
  | c::cs => first c && decide (cs.length ≤ extra) && cs.all rest

/-- `^[p]{n}$` -/
def exactly (p : Char → Bool) (n : ℕ) (s : String) : Bool :=
  decide (s.toList.length = n) && s.toList.all p

def isHexLower (c : Char) : Bool := c.isDigit || ('a' ≤ c && c ≤ 'f')

/-- The format of `randomUUID`: lower-case hexadecimal digits in groups of
8, 4, 4, 4 and 12. -/
def isUuid (s : String) : Bool :=
  decide (s.toList.length = 36) && s.toList.zipIdx.all fun p =>
    if [8, 13, 18, 23].contains p.2 then p.1 == '-' else isHexLower p.1

/-- The white space and line terminators `String.prototype.trim` removes. -/
def isSpace (c : Char) : Bool :=
  [0x9, 0xa, 0xb, 0xc, 0xd, 0x20, 0xa0, 0x1680, 0x2028, 0x2029, 0x202f, 0x205f, 0x3000,
    0xfeff].contains c.toNat || (0x2000 ≤ c.toNat && c.toNat ≤ 0x200a)

/-- `value.length`: the number of UTF-16 code units. -/
def utf16Length (s : String) : ℕ :=
  (s.toList.map fun c => if c.toNat < 0x10000 then 1 else 2).sum

/-- The first code units of a string, without the half of a character that is cut. -/
def sliceUnits : ℕ → List Char → List Char
  | _, [] => []
  | limit, c::cs =>
    let units := if c.toNat < 0x10000 then 1 else 2
    if units ≤ limit then c :: sliceUnits (limit - units) cs else []

/-- `^[0-9a-f]{8}-[0-9a-f]{4}-[1-8][0-9a-f]{3}-[89ab][0-9a-f]{3}-[0-9a-f]{12}$` -/
def isVersionedUuid (s : String) : Bool :=
  isUuid s && (s.toList[14]?).any (fun c => '1' ≤ c && c ≤ '8') &&
    (s.toList[19]?).any fun c => c = '8' || c = '9' || c = 'a' || c = 'b'

/-- `Number.isSafeInteger` on an integer. -/
def isSafeInteger (n : ℤ) : Bool := decide (n.natAbs < 2^53)

/-- `!value.trim()` -/
def blank (s : String) : Bool := s.toList.all isSpace

/-- `value.trim()` -/
def trim (s : String) : String :=
  String.ofList ((s.toList.dropWhile isSpace).rdropWhile isSpace)

theorem bounded_mono {first rest first' rest' : Char → Bool} {extra extra' : ℕ} {s : String}
    (hf : ∀ c, first c = true → first' c = true) (hr : ∀ c, rest c = true → rest' c = true)
    (he : extra ≤ extra') (h : bounded first rest extra s = true) :
    bounded first' rest' extra' s = true := by
  unfold bounded at h ⊢
  cases hs : s.toList with
  | nil => simp [hs] at h
  | cons c cs =>
    simp only [hs, Bool.and_eq_true, decide_eq_true_eq, List.all_eq_true] at h ⊢
    exact ⟨⟨hf c h.1.1, h.1.2.trans he⟩, fun d hd => hr d (h.2 d hd)⟩

theorem uuid_chars {s : String} (h : isUuid s = true) :
    s.toList.length = 36 ∧ (∀ c ∈ s.toList, isHexLower c = true ∨ c = '-') ∧
      ∀ c ∈ s.toList.head?, isHexLower c = true := by
  simp only [isUuid, Bool.and_eq_true, decide_eq_true_eq, List.all_eq_true] at h
  have hat : ∀ i c, s.toList[i]? = some c →
      (if [8, 13, 18, 23].contains i then c == '-' else isHexLower c) = true :=
    fun i c hi => h.2 (c, i) (List.mk_mem_zipIdx_iff_getElem?.mpr hi)
  refine ⟨h.1, fun c hc => ?_, fun c hc => ?_⟩
  · obtain ⟨i, hi⟩ := List.getElem?_of_mem hc
    have := hat i c hi
    split at this
    · exact .inr (by simpa using this)
    · exact .inl this
  · rw [List.head?_eq_getElem?] at hc
    simpa using hat 0 c hc

theorem uuid_exactly {s : String} (h : isUuid s = true) :
    exactly (fun c => isHexLower c || c = '-') 36 s = true := by
  obtain ⟨hl, hc, _⟩ := uuid_chars h
  simpa [exactly, hl] using hc

theorem uuid_bounded {s : String} (h : isUuid s = true) {first rest : Char → Bool} {extra : ℕ}
    (hf : ∀ c, isHexLower c = true → first c = true)
    (hr : ∀ c, isHexLower c = true ∨ c = '-' → rest c = true) (he : 35 ≤ extra) :
    bounded first rest extra s = true := by
  obtain ⟨hl, hc, hh⟩ := uuid_chars h
  unfold bounded
  cases hs : s.toList with
  | nil => simp [hs] at hl
  | cons c cs =>
    rw [hs] at hl hc hh
    simp only [List.length_cons] at hl
    simp only [Bool.and_eq_true, decide_eq_true_eq, List.all_eq_true]
    exact ⟨⟨hf c (hh c rfl), by omega⟩, fun d hd => hr d (hc d (List.mem_cons_of_mem c hd))⟩

theorem dropWhile_rdropWhile {α : Type*} (p : α → Bool) (l : List α) :
    ((l.dropWhile p).rdropWhile p).dropWhile p = (l.dropWhile p).rdropWhile p := by
  rw [List.dropWhile_eq_self_iff]
  intro hl
  have hcut : (l.dropWhile p).rdropWhile p <+: l.dropWhile p :=
    ⟨(l.dropWhile p).rtakeWhile p, List.rdropWhile_append_rtakeWhile⟩
  have hne : 0 < (l.dropWhile p).length := hl.trans_le hcut.length_le
  have hhead := List.dropWhile_get_zero_not p l hne
  have hsame : ((l.dropWhile p).rdropWhile p)[0] = (l.dropWhile p)[0] := hcut.getElem hl
  rw [hsame]
  exact hhead

theorem trim_trim (s : String) : trim (trim s) = trim s := by
  simp only [trim, String.toList_ofList, dropWhile_rdropWhile, List.rdropWhile_idempotent]

theorem trim_eq_self {s : String} (h : ∀ c ∈ s.toList, isSpace c = false) : trim s = s := by
  have hfront : s.toList.dropWhile isSpace = s.toList := by
    cases hs : s.toList with
    | nil => rfl
    | cons c cs =>
      exact List.dropWhile_cons_of_neg (by rw [h c (hs ▸ List.mem_cons_self)]; exact Bool.false_ne_true)
  rw [trim, hfront, List.rdropWhile_eq_self_iff.mpr, String.ofList_toList]
  intro hne hlast
  rw [h _ (List.getLast_mem hne)] at hlast
  cases hlast

section Digits

/-- The low `width` hexadecimal digits of a number. -/
def hexDigits : ℕ → ℕ → List Char
  | 0, _ => []
  | width+1, n => hexDigits width (n/16) ++ [Nat.digitChar (n%16)]

theorem digitChar_hex (d : ℕ) (h : d < 16) : isHexLower (Nat.digitChar d) = true := by
  interval_cases d <;> decide

theorem hexDigits_format (width n : ℕ) :
    (hexDigits width n).length = width ∧ ∀ c ∈ hexDigits width n, isHexLower c = true := by
  induction width generalizing n with
  | zero => simp [hexDigits]
  | succ width ih =>
    refine ⟨by simp [hexDigits, (ih (n/16)).1], ?_⟩
    intro c hc
    simp only [hexDigits, List.mem_append, List.mem_singleton] at hc
    rcases hc with hc | rfl
    · exact (ih (n/16)).2 c hc
    · exact digitChar_hex _ (Nat.mod_lt n (by decide))

theorem digitChar_injective {d e : ℕ} (hd : d < 16) (he : e < 16)
    (h : Nat.digitChar d = Nat.digitChar e) : d = e := by
  interval_cases d <;> interval_cases e <;> revert h <;> decide

theorem hexDigits_injective {width m n : ℕ} (hm : m < 16^width) (hn : n < 16^width)
    (h : hexDigits width m = hexDigits width n) : m = n := by
  induction width generalizing m n with
  | zero => omega
  | succ width ih =>
    obtain ⟨hq, hr⟩ := List.append_inj' h rfl
    have hquot : m/16 = n/16 := ih (by omega) (by omega) hq
    have hrem : m%16 = n%16 := digitChar_injective (Nat.mod_lt m (by decide))
      (Nat.mod_lt n (by decide)) (by simpa using hr)
    omega

def bytes (s : String) : List ℕ := s.toByteArray.data.toList.map (·.toNat)

/-- The identifier with the number `n`. -/
def countedUuid (n : ℕ) : String :=
  String.ofList ("00000000-0000-4000-8000-".toList ++ hexDigits 12 n)

theorem countedUuid_format (n : ℕ) : isUuid (countedUuid n) = true := by
  have h := hexDigits_format 12 n
  have hp : ("00000000-0000-4000-8000-".toList.zipIdx.all fun p =>
      if [8, 13, 18, 23].contains p.2 then p.1 == '-' else isHexLower p.1) = true := by
    decide +kernel
  unfold countedUuid
  simp only [isUuid, String.toList_ofList, List.length_append, h.1, List.zipIdx_append,
    List.all_append, Bool.and_eq_true, decide_eq_true_eq]
  refine ⟨by rfl, hp, List.all_eq_true.mpr fun p hm => ?_⟩
  obtain ⟨hle, _, hc⟩ := List.mem_zipIdx hm
  have hlate : [8, 13, 18, 23].contains p.2 = false := by
    have hlen : "00000000-0000-4000-8000-".toList.length = 24 := by rfl
    simp only [hlen] at hle
    simp
    omega
  rw [hlate]
  exact h.2 _ (hc ▸ List.getElem_mem _)

theorem countedUuid_versioned (n : ℕ) : isVersionedUuid (countedUuid n) = true := by
  have hat : ∀ i < 24, (countedUuid n).toList[i]? = "00000000-0000-4000-8000-".toList[i]? := by
    intro i hi
    have hlen : "00000000-0000-4000-8000-".toList.length = 24 := by rfl
    unfold countedUuid
    rw [String.toList_ofList, List.getElem?_append_left (hi.trans_eq hlen.symm)]
  have h14 : (countedUuid n).toList[14]? = some '4' := (hat 14 (by decide)).trans (by rfl)
  have h19 : (countedUuid n).toList[19]? = some '8' := (hat 19 (by decide)).trans (by rfl)
  rw [isVersionedUuid, countedUuid_format, h14, h19]
  decide

/-- The beginning of a text in the format of a digest. -/
def leadingDigest (s : String) : String :=
  String.ofList (hexDigits 64 (((bytes s).take 32).foldl (fun n c => n*256+c) 0))

theorem leadingDigest_format (s : String) : exactly isHexLower 64 (leadingDigest s) = true := by
  unfold leadingDigest
  generalize ((bytes s).take 32).foldl (fun n c => n*256+c) 0 = n
  simpa [exactly, hexDigits_format] using (hexDigits_format 64 n).2

end Digits

/-- What follows a separator that neither part before it has is determined. -/
theorem separated {c : Char} {before before' after after' : List Char} (hnot : c ∉ before)
    (hnot' : c ∉ before') (h : before ++ c :: after = before' ++ c :: after') :
    before = before' ∧ after = after' := by
  induction before generalizing before' with
  | nil =>
    cases before' with
    | nil => exact ⟨rfl, (List.cons.inj h).2⟩
    | cons d before' => exact absurd ((List.cons.inj h).1 ▸ List.mem_cons_self) hnot'
  | cons d before ih =>
    cases before' with
    | nil => exact absurd ((List.cons.inj h).1 ▸ List.mem_cons_self) hnot
    | cons d' before' =>
      obtain ⟨rfl, hrest⟩ := List.cons.inj h
      obtain ⟨rfl, hafter⟩ := ih (fun hmem => hnot (List.mem_cons_of_mem _ hmem))
        (fun hmem => hnot' (List.mem_cons_of_mem _ hmem)) hrest
      exact ⟨rfl, hafter⟩

end AccessStack.Text
