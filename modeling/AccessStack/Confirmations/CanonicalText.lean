import AccessStack.Confirmations.CanonicalJson

/-!
# The texts of values are told apart

An escaped character is read back, so a quoted string is known from what
follows it. By induction on the value the same holds of every canonical text
that is followed by a separator, a closing bracket or nothing.
-/

set_option autoImplicit false

namespace AccessStack.Confirmations
open AccessStack.Units AccessStack.Delimiters AccessStack.Utf16

section Strings

def hexValue (u : UInt16) : UInt16 := if u < 58 then u - 48 else u - 87

/-- The character behind a backslash. -/
def shortEscape (v : UInt16) : Option UInt16 :=
  if v = 98 then some 8
  else if v = 116 then some 9
  else if v = 110 then some 10
  else if v = 102 then some 12
  else if v = 114 then some 13
  else if v = 34 ∨ v = 92 then some v
  else none

/-- The first character of an escaped text that goes on behind it. -/
def readCharacter : Text → Option (List UInt16 × Text)
  | u::v::rest =>
    if u = 92 then
      if v = 117 then
        match rest with
        | a::b::c::d::rest =>
          some ([hexValue a * 4096 + hexValue b * 256 + hexValue c * 16 + hexValue d], rest)
        | _ => none
      else (shortEscape v).map fun w => ([w], rest)
    else if isHigh u then some ([u, v], rest)
    else some ([u], v::rest)
  | _ => none

def IsCharacter (c : List UInt16) : Prop := (∃ u, c = [u]) ∨ ∃ u v, c = [u, v] ∧ isHigh u = true ∧
    isLow v = true

theorem isCharacter_characters {us c : List UInt16} (h : c ∈ characters us) : IsCharacter c := by
  induction us using characters.induct with
  | case1 => simp [characters] at h
  | case2 u => exact .inl ⟨u, List.mem_singleton.mp h⟩
  | case3 u v us hpair ih =>
    rw [characters, if_pos hpair, List.mem_cons] at h
    obtain ⟨hu, hv⟩ := Bool.and_eq_true_iff.mp hpair
    rcases h with rfl | h
    · exact .inr ⟨u, v, rfl, hu, hv⟩
    · exact ih h
  | case4 u v us hpair ih =>
    rw [characters, if_neg hpair, List.mem_cons] at h
    rcases h with rfl | h
    · exact .inl ⟨u, rfl⟩
    · exact ih h

theorem hexValue_hexDigit {n : UInt16} (h : n < 16) : hexValue (hexDigit n) = n := by
  have hall : ∀ m < 16, hexValue (hexDigit (UInt16.ofNat m)) = UInt16.ofNat m := by decide
  have hn := hall n.toNat (UInt16.lt_iff_toNat_lt.mp h)
  rwa [UInt16.ofNat_toNat] at hn

theorem hexDigit_small {n : UInt16} (h : n < 16) : hexDigit n < 128 := by
  have hall : ∀ m < 16, hexDigit (UInt16.ofNat m) < 128 := by decide
  have hn := hall n.toNat (UInt16.lt_iff_toNat_lt.mp h)
  rwa [UInt16.ofNat_toNat] at hn

theorem hex_bounds (u : UInt16) : u / 4096 < 16 ∧ u / 256 % 16 < 16 ∧ u / 16 % 16 < 16 ∧ u % 16 < 16 := by
  have hlt := u.toNat_lt
  simp only [UInt16.lt_iff_toNat_lt, UInt16.toNat_div, UInt16.toNat_mod, UInt16.reduceToNat]
  omega

theorem hex_value (u : UInt16) : u / 4096 * 4096 + u / 256 % 16 * 256 + u / 16 % 16 * 16 + u % 16 = u := by
  have hlt := u.toNat_lt
  apply UInt16.toNat_inj.mp
  simp only [UInt16.toNat_add, UInt16.toNat_mul, UInt16.toNat_div, UInt16.toNat_mod, UInt16.reduceToNat]
  omega

theorem read_hex (u : UInt16) (rest : Text) :
    readCharacter (92 :: 117 :: (hexUnits u ++ rest)) = some ([u], rest) := by
  obtain ⟨h1, h2, h3, h4⟩ := hex_bounds u
  show some ([hexValue (hexDigit (u / 4096)) * 4096 + hexValue (hexDigit (u / 256 % 16)) * 256 +
    hexValue (hexDigit (u / 16 % 16)) * 16 + hexValue (hexDigit (u % 16))], rest) = _
  rw [hexValue_hexDigit h1, hexValue_hexDigit h2, hexValue_hexDigit h3, hexValue_hexDigit h4, hex_value]

/-- An escaped character is read back where the text goes on. -/
theorem read_escape {c : List UInt16} (h : IsCharacter c) (u : UInt16) (rest : Text) :
    readCharacter (escapeCharacter c ++ u :: rest) = some (c, u :: rest) := by
  rcases h with ⟨w, rfl⟩ | ⟨w, v, rfl, hhigh, -⟩
  · simp only [escapeCharacter]
    split_ifs with h1 h2 h3 h4 h5 h6 h7 h8
    · rw [h1]; rfl
    · rw [h2]; rfl
    · rw [h3]; rfl
    · rw [h4]; rfl
    · rw [h5]; rfl
    · rw [h6]; rfl
    · rw [h7]; rfl
    · exact read_hex w (u :: rest)
    · simp only [Bool.or_eq_true, not_or, Bool.not_eq_true] at h8
      show readCharacter (w :: u :: rest) = _
      simp [readCharacter, h2, h8.1.2]
  · have hne : w ≠ 92 := by
      rintro rfl
      exact absurd hhigh (by decide)
    show readCharacter (w :: v :: u :: rest) = _
    simp [readCharacter, hne, hhigh]

theorem escape_opens {c : List UInt16} (h : IsCharacter c) : OpensWithout 34 (escapeCharacter c) := by
  rcases h with ⟨w, rfl⟩ | ⟨w, v, rfl, hhigh, -⟩
  · simp only [escapeCharacter]
    split_ifs with h1
    all_goals first | exact ⟨92, _, rfl, by decide⟩ | exact ⟨w, _, rfl, h1⟩
  · refine ⟨w, [v], rfl, ?_⟩
    rintro rfl
    exact absurd hhigh (by decide)

/-- Escaped characters up to the quotation mark. -/
theorem escaped_told {cs ds : List (List UInt16)} (hcs : ∀ c ∈ cs, IsCharacter c)
    (hds : ∀ d ∈ ds, IsCharacter d) {r s : Text}
    (heq : cs.flatMap escapeCharacter ++ 34 :: r = ds.flatMap escapeCharacter ++ 34 :: s) :
    cs = ds ∧ r = s := by
  induction cs generalizing ds with
  | nil =>
    cases ds with
    | nil => exact ⟨rfl, (List.cons.inj heq).2⟩
    | cons d ds =>
      rw [List.flatMap_cons, List.append_assoc] at heq
      exact absurd heq.symm (opens_ne (escape_opens (hds d List.mem_cons_self)) _ _)
  | cons c cs ih =>
    have hc := hcs c List.mem_cons_self
    cases ds with
    | nil =>
      rw [List.flatMap_cons, List.append_assoc] at heq
      exact absurd heq (opens_ne (escape_opens hc) _ _)
    | cons d ds =>
      have hd := hds d List.mem_cons_self
      have hmore : ∀ (es : List (List UInt16)) (t : Text), ∃ u rest, es.flatMap escapeCharacter ++
          34 :: t = u :: rest :=
        fun es t => List.exists_cons_of_ne_nil (by simp)
      obtain ⟨u, rest, hu⟩ := hmore cs r
      obtain ⟨v, rest', hv⟩ := hmore ds s
      have hread := congrArg readCharacter heq
      rw [List.flatMap_cons, List.append_assoc, hu, read_escape hc, List.flatMap_cons, List.append_assoc, hv,
        read_escape hd, Option.some.injEq, Prod.mk.injEq, ← hu, ← hv] at hread
      obtain ⟨rfl, hrest⟩ := hread
      obtain ⟨rfl, hr⟩ := ih (fun c hc => hcs c (List.mem_cons_of_mem _ hc))
        (fun d hd => hds d (List.mem_cons_of_mem _ hd)) hrest
      exact ⟨rfl, hr⟩

/-- A quoted string is known from any text that begins with it. -/
theorem string_told {a b r s : Text} (heq : stringifyString a ++ r = stringifyString b ++ s) :
    a = b ∧ r = s := by
  have hinner : (characters a).flatMap escapeCharacter ++ 34 :: r =
      (characters b).flatMap escapeCharacter ++ 34 :: s := by
    simpa [stringifyString] using heq
  obtain ⟨hchars, hr⟩ :=
    escaped_told (fun _ h => isCharacter_characters h) (fun _ h => isCharacter_characters h) hinner
  exact ⟨by rw [← flatten_characters a, hchars, flatten_characters], hr⟩

end Strings

section Shapes
variable {N : Type} (numerals : Numerals N)

/-- The values directly inside a value. -/
def Value.children : Value N → List (Value N)
  | .arr items => items
  | .obj entries => entries.map Prod.snd
  | _ => []

def Value.isUndefined : Value N → Bool
  | .undefined => true
  | _ => false

/-- The entries that have a text. -/
def kept (entries : List (Text × Value N)) : List (Text × Value N) := entries.filter fun e => !e.2.isUndefined

theorem sizeOf_child {v c : Value N} (h : c ∈ v.children) : sizeOf c < sizeOf v := by
  cases v with
  | arr items =>
    have hlt : sizeOf c < sizeOf items := List.sizeOf_lt_of_mem h
    simp only [Value.arr.sizeOf_spec]
    omega
  | obj entries =>
    obtain ⟨e, he, rfl⟩ := List.mem_map.mp h
    have hlt : sizeOf e < sizeOf entries := List.sizeOf_lt_of_mem he
    have hpair : sizeOf e = 1 + sizeOf e.1 + sizeOf e.2 := by cases e; rfl
    simp only [Value.obj.sizeOf_spec]
    omega
  | _ => simp [Value.children] at h

/-- A property of all values follows from the values inside. -/
theorem Value.byChildren {P : Value N → Prop} (step : ∀ v, (∀ c ∈ v.children, P c) → P v)
    (v : Value N) : P v := by
  apply step
  intro c hc
  have hlt := sizeOf_child hc
  exact Value.byChildren step c
termination_by sizeOf v

theorem isUndefined_iff {v : Value N} : v.isUndefined = true ↔ v = .undefined := by
  cases v <;> simp [Value.isUndefined]

theorem mem_kept {entries : List (Text × Value N)} {e : Text × Value N} :
    e ∈ kept entries ↔ e ∈ entries ∧ e.2 ≠ .undefined := by
  rw [kept, List.mem_filter, Bool.not_eq_true', ← Bool.not_eq_true, isUndefined_iff]

theorem canonicalItems_ok {items : List (Value N)} {ts : List Text} :
    canonicalItems numerals items = .ok ts ↔
    List.Forall₂ (fun v t => canonicalJson numerals v = .ok t) items ts := by
  induction items generalizing ts with
  | nil => simp [canonicalItems, eq_comm]
  | cons v vs ih =>
    cases hv : canonicalJson numerals v with
    | error refusal => simp [canonicalItems, hv, List.forall₂_cons_left_iff]
    | ok t =>
      cases hvs : canonicalItems numerals vs with
      | error refusal =>
        have hnone : ∀ ts, ¬ List.Forall₂ (fun v t => canonicalJson numerals v = .ok t) vs ts := by
          intro ts h
          rw [ih.mpr h] at hvs
          cases hvs
        simp [canonicalItems, hv, hvs, Except.map, List.forall₂_cons_left_iff, hnone]
      | ok us =>
        have hall : ∀ ts, List.Forall₂ (fun v t => canonicalJson numerals v = .ok t) vs ts ↔ us = ts := by
          intro ts
          rw [← ih, hvs, Except.ok.injEq]
        simp [canonicalItems, hv, hvs, Except.map, List.forall₂_cons_left_iff, hall]
        exact eq_comm

theorem canonicalEntries_kept (entries : List (Text × Value N)) :
    canonicalEntries numerals entries = (kept entries).map fun e => (e.1, canonicalJson numerals e.2) := by
  induction entries with
  | nil => rfl
  | cons e entries ih =>
    obtain ⟨key, v⟩ := e
    cases v with
    | undefined => exact ih
    | _ => exact congrArg (List.cons _) ih

theorem entryTexts_ok {entries : List (Text × Except Refusal Text)} {ts : List Text} :
    entryTexts entries = .ok ts ↔ ∃ ps : List (Text × Text),
      entries = (ps.map fun p => (p.1, .ok p.2)) ∧ ts = ps.map entryText := by
  induction entries generalizing ts with
  | nil =>
    constructor
    · intro h
      exact ⟨[], rfl, (Except.ok.inj h).symm⟩
    · rintro ⟨ps, hps, rfl⟩
      rw [List.map_eq_nil_iff.mp hps.symm]
      rfl
  | cons e entries ih =>
    obtain ⟨key, text | text⟩ := e
    · constructor
      · intro h
        cases h
      · rintro ⟨ps, hps, -⟩
        cases ps <;> simp at hps
    · constructor
      · intro h
        cases hrest : entryTexts entries with
        | error refusal => simp [entryTexts, hrest, Except.map] at h
        | ok us =>
          obtain ⟨ps, rfl, rfl⟩ := ih.mp hrest
          simp only [entryTexts, hrest, Except.map, Except.ok.injEq] at h
          exact ⟨(key, text) :: ps, rfl, h.symm⟩
      · rintro ⟨ps, hps, rfl⟩
        cases ps with
        | nil => cases hps
        | cons p ps =>
          simp only [List.map_cons, List.cons.injEq, Prod.mk.injEq, Except.ok.injEq] at hps
          obtain ⟨⟨rfl, rfl⟩, hps⟩ := hps
          have hrest := ih.mpr ⟨ps, hps, rfl⟩
          simp only [entryTexts, hrest, Except.map]
          rfl

theorem arr_ok {items : List (Value N)} {t : Text} :
    canonicalJson numerals (.arr items) = .ok t ↔
      ∃ ts, List.Forall₂ (fun v t => canonicalJson numerals v = .ok t) items ts ∧ t = bracketed ts := by
  rw [canonicalJson]
  simp only [← canonicalItems_ok]
  cases canonicalItems numerals items <;> simp [Except.map, eq_comm]

theorem obj_ok {entries : List (Text × Value N)} {t : Text} :
    canonicalJson numerals (.obj entries) = .ok t ↔
      ∃ ps : List (Text × Text), byKey (· ≤ ·) (canonicalEntries numerals entries) =
        (ps.map fun p => (p.1, .ok p.2)) ∧
        t = braced (ps.map entryText) := by
  have hmap : canonicalJson numerals (.obj entries) = .ok t ↔
      ∃ ts, entryTexts (byKey (· ≤ ·) (canonicalEntries numerals entries)) = .ok ts ∧ t = braced ts := by
    rw [canonicalJson]
    cases entryTexts (byKey (· ≤ ·) (canonicalEntries numerals entries)) <;> simp [Except.map, eq_comm]
  rw [hmap]
  constructor
  · rintro ⟨ts, hts, rfl⟩
    obtain ⟨ps, hps, rfl⟩ := entryTexts_ok.mp hts
    exact ⟨ps, hps, rfl⟩
  · rintro ⟨ps, hps, rfl⟩
    exact ⟨_, entryTexts_ok.mpr ⟨ps, hps, rfl⟩, rfl⟩

/-- The written entries are the kept ones with their texts. -/
theorem mem_written {entries : List (Text × Value N)} {ps : List (Text × Text)}
    (h : byKey (· ≤ ·) (canonicalEntries numerals entries) = ps.map fun p => (p.1, .ok p.2)) {key t : Text} :
    (key, t) ∈ ps ↔ ∃ v, (key, v) ∈ kept entries ∧ canonicalJson numerals v = .ok t := by
  have hmem : (key, t) ∈ ps ↔ (key, Except.ok t) ∈ canonicalEntries numerals entries := by
    rw [← (perm_byKey (· ≤ ·) (canonicalEntries numerals entries)).mem_iff, h, List.mem_map]
    constructor
    · exact fun hp => ⟨_, hp, rfl⟩
    · rintro ⟨p, hp, heq⟩
      cases heq
      exact hp
  rw [hmem, canonicalEntries_kept, List.mem_map]
  constructor
  · rintro ⟨e, he, heq⟩
    obtain ⟨rfl, htext⟩ := Prod.mk.inj heq
    exact ⟨e.2, he, htext⟩
  · rintro ⟨v, hv, htext⟩
    exact ⟨(key, v), hv, by rw [htext]⟩

end Shapes

section Delimited
variable {N : Type} (numerals : Numerals N)

/-- What a text opens with, by the kind of its value. -/
def Value.mark : Value N → ℕ
  | .undefined => 0
  | .null => 0
  | .bool false => 1
  | .bool true => 2
  | .num _ => 3
  | .nonFinite => 3
  | .str _ => 4
  | .arr _ => 5
  | .obj _ => 6
  | .other _ => 7

def unitMark (u : UInt16) : ℕ :=
  if u = 110 then 0 else if u = 102 then 1 else if u = 116 then 2 else if u = 34 then 4
  else if u = 91 then 5 else if u = 123 then 6 else 3

def IsText (t : Text) : Prop := ∃ v, canonicalJson numerals v = .ok t

/-- What may follow a value: nothing that continues a number. -/
def Stop (r : Text) : Prop := ∀ u ∈ r.head?, isNumeral u = false

theorem numeral_mark {u : UInt16} (h : isNumeral u = true) : unitMark u = 3 := by
  unfold unitMark
  split_ifs with h1 h2 h3 h4 h5 h6
  case neg => rfl
  all_goals
    subst u
    exact absurd h (by decide)

theorem text_mark {v : Value N} {t : Text} (h : canonicalJson numerals v = .ok t) :
    ∃ u rest, t = u :: rest ∧ unitMark u = v.mark := by
  cases v with
  | undefined => cases h; exact ⟨_, _, rfl, rfl⟩
  | null => cases h; exact ⟨_, _, rfl, rfl⟩
  | bool b => cases h; cases b <;> exact ⟨_, _, rfl, rfl⟩
  | num n =>
    cases h
    obtain ⟨u, rest, hu⟩ := List.exists_cons_of_ne_nil (numerals.nonempty n)
    exact ⟨u, rest, hu, numeral_mark (numerals.numeral n u (by rw [hu]; exact List.mem_cons_self))⟩
  | nonFinite => cases h
  | str s => cases h; exact ⟨_, _, rfl, rfl⟩
  | arr items =>
    obtain ⟨ts, -, rfl⟩ := (arr_ok numerals).mp h
    exact ⟨_, _, rfl, rfl⟩
  | obj entries =>
    obtain ⟨ps, -, rfl⟩ := (obj_ok numerals).mp h
    exact ⟨_, _, rfl, rfl⟩
  | other type => cases h

theorem of_mark_null {w : Value N} (h : 0 = w.mark) : w = .undefined ∨ w = .null := by
  cases w with
  | undefined => exact .inl rfl
  | null => exact .inr rfl
  | bool b => cases b <;> cases h
  | _ => cases h

theorem of_mark_bool {b : Bool} {w : Value N} (h : (Value.bool b : Value N).mark = w.mark) : w = .bool b := by
  cases w with
  | bool b' => cases b <;> cases b' <;> first | rfl | cases h
  | _ => cases b <;> cases h

theorem of_mark_num {w : Value N} (h : 3 = w.mark) : (∃ n, w = .num n) ∨ w = .nonFinite := by
  cases w with
  | num n => exact .inl ⟨n, rfl⟩
  | nonFinite => exact .inr rfl
  | bool b => cases b <;> cases h
  | _ => cases h

theorem of_mark_str {w : Value N} (h : 4 = w.mark) : ∃ s, w = .str s := by
  cases w with
  | str s => exact ⟨s, rfl⟩
  | bool b => cases b <;> cases h
  | _ => cases h

theorem of_mark_arr {w : Value N} (h : 5 = w.mark) : ∃ items, w = .arr items := by
  cases w with
  | arr items => exact ⟨items, rfl⟩
  | bool b => cases b <;> cases h
  | _ => cases h

theorem of_mark_obj {w : Value N} (h : 6 = w.mark) : ∃ entries, w = .obj entries := by
  cases w with
  | obj entries => exact ⟨entries, rfl⟩
  | bool b => cases b <;> cases h
  | _ => cases h

theorem null_text {w : Value N} {t : Text} (hw : canonicalJson numerals w = .ok t)
    (h : 0 = w.mark) : t = nullText := by
  rcases of_mark_null h with rfl | rfl <;> exact (Except.ok.inj hw).symm

/-- Texts that open alike belong to values of one kind. -/
theorem mark_eq {v w : Value N} {t u r s : Text} (hv : canonicalJson numerals v = .ok t)
    (hw : canonicalJson numerals w = .ok u) (heq : t ++ r = u ++ s) : v.mark = w.mark := by
  obtain ⟨a, rest, rfl, ha⟩ := text_mark numerals hv
  obtain ⟨b, rest', rfl, hb⟩ := text_mark numerals hw
  rw [← ha, ← hb, (List.cons.inj heq).1]

theorem text_opens {c : UInt16} (hc : unitMark c = 3) (hnumeral : isNumeral c = false) {t : Text}
    (h : IsText numerals t) :
    OpensWithout c t := by
  obtain ⟨v, hv⟩ := h
  obtain ⟨u, rest, rfl, hmark⟩ := text_mark numerals hv
  refine ⟨u, rest, rfl, ?_⟩
  rintro rfl
  cases v with
  | num n =>
    have hn : numerals.text n = u :: rest := Except.ok.inj hv
    have hu := numerals.numeral n u (by rw [hn]; exact List.mem_cons_self)
    rw [hu] at hnumeral
    cases hnumeral
  | nonFinite => cases hv
  | bool b =>
    rw [hc] at hmark
    cases b <;> cases hmark
  | _ => rw [hc] at hmark; cases hmark

theorem numeral_told {t u r s : Text} (ht : ∀ c ∈ t, isNumeral c = true) (hu : ∀ c ∈ u, isNumeral c = true)
    (hr : Stop r) (hs : Stop s) (heq : t ++ r = u ++ s) : t = u := by
  have htake : ∀ {a b : Text}, (∀ c ∈ a, isNumeral c = true) → Stop b → (a ++ b).takeWhile isNumeral = a := by
    intro a b ha hb
    rw [List.takeWhile_append_of_pos ha]
    cases b with
    | nil => simp
    | cons c b =>
      have hc := hb c rfl
      rw [List.takeWhile_cons_of_neg (by rw [hc]; exact Bool.false_ne_true), List.append_nil]
  rw [← htake ht hr, heq, htake hu hs]

/-- The text of an entry: a key and the text of a value. -/
def IsEntry (e : Text) : Prop := ∃ key t, IsText numerals t ∧ e = entryText (key, t)

theorem entry_told {key t : Text} (h : Told Stop (IsText numerals) t) :
    Told Stop (IsEntry numerals) (entryText (key, t)) := by
  rintro _ r s ⟨key', u, hu, rfl⟩ hr hs heq
  simp only [entryText, List.append_assoc, List.cons_append] at heq
  obtain ⟨rfl, htail⟩ := string_told heq
  obtain ⟨rfl, hrs⟩ := h u r s hu hr hs (List.cons.inj htail).2
  exact ⟨rfl, hrs⟩

theorem entry_inj {p q : Text × Text} (h : entryText p = entryText q) : p = q := by
  obtain ⟨hkey, htail⟩ := string_told h
  exact Prod.ext hkey (List.cons.inj htail).2

theorem stop_mark {c : UInt16} (h : isNumeral c = false) (r : Text) : Stop (c :: r) := by
  intro u hu
  cases hu
  exact h

theorem bracketed_told {ts us : List Text} (hts : ∀ t ∈ ts, IsText numerals t ∧ Told Stop (IsText numerals) t)
    (hus : ∀ u ∈ us, IsText numerals u) {r s : Text} (heq : bracketed ts ++ r = bracketed us ++ s) :
    ts = us ∧ r = s := by
  have hmarks : (44 : UInt16) ≠ 93 := by decide
  refine separated_told hmarks (stop_mark (by decide)) (stop_mark (by decide))
    (fun t ht => text_opens numerals (by decide) (by decide) ht) hts hus ?_
  simpa [bracketed] using heq

theorem braced_told {ts us : List Text} (hts : ∀ t ∈ ts, IsEntry numerals t ∧ Told Stop (IsEntry numerals) t)
    (hus : ∀ u ∈ us, IsEntry numerals u) {r s : Text} (heq : braced ts ++ r = braced us ++ s) :
    ts = us ∧ r = s := by
  have hmarks : (44 : UInt16) ≠ 125 := by decide
  refine separated_told hmarks (stop_mark (by decide)) (stop_mark (by decide)) ?_ hts hus ?_
  · rintro _ ⟨key, t, -, rfl⟩
    exact ⟨34, _, rfl, by decide⟩
  · simpa [braced] using heq

theorem texts_of_items {items : List (Value N)} {ts : List Text}
    (h : List.Forall₂ (fun v t => canonicalJson numerals v = .ok t) items ts) {t : Text} (ht : t ∈ ts) :
    ∃ v ∈ items, canonicalJson numerals v = .ok t := by
  induction h with
  | nil => cases ht
  | cons hv _ ih =>
    rcases List.mem_cons.mp ht with rfl | ht
    · exact ⟨_, List.mem_cons_self, hv⟩
    · obtain ⟨v, hmem, htext⟩ := ih ht
      exact ⟨v, List.mem_cons_of_mem _ hmem, htext⟩

theorem child_of_kept {entries : List (Text × Value N)} {e : Text × Value N} (h : e ∈ kept entries) :
    e.2 ∈ (Value.obj entries).children := List.mem_map_of_mem (mem_kept.mp h).1

theorem items_told {items items' : List (Value N)} {ts us : List Text}
    (htold : ∀ c ∈ items, ∀ t, canonicalJson numerals c = .ok t → Told Stop (IsText numerals) t)
    (hts : List.Forall₂ (fun v t => canonicalJson numerals v = .ok t) items ts)
    (hus : List.Forall₂ (fun v t => canonicalJson numerals v = .ok t) items' us) {r s : Text}
    (heq : bracketed ts ++ r = bracketed us ++ s) : ts = us ∧ r = s := by
  refine bracketed_told numerals ?_ ?_ heq
  · intro t ht
    obtain ⟨c, hc, htext⟩ := texts_of_items numerals hts ht
    exact ⟨⟨c, htext⟩, htold c hc t htext⟩
  · intro u hu
    obtain ⟨c, -, htext⟩ := texts_of_items numerals hus hu
    exact ⟨c, htext⟩

theorem entries_told {entries entries' : List (Text × Value N)} {ps qs : List (Text × Text)}
    (htold : ∀ e ∈ kept entries, ∀ t, canonicalJson numerals e.2 = .ok t → Told Stop (IsText numerals) t)
    (hps : byKey (· ≤ ·) (canonicalEntries numerals entries) = ps.map fun p => (p.1, .ok p.2))
    (hqs : byKey (· ≤ ·) (canonicalEntries numerals entries') = qs.map fun p => (p.1, .ok p.2)) {r s : Text}
    (heq : braced (ps.map entryText) ++ r = braced (qs.map entryText) ++ s) : ps = qs ∧ r = s := by
  have htexts := braced_told numerals ?_ ?_ heq
  · exact ⟨List.map_injective_iff.mpr (fun _ _ h => entry_inj h) htexts.1, htexts.2⟩
  · intro e he
    obtain ⟨⟨key, t⟩, hp, rfl⟩ := List.mem_map.mp he
    obtain ⟨c, hc, htext⟩ := (mem_written numerals hps).mp hp
    exact ⟨⟨key, t, ⟨c, htext⟩, rfl⟩, entry_told numerals (htold (key, c) hc t htext)⟩
  · intro e he
    obtain ⟨⟨key, t⟩, hp, rfl⟩ := List.mem_map.mp he
    obtain ⟨c, -, htext⟩ := (mem_written numerals hqs).mp hp
    exact ⟨key, t, ⟨c, htext⟩, rfl⟩

/-- A canonical text is known from a text that begins with it and does not go on with a number. -/
theorem text_told (v : Value N) : ∀ t, canonicalJson numerals v = .ok t → Told Stop (IsText numerals) t := by
  induction v using Value.byChildren with
  | step v ih =>
    rintro t hv u r s ⟨w, hw⟩ hr hs heq
    have hmark := mark_eq numerals hv hw heq
    suffices h : t = u by
      subst h
      exact ⟨rfl, List.append_cancel_left heq⟩
    cases v with
    | undefined => rw [← Except.ok.inj hv, null_text numerals hw hmark]
    | null => rw [← Except.ok.inj hv, null_text numerals hw hmark]
    | bool b =>
      obtain rfl := of_mark_bool hmark
      exact Except.ok.inj (hv.symm.trans hw)
    | num n =>
      rcases of_mark_num hmark with ⟨m, rfl⟩ | rfl
      · have ht := Except.ok.inj hv
        have hu := Except.ok.inj hw
        exact numeral_told (by rw [← ht]; exact numerals.numeral n)
          (by rw [← hu]; exact numerals.numeral m) hr hs heq
      · cases hw
    | nonFinite => cases hv
    | str a =>
      obtain ⟨b, rfl⟩ := of_mark_str hmark
      have ht := Except.ok.inj hv
      have hu := Except.ok.inj hw
      rw [← ht, ← hu] at heq
      rw [← ht, ← hu, (string_told heq).1]
    | arr items =>
      obtain ⟨items', rfl⟩ := of_mark_arr hmark
      obtain ⟨ts, hts, rfl⟩ := (arr_ok numerals).mp hv
      obtain ⟨us, hus, rfl⟩ := (arr_ok numerals).mp hw
      rw [(items_told numerals ih hts hus heq).1]
    | obj entries =>
      obtain ⟨entries', rfl⟩ := of_mark_obj hmark
      obtain ⟨ps, hps, rfl⟩ := (obj_ok numerals).mp hv
      obtain ⟨qs, hqs, rfl⟩ := (obj_ok numerals).mp hw
      rw [(entries_told numerals (fun e he => ih e.2 (child_of_kept he)) hps hqs heq).1]
    | other type => cases hv

end Delimited

end AccessStack.Confirmations
