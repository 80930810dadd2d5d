import Mathlib

/-!
# JSON texts and their values

`stringify` follows `JSON.stringify` on values without layout arguments:
fields keep the order of the object, nothing is written between tokens, and
only the quotation mark, the backslash and the control characters are
escaped. `parse` reads such a text back and skips the blanks JSON allows
between tokens. A text written by `stringify` has exactly one reading, so
the text determines the value.
-/

set_option autoImplicit false

namespace AccessStack.JsonText

inductive Json where
  | null
  | bool (b : Bool)
  | num (n : ℤ)
  | str (s : String)
  | arr (items : List Json)
  | obj (fields : List (String × Json))

def hexDigit (n : ℕ) : Char := Nat.digitChar n

def escapeChar (c : Char) : List Char :=
  if c = '"' then ['\\', '"']
  else if c = '\\' then ['\\', '\\']
  else if c.toNat = 8 then ['\\', 'b']
  else if c.toNat = 9 then ['\\', 't']
  else if c.toNat = 10 then ['\\', 'n']
  else if c.toNat = 12 then ['\\', 'f']
  else if c.toNat = 13 then ['\\', 'r']
  else if c.toNat < 32 then ['\\', 'u', '0', '0', hexDigit (c.toNat/16), hexDigit (c.toNat%16)]
  else [c]

def quoted (s : String) : List Char :=
  '"' :: s.toList.flatMap escapeChar ++ ['"']

def digits : ℤ → List Char
  | .ofNat n => Nat.toDigits 10 n
  | .negSucc n => '-' :: Nat.toDigits 10 (n+1)

mutual

def chars : Json → List Char
  | .null => ['n', 'u', 'l', 'l']
  | .bool true => ['t', 'r', 'u', 'e']
  | .bool false => ['f', 'a', 'l', 's', 'e']
  | .num n => digits n
  | .str s => quoted s
  | .arr items => '[' :: itemChars items
  | .obj fields => '\x7b' :: fieldChars fields

/-- The elements with the closing bracket, separated by commas. -/
def itemChars : List Json → List Char
  | [] => [']']
  | [v] => chars v ++ [']']
  | v::w::rest => chars v ++ ',' :: itemChars (w::rest)

def fieldChars : List (String × Json) → List Char
  | [] => ['\x7d']
  | [(k, v)] => quoted k ++ ':' :: chars v ++ ['\x7d']
  | (k, v)::f::rest => quoted k ++ ':' :: chars v ++ ',' :: fieldChars (f::rest)

end

def stringify (v : Json) : String := String.ofList (chars v)

def isBlank (c : Char) : Bool := c = ' ' || c = '\t' || c = '\n' || c = '\r'

def skip : List Char → List Char
  | [] => []
  | c::cs => if isBlank c then skip cs else c::cs

def hexValue (c : Char) : Option ℕ :=
  if '0' ≤ c ∧ c ≤ '9' then some (c.toNat-48)
  else if 'a' ≤ c ∧ c ≤ 'f' then some (c.toNat-87)
  else if 'A' ≤ c ∧ c ≤ 'F' then some (c.toNat-55)
  else none

def shortEscape : Char → Option Char
  | '"' => some '"'
  | '\\' => some '\\'
  | '/' => some '/'
  | 'b' => some (Char.ofNat 8)
  | 't' => some '\t'
  | 'n' => some '\n'
  | 'f' => some (Char.ofNat 12)
  | 'r' => some '\r'
  | _ => none

/-- The rest of a string after its opening quotation mark. Escapes of
surrogate pairs are outside the texts `stringify` writes and are refused. -/
def readString : List Char → Option (List Char × List Char)
  | [] => none
  | '"' :: cs => some ([], cs)
  | '\\' :: 'u' :: a :: b :: c :: d :: cs =>
    match hexValue a, hexValue b, hexValue c, hexValue d, readString cs with
    | some a, some b, some c, some d, some (s, rest) =>
      some (Char.ofNat (4096*a+256*b+16*c+d) :: s, rest)
    | _, _, _, _, _ => none
  | '\\' :: e :: cs =>
    match shortEscape e, readString cs with
    | some c, some (s, rest) => some (c::s, rest)
    | _, _ => none
  | c::cs =>
    match readString cs with
    | some (s, rest) => some (c::s, rest)
    | none => none

def readDigits (cs : List Char) : Option (ℕ × List Char) :=
  match cs.span Char.isDigit with
  | ([], _) => none
  | (ds, rest) => some (Nat.ofDigitChars 10 ds 0, rest)

def readWord : List Char → List Char → Option (List Char)
  | [], cs => some cs
  | _::_, [] => none
  | w::ws, c::cs => if w = c then readWord ws cs else none

mutual

/-- A value, its leading blanks skipped. The fuel bounds the nesting and the
number of elements; `parse` gives more of it than the text has characters. -/
def readValue : ℕ → List Char → Option (Json × List Char)
  | 0, _ => none
  | fuel+1, cs =>
    match skip cs with
    | [] => none
    | c::rest =>
      if c = '"' then (readString rest).map fun p => (.str (String.ofList p.1), p.2)
      else if c = '[' then
        if (skip rest).head? = some ']' then some (.arr [], (skip rest).tail)
        else (readItems fuel rest).map fun p => (.arr p.1, p.2)
      else if c = '\x7b' then
        if (skip rest).head? = some '\x7d' then some (.obj [], (skip rest).tail)
        else (readFields fuel rest).map fun p => (.obj p.1, p.2)
      else if c = 'n' then (readWord ['u', 'l', 'l'] rest).map fun r => (.null, r)
      else if c = 't' then (readWord ['r', 'u', 'e'] rest).map fun r => (.bool true, r)
      else if c = 'f' then (readWord ['a', 'l', 's', 'e'] rest).map fun r => (.bool false, r)
      else if c = '-' then (readDigits rest).map fun p => (.num (-p.1), p.2)
      else (readDigits (c::rest)).map fun p => (.num p.1, p.2)

def readItems : ℕ → List Char → Option (List Json × List Char)
  | 0, _ => none
  | fuel+1, cs =>
    match readValue fuel cs with
    | none => none
    | some (v, rest) =>
      match skip rest with
      | ']'::rest => some ([v], rest)
      | ','::rest => (readItems fuel rest).map fun p => (v::p.1, p.2)
      | _ => none

def readFields : ℕ → List Char → Option (List (String × Json) × List Char)
  | 0, _ => none
  | fuel+1, cs =>
    match skip cs with
    | '"'::rest =>
      match readString rest with
      | none => none
      | some (k, rest) =>
        match skip rest with
        | ':'::rest =>
          match readValue fuel rest with
          | none => none
          | some (v, rest) =>
            match skip rest with
            | '\x7d'::rest => some ([(String.ofList k, v)], rest)
            | ','::rest =>
              (readFields fuel rest).map fun p => ((String.ofList k, v)::p.1, p.2)
            | _ => none
        | _ => none
    | _ => none

end

/-- `JSON.parse`: one value and nothing but blanks after it. -/
def parse (text : String) : Option Json :=
  match readValue (text.length+1) text.toList with
  | some (v, rest) => if skip rest = [] then some v else none
  | none => none

/-- A field of a parsed object. `JSON.parse` keeps the last of several fields
of one name. -/
def field (fields : List (String × Json)) (name : String) : Option Json :=
  (fields.reverse.find? fun f => f.1 == name).map (·.2)

theorem char_of_code {c : Char} {n : ℕ} (h : c.toNat = n) : Char.ofNat n = c := by
  rw [← h, Char.ofNat_toNat]

theorem hex_value : ∀ n < 16, hexValue (hexDigit n) = some n := by decide

attribute [local simp] readString in
theorem read_escaped (c : Char) (cs : List Char) :
    readString (escapeChar c ++ cs) = (readString cs).map fun p => (c::p.1, p.2) := by
  unfold escapeChar
  split_ifs with h1 h2 h3 h4 h5 h6 h7 h8
  · subst h1
    cases h : readString cs <;> simp [readString, shortEscape, h]
  · subst h2
    cases h : readString cs <;> simp [readString, shortEscape, h]
  · obtain rfl := char_of_code h3
    cases h : readString cs <;> simp [readString, shortEscape, h]
  · obtain rfl := char_of_code h4
    cases h : readString cs <;> simp [readString, shortEscape, h]
  · obtain rfl := char_of_code h5
    cases h : readString cs <;> simp [readString, shortEscape, h]
  · obtain rfl := char_of_code h6
    cases h : readString cs <;> simp [readString, shortEscape, h]
  · obtain rfl := char_of_code h7
    cases h : readString cs <;> simp [readString, shortEscape, h]
  · have hv : Char.ofNat (16*(c.toNat/16)+c.toNat%16) = c :=
      char_of_code (Nat.div_add_mod _ _).symm
    have h0 : hexValue '0' = some 0 := by decide
    cases h : readString cs <;>
      simp [readString, h, h0, hex_value (c.toNat/16) (by omega), hex_value (c.toNat%16) (by omega), hv]
  · -- An ordinary character meets neither of the two special patterns.
    simp only [List.singleton_append]
    cases h : readString cs <;>
    · rw [readString.eq_def]
      split <;> simp_all

theorem read_quoted (s r : List Char) :
    readString (s.flatMap escapeChar ++ '"' :: r) = some (s, r) := by
  induction s with
  | nil => simp [readString]
  | cons c s ih =>
    rw [List.flatMap_cons, List.append_assoc, read_escaped, ih]
    rfl

/-- The text after a value does not continue a number. -/
def Stops (r : List Char) : Prop := ∀ c ∈ r.head?, c.isDigit = false

theorem span_digits (ds r : List Char) (hd : ∀ c ∈ ds, c.isDigit = true) (hr : Stops r) :
    (ds ++ r).span Char.isDigit = (ds, r) := by
  rw [List.span_eq_takeWhile_dropWhile, List.takeWhile_append_of_pos hd,
    List.dropWhile_append_of_pos hd]
  cases r with
  | nil => simp
  | cons c r => simp [hr c rfl]

theorem read_digits (n : ℕ) (r : List Char) (hr : Stops r) :
    readDigits (Nat.toDigits 10 n ++ r) = some (n, r) := by
  have hd : ∀ c ∈ Nat.toDigits 10 n, c.isDigit = true := fun c hc =>
    Nat.isDigit_of_mem_toDigits (by decide) (by decide) hc
  have hne : Nat.toDigits 10 n ≠ [] := Nat.toDigits_ne_nil
  unfold readDigits
  rw [span_digits _ _ hd hr]
  cases h : Nat.toDigits 10 n with
  | nil => exact absurd h hne
  | cons d ds => simp only [← h, Nat.ofDigitChars_ten_toDigits]

theorem toDigits_cons (n : ℕ) : ∃ c cs, Nat.toDigits 10 n = c::cs ∧ c.isDigit = true := by
  obtain ⟨c, cs, h⟩ := List.exists_cons_of_ne_nil (Nat.toDigits_ne_nil (n := n) (b := 10))
  refine ⟨c, cs, h, Nat.isDigit_of_mem_toDigits (b := 10) (n := n) (by decide) (by decide) ?_⟩
  simp [h]

/-- Every written value starts with a character that is neither blank nor a
closing bracket. -/
theorem chars_head (v : Json) : ∃ c cs, chars v = c::cs ∧ isBlank c = false ∧ c ≠ ']' := by
  cases v with
  | num n =>
    cases n with
    | ofNat n =>
      obtain ⟨c, cs, h, hc⟩ := toDigits_cons n
      refine ⟨c, cs, h, ?_, ?_⟩
      · by_contra hb
        simp only [isBlank, Bool.or_eq_true, decide_eq_true_eq, Bool.not_eq_false] at hb
        rcases hb with ((rfl | rfl) | rfl) | rfl <;> revert hc <;> decide
      · rintro rfl
        revert hc
        decide
    | negSucc n => exact ⟨'-', _, rfl, rfl, by decide⟩
  | bool b => cases b <;> exact ⟨_, _, rfl, rfl, by decide⟩
  | null => exact ⟨_, _, rfl, rfl, by decide⟩
  | str s => exact ⟨_, _, rfl, rfl, by decide⟩
  | arr items => exact ⟨_, _, rfl, rfl, by decide⟩
  | obj fields => exact ⟨_, _, rfl, rfl, by decide⟩

theorem skip_chars (v : Json) (r : List Char) : skip (chars v ++ r) = chars v ++ r := by
  obtain ⟨c, cs, h, hb, _⟩ := chars_head v
  simp [h, skip, hb]

theorem items_head (v : Json) (rest : List Json) :
    ∃ c cs, itemChars (v::rest) = c::cs ∧ isBlank c = false ∧ c ≠ ']' := by
  obtain ⟨c, cs, h, hb, hc⟩ := chars_head v
  cases rest with
  | nil => exact ⟨c, _, by rw [itemChars, h, List.cons_append], hb, hc⟩
  | cons w rest => exact ⟨c, _, by rw [itemChars, h, List.cons_append], hb, hc⟩

theorem fields_head (f : String × Json) (rest : List (String × Json)) :
    ∃ cs, fieldChars (f::rest) = '"'::cs := by
  cases rest <;> exact ⟨_, by simp only [fieldChars, quoted, List.cons_append]; rfl⟩

mutual

theorem read_value (v : Json) (r : List Char) (hr : Stops r) (fuel : ℕ)
    (hf : (chars v).length < fuel) : readValue fuel (chars v ++ r) = some (v, r) := by
  obtain ⟨fuel, rfl⟩ : ∃ n, fuel = n+1 := ⟨fuel-1, by omega⟩
  rw [readValue, skip_chars]
  cases v with
  | null => simp [chars, readWord]
  | bool b => cases b <;> simp [chars, readWord]
  | str s => simp [chars, quoted, read_quoted]
  | num n =>
    cases n with
    | ofNat n =>
      obtain ⟨c, cs, h, hc⟩ := toDigits_cons n
      have hd := read_digits n r hr
      rw [h, List.cons_append] at hd
      have hne : ∀ d : Char, d.isDigit = false → c ≠ d := by
        rintro d hd rfl
        rw [hc] at hd
        cases hd
      simp [chars, digits, h, hd, hne]
    | negSucc n => simp [chars, digits, read_digits _ r hr, Int.negSucc_eq]
  | arr items =>
    cases items with
    | nil => simp [chars, itemChars, skip, isBlank]
    | cons w rest =>
      simp only [chars, List.length_cons] at hf
      have hi := read_items (w::rest) (by simp) r fuel (by omega)
      obtain ⟨c, cs, h, hb, hc⟩ := items_head w rest
      simp [chars, h, skip, hb, hc] at hi ⊢
      simp [hi]
  | obj fields =>
    cases fields with
    | nil => simp [chars, fieldChars, skip, isBlank]
    | cons f rest =>
      simp only [chars, List.length_cons] at hf
      have hi := read_fields (f::rest) (by simp) r fuel (by omega)
      obtain ⟨cs, h⟩ := fields_head f rest
      simp [chars, h, skip, isBlank] at hi ⊢
      simp [hi]

theorem read_items (items : List Json) (hne : items ≠ []) (r : List Char) (fuel : ℕ)
    (hf : (itemChars items).length < fuel) :
    readItems fuel (itemChars items ++ r) = some (items, r) := by
  obtain ⟨fuel, rfl⟩ : ∃ n, fuel = n+1 := ⟨fuel-1, by omega⟩
  match items, hne with
  | [v], _ =>
    have hv := read_value v (']'::r) (by simp [Stops]) fuel (by simp [itemChars] at hf; omega)
    simp [readItems, itemChars, hv, skip, isBlank]
  | v::w::rest, _ =>
    simp only [itemChars, List.length_append, List.length_cons] at hf
    have hv := read_value v (','::(itemChars (w::rest) ++ r)) (by simp [Stops]) fuel (by omega)
    have hi := read_items (w::rest) (by simp) r fuel (by omega)
    simp [readItems, itemChars, hv, skip, isBlank, hi]

theorem read_fields (fields : List (String × Json)) (hne : fields ≠ []) (r : List Char)
    (fuel : ℕ) (hf : (fieldChars fields).length < fuel) :
    readFields fuel (fieldChars fields ++ r) = some (fields, r) := by
  obtain ⟨fuel, rfl⟩ : ∃ n, fuel = n+1 := ⟨fuel-1, by omega⟩
  match fields, hne with
  | [(k, v)], _ =>
    simp only [fieldChars, List.length_append, List.length_cons, List.length_nil] at hf
    have hv := read_value v ('\x7d'::r) (by simp [Stops]) fuel (by omega)
    simp [readFields, fieldChars, quoted, skip, isBlank, read_quoted, hv]
  | (k, v)::f::rest, _ =>
    simp only [fieldChars, List.length_append, List.length_cons] at hf
    have hv := read_value v (','::(fieldChars (f::rest) ++ r)) (by simp [Stops]) fuel (by omega)
    have hi := read_fields (f::rest) (by simp) r fuel (by omega)
    simp [readFields, fieldChars, quoted, skip, isBlank, read_quoted, hv, hi]

end

/-- A written value is read back, also with the blanks a file ends in. -/
theorem parse_written (v : Json) (blanks : List Char) (hb : ∀ c ∈ blanks, isBlank c = true) :
    parse (String.ofList (chars v ++ blanks)) = some v := by
  have hs : Stops blanks := by
    intro c hc
    have := hb c (List.mem_of_mem_head? hc)
    simp only [isBlank, Bool.or_eq_true, decide_eq_true_eq] at this
    rcases this with ((rfl | rfl) | rfl) | rfl <;> rfl
  have hk : skip blanks = [] := by
    clear hs
    induction blanks with
    | nil => rfl
    | cons c cs ih =>
      rw [skip, if_pos (hb c (by simp))]
      exact ih (fun d hd => hb d (by simp [hd]))
  have hv := read_value v blanks hs ((chars v ++ blanks).length+1) (by simp)
  simp only [parse, String.length_ofList, String.toList_ofList, hv, hk, if_true]

theorem parse_stringify (v : Json) : parse (stringify v) = some v := by
  simpa [stringify] using parse_written v [] (by simp)

theorem stringify_injective : Function.Injective stringify := by
  intro v w h
  have hv := parse_stringify v
  rw [h, parse_stringify w] at hv
  exact (Option.some.inj hv).symm

end AccessStack.JsonText
