import AccessStack.Delimiters
import AccessStack.Utf16

/-!
# Canonical JSON and the digest of confirmed arguments

Strings are lists of UTF-16 units and objects are lists of their entries. The
texts of the finite numbers are those of `JSON.stringify`, which are different
for different numbers. Undefined values are written as null, but entries of an
object that are undefined are left out. The digest is taken of the arguments
without the keys that spell `confirmationid`.
-/

set_option autoImplicit false

namespace AccessStack.Confirmations
open AccessStack.Units AccessStack.Delimiters

section Values

abbrev Text := List UInt16

/-- What `typeof` says of the values that have no JSON text. -/
inductive Unsupported where
  | bigint
  | symbol
  | function
  deriving DecidableEq

inductive Value (N : Type) where
  | undefined
  | null
  | bool (b : Bool)
  | num (n : N)
  | nonFinite
  | str (s : Text)
  | arr (items : List (Value N))
  | obj (entries : List (Text × Value N))
  | other (type : Unsupported)

inductive Refusal where
  | nonFinite
  | unsupported (type : Unsupported)
  | sensitive (key : Text)
  deriving DecidableEq

def Unsupported.name : Unsupported → Text
  | .bigint => ofString "bigint"
  | .symbol => ofString "symbol"
  | .function => ofString "function"

def Refusal.message : Refusal → Text
  | .nonFinite => ofString "Canonical JSON does not support non-finite numbers."
  | .unsupported type => ofString "Canonical JSON does not support " ++ type.name ++ ofString "."
  | .sensitive key =>
    ofString "Source-control canonical arguments contain sensitive credential field '" ++ key ++ ofString "'."

/-- The units of the texts of numbers: the digits and `+`, `-`, `.` and `e`. -/
def isNumeral (u : UInt16) : Bool := (48 ≤ u && u ≤ 57) || u == 43 || u == 45 || u == 46 || u == 101

structure Numerals (N : Type) where
  text : N → Text
  injective : Function.Injective text
  nonempty : ∀ n, text n ≠ []
  numeral : ∀ n, ∀ u ∈ text n, isNumeral u = true

end Values

section Strings

def hexDigit (n : UInt16) : UInt16 := if n < 10 then 48 + n else 87 + n

def hexUnits (u : UInt16) : Text :=
  [hexDigit (u / 4096), hexDigit (u / 256 % 16), hexDigit (u / 16 % 16), hexDigit (u % 16)]

/-- A character of a string, which is a unit or the two halves of a pair. -/
def escapeCharacter : List UInt16 → Text
  | [u] =>
    if u = 34 then [92, 34]
    else if u = 92 then [92, 92]
    else if u = 8 then [92, 98]
    else if u = 9 then [92, 116]
    else if u = 10 then [92, 110]
    else if u = 12 then [92, 102]
    else if u = 13 then [92, 114]
    else if u < 32 || isHigh u || isLow u then 92 :: 117 :: hexUnits u
    else [u]
  | us => us

/-- `JSON.stringify` of a string. -/
def stringifyString (s : Text) : Text := 34 :: ((characters s).flatMap escapeCharacter ++ [34])

def nullText : Text := [110, 117, 108, 108]

def boolText : Bool → Text
  | true => [116, 114, 117, 101]
  | false => [102, 97, 108, 115, 101]

end Strings

section Canonical
variable {N : Type} (numerals : Numerals N)

def bracketed (parts : List Text) : Text := 91 :: (separated 44 parts ++ [93])

def braced (parts : List Text) : Text := 123 :: (separated 44 parts ++ [125])

def entryText (e : Text × Text) : Text := stringifyString e.1 ++ 58 :: e.2

/-- The texts of the entries in their order, or the first refusal. -/
def entryTexts : List (Text × Except Refusal Text) → Except Refusal (List Text)
  | [] => .ok []
  | (_, .error refusal)::_ => .error refusal
  | (key, .ok text)::entries => (entryTexts entries).map fun texts => entryText (key, text) :: texts

mutual

def canonicalJson : Value N → Except Refusal Text
  | .null => .ok nullText
  | .str s => .ok (stringifyString s)
  | .bool b => .ok (boolText b)
  | .nonFinite => .error .nonFinite
  | .num n => .ok (numerals.text n)
  | .undefined => .ok nullText
  | .arr items => (canonicalItems items).map bracketed
  | .obj entries => (entryTexts (byKey (· ≤ ·) (canonicalEntries entries))).map braced
  | .other type => .error (.unsupported type)

def canonicalItems : List (Value N) → Except Refusal (List Text)
  | [] => .ok []
  | v::vs =>
    match canonicalJson v with
    | .error refusal => .error refusal
    | .ok text => (canonicalItems vs).map fun texts => text :: texts

/-- The entries that are not undefined, with the texts of their values. -/
def canonicalEntries : List (Text × Value N) → List (Text × Except Refusal Text)
  | [] => []
  | (_, .undefined)::entries => canonicalEntries entries
  | (key, v)::entries => (key, canonicalJson v) :: canonicalEntries entries

end

end Canonical

section Arguments
variable {N : Type} (numerals : Numerals N)

/-- What `toLowerCase` leaves of a unit when all but `a` to `z` and the digits
are taken away. Two capitals outside ASCII have a small letter of ASCII. -/
def normalizedUnit (u : UInt16) : Text :=
  if 65 ≤ u && u ≤ 90 then [u + 32]
  else if (97 ≤ u && u ≤ 122) || (48 ≤ u && u ≤ 57) then [u]
  else if u = 0x130 then [105]
  else if u = 0x212a then [107]
  else []

def normalizeSensitiveKey (key : Text) : Text := key.flatMap normalizedUnit

def isSensitiveFieldKey (key : Text) : Bool :=
  decide (ofString "authorization" <:+: key) ||
  decide (key = ofString "token") ||
  decide (ofString "token" <:+ key) ||
  decide (ofString "credential" <:+: key) ||
  decide (ofString "password" <:+: key) ||
  decide (ofString "secret" <:+: key) ||
  decide (ofString "apikey" <:+ key) ||
  decide (ofString "privatekey" <:+: key)

def confirmationKey : Text := ofString "confirmationid"

def protoKey : Text := ofString "__proto__"

mutual

def removeEphemeralAndRejectSensitive : Value N → Except Refusal (Value N)
  | .arr items => (removeItems items).map .arr
  | .obj entries => (removeEntries entries).map .obj
  | v => .ok v

def removeItems : List (Value N) → Except Refusal (List (Value N))
  | [] => .ok []
  | v::vs =>
    match removeEphemeralAndRejectSensitive v with
    | .error refusal => .error refusal
    | .ok v' => (removeItems vs).map fun vs' => v' :: vs'

/-- The entries that are assigned to the result. An assignment to `__proto__`
makes no property of it. -/
def removeEntries : List (Text × Value N) → Except Refusal (List (Text × Value N))
  | [] => .ok []
  | (key, v)::entries =>
    if normalizeSensitiveKey key = confirmationKey then removeEntries entries
    else if isSensitiveFieldKey (normalizeSensitiveKey key) then .error (.sensitive key)
    else
      match removeEphemeralAndRejectSensitive v with
      | .error refusal => .error refusal
      | .ok v' => (removeEntries entries).map fun entries' =>
        if key = protoKey then entries' else (key, v') :: entries'

end

/-- The digest of the arguments, by the hash of the bytes of their text. -/
def canonicalSourceControlArgumentsDigest {D : Type} (sha256 : List ℕ → D) (v : Value N) : Except Refusal D :=
  match removeEphemeralAndRejectSensitive v with
  | .error refusal => .error refusal
  | .ok v' => (canonicalJson numerals v').map fun text => sha256 (encode text)

end Arguments

end AccessStack.Confirmations
