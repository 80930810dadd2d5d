import AccessStack.Utf16

/-!
# Reading, patching and writing a text file

The decoders of the platform are followed with the bytes each unit came from,
so that a patched text still says which of its characters the old file had.
The texts themselves are the units alone. What encodes them again is a library
and a parameter here.
-/

set_option autoImplicit false

namespace AccessStack.TextPatch
open AccessStack.Units AccessStack.Utf8 AccessStack.Utf16

section Cells

abbrev Text := List UInt16

inductive TextEncoding where
  | utf8
  | utf16le
  | utf16be
  | windows1252
  deriving DecidableEq

/-- Where a unit is from: it has been put in, or it is a character of the file
or one half of one, with the bytes of that character. -/
inductive Origin where
  | inserted
  | whole (bytes : List ℕ)
  | first (bytes : List ℕ)
  | second (bytes : List ℕ)
  deriving DecidableEq

structure Cell where
  unit : UInt16
  origin : Origin
  deriving DecidableEq

def textOf (cells : List Cell) : Text := cells.map Cell.unit

def insertedCells (t : Text) : List Cell := t.map fun u => ⟨u, .inserted⟩

end Cells

section Decoders

def replacementUnit : UInt16 := 0xfffd

def byteOrderMark : UInt16 := 0xfeff

def pieceCells (p : Piece) : List Cell :=
  if p.char < 0x10000 then [⟨UInt16.ofNat p.char, .whole p.bytes⟩]
  else [⟨UInt16.ofNat (0xd800 + (p.char - 0x10000) / 1024), .first p.bytes⟩,
    ⟨UInt16.ofNat (0xdc00 + (p.char - 0x10000) % 1024), .second p.bytes⟩]

def utf8Cells (bytes : List ℕ) : List Cell := (pieces bytes).flatMap pieceCells

/-- The unit of two bytes, the low one first or last. -/
def unitOf (little : Bool) (a b : ℕ) : UInt16 := UInt16.ofNat (if little then a + 256 * b else 256 * a + b)

def unitBytes16 (little : Bool) (u : UInt16) : List ℕ :=
  if little then [u.toNat % 256, u.toNat / 256] else [u.toNat / 256, u.toNat % 256]

/-- A half that stands alone is no character. -/
def alone (u : UInt16) : UInt16 := if isHigh u || isLow u then replacementUnit else u

def utf16Cells (little : Bool) : List ℕ → List Cell
  | [] => []
  | [a] => [⟨replacementUnit, .whole [a]⟩]
  | [a, b] => [⟨alone (unitOf little a b), .whole [a, b]⟩]
  | [a, b, c] =>
    if isHigh (unitOf little a b) then [⟨replacementUnit, .whole [a, b, c]⟩]
    else [⟨alone (unitOf little a b), .whole [a, b]⟩, ⟨replacementUnit, .whole [c]⟩]
  | a::b::c::d::rest =>
    if isHigh (unitOf little a b) && isLow (unitOf little c d) then
      ⟨unitOf little a b, .whole [a, b]⟩ :: ⟨unitOf little c d, .whole [c, d]⟩ :: utf16Cells little rest
    else ⟨alone (unitOf little a b), .whole [a, b]⟩ :: utf16Cells little (c::d::rest)

/-- The bytes from 0x80 to 0x9f; the others are their own code points. -/
def windowsHigh : List UInt16 :=
  [0x20ac, 0x81, 0x201a, 0x192, 0x201e, 0x2026, 0x2020, 0x2021, 0x2c6, 0x2030, 0x160, 0x2039, 0x152,
    0x8d, 0x17d, 0x8f,
    0x90, 0x2018, 0x2019, 0x201c, 0x201d, 0x2022, 0x2013, 0x2014, 0x2dc, 0x2122, 0x161, 0x203a,
      0x153, 0x9d, 0x17e, 0x178]

def windows1252 (b : ℕ) : UInt16 := if 0x80 ≤ b ∧
    b < 0xa0 then windowsHigh.getD (b - 0x80) 0 else UInt16.ofNat b

def bomOf : TextEncoding → List ℕ
  | .utf8 => [0xef, 0xbb, 0xbf]
  | .utf16le => [0xff, 0xfe]
  | .utf16be => [0xfe, 0xff]
  | .windows1252 => []

def cellsOf : TextEncoding → List ℕ → List Cell
  | .utf8, bytes => utf8Cells bytes
  | .utf16le, bytes => utf16Cells true bytes
  | .utf16be, bytes => utf16Cells false bytes
  | .windows1252, bytes => bytes.map fun b => ⟨windows1252 b, .whole [b]⟩

/-- `TextDecoder.decode`, which takes a byte order mark away. -/
def decodeWith (encoding : TextEncoding) (bytes : List ℕ) : List Cell :=
  cellsOf encoding (if bomOf encoding <+: bytes then bytes.drop (bomOf encoding).length else bytes)

structure DecodedText where
  cells : List Cell
  encoding : TextEncoding

/-- A file without a mark that is no UTF-8 is read byte by byte, which never fails. -/
def decodeBufferToText (buffer : List ℕ) : DecodedText :=
  if bomOf .utf8 <+: buffer then ⟨decodeWith .utf8 (buffer.drop 3), .utf8⟩
  else if bomOf .utf16le <+: buffer then ⟨decodeWith .utf16le (buffer.drop 2), .utf16le⟩
  else if bomOf .utf16be <+: buffer then ⟨decodeWith .utf16be (buffer.drop 2), .utf16be⟩
  else if Valid buffer then ⟨decodeWith .utf8 buffer, .utf8⟩
  else ⟨decodeWith .windows1252 buffer, .windows1252⟩

end Decoders

section LineEndings

inductive LineEnding where
  | lf
  | crlf
  | cr
  | mixed
  | none
  deriving DecidableEq

def countCrlf : Text → ℕ
  | 13::10::rest => countCrlf rest + 1
  | _::rest => countCrlf rest
  | [] => 0

def removeCrlf : Text → Text
  | 13::10::rest => removeCrlf rest
  | u::rest => u :: removeCrlf rest
  | [] => []

def detectLineEnding (text : Text) : LineEnding :=
  let crlf := countCrlf text
  let lf := (removeCrlf text).count 10
  let cr := (removeCrlf text).count 13
  let kinds := (if 0 < crlf then 1 else 0) + (if 0 < lf then 1 else 0) + (if 0 < cr then 1 else 0)
  if kinds = 0 then .none
  else if 1 < kinds then .mixed
  else if 0 < crlf then .crlf
  else if 0 < lf then .lf
  else .cr

/-- Each line ending becomes a line feed. -/
def normalized : Text → Text
  | 13::10::rest => 10 :: normalized rest
  | 13::rest => 10 :: normalized rest
  | u::rest => u :: normalized rest
  | [] => []

def normalizeReplacementLineEndings (value : Text) : LineEnding → Text
  | .mixed => value
  | .none => value
  | .crlf => (normalized value).flatMap fun u => if u = 10 then [13, 10] else [u]
  | .cr => (normalized value).map fun u => if u = 10 then 13 else u
  | .lf => normalized value

end LineEndings

section Replacing
variable {α : Type} (key : α → UInt16)

/-- The places from left to right where the needle begins, none inside another. -/
def countOccurrences (needle : Text) : ℕ → Text → ℕ
  | _, [] => 0
  | skip + 1, _::rest => countOccurrences needle skip rest
  | 0, u::rest =>
    if needle <+: u::rest then countOccurrences needle (needle.length - 1) rest +
      1 else countOccurrences needle 0 rest

def prepend (x : α) : List (List α) → List (List α)
  | [] => [[x]]
  | segment::segments => (x :: segment) :: segments

/-- What stands between the places where the needle is found. -/
def split (needle : Text) : ℕ → List α → List (List α)
  | _, [] => [[]]
  | skip + 1, _::rest => split needle skip rest
  | 0, x::rest =>
    if needle <+: (x::rest).map key then [] :: split needle (needle.length - 1) rest else prepend x
      (split needle 0 rest)

/-- `split(needle).join(other)` -/
def replaceAll (needle : Text) (other : List α) (xs : List α) : List α :=
  other.intercalate (split key needle 0 xs)

end Replacing

section Patching

/-- `iconv-lite`: how it writes and reads texts. -/
structure Iconv where
  encode : TextEncoding → Text → List ℕ
  decode : TextEncoding → List ℕ → Text
  windowsByte : UInt16 → ℕ
  windowsUnit : ℕ → UInt16

def withoutMark (t : Text) : Text := if t.head? = some byteOrderMark then t.tail else t

/-- Its documented behaviour: no mark is written, a mark that is read is taken
away, and windows-1252 goes by a table, with the same characters as the table
of the platform where it has one. -/
structure Iconv.Documented (iconv : Iconv) : Prop where
  utf8 : ∀ t, iconv.encode .utf8 t = Units.encode t
  utf16le : ∀ t, iconv.encode .utf16le t = t.flatMap (unitBytes16 true)
  utf16be : ∀ t, iconv.encode .utf16be t = t.flatMap (unitBytes16 false)
  windows : ∀ t, iconv.encode .windows1252 t = t.map iconv.windowsByte
  fromUtf8 : ∀ bytes, iconv.decode .utf8 bytes = withoutMark (textOf (utf8Cells bytes))
  fromUtf16le : ∀ t, iconv.decode .utf16le (t.flatMap (unitBytes16 true)) = withoutMark t
  fromUtf16be : ∀ t, iconv.decode .utf16be (t.flatMap (unitBytes16 false)) = withoutMark t
  fromWindows : ∀ bytes, iconv.decode .windows1252 bytes = bytes.map iconv.windowsUnit
  table : ∀ b, iconv.windowsUnit b = replacementUnit ∨ b < 256 ∧ iconv.windowsUnit b = windows1252 b

inductive PatchError where
  | fileTooLarge
  | binaryFile
  | changedSinceRead
  | countMismatch (expected found : ℕ)
  | notRepresentable (encoding : TextEncoding)
  | patchedTooLarge
  deriving DecidableEq

structure Replacement where
  oldText : Text
  newText : Text
  expectedCount : Option ℕ
  nonempty : oldText ≠ []

structure PatchFileInput (D : Type) where
  expectedSha256 : D
  replacements : List Replacement
  dryRun : Bool

structure TextFileContents (D : Type) where
  text : Text
  sha256 : D
  encoding : TextEncoding
  lineEnding : LineEnding
  bom : List ℕ

structure PatchFileResult (D : Type) where
  sha256Before : D
  sha256After : D
  encoding : TextEncoding
  lineEnding : LineEnding
  replacementsApplied : ℕ
  sizeBytes : ℕ
  changed : Bool
  /-- What the file holds afterwards. -/
  file : List ℕ

def hasUtf16Bom (buffer : List ℕ) : Bool := decide (bomOf .utf16le <+: buffer) ||
    decide (bomOf .utf16be <+: buffer)

def readTextBuffer (buffer : List ℕ) (maxFileBytes : ℕ) : Except PatchError (List ℕ) :=
  if maxFileBytes < buffer.length then .error .fileTooLarge
  else if 0 ∈ buffer ∧ hasUtf16Bom buffer = false then .error .binaryFile
  else .ok buffer

def readBom (buffer : List ℕ) : List ℕ :=
  if bomOf .utf8 <+: buffer then bomOf .utf8
  else if bomOf .utf16le <+: buffer then bomOf .utf16le
  else if bomOf .utf16be <+: buffer then bomOf .utf16be
  else []

variable {D : Type} [DecidableEq D] (hashBuffer : List ℕ → D) (iconv : Iconv)

def readTextFile (file : List ℕ) (maxFileBytes : ℕ) : Except PatchError (TextFileContents D) :=
  (readTextBuffer file maxFileBytes).map fun buffer =>
    let decoded := decodeBufferToText buffer
    { text := textOf decoded.cells
      sha256 := hashBuffer buffer
      encoding := decoded.encoding
      lineEnding := detectLineEnding (textOf decoded.cells)
      bom := readBom buffer }

/-- The loop over the replacements, with the number of places replaced. -/
def applyReplacements (lineEnding : LineEnding) : List Replacement → Text → ℕ → Except PatchError (Text × ℕ)
  | [], patched, applied => .ok (patched, applied)
  | r::rs, patched, applied =>
    let oldText := normalizeReplacementLineEndings r.oldText lineEnding
    let newText := normalizeReplacementLineEndings r.newText lineEnding
    let actualCount := countOccurrences oldText 0 patched
    let expectedCount := r.expectedCount.getD 1
    if actualCount ≠ expectedCount then .error (.countMismatch expectedCount actualCount)
    else applyReplacements lineEnding rs (replaceAll id oldText newText patched) (applied + actualCount)

def encodeTextPreservingFormat (text : Text) (encoding : TextEncoding)
    (bom : List ℕ) : Except PatchError (List ℕ) :=
  let encoded := iconv.encode encoding text
  if iconv.decode encoding encoded ≠ text then .error (.notRepresentable encoding)
  else .ok (bom ++ encoded)

/-- `patchFile` on the content of an existing file. -/
def patchFile (maxFileBytes : ℕ) (file : List ℕ) (input : PatchFileInput D) :
    Except PatchError (PatchFileResult D) := do
  let contents ← readTextFile hashBuffer file maxFileBytes
  if contents.sha256 ≠ input.expectedSha256 then throw .changedSinceRead
  let (patched, replacementsApplied) ← applyReplacements contents.lineEnding input.replacements
    contents.text 0
  let output ← encodeTextPreservingFormat iconv patched contents.encoding contents.bom
  if maxFileBytes < output.length then throw .patchedTooLarge
  let sha256After := hashBuffer output
  let changed := sha256After ≠ contents.sha256
  return { sha256Before := contents.sha256
           sha256After
           encoding := contents.encoding
           lineEnding := detectLineEnding patched
           replacementsApplied
           sizeBytes := output.length
           changed
           file := if !input.dryRun && changed then output else file }

end Patching

end AccessStack.TextPatch
