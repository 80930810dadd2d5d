import AccessStack.Files.TextDecoding

/-!
# The files whose untouched bytes every patch keeps

A file that is well formed behind its mark, and has no second mark there, gives
an encoding that is faithful to its characters. Any other file loses bytes by a
patch: by one that replaces nothing, or by one that replaces the whole text.
-/

set_option autoImplicit false

namespace AccessStack.TextPatch
open AccessStack.Units AccessStack.Utf8 AccessStack.Utf16

section Files

def encodingOf (file : List ℕ) : TextEncoding := (decodeBufferToText file).encoding

def cellsOfFile (file : List ℕ) : List Cell := (decodeBufferToText file).cells

/-- What follows the mark of a file. -/
def content (file : List ℕ) : List ℕ := file.drop (readBom file).length

/-- The marks of a file: its own, and one that the decoder takes away. -/
def marks (file : List ℕ) : List ℕ :=
  readBom file ++ if bomOf (encodingOf file) <+: content file then bomOf (encodingOf file) else []

def WellFormedText : TextEncoding → List ℕ → Prop
  | .utf8, bytes => Valid bytes
  | .utf16le, bytes => IsUtf16 true bytes
  | .utf16be, bytes => IsUtf16 false bytes
  | .windows1252, _ => True

/-- Behind its mark the file is well formed and has no second one. -/
def Intact (file : List ℕ) : Prop :=
  WellFormedText (encodingOf file) (content file) ∧
    (encodingOf file = .windows1252 ∨ ¬ bomOf (encodingOf file) <+: content file)

theorem decode_marked {file : List ℕ} : cellsOfFile file = decodeWith (encodingOf file) (content file) := by
  unfold cellsOfFile encodingOf content decodeBufferToText readBom
  split_ifs <;> rfl

/-- A file without a mark is of the mark of no encoding it is read by, and valid where it is read as UTF-8. -/
theorem file_forms (file : List ℕ) :
    bomOf (encodingOf file) <+: file ∧ readBom file = bomOf (encodingOf file) ∧
    encodingOf file ≠ .windows1252 ∨
      readBom file = [] ∧ encodingOf file = .utf8 ∧ Valid file ∧ ¬ bomOf .utf8 <+: file ∨
      readBom file = [] ∧ encodingOf file = .windows1252 := by
  unfold encodingOf decodeBufferToText readBom
  split_ifs with h1 h2 h3 h4
  · exact .inl ⟨h1, rfl, by simp⟩
  · exact .inl ⟨h2, rfl, by simp⟩
  · exact .inl ⟨h3, rfl, by simp⟩
  · exact .inr (.inl ⟨rfl, rfl, h4, h1⟩)
  · exact .inr (.inr ⟨rfl, rfl⟩)

theorem bom_content (file : List ℕ) : readBom file ++ content file = file := by
  have hprefix : readBom file <+: file := by
    unfold readBom
    split_ifs with h1 h2 h3
    · exact h1
    · exact h2
    · exact h3
    · exact List.nil_prefix
  have hwhole := List.take_append_drop (readBom file).length file
  rw [← List.prefix_iff_eq_take.mp hprefix] at hwhole
  exact hwhole

/-- The bytes of the characters of a file are what follows its marks. -/
theorem kept_file {enc : Text → List ℕ} (henc : enc [] = []) (file : List ℕ) :
    marks file ++ kept enc [] (cellsOfFile file) = file := by
  have hcells : ∀ encoding bytes, kept enc [] (cellsOf encoding bytes) = bytes := by
    intro encoding bytes
    cases encoding with
    | utf8 => exact kept_utf8 henc bytes
    | utf16le => exact kept_utf16 true henc bytes
    | utf16be => exact kept_utf16 false henc bytes
    | windows1252 => exact kept_windows henc bytes
  rw [decode_marked, decodeWith, hcells, marks, List.append_assoc]
  split_ifs with hmark
  · obtain ⟨rest, hrest⟩ := hmark
    rw [← hrest, List.drop_left, hrest, bom_content]
  · exact bom_content file

theorem cells_unmarked {file : List ℕ}
    (h : encodingOf file = .windows1252 ∨ ¬ bomOf (encodingOf file) <+: content file) :
    cellsOfFile file = cellsOf (encodingOf file) (content file) := by
  rw [decode_marked, decodeWith]
  rcases h with h | h
  · rw [h]
    split_ifs <;> rfl
  · rw [if_neg h]

theorem marks_unmarked {file : List ℕ}
    (h : encodingOf file = .windows1252 ∨ ¬ bomOf (encodingOf file) <+: content file) :
    marks file = readBom file := by
  unfold marks
  rcases h with h | h
  · rw [h]
    split_ifs <;> exact List.append_nil _
  · rw [if_neg h, List.append_nil]

end Files

section Encodings

theorem withoutMark_eq {t : Text} (h : t.head? ≠ some byteOrderMark) : withoutMark t = t := if_neg h

theorem paired_cells {encoding : TextEncoding} (hencoding : encoding ≠ .windows1252) (bytes : List ℕ) :
    Paired (textOf (cellsOf encoding bytes)) := by
  cases encoding with
  | utf8 => exact paired_utf8 bytes
  | utf16le => exact paired_utf16 true bytes
  | utf16be => exact paired_utf16 false bytes
  | windows1252 => exact absurd rfl hencoding

variable {iconv : Iconv} (doc : iconv.Documented)
include doc

theorem encode_nil (encoding : TextEncoding) : iconv.encode encoding [] = [] := by
  cases encoding with
  | utf8 => rw [doc.utf8]; rfl
  | utf16le => rw [doc.utf16le]; rfl
  | utf16be => rw [doc.utf16be]; rfl
  | windows1252 => rw [doc.windows]; rfl

/-- A text without lone halves and without a mark is read back. -/
theorem read_back {encoding : TextEncoding} (hencoding : encoding ≠ .windows1252) {t : Text}
    (hpaired : Paired t) (hmark : t.head? ≠ some byteOrderMark) :
    iconv.decode encoding (iconv.encode encoding t) = t := by
  cases encoding with
  | utf8 => rw [doc.utf8, doc.fromUtf8, utf8_encode hpaired, withoutMark_eq hmark]
  | utf16le => rw [doc.utf16le, doc.fromUtf16le, withoutMark_eq hmark]
  | utf16be => rw [doc.utf16be, doc.fromUtf16be, withoutMark_eq hmark]
  | windows1252 => exact absurd rfl hencoding

theorem faithful_encoding {encoding : TextEncoding} (hencoding : encoding ≠ .windows1252) {bytes : List ℕ}
    (h : WellFormedText encoding bytes) : Faithful (iconv.encode encoding) (cellsOf encoding bytes) := by
  cases encoding with
  | utf8 =>
    rw [show iconv.encode .utf8 = Units.encode from funext doc.utf8]
    exact faithful_utf8 h
  | utf16le =>
    rw [show iconv.encode .utf16le = bytes16 true from funext doc.utf16le]
    exact faithful_utf16 true h
  | utf16be =>
    rw [show iconv.encode .utf16be = bytes16 false from funext doc.utf16be]
    exact faithful_utf16 false h
  | windows1252 => exact absurd rfl hencoding

/-- Encoding gives back the bytes of what is well formed and no other. -/
theorem reencode_iff {encoding : TextEncoding} (hencoding : encoding ≠ .windows1252) (bytes : List ℕ) :
    iconv.encode encoding (textOf (cellsOf encoding bytes)) = bytes ↔ WellFormedText encoding bytes := by
  cases encoding with
  | utf8 =>
    rw [doc.utf8]
    show Units.encode (textOf (utf8Cells bytes)) = bytes ↔ Valid bytes
    rw [encode_utf8, encode_decode_iff]
  | utf16le =>
    rw [doc.utf16le]
    exact reencode_utf16 true bytes
  | utf16be =>
    rw [doc.utf16be]
    exact reencode_utf16 false bytes
  | windows1252 => exact absurd rfl hencoding

/-- An accepted text of windows-1252 has only characters that the library knows. -/
theorem faithful_windows {cells : List Cell}
    (hcells : ∀ u b, ⟨u, .whole b⟩ ∈ cells → ∃ c < 256, u = windows1252 c ∧ b = [c])
    (hfirst : ∀ u b, ⟨u, .first b⟩ ∉ cells)
    (h : iconv.decode .windows1252 (iconv.encode .windows1252 (textOf cells)) = textOf cells) :
    Faithful (iconv.encode .windows1252) cells where
  whole u b hu p t := by
    obtain ⟨c, hc, rfl, rfl⟩ := hcells u b hu
    rw [doc.windows, doc.fromWindows, List.map_map] at h
    have hknown : iconv.windowsUnit (iconv.windowsByte (windows1252 c)) = windows1252 c :=
      List.map_eq_map_iff.mp (h.trans (List.map_id _).symm) (windows1252 c) (List.mem_map_of_mem hu)
    have hbyte : iconv.windowsByte (windows1252 c) = c := by
      rcases doc.table (iconv.windowsByte (windows1252 c)) with hnone | ⟨hsmall, hunit⟩
      · exact absurd (hknown.symm.trans hnone) (windows1252_known c hc)
      · exact windows1252_inj hsmall hc (hunit.symm.trans hknown)
    rw [doc.windows, doc.windows, doc.windows, List.map_append, List.map_cons, hbyte, List.append_assoc]
    rfl
  pair u v b hu := absurd hu (hfirst u b)

end Encodings

section Patches
variable {D : Type} [DecidableEq D] {hashBuffer : List ℕ → D} {iconv : Iconv}

/-- The bytes that a patch writes. -/
def outputOf (iconv : Iconv) (file : List ℕ) (patched : Text) : List ℕ :=
  readBom file ++ iconv.encode (encodingOf file) patched

def lineEndingOf (file : List ℕ) : LineEnding := detectLineEnding (textOf (cellsOfFile file))

/-- The file can be read as text. -/
def Readable (file : List ℕ) : Prop := ¬ (0 ∈ file ∧ hasUtf16Bom file = false)

/-- A patch succeeds when the file is read, all counts are right and the text is read back. -/
structure Accepted (iconv : Iconv) (maxFileBytes : ℕ) (file : List ℕ) (rs : List Replacement)
    (patched : Text) : Prop where
  size : file.length ≤ maxFileBytes
  readable : Readable file
  replaced : ∃ n, applyReplacements (lineEndingOf file) rs (textOf (cellsOfFile file)) 0 = .ok (patched, n)
  readBack : iconv.decode (encodingOf file) (iconv.encode (encodingOf file) patched) = patched
  outputSize : (outputOf iconv file patched).length ≤ maxFileBytes

theorem patchFile_ok {maxFileBytes : ℕ} {file : List ℕ} {input : PatchFileInput D}
    {result : PatchFileResult D} (h : patchFile hashBuffer iconv maxFileBytes file input = .ok result) :
    ∃ patched, Accepted iconv maxFileBytes file input.replacements patched ∧
      result.file = if !input.dryRun &&
        decide (hashBuffer (outputOf iconv file patched) ≠ hashBuffer file) then
        outputOf iconv file patched else file := by
  simp only [patchFile, readTextFile, readTextBuffer] at h
  split_ifs at h with hsize hbinary
  · cases h
  · cases h
  · simp only [Except.map, bind, Except.bind] at h
    by_cases hsha : hashBuffer file = input.expectedSha256
    · rw [if_neg (not_not.mpr hsha)] at h
      cases happly : applyReplacements (detectLineEnding (textOf (decodeBufferToText file).cells))
        input.replacements
        (textOf (decodeBufferToText file).cells) 0 with
      | error error => rw [happly] at h; cases h
      | ok value =>
        obtain ⟨patched, n⟩ := value
        rw [happly] at h
        simp only [encodeTextPreservingFormat] at h
        by_cases hread : iconv.decode (encodingOf file) (iconv.encode (encodingOf file) patched) = patched
        · have hsame := not_not.mpr hread
          unfold encodingOf at hsame
          rw [if_neg hsame] at h
          by_cases houtput : maxFileBytes < (outputOf iconv file patched).length
          · unfold outputOf encodingOf at houtput
            simp only [if_pos houtput] at h
            cases h
          · have hlarge := houtput
            unfold outputOf encodingOf at hlarge
            simp only [if_neg hlarge] at h
            cases h
            exact ⟨patched, ⟨by omega, hbinary, ⟨n, happly⟩, hread, Nat.not_lt.mp houtput⟩, rfl⟩
        · unfold encodingOf at hread
          rw [if_pos hread] at h
          cases h
    · rw [if_pos hsha] at h
      cases h

theorem patchFile_accepts {maxFileBytes : ℕ} {file : List ℕ} {rs : List Replacement} {patched : Text}
    (h : Accepted iconv maxFileBytes file rs patched) :
    ∃ result, patchFile hashBuffer iconv maxFileBytes file ⟨hashBuffer file, rs, false⟩ = .ok result ∧
      result.file = if hashBuffer (outputOf iconv file patched) ≠
        hashBuffer file then outputOf iconv file patched else file := by
  obtain ⟨n, happly⟩ := h.replaced
  have hsize : ¬ maxFileBytes < file.length := Nat.not_lt.mpr h.size
  have hbinary : ¬ (0 ∈ file ∧ hasUtf16Bom file = false) := h.readable
  have hread : ¬ iconv.decode (encodingOf file) (iconv.encode (encodingOf file) patched) ≠
    patched := not_not.mpr h.readBack
  have houtput : ¬ maxFileBytes < (outputOf iconv file patched).length := Nat.not_lt.mpr h.outputSize
  unfold lineEndingOf cellsOfFile at happly
  unfold outputOf at houtput
  unfold encodingOf at hread houtput
  simp only [patchFile, readTextFile, readTextBuffer, if_neg hsize, if_neg hbinary, Except.map,
    bind, Except.bind, happly,
    encodeTextPreservingFormat, if_neg hread, if_neg houtput, ne_eq, not_true_eq_false, if_false,
      pure, Except.pure]
  refine ⟨_, rfl, ?_⟩
  simp only [outputOf, encodingOf]
  split_ifs <;> simp_all

/-- Every patch leaves the marks and the untouched characters of the file as they are. -/
def Preserves (hashBuffer : List ℕ → D) (iconv : Iconv) (file : List ℕ) : Prop :=
  ∀ maxFileBytes input result, patchFile hashBuffer iconv maxFileBytes file input = .ok result →
    input.dryRun = false →
    result.file = marks file ++
      kept (iconv.encode (encodingOf file)) []
        (patchedCells (lineEndingOf file) input.replacements (cellsOfFile file))

/-- What an accepted patch should have written it has written. -/
theorem preserves_output (hhash : Function.Injective hashBuffer) {file : List ℕ}
    (h : Preserves hashBuffer iconv file) {maxFileBytes : ℕ} {rs : List Replacement}
    {patched : Text} (haccepted : Accepted iconv maxFileBytes file rs patched) :
    outputOf iconv file patched = marks file ++
      kept (iconv.encode (encodingOf file)) [] (patchedCells (lineEndingOf file) rs (cellsOfFile file)) := by
  obtain ⟨result, hpatch, hfile⟩ : ∃ result, patchFile hashBuffer iconv _ file _ = .ok result ∧ _ :=
    patchFile_accepts haccepted
  rw [← h maxFileBytes _ result hpatch rfl, hfile]
  by_cases hchanged : hashBuffer (outputOf iconv file patched) = hashBuffer file
  · rw [if_neg (not_not.mpr hchanged)]
    exact hhash hchanged
  · rw [if_pos hchanged]

theorem mark_cells {encoding : TextEncoding} (hencoding : encoding ≠ .windows1252) {bytes : List ℕ}
    (hbytes : ∀ b ∈ bytes, b < 256)
    (h : (textOf (cellsOf encoding bytes)).head? = some byteOrderMark) : bomOf encoding <+: bytes := by
  cases encoding with
  | utf8 => exact mark_utf8 h
  | utf16le => exact mark_utf16 true hbytes h
  | utf16be => exact mark_utf16 false hbytes h
  | windows1252 => exact absurd rfl hencoding

theorem bom_nonempty {encoding : TextEncoding} (h : encoding ≠ .windows1252) :
    0 < (bomOf encoding).length := by
  cases encoding <;> first | exact absurd rfl h | decide

variable (doc : iconv.Documented)
include doc

/-- The library has given each untouched character of an accepted patch its bytes. -/
theorem faithful_accepted {file : List ℕ} (hbytes : ∀ b ∈ file, b < 256) (hintact : Intact file)
    {maxFileBytes : ℕ} {rs : List Replacement} {patched : Text}
    (h : Accepted iconv maxFileBytes file rs patched) :
    Faithful (iconv.encode (encodingOf file)) (patchedCells (lineEndingOf file) rs (cellsOfFile file)) := by
  obtain ⟨n, happly⟩ := h.replaced
  have hpatched := applyReplacements_cells happly
  have hcells := cells_unmarked hintact.2
  by_cases hencoding : encodingOf file = .windows1252
  · have hread := h.readBack
    rw [hpatched, hencoding] at hread
    rw [hencoding]
    rw [hencoding] at hcells
    have hmem : ∀ c ∈ cellsOfFile file, ∃ b ∈ file, c = ⟨windows1252 b, .whole [b]⟩ := by
      intro c hc
      rw [hcells] at hc
      obtain ⟨b, hb, rfl⟩ := List.mem_map.mp hc
      exact ⟨b, List.mem_of_mem_drop hb, rfl⟩
    refine faithful_windows doc ?_ ?_ hread
    · intro u b hu
      rcases mem_patchedCells hu with hold | hnew
      · obtain ⟨c, hc, hcell⟩ := hmem _ hold
        obtain ⟨hunit, horigin⟩ := Cell.mk.inj hcell
        exact ⟨c, hbytes c hc, hunit, Origin.whole.inj horigin⟩
      · cases hnew
    · intro u b hu
      rcases mem_patchedCells hu with hold | hnew
      · obtain ⟨c, -, hcell⟩ := hmem _ hold
        cases (Cell.mk.inj hcell).2
      · cases hnew
  · rw [hcells]
    exact (faithful_encoding doc hencoding hintact.1).patched _ _

/-- Of an intact file every patch keeps what it does not replace. -/
theorem intact_preserves (hhash : Function.Injective hashBuffer) {file : List ℕ}
    (hbytes : ∀ b ∈ file, b < 256) (hintact : Intact file) : Preserves hashBuffer iconv file := by
  intro maxFileBytes input result hpatch hwritten
  obtain ⟨patched, haccepted, hfile⟩ := patchFile_ok hpatch
  have hfaithful := faithful_accepted doc hbytes hintact haccepted
  obtain ⟨n, happly⟩ := haccepted.replaced
  have houtput : outputOf iconv file patched = marks file ++
      kept (iconv.encode (encodingOf file)) []
          (patchedCells (lineEndingOf file) input.replacements (cellsOfFile file)) := by
    rw [kept_faithful _ _ hfaithful, marks_unmarked hintact.2, outputOf, applyReplacements_cells happly]
    rfl
  rw [← houtput, hfile, hwritten]
  by_cases hchanged : hashBuffer (outputOf iconv file patched) = hashBuffer file
  · rw [if_neg (by simp [hchanged])]
    exact (hhash hchanged).symm
  · rw [if_pos (by simp [hchanged])]

/-- A second mark is lost by every patch: also by one of the whole text, or of nothing
where there is no text. -/
theorem second_mark (hhash : Function.Injective hashBuffer) {file : List ℕ} (hreadable : Readable file)
    (hencoding : encodingOf file ≠ .windows1252) (hmark : bomOf (encodingOf file) <+: content file) :
    ¬ Preserves hashBuffer iconv file := by
  intro h
  have hlost : ∀ (rs : List Replacement) (patched : Text), (∃ n, applyReplacements (lineEndingOf file) rs
      (textOf (cellsOfFile file)) 0 = .ok (patched, n)) → Paired patched →
        patched.head? ≠ some byteOrderMark →
      patchedCells (lineEndingOf file) rs (cellsOfFile file) ≠ insertedCells patched := by
    intro rs patched hreplaced hpaired hhead hcells
    have haccepted : Accepted iconv _ file rs patched :=
      ⟨Nat.le_add_right file.length (outputOf iconv file patched).length, hreadable, hreplaced,
        read_back doc hencoding hpaired hhead, Nat.le_add_left _ _⟩
    have houtput := preserves_output hhash h haccepted
    have hfaithful : Faithful (iconv.encode (encodingOf file)) (insertedCells patched) := by
      constructor
      · intro u b hu
        obtain ⟨v, -, hv⟩ := List.mem_map.mp hu
        cases (Cell.mk.inj hv).2
      · intro u v b hu
        obtain ⟨w, -, hw⟩ := List.mem_map.mp hu
        cases (Cell.mk.inj hw).2
    rw [hcells, kept_faithful _ _ hfaithful, textOf_inserted, outputOf, marks, if_pos hmark,
      List.append_assoc] at houtput
    have hlength := congrArg List.length (List.append_cancel_left houtput)
    have hpositive := bom_nonempty hencoding
    simp only [List.length_append, List.nil_append] at hlength
    omega
  by_cases htext : textOf (cellsOfFile file) = []
  · refine hlost [] [] ⟨0, by rw [htext]; rfl⟩ .nil (by simp) ?_
    exact List.map_eq_nil_iff.mp htext
  · have hold := normalize_detected (textOf (cellsOfFile file))
    have hnew := normalize_letter (lineEndingOf file)
    refine hlost [⟨textOf (cellsOfFile file), [120], none, htext⟩] [120] ⟨1, ?_⟩
      (.single rfl rfl .nil) (by decide) ?_
    · have hcount := count_whole htext
      have hwhole := replaceAll_whole id htext [120] (textOf (cellsOfFile file)) (List.map_id _)
      simp only [applyReplacements, lineEndingOf, hold, hcount, Option.getD_none, ne_eq,
        not_true_eq_false, if_false] at hnew ⊢
      rw [hnew, hwhole]
    · have hwhole := replaceAll_whole Cell.unit htext (insertedCells [120]) (cellsOfFile file) rfl
      show replaceAll Cell.unit
        (normalizeReplacementLineEndings (textOf (cellsOfFile file)) (lineEndingOf file))
        (insertedCells (normalizeReplacementLineEndings [120] (lineEndingOf file))) (cellsOfFile file) = _
      rw [hnew, lineEndingOf, hold, hwhole]

/-- A file whose untouched bytes every patch keeps is intact. -/
theorem preserves_intact (hhash : Function.Injective hashBuffer) {file : List ℕ}
    (hbytes : ∀ b ∈ file, b < 256) (hreadable : Readable file)
    (h : Preserves hashBuffer iconv file) : Intact file := by
  rcases file_forms file with ⟨-, -, hencoding⟩ | ⟨hbom, hencoding, hvalid, hunmarked⟩ | ⟨-, hencoding⟩
  · by_cases hmark : bomOf (encodingOf file) <+: content file
    · exact absurd h (second_mark doc hhash hreadable hencoding hmark)
    · have hcells := cells_unmarked (.inr hmark)
      have hcontent : ∀ b ∈ content file, b < 256 := fun b hb => hbytes b (List.mem_of_mem_drop hb)
      have hread := read_back doc hencoding (paired_cells hencoding (content file)) fun hhead =>
        hmark (mark_cells hencoding hcontent hhead)
      rw [← hcells] at hread
      have haccepted : Accepted iconv _ file [] (textOf (cellsOfFile file)) :=
        ⟨Nat.le_add_right file.length (outputOf iconv file (textOf (cellsOfFile file))).length,
          hreadable, ⟨0, rfl⟩, hread, Nat.le_add_left _ _⟩
      have houtput := preserves_output hhash h haccepted
      have hkept : marks file ++ kept (iconv.encode (encodingOf file)) [] (cellsOfFile file) =
          readBom file ++ content file := by
        rw [kept_file (encode_nil doc _), bom_content]
      have hsame := List.append_cancel_left (houtput.trans hkept)
      rw [hcells] at hsame
      exact ⟨(reencode_iff doc hencoding _).mp hsame, .inr hmark⟩
  · have hcontent : content file = file := by rw [content, hbom]; rfl
    rw [Intact, hencoding, hcontent]
    exact ⟨hvalid, .inr hunmarked⟩
  · rw [Intact, hencoding]
    exact ⟨trivial, .inl rfl⟩

/-- Every patch of a file keeps the bytes it does not replace exactly when the file is intact. -/
theorem patchFile_preserves_iff (hhash : Function.Injective hashBuffer) {file : List ℕ}
    (hbytes : ∀ b ∈ file, b < 256) (hreadable : Readable file) :
    Preserves hashBuffer iconv file ↔ Intact file :=
  ⟨preserves_intact doc hhash hbytes hreadable, intact_preserves doc hhash hbytes⟩

end Patches

section Library

def units16 (little : Bool) : List ℕ → Text
  | a::b::rest => unitOf little a b :: units16 little rest
  | _ => []

/-- The bytes that have no character in the library's table. -/
def windowsUnit (b : ℕ) : UInt16 := if b < 256 ∧
    b ∉ [0x81, 0x8d, 0x8f, 0x90, 0x9d] then windows1252 b else replacementUnit

/-- A question mark is written for a character that is not in the table. -/
def windowsByte (u : UInt16) : ℕ := ((List.range 256).find? fun b => windowsUnit b = u).getD 63

def plainIconv : Iconv where
  encode
    | .utf8, t => Units.encode t
    | .utf16le, t => t.flatMap (unitBytes16 true)
    | .utf16be, t => t.flatMap (unitBytes16 false)
    | .windows1252, t => t.map windowsByte
  decode
    | .utf8, bytes => withoutMark (textOf (utf8Cells bytes))
    | .utf16le, bytes => withoutMark (units16 true bytes)
    | .utf16be, bytes => withoutMark (units16 false bytes)
    | .windows1252, bytes => bytes.map windowsUnit
  windowsByte := windowsByte
  windowsUnit := windowsUnit

theorem units16_bytes (little : Bool) (t : Text) : units16 little (t.flatMap (unitBytes16 little)) = t := by
  induction t with
  | nil => rfl
  | cons u t ih =>
    obtain ⟨a, b, hbytes, hunit⟩ := unitBytes_eq little u
    rw [List.flatMap_cons, hbytes, List.cons_append, List.cons_append, List.nil_append, units16, ih, hunit]

theorem plainIconv_documented : plainIconv.Documented where
  utf8 _ := rfl
  utf16le _ := rfl
  utf16be _ := rfl
  windows _ := rfl
  fromUtf8 _ := rfl
  fromUtf16le t := congrArg withoutMark (units16_bytes true t)
  fromUtf16be t := congrArg withoutMark (units16_bytes false t)
  fromWindows _ := rfl
  table b := by
    show windowsUnit b = replacementUnit ∨ b < 256 ∧ windowsUnit b = windows1252 b
    unfold windowsUnit
    split_ifs with h
    · exact .inr ⟨h.1, rfl⟩
    · exact .inl rfl

theorem patchFile_preserves_sample : Preserves id plainIconv [0xef, 0xbb, 0xbf, 0x61] := by
  refine (patchFile_preserves_iff plainIconv_documented Function.injective_id (by decide) ?_).mpr ?_
  · unfold Readable
    decide
  · refine ⟨?_, .inr ?_⟩
    · show Valid [0x61]
      decide
    · decide

/-- A byte behind the mark that is no UTF-8 is written as the replacement character, although only
the letter before it is replaced. -/
theorem broken_byte_rewritten :
    (patchFile id plainIconv 1000 [0xef, 0xbb, 0xbf, 0x61, 0xff]
        ⟨[0xef, 0xbb, 0xbf, 0x61, 0xff], [⟨[97], [98], none, by decide⟩], false⟩).map PatchFileResult.file =
        .ok [0xef, 0xbb, 0xbf, 0x62, 0xef, 0xbf, 0xbd] ∧
      ¬ Preserves id plainIconv [0xef, 0xbb, 0xbf, 0x61, 0xff] := by
  have hpatch : (patchFile id plainIconv 1000 [0xef, 0xbb, 0xbf, 0x61, 0xff]
      ⟨[0xef, 0xbb, 0xbf, 0x61, 0xff], [⟨[97], [98], none, by decide⟩], false⟩).map PatchFileResult.file =
      .ok [0xef, 0xbb, 0xbf, 0x62, 0xef, 0xbf, 0xbd] := by decide +kernel
  refine ⟨hpatch, fun h => ?_⟩
  cases hresult : patchFile id plainIconv 1000 [0xef, 0xbb, 0xbf, 0x61, 0xff]
      ⟨[0xef, 0xbb, 0xbf, 0x61, 0xff], [⟨[97], [98], none, by decide⟩], false⟩ with
  | error error =>
    rw [hresult] at hpatch
    cases hpatch
  | ok result =>
    have hfile : result.file = [0xef, 0xbb, 0xbf, 0x62, 0xef, 0xbf, 0xbd] := by
      rw [hresult] at hpatch
      exact Except.ok.inj hpatch
    have hkept := (h 1000 _ result hresult rfl).symm.trans hfile
    revert hkept
    decide +kernel

end Library

end AccessStack.TextPatch
