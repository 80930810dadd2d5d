import AccessStack.Utf8

/-!
# Paging through the output of a task

`readLogChunk` of the background tasks, and the calls that a reader makes one
after the other until the end. A file is the list of its bytes. Where it holds
a text, every page ends with a complete character and the pages are the text.
-/

set_option autoImplicit false

namespace AccessStack.Tasks.LogPages
open AccessStack.Units AccessStack.Utf8

section Chunks

structure AppError where
  code : String
  message : String
  deriving DecidableEq

structure LogChunk where
  content : List ℕ
  offset : ℕ
  nextOffset : ℕ
  totalBytes : ℕ
  eof : Bool
  deriving DecidableEq

def isUtf8ContinuationByte (value : ℕ) : Bool := value &&& 0b11000000 == 0b10000000

/-- The last of the first bytes that is no continuation. -/
def leadBefore (buffer : List ℕ) : ℕ → Option ℕ
  | 0 => none
  | n+1 => if isUtf8ContinuationByte (buffer.getD n 0) then leadBefore buffer n else some n

def expectedLength (first : ℕ) : ℕ :=
  if first &&& 0b10000000 = 0 then 1
  else if first &&& 0b11100000 = 0b11000000 then 2
  else if first &&& 0b11110000 = 0b11100000 then 3
  else if first &&& 0b11111000 = 0b11110000 then 4
  else 1

def completeUtf8PrefixLength (buffer : List ℕ) : ℕ :=
  if buffer.length = 0 then 0
  else
    match leadBefore buffer buffer.length with
    | none => 0
    | some lead =>
      if buffer.length - lead < expectedLength (buffer.getD lead 0) then lead else buffer.length

/-- Nothing is read of a file that does not exist. -/
def readLogChunk (file : Option (List ℕ)) (offset maxBytes : ℕ) : Except AppError LogChunk :=
  match file with
  | none => .ok ⟨[], offset, offset, 0, true⟩
  | some bytes =>
    let totalBytes := bytes.length
    if offset > totalBytes then
      .error ⟨"INVALID_ARGUMENT", "Background task output offset is beyond the current end of stream."⟩
    else if offset = totalBytes then .ok ⟨[], offset, offset, totalBytes, true⟩
    else
      let readLength := min maxBytes (totalBytes - offset)
      let selected := (bytes.drop offset).take readLength
      if selected.length > 0 ∧ isUtf8ContinuationByte (selected.getD 0 0) then
        .error ⟨"INVALID_ARGUMENT", "Background task output offset is not on a UTF-8 character boundary."⟩
      else
        let safeLength := completeUtf8PrefixLength selected
        let nextOffset := offset + safeLength
        .ok ⟨decode (selected.take safeLength), offset, nextOffset, totalBytes,
          decide (nextOffset ≥ totalBytes)⟩

/-- The calls of a reader that follows the offsets until the end; nothing where the fuel does not suffice. -/
def follow (file : Option (List ℕ)) (maxBytes : ℕ) : ℕ → ℕ → Option (Except AppError (List (List ℕ)))
  | 0, _ => none
  | fuel+1, offset =>
    match readLogChunk file offset maxBytes with
    | .error e => some (.error e)
    | .ok chunk =>
      if chunk.eof then some (.ok [chunk.content])
      else (follow file maxBytes fuel chunk.nextOffset).map fun rest => rest.map fun contents =>
        chunk.content :: contents

/-- The offsets that a reader comes to. -/
inductive Reached (file : Option (List ℕ)) (maxBytes : ℕ) : ℕ → Prop where
  | zero : Reached file maxBytes 0
  | next {offset : ℕ} {chunk : LogChunk} : Reached file maxBytes offset →
      readLogChunk file offset maxBytes = .ok chunk → chunk.eof = false →
        Reached file maxBytes chunk.nextOffset

end Chunks

section Boundaries

/-- What the first bytes and the continuations are, over all bytes. -/
theorem bytes_told :
    (∀ b < 256, isUtf8ContinuationByte b = decide (0x80 ≤ b ∧ b ≤ 0xbf)) ∧
    (∀ b < 0x80, expectedLength b = 1) ∧
    (∀ b < 0xe0, 0xc2 ≤ b → expectedLength b = 2) ∧
    (∀ b < 0xf0, 0xe0 ≤ b → expectedLength b = 3) ∧
    (∀ b < 0xf5, 0xf0 ≤ b → expectedLength b = 4) := by
  decide +kernel

theorem continuation_iff : ∀ b < 256, isUtf8ContinuationByte b = decide (0x80 ≤ b ∧ b ≤ 0xbf) := bytes_told.1

theorem expected_one : ∀ b < 0x80, expectedLength b = 1 := bytes_told.2.1

theorem expected_two : ∀ b < 0xe0, 0xc2 ≤ b → expectedLength b = 2 := bytes_told.2.2.1

theorem expected_three : ∀ b < 0xf0, 0xe0 ≤ b → expectedLength b = 3 := bytes_told.2.2.2.1

theorem expected_four : ∀ b < 0xf5, 0xf0 ≤ b → expectedLength b = 4 := bytes_told.2.2.2.2

/-- The bytes of a character: its first tells how many there are, and the others are continuations. -/
structure Character (lead : ℕ) (tail : List ℕ) : Prop where
  leads : isUtf8ContinuationByte lead = false
  follows : ∀ b ∈ tail, isUtf8ContinuationByte b = true
  length : expectedLength lead = tail.length + 1
  short : tail.length ≤ 3

theorem continuation_tail {n : ℕ} (h : n < 64) : isUtf8ContinuationByte (0x80 + n) = true := by
  rw [continuation_iff _ (by omega)]
  exact decide_eq_true (by omega)

theorem not_continuation {b : ℕ} (hlt : b < 256) (h : b < 0x80 ∨ 0xc0 ≤ b) :
    isUtf8ContinuationByte b = false := by
  rw [continuation_iff _ hlt]
  exact decide_eq_false (by omega)

theorem scalar_character {c : ℕ} (h : IsScalar c) : ∃ lead tail, scalarBytes c = lead :: tail ∧
    Character lead tail := by
  unfold IsScalar at h
  have htail : ∀ n, isUtf8ContinuationByte (0x80 + n % 64) = true :=
    fun n => continuation_tail (Nat.mod_lt _ (by decide))
  by_cases h1 : c < 0x80
  · exact ⟨c, [], if_pos h1, not_continuation (by omega) (.inl h1), by simp, expected_one c h1, by simp⟩
  · by_cases h2 : c < 0x800
    · refine ⟨0xc0 + c / 64, [0x80 + c % 64], by rw [scalarBytes, if_neg h1, if_pos h2], ?_, ?_, ?_, by simp⟩
      · exact not_continuation (by omega) (by omega)
      · exact List.forall_mem_singleton.mpr (htail c)
      · exact expected_two _ (by omega) (by omega)
    · by_cases h3 : c < 0x10000
      · refine ⟨0xe0 + c / 4096, [0x80 + c / 64 % 64, 0x80 + c % 64],
          by rw [scalarBytes, if_neg h1, if_neg h2, if_pos h3], ?_, ?_, ?_, by simp⟩
        · exact not_continuation (by omega) (by omega)
        · simp [htail]
        · exact expected_three _ (by omega) (by omega)
      · refine ⟨0xf0 + c / 262144, [0x80 + c / 4096 % 64, 0x80 + c / 64 % 64, 0x80 + c % 64],
          by rw [scalarBytes, if_neg h1, if_neg h2, if_neg h3], ?_, ?_, ?_, by simp⟩
        · exact not_continuation (by omega) (by omega)
        · simp [htail]
        · exact expected_four _ (by omega) (by omega)

theorem leadBefore_tail {before : List ℕ} {lead : ℕ} (hlead : isUtf8ContinuationByte lead = false)
    (tail : List ℕ) (htail : ∀ b ∈ tail, isUtf8ContinuationByte b = true) :
    leadBefore (before ++ lead :: tail) (before.length + 1 + tail.length) = some before.length := by
  induction tail using List.reverseRecOn with
  | nil =>
    have hget : (before ++ [lead]).getD before.length 0 = lead := by simp
    rw [List.length_nil, Nat.add_zero, leadBefore, hget, hlead]
    rfl
  | append_singleton tail b ih =>
    have hrest := ih fun d hd => htail d (List.mem_append_left _ hd)
    have hb : isUtf8ContinuationByte b = true := htail b (by simp)
    have hget : (before ++ lead :: (tail ++ [b])).getD (before.length + 1 + tail.length) 0 = b := by
      have hsplit : before ++ lead :: (tail ++ [b]) = (before ++ lead :: tail) ++ [b] := by simp
      have hlength : before.length + 1 + tail.length = (before ++ lead :: tail).length := by simp; omega
      rw [hsplit, hlength]
      simp
    have hmono : ∀ n ≤ before.length + 1 + tail.length,
        leadBefore (before ++ lead :: (tail ++ [b])) n = leadBefore (before ++ lead :: tail) n := by
      intro n hn
      induction n with
      | zero => rfl
      | succ n ihn =>
        have hsame : (before ++ lead :: (tail ++ [b])).getD n 0 = (before ++ lead :: tail).getD n 0 := by
          have hsplit : before ++ lead :: (tail ++ [b]) = (before ++ lead :: tail) ++ [b] := by simp
          rw [hsplit, List.getD_append _ _ _ _ (by simp; omega)]
        rw [leadBefore, leadBefore, hsame, ihn (by omega)]
    rw [List.length_append, List.length_singleton, ← Nat.add_assoc, leadBefore, hget, hb, if_pos rfl,
      hmono _ (Nat.le_refl _), hrest]

theorem prefix_character (before : List ℕ) {lead : ℕ} (tail : List ℕ)
    (hlead : isUtf8ContinuationByte lead = false) (htail : ∀ b ∈ tail, isUtf8ContinuationByte b = true) :
    completeUtf8PrefixLength (before ++ lead :: tail) =
      if tail.length + 1 < expectedLength lead then before.length else before.length + 1 + tail.length := by
  have hlength : (before ++ lead :: tail).length = before.length + 1 + tail.length := by simp; omega
  have hget : (before ++ lead :: tail).getD before.length 0 = lead := by simp
  rw [completeUtf8PrefixLength, hlength, if_neg (by omega), leadBefore_tail hlead tail htail]
  simp only [hget]
  congr 1
  rw [eq_iff_iff]
  omega

/-- What has been read is complete characters and the beginning of one more, which is cut off. -/
theorem prefix_text {cs : List ℕ} (h : ∀ c ∈ cs, IsScalar c) (n : ℕ) :
    ∃ k, completeUtf8PrefixLength ((encodeText cs).take n) = (encodeText (cs.take k)).length ∧
      (encodeText (cs.take k)).length ≤ ((encodeText cs).take n).length ∧ (4 ≤ n → cs ≠ [] → 0 < k) := by
  induction cs using List.reverseRecOn with
  | nil => exact ⟨0, by simp [encodeText,
      completeUtf8PrefixLength], by simp [encodeText], fun _ hne => absurd rfl hne⟩
  | append_singleton cs c ih =>
    have hcs : ∀ d ∈ cs, IsScalar d := fun d hd => h d (List.mem_append_left _ hd)
    obtain ⟨lead, tail, hbytes, hcharacter⟩ := scalar_character (h c (by simp))
    have hsplit : encodeText (cs ++ [c]) = encodeText cs ++ lead :: tail := by simp [encodeText, hbytes]
    by_cases hshort : n ≤ (encodeText cs).length
    · obtain ⟨k, hk, hle, hpos⟩ := ih hcs
      have htake : (encodeText (cs ++ [c])).take n = (encodeText cs).take n := by
        rw [hsplit, List.take_append_of_le_length hshort]
      have hmin : (cs ++ [c]).take (min k cs.length) = cs.take k := by
        rw [List.take_append_of_le_length (Nat.min_le_right _ _), ← List.take_take, List.take_length]
      refine ⟨min k cs.length, by rw [htake, hk, hmin], by rw [htake, hmin]; exact hle, ?_⟩
      intro hfour _
      have hne : cs ≠ [] := by
        rintro rfl
        simp [encodeText] at hshort
        omega
      have hlength : 0 < cs.length := List.length_pos_iff.mpr hne
      have hk := hpos hfour hne
      omega
    · obtain ⟨m, hm⟩ : ∃ m, n = (encodeText cs).length + (m + 1) := ⟨n - (encodeText cs).length - 1, by omega⟩
      have htake : (encodeText (cs ++ [c])).take n = encodeText cs ++ lead :: tail.take m := by
        rw [hsplit, hm, List.take_length_add_append]
        rfl
      have hprefix := prefix_character (encodeText cs) (tail.take m) hcharacter.leads
        fun b hb => hcharacter.follows b (List.mem_of_mem_take hb)
      rw [hcharacter.length] at hprefix
      by_cases hcut : m < tail.length
      · have hlength : (tail.take m).length = m := by simp; omega
        refine ⟨cs.length, ?_, ?_, ?_⟩
        · rw [htake, hprefix, hlength, if_pos (by omega)]
          simp
        · rw [htake]
          simp
        · intro hfour _
          have hthree := hcharacter.short
          by_contra hzero
          have hnil : cs = [] := List.length_eq_zero_iff.mp (by omega)
          subst hnil
          simp [encodeText] at hm
          omega
      · have hlength : (tail.take m).length = tail.length := by simp; omega
        refine ⟨cs.length + 1, ?_, ?_, fun _ _ => Nat.succ_pos _⟩
        · rw [htake, hprefix, hlength, if_neg (by omega), List.take_of_length_le (by simp), hsplit]
          simp
          omega
        · rw [htake, List.take_of_length_le (by simp), hsplit]
          simp [hlength]

end Boundaries

section Pages

/-- A place between two characters of the text. -/
def Between (text : List ℕ) (offset : ℕ) (rest : List ℕ) : Prop :=
  ∃ before, text = before ++ rest ∧ offset = (encodeText before).length

theorem encodeText_append (cs ds : List ℕ) : encodeText (cs ++ ds) = encodeText cs ++ encodeText ds :=
  List.flatMap_append

theorem encodeText_nonempty {cs : List ℕ} (h : ∀ c ∈ cs, IsScalar c) (hne : cs ≠ []) :
    0 < (encodeText cs).length := by
  cases cs with
  | nil => exact absurd rfl hne
  | cons c cs =>
    obtain ⟨lead, tail, hbytes, -⟩ := scalar_character (h c List.mem_cons_self)
    show 0 < (scalarBytes c ++ encodeText cs).length
    rw [hbytes]
    simp

/-- A page begins and ends between two characters, and is not empty before the end. -/
theorem page_text {text rest : List ℕ} {offset maxBytes : ℕ} (htext : ∀ c ∈ text, IsScalar c)
    (hbetween : Between text offset rest) (hfour : 4 ≤ maxBytes) :
    ∃ chunk k, readLogChunk (some (encodeText text)) offset maxBytes = .ok chunk ∧
      chunk.content = rest.take k ∧ Between text chunk.nextOffset (rest.drop k) ∧
      (chunk.eof = true ↔ rest.drop k = []) ∧ (chunk.eof = false → offset < chunk.nextOffset) := by
  obtain ⟨before, rfl, rfl⟩ := hbetween
  have hrest : ∀ c ∈ rest, IsScalar c := fun c hc => htext c (List.mem_append_right _ hc)
  have htotal : (encodeText (before ++ rest)).length = (encodeText before).length +
      (encodeText rest).length := by
    rw [encodeText_append, List.length_append]
  cases rest with
  | nil =>
    refine ⟨⟨[], (encodeText before).length, (encodeText before).length,
      (encodeText (before ++ [])).length, true⟩, 0, ?_, rfl, ⟨before, rfl, rfl⟩, by simp, by simp⟩
    have hnil : (encodeText []).length = 0 := rfl
    rw [readLogChunk]
    simp only
    rw [if_neg (by omega), if_pos (by omega)]
  | cons c rest =>
    obtain ⟨lead, tail, hbytes, hcharacter⟩ := scalar_character (hrest c List.mem_cons_self)
    have hhead : encodeText (c :: rest) = lead :: (tail ++ encodeText rest) := by
      show scalarBytes c ++ encodeText rest = _
      rw [hbytes]
      rfl
    have hpositive : 0 < (encodeText (c :: rest)).length := by rw [hhead]; simp
    have hdrop : (encodeText (before ++ c :: rest)).drop (encodeText before).length =
        encodeText (c :: rest) := by
      rw [encodeText_append, List.drop_left]
    have hselected : ((encodeText (before ++ c :: rest)).drop (encodeText before).length).take
        (min maxBytes ((encodeText (before ++ c :: rest)).length - (encodeText before).length)) =
        (encodeText (c :: rest)).take maxBytes := by
      rw [hdrop, htotal, Nat.add_sub_cancel_left, ← List.take_take, List.take_length]
    have hfirst : ((encodeText (c :: rest)).take maxBytes).getD 0 0 = lead := by
      obtain ⟨m, rfl⟩ : ∃ m, maxBytes = m + 1 := ⟨maxBytes - 1, by omega⟩
      rw [hhead]
      rfl
    obtain ⟨k, hk, hle, hpos⟩ := prefix_text hrest maxBytes
    have hkpos : 0 < k := hpos hfour (List.cons_ne_nil _ _)
    have hcut : encodeText (c :: rest) = encodeText ((c :: rest).take k) ++
        encodeText ((c :: rest).drop k) := by
      rw [← encodeText_append, List.take_append_drop]
    have hcontent : ((encodeText (c :: rest)).take maxBytes).take (encodeText ((c :: rest).take k)).length =
        encodeText ((c :: rest).take k) := by
      rw [List.take_take, Nat.min_eq_left, hcut, List.take_left]
      rw [List.length_take] at hle
      omega
    have hdecode : decode (encodeText ((c :: rest).take k)) = (c :: rest).take k :=
      decode_encode fun d hd => hrest d (List.mem_of_mem_take hd)
    have hnext : (encodeText before).length + (encodeText ((c :: rest).take k)).length =
        (encodeText (before ++ (c :: rest).take k)).length := by rw [encodeText_append, List.length_append]
    refine ⟨⟨(c :: rest).take k, (encodeText before).length,
      (encodeText before).length + (encodeText ((c :: rest).take k)).length,
        (encodeText (before ++ c :: rest)).length,
      decide ((encodeText before).length + (encodeText ((c :: rest).take k)).length ≥
        (encodeText (before ++ c :: rest)).length)⟩, k, ?_, rfl, ?_, ?_, ?_⟩
    · rw [readLogChunk]
      simp only
      rw [if_neg (by omega), if_neg (by omega), hselected, hfirst, hcharacter.leads, hk, hcontent, hdecode]
      simp
    · exact ⟨before ++ (c :: rest).take k, by simp, hnext⟩
    · have hlength : (encodeText (c :: rest)).length =
          (encodeText ((c :: rest).take k)).length + (encodeText ((c :: rest).drop k)).length := by
        conv_lhs => rw [hcut, List.length_append]
      rw [decide_eq_true_iff, htotal]
      constructor
      · intro hend
        by_contra hne
        have hmore := encodeText_nonempty (fun d hd => hrest d (List.mem_of_mem_drop hd)) hne
        omega
      · intro hnil
        rw [hnil] at hlength
        have hzero : (encodeText []).length = 0 := rfl
        omega
    · intro _
      have hne : (c :: rest).take k ≠ [] := by
        obtain ⟨m, rfl⟩ : ∃ m, k = m + 1 := ⟨k - 1, by omega⟩
        exact List.cons_ne_nil _ _
      have hmore := encodeText_nonempty (fun d hd => hrest d (List.mem_of_mem_take hd)) hne
      show (encodeText before).length < (encodeText before).length + (encodeText ((c :: rest).take k)).length
      omega

theorem reached_between {text : List ℕ} {maxBytes offset : ℕ} (htext : ∀ c ∈ text, IsScalar c)
    (hfour : 4 ≤ maxBytes) (h : Reached (some (encodeText text)) maxBytes offset) :
    ∃ rest, Between text offset rest := by
  induction h with
  | zero => exact ⟨text, [], rfl, rfl⟩
  | next _ hread _ ih =>
    obtain ⟨rest, hbetween⟩ := ih
    obtain ⟨chunk, k, hchunk, -, hnext, -⟩ := page_text htext hbetween hfour
    rw [hread] at hchunk
    cases hchunk
    exact ⟨rest.drop k, hnext⟩

/-- From a place between two characters the pages are the rest of the text. -/
theorem follow_text {text : List ℕ} {maxBytes : ℕ} (htext : ∀ c ∈ text, IsScalar c) (hfour : 4 ≤ maxBytes)
    (fuel : ℕ) {offset : ℕ} {rest : List ℕ} (hbetween : Between text offset rest)
    (hfuel : (encodeText text).length - offset < fuel) :
    ∃ contents, follow (some (encodeText text)) maxBytes fuel offset = some (.ok contents) ∧
    contents.flatten = rest := by
  induction fuel generalizing offset rest with
  | zero => omega
  | succ fuel ih =>
    obtain ⟨chunk, k, hread, hcontent, hnext, heof, hadvance⟩ := page_text htext hbetween hfour
    cases hend : chunk.eof with
    | true =>
      have hdone : rest.take k = rest := by
        conv_rhs => rw [← List.take_append_drop k rest, heof.mp hend, List.append_nil]
      refine ⟨[chunk.content], by simp [follow, hread, hend], ?_⟩
      rw [hcontent, hdone]
      simp
    | false =>
      have hmore := hadvance hend
      have hbound : chunk.nextOffset ≤ (encodeText text).length := by
        obtain ⟨before, hsplit, hoffset⟩ := hnext
        rw [hoffset, hsplit, encodeText_append, List.length_append]
        omega
      obtain ⟨contents, hfollow, hflatten⟩ := ih hnext (by omega)
      refine ⟨chunk.content :: contents, by simp [follow, hread, hend, hfollow, Except.map], ?_⟩
      rw [List.flatten_cons, hcontent, hflatten, List.take_append_drop]

/-- Paging through a file with a text ends, and the pages are the text. -/
theorem paging_complete {file : List ℕ} (hvalid : Valid file) {maxBytes : ℕ} (hfour : 4 ≤ maxBytes) :
    (∀ offset, Reached (some file) maxBytes offset → ∃ chunk,
      readLogChunk (some file) offset maxBytes = .ok chunk ∧
      (chunk.eof = false → offset < chunk.nextOffset ∧ chunk.nextOffset ≤ file.length)) ∧
    ∀ fuel, file.length < fuel →
      ∃ contents, follow (some file) maxBytes fuel 0 = some (.ok contents) ∧ contents.flatten =
        decode file := by
  have htext : ∀ c ∈ decode file, IsScalar c := fun c hc => decode_scalar hc
  have hfile : encodeText (decode file) = file := encode_decode hvalid
  constructor
  · intro offset hreached
    rw [← hfile] at hreached
    obtain ⟨rest, hbetween⟩ := reached_between htext hfour hreached
    obtain ⟨chunk, k, hread, -, hnext, -, hadvance⟩ := page_text htext hbetween hfour
    rw [hfile] at hread
    refine ⟨chunk, hread, ?_⟩
    intro heof
    refine ⟨hadvance heof, ?_⟩
    obtain ⟨before, hsplit, hoffset⟩ := hnext
    rw [hoffset, ← hfile, hsplit, encodeText_append, List.length_append]
    omega
  · intro fuel hfuel
    obtain ⟨contents, hfollow, hflatten⟩ := follow_text htext hfour fuel
      (show Between (decode file) 0 (decode file) from ⟨[], rfl, rfl⟩) (by rw [hfile]; omega)
    rw [hfile] at hfollow
    exact ⟨contents, hfollow, hflatten⟩

/-- Characters of every length and pages of four bytes. -/
theorem paging_complete_sample :
    ∃ contents, follow (some (encodeText [0x61, 0x20ac, 0x1f600, 0xe9])) 4 11 0 = some (.ok contents) ∧
      contents.flatten = decode (encodeText [0x61, 0x20ac, 0x1f600, 0xe9]) :=
  (paging_complete (show Valid (encodeText [0x61, 0x20ac, 0x1f600, 0xe9]) by decide +kernel) (by decide)).2 11
    (by decide +kernel)

end Pages

end AccessStack.Tasks.LogPages
