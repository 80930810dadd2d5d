import AccessStack.Utf8

/-!
# The captured output of a foreground command

The handlers of `runShellCommand` decode each chunk alone and append it to what
they have. What grows too large is cut after a whole character, and a notice is
put behind it. A text is the list of its characters.
-/

set_option autoImplicit false

namespace AccessStack.Shell.Capture
open AccessStack.Units AccessStack.Utf8

abbrev Text : Type := List ℕ

section Capture

def maxOutputBytes : ℕ := 250000

def truncationNotice : Text :=
  ("\n...[output truncated: run it with start_background_task and page it with read_background_task_output]").toList.map
    Char.toNat

/-- The length in UTF-8. -/
def size (text : Text) : ℕ := (encodeText text).length

def truncateFrom (maxBytes : ℕ) : ℕ → Text → Text
  | _, [] => []
  | bytes, c::cs =>
    if bytes + (scalarBytes c).length > maxBytes then []
    else c :: truncateFrom maxBytes (bytes + (scalarBytes c).length) cs

def truncateUtf8 (value : Text) (maxBytes : ℕ) : Text := truncateFrom maxBytes 0 value

def appendCapped (current chunk : Text) : Text :=
  if size (current ++ chunk) ≤ maxOutputBytes then current ++ chunk
  else truncateUtf8 (current ++ chunk) maxOutputBytes ++ truncationNotice

/-- The text of a stream after these data events. -/
def captured (chunks : List (List ℕ)) : Text :=
  chunks.foldl (fun stdout chunk => appendCapped stdout (decode chunk)) []

/-- The text of the whole stream, or its longest prefix of characters with one notice. -/
def wholeOutput (bytes : List ℕ) : Text :=
  if size (decode bytes) ≤ maxOutputBytes then decode bytes
  else truncateUtf8 (decode bytes) maxOutputBytes ++ truncationNotice

end Capture

section Sizes

theorem size_nil : size [] = 0 := rfl

theorem size_cons (c : ℕ) (cs : Text) : size (c :: cs) = (scalarBytes c).length + size cs := by
  simp [size, encodeText]

theorem size_append (cs ds : Text) : size (cs ++ ds) = size cs + size ds := by
  simp [size, encodeText]

theorem charSize_bounds (c : ℕ) : 1 ≤ (scalarBytes c).length ∧ (scalarBytes c).length ≤ 4 := by
  unfold scalarBytes
  split_ifs <;> simp

theorem size_replacement : (scalarBytes replacement).length = 3 := rfl

theorem size_ascii {cs : Text} (h : ∀ c ∈ cs, c < 0x80) : size cs = cs.length := by
  induction cs with
  | nil => rfl
  | cons c cs ih =>
    have hc : scalarBytes c = [c] := if_pos (h c List.mem_cons_self)
    rw [size_cons, hc, ih fun d hd => h d (List.mem_cons_of_mem _ hd), List.length_cons]
    exact Nat.add_comm _ _

theorem notice_ascii : ∀ c ∈ truncationNotice, c < 0x80 := by decide +kernel

theorem notice_length : truncationNotice.length = 102 := by decide +kernel

theorem notice_take (n : ℕ) (h : n ≤ 102) : size (truncationNotice.take n) = n := by
  rw [size_ascii fun c hc => notice_ascii c (List.mem_of_mem_take hc), List.length_take, notice_length]
  omega

theorem size_notice : size truncationNotice = 102 := by
  rw [size_ascii notice_ascii, notice_length]

/-- The cut is before the first character that has no place any more. -/
theorem truncateFrom_eq {maxBytes bytes : ℕ} {kept : Text} {c : ℕ} {rest : Text}
    (hfits : bytes + size kept ≤ maxBytes) (hnext : maxBytes < bytes + size kept + (scalarBytes c).length) :
    truncateFrom maxBytes bytes (kept ++ c :: rest) = kept := by
  induction kept generalizing bytes with
  | nil =>
    rw [size_nil] at hnext
    exact if_pos hnext
  | cons d kept ih =>
    rw [size_cons] at hfits hnext
    rw [List.cons_append, truncateFrom, if_neg (by omega), ih (by omega) (by omega)]

theorem truncate_eq {kept : Text} {c : ℕ} {rest : Text} (hfits : size kept ≤ maxOutputBytes)
    (hnext : maxOutputBytes < size kept + (scalarBytes c).length) :
    truncateUtf8 (kept ++ c :: rest) maxOutputBytes = kept :=
  truncateFrom_eq (by omega) (by omega)

/-- A text that does not fit is cut somewhere. -/
theorem too_large {text : Text} (h : maxOutputBytes < size text) :
    ∃ kept c rest, text = kept ++ c :: rest ∧ size kept ≤ maxOutputBytes ∧
      maxOutputBytes < size kept + (scalarBytes c).length ∧ truncateUtf8 text maxOutputBytes = kept := by
  have hsplit : ∃ kept c rest, text = kept ++ c :: rest ∧ size kept ≤ maxOutputBytes ∧
      maxOutputBytes < size kept + (scalarBytes c).length := by
    induction text using List.reverseRecOn with
    | nil => exact absurd h (Nat.not_lt_zero _)
    | append_singleton text c ih =>
      rw [size_append, size_cons, size_nil] at h
      by_cases hlarge : maxOutputBytes < size text
      · obtain ⟨kept, d, rest, rfl, hfits, hnext⟩ := ih hlarge
        exact ⟨kept, d, rest ++ [c], by simp, hfits, hnext⟩
      · exact ⟨text, c, [], rfl, by omega, by omega⟩
  obtain ⟨kept, c, rest, rfl, hfits, hnext⟩ := hsplit
  exact ⟨kept, c, rest, rfl, hfits, hnext, truncate_eq hfits hnext⟩

/-- What is cut stays cut when more comes. -/
theorem truncate_append {text : Text} (h : maxOutputBytes < size text) (more : Text) :
    truncateUtf8 (text ++ more) maxOutputBytes = truncateUtf8 text maxOutputBytes := by
  obtain ⟨kept, c, rest, rfl, hfits, hnext, hcut⟩ := too_large h
  rw [hcut, List.append_assoc, List.cons_append, truncate_eq hfits hnext]

theorem truncate_bounds {text : Text} (h : maxOutputBytes < size text) :
    size (truncateUtf8 text maxOutputBytes) ≤ maxOutputBytes ∧
      maxOutputBytes ≤ size (truncateUtf8 text maxOutputBytes) + 3 := by
  obtain ⟨kept, c, rest, -, hfits, hnext, hcut⟩ := too_large h
  have hbounds := charSize_bounds c
  rw [hcut]
  omega

end Sizes

section Form

/-- The texts of the chunks one after the other. -/
def texts (chunks : List (List ℕ)) : Text := chunks.flatMap decode

/-- What fills the place that the cut has left: the beginning of a notice. -/
def filled (text : Text) : Text :=
  truncateUtf8 text maxOutputBytes ++
    truncationNotice.take (maxOutputBytes - size (truncateUtf8 text maxOutputBytes))

theorem size_filled {text : Text} (h : maxOutputBytes < size text) : size (filled text) = maxOutputBytes := by
  obtain ⟨hle, hge⟩ := truncate_bounds h
  rw [filled, size_append, notice_take _ (by omega)]
  omega

theorem captured_snoc (chunks : List (List ℕ)) (chunk : List ℕ) :
    captured (chunks ++ [chunk]) = appendCapped (captured chunks) (decode chunk) := by
  simp [captured]

theorem texts_snoc (chunks : List (List ℕ)) (chunk : List ℕ) :
    texts (chunks ++ [chunk]) = texts chunks ++ decode chunk := by
  simp [texts]

/-- A notice that stands behind the cut is cut itself by the next chunk. -/
theorem append_cut {text : Text} (h : maxOutputBytes < size text) (more : Text) :
    appendCapped (truncateUtf8 text maxOutputBytes ++ truncationNotice) more = filled text ++
      truncationNotice ∧
      appendCapped (filled text ++ truncationNotice) more = filled text ++ truncationNotice := by
  obtain ⟨hle, hge⟩ := truncate_bounds h
  have hfilled := size_filled h
  constructor
  · obtain ⟨n, hn⟩ : ∃ n, n = maxOutputBytes - size (truncateUtf8 text maxOutputBytes) := ⟨_, rfl⟩
    have hlt : n < truncationNotice.length := by rw [notice_length]; omega
    have hsplit : truncateUtf8 text maxOutputBytes ++ truncationNotice ++ more =
        filled text ++ truncationNotice[n] :: (truncationNotice.drop (n+1) ++ more) := by
      rw [filled, ← hn, List.append_assoc,
        List.append_assoc, ← List.cons_append, ← List.drop_eq_getElem_cons hlt,
        ← List.append_assoc (truncationNotice.take n), List.take_append_drop]
    have hpositive := (charSize_bounds truncationNotice[n]).1
    have hlarge : ¬ size (truncateUtf8 text maxOutputBytes ++ truncationNotice ++ more) ≤ maxOutputBytes := by
      rw [hsplit, size_append, size_cons, hfilled]
      omega
    rw [appendCapped, if_neg hlarge, hsplit, truncate_eq (by omega) (by omega)]
  · obtain ⟨c, rest, hnotice⟩ : ∃ c rest, truncationNotice = c :: rest := by
      cases hcase : truncationNotice with
      | nil =>
        have hlength := notice_length
        rw [hcase] at hlength
        cases hlength
      | cons c rest => exact ⟨c, rest, rfl⟩
    have hsplit : filled text ++ truncationNotice ++ more = filled text ++ c :: (rest ++ more) := by
      rw [hnotice, List.append_assoc, List.cons_append]
    have hpositive := (charSize_bounds c).1
    have hlarge : ¬ size (filled text ++ truncationNotice ++ more) ≤ maxOutputBytes := by
      rw [hsplit, size_append, size_cons, hfilled]
      omega
    rw [appendCapped, if_neg hlarge, hsplit, truncate_eq (by omega) (by omega)]

/-- What has been captured, told by the texts of the chunks. -/
theorem captured_form (chunks : List (List ℕ)) :
    (size (texts chunks) ≤ maxOutputBytes → captured chunks = texts chunks) ∧
      (maxOutputBytes < size (texts chunks) →
        captured chunks = truncateUtf8 (texts chunks) maxOutputBytes ++ truncationNotice ∨
          captured chunks = filled (texts chunks) ++ truncationNotice) := by
  induction chunks using List.reverseRecOn with
  | nil => exact ⟨fun _ => rfl, fun h => absurd h (Nat.not_lt_zero _)⟩
  | append_singleton chunks chunk ih =>
    obtain ⟨hfits, hlarge⟩ := ih
    rw [captured_snoc, texts_snoc]
    by_cases hbefore : size (texts chunks) ≤ maxOutputBytes
    · rw [hfits hbefore, appendCapped]
      exact ⟨fun h => if_pos h, fun h => .inl (if_neg (by omega))⟩
    · have hover : maxOutputBytes < size (texts chunks) := by omega
      obtain ⟨hcut, hfilled⟩ := append_cut hover (decode chunk)
      have hsame : filled (texts chunks ++ decode chunk) = filled (texts chunks) := by
        rw [filled, truncate_append hover]
        rfl
      have hmore : ¬ size (texts chunks ++ decode chunk) ≤ maxOutputBytes := by
        rw [size_append]
        omega
      refine ⟨fun h => absurd h hmore, fun _ => .inr ?_⟩
      rw [hsame]
      rcases hlarge hover with h | h <;> rw [h]
      · exact hcut
      · exact hfilled

theorem captured_last {chunks : List (List ℕ)} (hfits : size (texts chunks) ≤ maxOutputBytes)
    (chunk : List ℕ) :
    captured (chunks ++ [chunk]) =
      if size (texts (chunks ++ [chunk])) ≤ maxOutputBytes then texts (chunks ++ [chunk])
      else truncateUtf8 (texts (chunks ++ [chunk])) maxOutputBytes ++ truncationNotice := by
  rw [captured_snoc, texts_snoc, (captured_form chunks).1 hfits]
  rfl

theorem captured_later {chunks : List (List ℕ)} (hlarge : maxOutputBytes < size (texts chunks))
    (chunk : List ℕ) :
    captured (chunks ++ [chunk]) = filled (texts chunks) ++ truncationNotice := by
  obtain ⟨hcut, hfilled⟩ := append_cut hlarge (decode chunk)
  rw [captured_snoc]
  rcases (captured_form chunks).2 hlarge with h | h <;> rw [h]
  · exact hcut
  · exact hfilled

end Form

end AccessStack.Shell.Capture
