import AccessStack.Shell.ForegroundCapture

/-!
# When the captured output depends on the chunks

It is the same for all ways of cutting the stream in two cases. Each byte is a
piece and only the last character may not fit. Or what is kept fills the whole
room, and behind bytes that are pieces there are only replacement characters.
-/

set_option autoImplicit false

namespace AccessStack.Shell.Capture
open AccessStack.Units AccessStack.Utf8

section Condition

def Alone (ps : List Piece) : Prop := ∀ p ∈ ps, p.bytes.length < 2

def Replaced (ps : List Piece) : Prop := ∀ p ∈ ps, p.char = replacement

def chars (ps : List Piece) : Text := ps.map Piece.char

/-- The stream is captured in the same way however it is cut. -/
def Steady (bytes : List ℕ) : Prop :=
  Alone (pieces bytes) ∧ size (decode bytes).dropLast ≤ maxOutputBytes ∨
    ∃ alone replaced rest, pieces bytes = alone ++ replaced ++ rest ∧ rest ≠ [] ∧ Alone alone ∧
      Replaced replaced ∧
      size (chars (alone ++ replaced)) = maxOutputBytes

/-- The decoding of the whole stream, or what fits of it with one notice behind. -/
def IsWhole (bytes : List ℕ) (text : Text) : Prop :=
  size (decode bytes) ≤ maxOutputBytes ∧ text = decode bytes ∨
    ∃ kept c rest, decode bytes = kept ++ c :: rest ∧ size kept ≤ maxOutputBytes ∧
      maxOutputBytes < size (kept ++ [c]) ∧
      text = kept ++ truncationNotice

/-- A way of cutting the stream into data events. -/
structure Chunking (bytes : List ℕ) (chunks : List (List ℕ)) : Prop where
  nonempty : ∀ chunk ∈ chunks, chunk ≠ []
  whole : chunks.flatten = bytes

end Condition

section Texts

theorem texts_pieces (chunks : List (List ℕ)) : texts chunks = chars (chunks.flatMap pieces) := by
  rw [texts, chars, List.map_flatMap]
  rfl

theorem chars_append (ps qs : List Piece) : chars (ps ++ qs) = chars ps ++ chars qs := List.map_append

theorem chars_strays (strays : List ℕ) :
    chars (strays.map single) = List.replicate strays.length replacement := by
  rw [chars, List.map_map]
  exact List.map_const'

theorem texts_alone {bytes : List ℕ} (h : Alone (pieces bytes)) {chunks : List (List ℕ)}
    (hwhole : chunks.flatten = bytes) :
    texts chunks = decode bytes := by
  subst hwhole
  rw [texts_pieces, refines_single (refines_chunks chunks) h]
  rfl

theorem refines_length {ps qs : List Piece} (h : Refines ps qs) : ps.length ≤ qs.length := by
  induction h with
  | nil => exact Nat.le_refl _
  | keep p _ ih => exact Nat.succ_le_succ ih
  | split p l _ htwo _ _ ih =>
    rw [List.length_cons, List.length_append]
    omega

theorem refines_replaced {ps qs : List Piece} (h : Refines ps qs) (hps : Replaced ps) : Replaced qs := by
  induction h with
  | nil => exact hps
  | keep p _ ih =>
    have hrest := ih fun q hq => hps q (List.mem_cons_of_mem _ hq)
    intro q hq
    rcases List.mem_cons.mp hq with rfl | hq
    · exact hps q List.mem_cons_self
    · exact hrest q hq
  | split p l _ _ hnone _ ih =>
    have hrest := ih fun q hq => hps q (List.mem_cons_of_mem _ hq)
    intro q hq
    rcases List.mem_append.mp hq with hq | hq
    · rw [Piece.char, hnone q hq]
      rfl
    · exact hrest q hq

theorem chars_replaced {ps : List Piece} (h : Replaced ps) :
    chars ps = List.replicate ps.length replacement := by
  rw [List.eq_replicate_iff]
  refine ⟨List.length_map _, ?_⟩
  intro c hc
  obtain ⟨p, hp, rfl⟩ := List.mem_map.mp hc
  exact h p hp

end Texts

section Enough

theorem steady_alone {bytes : List ℕ} (halone : Alone (pieces bytes))
    (hlast : size (decode bytes).dropLast ≤ maxOutputBytes) {chunks : List (List ℕ)}
    (h : Chunking bytes chunks) : captured chunks = wholeOutput bytes := by
  have htexts := texts_alone halone h.whole
  cases hcase : chunks using List.reverseRecOn with
  | nil =>
    have hbytes : bytes = [] := by rw [← h.whole, hcase]; rfl
    rw [hbytes]
    rfl
  | append_singleton before chunk =>
    subst hcase
    have hchunk : decode chunk ≠ [] := by
      intro hnil
      exact pieces_nonempty (h.nonempty chunk (by simp)) (List.map_eq_nil_iff.mp hnil)
    have hbefore : size (texts before) ≤ maxOutputBytes := by
      rw [← htexts, texts_snoc, List.dropLast_append_of_ne_nil hchunk, size_append] at hlast
      omega
    rw [captured_last hbefore, htexts]
    rfl

theorem steady_replaced {bytes : List ℕ} {alone replaced rest : List Piece}
    (hpieces : pieces bytes = alone ++ replaced ++ rest) (hrest : rest ≠ []) (halone : Alone alone)
    (hreplaced : Replaced replaced) (hsize : size (chars (alone ++ replaced)) = maxOutputBytes)
    {chunks : List (List ℕ)} (h : chunks.flatten = bytes) : captured chunks = wholeOutput bytes := by
  have hrefines := refines_chunks chunks
  rw [h, hpieces] at hrefines
  obtain ⟨kept, rest', hsplit, hkept, hrest'⟩ := refines_parts hrefines
  obtain ⟨alone', replaced', rfl, halone', hreplaced'⟩ := refines_parts hkept
  have hsame := refines_single halone' halone
  subst hsame
  have hlength := refines_length hreplaced'
  have hpositive := List.length_pos_iff.mpr hrest
  have hlengthRest := refines_length hrest'
  obtain ⟨more, hmore⟩ : ∃ more, replaced'.length = replaced.length + more :=
    ⟨_, (Nat.add_sub_of_le hlength).symm⟩
  have hchars : chars replaced' = chars replaced ++ List.replicate more replacement := by
    rw [chars_replaced (refines_replaced hreplaced' hreplaced), chars_replaced hreplaced, hmore,
      List.replicate_add]
  have htexts : texts chunks = chars (alone' ++ replaced) ++
      (List.replicate more replacement ++ chars rest') := by
    rw [texts_pieces, hsplit, chars_append, chars_append, chars_append, hchars]
    simp only [List.append_assoc]
  have hcut : ∀ text : Text, text ≠ [] → maxOutputBytes < size (chars (alone' ++ replaced) ++ text) ∧
      truncateUtf8 (chars (alone' ++ replaced) ++ text) maxOutputBytes = chars (alone' ++ replaced) := by
    intro text htext
    obtain ⟨c, cs, rfl⟩ := List.exists_cons_of_ne_nil htext
    have hbounds := charSize_bounds c
    refine ⟨?_, truncate_eq (by omega) (by omega)⟩
    rw [size_append, size_cons]
    omega
  have hwhole : decode bytes = chars (alone' ++ replaced) ++ chars rest := by
    rw [← chars_append, ← hpieces]
    rfl
  obtain ⟨hlarge, htruncated⟩ := hcut (chars rest) (by simpa [chars] using hrest)
  obtain ⟨hlarge', htruncated'⟩ := hcut (List.replicate more replacement ++ chars rest') (by
    intro hnil
    have hcount := congrArg List.length hnil
    rw [List.length_append, chars, List.length_map, List.length_nil] at hcount
    omega)
  rw [← htexts] at hlarge' htruncated'
  have hexpected : wholeOutput bytes = chars (alone' ++ replaced) ++ truncationNotice := by
    rw [wholeOutput, hwhole, if_neg (by omega), htruncated]
  have hfilled : filled (texts chunks) = chars (alone' ++ replaced) := by
    rw [filled, htruncated', hsize, Nat.sub_self]
    exact List.append_nil _
  rw [hexpected]
  rcases (captured_form chunks).2 hlarge' with hcaptured | hcaptured
  · rw [hcaptured, htruncated']
  · rw [hcaptured, hfilled]

end Enough

section Needed

/-- The bytes around a piece of several bytes, cut behind its first one. -/
theorem cut_sizes {bytes : List ℕ} {before after : List Piece} {p : Piece}
    (h : pieces bytes = before ++ p :: after) (htwo : 2 ≤ p.bytes.length) :
    ∃ xs ys strays, bytes = xs ++ ys ∧ xs ≠ [] ∧ ys ≠ [] ∧ strays ≠ [] ∧
    pieces ys = strays.map single ++ after ∧
      decode xs = chars before ++ [replacement] ∧
      decode ys = List.replicate strays.length replacement ++ chars after ∧
      (scalarBytes p.char).length ≤ 3 * strays.length ∧
      0x80 ≤ p.char := by
  obtain ⟨xs, ys, b, strays, rfl, hxs, hstrays, hbefore, hafter⟩ := cut_piece h htwo
  have hys : ys ≠ [] := by
    rintro rfl
    have hnil : strays.map single ++ after = [] := hafter.symm
    exact hstrays (List.map_eq_nil_iff.mp (List.append_eq_nil_iff.mp hnil).1)
  have hxsBytes : before.flatMap Piece.bytes ++ [b] = xs := by
    rw [← pieces_bytes xs, hbefore, List.flatMap_append]
    rfl
  have hysBytes : strays ++ after.flatMap Piece.bytes = ys := by
    rw [← pieces_bytes ys, hafter, List.flatMap_append, List.flatMap_map]
    congr 1
    exact (List.flatMap_singleton' strays).symm
  have hall := pieces_bytes (xs ++ ys)
  rw [h, List.flatMap_append, List.flatMap_cons, ← hxsBytes, ← hysBytes] at hall
  have hlength := congrArg List.length hall
  simp only [List.length_append, List.length_singleton] at hlength
  have hsound : Sound p := sound_pieces (by rw [h]; simp)
  have hpositive := List.length_pos_iff.mpr hstrays
  refine ⟨xs, ys, strays, rfl, hxs, hys, hstrays, hafter, ?_, ?_, ?_, ?_⟩
  · rw [decode, hbefore, List.map_append]
    rfl
  · rw [decode, hafter, List.map_append]
    congr 1
    exact chars_strays strays
  · cases hscalar : p.scalar with
    | none =>
      rw [Piece.char, hscalar]
      change (scalarBytes replacement).length ≤ _
      rw [size_replacement]
      omega
    | some c =>
      have hbytes := (hsound c hscalar).2
      have hchar : p.char = c := by rw [Piece.char, hscalar]; rfl
      rw [hchar, ← hbytes]
      omega
  · cases hscalar : p.scalar with
    | none =>
      rw [Piece.char, hscalar]
      decide
    | some c =>
      have hbytes := (hsound c hscalar).2
      have hchar : p.char = c := by rw [Piece.char, hscalar]; rfl
      rw [hchar]
      by_contra hlow
      rw [hbytes, scalarBytes, if_pos (by omega)] at htwo
      simp at htwo

theorem size_replicate (n : ℕ) : size (List.replicate n replacement) = 3 * n := by
  induction n with
  | zero => rfl
  | succ n ih =>
    rw [List.replicate_succ, size_cons, ih, size_replacement]
    omega

/-- Once the room is full, a further chunk leaves as much as the whole room. -/
theorem captured_full {chunks : List (List ℕ)} (hfull : maxOutputBytes ≤ size (texts chunks)) {chunk : List ℕ}
    (hchunk : chunk ≠ []) : size (captured (chunks ++ [chunk])) = maxOutputBytes + 102 := by
  by_cases hlarge : maxOutputBytes < size (texts chunks)
  · rw [captured_later hlarge, size_append, size_filled hlarge, size_notice]
  · obtain ⟨c, cs, hcs⟩ := List.exists_cons_of_ne_nil
      (show decode chunk ≠ [] from fun hnil => pieces_nonempty hchunk (List.map_eq_nil_iff.mp hnil))
    have hpositive := (charSize_bounds c).1
    have hover : ¬ size (texts (chunks ++ [chunk])) ≤ maxOutputBytes := by
      rw [texts_snoc, hcs, size_append, size_cons]
      omega
    rw [captured_last (by omega), if_neg hover, texts_snoc, hcs, truncate_eq (by omega) (by omega),
      size_append, size_notice]
    omega

variable {bytes : List ℕ} (hsame : ∀ chunks, Chunking bytes chunks → captured chunks = wholeOutput bytes)
include hsame

/-- Where all of it fits, each byte is a piece. -/
theorem alone_small (hfits : size (decode bytes) ≤ maxOutputBytes) : Alone (pieces bytes) := by
  intro p hp
  by_contra htwo
  obtain ⟨before, after, hpieces⟩ := List.append_of_mem hp
  obtain ⟨xs, ys, strays, rfl, hxs, hys, hstrays, -, hbefore, hafter, -⟩ := cut_sizes hpieces (by omega)
  have hpositive := List.length_pos_iff.mpr hstrays
  have hcaptured := hsame [xs, ys] ⟨by simp [hxs, hys], by simp⟩
  rw [wholeOutput, if_pos hfits] at hcaptured
  have htexts : texts [xs, ys] = chars before ++ [replacement] ++
      (List.replicate strays.length replacement ++ chars after) := by
    simp [texts, hbefore, hafter]
  have hwhole : decode (xs ++ ys) = chars before ++ p.char :: chars after := by
    rw [decode, hpieces, List.map_append]
    rfl
  obtain ⟨hsmall, hlarge⟩ := captured_form [xs, ys]
  by_cases hcase : size (texts [xs, ys]) ≤ maxOutputBytes
  · rw [hsmall hcase, htexts, hwhole] at hcaptured
    have hlength := congrArg List.length hcaptured
    simp only [List.length_append, List.length_cons, List.length_nil, List.length_replicate] at hlength
    omega
  · have hover : maxOutputBytes < size (texts [xs, ys]) := by omega
    have hbounds := truncate_bounds hover
    have hfilled := size_filled hover
    rcases hlarge hover with hform | hform
    · rw [← hcaptured, hform, size_append, size_notice] at hfits
      omega
    · rw [← hcaptured, hform, size_append, size_notice] at hfits
      omega

theorem captured_before {chunks : List (List ℕ)} {chunk : List ℕ} (h : Chunking bytes (chunks ++ [chunk]))
    (hlarge : maxOutputBytes < size (decode bytes))
    (hshort : size (truncateUtf8 (decode bytes) maxOutputBytes) < maxOutputBytes) :
    size (texts chunks) < maxOutputBytes := by
  by_contra hfull
  have hroom : maxOutputBytes ≤ size (texts chunks) := by omega
  have hsize := captured_full hroom (h.nonempty chunk (by simp))
  rw [hsame _ h, wholeOutput, if_neg (by omega), size_append, size_notice] at hsize
  omega

theorem last_short (hlarge : maxOutputBytes < size (decode bytes))
    (hshort : size (truncateUtf8 (decode bytes) maxOutputBytes) < maxOutputBytes) :
    size (decode bytes).dropLast ≤ maxOutputBytes := by
  cases bytes using List.reverseRecOn with
  | nil => exact Nat.zero_le _
  | append_singleton xs b =>
    obtain ⟨extra, hextra⟩ := pieces_dropLast xs b
    have hxs : decode xs = (decode (xs ++ [b])).dropLast ++ chars extra := by
      rw [decode, hextra, List.map_append, decode, List.dropLast_eq_take, List.dropLast_eq_take,
        List.map_take, List.length_map]
      rfl
    by_cases hnil : xs = []
    · subst hnil
      have hempty : (decode ([] ++ [b])).dropLast = [] := (List.append_eq_nil_iff.mp hxs.symm).1
      rw [hempty]
      exact Nat.zero_le _
    · have hbefore := @captured_before _ hsame [xs] [b] ⟨by simp [hnil], by simp⟩ hlarge hshort
      have htexts : texts [xs] = decode xs := by simp [texts]
      rw [htexts, hxs, size_append] at hbefore
      omega

/-- Where the cut leaves room, each byte is a piece. -/
theorem alone_short (hlarge : maxOutputBytes < size (decode bytes))
    (hshort : size (truncateUtf8 (decode bytes) maxOutputBytes) < maxOutputBytes) : Alone (pieces bytes) := by
  have hlast := last_short hsame hlarge hshort
  have hnear : maxOutputBytes ≤ size (decode bytes).dropLast + 3 := by
    have hne : decode bytes ≠ [] := by
      intro hnil
      rw [hnil] at hlarge
      exact absurd hlarge (Nat.not_lt_zero _)
    have hsplit := List.dropLast_append_getLast hne
    have hsize := congrArg size hsplit
    rw [size_append, size_cons, size_nil] at hsize
    have hbounds := charSize_bounds ((decode bytes).getLast hne)
    have hcut : truncateUtf8 (decode bytes) maxOutputBytes = (decode bytes).dropLast := by
      rw [← hsplit, truncate_eq (by omega) (by omega), hsplit]
    rw [← hcut]
    exact (truncate_bounds hlarge).2
  intro p hp
  by_contra htwo
  obtain ⟨before, after, hpieces⟩ := List.append_of_mem hp
  obtain ⟨xs, ys, strays, rfl, hxs, hys, hstrays, hysPieces, hbefore, -, hsmall, -⟩ :=
    cut_sizes hpieces (by omega)
  have hwhole : decode (xs ++ ys) = chars before ++ p.char :: chars after := by
    rw [decode, hpieces, List.map_append]
    rfl
  rw [hwhole] at hnear
  by_cases hafter : after = []
  · have hroom := @captured_before _ hsame [xs] ys ⟨by simp [hxs, hys], by simp⟩ hlarge hshort
    have htexts : texts [xs] = decode xs := by simp [texts]
    have hdrop : (chars before ++ p.char :: chars after).dropLast = chars before := by
      rw [hafter]
      exact List.dropLast_concat
    rw [hdrop] at hnear
    rw [htexts, hbefore, size_append, size_cons, size_nil, size_replacement] at hroom
    omega
  · obtain ⟨ys', b, rfl⟩ : ∃ ys' b, ys = ys' ++ [b] := ⟨_, _, (List.dropLast_append_getLast hys).symm⟩
    have hys' : ys' ≠ [] := by
      rintro rfl
      have hone := length_pieces_one b
      have hcount := congrArg List.length hysPieces
      rw [List.nil_append, hone, List.length_append, List.length_map] at hcount
      have hpositive := List.length_pos_iff.mpr hafter
      have hpositive' := List.length_pos_iff.mpr hstrays
      omega
    obtain ⟨extra, hextra⟩ := pieces_dropLast ys' b
    rw [hysPieces, List.dropLast_append_of_ne_nil hafter] at hextra
    have hroom := @captured_before _ hsame [xs, ys'] [b] ⟨by simp [hxs, hys'], by simp⟩ hlarge hshort
    have htexts : texts [xs, ys'] = chars before ++ [replacement] ++
      (List.replicate strays.length replacement ++
        chars after.dropLast ++ chars extra) := by
      rw [texts_pieces, List.flatMap_cons, List.flatMap_cons, List.flatMap_nil, List.append_nil,
        chars_append, hextra, chars_append, chars_append, chars_strays]
      congr 1
    have hdrop : (chars before ++ p.char :: chars after).dropLast = chars before ++
        p.char :: chars after.dropLast := by
      rw [List.dropLast_append_of_ne_nil (List.cons_ne_nil _ _),
        List.dropLast_cons_of_ne_nil (by simpa [chars] using hafter),
        chars, chars, chars, List.map_dropLast]
    rw [htexts] at hroom
    rw [hdrop] at hnear
    simp only [size_append, size_cons, size_nil, size_replacement, size_replicate] at hroom hnear
    omega

end Needed

section Shifts

/-- A text that is its own continuation behind some copies of a character is made of that character. -/
theorem shifted {α : Type} {x : α} {n : ℕ} (hn : 0 < n) {text more rest : List α}
    (h : text ++ more = List.replicate n x ++ (text ++ rest)) : ∀ y ∈ text, y = x := by
  have hat : ∀ i, (hi : i < text.length) → text[i]? = some x := by
    intro i
    induction i using Nat.strong_induction_on with
    | _ i ih =>
      intro hi
      have hindex := congrArg (fun l => l[i]?) h
      rw [List.getElem?_append_left hi] at hindex
      by_cases hcopy : i < n
      · rw [List.getElem?_append_left (by simpa using hcopy), List.getElem?_replicate, if_pos hcopy] at hindex
        exact hindex
      · rw [List.getElem?_append_right (by simpa using hcopy), List.length_replicate,
          List.getElem?_append_left (by omega), ih (i-n) (by omega) (by omega)] at hindex
        exact hindex
  intro y hy
  obtain ⟨i, hi, rfl⟩ := List.getElem_of_mem hy
  have hx := hat i hi
  rw [List.getElem?_eq_getElem hi] at hx
  exact Option.some.inj hx

end Shifts

section Results

variable {bytes : List ℕ} (hsame : ∀ chunks, Chunking bytes chunks → captured chunks = wholeOutput bytes)
include hsame

/-- Where the cut fills the room, behind a piece of several bytes only replacement characters are kept. -/
theorem replaced_kept {alone kept rest : List Piece} {p : Piece}
    (hpieces : pieces bytes = alone ++ (p :: kept) ++ rest) (htwo : 2 ≤ p.bytes.length)
    (hlarge : maxOutputBytes < size (decode bytes))
    (hcut : truncateUtf8 (decode bytes) maxOutputBytes = chars (alone ++ p :: kept))
    (hfull : size (chars (alone ++ p :: kept)) = maxOutputBytes) : Replaced (p :: kept) := by
  rw [List.append_assoc, List.cons_append] at hpieces
  obtain ⟨xs, ys, strays, rfl, hxs, hys, hstrays, -, hbefore, hafter, hsmall, hhigh⟩ := cut_sizes hpieces htwo
  have hpositive := List.length_pos_iff.mpr hstrays
  have hwhole : wholeOutput (xs ++ ys) = chars alone ++ p.char :: chars kept ++ truncationNotice := by
    rw [wholeOutput, if_neg (by omega), hcut, chars_append]
    rfl
  have hcaptured := hsame ([xs] ++ [ys]) ⟨by simp [hxs, hys], by simp⟩
  have hone : texts [xs] = decode xs := by simp [texts]
  rw [hwhole] at hcaptured
  have hsize : size (chars alone) + ((scalarBytes p.char).length + size (chars kept)) = maxOutputBytes := by
    rw [← hfull, chars_append, size_append]
    exact congrArg _ (size_cons _ _).symm
  by_cases hfits : size (decode xs) ≤ maxOutputBytes
  · have htexts : texts ([xs] ++ [ys]) =
        chars alone ++
            (replacement :: (List.replicate strays.length replacement ++ (chars kept ++ chars rest))) := by
      rw [texts_snoc, hone, hbefore, hafter, chars_append, List.append_assoc]
      rfl
    have hover : maxOutputBytes < size (texts ([xs] ++ [ys])) := by
      have hsplit : decode (xs ++ ys) = chars alone ++ p.char :: (chars kept ++ chars rest) := by
        rw [decode, hpieces, ← chars_append]
        exact List.map_append
      rw [hsplit, size_append, size_cons] at hlarge
      rw [htexts, size_append, size_cons, size_append, size_replicate, size_replacement]
      omega
    rw [captured_last (by rw [hone]; exact hfits), if_neg (by omega)] at hcaptured
    have hsplit : truncateUtf8 (texts ([xs] ++ [ys])) maxOutputBytes = chars alone ++ p.char :: chars kept :=
      List.append_cancel_right hcaptured
    obtain ⟨kept', c, more, hmore, -, -, hkept'⟩ := too_large hover
    rw [← hkept', hsplit, htexts, List.append_assoc, List.append_cancel_left_eq] at hmore
    obtain ⟨hchar, hrest⟩ := List.cons.inj hmore
    have hshifted := shifted hpositive hrest.symm
    intro q hq
    rcases List.mem_cons.mp hq with rfl | hq
    · exact hchar.symm
    · exact hshifted q.char (List.mem_map_of_mem hq)
  · have hover : maxOutputBytes < size (decode xs) := by omega
    rw [captured_later (by rw [hone]; exact hover), hone] at hcaptured
    have hfilled := List.append_cancel_right hcaptured
    have hroom : truncateUtf8 (decode xs) maxOutputBytes = chars alone := by
      rw [hbefore, size_append, size_cons, size_nil] at hover
      rw [hbefore]
      exact truncate_eq (by omega) (by omega)
    rw [filled, hroom, List.append_cancel_left_eq] at hfilled
    have hnotice : p.char ∈ truncationNotice := by
      refine List.mem_of_mem_take (i := maxOutputBytes - size (chars alone)) ?_
      rw [hfilled]
      exact List.mem_cons_self
    have hlow := notice_ascii _ hnotice
    omega

theorem steady_needed : Steady bytes := by
  by_cases hfits : size (decode bytes) ≤ maxOutputBytes
  · refine .inl ⟨alone_small hsame hfits, ?_⟩
    have hsplit : decode bytes = (decode bytes).dropLast ++
        (decode bytes).drop ((decode bytes).length - 1) := by
      rw [List.dropLast_eq_take, List.take_append_drop]
    rw [hsplit, size_append] at hfits
    omega
  · have hlarge : maxOutputBytes < size (decode bytes) := by omega
    obtain ⟨kept, c, rest, hdecode, hroom, -, hcut⟩ := too_large hlarge
    by_cases hshort : size kept < maxOutputBytes
    · rw [← hcut] at hshort
      exact .inl ⟨alone_short hsame hlarge hshort, last_short hsame hlarge hshort⟩
    · obtain ⟨ps, qs, hpieces, hps, hqs⟩ := List.map_eq_append_iff.mp hdecode
      have hsplit : ps.takeWhile (fun p => p.bytes.length < 2) ++
          ps.dropWhile (fun p => p.bytes.length < 2) = ps :=
        List.takeWhile_append_dropWhile
      have halone : Alone (ps.takeWhile fun p => p.bytes.length < 2) := by
        intro p hp
        simpa using List.mem_takeWhile_imp hp
      refine .inr ⟨_, _, qs, by rw [hsplit, hpieces], ?_, halone, ?_, ?_⟩
      · rintro rfl
        cases hqs
      · cases hdrop : ps.dropWhile fun p => p.bytes.length < 2 with
        | nil => simp [Replaced]
        | cons p ps' =>
          have htwo : 2 ≤ p.bytes.length := by
            have hhead := List.head?_dropWhile_not (fun p : Piece => decide (p.bytes.length < 2)) ps
            rw [hdrop] at hhead
            exact Nat.le_of_not_lt (of_decide_eq_false hhead)
          rw [hdrop] at hsplit
          have hkept : chars (ps.takeWhile (fun p => p.bytes.length < 2) ++ p :: ps') = kept := by
            rw [hsplit, ← hps]; rfl
          exact replaced_kept hsame (by rw [hsplit, hpieces]) htwo hlarge (by rw [hkept, hcut])
            (by rw [hkept]; omega)
      · have hkept : chars ps = kept := hps
        rw [hsplit, hkept]
        omega

end Results

theorem isWhole_iff (bytes : List ℕ) (text : Text) : IsWhole bytes text ↔ text = wholeOutput bytes := by
  by_cases hfits : size (decode bytes) ≤ maxOutputBytes
  · rw [wholeOutput, if_pos hfits]
    constructor
    · rintro (⟨-, htext⟩ | ⟨kept, c, rest, hdecode, -, hnext, -⟩)
      · exact htext
      · rw [hdecode, size_append, size_cons] at hfits
        rw [size_append, size_cons, size_nil] at hnext
        omega
    · exact fun htext => .inl ⟨hfits, htext⟩
  · rw [wholeOutput, if_neg hfits]
    constructor
    · rintro (⟨h, -⟩ | ⟨kept, c, rest, hdecode, hroom, hnext, rfl⟩)
      · exact absurd h hfits
      · rw [size_append, size_cons, size_nil] at hnext
        rw [hdecode, truncate_eq hroom (by omega)]
    · rintro rfl
      obtain ⟨kept, c, rest, hdecode, hroom, hnext, hcut⟩ := too_large (Nat.lt_of_not_le hfits)
      refine .inr ⟨kept, c, rest, hdecode, hroom, ?_, by rw [hcut]⟩
      rw [size_append, size_cons, size_nil]
      omega

theorem captured_iff (bytes : List ℕ) :
    (∀ chunks, Chunking bytes chunks → IsWhole bytes (captured chunks)) ↔ Steady bytes := by
  simp only [isWhole_iff]
  constructor
  · exact steady_needed
  · rintro (⟨halone, hlast⟩ | ⟨alone, replaced, rest, hpieces, hrest, halone, hreplaced, hsize⟩)
      chunks hchunks
    · exact steady_alone halone hlast hchunks
    · exact steady_replaced hpieces hrest halone hreplaced hsize hchunks.whole

theorem split_character : Chunking [0xc3, 0xa9] [[0xc3], [0xa9]] ∧
    ¬ IsWhole [0xc3, 0xa9] (captured [[0xc3], [0xa9]]) ∧
    Chunking [0xc3, 0xa9] [[0xc3, 0xa9]] ∧ captured [[0xc3, 0xa9]] ≠ captured [[0xc3], [0xa9]] := by
  refine ⟨⟨by decide, rfl⟩, ?_, ⟨by decide, rfl⟩, by decide⟩
  rw [isWhole_iff]
  decide

end AccessStack.Shell.Capture
