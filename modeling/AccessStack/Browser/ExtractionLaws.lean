import AccessStack.Browser.Extraction

/-!
# What an extraction keeps

A merge keeps both of its texts, and a cut keeps all that fits. A cut that
leaves no gap below the limit fills it, so the extraction notices; a complete
one has cut nothing unless a cut left a gap.
-/

set_option autoImplicit false

namespace AccessStack.Extraction
open AccessStack.Units

section Cuts

theorem fits_mono (value : List UInt16) (maxBytes : ℕ) (m n : ℕ) (hmn : m ≤ n)
    (h : decide (byteLength (value.take n) ≤ maxBytes) = true) :
    decide (byteLength (value.take m) ≤ maxBytes) = true := by
  rw [decide_eq_true_eq] at h ⊢
  exact (byteLength_initial (List.take_prefix_take_left hmn)).trans h

theorem truncateString_self {value : List UInt16} {maxBytes : ℕ} (h : byteLength value ≤ maxBytes) :
    truncateString value maxBytes = value := if_pos h

theorem truncateString_last (value : List UInt16) (maxBytes : ℕ) :
    ∃ n, truncateString value maxBytes = value.take n ∧
    byteLength (value.take n) ≤ maxBytes ∧ ∀ m, byteLength (value.take m) ≤ maxBytes →
    value.take m <+: value.take n := by
  unfold truncateString
  split_ifs with hfits
  · exact ⟨value.length, by rw [List.take_length], by rwa [List.take_length], fun m _ => by
      rw [List.take_length]
      exact List.take_prefix m value⟩
  · obtain ⟨hbound, hfits, hlast⟩ :=
      bisect_last (fits_mono value maxBytes) value.length 0 value.length (by omega)
      (Nat.zero_le _) (by simp [byteLength, byteLengthAfter])
    refine ⟨_, rfl, of_decide_eq_true hfits, ?_⟩
    intro m hm
    by_cases hmn : m ≤ value.length
    · exact List.take_prefix_take_left (hlast m hmn (decide_eq_true hm))
    · rw [List.take_of_length_le (by omega)] at hm
      exact absurd hm (by assumption)

theorem truncateString_fits (value : List UInt16) (maxBytes : ℕ) :
    byteLength (truncateString value maxBytes) ≤ maxBytes := by
  obtain ⟨n, heq, hfits, _⟩ := truncateString_last value maxBytes
  rw [heq]
  exact hfits

/-- A beginning that fits is kept. -/
theorem truncateString_keeps {part value : List UInt16} {maxBytes : ℕ} (hpart : part <+: value)
    (hfits : byteLength part ≤ maxBytes) : part <+: truncateString value maxBytes := by
  obtain ⟨n, heq, _, hlast⟩ := truncateString_last value maxBytes
  rw [heq, List.prefix_iff_eq_take.mp hpart]
  apply hlast
  rwa [← List.prefix_iff_eq_take.mp hpart]

end Cuts

section Merges

/-- A merge keeps what was merged before at its front, and the next text. -/
theorem mergeOrderedText_keeps (current next : List UInt16) :
    current <+: mergeOrderedText current next ∧ next <:+: mergeOrderedText current next := by
  unfold mergeOrderedText
  split_ifs with hempty hsame hstarts hends
  · subst hempty
    exact ⟨List.nil_prefix, List.infix_refl next⟩
  · rcases hsame with rfl | rfl
    · exact ⟨List.prefix_refl current, List.nil_infix⟩
    · exact ⟨List.prefix_refl current, List.infix_refl current⟩
  · exact ⟨hstarts, List.infix_refl next⟩
  · exact ⟨List.prefix_refl current, hends.isInfix⟩
  · dsimp only
    split
    · rename_i n hn
      have hoverlap := List.find?_some hn
      simp only [overlaps, decide_eq_true_eq] at hoverlap
      constructor
      · have hprefix :=
          intercalate_prefix [newline] (current.splitOn newline) ((next.splitOn newline).drop (n + 1))
        rwa [List.intercalate_splitOn] at hprefix
      · have hlines : current.splitOn newline ++ (next.splitOn newline).drop (n + 1) =
            (current.splitOn newline).take ((current.splitOn newline).length - (n + 1)) ++
                next.splitOn newline := by
          conv_rhs => rw [← List.take_append_drop (n + 1)
            (next.splitOn newline), ← hoverlap, ← List.append_assoc, List.take_append_drop]
        have hsuffix := intercalate_suffix [newline]
          ((current.splitOn newline).take ((current.splitOn newline).length - (n + 1))) (next.splitOn newline)
        rw [← hlines, List.intercalate_splitOn] at hsuffix
        exact hsuffix.isInfix
    · exact ⟨List.prefix_append _ _,
        (List.suffix_cons newline next).isInfix.trans (List.suffix_append current (newline::next)).isInfix⟩

end Merges

section Pages

/-- The text of a page under a limit, from what is merged so far. -/
def mergeReads (limit : ℕ) (current : List UInt16) : List (List UInt16) → List UInt16
  | [] => current
  | sample::rest =>
    mergeReads limit (truncateString (mergeOrderedText current (truncateString sample limit)) limit) rest

def pageText (limit : ℕ) : List (List UInt16) → List UInt16
  | [] => []
  | first::rest => mergeReads limit (truncateString first limit) rest

/-- What is cut to the limit while the reads are merged. -/
def mergeCuts (limit : ℕ) (current : List UInt16) : List (List UInt16) → List (List UInt16)
  | [] => []
  | sample::rest =>
    sample :: mergeOrderedText current (truncateString sample limit) ::
      mergeCuts limit (truncateString (mergeOrderedText current (truncateString sample limit)) limit) rest

def pageCuts (limit : ℕ) : List (List UInt16) → List (List UInt16)
  | [] => []
  | first::rest => first :: mergeCuts limit (truncateString first limit) rest

/-- The cut leaves no gap below the limit. -/
def Gapless (value : List UInt16) (limit : ℕ) : Prop :=
  byteLength value ≤ limit ∨ byteLength (truncateString value limit) = limit

instance (value : List UInt16) (limit : ℕ) : Decidable (Gapless value limit) :=
  inferInstanceAs (Decidable (_ ∨ _))

theorem mergeReads_keeps {limit : ℕ} (rest : List (List UInt16)) (current : List UInt16)
    (h : byteLength current ≤ limit) : current <+: mergeReads limit current rest := by
  induction rest generalizing current with
  | nil => exact List.prefix_refl current
  | cons sample rest ih =>
    have hkeep := truncateString_keeps (mergeOrderedText_keeps current (truncateString sample limit)).1 h
    exact hkeep.trans (ih _ (truncateString_fits _ limit))

theorem mergeReads_append (limit : ℕ) (current : List UInt16) (reads : List (List UInt16))
    (sample : List UInt16) :
    mergeReads limit current (reads ++ [sample]) =
      truncateString
        (mergeOrderedText (mergeReads limit current reads) (truncateString sample limit)) limit := by
  induction reads generalizing current with
  | nil => rfl
  | cons read reads ih => exact ih _

theorem pageText_append (limit : ℕ) {reads : List (List UInt16)} (h : reads ≠ []) (sample : List UInt16) :
    pageText limit (reads ++ [sample]) =
      truncateString (mergeOrderedText (pageText limit reads) (truncateString sample limit)) limit := by
  cases reads with
  | nil => exact absurd rfl h
  | cons first rest => exact mergeReads_append limit _ rest sample

/-- Below the limit, cuts without gaps have cut nothing. -/
theorem mergeCuts_whole {limit : ℕ} (rest : List (List UInt16)) (current : List UInt16)
    (hgapless : ∀ value ∈ mergeCuts limit current rest, Gapless value limit)
    (hbelow : byteLength (mergeReads limit current rest) < limit) :
    ∀ value ∈ mergeCuts limit current rest, byteLength value ≤ limit := by
  induction rest generalizing current with
  | nil =>
    intro value hvalue
    cases hvalue
  | cons sample rest ih =>
    simp only [mergeCuts, List.forall_mem_cons] at hgapless ⊢
    obtain ⟨hsample, hmerged, hrest⟩ := hgapless
    have hfinal := byteLength_initial (mergeReads_keeps rest _
      (truncateString_fits (mergeOrderedText current (truncateString sample limit)) limit))
    rw [mergeReads] at hbelow
    have hmerged : byteLength (mergeOrderedText current (truncateString sample limit)) ≤ limit := by
      rcases hmerged with hfits | hfull
      · exact hfits
      · omega
    rw [truncateString_self hmerged] at hfinal
    refine ⟨?_, hmerged, ih _ hrest hbelow⟩
    rcases hsample with hfits | hfull
    · exact hfits
    · have hinfix := byteLength_infix (mergeOrderedText_keeps current (truncateString sample limit)).2
      rw [truncateString_self hmerged] at hbelow
      omega

theorem pageCuts_whole {limit : ℕ} (reads : List (List UInt16))
    (hgapless : ∀ value ∈ pageCuts limit reads, Gapless value limit)
    (hbelow : byteLength (pageText limit reads) < limit) :
    ∀ value ∈ pageCuts limit reads, byteLength value ≤ limit := by
  cases reads with
  | nil =>
    intro value hvalue
    cases hvalue
  | cons first rest =>
    simp only [pageCuts, List.forall_mem_cons] at hgapless ⊢
    refine ⟨?_, mergeCuts_whole rest _ hgapless.2 hbelow⟩
    rcases hgapless.1 with hfits | hfull
    · exact hfits
    · have hfinal := byteLength_initial (mergeReads_keeps rest _ (truncateString_fits first limit))
      rw [pageText] at hbelow
      omega

/-- Where nothing is cut, the text of a page has every read in it. -/
theorem mergeReads_contains {limit : ℕ} (rest : List (List UInt16)) (current : List UInt16)
    (hwhole : ∀ value ∈ mergeCuts limit current rest, byteLength value ≤ limit) :
    ∀ read ∈ rest, read <:+: mergeReads limit current rest := by
  induction rest generalizing current with
  | nil =>
    intro read hread
    cases hread
  | cons sample rest ih =>
    simp only [mergeCuts, List.forall_mem_cons] at hwhole
    obtain ⟨hsample, hmerged, hrest⟩ := hwhole
    rw [truncateString_self hsample] at hmerged hrest
    rw [truncateString_self hmerged] at hrest
    rw [mergeReads, truncateString_self hsample, truncateString_self hmerged]
    intro read hread
    rcases List.mem_cons.mp hread with rfl | hread
    · exact (mergeOrderedText_keeps current read).2.trans (mergeReads_keeps rest _ hmerged).isInfix
    · exact ih _ hrest read hread

theorem pageText_contains {limit : ℕ} (reads : List (List UInt16))
    (hwhole : ∀ value ∈ pageCuts limit reads, byteLength value ≤ limit) :
    ∀ read ∈ reads, read <:+: pageText limit reads := by
  cases reads with
  | nil =>
    intro read hread
    cases hread
  | cons first rest =>
    simp only [pageCuts, List.forall_mem_cons] at hwhole
    intro read hread
    rcases List.mem_cons.mp hread with rfl | hread
    · have hkeep := mergeReads_keeps rest _ (truncateString_fits read limit)
      rw [truncateString_self hwhole.1] at hkeep
      rw [pageText, truncateString_self hwhole.1]
      exact hkeep.isInfix
    · exact mergeReads_contains rest _ hwhole.2 read hread

end Pages

end AccessStack.Extraction
