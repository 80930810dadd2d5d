import AccessStack.Browser.ExtractionRuns

/-!
# The byte limit of an extraction

A text is cut to its UTF-8 bytes, and the answer reports the bytes of its
value. A record is cut by the UTF-8 bytes of its text, but it has the bytes of
its JSON text, where quotation marks, backslashes, control characters and
halves of characters take more.
-/

set_option autoImplicit false

namespace AccessStack.Extraction
open AccessStack.Units

section Records

/-- A record has what its other fields take, and its text as it is escaped. -/
theorem recordBytes_text (r : TextRecord) (text : List UInt16) :
    recordBytes { r with text } = overhead r + escapedBytes text := by
  simp only [overhead, recordBytes, escapedBytes]
  omega

/-- The record that is cut last, from the values that were read under a limit. -/
def mergeRecords (limit : ℕ) (current : Value) : List Value → Value
  | [] => current
  | sample::rest =>
    mergeRecords limit
      (mergeWithinPage (truncateValue current .json limit) (truncateValue sample .json limit) .json) rest

def lastCut (limit : ℕ) : List Value → Value
  | [] => .other true 0
  | first::rest => mergeRecords limit first rest

theorem mergeRecords_append (limit : ℕ) (values : List Value) (current sample : Value) :
    mergeRecords limit current (values ++ [sample]) = mergeWithinPage
      (truncateValue (mergeRecords limit current values) .json limit)
      (truncateValue sample .json limit) .json := by
  induction values generalizing current with
  | nil => rfl
  | cons value values ih => exact ih _

theorem lastCut_append (limit : ℕ) {values : List Value} (h : values ≠ []) (sample : Value) :
    lastCut limit (values ++ [sample]) = mergeWithinPage
      (truncateValue (lastCut limit values) .json limit) (truncateValue sample .json limit) .json := by
  cases values with
  | nil => exact absurd rfl h
  | cons first rest => exact mergeRecords_append limit rest first sample

/-- Records are merged into records. -/
theorem lastCut_record (limit : ℕ) {values : List Value} (h : values ≠ [])
    (hrecords : ∀ v ∈ values, ∃ r, v = .record r) :
    ∃ r, lastCut limit values = .record r := by
  cases values with
  | nil => exact absurd rfl h
  | cons first rest =>
    simp only [List.forall_mem_cons] at hrecords
    obtain ⟨⟨r, rfl⟩, hrest⟩ := hrecords
    show ∃ r', mergeRecords limit (.record r) rest = .record r'
    clear h
    induction rest generalizing r with
    | nil => exact ⟨r, rfl⟩
    | cons sample rest ih =>
      simp only [List.forall_mem_cons] at hrest
      obtain ⟨⟨q, rfl⟩, hrest⟩ := hrest
      exact ih hrest _

/-- What is kept of the text, with the bytes its escapes take, fits beside the
other fields. -/
def EscapesFit (maxBytes : ℕ) (value : Value) : Prop :=
  ∀ r, value = .record r →
    overhead r + escapedBytes (truncateString r.text (max 1 (maxBytes - overhead r))) ≤ maxBytes

theorem truncate_record (maxBytes : ℕ) (r : TextRecord) :
    valueBytes (truncateValue (.record r) .json maxBytes) =
      overhead r + escapedBytes (truncateString r.text (max 1 (maxBytes - overhead r))) :=
        recordBytes_text r _

theorem escapedUnit_half {u : UInt16} (h : (isHigh u || isLow u) = true) : escapedUnit u = 6 := by
  unfold escapedUnit
  split_ifs with hquote hshort
  · rcases hquote with rfl | rfl <;> exact absurd h (by decide)
  · rcases hshort with rfl | rfl | rfl | rfl | rfl <;> exact absurd h (by decide)
  · rfl
  · rfl

/-- No unit of the text is escaped, so none is a half of a pair. -/
theorem escapedBytes_plain {us : List UInt16} (hplain : ∀ u ∈ us, escapedUnit u = unitBytes u) (high : Bool) :
    escapedBytes us = byteLengthAfter high us := by
  have hhalf : ∀ u : UInt16, escapedUnit u = unitBytes u → isHigh u = false ∧ isLow u = false := by
    intro u hu
    rw [← Bool.or_eq_false_iff, ← Bool.not_eq_true]
    intro h
    have hsix := escapedUnit_half h
    have hthree : unitBytes u ≤ 3 := by
      unfold unitBytes
      split_ifs <;> decide
    omega
  induction us generalizing high with
  | nil => rfl
  | cons u us ih =>
    simp only [List.forall_mem_cons] at hplain
    obtain ⟨hu, hrest⟩ := hplain
    obtain ⟨hhigh, hlow⟩ := hhalf u hu
    rw [byteLengthAfter, hlow, Bool.and_false, if_neg Bool.false_ne_true, ← ih hrest, ← hu]
    cases us with
    | nil => rfl
    | cons v us => rw [escapedBytes, hhigh, Bool.false_and, if_neg Bool.false_ne_true]

/-- A record without escapes fits beside the rest of it, in particular the one
that was read where a page has been read once. -/
theorem escapesFit_plain {maxBytes : ℕ} {r : TextRecord} (hplain : ∀ u ∈ r.text, escapedUnit u = unitBytes u)
    (hbelow : overhead r < maxBytes) : EscapesFit maxBytes (.record r) := by
  rintro _ ⟨⟩
  obtain ⟨n, hcut, hfits, -⟩ := truncateString_last r.text (max 1 (maxBytes - overhead r))
  have hbytes : escapedBytes (r.text.take n) = byteLength (r.text.take n) :=
    escapedBytes_plain (fun u hu => hplain u (List.mem_of_mem_take hu)) false
  rw [hcut, hbytes]
  omega

/-- A record that was cut is not cut again. -/
theorem truncate_again (maxBytes : ℕ) (r : TextRecord) :
    truncateValue (truncateValue (.record r) .json maxBytes) .json maxBytes =
      truncateValue (.record r) .json maxBytes := by
  have hfits := truncateString_fits r.text (max 1 (maxBytes - overhead r))
  have hsame : overhead { r with text := truncateString r.text (max 1 (maxBytes - overhead r)) } =
    overhead r := rfl
  simp only [truncateValue, hsame]
  rw [truncateString_self hfits]

end Records

section Strings

/-- What is combined from strings is a string. -/
theorem combinePages_isString {values : List Value} {format : BrowserExtractionFormat}
    (hformat : format ≠ .json) (h : ∀ v ∈ values, ∃ text, v = .string text) :
    ∃ text, combinePages values format = .string text := by
  match values with
  | [] => exact ⟨[], by simp [combinePages, hformat]⟩
  | [value] =>
    obtain ⟨text, rfl⟩ := h value List.mem_cons_self
    exact ⟨text, rfl⟩
  | first::second::rest =>
    unfold combinePages
    dsimp only
    split
    · exact ⟨_, rfl⟩
    · exact h _ (List.getLast_mem _)

theorem truncate_string {format : BrowserExtractionFormat} (hformat : format ≠ .json)
    (text : List UInt16) (maxBytes : ℕ) :
    truncateValue (.string text) format maxBytes = .string (truncateString text maxBytes) := by
  cases format with
  | text => rfl
  | html => rfl
  | json => exact absurd rfl hformat

theorem merge_string {format : BrowserExtractionFormat} (hformat : format ≠ .json)
    (current next : List UInt16) :
    ∃ text, mergeWithinPage (.string current) (.string next) format = .string text := by
  cases format with
  | text => exact ⟨_, rfl⟩
  | html => exact ⟨_, rfl⟩
  | json => exact absurd rfl hformat

end Strings

section Bytes

variable {N : Type} [Add N] [Sub N] [NatCast N] [LE N] [LT N] [DecidableLE N] [DecidableLT N]
  {request : BrowserExtractionCompletenessRequest} {environment : Environment N} {visit : Visit N}
  {answer : BrowserCompletedExtraction} {looks : List (List (Look N))}

theorem positiveInteger_pos (value : Option ℚ) : 1 ≤ positiveInteger value 1 := by
  cases value with
  | none => exact Nat.le_refl 1
  | some value => exact Nat.le_max_left _ _

/-- The limit in whole bytes. -/
theorem positiveInteger_le {v : ℚ} (hv : 1 ≤ v) (n : ℕ) : n ≤ positiveInteger (some v) 1 ↔ (n : ℚ) ≤ v := by
  have hfloor : 1 ≤ ⌊v⌋ := Int.le_floor.mpr (by exact_mod_cast hv)
  have hlimit : positiveInteger (some v) 1 = ⌊v⌋.toNat := by
    simp only [positiveInteger]
    omega
  rw [hlimit, Int.le_toNat (by omega), Int.le_floor]
  norm_cast

/-- The answers for texts are combined from strings. -/
theorem pageLoop_strings (hformat : request.format ≠ .json)
    (hstrings : ∀ n, ∃ text, (environment.look n).value = .string text) (left tick scrollsLeft : ℕ)
    (visit : Visit N) (hvisit : ∀ v ∈ visit.pageValues, ∃ text, v = .string text)
    (h : pageLoop request environment tick scrollsLeft left visit = some (answer, looks)) :
    ∃ values status reason pages scrolls available, (∀ v ∈ values, ∃ text, v = .string text) ∧
      answer = result request values status reason pages scrolls available := by
  induction left generalizing tick scrollsLeft visit with
  | zero =>
    cases h
    exact ⟨_, _, _, _, _, _, hvisit, rfl⟩
  | succ left ih =>
    have hpages : ∀ page', page' = firstPage request visit (environment.look tick) ∨
        (scrollLoop request environment visit.totalBytes tick scrollsLeft
          (firstPage request visit (environment.look tick))).page = some page' →
        ∀ v ∈ visit.pageValues ++ [page'.value], ∃ text, v = .string text := by
      have hfirst : ∃ text, (firstPage request visit (environment.look tick)).value = .string text := by
        obtain ⟨text, htext⟩ := hstrings tick
        simp only [firstPage]
        rw [htext, truncate_string hformat]
        exact ⟨_, rfl⟩
      intro page' hpage
      have hvalue : ∃ text, page'.value = .string text := by
        rcases hpage with rfl | hpage
        · exact hfirst
        · refine scrollLoop_page (P := fun page => ∃ text, page.value = .string text) ?_ scrollsLeft
            _ page' hfirst hpage
          rintro page ⟨text, hpage⟩
          obtain ⟨next, hnext⟩ := hstrings (tick + page.looks.length)
          obtain ⟨merged, hmerged⟩ := merge_string hformat text
            (truncateString next (remainingBytes (positiveInteger request.maxBytes 1) visit.totalBytes))
          simp only [Page.merge]
          rw [hpage, hnext, truncate_string hformat, hmerged, truncate_string hformat]
          exact ⟨_, rfl⟩
      intro v hv
      rcases List.mem_append.mp hv with hv | hv
      · exact hvisit v hv
      · rw [List.mem_singleton] at hv
        exact hv ▸ hvalue
    rcases pageLoop_cases h with ⟨page, reason, hpage, rfl, _⟩ | ⟨_, page, hended, hcase⟩
    · refine ⟨_, _, _, _, _, _, hpages page ?_, rfl⟩
      rcases hpage with rfl | hstopped
      · exact .inl rfl
      · rw [hstopped]
        exact .inr rfl
    · have hpage := hpages page (.inr (by rw [hended]; rfl))
      rcases hcase with ⟨status, reason, available, _, rfl, _⟩ | ⟨_, urls, signatures, hnext⟩
      · exact ⟨_, _, _, _, _, _, hpage, rfl⟩
      · exact ih _ _ { visit.push page with visitedNextUrls := urls,
                                            visitedPageSignatures := signatures } hpage hnext

/-- The answer for records comes from one page. -/
theorem pageLoop_records (hformat : request.format = .json)
    (hrecords : ∀ n, ∃ r, (environment.look n).value = .record r) (left scrollsLeft : ℕ)
    (h : pageLoop request environment 0 scrollsLeft (left + 1) ⟨0, 0, 0, [], [], [], []⟩ =
      some (answer, looks)) :
    ∃ (page : List (Look N)) (status : Status) (reason : Reason) (pages scrolls : ℕ) (available : Bool),
      looks = [page] ∧ page ≠ [] ∧ (∀ look ∈ page, ∃ r, look.value = .record r) ∧
      answer = result request
        [truncateValue (lastCut (positiveInteger request.maxBytes 1) (page.map (·.value))) .json
        (positiveInteger request.maxBytes 1)] status reason pages scrolls available := by
  have hlimit : remainingBytes (positiveInteger request.maxBytes 1) 0 =
      positiveInteger request.maxBytes 1 := by
    have hpos := positiveInteger_pos request.maxBytes
    unfold remainingBytes
    omega
  have hpages : ∀ page' : Page N, page' = firstPage request ⟨0, 0, 0, [], [], [], []⟩ (environment.look 0) ∨
      (scrollLoop request environment 0 0 scrollsLeft
        (firstPage request ⟨0, 0, 0, [], [], [], []⟩ (environment.look 0))).page = some page' →
      page'.looks ≠ [] ∧ (∀ look ∈ page'.looks, ∃ r, look.value = .record r) ∧
        page'.value =
          truncateValue (lastCut (positiveInteger request.maxBytes 1) (page'.looks.map (·.value))) .json
          (positiveInteger request.maxBytes 1) := by
    have hfirst : (firstPage request (⟨0, 0, 0, [], [], [], []⟩ : Visit N) (environment.look 0)).value =
        truncateValue (environment.look 0).value .json (positiveInteger request.maxBytes 1) := by
      simp only [firstPage]
      rw [hlimit, hformat]
    have hbegun : ∀ look ∈ [environment.look 0], ∃ r, look.value = .record r := by
      intro look hlook
      rw [List.mem_singleton] at hlook
      exact hlook ▸ hrecords 0
    intro page' hpage
    rcases hpage with rfl | hpage
    · exact ⟨List.cons_ne_nil _ _, hbegun, hfirst⟩
    · refine scrollLoop_page
        (P := fun page => page.looks ≠ [] ∧ (∀ look ∈ page.looks, ∃ r, look.value = .record r) ∧
        page.value =
          truncateValue (lastCut (positiveInteger request.maxBytes 1) (page.looks.map (·.value))) .json
          (positiveInteger request.maxBytes 1)) ?_ scrollsLeft _ page'
            ⟨List.cons_ne_nil _ _, hbegun, hfirst⟩ hpage
      rintro page ⟨hlooks, hall, hvalue⟩
      refine ⟨by simp [Page.merge], ?_, ?_⟩
      · intro look hlook
        rcases List.mem_append.mp hlook with hlook | hlook
        · exact hall look hlook
        · rw [List.mem_singleton] at hlook
          exact hlook ▸ hrecords _
      · simp only [Page.merge]
        rw [List.map_append, List.map_singleton, lastCut_append _ (by simpa using hlooks), ← hvalue,
          hlimit, hformat]
  rcases pageLoop_cases h with ⟨page, reason, hpage, rfl, rfl⟩ | ⟨_, page, hended, hcase⟩
  · have hpage : page = firstPage request ⟨0, 0, 0, [], [], [], []⟩ (environment.look 0) ∨
        (scrollLoop request environment 0 0 scrollsLeft
          (firstPage request ⟨0, 0, 0, [], [], [], []⟩ (environment.look 0))).page = some page := by
      rcases hpage with rfl | hstopped
      · exact .inl rfl
      · right
        rw [hstopped]
        rfl
    obtain ⟨hlooks, hall, hvalue⟩ := hpages page hpage
    exact ⟨page.looks, _, _, _, _, _, rfl, hlooks, hall, by rw [← hvalue]; rfl⟩
  · obtain ⟨hlooks, hall, hvalue⟩ := hpages page (.inr (by rw [hended]; rfl))
    rcases hcase with ⟨status, reason, available, _, rfl, rfl⟩ | ⟨htext, _⟩
    · exact ⟨page.looks, _, _, _, _, _, rfl, hlooks, hall, by rw [← hvalue]; rfl⟩
    · rw [hformat] at htext
      cases htext

/-- A read is of the kind that the format asks for. -/
def Shaped (format : BrowserExtractionFormat) (value : Value) : Prop :=
  if format = .json then ∃ r, value = .record r else ∃ text, value = .string text

/-- The reported bytes are those of the value. They keep to the limit unless
the format is JSON and the escapes of the record that is cut last do not fit. -/
theorem extract_bytes_iff (request : BrowserExtractionCompletenessRequest) (environment : Environment N)
    (answer : BrowserCompletedExtraction) (looks : List (List (Look N))) (maxBytes : ℚ)
    (hmax : request.maxBytes = some maxBytes) (hone : 1 ≤ maxBytes)
    (hshaped : ∀ n, Shaped request.format (environment.look n).value)
    (h : extract request environment = some (answer, looks)) :
    answer.completeness.bytes = valueBytes answer.value ∧
      ((valueBytes answer.value : ℚ) ≤ maxBytes ↔ (request.format = .json → ∀ page ∈ looks,
        EscapesFit (positiveInteger request.maxBytes 1)
          (lastCut (positiveInteger request.maxBytes 1) (page.map (·.value))))) := by
  rw [← positiveInteger_le hone, ← hmax]
  have hpages : positiveInteger request.maxPages 1 = positiveInteger request.maxPages 1 - 1 + 1 := by
    have hpos := positiveInteger_pos request.maxPages
    omega
  by_cases hformat : request.format = .json
  · have hrecords : ∀ n, ∃ r, (environment.look n).value = .record r := by
      intro n
      have hvalue := hshaped n
      rwa [Shaped, if_pos hformat] at hvalue
    obtain ⟨page, hlooks, hbegun, hall, hbytes, hvalue⟩ : ∃ page : List (Look N), looks = [page] ∧ page ≠ [] ∧
        (∀ look ∈ page, ∃ r, look.value = .record r) ∧ answer.completeness.bytes = valueBytes answer.value ∧
        answer.value = truncateValue (lastCut (positiveInteger request.maxBytes 1) (page.map (·.value))) .json
          (positiveInteger request.maxBytes 1) := by
      unfold extract at h
      dsimp only at h
      split at h
      · split at h
        · cases h
        · cases h
          refine ⟨[environment.look 0], rfl, List.cons_ne_nil _ _, ?_, rfl, ?_⟩
          · intro look hlook
            rw [List.mem_singleton] at hlook
            exact hlook ▸ hrecords 0
          · rw [hformat]
            rfl
      · rw [hpages] at h
        obtain ⟨page, status, reason, pages, scrolls, available, hlooks, hbegun, hall, rfl⟩ :=
          pageLoop_records hformat hrecords _ _ h
        refine ⟨page, hlooks, hbegun, hall, rfl, ?_⟩
        obtain ⟨r, hr⟩ := lastCut_record (positiveInteger request.maxBytes 1) (by simpa using hbegun)
          (by simpa using hall : ∀ v ∈ page.map (·.value), ∃ r, v = .record r)
        rw [hr]
        simp only [result, hformat]
        exact truncate_again _ r
    obtain ⟨r, hr⟩ := lastCut_record (positiveInteger request.maxBytes 1) (by simpa using hbegun)
      (by simpa using hall : ∀ v ∈ page.map (·.value), ∃ r, v = .record r)
    refine ⟨hbytes, ?_⟩
    rw [hvalue, hlooks, hr, truncate_record]
    simp [hformat, hr, EscapesFit]
  · have hstrings : ∀ n, ∃ text, (environment.look n).value = .string text := by
      intro n
      have hvalue := hshaped n
      rwa [Shaped, if_neg hformat] at hvalue
    obtain ⟨hbytes, text, hvalue⟩ : answer.completeness.bytes = valueBytes answer.value ∧
        ∃ text, answer.value = .string (truncateString text (positiveInteger request.maxBytes 1)) := by
      unfold extract at h
      dsimp only at h
      split at h
      · split at h
        · cases h
        · cases h
          obtain ⟨text, htext⟩ := hstrings 0
          exact ⟨rfl, text, by simp only; rw [htext, truncate_string hformat]⟩
      · obtain ⟨values, status, reason, pages, scrolls, available, hvalues, rfl⟩ :=
          pageLoop_strings hformat hstrings _ 0 _ _ (fun _ hv => absurd hv List.not_mem_nil) h
        obtain ⟨text, htext⟩ := combinePages_isString hformat hvalues
        refine ⟨rfl, text, ?_⟩
        simp only [result]
        rw [htext, truncate_string hformat]
    refine ⟨hbytes, fun _ hjson => absurd hjson hformat, fun _ => ?_⟩
    rw [hvalue]
    exact truncateString_fits text _

end Bytes

section Samples

/-- An object with nothing but a text. -/
def textPage (text : List UInt16) : Look ℤ :=
  ⟨false, 0, ⟨0, 100, 100, 4, "a", none⟩, .record ⟨text, []⟩, 0, true⟩

def recordRequest (maxBytes : ℚ) : BrowserExtractionCompletenessRequest where
  format := .json
  mode := .document
  maxScrolls := some 8
  maxPages := some 3
  maxBytes := some maxBytes
  timeoutMs := some 5000
  noProgressLimit := some 2

def recordEnvironment (text : List UInt16) : Environment ℤ := ⟨0, fun _ => textPage text, true⟩

/-- A page that is read twice, `ab` and after a scroll `abc`. -/
def mergedEnvironment : Environment ℤ where
  start := 0
  look n := ⟨false, 0, ⟨if n = 0 then 0 else 100, 100, 200, 4, "a", none⟩,
    .record ⟨if n = 0 then [97, 98] else [97, 98, 99], []⟩, 0, true⟩
  navigable := true

/-- The merged text has three bytes beside the eleven others. -/
theorem extract_bytes_sample : ∃ answer looks, extract (recordRequest 20) mergedEnvironment =
    some (answer, looks) ∧
    answer.completeness.bytes = 14 ∧ looks.map List.length = [2] ∧ (valueBytes answer.value : ℚ) ≤ 20 := by
  have hcall : (extract (recordRequest 20) mergedEnvironment).map (fun call =>
      (call.1.completeness.bytes, call.2.map List.length, call.2.map fun page => page.map (·.value))) =
      some (14, [2], [[.record ⟨[97, 98], []⟩, .record ⟨[97, 98, 99], []⟩]]) := by decide +kernel
  have hmerged : lastCut (positiveInteger (recordRequest 20).maxBytes 1)
      [.record ⟨[97, 98], []⟩, .record ⟨[97, 98, 99], []⟩] = .record ⟨[97, 98, 99], []⟩ := by decide +kernel
  obtain ⟨⟨answer, looks⟩, h, hread⟩ := Option.map_eq_some_iff.mp hcall
  simp only [Prod.mk.injEq] at hread
  obtain ⟨hbytes, hlengths, hvalues⟩ := hread
  refine ⟨answer, looks, h, hbytes, hlengths, ?_⟩
  refine (extract_bytes_iff (recordRequest 20) mergedEnvironment answer looks 20 rfl (by norm_num)
    (fun _ => ⟨_, rfl⟩) h).2.mpr ?_
  intro _ page hpage
  have hmem := List.mem_map_of_mem (f := fun page => page.map (·.value)) hpage
  rw [hvalues, List.mem_singleton] at hmem
  rw [hmem, hmerged]
  have hplain : ∀ u ∈ ([97, 98, 99] : List UInt16), escapedUnit u = unitBytes u := by
    intro u hu
    simp only [List.mem_cons, List.not_mem_nil, or_false] at hu
    rcases hu with rfl | rfl | rfl <;> decide
  exact escapesFit_plain hplain (by decide +kernel)

/-- Nine quotation marks fit beside the other eleven bytes until they are
escaped. -/
theorem escapes_over_limit : ∃ answer looks,
    extract (recordRequest 20) (recordEnvironment (List.replicate 9 34)) = some (answer, looks) ∧
    overhead ⟨[], []⟩ = 11 ∧ valueBytes answer.value = 29 ∧ ¬ (valueBytes answer.value : ℚ) ≤ 20 := by
  have hcall : (extract (recordRequest 20) (recordEnvironment (List.replicate 9 34))).map
      (fun call => valueBytes call.1.value) = some 29 := by decide +kernel
  obtain ⟨⟨answer, looks⟩, h, hbytes⟩ := Option.map_eq_some_iff.mp hcall
  have hbytes : valueBytes answer.value = 29 := hbytes
  refine ⟨answer, looks, h, rfl, hbytes, ?_⟩
  rw [hbytes]
  norm_num

end Samples

end AccessStack.Extraction
