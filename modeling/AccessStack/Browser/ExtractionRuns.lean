import AccessStack.Browser.ExtractionLaws

/-!
# Honest extractions

What a call answers, and what it has looked at when it answers. A call that
answers complete for a text has every read in its value, in the order of the
visits, exactly when each cut it made filled what was left of the limit.
-/

set_option autoImplicit false

namespace AccessStack.Extraction
open AccessStack.Units

section Answers

variable {N : Type} [Add N] [Sub N] [NatCast N] [LE N] [LT N] [DecidableLE N] [DecidableLT N]
  {request : BrowserExtractionCompletenessRequest} {environment : Environment N} {visit : Visit N}
  {tick scrollsLeft left : ℕ} {answer : BrowserCompletedExtraction} {looks : List (List (Look N))}

theorem result_partially (values : List Value) (reason : Reason) (pages scrolls : ℕ) (available : Bool) :
    (result request values .partially reason pages scrolls available).completeness.status = .partially := by
  simp [result]

/-- How the visit of a page ends: with the page as far as it was read, with the
page at its end, or with the next one. -/
theorem pageLoop_cases (h : pageLoop request environment tick scrollsLeft (left + 1) visit =
    some (answer, looks)) :
    let first := firstPage request visit (environment.look tick)
    let scrolled := scrollLoop request environment visit.totalBytes tick scrollsLeft first
    let reached := reachedByteLimit (positiveInteger request.maxBytes 1) visit.totalBytes
      (valueBytes first.value)
      (environment.look tick).probe.contentBytes
    (∃ page reason, (page = first ∨ scrolled = .stopped page reason) ∧
      answer = finalizeCurrentPage request visit page reason ∧ looks = visit.seen ++ [page.looks]) ∨
    reached = false ∧ ∃ page, scrolled = .ended page ∧
      ((∃ status reason available, (status = .complete → page.probe.next = none) ∧
          answer = result request (visit.push page).pageValues status reason (visit.push page).pages
            (visit.push page).scrolls available ∧ looks = (visit.push page).seen) ∨
        request.format = .text ∧ ∃ urls signatures,
          pageLoop request environment (tick + page.looks.length)
            (scrollsLeft - (page.scrolls - visit.scrolls)) left
            { visit.push page with visitedNextUrls := urls, visitedPageSignatures := signatures } =
              some (answer, looks)) := by
  unfold pageLoop at h
  dsimp only at h ⊢
  split at h
  · cases h
  split at h
  · cases h
    exact .inl ⟨_, _, .inl rfl, rfl, rfl⟩
  split at h
  · cases h
    exact .inl ⟨_, _, .inl rfl, rfl, rfl⟩
  rename_i hreached
  rw [Bool.not_eq_true] at hreached
  split at h
  · cases h
  · rename_i page reason hstopped
    cases h
    exact .inl ⟨page, reason, .inr hstopped, rfl, rfl⟩
  · rename_i page hended
    right
    refine ⟨hreached, page, hended, ?_⟩
    have hpart : ∀ reason available, ∃ status reason' available',
      (status = .complete → page.probe.next = none) ∧
        partially request (visit.push page) reason available =
          result request (visit.push page).pageValues status
          reason' (visit.push page).pages (visit.push page).scrolls available' ∧
        (visit.push page).seen = (visit.push page).seen :=
      fun reason available => ⟨.partially, reason, available, (fun hstatus => by cases hstatus), rfl, rfl⟩
    split at h
    · cases h
      exact .inl (hpart _ _)
    split at h
    · rename_i hnext
      cases h
      exact .inl ⟨_, _, _, fun _ => hnext, rfl, rfl⟩
    · split at h
      · cases h
        exact .inl (hpart _ _)
      split at h
      · cases h
        exact .inl (hpart _ _)
      rename_i hformat
      split at h
      · cases h
        exact .inl (hpart _ _)
      split at h
      · cases h
        exact .inl (hpart _ _)
      split at h
      · cases h
        exact .inl (hpart _ _)
      · simp only [not_or, not_not] at hformat
        exact .inr ⟨hformat.1, _, _, h⟩

/-- What holds of a page that is not over the limit, whatever look comes next,
holds of it at its end. -/
theorem scrollLoop_ended {P : Page N → Prop} {total : ℕ} (hstep : ∀ page tick,
      let merged := page.merge request (remainingBytes (positiveInteger request.maxBytes 1) total)
        (environment.look tick)
      P page → reachedByteLimit (positiveInteger request.maxBytes 1) total (valueBytes merged.value)
        (environment.look tick).probe.contentBytes = false → P merged)
    (left : ℕ) (page page' : Page N) (h : P page)
    (hended : scrollLoop request environment total tick left page = .ended page') :
    P page' ∧ atEnd page'.probe = true := by
  induction left generalizing page with
  | zero =>
    unfold scrollLoop at hended
    dsimp only at hended
    split_ifs at hended with hend
    cases hended
    exact ⟨h, hend⟩
  | succ left ih =>
    unfold scrollLoop at hended
    dsimp only at hended
    split_ifs at hended with hend haborted hlate hafter hreached hstuck
    · cases hended
      exact ⟨h, hend⟩
    · exact ih _ (hstep page _ h (by simpa using hreached)) hended

/-- The last page of a scrolling. -/
def Scrolled.page : Scrolled N → Option (Page N)
  | .ended page => some page
  | .stopped page _ => some page
  | .cancelled => none

/-- What every look keeps. -/
theorem scrollLoop_page {P : Page N → Prop} {total : ℕ} (hstep : ∀ page, P page →
      P (page.merge request (remainingBytes (positiveInteger request.maxBytes 1) total)
        (environment.look (tick + page.looks.length))))
    (left : ℕ) (page page' : Page N) (h : P page)
    (hpage : (scrollLoop request environment total tick left page).page = some page') : P page' := by
  induction left generalizing page with
  | zero =>
    unfold scrollLoop at hpage
    dsimp only at hpage
    split_ifs at hpage
    · cases hpage
      exact h
    · cases hpage
    · cases hpage
      exact h
    · cases hpage
      exact h
  | succ left ih =>
    have hmerged := hstep page h
    unfold scrollLoop at hpage
    dsimp only at hpage
    split_ifs at hpage
    · cases hpage
      exact h
    · cases hpage
    · cases hpage
      exact h
    · cases hpage
      exact hmerged
    · cases hpage
      exact hmerged
    · cases hpage
      exact hmerged
    · exact ih _ hmerged hpage

/-- The looks of a call are the first ones there are, in their order. -/
theorem pageLoop_looks (left : ℕ) (tick scrollsLeft : ℕ) (visit : Visit N)
    (hseen : visit.seen.flatten = (List.range tick).map environment.look)
    (h : pageLoop request environment tick scrollsLeft left visit = some (answer, looks)) :
    ∃ n, looks.flatten = (List.range n).map environment.look := by
  induction left generalizing tick scrollsLeft visit with
  | zero =>
    cases h
    exact ⟨tick, hseen⟩
  | succ left ih =>
    have hpages : ∀ page', page' = firstPage request visit (environment.look tick) ∨
        (scrollLoop request environment visit.totalBytes tick scrollsLeft
          (firstPage request visit (environment.look tick))).page = some page' →
        (visit.seen ++ [page'.looks]).flatten =
            (List.range (tick + page'.looks.length)).map environment.look := by
      intro page' hpage
      have hlooks : page'.looks = (List.range page'.looks.length).map fun k =>
          environment.look (tick + k) := by
        rcases hpage with rfl | hpage
        · rfl
        · refine scrollLoop_page (P := fun page => page.looks =
            (List.range page.looks.length).map fun k => environment.look (tick + k)) ?_ scrollsLeft
              _ page' rfl hpage
          intro page hlooks
          simp only [Page.merge, List.length_append, List.length_singleton]
          rw [List.range_succ, List.map_append, ← hlooks]
          rfl
      rw [List.flatten_append, hseen, List.flatten_singleton, List.range_add, List.map_append,
        List.map_map, hlooks]
      simp [Function.comp_def]
    rcases pageLoop_cases h with ⟨page, reason, hpage, _, rfl⟩ | ⟨_, page, hended, hcase⟩
    · refine ⟨_, hpages page ?_⟩
      rcases hpage with rfl | hstopped
      · exact .inl rfl
      · rw [hstopped]
        exact .inr rfl
    · have hpage := hpages page (.inr (by rw [hended]; rfl))
      rcases hcase with ⟨_, _, _, _, _, rfl⟩ | ⟨_, urls, signatures, hnext⟩
      · exact ⟨_, hpage⟩
      · exact ih _ _ _ hpage hnext

theorem extract_looks (h : extract request environment = some (answer, looks)) :
    ∃ n, looks.flatten = (List.range n).map environment.look := by
  unfold extract at h
  dsimp only at h
  split at h
  · split at h
    · cases h
    · cases h
      exact ⟨1, rfl⟩
  · exact pageLoop_looks _ 0 _ _ rfl h

end Answers

section Texts

variable {N : Type} {visit : Visit N}

/-- The strings that were read. -/
def reads (looks : List (Look N)) : List (List UInt16) := looks.filterMap fun look => look.value.asString

/-- The pages with what is left of the limit for each. -/
def limited (maxBytes : ℕ) : ℕ → List (List (List UInt16)) → List (ℕ × List (List UInt16))
  | _, [] => []
  | total, page::pages =>
    (remainingBytes maxBytes total, page) ::
      limited maxBytes (total + byteLength (pageText (remainingBytes maxBytes total) page)) pages

/-- What a call cuts, and to which limits. -/
def callCuts (maxBytes : ℕ) (looks : List (List (Look N))) : List (List UInt16 × ℕ) :=
  (limited maxBytes 0 (looks.map reads)).flatMap fun page =>
    (pageCuts page.1 page.2).map fun value => (value, page.1)

def textBytes (page : ℕ × List (List UInt16)) : ℕ := byteLength (pageText page.1 page.2)

theorem limited_append (maxBytes total : ℕ) (pages : List (List (List UInt16))) (page : List (List UInt16)) :
    limited maxBytes total (pages ++ [page]) = limited maxBytes total pages ++
      [(remainingBytes maxBytes (total + ((limited maxBytes total pages).map textBytes).sum), page)] := by
  induction pages generalizing total with
  | nil => simp [limited]
  | cons first pages ih => simp [limited, ih, textBytes, Nat.add_assoc]

/-- Where nothing is cut, every page has its reads. -/
theorem limited_contains (maxBytes : ℕ) (pages : List (List (List UInt16))) (total : ℕ)
    (hwhole : ∀ page ∈ limited maxBytes total pages, ∀ value ∈ pageCuts page.1 page.2,
      byteLength value ≤ page.1) :
    List.Forall₂ (fun text page => ∀ read ∈ page, read <:+: text)
      ((limited maxBytes total pages).map fun page => pageText page.1 page.2) pages := by
  induction pages generalizing total with
  | nil => exact .nil
  | cons page pages ih =>
    simp only [limited, List.forall_mem_cons] at hwhole
    exact .cons (pageText_contains page hwhole.1) (ih _ hwhole.2)

theorem forall₂_mem_right {α β : Type} {R : α → β → Prop} {l : List α} {l' : List β}
    (h : List.Forall₂ R l l') {b : β} (hb : b ∈ l') : ∃ a ∈ l, R a b := by
  induction h with
  | nil => cases hb
  | cons hfirst _ ih =>
    rcases List.mem_cons.mp hb with rfl | hb
    · exact ⟨_, List.mem_cons_self, hfirst⟩
    · obtain ⟨a, ha, hrelated⟩ := ih hb
      exact ⟨a, List.mem_cons_of_mem _ ha, hrelated⟩

/-- A page whose value is the text of its reads. -/
structure Reads (limit : ℕ) (page : Page N) : Prop where
  value : page.value = .string (pageText limit (reads page.looks))
  begun : reads page.looks ≠ []
  last : ∃ look, page.looks.getLast? = some look ∧ look.probe = page.probe

/-- The pages of a call, each below what was left for it. -/
structure Visited (maxBytes : ℕ) (visit : Visit N) : Prop where
  values : visit.pageValues = (limited maxBytes 0 (visit.seen.map reads)).map fun page => .string
    (pageText page.1 page.2)
  total : visit.totalBytes = ((limited maxBytes 0 (visit.seen.map reads)).map textBytes).sum
  below : ∀ page ∈ limited maxBytes 0 (visit.seen.map reads), textBytes page < page.1

theorem reads_append (looks : List (Look N)) {look : Look N} {text : List UInt16}
    (h : look.value = .string text) :
    reads (looks ++ [look]) = reads looks ++ [text] := by
  simp [reads, h, Value.asString]

theorem Visited.push {maxBytes : ℕ} (h : Visited maxBytes visit) {page : Page N}
    (hpage : Reads (remainingBytes maxBytes visit.totalBytes) page)
    (hbelow : visit.totalBytes + valueBytes page.value < maxBytes) : Visited maxBytes (visit.push page) := by
  have hlimited : limited maxBytes 0 ((visit.push page).seen.map reads) =
      limited maxBytes 0 (visit.seen.map reads) ++
          [(remainingBytes maxBytes visit.totalBytes, reads page.looks)] := by
    simp only [Visit.push, List.map_append, List.map_singleton]
    rw [limited_append, Nat.zero_add, ← h.total]
  have hbytes : valueBytes page.value =
      textBytes (remainingBytes maxBytes visit.totalBytes, reads page.looks) := by
    rw [hpage.value]
    rfl
  refine ⟨?_, ?_, ?_⟩
  · rw [hlimited, List.map_append, ← h.values, List.map_singleton, ← hpage.value]
    rfl
  · rw [hlimited, List.map_append, List.sum_append, ← h.total, List.map_singleton,
      List.sum_singleton, ← hbytes]
    rfl
  · intro other hother
    rw [hlimited] at hother
    rcases List.mem_append.mp hother with hother | hother
    · exact h.below other hother
    · rw [List.mem_singleton] at hother
      subst hother
      rw [← hbytes]
      unfold remainingBytes
      omega

end Texts

section Completeness

variable {N : Type} [Add N] [Sub N] [NatCast N] [LE N] [LT N] [DecidableLE N] [DecidableLT N]
  {request : BrowserExtractionCompletenessRequest} {environment : Environment N} {visit : Visit N}
  {tick scrollsLeft left : ℕ} {answer : BrowserCompletedExtraction} {looks : List (List (Look N))}

omit [Add N] [Sub N] [NatCast N] in
theorem Reads.merge {limit : ℕ} {page : Page N} (h : Reads limit page) (hformat : request.format = .text)
    {look : Look N} {text : List UInt16} (htext : look.value = .string text) :
    Reads limit (page.merge request limit look) where
  value := by
    simp only [Page.merge]
    rw [reads_append _ htext, pageText_append limit h.begun, h.value, htext, hformat]
    rfl
  begun := by
    simp only [Page.merge]
    rw [reads_append _ htext]
    simp
  last := ⟨look, by simp [Page.merge], rfl⟩

omit [Add N] [Sub N] [LT N] [DecidableLT N] in
theorem reached_below {maxBytes completed current : ℕ} {raw : N}
    (h : reachedByteLimit maxBytes completed current raw = false) :
    completed + current < maxBytes := by
  simp only [reachedByteLimit, Bool.or_eq_false_iff, decide_eq_false_iff_not] at h
  omega

/-- A call for a text that answers complete has come to the end of a page
without a next url. -/
theorem pageLoop_complete (hformat : request.format = .text)
    (hstrings : ∀ n, ∃ text, (environment.look n).value = .string text) (left tick scrollsLeft : ℕ)
    (visit : Visit N) (hvisit : Visited (positiveInteger request.maxBytes 1) visit)
    (h : pageLoop request environment tick scrollsLeft left visit = some (answer, looks))
    (hcomplete : answer.completeness.status = .complete) :
    ∃ (done : Visit N) (page : Page N), Visited (positiveInteger request.maxBytes 1) done ∧
    looks = done.seen ∧
      looks.getLast? = some page.looks ∧ (∃ look, page.looks.getLast? = some look ∧ look.probe = page.probe) ∧
      atEnd page.probe = true ∧ page.probe.next = none ∧
      ∃ status reason pages scrolls available,
        answer = result request done.pageValues status reason pages scrolls available := by
  induction left generalizing tick scrollsLeft visit with
  | zero =>
    cases h
    rw [result_partially] at hcomplete
    cases hcomplete
  | succ left ih =>
    rcases pageLoop_cases h with ⟨page, reason, _, rfl, _⟩ | ⟨hreached, page, hended, hcase⟩
    · rw [finalizeCurrentPage, result_partially] at hcomplete
      cases hcomplete
    · obtain ⟨text, htext⟩ := hstrings tick
      have hfirst : Reads (remainingBytes (positiveInteger request.maxBytes 1) visit.totalBytes)
          (firstPage request visit (environment.look tick)) := by
        refine ⟨?_, ?_, _, rfl, rfl⟩
        · have hreads : reads [environment.look tick] = [text] := by simp [reads, htext, Value.asString]
          simp only [firstPage]
          rw [hreads, htext, hformat]
          rfl
        · simp [firstPage, reads, htext, Value.asString]
      obtain ⟨⟨hpage, hbelow⟩, hend⟩ := scrollLoop_ended (P := fun page =>
          Reads (remainingBytes (positiveInteger request.maxBytes 1) visit.totalBytes) page ∧
            visit.totalBytes + valueBytes page.value < positiveInteger request.maxBytes 1) (by
          intro page tick merged hpage hreached
          obtain ⟨text, htext⟩ := hstrings tick
          exact ⟨hpage.1.merge hformat htext, reached_below hreached⟩) scrollsLeft _ page
        ⟨hfirst, reached_below hreached⟩ hended
      have hpush := hvisit.push hpage hbelow
      rcases hcase with ⟨status, reason, available, hstatus, rfl, rfl⟩ | ⟨_, urls, signatures, hnext⟩
      · have hnext : page.probe.next = none := by
          apply hstatus
          simp only [result] at hcomplete
          split_ifs at hcomplete
          exact hcomplete
        exact ⟨visit.push page, page, hpush,
          rfl, by simp [Visit.push], hpage.last, hend, hnext, _, _, _, _, _, rfl⟩
      · exact ih _ _ { visit.push page with visitedNextUrls := urls, visitedPageSignatures := signatures }
          ⟨hpush.values, hpush.total, hpush.below⟩ hnext

theorem combinePages_strings (texts : List (List UInt16)) :
    combinePages (texts.map Value.string) .text = .string ([newline, newline].intercalate texts) := by
  match texts with
  | [] => rfl
  | [text] =>
    rw [List.intercalate_singleton]
    rfl
  | first::second::rest =>
    have hall : ∀ texts : List (List UInt16), (texts.map Value.string).mapM Value.asString = some texts := by
      intro texts
      induction texts with
      | nil => rfl
      | cons text texts ih => simp [List.mapM_cons, ih, Value.asString]
    have htexts := hall (first::second::rest)
    simp only [List.map_cons] at htexts
    simp only [combinePages, List.map_cons, htexts]

/-- Nothing was cut; the value has the texts of the pages in the order of the
visits, with every read in the text of its page; and the last page was at its
end and had no next url. -/
structure Honest (maxBytes : ℕ) (answer : BrowserCompletedExtraction)
    (looks : List (List (Look N))) : Prop where
  whole : ∀ cut ∈ callCuts maxBytes looks, byteLength cut.1 ≤ cut.2
  ordered : ∃ texts, answer.value = .string ([newline, newline].intercalate texts) ∧
    List.Forall₂ (fun text page => ∀ read ∈ reads page, read <:+: text) texts looks
  contained : ∀ look ∈ looks.flatten, ∃ read text,
    look.value = .string read ∧ answer.value = .string text ∧ read <:+: text
  ended : ∃ page look, looks.getLast? = some page ∧ page.getLast? = some look ∧ atEnd look.probe = true ∧
    look.probe.next = none

/-- A complete extraction of a text is honest when no cut left a gap below what
was left of the limit. -/
theorem complete_honest_iff (request : BrowserExtractionCompletenessRequest) (environment : Environment N)
    (answer : BrowserCompletedExtraction) (looks : List (List (Look N))) (hformat : request.format = .text)
    (hstrings : ∀ n, ∃ text, (environment.look n).value = .string text)
    (h : extract request environment = some (answer, looks))
    (hcomplete : answer.completeness.status = .complete) :
    (∃ n, looks.flatten = (List.range n).map environment.look) ∧
      (Honest (positiveInteger request.maxBytes 1) answer looks ↔
        ∀ cut ∈ callCuts (positiveInteger request.maxBytes 1) looks, Gapless cut.1 cut.2) := by
  have hlooks := extract_looks h
  refine ⟨hlooks, fun hhonest cut hcut => .inl (hhonest.whole cut hcut), ?_⟩
  intro hgapless
  unfold extract at h
  dsimp only at h
  split at h
  · split at h
    · cases h
    · cases h
      cases hcomplete
  obtain ⟨done, page, hdone, hseen, hlast, ⟨look, hlook, hprobe⟩, hend, hnext, status, reason,
    pages, scrolls, available,
    rfl⟩ := pageLoop_complete hformat hstrings _ 0 _ _
      ⟨rfl, rfl, fun _ hpage => absurd hpage List.not_mem_nil⟩ h hcomplete
  subst hseen
  have hwhole : ∀ pages ∈ limited (positiveInteger request.maxBytes 1) 0 (done.seen.map reads),
      ∀ value ∈ pageCuts pages.1 pages.2, byteLength value ≤ pages.1 := by
    intro pages hpages
    apply pageCuts_whole pages.2 _ (hdone.below pages hpages)
    intro value hvalue
    exact hgapless (value, pages.1) (List.mem_flatMap.mpr ⟨pages, hpages, List.mem_map_of_mem hvalue⟩)
  have hordered : ∃ texts, (result request done.pageValues status reason pages scrolls available).value =
      .string ([newline, newline].intercalate texts) ∧
        List.Forall₂ (fun text page => ∀ read ∈ reads page, read <:+: text) texts done.seen := by
    refine ⟨(limited (positiveInteger request.maxBytes 1) 0 (done.seen.map reads)).map fun page =>
      pageText page.1 page.2, ?_, ?_⟩
    · have hvalues : combinePages done.pageValues request.format = .string ([newline, newline].intercalate
          ((limited (positiveInteger request.maxBytes 1) 0 (done.seen.map reads)).map fun page =>
            pageText page.1 page.2)) := by
        rw [hdone.values, hformat, ← combinePages_strings, List.map_map]
        rfl
      have hfits : valueBytes (combinePages done.pageValues request.format) ≤
          positiveInteger request.maxBytes 1 := by
        simp only [result] at hcomplete
        split_ifs at hcomplete with hlong
        exact Nat.not_lt.mp hlong
      rw [hvalues] at hfits
      simp only [result]
      rw [hvalues, hformat]
      simp only [truncateValue]
      rw [truncateString_self hfits]
    · exact List.forall₂_map_right_iff.mp (limited_contains _ _ 0 hwhole)
  refine ⟨?_, hordered, ?_, page.looks, look, hlast,
    hlook, by rw [hprobe]; exact hend, by rw [hprobe]; exact hnext⟩
  · intro cut hcut
    obtain ⟨pages, hpages, hcut⟩ := List.mem_flatMap.mp hcut
    obtain ⟨value, hvalue, rfl⟩ := List.mem_map.mp hcut
    exact hwhole pages hpages value hvalue
  · intro look hlook
    obtain ⟨texts, hvalue, hpages⟩ := hordered
    obtain ⟨page, hpage, hlook⟩ := List.mem_flatten.mp hlook
    obtain ⟨read, hread⟩ : ∃ read, look.value = .string read := by
      obtain ⟨n, hn⟩ := hlooks
      have hmem : look ∈ done.seen.flatten := List.mem_flatten.mpr ⟨page, hpage, hlook⟩
      rw [hn] at hmem
      obtain ⟨k, _, rfl⟩ := List.mem_map.mp hmem
      exact hstrings k
    have hin : read ∈ reads page := List.mem_filterMap.mpr ⟨look, hlook, by rw [hread]; rfl⟩
    obtain ⟨text, htext, hcontains⟩ := forall₂_mem_right hpages hpage
    exact ⟨read, _, hread, hvalue, (hcontains read hin).trans (intercalate_part _ htext)⟩

end Completeness

section Samples

def sampleRequest : BrowserExtractionCompletenessRequest where
  format := .text
  mode := .documentAndSafePagination
  maxScrolls := some 8
  maxPages := some 3
  maxBytes := some 20
  timeoutMs := some 5000
  noProgressLimit := some 2

/-- A page that is at its end. -/
def shortPage (text : List UInt16) (contentBytes : ℤ) (signature : String)
    (nextUrl : Option String) : Look ℤ :=
  ⟨false, 0, ⟨0, 100, 100, contentBytes, signature, nextUrl⟩, .string text, 0, true⟩

/-- The lines `ab` and `cd`, then `cd` and `ef`, and `g` on the next page. -/
def sampleTexts : ℕ → List UInt16
  | 0 => [97, 98, 10, 99, 100]
  | 1 => [99, 100, 10, 101, 102]
  | _ => [103]

/-- The first page is looked at twice, before and after it is scrolled. -/
def sampleEnvironment : Environment ℤ where
  start := 0
  look n := ⟨false, 0,
    ⟨if n = 1 then 100 else 0, 100, if n < 2 then 200 else 100, 5, if n < 2 then "a" else "b",
    if n < 2 then some "/2" else none⟩, .string (sampleTexts n), 0, true⟩
  navigable := true

theorem complete_honest_sample : ∃ answer looks, extract sampleRequest sampleEnvironment =
    some (answer, looks) ∧
    answer = ⟨.string [97, 98, 10, 99, 100, 10, 101, 102, 10, 10, 103],
      ⟨.complete, .paginationEnd, .documentAndSafePagination, 2, 1, 11, false⟩⟩ ∧
    looks.map reads = [[sampleTexts 0, sampleTexts 1], [sampleTexts 2]] ∧ Honest 20 answer looks := by
  have hcall : (extract sampleRequest sampleEnvironment).map (fun call => (call.1, call.2.map reads)) =
      some (⟨.string [97, 98, 10, 99, 100, 10, 101, 102, 10, 10, 103],
        ⟨.complete, .paginationEnd, .documentAndSafePagination, 2, 1, 11, false⟩⟩,
        [[sampleTexts 0, sampleTexts 1], [sampleTexts 2]]) := by decide +kernel
  obtain ⟨⟨answer, looks⟩, h, hread⟩ := Option.map_eq_some_iff.mp hcall
  obtain ⟨hanswer, hreads⟩ := Prod.mk.inj hread
  have hstatus : answer.completeness.status = .complete := by rw [show answer = _ from hanswer]
  refine ⟨answer, looks, h, hanswer, hreads, ?_⟩
  refine (complete_honest_iff sampleRequest sampleEnvironment answer looks rfl
    (fun _ => ⟨_, rfl⟩) h hstatus).2.mpr ?_
  rw [callCuts, hreads]
  decide +kernel

/-- `12345`, and behind it `abc€`. -/
def gapEnvironment : Environment ℤ where
  start := 0
  look n := if n = 0 then shortPage [49, 50, 51, 52, 53] 5 "a" (some "/2")
    else shortPage [97, 98, 99, 0x20ac] 6 "b" none
  navigable := true

/-- `abc€` has six bytes where five are left. `abc` and the two line feeds then
fill the ten bytes there are. -/
theorem character_lost_below_limit :
    ∃ answer looks, extract { sampleRequest with maxBytes := some 10 } gapEnvironment = some (answer, looks) ∧
    answer = ⟨.string [49, 50, 51, 52, 53, 10, 10, 97, 98, 99],
      ⟨.complete, .paginationEnd, .documentAndSafePagination, 2, 0, 10, false⟩⟩ ∧
    looks.map reads = [[[49, 50, 51, 52, 53]], [[97, 98, 99, 0x20ac]]] ∧ ¬ Honest 10 answer looks := by
  have hcall : (extract { sampleRequest with maxBytes := some 10 } gapEnvironment).map
    (fun call => (call.1, call.2.map reads)) =
      some (⟨.string [49, 50, 51, 52, 53, 10, 10, 97, 98, 99],
        ⟨.complete, .paginationEnd, .documentAndSafePagination, 2, 0, 10, false⟩⟩,
        [[[49, 50, 51, 52, 53]], [[97, 98, 99, 0x20ac]]]) := by decide +kernel
  obtain ⟨⟨answer, looks⟩, h, hread⟩ := Option.map_eq_some_iff.mp hcall
  obtain ⟨hanswer, hreads⟩ := Prod.mk.inj hread
  refine ⟨answer, looks, h, hanswer, hreads, ?_⟩
  intro hhonest
  have hmem : [97, 98, 99, 0x20ac] ∈ (looks.map reads).flatten := by
    rw [hreads]
    decide
  obtain ⟨_, hpage, hread⟩ := List.mem_flatten.mp hmem
  obtain ⟨page, hvisited, rfl⟩ := List.mem_map.mp hpage
  obtain ⟨look, hlook, hstring⟩ := List.mem_filterMap.mp hread
  obtain ⟨read, text, hvalue, htext, hinfix⟩ :=
    hhonest.contained look (List.mem_flatten.mpr ⟨page, hvisited, hlook⟩)
  have hanswer : answer = _ := hanswer
  rw [hanswer] at htext
  rw [hvalue] at hstring
  cases hstring
  cases htext
  revert hinfix
  decide

end Samples

end AccessStack.Extraction
