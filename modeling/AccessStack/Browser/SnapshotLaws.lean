import AccessStack.Browser.Snapshots

/-!
# What the reports of a page say

Every entry of the history has been reported, with its content and with how
many events there were. A capture adds a revision, or repeats one that shows
the same.
-/

set_option autoImplicit false

namespace AccessStack.Snapshots

section Reports

/-- The entry has been answered. -/
def Reported (reports : List Report) (entry : RevisionEntry) : Prop :=
  ∃ y ∈ reports, y.revision = entry.revision ∧ y.mark = entry.eventSequence ∧
    ∀ content, entry.content = some content → y.content = content

/-- What is sent leads from the one content to the other. -/
def Leads (env : Env) (before after : String) (snapshot : Option String) : Prop :=
  snapshot = none ∧ before = after ∨ snapshot = some (createReadableDelta before after) ∨
    snapshot = some (normalizeSnapshot (env.difference before after))

/-- The events that are retained when `mark` are recorded, from the one after
`first` on. -/
def eventsSince (env : Env) (recorded : List BrowserStateEvent) (first mark : ℕ) : List BrowserStateEvent :=
  (recorded.take mark).drop (max first (mark - env.eventLimit))

structure Right (env : Env) (reports : List Report) (recorded : List BrowserStateEvent)
    (x : Report) : Prop where
  within : x.mark ≤ recorded.length
  unchanged : x.update.kind = .unchanged →
    ∃ y ∈ reports, x.knownRevision = some y.revision ∧ y.content = x.content
  delta : x.update.kind = .delta → ∃ y ∈ reports, x.knownRevision = some y.revision ∧
    x.update.baseRevision = some y.revision ∧ Leads env y.content x.content x.update.snapshot
  full : x.update.kind = .full → x.update.snapshot = some x.content
  whole : x.update.baseRevision = none → x.update.events = eventsSince env recorded 0 x.mark
  since : ∀ base, x.update.baseRevision = some base →
    ∃ y ∈ reports, y.revision = base ∧ x.update.events = eventsSince env recorded y.mark x.mark

/-- The state object shows what has been reported and recorded. -/
structure Shows (env : Env) (reports : List Report) (recorded : List BrowserStateEvent)
    (state : PageSnapshotState) : Prop where
  entries : ∀ entry ∈ state.history, Reported reports entry
  latest : ∀ entry, state.history.getLast? = some entry → entry.revision = state.revision
  below : ∀ y ∈ reports, y.revision ≤ state.revision
  events : state.events = recorded.drop (recorded.length - env.eventLimit)
  counted : state.nextEventSequence = recorded.length

structure Agree (reports : List Report) : Prop where
  content : ∀ x ∈ reports, ∀ y ∈ reports, x.revision = y.revision → x.content = y.content
  marks : ∀ x ∈ reports, ∀ y ∈ reports, x.revision ≤ y.revision → x.mark ≤ y.mark
  positive : ∀ x ∈ reports, 1 ≤ x.revision

structure Faithful (env : Env) (t : Tracker) : Prop where
  live : ∀ ref, t.current = some ref → ref < t.heap.length
  fresh : t.current = none → t.reports = [] ∧ t.recorded = []
  shows : ∀ ref, t.current = some ref → Shows env t.reports t.recorded (t.read ref)
  agree : Agree t.reports
  numbers : ∀ (i : ℕ) (event : BrowserStateEvent), t.recorded[i]? = some event → event.sequence = i + 1
  right : ∀ x ∈ t.reports, Right env t.reports t.recorded x

variable {env : Env} {reports reports' : List Report} {recorded : List BrowserStateEvent}
  {state : PageSnapshotState} {entry : RevisionEntry} {x y : Report} {t : Tracker}

theorem Reported.grow (h : Reported reports entry) (hgrow : ∀ y ∈ reports, y ∈ reports') :
    Reported reports' entry := by
  obtain ⟨y, hy, hshows⟩ := h
  exact ⟨y, hgrow y hy, hshows⟩

/-- More reports and more events leave a report right. -/
theorem Right.grow (h : Right env reports recorded x) (hgrow : ∀ y ∈ reports, y ∈ reports')
    (more : List BrowserStateEvent) : Right env reports' (recorded ++ more) x := by
  have hsince : ∀ first, eventsSince env (recorded ++ more) first x.mark =
      eventsSince env recorded first x.mark := by
    intro first
    unfold eventsSince
    rw [List.take_append_of_le_length h.within]
  refine ⟨?_, ?_, ?_, h.full, ?_, ?_⟩
  · rw [List.length_append]
    exact Nat.le_add_right_of_le h.within
  · intro hkind
    obtain ⟨y, hy, hrest⟩ := h.unchanged hkind
    exact ⟨y, hgrow y hy, hrest⟩
  · intro hkind
    obtain ⟨y, hy, hrest⟩ := h.delta hkind
    exact ⟨y, hgrow y hy, hrest⟩
  · intro hbase
    rw [hsince]
    exact h.whole hbase
  · intro base hbase
    obtain ⟨y, hy, hrevision, hevents⟩ := h.since base hbase
    refine ⟨y, hgrow y hy, hrevision, ?_⟩
    rw [hsince]
    exact hevents

end Reports

section Events

variable {env : Env} {recorded : List BrowserStateEvent}

/-- Events that are numbered one after the other. -/
theorem filter_numbered (sequence first : ℕ)
    (h : ∀ (i : ℕ) (event : BrowserStateEvent), recorded[i]? = some event → event.sequence = first + i + 1) :
    recorded.filter (sequence < ·.sequence) = recorded.drop (sequence - first) := by
  induction recorded generalizing first with
  | nil => simp
  | cons event rest ih =>
    have hevent : event.sequence = first + 1 := h 0 event rfl
    have hrest : ∀ (i : ℕ) (later : BrowserStateEvent), rest[i]? = some later →
        later.sequence = first + 1 + i + 1 := by
      intro i later hlater
      have hsequence := h (i + 1) later hlater
      omega
    rw [List.filter_cons, ih (first + 1) hrest, hevent]
    by_cases hlt : sequence < first + 1
    · rw [if_pos (by simpa using hlt)]
      rw [show sequence - (first + 1) = 0 by omega, show sequence - first = 0 by omega]
      rfl
    · rw [if_neg (by simpa using hlt)]
      rw [show sequence - first = sequence - (first + 1) + 1 by omega]
      rfl

theorem eventsAfter_retained
    (h : ∀ (i : ℕ) (event : BrowserStateEvent), recorded[i]? = some event → event.sequence = i + 1)
    (sequence : ℕ) :
    eventsAfter (recorded.drop (recorded.length - env.eventLimit)) sequence =
      eventsSince env recorded sequence recorded.length := by
  unfold eventsAfter eventsSince
  rw [filter_numbered sequence (recorded.length - env.eventLimit), List.drop_drop, List.take_length]
  · congr 1
    omega
  · intro i event hevent
    rw [List.getElem?_drop] at hevent
    exact h _ event hevent

end Events

section Settling

variable {env : Env} {t : Tracker} {state : PageSnapshotState} {ref : ℕ} {o : Options} {content : String}
  {taken : PageSnapshotState × SemanticSnapshotCapture}

/-- A new revision that shows the content, or one that has been reported and
shows the same. -/
def Settles (env : Env) (t : Tracker) (state : PageSnapshotState) (content : String)
    (taken : PageSnapshotState × SemanticSnapshotCapture) : Prop :=
  (∃ shown, taken.1 = state.push env shown ∧ (∀ other, shown = some other → content = other) ∧
    taken.2.update.revision = state.revision + 1) ∨
  taken.1 = state ∧ ∃ y ∈ t.reports, y.revision = taken.2.update.revision ∧ y.content = content ∧
    y.mark = t.recorded.length

theorem push_latest (hlimit : 1 ≤ env.historyLimit) (shown : Option String) :
    (state.push env shown).history.getLast? = some ⟨state.revision + 1, shown, state.nextEventSequence⟩ := by
  unfold PageSnapshotState.push trimHistory
  dsimp only
  rw [List.getLast?_drop]
  rw [if_neg (by simp only [List.length_append, List.length_singleton]; omega)]
  exact List.getLast?_concat

theorem push_mem {shown : Option String} {entry : RevisionEntry}
    (h : entry ∈ (state.push env shown).history) :
    entry ∈ state.history ∨ entry = ⟨state.revision + 1, shown, state.nextEventSequence⟩ := by
  have hmem := List.mem_of_mem_drop h
  simpa using hmem

/-- The report that a capture adds. -/
def added (t : Tracker) (o : Options) (content : String)
    (taken : PageSnapshotState × SemanticSnapshotCapture) :
    Report := ⟨o.knownRevision, content, t.recorded.length, taken.2⟩

theorem settle_agree (h : Faithful env t) (hcurrent : t.current = some ref)
    (hsettles : Settles env t (t.read ref) content taken) :
    Agree (t.reports ++ [added t o content taken]) := by
  have hshows := h.shows ref hcurrent
  have hmark : ∀ y ∈ t.reports, y.mark ≤ t.recorded.length := fun y hy => (h.right y hy).within
  rcases hsettles with ⟨shown, -, -, hrevision⟩ | ⟨-, y, hy, hrevision, hcontent, hy_mark⟩
  · have hnew : ∀ y ∈ t.reports, y.revision < (added t o content taken).revision := by
      intro y hy
      show y.revision < taken.2.update.revision
      rw [hrevision]
      exact Nat.lt_succ_of_le (hshows.below y hy)
    refine ⟨?_, ?_, ?_⟩
    · intro a ha b hb heq
      rcases List.mem_append.mp ha with ha | ha <;> rcases List.mem_append.mp hb with hb | hb
      · exact h.agree.content a ha b hb heq
      · rw [List.mem_singleton.mp hb] at heq
        exact absurd heq (Nat.ne_of_lt (hnew a ha))
      · rw [List.mem_singleton.mp ha] at heq
        exact absurd heq.symm (Nat.ne_of_lt (hnew b hb))
      · rw [List.mem_singleton.mp ha, List.mem_singleton.mp hb]
    · intro a ha b hb hle
      rcases List.mem_append.mp ha with ha | ha <;> rcases List.mem_append.mp hb with hb | hb
      · exact h.agree.marks a ha b hb hle
      · rw [List.mem_singleton.mp hb]
        exact hmark a ha
      · rw [List.mem_singleton.mp ha] at hle
        exact absurd (hnew b hb) (Nat.not_lt_of_le hle)
      · rw [List.mem_singleton.mp ha, List.mem_singleton.mp hb]
    · intro a ha
      rcases List.mem_append.mp ha with ha | ha
      · exact h.agree.positive a ha
      · rw [List.mem_singleton.mp ha]
        show 1 ≤ taken.2.update.revision
        omega
  · have hsame : ∀ a ∈ t.reports ++ [added t o content taken], ∃ b ∈ t.reports,
        b.revision = a.revision ∧ b.content = a.content ∧ b.mark = a.mark := by
      intro a ha
      rcases List.mem_append.mp ha with ha | ha
      · exact ⟨a, ha, rfl, rfl, rfl⟩
      · rw [List.mem_singleton.mp ha]
        exact ⟨y, hy, hrevision, hcontent, hy_mark⟩
    refine ⟨?_, ?_, ?_⟩
    · intro a ha b hb heq
      obtain ⟨a', ha', harevision, hacontent, -⟩ := hsame a ha
      obtain ⟨b', hb', hbrevision, hbcontent, -⟩ := hsame b hb
      rw [← hacontent, ← hbcontent]
      exact h.agree.content a' ha' b' hb' (harevision.trans (heq.trans hbrevision.symm))
    · intro a ha b hb hle
      obtain ⟨a', ha', harevision, -, hamark⟩ := hsame a ha
      obtain ⟨b', hb', hbrevision, -, hbmark⟩ := hsame b hb
      rw [← hamark, ← hbmark]
      exact h.agree.marks a' ha' b' hb' (by omega)
    · intro a ha
      obtain ⟨a', ha', harevision, -, -⟩ := hsame a ha
      rw [← harevision]
      exact h.agree.positive a' ha'

theorem settle_shows (hlimit : 1 ≤ env.historyLimit) (h : Faithful env t) (hcurrent : t.current = some ref)
    (hsettles : Settles env t (t.read ref) content taken) :
    Shows env (t.reports ++ [added t o content taken]) t.recorded taken.1 := by
  have hshows := h.shows ref hcurrent
  have hgrow : ∀ y ∈ t.reports, y ∈ t.reports ++ [added t o content taken] := fun y => List.mem_append_left _
  rcases hsettles with ⟨shown, hstate, hshown, hrevision⟩ | ⟨hstate, y, hy, hrevision, -, -⟩
  · rw [hstate]
    refine ⟨?_, ?_, ?_, hshows.events, hshows.counted⟩
    · intro entry hentry
      rcases push_mem hentry with hold | rfl
      · exact (hshows.entries entry hold).grow hgrow
      · exact ⟨added t o content taken, List.mem_append_right _ List.mem_cons_self, hrevision,
          hshows.counted.symm, hshown⟩
    · intro entry hentry
      rw [push_latest hlimit] at hentry
      rw [← Option.some.inj hentry]
      rfl
    · intro y hy
      show y.revision ≤ (t.read ref).revision + 1
      rcases List.mem_append.mp hy with hy | hy
      · exact Nat.le_succ_of_le (hshows.below y hy)
      · rw [List.mem_singleton.mp hy]
        exact Nat.le_of_eq hrevision
  · rw [hstate]
    refine ⟨fun entry hentry => (hshows.entries entry hentry).grow hgrow, hshows.latest, ?_, hshows.events,
      hshows.counted⟩
    intro z hz
    rcases List.mem_append.mp hz with hz | hz
    · exact hshows.below z hz
    · rw [List.mem_singleton.mp hz]
      show taken.2.update.revision ≤ (t.read ref).revision
      rw [← hrevision]
      exact hshows.below y hy

theorem settle_faithful (hlimit : 1 ≤ env.historyLimit) (h : Faithful env t) (hcurrent : t.current = some ref)
    (hsettles : Settles env t (t.read ref) content taken)
    (hright : Right env (t.reports ++ [added t o content taken]) t.recorded (added t o content taken)) :
    Faithful env (t.settle ref o content taken).1 where
  live := by
    intro other hother
    show other < (t.heap.set ref taken.1).length
    rw [List.length_set]
    exact h.live other hother
  fresh := fun hnone => absurd (hcurrent.symm.trans hnone) nofun
  shows := by
    intro other hother
    have hsame : other = ref := Option.some.inj (Eq.symm hother |>.trans hcurrent)
    have hread : (t.settle ref o content taken).1.read other = taken.1 := by
      show ((t.heap.set ref taken.1)[other]?).getD _ = taken.1
      rw [hsame, List.getElem?_set_self (h.live ref hcurrent)]
      rfl
    rw [hread]
    exact settle_shows hlimit h hcurrent hsettles
  agree := settle_agree h hcurrent hsettles
  numbers := h.numbers
  right := by
    intro x hx
    rcases List.mem_append.mp hx with hx | hx
    · have hgrown := (h.right x hx).grow (fun y => List.mem_append_left [added t o content taken]) []
      rw [List.append_nil] at hgrown
      exact hgrown
    · rw [List.mem_singleton.mp hx]
      exact hright

end Settling

section Taking

variable {env : Env} {t : Tracker} {ref : ℕ} {o : Options} {base : RevisionEntry}
  {delta observed fullContent : String}

/-- A tracked delta leads from its base. -/
def Tracks (env : Env) (t : Tracker) (o : Options) (base : RevisionEntry) (delta observed : String) : Prop :=
  o.knownRevision = some base.revision ∧ ∃ y ∈ t.reports, y.revision = base.revision ∧
    y.mark = base.eventSequence ∧
    delta = normalizeSnapshot (env.difference y.content observed)

/-- An empty delta is taken while the newest revision shows what was observed. -/
def Current (t : Tracker) (ref : ℕ) (base : RevisionEntry) (delta observed : String) : Prop :=
  delta = "" → base.eventSequence = (t.read ref).nextEventSequence →
    ∀ y ∈ t.reports, y.revision = (t.read ref).revision → y.content = observed

theorem answerDelta_revision (state : PageSnapshotState) (base : RevisionEntry) (delta : String) :
    (answerDelta state base delta).update.revision = (state.history.getLast?.getD base).revision := by
  unfold answerDelta
  dsimp only
  split_ifs <;> rfl

theorem answerDelta_cases (state : PageSnapshotState) (base : RevisionEntry) (delta : String) :
    (answerDelta state base delta).update.baseRevision = some base.revision ∧
    (answerDelta state base delta).update.events = eventsAfter state.events base.eventSequence ∧
    ((answerDelta state base delta).update.kind = .unchanged ∧
        (state.history.getLast?.getD base).revision = base.revision ∨
      (answerDelta state base delta).update.kind = .delta ∧
        (answerDelta state base delta).update.snapshot = if delta ≠ "" then some delta else none) := by
  unfold answerDelta
  dsimp only
  by_cases hbase : (state.history.getLast?.getD base).revision = base.revision
  · rw [if_pos hbase]
    exact ⟨rfl, rfl, .inl ⟨rfl, hbase⟩⟩
  · rw [if_neg hbase]
    exact ⟨rfl, rfl, .inr ⟨rfl, rfl⟩⟩

theorem takeDelta_settles (hlimit : 1 ≤ env.historyLimit)
    (hdifference : ∀ a b, normalizeSnapshot (env.difference a b) = "" → a = b) (h : Faithful env t)
    (hcurrent : t.current = some ref) (htracks : Tracks env t o base delta observed)
    (hshown : Current t ref base delta observed) :
    Settles env t (t.read ref) observed (takeDelta env (t.read ref) base delta) := by
  have hshows := h.shows ref hcurrent
  obtain ⟨-, y, hy, hrevision, hmark, hy_delta⟩ := htracks
  have hanswer := answerDelta_revision (follow env (t.read ref) base delta) base delta
  by_cases hpush : delta ≠ "" ∨ base.eventSequence ≠ (t.read ref).nextEventSequence
  · have hstate : follow env (t.read ref) base delta = (t.read ref).push env none := if_pos hpush
    refine .inl ⟨none, hstate, nofun, ?_⟩
    rw [hstate, push_latest hlimit] at hanswer
    show (answerDelta (follow env (t.read ref) base delta) base delta).update.revision =
      (t.read ref).revision + 1
    rw [hstate]
    exact hanswer
  · have hstate : follow env (t.read ref) base delta = t.read ref := if_neg hpush
    rw [not_or, not_not, not_not] at hpush
    obtain ⟨hempty, hevents⟩ := hpush
    refine .inr ⟨hstate, ?_⟩
    show ∃ y ∈ t.reports, y.revision =
      (answerDelta (follow env (t.read ref) base delta) base delta).update.revision ∧ _
    rw [hanswer, hstate]
    have hy_mark : y.mark = t.recorded.length := hmark.trans (hevents.trans hshows.counted)
    cases hlast : (t.read ref).history.getLast? with
    | none =>
      refine ⟨y, hy, hrevision, ?_, hy_mark⟩
      exact hdifference y.content observed (hy_delta ▸ hempty)
    | some latest =>
      have hlatest := hshows.latest latest hlast
      obtain ⟨z, hz, hz_revision, -, -⟩ := hshows.entries latest (List.mem_of_getLast? hlast)
      refine ⟨z, hz, hz_revision, hshown hempty hevents z hz (hz_revision.trans hlatest), ?_⟩
      have hbelow := hshows.below y hy
      have hmarks := h.agree.marks y hy z hz (by omega)
      have hwithin := (h.right z hz).within
      omega

/-- The events of an answer against a base. -/
theorem events_since {reports : List Report} {state : PageSnapshotState} (h : Faithful env t)
    (hshows : Shows env reports t.recorded state) (sequence : ℕ) :
    eventsAfter state.events sequence = eventsSince env t.recorded sequence t.recorded.length := by
  rw [hshows.events]
  exact eventsAfter_retained h.numbers sequence

theorem takeDelta_right (hlimit : 1 ≤ env.historyLimit)
    (hdifference : ∀ a b, normalizeSnapshot (env.difference a b) = "" → a = b) (h : Faithful env t)
    (hcurrent : t.current = some ref) (htracks : Tracks env t o base delta observed)
    (hsettles : Settles env t (t.read ref) observed (takeDelta env (t.read ref) base delta)) :
    Right env (t.reports ++ [added t o observed (takeDelta env (t.read ref) base delta)]) t.recorded
      (added t o observed (takeDelta env (t.read ref) base delta)) := by
  have hbelow := (h.shows ref hcurrent).below
  have hshows := settle_shows (o := o) hlimit h hcurrent hsettles
  have hevents := events_since h hshows base.eventSequence
  obtain ⟨hbase, hanswered, hkind⟩ := answerDelta_cases (follow env (t.read ref) base delta) base delta
  obtain ⟨hknown, y, hy, hrevision, hmark, hdelta⟩ := htracks
  have hy' : y ∈ t.reports ++ [added t o observed (takeDelta env (t.read ref) base delta)] :=
    List.mem_append_left _ hy
  have hknown' : o.knownRevision = some y.revision := hknown.trans (congrArg some hrevision.symm)
  have hsame : delta = "" → y.content = observed := by
    intro hempty
    exact hdifference y.content observed (hdelta ▸ hempty)
  refine ⟨le_rfl, ?_, ?_, ?_, ?_, ?_⟩
  · intro hunchanged
    rcases hkind with ⟨-, hrevision'⟩ | ⟨hdelta', -⟩
    · refine ⟨y, hy', hknown', hsame ?_⟩
      by_contra hne
      rw [show follow env (t.read ref) base delta = (t.read ref).push env none from if_pos (.inl hne),
        push_latest hlimit] at hrevision'
      have hle := hbelow y hy
      have heq : (t.read ref).revision + 1 = base.revision := hrevision'
      omega
    · exact absurd (hdelta'.symm.trans hunchanged) nofun
  · intro hdelta'
    rcases hkind with ⟨hunchanged, -⟩ | ⟨-, hsnapshot⟩
    · exact absurd (hunchanged.symm.trans hdelta') nofun
    · refine ⟨y, hy', hknown', hbase.trans (congrArg some hrevision.symm), ?_⟩
      show Leads env y.content observed
        (answerDelta (follow env (t.read ref) base delta) base delta).update.snapshot
      rw [hsnapshot]
      by_cases hempty : delta = ""
      · exact .inl ⟨if_neg (not_not.mpr hempty), hsame hempty⟩
      · exact .inr (.inr ((if_pos hempty).trans (congrArg some hdelta)))
  · intro hfull
    rcases hkind with ⟨hunchanged, -⟩ | ⟨hdelta', -⟩
    · exact absurd (hunchanged.symm.trans hfull) nofun
    · exact absurd (hdelta'.symm.trans hfull) nofun
  · intro hnone
    exact absurd (hbase.symm.trans hnone) nofun
  · intro revision hsome
    refine ⟨y, hy', hrevision.trans (Option.some.inj (hbase.symm.trans hsome)), ?_⟩
    show (answerDelta (follow env (t.read ref) base delta) base delta).update.events = _
    rw [hanswered, hmark]
    exact hevents

theorem adopt_cases (env : Env) (state : PageSnapshotState) (fullContent : String) :
    adopt env state fullContent = state.push env (some fullContent) ∨
    adopt env state fullContent = state ∧ ∃ latest, state.history.getLast? = some latest ∧
      latest.content = some fullContent ∧ latest.eventSequence = state.nextEventSequence := by
  unfold adopt
  split
  · exact .inl rfl
  · rename_i latest hlast
    split_ifs with hchanged
    · exact .inl rfl
    · rw [not_or, not_not, not_not] at hchanged
      exact .inr ⟨rfl, latest, hlast, hchanged.1, hchanged.2⟩

theorem adopt_latest (hlimit : 1 ≤ env.historyLimit) (state : PageSnapshotState) (fullContent : String) :
    ∃ latest, (adopt env state fullContent).history.getLast? = some latest ∧
    latest.content = some fullContent := by
  rcases adopt_cases env state fullContent with hpushed | ⟨hsame, latest, hlast, hcontent, -⟩
  · rw [hpushed]
    exact ⟨_, push_latest hlimit _, rfl⟩
  · rw [hsame]
    exact ⟨latest, hlast, hcontent⟩

/-- An answer is the content, or says that it is the same as the base's, or
leads from there. -/
theorem answerFull_cases (env : Env) (o : Options) {state : PageSnapshotState}
    {latest : RevisionEntry} (hlast : state.history.getLast? = some latest)
    (hcontent : latest.content = some fullContent) :
    (answerFull state o fullContent).update.revision = latest.revision ∧
    ((answerFull state o fullContent).update.baseRevision = none ∧
        (answerFull state o fullContent).update.kind = .full ∧
        (answerFull state o fullContent).update.snapshot = some fullContent ∧
        (answerFull state o fullContent).update.events = state.events ∨
      ∃ base before, base ∈ state.history ∧ o.knownRevision = some base.revision ∧
      base.content = some before ∧
        (answerFull state o fullContent).update.baseRevision = some base.revision ∧
        (answerFull state o fullContent).update.events = eventsAfter state.events base.eventSequence ∧
        ((answerFull state o fullContent).update.kind = .unchanged ∧ base.revision = latest.revision ∨
          (answerFull state o fullContent).update.kind = .full ∧
            (answerFull state o fullContent).update.snapshot = some fullContent ∨
          (answerFull state o fullContent).update.kind = .delta ∧
            Leads env before fullContent (answerFull state o fullContent).update.snapshot)) := by
  unfold answerFull
  rw [hlast]
  dsimp only [Option.getD_some]
  split
  · exact ⟨rfl, .inl ⟨rfl, rfl, rfl, rfl⟩⟩
  · rename_i base hfound
    obtain ⟨known, hknown, hfind⟩ := Option.bind_eq_some_iff.mp hfound
    have hrevision : base.revision = known := by simpa using List.find?_some hfind
    have hmem := List.mem_of_find?_eq_some hfind
    split
    · exact ⟨rfl, .inl ⟨rfl, rfl, rfl, rfl⟩⟩
    · rename_i before hbefore
      have hknown' : o.knownRevision = some base.revision := by rw [hknown, hrevision]
      split_ifs with hforce hsame
      · exact ⟨rfl, .inl ⟨rfl, rfl, rfl, rfl⟩⟩
      · exact ⟨rfl, .inr ⟨base, before, hmem, hknown', hbefore, rfl, rfl, .inl ⟨rfl, hsame⟩⟩⟩
      · rw [hcontent]
        dsimp only [compared]
        split_ifs with heq huse
        · exact ⟨rfl, .inr ⟨base, before, hmem, hknown', hbefore, rfl,
            rfl, .inr (.inr ⟨rfl, .inl ⟨rfl, heq⟩⟩)⟩⟩
        · exact ⟨rfl, .inr ⟨base, before, hmem, hknown', hbefore, rfl, rfl, .inr (.inl ⟨rfl, rfl⟩)⟩⟩
        · exact ⟨rfl, .inr ⟨base, before, hmem, hknown', hbefore, rfl,
            rfl, .inr (.inr ⟨rfl, .inr (.inl rfl)⟩)⟩⟩

theorem takeFull_settles (hlimit : 1 ≤ env.historyLimit) (h : Faithful env t)
    (hcurrent : t.current = some ref) :
    Settles env t (t.read ref) fullContent (takeFull env (t.read ref) o fullContent) := by
  have hshows := h.shows ref hcurrent
  obtain ⟨latest, hlast, hcontent⟩ := adopt_latest hlimit (t.read ref) fullContent
  have hrevision := (answerFull_cases env o hlast hcontent).1
  rcases adopt_cases env (t.read ref) fullContent with hpushed | ⟨hsame, latest', hlast', -, hevents⟩
  · refine .inl ⟨some fullContent, hpushed, fun other hother => Option.some.inj hother, hrevision.trans ?_⟩
    rw [hpushed, push_latest hlimit] at hlast
    rw [← Option.some.inj hlast]
  · rw [hsame] at hlast
    cases hlast.symm.trans hlast'
    obtain ⟨y, hy, hy_revision, hy_mark, hy_content⟩ := hshows.entries latest (List.mem_of_getLast? hlast)
    refine .inr ⟨hsame, y, hy, hy_revision.trans hrevision.symm, hy_content fullContent hcontent, ?_⟩
    exact hy_mark.trans (hevents.trans hshows.counted)

theorem takeFull_right (hlimit : 1 ≤ env.historyLimit) (h : Faithful env t)
    (hcurrent : t.current = some ref) :
    Right env (t.reports ++ [added t o fullContent (takeFull env (t.read ref) o fullContent)]) t.recorded
      (added t o fullContent (takeFull env (t.read ref) o fullContent)) := by
  have hsettles : Settles env t (t.read ref) fullContent (takeFull env (t.read ref) o fullContent) :=
    takeFull_settles hlimit h hcurrent
  have hshows :
    Shows env (t.reports ++ [added t o fullContent (takeFull env (t.read ref) o fullContent)]) t.recorded
      (adopt env (t.read ref) fullContent) := settle_shows hlimit h hcurrent hsettles
  have hagree := settle_agree (o := o) h hcurrent hsettles
  obtain ⟨latest, hlast, hcontent⟩ := adopt_latest hlimit (t.read ref) fullContent
  obtain ⟨-, hcases⟩ := answerFull_cases env o hlast hcontent
  have hevents := events_since h hshows
  rcases hcases with ⟨hbase, hkind, hsnapshot, hanswered⟩ | ⟨base, before, hmem, hknown, hbefore,
    hbase, hanswered, hkind⟩
  · refine ⟨le_rfl, ?_, ?_, fun _ => hsnapshot, ?_, ?_⟩
    · exact fun hunchanged => absurd (hkind.symm.trans hunchanged) nofun
    · exact fun hdelta => absurd (hkind.symm.trans hdelta) nofun
    · intro _
      show (answerFull (adopt env (t.read ref) fullContent) o fullContent).update.events = _
      rw [hanswered, hshows.events]
      show _ = (t.recorded.take t.recorded.length).drop (max 0 (t.recorded.length - env.eventLimit))
      rw [List.take_length, Nat.zero_max]
    · exact fun revision hsome => absurd (hbase.symm.trans hsome) nofun
  · obtain ⟨y, hy, hrevision, hmark, hshown⟩ := hshows.entries base hmem
    have hknown' : o.knownRevision = some y.revision := hknown.trans (congrArg some hrevision.symm)
    refine ⟨le_rfl, ?_, ?_, ?_, ?_, ?_⟩
    · intro hunchanged
      rcases hkind with ⟨-, hsame⟩ | ⟨hfull, -⟩ | ⟨hdelta, -⟩
      · obtain ⟨z, hz, hz_revision, -, hz_shown⟩ := hshows.entries latest (List.mem_of_getLast? hlast)
        refine ⟨y, hy, hknown', ?_⟩
        have heq := hagree.content y hy z hz (hrevision.trans (hsame.trans hz_revision.symm))
        exact heq.trans (hz_shown fullContent hcontent)
      · exact absurd (hfull.symm.trans hunchanged) nofun
      · exact absurd (hdelta.symm.trans hunchanged) nofun
    · intro hdelta
      rcases hkind with ⟨hunchanged, -⟩ | ⟨hfull, -⟩ | ⟨-, hleads⟩
      · exact absurd (hunchanged.symm.trans hdelta) nofun
      · exact absurd (hfull.symm.trans hdelta) nofun
      · refine ⟨y, hy, hknown', hbase.trans (congrArg some hrevision.symm), ?_⟩
        rw [hshown before hbefore]
        exact hleads
    · intro hfull
      rcases hkind with ⟨hunchanged, -⟩ | ⟨-, hsnapshot⟩ | ⟨hdelta, -⟩
      · exact absurd (hunchanged.symm.trans hfull) nofun
      · exact hsnapshot
      · exact absurd (hdelta.symm.trans hfull) nofun
    · exact fun hnone => absurd (hbase.symm.trans hnone) nofun
    · intro revision hsome
      refine ⟨y, hy, hrevision.trans (Option.some.inj (hbase.symm.trans hsome)), ?_⟩
      show (answerFull (adopt env (t.read ref) fullContent) o fullContent).update.events = _
      rw [hanswered, hmark]
      exact hevents base.eventSequence

end Taking

end AccessStack.Snapshots
