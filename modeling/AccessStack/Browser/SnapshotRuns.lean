import AccessStack.Browser.SnapshotLaws

/-!
# Snapshot revisions in any interleaving

Reports only grow, which is all that a capture has to know of the others. What
a capture takes up has to be what it was computed for: its state object is
still the page's, and a tracked delta was computed against its base.
-/

set_option autoImplicit false

namespace AccessStack.Snapshots
open AccessStack.Runs

section Calls

/-- What a capture takes up was computed for it. -/
def Undisturbed (e : Op) (t : Tracker) (host : Host) : Prop :=
  match e with
  | .start _ | .snapshot => True
  | .trackedSnapshot base => host.fails = false → host.full = false →
      ∀ y ∈ t.reports, y.revision = base.revision → y.content = t.seen
  | .takeDelta ref _ base delta observed => t.current = some ref ∧ Current t ref base delta observed
  | .takeFull ref _ _ => t.current = some ref

/-- The page is discarded only while it has no revision. -/
def Allowed (s : State) : Change → Prop
  | .discard => ∀ ref, s.shared.current = some ref → (s.shared.read ref).revision = 0
  | _ => True

def rules : Machine.Rules Tracker Host Change Options Answer Failure SemanticSnapshotCapture where
  possible := fun _ _ e t host => Undisturbed e t host
  allowed := Allowed

def Grows (t t' : Tracker) : Prop := ∀ y ∈ t.reports, y ∈ t'.reports

abbrev asked (env : Env) (party : ℕ) (o : Options) : Routine.Terms Op Tracker Host Answer :=
  Machine.terms (machine env) rules (Faithful env) (fun _ _ => Grows) (fun _ _ _ => Grows) party o

variable {env : Env} {party ref : ℕ} {o : Options} {base : RevisionEntry}
  {delta observed fullContent : String} {t : Tracker} {host : Host}

theorem read_allocate (t : Tracker) (state : PageSnapshotState) :
    (t.allocate state).read t.heap.length = state := by
  unfold Tracker.read Tracker.allocate
  simp

/-- An object that shows nothing but what is known already. -/
theorem allocate_faithful {state : PageSnapshotState} (h : Faithful env t)
    (hshows : Shows env t.reports t.recorded state) : Faithful env (t.allocate state) where
  live := by
    intro ref href
    cases href
    show t.heap.length < (t.heap ++ [state]).length
    rw [List.length_append]
    exact Nat.lt_add_one _
  fresh := fun hnone => absurd hnone nofun
  shows := by
    intro ref href
    cases href
    rw [read_allocate]
    exact hshows
  agree := h.agree
  numbers := h.numbers
  right := h.right

theorem emptyState_shows {documentId : ℕ} (hreports : t.reports = []) (hrecorded : t.recorded = []) :
    Shows env t.reports t.recorded (emptyState documentId) := by
  rw [hreports, hrecorded]
  exact ⟨by simp [emptyState], by simp [emptyState], by simp, List.drop_nil.symm, rfl⟩

theorem state_faithful (h : Faithful env t) :
    Faithful env t.state.1 ∧ t.state.1.current = some t.state.2 ∧ t.state.1.reports = t.reports ∧
      t.state.1.recorded = t.recorded := by
  unfold Tracker.state
  cases hcurrent : t.current with
  | some ref => exact ⟨h, hcurrent, rfl, rfl⟩
  | none =>
    obtain ⟨hreports, hrecorded⟩ := h.fresh hcurrent
    exact ⟨allocate_faithful h (emptyState_shows hreports hrecorded), rfl, rfl, rfl⟩

/-- The base of a tracked snapshot has been reported to the client. -/
theorem trackedBase_some {state : PageSnapshotState} (h : trackedBase state o = some base) :
    o.knownRevision = some base.revision ∧ base ∈ state.history := by
  unfold trackedBase at h
  dsimp only at h
  split_ifs at h
  obtain ⟨known, hknown, hfind⟩ := Option.bind_eq_some_iff.mp h
  have hrevision : base.revision = known := by simpa using List.find?_some hfind
  exact ⟨by rw [hknown, hrevision], List.mem_of_find?_eq_some hfind⟩

/-- The base has been reported to the client, and its content is known. -/
def Asked (o : Options) (base : RevisionEntry) (t : Tracker) : Prop :=
  o.knownRevision = some base.revision ∧ Reported t.reports base

theorem asked_grows {t' : Tracker} (h : Asked o base t) (hgrows : Grows t t') : Asked o base t' :=
  ⟨h.1, h.2.grow hgrows⟩

theorem tracks_grows {t' : Tracker} (h : Tracks env t o base delta observed) (hgrows : Grows t t') :
    Tracks env t' o base delta observed := by
  obtain ⟨hknown, y, hy, hrest⟩ := h
  exact ⟨hknown, y, hgrows y hy, hrest⟩

theorem seen_faithful (h : Faithful env t) (shown : String) : Faithful env { t with seen := shown } :=
  ⟨h.live, h.fresh, h.shows, h.agree, h.numbers, h.right⟩

theorem start_guards : Routine.Guards (asked env party o)
    (fun found t => ∀ base, found.2 = some base → Asked o base t) (fun _ _ => True) (ask (.start o)) t := by
  have hstable : ∀ t t', (fun _ => True) t → Grows t t' → (fun _ => True) t' := fun _ _ _ _ => trivial
  refine Routine.guards_perform trivial hstable fun t _ hkeeps host _ => ?_
  obtain ⟨hfaithful, hcurrent, hreports, -⟩ := state_faithful hkeeps
  refine ⟨hfaithful, ?_, ?_⟩
  · intro y hy
    show y ∈ t.state.1.reports
    rw [hreports]
    exact hy
  · intro base hbase
    obtain ⟨hknown, hmem⟩ := trackedBase_some hbase
    exact ⟨hknown, (hfaithful.shows _ hcurrent).entries base hmem⟩

/-- The answer of a tracked snapshot, if it is a delta, leads from its base. -/
def Answered (env : Env) (o : Options) (base : RevisionEntry) (tracked : Option (Tracked × String))
    (t : Tracker) : Prop :=
  ∀ text observed, tracked = some (.delta text, observed) →
    Tracks env t o base (normalizeSnapshot text) observed

theorem trackedSnapshot_guards (h : Asked o base t) : Routine.Guards (asked env party o)
    (fun tracked t => Answered env o base tracked t) (fun _ _ => True) (ask (.trackedSnapshot base)) t := by
  refine Routine.guards_perform h (fun t t' => asked_grows) fun t h hkeeps host hundisturbed => ?_
  show Faithful env (effect env (.trackedSnapshot base) t host).1 ∧
    Grows t (effect env (.trackedSnapshot base) t host).1 ∧
    Answered env o base (effect env (.trackedSnapshot base) t host).2
      (effect env (.trackedSnapshot base) t host).1
  unfold effect
  dsimp only
  split_ifs with hfails hfull
  · exact ⟨hkeeps, fun _ => id, nofun⟩
  · exact ⟨seen_faithful hkeeps _, fun _ => id, nofun⟩
  · refine ⟨seen_faithful hkeeps _, fun _ => id, ?_⟩
    intro text observed heq
    cases heq
    obtain ⟨hknown, y, hy, hrevision, hmark, -⟩ := h
    have hseen := hundisturbed (by simpa using hfails) (by simpa using hfull) y hy hrevision
    exact ⟨hknown, y, hy, hrevision, hmark, by rw [hseen]⟩

theorem snapshot_guards :
    Routine.Guards (asked env party o) (fun _ _ => True) (fun _ _ => True) (ask .snapshot) t := by
  have hstable : ∀ t t', (fun _ => True) t → Grows t t' → (fun _ => True) t' := fun _ _ _ _ => trivial
  refine Routine.guards_perform trivial hstable fun t _ hkeeps host _ => ?_
  show Faithful env (effect env .snapshot t host).1 ∧ Grows t (effect env .snapshot t host).1 ∧ True
  unfold effect
  dsimp only
  split_ifs
  · exact ⟨hkeeps, fun _ => id, trivial⟩
  · exact ⟨seen_faithful hkeeps _, fun _ => id, trivial⟩

theorem takeDelta_guards (hlimit : 1 ≤ env.historyLimit)
    (hdifference : ∀ a b, normalizeSnapshot (env.difference a b) = "" → a = b)
    (h : Tracks env t o base delta observed) :
    Routine.Guards (asked env party o) (fun _ _ => True) (fun _ _ => True)
      (ask (.takeDelta ref o base delta observed)) t := by
  refine Routine.guards_perform h (fun t t' => tracks_grows) fun t h hkeeps host hundisturbed => ?_
  obtain ⟨hcurrent, hshown⟩ := hundisturbed
  have hsettles := takeDelta_settles hlimit hdifference hkeeps hcurrent h hshown
  have hright := takeDelta_right hlimit hdifference hkeeps hcurrent h hsettles
  exact ⟨settle_faithful hlimit hkeeps hcurrent hsettles hright, fun y => List.mem_append_left _, trivial⟩

theorem takeFull_guards (hlimit : 1 ≤ env.historyLimit) : Routine.Guards (asked env party o) (fun _ _ => True)
    (fun _ _ => True) (ask (.takeFull ref o fullContent)) t := by
  have hstable : ∀ t t', (fun _ => True) t → Grows t t' → (fun _ => True) t' := fun _ _ _ _ => trivial
  refine Routine.guards_perform trivial hstable fun t _ hkeeps host hcurrent => ?_
  have hsettles : Settles env t (t.read ref) fullContent (takeFull env (t.read ref) o fullContent) :=
    takeFull_settles hlimit hkeeps hcurrent
  exact ⟨settle_faithful hlimit hkeeps hcurrent hsettles (takeFull_right hlimit hkeeps hcurrent),
    fun y => List.mem_append_left _, trivial⟩

theorem capture_guards (hlimit : 1 ≤ env.historyLimit)
    (hdifference : ∀ a b, normalizeSnapshot (env.difference a b) = "" → a = b) :
    Routine.Guards (asked env party o) (fun _ _ => True) (fun _ _ => True) (capture o) t := by
  refine start_guards.bind fun found t hfound => ?_
  cases hbase : found.2 with
  | some base =>
    refine (trackedSnapshot_guards (hfound base hbase)).bind fun tracked t hanswered => ?_
    match tracked, hanswered with
    | none, _ => exact trivial
    | some (.full content, _), _ => exact takeFull_guards hlimit
    | some (.delta text, observed), hanswered =>
      exact takeDelta_guards hlimit hdifference (hanswered text observed rfl)
  | none =>
    refine snapshot_guards.bind fun taken t _ => ?_
    match taken with
    | none => exact trivial
    | some content => exact takeFull_guards hlimit

end Calls

section World

variable {env : Env} {ref : ℕ} {t : Tracker}

theorem invalidate_faithful (hlimit : 1 ≤ env.eventLimit) (h : Faithful env t) :
    Faithful env (t.invalidate env) := by
  unfold Tracker.invalidate
  split
  · rename_i hcurrent
    obtain ⟨hreports, hrecorded⟩ := h.fresh hcurrent
    exact allocate_faithful h (emptyState_shows hreports hrecorded)
  · rename_i ref hcurrent
    have hshows := h.shows ref hcurrent
    apply allocate_faithful h
    refine ⟨nofun, nofun, hshows.below, ?_, hshows.counted⟩
    show sliceLast env (t.read ref).events = _
    unfold sliceLast
    rw [if_neg (by omega), hshows.events, List.drop_drop, List.length_drop]
    congr 1
    omega

theorem discard_faithful (h : Faithful env t)
    (hunused : ∀ ref, t.current = some ref → (t.read ref).revision = 0) :
    Faithful env t.discard := by
  have hreports : t.reports = [] := by
    cases hcurrent : t.current with
    | none => exact (h.fresh hcurrent).1
    | some ref =>
      apply List.eq_nil_iff_forall_not_mem.mpr
      intro y hy
      have hbelow := (h.shows ref hcurrent).below y hy
      have hpositive := h.agree.positive y hy
      rw [hunused ref hcurrent] at hbelow
      omega
  refine ⟨by simp [Tracker.discard], fun _ => ⟨hreports, rfl⟩, by simp [Tracker.discard], h.agree,
    by simp [Tracker.discard], ?_⟩
  intro x hx
  have hx' : x ∈ t.reports := hx
  rw [hreports] at hx'
  exact absurd hx' List.not_mem_nil

theorem retained_append (recorded : List BrowserStateEvent) (event : BrowserStateEvent) (limit : ℕ) :
    (recorded.drop (recorded.length - limit) ++ [event]).drop
        ((recorded.drop (recorded.length - limit) ++ [event]).length - limit) =
      (recorded ++ [event]).drop ((recorded ++ [event]).length - limit) := by
  rw [← List.drop_append_of_le_length (Nat.sub_le _ _), List.drop_drop]
  simp only [List.length_drop, List.length_append, List.length_singleton]
  congr 1
  omega

theorem recordEvent_faithful (event : NewEvent) (now : String) (h : Faithful env t) :
    Faithful env (t.recordEvent env event now) := by
  obtain ⟨hstate, hcurrent, -, -⟩ := state_faithful h
  have hlive := hstate.live _ hcurrent
  have hshows := hstate.shows _ hcurrent
  unfold Tracker.recordEvent
  dsimp only
  generalize t.state = found at *
  obtain ⟨t, ref⟩ := found
  dsimp only at *
  refine ⟨?_, fun hnone => absurd (hcurrent.symm.trans hnone) nofun, ?_, hstate.agree, ?_, ?_⟩
  · intro other hother
    rw [List.length_set]
    exact hstate.live other hother
  · intro other hother
    have hsame : other = ref := Option.some.inj (Eq.symm hother |>.trans hcurrent)
    unfold Tracker.read
    dsimp only
    rw [hsame, List.getElem?_set_self hlive]
    refine ⟨hshows.entries, hshows.latest, hshows.below, ?_, ?_⟩
    · have hevents : (t.heap[ref]?.getD (emptyState ref)).events =
          t.recorded.drop (t.recorded.length - env.eventLimit) := hshows.events
      dsimp only [Option.getD_some]
      rw [hevents]
      exact retained_append t.recorded _ env.eventLimit
    · show (t.read ref).nextEventSequence + 1 = _
      rw [hshows.counted, List.length_append, List.length_singleton]
  · intro i stored hstored
    rw [List.getElem?_append] at hstored
    split_ifs at hstored with hlt
    · exact hstate.numbers i stored hstored
    · rw [List.getElem?_singleton] at hstored
      split_ifs at hstored with hzero
      rw [← Option.some.inj hstored]
      show (t.read ref).nextEventSequence + 1 = i + 1
      rw [hshows.counted]
      omega
  · intro x hx
    exact (hstate.right x hx).grow (fun y => id) _

theorem change_faithful (hlimit : 1 ≤ env.eventLimit) (h : Faithful env t) (change : Change)
    (hallowed : change = .discard → ∀ ref, t.current = some ref → (t.read ref).revision = 0) :
    Faithful env (t.change env change) := by
  cases change with
  | recordEvent event now => exact recordEvent_faithful event now h
  | invalidate => exact invalidate_faithful hlimit h
  | discard => exact discard_faithful h (hallowed rfl)
  | page content => exact ⟨h.live, h.fresh, h.shows, h.agree, h.numbers, h.right⟩

end World

section Runs

variable {env : Env} {page : String} {t : Tracker} {s : State}

theorem initial_faithful (env : Env) (page : String) : Faithful env (initial page) :=
  have hagree : Agree ([] : List Report) := by constructor <;> simp
  ⟨by simp [initial], fun _ => ⟨rfl, rfl⟩, by simp [initial], hagree, by simp [initial], by simp [initial]⟩

theorem change_grows (t : Tracker) (change : Change) : Grows t (t.change env change) := by
  intro y hy
  cases change with
  | recordEvent event now =>
    have hsame : t.state.1.reports = t.reports := by
      unfold Tracker.state
      split <;> rfl
    show y ∈ t.state.1.reports
    rw [hsame]
    exact hy
  | invalidate =>
    show y ∈ (t.invalidate env).reports
    unfold Tracker.invalidate
    split <;> exact hy
  | discard => exact hy
  | page content => exact hy

theorem capture_checked (hhistory : 1 ≤ env.historyLimit) (hevents : 1 ≤ env.eventLimit)
    (hdifference : ∀ a b, normalizeSnapshot (env.difference a b) = "" → a = b) :
    Machine.Checked (machine env) rules (Faithful env) (fun _ _ => Grows) (fun _ _ _ => Grows) where
  guarded := fun _ _ _ _ => capture_guards hhistory hdifference
  compatible := fun _ _ _ _ _ _ _ _ hgrows => hgrows
  stable := by
    intro s change hfaithful hallowed
    refine ⟨change_faithful hevents hfaithful change ?_, fun _ _ _ _ => change_grows s.shared change⟩
    rintro rfl
    exact hallowed

/-- Two answers with the same revision show the same; an answer "unchanged"
shows what was reported with the known revision, a delta leads from there, and
the events are the retained ones since. -/
theorem revisions_identify (hhistory : 1 ≤ env.historyLimit) (hevents : 1 ≤ env.eventLimit)
    (hdifference : ∀ a b, normalizeSnapshot (env.difference a b) = "" → a = b)
    (h : Reaches (machine env).step (Machine.Admits rules) (Machine.start (initial page)) s) :
    (∀ x ∈ s.shared.reports, ∀ y ∈ s.shared.reports, x.revision = y.revision → x.content = y.content) ∧
    ∀ x ∈ s.shared.reports,
      (x.update.kind = .full → x.update.snapshot = some x.content) ∧
      (x.update.kind = .unchanged →
        (∃ y ∈ s.shared.reports, x.knownRevision = some y.revision) ∧
        ∀ y ∈ s.shared.reports, x.knownRevision = some y.revision → x.content = y.content) ∧
      (x.update.kind = .delta → x.update.baseRevision = x.knownRevision ∧
        (∃ y ∈ s.shared.reports, x.knownRevision = some y.revision) ∧
        ∀ y ∈ s.shared.reports, x.knownRevision = some y.revision →
        Leads env y.content x.content x.update.snapshot) ∧
      (x.update.baseRevision = none → x.update.events = eventsSince env s.shared.recorded 0 x.mark) ∧
      ∀ base, x.update.baseRevision = some base → (∃ y ∈ s.shared.reports, y.revision = base) ∧
        ∀ y ∈ s.shared.reports, y.revision = base →
          x.update.events = eventsSince env s.shared.recorded y.mark x.mark := by
  have hkept :=
    (Machine.reached_guarded (capture_checked hhistory hevents hdifference)
      (initial_faithful env page) h).kept
  refine ⟨hkept.agree.content, ?_⟩
  intro x hx
  have hright := hkept.right x hx
  refine ⟨hright.full, ?_, ?_, hright.whole, ?_⟩
  · intro hunchanged
    obtain ⟨y, hy, hknown, hcontent⟩ := hright.unchanged hunchanged
    refine ⟨⟨y, hy, hknown⟩, ?_⟩
    intro z hz hz_known
    have hsame : y.revision = z.revision := Option.some.inj (hknown.symm.trans hz_known)
    rw [← hcontent]
    exact hkept.agree.content y hy z hz hsame
  · intro hdelta
    obtain ⟨y, hy, hknown, hbase, hleads⟩ := hright.delta hdelta
    refine ⟨hbase.trans hknown.symm, ⟨y, hy, hknown⟩, ?_⟩
    intro z hz hz_known
    have hsame : y.revision = z.revision := Option.some.inj (hknown.symm.trans hz_known)
    rw [← hkept.agree.content y hy z hz hsame]
    exact hleads
  · intro base hbase
    obtain ⟨y, hy, hrevision, hsince⟩ := hright.since base hbase
    refine ⟨⟨y, hy, hrevision⟩, ?_⟩
    intro z hz hz_revision
    have hsame : y.revision = z.revision := hrevision.trans hz_revision.symm
    have hmark : z.mark = y.mark :=
      Nat.le_antisymm (hkept.agree.marks z hz y hy hsame.ge) (hkept.agree.marks y hy z hz hsame.le)
    rw [hmark]
    exact hsince

end Runs

section Samples

def sampleEnv : Env := ⟨32, 500, fun a b => if a = b then "" else "- <changed>"⟩

theorem sample_difference (a b : String)
    (hempty : normalizeSnapshot (sampleEnv.difference a b) = "") : a = b := by
  by_contra hne
  have hchanged : sampleEnv.difference a b = "- <changed>" := if_neg hne
  rw [hchanged] at hempty
  exact absurd hempty (by decide)

abbrev SampleMove := Move Options Host Change

/-- A call of this party from its begin to its end. -/
def captured (party : ℕ) (knownRevision : Option ℕ) : List SampleMove :=
  ([.call ⟨knownRevision, false, true⟩] : List SampleMove) ++
    List.replicate 3 (.act party ⟨false, false⟩ : SampleMove)

def arrive (moves : List SampleMove) : State :=
  moves.foldl (machine sampleEnv).step (Machine.start (initial "- one"))

instance (party : ℕ) (o : Options) (e : Op) (t : Tracker) (host : Host) :
    Decidable (rules.possible party o e t host) := by
  show Decidable (Undisturbed e t host)
  unfold Undisturbed Current
  split <;> infer_instance

instance (s : State) (change : Change) : Decidable (rules.allowed s change) := by
  show Decidable (Allowed s change)
  unfold Allowed
  split
  · cases hcurrent : s.shared.current with
    | none => exact isTrue nofun
    | some ref => exact decidable_of_iff ((s.shared.read ref).revision = 0) (by simp)
  · infer_instance

/-- The page changes and is captured against the first revision. -/
def changed : List SampleMove := captured 0 none ++ [.world (.page "- two")] ++ captured 1 (some 1)

theorem revisions_identify_sample :
    (arrive changed).shared.reports.map (·.revision) = [1, 2] ∧
    ∀ x ∈ (arrive changed).shared.reports, ∀ y ∈ (arrive changed).shared.reports, x.revision = y.revision →
      x.content = y.content := by
  have hadmitted : Admitted (machine sampleEnv).step (Machine.Admits rules)
      (Machine.start (initial "- one")) changed := by
    decide +kernel
  have hreached : Reaches (machine sampleEnv).step (Machine.Admits rules) (Machine.start (initial "- one"))
      (arrive changed) := Reaches.refl.events hadmitted rfl
  have hidentify := revisions_identify (by decide) (by decide) sample_difference hreached
  exact ⟨by decide +kernel, hidentify.1⟩

/-- Whatever happens. -/
def anyRules : Machine.Rules Tracker Host Change Options Answer Failure SemanticSnapshotCapture where
  possible := fun _ _ _ _ _ => True
  allowed := fun _ _ => True

instance (party : ℕ) (o : Options) (e : Op) (t : Tracker) (host : Host) :
    Decidable (anyRules.possible party o e t host) := inferInstanceAs (Decidable True)

instance (s : State) (change : Change) : Decidable (anyRules.allowed s change) :=
  inferInstanceAs (Decidable True)

/-- The page is discarded between two captures. -/
def discarded : List SampleMove := captured 0 none ++ [.world .discard, .world (.page "- two")] ++
    captured 1 none

theorem discarded_revision_again : ¬ ∀ s : State,
    Reaches (machine sampleEnv).step (Machine.Admits anyRules) (Machine.start (initial "- one")) s →
    ∀ x ∈ s.shared.reports, ∀ y ∈ s.shared.reports, x.revision = y.revision → x.content = y.content := by
  intro h
  have hadmitted : Admitted (machine sampleEnv).step (Machine.Admits anyRules)
    (Machine.start (initial "- one"))
      discarded := by decide +kernel
  have hreached : Reaches (machine sampleEnv).step (Machine.Admits anyRules) (Machine.start (initial "- one"))
      (arrive discarded) := Reaches.refl.events hadmitted rfl
  exact absurd (h (arrive discarded) hreached) (by decide +kernel)

end Samples

end AccessStack.Snapshots
