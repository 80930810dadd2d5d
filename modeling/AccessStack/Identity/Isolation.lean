import AccessStack.Identity.Reprovision

/-!
# A reprovision is isolated and survives crashes

Each event is allowed in the state where it happens, so that the log alone
says what an operation has done. While the last mark of an operation is not
its completion, the marker of the storage is its own. The record of a
completion is written where no entry is left, so that whatever is accepted
later has been issued later.
-/

set_option autoImplicit false

namespace AccessStack.Reprovision
open AccessStack.Text AccessStack.JsonText AccessStack.Fallible AccessStack.Identity AccessStack.Runs

section Allowed

def Started (operationId : String) (log : List Event) : Prop :=
  ∃ attempt, .recorded operationId ⟨.inProgress, attempt⟩ ∈ log

def Completed (operationId : String) (log : List Event) : Prop :=
  ∃ attempt, .recorded operationId ⟨.completed, attempt⟩ ∈ log

/-- No other operation is active. -/
def Free (operationId : String) (w : State) : Prop := ∀ other, unresolved w = some other → other = operationId

def Allowed (w : State) : Event → Prop
  | .recorded operationId operation =>
    operation.status = .completed → w.entries = [] ∧ Started operationId w.log
  | .activated operationId status => Free operationId w ∧ (status = .completed → Completed operationId w.log)
  | .removed operationId _ => w.active = some ⟨operationId, .inProgress⟩
  | .stored _ => unresolved w = none
  | .deleted _ => unresolved w = none
  | _ => True

variable {faults : ℕ → Fault} {w : State} {operationId : String} {stopped : Stop → State → Prop}

theorem free_congr {w' : State} (h : Free operationId w) (hactive : w'.active = w.active) :
    Free operationId w' := by
  intro other hother
  rw [unresolved, hactive] at hother
  exact h other hother

theorem free_activated {w' : State} {status : OAuthReprovisionStatus}
    (h : w'.active = some ⟨operationId, status⟩) : Free operationId w' := by
  intro other hother
  rw [unresolved, h, Option.filter_some] at hother
  split_ifs at hother
  · exact (Option.some.inj hother).symm
  · cases hother

/-- A program stops only where no other operation is active, or no write fails. -/
def Tolerated (faults : ℕ → Fault) (operationId : String) (stopped : Stop → State → Prop) : Prop :=
  (∀ stop t, Free operationId t → stopped stop t) ∨ ∀ n, faults n = .none

theorem put_ensures {e : Event} (ht : Tolerated faults operationId stopped) (he : Allowed w e)
    (hfree : Free operationId w) (hafter : Free operationId (w.after e)) :
    Ensures Allowed (put faults e) w (fun _ w' => w' = w.after e) stopped := by
  unfold put
  rcases ht with hstop | hquiet
  · apply ensures_write
    · exact he
    · exact trivial
    · rfl
    · exact fun stop => ⟨hstop stop _ hafter, hstop stop _ (free_congr hfree rfl)⟩
  · exact (ensures_write_quiet (hquiet _)).mpr ⟨he, rfl⟩

/-- Only the audit has changed. -/
structure Kept (w w' : State) : Prop where
  active : w'.active = w.active
  entries : w'.entries = w.entries
  log : ∀ e ∈ w.log, e ∈ w'.log

theorem append_ensures {attempt : ℕ} {eventType : OAuthReprovisionEventType}
    (ht : Tolerated faults operationId stopped) (hfree : Free operationId w) :
    Ensures Allowed (appendOAuthReprovisionEvent faults operationId attempt eventType) w
      (fun _ w' => Kept w w')
      stopped := by
  unfold appendOAuthReprovisionEvent
  rw [ensures_bind, ensures_look]
  refine ensures_ite.mpr ⟨fun _ => ?_, fun _ => ensures_pure.mpr ⟨rfl, rfl, fun e he => he⟩⟩
  apply (put_ensures ht (by exact trivial) hfree (free_congr hfree rfl)).mono
  · rintro _ w' rfl
    exact ⟨rfl, rfl, fun e he => List.mem_append_left _ he⟩
  · exact fun _ _ h => h

theorem deleteMany_ensures (ht : Tolerated faults operationId stopped) (keys : List OAuthKey)
    (hactive : w.active = some ⟨operationId, .inProgress⟩) :
    Ensures Allowed (deleteMany faults operationId keys) w (fun _ w' => w'.active = w.active ∧
      w'.entries = w.entries.filter (·.1 ∉ keys) ∧ ∀ e ∈ w.log, e ∈ w'.log) stopped := by
  induction keys generalizing w with
  | nil =>
    refine ensures_pure.mpr ⟨rfl, ?_, fun e he => he⟩
    simp
  | cons key keys ih =>
    rw [deleteMany, ensures_bind, ensures_look, ensures_bind]
    have hfree : Free operationId w := free_activated hactive
    apply (put_ensures ht (by exact hactive) hfree (free_congr hfree rfl)).mono
    · rintro _ w' rfl
      rw [ensures_bind]
      apply (ih (w := w.after (.removed operationId key)) hactive).mono
      · rintro deleted w'' ⟨hsame, hentries, hlog⟩
        refine ensures_pure.mpr ⟨hsame, ?_, fun e he => hlog e (List.mem_append_left _ he)⟩
        rw [hentries, State.after, State.apply, List.filter_filter]
        apply List.filter_congr
        intro entry _
        rw [Bool.and_comm]
        simp
      · exact fun _ _ h => h
    · exact fun _ _ h => h

theorem deleteRounds_ensures (ht : Tolerated faults operationId stopped) (rounds left : ℕ)
    (hactive : w.active = some ⟨operationId, .inProgress⟩) :
    Ensures Allowed (deleteRounds faults operationId rounds left) w (fun complete w' => w'.active = w.active ∧
      (complete = true → w'.entries = []) ∧ w'.entries.length ≤ w.entries.length ∧
      (complete = false → 0 < rounds → 0 < left → w'.entries.length < w.entries.length) ∧
      ∀ e ∈ w.log, e ∈ w'.log) stopped := by
  induction rounds generalizing w left with
  | zero =>
    refine ensures_look.mpr ⟨rfl, List.isEmpty_iff.mp, le_rfl, ?_, fun e he => he⟩
    exact fun _ hrounds => absurd hrounds (Nat.lt_irrefl 0)
  | succ rounds ih =>
    rw [deleteRounds]
    refine ensures_ite.mpr ⟨fun hleft => ?_, fun hleft => ?_⟩
    · refine ensures_look.mpr ⟨rfl, List.isEmpty_iff.mp, le_rfl, ?_, fun e he => he⟩
      exact fun _ _ hpositive => absurd hleft hpositive.ne'
    · rw [ensures_bind, ensures_look]
      refine ensures_ite.mpr ⟨fun hnone => ?_, fun hsome => ?_⟩
      · refine ensures_pure.mpr ⟨rfl, fun _ => ?_, le_rfl, nofun, fun e he => he⟩
        rw [List.map_eq_nil_iff, List.take_eq_nil_iff] at hnone
        rcases hnone with hzero | hentries
        · omega
        · exact hentries
      · rw [ensures_bind]
        apply (deleteMany_ensures ht _ hactive).mono
        · rintro deleted w₁ ⟨hsame, hentries, hlog⟩
          have hfewer : w₁.entries.length < w.entries.length := by
            have htaken : w.entries.take (min 256 left) ≠ [] := fun hnone =>
              hsome (List.map_eq_nil_iff.mpr hnone)
            obtain ⟨entry, hentry⟩ := List.exists_mem_of_ne_nil _ htaken
            rw [hentries, List.length_filter_lt_length_iff_exists]
            refine ⟨entry, List.mem_of_mem_take hentry, ?_⟩
            have hkey : entry.1 ∈ (w.entries.take (min 256 left)).map (·.1) := List.mem_map_of_mem hentry
            exact fun habsent => of_decide_eq_true habsent hkey
          apply (ih (left - deleted) (hsame.trans hactive)).mono
          · rintro complete w₂ ⟨hlater, hdone, hle, -, hkept⟩
            refine ⟨hlater.trans hsame, hdone, hle.trans hfewer.le, fun _ _ _ => hle.trans_lt hfewer, ?_⟩
            exact fun e he => hkept e (hlog e he)
          · exact fun _ _ h => h
        · exact fun _ _ h => h

end Allowed

section Runs

variable {env : Environment} {faults : ℕ → Fault} {w : State} {operationId : String}
  {stopped : Stop → State → Prop}

def Reports (response : Response) (operationId : String) : Prop :=
  response.operationId = some operationId ∧ response.report = some (.status .completed)

/-- The operation is completed, or it has deleted an entry and can be resumed. -/
def Progress (operationId : String) (w : State) (response : Response) (w' : State) : Prop :=
  Reports response operationId ∨ w'.entries.length < w.entries.length ∧ Free operationId w'

def Truthful (response : Response) (w' : State) : Prop := ∀ id, Reports response id → Completed id w'.log

theorem truthful_of_ne {response : Response} (h : response.report ≠ some (.status .completed)) :
    Truthful response w :=
  fun _ hreports => absurd hreports.2 h

theorem runAttempt_ensures {attempt : ℕ} (ht : Tolerated faults operationId stopped)
    (hfree : Free operationId w) :
    Ensures Allowed (runAttempt faults operationId attempt) w
      (fun response w' => Truthful response w' ∧ Progress operationId w response w') stopped := by
  unfold runAttempt
  rw [ensures_bind]
  apply (put_ensures ht (by exact nofun) hfree (free_congr hfree rfl)).mono _ fun _ _ h => h
  rintro _ w₁ rfl
  have hfree₁ : Free operationId (w.after (.recorded operationId ⟨.inProgress, attempt⟩)) :=
    free_congr hfree rfl
  rw [ensures_bind]
  apply (put_ensures ht (by exact ⟨hfree₁, nofun⟩) hfree₁ (free_activated rfl)).mono _ fun _ _ h => h
  rintro _ w₂ rfl
  rw [ensures_bind]
  apply (deleteRounds_ensures ht oauthDeleteLimitPerRequest oauthDeleteLimitPerRequest rfl).mono _
    fun _ _ h => h
  rintro complete w₃ ⟨hactive₃, hempty, hle, hfewer, hlog₃⟩
  have hfree₃ : Free operationId w₃ := free_activated hactive₃
  refine ensures_ite.mpr ⟨fun hcomplete => ?_, fun hpending => ?_⟩
  · rw [ensures_bind]
    apply (append_ensures ht hfree₃).mono _ fun _ _ h => h
    intro _ w₄ hkept₄
    have hfree₄ : Free operationId w₄ := free_congr hfree₃ hkept₄.active
    rw [ensures_bind]
    apply (append_ensures ht hfree₄).mono _ fun _ _ h => h
    intro _ w₅ hkept₅
    have hfree₅ : Free operationId w₅ := free_congr hfree₄ hkept₅.active
    have hstarted : Started operationId w₅.log := by
      refine ⟨attempt, hkept₅.log _ (hkept₄.log _ (hlog₃ _ ?_))⟩
      exact List.mem_append_left _ (List.mem_append_right _ List.mem_cons_self)
    have hentries₅ : w₅.entries = [] := by rw [hkept₅.entries, hkept₄.entries, hempty hcomplete]
    rw [ensures_bind]
    apply (put_ensures ht (by exact fun _ => ⟨hentries₅, hstarted⟩) hfree₅
      (free_congr hfree₅ rfl)).mono _ fun _ _ h => h
    rintro _ w₆ rfl
    have hfree₆ : Free operationId (w₅.after (.recorded operationId ⟨.completed, attempt⟩)) :=
      free_congr hfree₅ rfl
    rw [ensures_bind]
    apply (append_ensures ht hfree₆).mono _ fun _ _ h => h
    intro _ w₇ hkept₇
    have hfree₇ : Free operationId w₇ := free_congr hfree₆ hkept₇.active
    have hcompleted : Completed operationId w₇.log :=
      ⟨attempt, hkept₇.log _ (List.mem_append_right _ List.mem_cons_self)⟩
    rw [ensures_bind]
    apply (put_ensures ht (by exact ⟨hfree₇, fun _ => hcompleted⟩) hfree₇ (free_activated rfl)).mono
      _ fun _ _ h => h
    rintro _ w₈ rfl
    refine ensures_pure.mpr ⟨?_, Or.inl ⟨rfl, rfl⟩⟩
    rintro id ⟨hid, -⟩
    cases hid
    obtain ⟨found, hfound⟩ := hcompleted
    exact ⟨found, List.mem_append_left _ hfound⟩
  · refine ensures_pure.mpr ⟨truthful_of_ne nofun, Or.inr ⟨?_, hfree₃⟩⟩
    exact hfewer (Bool.eq_false_iff.mpr hpending) (by decide) (by decide)

/-- The records and the marker of a completion have their event in the log. -/
structure Known (w : State) : Prop where
  records : ∀ id operation, w.operations id = some operation → .recorded id operation ∈ w.log
  marker : ∀ id, w.active = some ⟨id, .completed⟩ → Completed id w.log

theorem Known.completed (h : Known w) {operation : OAuthReprovisionOperation}
    (hstatus : operation.status = .completed)
    (hfound : operationOf w operationId = some operation) : Completed operationId w.log := by
  have hrecord := h.records operationId operation (Option.filter_eq_some_iff.mp hfound).1
  rcases operation with ⟨status, attempt⟩
  cases hstatus
  exact ⟨attempt, hrecord⟩

theorem tryReprovision_ensures (h : Known w) (ht : Tolerated faults operationId stopped) :
    Ensures Allowed (tryReprovision faults operationId) w
      (fun response w' => Truthful response w' ∧
        (Free operationId w → Progress operationId w response w')) stopped := by
  unfold tryReprovision
  rw [ensures_bind, ensures_look, ensures_bind, ensures_look]
  refine ensures_ite.mpr ⟨fun hother => ?_, fun hnone => ?_⟩
  · refine ensures_pure.mpr ⟨truthful_of_ne nofun, fun hfree => ?_⟩
    unfold anotherActive at hother
    cases hsome : unresolved w with
    | none => rw [hsome, Option.any_none] at hother; cases hother
    | some other =>
      rw [hsome, Option.any_some] at hother
      exact absurd (hfree other hsome) (of_decide_eq_true hother)
  · have hfree : Free operationId w := by
      intro other hother
      rw [anotherActive, hother, Option.any_some, decide_eq_true_eq, not_not] at hnone
      exact hnone
    have hrun : ∀ attempt eventType, Ensures Allowed (do
          appendOAuthReprovisionEvent faults operationId attempt eventType
          runAttempt faults operationId attempt) w
        (fun response w' => Truthful response w' ∧ (Free operationId w → Progress operationId w response w'))
        stopped := by
      intro attempt eventType
      rw [ensures_bind]
      apply (append_ensures ht hfree).mono _ fun _ _ h => h
      intro _ w₁ hkept
      apply (runAttempt_ensures ht (free_congr hfree hkept.active)).mono _ fun _ _ h => h
      rintro response w₂ ⟨htruthful, hprogress⟩
      refine ⟨htruthful, fun _ => ?_⟩
      rw [Progress, hkept.entries] at hprogress
      exact hprogress
    cases hexisting : operationOf w operationId with
    | none => exact hrun 1 .started
    | some operation =>
      refine ensures_ite.mpr ⟨fun hstatus => ?_, fun _ => hrun (operation.attempt+1) .resumed⟩
      have hcompleted := h.completed hstatus hexisting
      have hreply : ∀ w', (∀ e ∈ w.log, e ∈ w'.log) → Truthful
          { status := 200, operationId, report := some (.status .completed),
            attempt := operation.attempt } w' := by
        rintro w' hlog id ⟨hid, -⟩
        cases hid
        obtain ⟨attempt, hmem⟩ := hcompleted
        exact ⟨attempt, hlog _ hmem⟩
      rw [ensures_bind, ensures_look]
      refine ensures_ite.mpr ⟨fun _ => ?_, fun _ => ?_⟩
      · rw [ensures_bind]
        apply (put_ensures ht (by exact ⟨hfree, fun _ => hcompleted⟩) hfree
          (free_activated rfl)).mono _ fun _ _ h => h
        rintro _ w₁ rfl
        exact ensures_pure.mpr ⟨hreply _ fun e he => List.mem_append_left _ he, fun _ => Or.inl ⟨rfl, rfl⟩⟩
      · exact ensures_pure.mpr ⟨hreply w fun e he => he, fun _ => Or.inl ⟨rfl, rfl⟩⟩

theorem markOutcomeUnknown_ensures (hfree : Free operationId w) :
    Ensures Allowed (markOutcomeUnknown faults operationId) w (fun response w' => Truthful response w')
      fun _ _ => True := by
  have ht : Tolerated faults operationId fun _ _ => True := Or.inl fun _ _ _ => trivial
  have hunknown : (outcomeUnknownResponse operationId).report ≠ some (.status .completed) := nofun
  unfold markOutcomeUnknown
  rw [ensures_bind, ensures_look]
  cases (operationOf w operationId).filter (·.status ≠ .completed) with
  | none => exact ensures_pure.mpr (truthful_of_ne hunknown)
  | some persisted =>
    simp only
    rw [ensures_bind]
    apply (put_ensures ht (by exact nofun) hfree (free_congr hfree rfl)).mono _ fun _ _ h => h
    rintro _ w₁ rfl
    have hfree₁ : Free operationId (w.after (.recorded operationId ⟨.outcomeUnknown, persisted.attempt⟩)) :=
      free_congr hfree rfl
    rw [ensures_bind]
    apply (put_ensures ht (by exact ⟨hfree₁, nofun⟩) hfree₁ (free_activated rfl)).mono _ fun _ _ h => h
    rintro _ w₂ rfl
    rw [ensures_bind]
    apply (append_ensures ht (free_activated rfl)).mono _ fun _ _ h => h
    exact fun _ w₃ _ => ensures_pure.mpr (truthful_of_ne hunknown)

theorem runOAuthReprovision_ensures (configured : Bool) (h : Known w) :
    Ensures Allowed (runOAuthReprovision faults configured operationId) w
      (fun response w' => Truthful response w')
      fun _ _ => True := by
  have hunknown : (outcomeUnknownResponse operationId).report ≠ some (.status .completed) := nofun
  unfold runOAuthReprovision
  refine ensures_ite.mpr ⟨fun _ => ensures_pure.mpr (truthful_of_ne nofun), fun _ => ?_⟩
  apply ensures_rescue
  have ht : Tolerated faults operationId fun _ t => Free operationId t := Or.inl fun _ _ hfree => hfree
  apply (tryReprovision_ensures h ht).mono
  · exact fun _ _ hpost => hpost.1
  · intro stop t hfree
    refine ⟨fun _ => ?_, fun _ => trivial⟩
    apply ensures_rescue
    apply (markOutcomeUnknown_ensures hfree).mono
    · exact fun _ _ hpost => hpost
    · exact fun _ _ _ => ⟨fun _ => ensures_pure.mpr (truthful_of_ne hunknown), fun _ => trivial⟩

theorem perform_ensures (writes : List Write) (result : Except Stop ℕ)
    (h : unresolved w = none ∨ ∀ write ∈ writes, write = .elsewhere) :
    Ensures Allowed (perform writes result) w (fun response w' => Truthful response w') fun _ _ => True := by
  have hadmitted : Admitted State.after Allowed w (writes.map Write.event) := by
    induction writes generalizing w with
    | nil => exact trivial
    | cons write writes ih =>
      have hactive : unresolved (w.after write.event) = unresolved w := by cases write <;> rfl
      refine ⟨?_, ih ?_⟩
      · cases write with
        | elsewhere => exact trivial
        | stored entry => exact h.resolve_right fun hall => by cases hall _ List.mem_cons_self
        | deleted key => exact h.resolve_right fun hall => by cases hall _ List.mem_cons_self
      · rw [hactive]
        exact h.imp_right fun hall other hmem => hall other (List.mem_cons_of_mem _ hmem)
  refine ⟨hadmitted, ?_⟩
  cases result with
  | ok status => exact truthful_of_ne nofun
  | error stop => exact trivial

theorem readOAuthReprovisionStatus_truthful (h : Known w) :
    Truthful (readOAuthReprovisionStatus w operationId) w := by
  rintro id ⟨hid, hreport⟩
  rw [readOAuthReprovisionStatus] at hid hreport
  split_ifs at hid hreport with hother
  · obtain ⟨active, hactive, hstatus⟩ := Option.map_eq_some_iff.mp hreport
    rw [Report.status.injEq] at hstatus
    rw [Bool.and_eq_true, anotherActive, unresolved, hactive, Option.filter_some, hstatus] at hother
    cases hother.2
  · cases hid
    have hcompleted := Option.some.inj hreport
    unfold statusOf at hcompleted
    cases hoperation : operationOf w operationId with
    | some operation =>
      simp only [hoperation] at hcompleted
      split_ifs at hcompleted with hboth
      · cases hcompleted
      · exact h.completed (Report.status.inj hcompleted) hoperation
    | none =>
      simp only [hoperation] at hcompleted
      cases hactive : w.active.filter (·.operationId = operationId) with
      | none =>
        rw [hactive] at hcompleted
        cases hcompleted
      | some active =>
        rw [hactive] at hcompleted
        obtain ⟨hmarker, hid⟩ := Option.filter_eq_some_iff.mp hactive
        rcases active with ⟨found, status⟩
        cases Report.status.inj hcompleted
        cases of_decide_eq_true hid
        exact h.marker found hmarker

theorem operationIdOf_error {request : Request} {url : Url} {response : Response}
    (h : operationIdOf request url = .error response) : response.report = none := by
  unfold operationIdOf at h
  repeat' split at h
  all_goals
    cases h
    try rfl

theorem parse_error {request : Request} {url : Url} {response : Response}
    (h : (if env.configurationValid then parseFixedOperationId request url
      else .error { status := 404, error := "not_found" }) = .error response) : response.report = none := by
  unfold parseFixedOperationId at h
  split_ifs at h
  · cases h
    rfl
  · cases hid : operationIdOf request url with
    | error found =>
      rw [hid] at h
      cases h
      exact operationIdOf_error hid
    | ok operationId =>
      simp only [hid] at h
      split_ifs at h
      cases h
      rfl
  · cases h
    rfl

/-- Whatever a request does is allowed, and a completion that it reports is in
the log. -/
theorem fetch_ensures (request : Request) (h : Known w) :
    Ensures Allowed (fetch env faults request) w
      (fun response w' => Truthful response w') fun _ _ => True := by
  have hrefusal : ∀ {status : ℕ} {error : Option String}, Ensures Allowed
      (pure { status, error } : Program Response) w
          (fun response w' => Truthful response w') fun _ _ => True :=
    fun {_ _} => ensures_pure.mpr (truthful_of_ne nofun)
  have hcaught : ∀ stop t, True →
    (stop = Stop.failed → Ensures Allowed (pure unavailable : Program Response) t
      (fun response w' => Truthful response w') fun _ _ => True) ∧ (stop = .crashed → True) :=
    fun _ _ _ => ⟨fun _ => ensures_pure.mpr (truthful_of_ne nofun), fun _ => trivial⟩
  unfold fetch
  apply ensures_rescue
  have hserialized : Ensures Allowed (fetchSerialized env faults request) w
    (fun response w' => Truthful response w')
      fun _ _ => True := by
    unfold fetchSerialized
    refine ensures_ite.mpr ⟨fun _ => hrefusal, fun _ => ?_⟩
    cases request.url with
    | none => exact hrefusal
    | some url =>
      refine ensures_ite.mpr ⟨fun _ => ?_, fun _ => ensures_ite.mpr ⟨fun _ => ?_, fun _ => ?_⟩⟩
      · unfold handleOAuthReprovision
        split
        · rename_i response hparse
          refine ensures_pure.mpr (truthful_of_ne ?_)
          rw [parse_error hparse]
          nofun
        · refine ensures_ite.mpr ⟨fun _ => hrefusal, fun _ => ensures_ite.mpr ⟨fun _ => ?_, fun _ => ?_⟩⟩
          · exact ensures_look.mpr (readOAuthReprovisionStatus_truthful h)
          · exact runOAuthReprovision_ensures _ h
      · unfold handleAdminBootstrap
        split
        · rename_i response hparse
          refine ensures_pure.mpr (truthful_of_ne ?_)
          rw [parse_error hparse]
          nofun
        · refine ensures_ite.mpr
            ⟨fun _ => hrefusal, fun _ => ensures_ite.mpr ⟨fun _ => hrefusal, fun _ => ?_⟩⟩
          rw [ensures_bind, ensures_look]
          exact perform_ensures _ _ (Or.inr fun write hmem => List.eq_of_mem_replicate hmem)
      · refine ensures_ite.mpr ⟨fun _ => hrefusal, fun _ => ensures_ite.mpr ⟨fun _ => hrefusal, fun _ => ?_⟩⟩
        apply ensures_rescue
        have hordinary : Ensures Allowed (serveOrdinary env request) w
          (fun response w' => Truthful response w')
            fun _ _ => True := by
          unfold serveOrdinary
          rw [ensures_bind, ensures_look]
          refine ensures_ite.mpr ⟨fun _ => hrefusal, fun hnone => ?_⟩
          rw [ensures_bind, ensures_look]
          exact perform_ensures _ _ (Or.inl (Option.not_isSome_iff_eq_none.mp hnone))
        exact hordinary.mono (fun _ _ hpost => hpost) hcaught
  exact hserialized.mono (fun _ _ hpost => hpost) hcaught

end Runs

end AccessStack.Reprovision
