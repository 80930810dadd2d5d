import AccessStack.Release.Outcome
import AccessStack.Release.Tables

/-!
# The end of a run over whole calls

Inside a transaction a run may be done before its completion is written. At
the end of every call the event `run.succeeded` is on record exactly for the
runs that have succeeded, as their last event, and a run that is done has
succeeded unless the call has ended the last step of a paused run.
-/

set_option autoImplicit false

namespace AccessStack.Release
open AccessStack.Text AccessStack.Rows AccessStack.JsonText

section Closing
variable {o : Orchestrator} {L L' : Ledger}

/-- The event `run.succeeded` is on record for the runs that have succeeded
and for no other, and nothing comes after it. -/
def Closed (L : Ledger) : Prop :=
  ∀ r ∈ L.releaseRuns,
    (∀ e ∈ L.runEvents, e.runId = r.runId → e.eventType = .runSucceeded →
      r.status = .succeeded ∧ e.seq = r.lastSeq) ∧
    (r.status = .succeeded → ∃ e ∈ L.runEvents, e.runId = r.runId ∧ e.eventType = .runSucceeded)

def Alive (L : Ledger) (runId : String) : Prop :=
  ∀ r ∈ L.releaseRuns, r.runId = runId → r.status ≠ .succeeded

/-- The run to whose log a write appends. -/
def Write.logged : Write → Option RunRow
  | .log run _ _ _ _ => some run
  | .complete run _ _ => some run
  | _ => none

theorem closed_perform {w : Write} (hL : Written o L) (hg : Guard o L w)
    (hn : NoCollision o.host (perform o.host L w))
    (hopen : ∀ run ∈ w.logged, run.status ≠ .succeeded) (hc : Closed L) :
    Closed (perform o.host L w) := by
  have hk := hL.keyed
  have hself : ∀ run ∈ w.logged, ∀ r ∈ L.releaseRuns, r.runId = run.runId → r = run := by
    intro run hm r hr he
    have hrun : L.run? run.runId = some run := by
      cases w <;> simp only [Write.logged, Option.mem_def, Option.some.injEq, reduceCtorEq] at hm
      · exact hm ▸ hg.1
      · exact hm ▸ hg.1
    exact List.inj_on_of_nodup_map hk.runs hr (run_mem hrun) he
  intro r' hr'
  obtain ⟨r, hr, hid, hst, hseq⟩ | ⟨b, q, t, rfl, hplanned, _, hid⟩ := seq_before hk.runs hr'
  · rw [events_perform.1, hst, hseq, ← hid]
    constructor
    · intro e he hrun htype
      rcases List.mem_append.mp he with he | he
      · obtain ⟨hs, hlast⟩ := (hc r hr).1 e he hrun htype
        refine ⟨succeeded_perform hL hg hr hs (hL.finished r hr hs), hlast.trans ?_⟩
        cases w with
        | log run t payload actorId now =>
          simp only [Write.lastSeq]
          split
          · rename_i hm
            obtain rfl := hself run rfl r hr hm
            exact absurd hs (hopen r rfl)
          · rfl
        | complete run actorId now =>
          simp only [Write.lastSeq]
          split
          · rename_i hm
            obtain rfl := hself run rfl r hr hm
            exact absurd hs (hopen r rfl)
          · rfl
        | _ => rfl
      · cases w with
        | log run t payload actorId now =>
          obtain rfl := List.mem_singleton.mp he
          exact absurd htype hg.2
        | complete run actorId now =>
          obtain rfl := List.mem_singleton.mp he
          have hm : r.runId = run.runId := hrun.symm
          simp [Write.runStatus, Write.lastSeq, hm]
        | _ => cases he
    · intro hs
      obtain hold | ⟨run, actorId, now, rfl, hrun⟩ := runStatus_succeeded hs
      · obtain ⟨e, he, h1, h2⟩ := (hc r hr).2 hold
        exact ⟨e, List.mem_append_left _ he, h1, h2⟩
      · exact ⟨_, List.mem_append_right _ (List.mem_singleton.mpr rfl), hrun, rfl⟩
  · constructor
    · intro e he hrun _
      have he : e ∈ L.runEvents := he
      obtain ⟨r, hr, heq⟩ := List.mem_map.mp (hk.eventRun e he)
      have hfresh : r.runId = o.host.randomUUID L.draws := heq.trans (hrun.trans hid)
      exact absurd (hfresh ▸ hk.runDrawn r hr) (fresh_not_drawn hn (Nat.lt_succ_self L.draws))
    · intro hs
      rw [hplanned] at hs
      cases hs

/-- The writes of a call before its completion append to the log of one run. -/
def Write.logsOnly (runId : String) : Write → Prop
  | .log run _ _ _ _ => run.runId = runId
  | .complete _ _ _ => False
  | _ => True

theorem closed_commits {ws : List Write} {runId : String} (hL : Written o L)
    (h : Commits o L ws L') (hn : NoCollision o.host L') (hws : ∀ w ∈ ws, w.logsOnly runId)
    (hc : Closed L) (ha : Alive L runId) : Closed L' ∧ Alive L' runId := by
  refine (hL.along (P := fun L1 => Closed L1 ∧ Alive L1 runId) ?_ h hn ⟨hc, ha⟩).2
  intro L1 w hw hL1 hg hn1 ⟨hc1, ha1⟩
  have honly := hws w hw
  constructor
  · refine closed_perform hL1 hg hn1 ?_ hc1
    intro run hm
    cases w with
    | log run' t payload actorId now =>
      obtain rfl : run' = run := by simpa [Write.logged] using hm
      exact ha1 run' (run_mem hg.1) honly
    | complete run' actorId now => exact honly.elim
    | _ => cases hm
  · intro r' hr' hid' hs'
    obtain ⟨r, hr, hid, hst⟩ | ⟨b, q, t, rfl, hplanned, _⟩ := run_before hr'
    · obtain hold | ⟨run, actorId, now, rfl, _⟩ := runStatus_succeeded (hst ▸ hs')
      · exact ha1 r hr (hid.trans hid') hold
      · exact honly
    · rw [hplanned] at hs'
      cases hs'

theorem closed_call {L1 : Ledger} {ws tail : List Write} {runId : String} (hL : Written o L)
    (hw : Commits o L ws L1) (ht : Commits o L1 tail L') (hn : NoCollision o.host L')
    (hws : ∀ w ∈ ws, w.logsOnly runId)
    (htail : tail = [] ∨ ∃ run actorId now, run.runId = runId ∧ tail = [.complete run actorId now])
    (ha : Alive L runId) (hc : Closed L) : Closed L' := by
  have hn1 := hn.mono (draws_commits ht)
  obtain ⟨hc1, ha1⟩ := closed_commits hL hw hn1 hws hc ha
  obtain rfl | ⟨run, actorId, now, hid, rfl⟩ := htail
  · obtain ⟨_, rfl⟩ := ht
    exact hc1
  · obtain ⟨⟨hg, _⟩, rfl⟩ := ht
    refine closed_perform (hL.commits hw hn1) hg hn ?_ hc1
    rintro _ ⟨⟩
    exact ha1 run (run_mem hg.1) hid

theorem alive_of_busy (hL : Written o L) {runId : String} (hb : Busy L runId) : Alive L runId := by
  rintro r hr rfl hs
  exact not_busy_of_done hL (hL.finished r hr hs) hb

theorem alive_of_status (hL : Written o L) {runId : String} {run : RunRow}
    (hrun : L.run? runId = some run) (hst : run.status ≠ .succeeded) : Alive L runId := by
  rintro r hr rfl
  rw [hL.keyed.find_run hr] at hrun
  obtain rfl := Option.some.inj hrun
  exact hst

theorem closed_round (hL : Written o L) (hround : RecoveryRound o L L')
    (hn : NoCollision o.host L') (hc : Closed L) : Closed L' := by
  obtain ⟨a, d, t, log, hl, hw⟩ := hround
  obtain ⟨run, _, _, _, _, rfl, hid⟩ := isLog_log hl
  have hbusy : Busy L a.runId := ⟨a, hw.1.1.1, rfl, .inl hw.1.1.2.1⟩
  exact (closed_commits hL hw hn (by simp [Write.logsOnly, hid]) hc (alive_of_busy hL hbusy)).1

end Closing

section Concluding
variable {o : Orchestrator} {L L' : Ledger}

/-- A run without steps and gates has nothing that could complete it. -/
def HasWork (L : Ledger) (runId : String) : Prop :=
  (∃ s ∈ L.runSteps, s.runId = runId) ∨ ∃ g ∈ L.runHealthGates, g.runId = runId

def Concluded (L : Ledger) : Prop :=
  ∀ r ∈ L.releaseRuns, HasWork L r.runId → AllDone L r.runId → r.status = .succeeded

/-- The writes that let a step succeed or a gate pass. -/
def Write.advances (runId : String) : Write → Prop
  | .finish a _ _ _ => a.runId = runId
  | .settle a _ _ _ => a.runId = runId
  | .decide runId' _ _ _ _ _ => runId' = runId
  | _ => False

def Write.inserts : Write → Bool
  | .insertRun .. => true
  | _ => false

theorem stepStatus_succeeded {w : Write} {s : StepRow} (h : w.stepStatus s = .succeeded) :
    s.status = .succeeded ∨ w.advances s.runId := by
  cases w with
  | finish a input sha now =>
    simp only [Write.stepStatus] at h
    simp only [Write.advances]
    grind
  | settle a d outcome now =>
    simp only [Write.advances]
    cases outcome <;> simp only [Write.stepStatus] at h <;> grind
  | _ =>
    simp only [Write.stepStatus] at h
    grind

theorem undone_perform {w : Write} {runId : String} (hw : ¬w.advances runId)
    (h : ¬AllDone L runId) : ¬AllDone (perform o.host L w) runId := by
  intro hd
  refine h ⟨fun s hs hrun => ?_, fun g hg hrun => ?_⟩
  · obtain ⟨s', hs', hid, hst⟩ := step_after (h := o.host) (w := w) hs
    have hdone := hd.1 s' hs' ((congrArg (·.1) hid : s'.runId = s.runId).trans hrun)
    exact (stepStatus_succeeded (hst ▸ hdone)).resolve_right (hrun ▸ hw)
  · obtain ⟨g', hg', hid, hst⟩ := gate_after (h := o.host) (w := w) hg
    have hdone := hd.2 g' hg' ((congrArg (·.1) hid : g'.runId = g.runId).trans hrun)
    obtain hold | ⟨_, _, _, _, _, _, rfl, he, _⟩ := gateStatus_passed (hst ▸ hdone)
    · exact hold
    · exact absurd (he.symm.trans hrun) hw

theorem work_before {w : Write} (hw : w.inserts = false) {runId : String}
    (h : HasWork (perform o.host L w) runId) : HasWork L runId := by
  rcases h with ⟨s', hs', hrun⟩ | ⟨g', hg', hrun⟩
  · obtain ⟨s, hs, hid, _⟩ | ⟨_, _, _, _, _, rfl, _⟩ := step_before hs'
    · exact .inl ⟨s, hs, (congrArg (·.1) hid : s.runId = s'.runId).trans hrun⟩
    · cases hw
  · obtain ⟨g, hg, hid, _⟩ | ⟨_, _, _, _, rfl, _⟩ := gate_before hg'
    · exact .inr ⟨g, hg, (congrArg (·.1) hid : g.runId = g'.runId).trans hrun⟩
    · cases hw

/-- What the writes of a call leave of a run that they do not advance. -/
theorem commits_run {ws : List Write} (hL : Written o L) (h : Commits o L ws L')
    (hn : NoCollision o.host L') (hins : ∀ w ∈ ws, w.inserts = false) {r' : RunRow}
    (hr' : r' ∈ L'.releaseRuns) : ∃ r ∈ L.releaseRuns, r.runId = r'.runId ∧
      (HasWork L' r'.runId → HasWork L r.runId) ∧
      (AllDone L' r'.runId → AllDone L r.runId ∨ ∃ w ∈ ws, w.advances r'.runId) ∧
      (r.status = .succeeded → r'.status = .succeeded) := by
  obtain ⟨hg, rfl⟩ := h
  induction ws generalizing L with
  | nil => exact ⟨r', hr', rfl, id, .inl, id⟩
  | cons w ws ih =>
    have hn1 := hn.mono (draws_commits ⟨hg.2, rfl⟩)
    obtain ⟨r1, hr1, hid1, hwork1, hdone1, hst1⟩ := ih (hL.write w hg.1 hn1)
      (fun v hv => hins v (List.mem_cons_of_mem w hv)) hg.2 hn hr'
    obtain ⟨r, hr, hid, hst⟩ | ⟨_, _, _, rfl, _⟩ := run_before hr1
    · refine ⟨r, hr, hid.trans hid1, fun hwork => ?_, fun hdone => ?_, fun hs => hst1 ?_⟩
      · exact hid ▸ work_before (hins w List.mem_cons_self) (hwork1 hwork)
      · rcases hdone1 hdone with hd | ⟨v, hv, hadv⟩
        · by_cases hadv : w.advances r'.runId
          · exact .inr ⟨w, List.mem_cons_self, hadv⟩
          · left
            by_contra hund
            have hkeep := undone_perform (o := o) (w := w) (by rwa [hid, hid1]) hund
            exact hkeep (hid ▸ hd)
        · exact .inr ⟨v, List.mem_cons_of_mem w hv, hadv⟩
      · rw [hst]
        exact succeeded_perform hL hg.1 hr hs (hL.finished r hr hs)
    · cases hins _ List.mem_cons_self

theorem concluded_commits {ws : List Write} (hL : Written o L) (h : Commits o L ws L')
    (hn : NoCollision o.host L') (hins : ∀ w ∈ ws, w.inserts = false) (hc : Concluded L)
    (hadv : ∀ w ∈ ws, ∀ r' ∈ L'.releaseRuns, w.advances r'.runId → AllDone L' r'.runId →
      r'.status = .succeeded) : Concluded L' := by
  intro r' hr' hwork hdone
  obtain ⟨r, hr, hid, hw, hd, hst⟩ := commits_run hL h hn hins hr'
  rcases hd hdone with hd | ⟨w, hw, ha⟩
  · exact hst (hc r hr (hw hwork) hd)
  · exact hadv w hw r' hr' ha hdone

theorem concluded_round (hL : Written o L) (hround : RecoveryRound o L L')
    (hn : NoCollision o.host L') (hc : Concluded L) : Concluded L' := by
  obtain ⟨a, d, t, log, hl, hw⟩ := hround
  obtain ⟨run, _, _, _, _, rfl, _⟩ := isLog_log hl
  exact concluded_commits hL hw hn (by simp [Write.inserts]) hc (by simp [Write.advances])

/-- A new run has its work before it. -/
theorem concluded_insertRun {b : Blueprint} {q : RunRequest} {now : String} (hL : Written o L)
    (hn : NoCollision o.host (perform o.host L (.insertRun b q now))) (hc : Concluded L) :
    Concluded (perform o.host L (.insertRun b q now)) := by
  have hk := hL.keyed
  have hfresh : ∀ runId ∈ L.releaseRuns.map (·.runId), runId ≠ o.host.randomUUID L.draws := by
    rintro runId hr rfl
    obtain ⟨r, hm, he⟩ := List.mem_map.mp hr
    exact fresh_not_drawn hn (Nat.lt_succ_self L.draws) (he ▸ hk.runDrawn r hm)
  intro r' hr' hwork hdone
  rcases List.mem_append.mp hr' with hr | hr
  · have hold := hfresh r'.runId (List.mem_map_of_mem hr)
    refine hc r' hr ?_ ?_
    · rcases hwork with ⟨s, hs, hrun⟩ | ⟨g, hg, hrun⟩
      · rcases List.mem_append.mp hs with hs | hs
        · exact .inl ⟨s, hs, hrun⟩
        · obtain ⟨i, d, _, rfl⟩ := newSteps_mem hs
          exact absurd hrun.symm hold
      · rcases List.mem_append.mp hg with hg | hg
        · exact .inr ⟨g, hg, hrun⟩
        · obtain ⟨d, _, rfl⟩ := List.mem_map.mp hg
          exact absurd hrun.symm hold
    · by_contra hund
      exact undone_perform (o := o) (w := .insertRun b q now) (by simp [Write.advances]) hund hdone
  · obtain rfl := List.mem_singleton.mp hr
    rcases hwork with ⟨s, hs, hrun⟩ | ⟨g, hg, hrun⟩
    · have hst := hdone.1 s hs hrun
      rcases List.mem_append.mp hs with hs | hs
      · exact absurd hrun (hfresh _ (hk.stepRun s hs))
      · obtain ⟨i, d, _, rfl⟩ := newSteps_mem hs
        cases hst
    · have hst := hdone.2 g hg hrun
      rcases List.mem_append.mp hg with hg | hg
      · exact absurd hrun (hfresh _ (hk.gateRun g hg))
      · obtain ⟨d, _, rfl⟩ := List.mem_map.mp hg
        cases hst

/-- A completion at the end of a call leaves no run behind that is done and
not paused. -/
theorem completion_concludes {runId actorId now : String} {tail : List Write} (hL : Written o L)
    (hc : Completion L runId actorId now tail) (ht : Commits o L tail L')
    (hpaused : AllDone L runId → ∀ run, L.run? runId = some run →
      run.status ≠ .pausedOutcomeUnknown) :
    ∀ r' ∈ L'.releaseRuns, r'.runId = runId → AllDone L' runId → r'.status = .succeeded := by
  obtain ⟨run, hrun, ⟨rfl, hwhy⟩ | rfl⟩ := hc
  · obtain ⟨_, rfl⟩ := ht
    rintro r' hr' rfl hd
    exfalso
    rcases hwhy with h | h | h
    · exact (run_id hrun ▸ hL.failed_doomed run (run_mem hrun) h).not_done hL hd
    · exact hpaused hd run hrun h
    · exact h hd
  · obtain ⟨_, rfl⟩ := ht
    intro r' hr' hid' _
    obtain ⟨r, _, hid, hst⟩ | ⟨_, _, _, he, _⟩ :=
      run_before (h := o.host) (L := L) (w := .complete run actorId now) hr'
    · rw [hst]
      simp [Write.runStatus, hid, hid', run_id hrun]
    · cases he

/-- The call ends the last step of a paused run. -/
def StrandsRun (L : Ledger) : Op → Prop
  | .recordStepOutcome operationId input _ _ =>
    ∃ a, Ledger.latestAttempt (L.stepAttempts.filter (·.operationId == operationId)) = some a ∧
      a.status = .intentRecorded ∧ input.outcome = .succeeded ∧
      L.status? a.runId = some .pausedOutcomeUnknown ∧
      (∀ s ∈ L.runSteps, s.runId = a.runId → s.stepId ≠ a.stepId → s.status = .succeeded) ∧
      ∀ g ∈ L.runHealthGates, g.runId = a.runId → g.status = .passed
  | _ => False

/-- A call that ends in a completion, or that records a failure. -/
theorem completing_call {L1 : Ledger} {ws tail : List Write} {runId actorId now : String}
    (hL : Written o L) (hw : Commits o L ws L1) (ht : Commits o L1 tail L')
    (hn : NoCollision o.host L') (hins : ∀ w ∈ ws, w.inserts = false)
    (hadv : ∀ w ∈ ws, ∀ r, w.advances r → r = runId) (hlogs : ∀ w ∈ ws, w.logsOnly runId)
    (ha : Alive L runId)
    (hend : (Doomed L1 runId ∧ tail = []) ∨ (Completion L1 runId actorId now tail ∧
      (AllDone L1 runId → L1.status? runId ≠ some .pausedOutcomeUnknown)))
    (hc : Closed L ∧ Concluded L) : Closed L' ∧ Concluded L' := by
  have hL1 := hL.commits hw (hn.mono (draws_commits ht))
  have htail : tail = [] ∨ ∃ run, run.runId = runId ∧ tail = [.complete run actorId now] :=
    hend.elim (fun h => .inl h.2) fun h => completion_tail h.1
  have hquiet : (∀ w ∈ tail, w.inserts = false) ∧ ∀ w ∈ tail, ∀ r, ¬w.advances r := by
    obtain rfl | ⟨run, _, rfl⟩ := htail <;> simp [Write.inserts, Write.advances]
  have hdone : ∀ r' ∈ L'.releaseRuns, r'.runId = runId → AllDone L' runId →
      r'.status = .succeeded := by
    obtain ⟨hf, rfl⟩ | ⟨hcompletion, hpaused⟩ := hend
    · obtain ⟨_, rfl⟩ := ht
      exact fun _ _ _ hd => absurd hd (hf.not_done hL1)
    · refine completion_concludes hL1 hcompletion ht fun hd run hrun hst => hpaused hd ?_
      rw [Ledger.status?, hrun, Option.map_some, hst]
  refine ⟨closed_call hL hw ht hn hlogs ?_ ha hc.1, ?_⟩
  · rcases htail with hnone | ⟨run, hid, he⟩
    · exact .inl hnone
    · exact .inr ⟨run, actorId, now, hid, he⟩
  · refine concluded_commits hL (commits_append hw ht) hn ?_ hc.2 ?_
    · intro w hm
      rcases List.mem_append.mp hm with hm | hm
      · exact hins w hm
      · exact hquiet.1 w hm
    · intro w hm r' hr' hwa hd
      rcases List.mem_append.mp hm with hm | hm
      · have hid := hadv w hm _ hwa
        exact hdone r' hr' hid (hid ▸ hd)
      · exact absurd hwa (hquiet.2 w hm _)

theorem record_recorded {operationId : String} {input : RecordStepOutcomeInput}
    {actorId now : String} {snapshot : RunSnapshot} (hL : Written o L)
    (h : recordStepOutcome o L operationId input actorId now = .ok (snapshot, L'))
    (hn : NoCollision o.host L')
    (hsafe : ¬StrandsRun L (.recordStepOutcome operationId input actorId now))
    (hc : Closed L ∧ Concluded L) : Closed L' ∧ Concluded L' := by
  obtain ⟨a, ha, ⟨rfl, _⟩ | ⟨rows, L1, tail, log, hl, _, hw, ht, hend⟩⟩ := recordStepOutcome_writes h
  · exact hc
  have hfinish := hw.1.2.1
  have hbusy : Busy L a.runId := ⟨a, hfinish.1, rfl, .inl hfinish.2.1⟩
  have hend' : (Doomed L1 a.runId ∧ tail = []) ∨ (Completion L1 a.runId actorId now tail ∧
      (AllDone L1 a.runId → L1.status? a.runId ≠ some .pausedOutcomeUnknown)) := by
    obtain ⟨hfailed, rfl⟩ | ⟨hout, hcompletion⟩ := hend
    · refine .inl ⟨.inl ?_, rfl⟩
      obtain ⟨run, t, payload, actor, time, rfl, _⟩ := isLog_log hl
      obtain ⟨s, hs⟩ := hfinish.2.2.1
      obtain ⟨h1, h2⟩ := step_key hs
      obtain ⟨s', hs', hid, hst⟩ := step_after (h := o.host)
        (w := .finish a input (resultDigest o.host input actorId) now) (step_mem hs)
      obtain ⟨_, rfl⟩ := hw
      refine ⟨s', hs', (congrArg (·.1) hid : s'.runId = s.runId).trans h1, ?_⟩
      rw [hst]
      simp [Write.stepStatus, h1, h2, hfailed]
    · refine .inr ⟨hcompletion, fun hd hpaused => hsafe ?_⟩
      obtain ⟨hsteps, hgates, _, _, hstatus⟩ := record_tables hl hout hw
      refine ⟨a, ha, hfinish.2.1, hout, (hstatus a.runId).symm.trans hpaused, ?_, ?_⟩
      · intro s hs hrun hne
        refine hd.1 s ?_ hrun
        rw [hsteps, mem_update]
        exact ⟨s, hs, by simp [hne]⟩
      · rw [← hgates]
        exact hd.2
  obtain ⟨run, t, payload, actor, time, rfl, hrun⟩ := isLog_log hl
  exact completing_call hL hw ht hn (by simp [Write.inserts]) (by simp [Write.advances])
    (by simp [Write.logsOnly, hrun]) (alive_of_busy hL hbusy) hend' hc

/-- A resumption that finds everything done does not leave the run paused. -/
theorem resume_done {runId now : String} (hL : Written o L)
    (hd : AllDone (perform o.host L (.resume runId now)) runId) :
    (perform o.host L (.resume runId now)).status? runId ≠ some .pausedOutcomeUnknown := by
  have htables : (perform o.host L (.resume runId now)).runSteps = L.runSteps ∧
      (perform o.host L (.resume runId now)).runHealthGates = L.runHealthGates := by
    simp only [perform, resumeIfNoUnknownOperations]
    split <;> exact ⟨rfl, rfl⟩
  have hbusy : ¬Busy L runId := by
    refine not_busy_of_done hL ?_
    rwa [AllDone, htables.1, htables.2] at hd
  rw [status_perform (by simp)]
  intro hst
  obtain ⟨run, hrun, hst⟩ := Option.map_eq_some_iff.mp hst
  simp only [Write.runStatus, run_id hrun, hbusy, not_false_eq_true, and_true, true_and] at hst
  split at hst
  · split at hst <;> cases hst
  · contradiction

theorem reconcile_recorded {operationId : String} {input : ReconcileOperationInput} {now : String}
    {snapshot : RunSnapshot} (hL : Written o L)
    (h : reconcileOperation o L operationId input now = .ok (snapshot, L'))
    (hn : NoCollision o.host L') (hc : Closed L ∧ Concluded L) : Closed L' ∧ Concluded L' := by
  obtain ⟨a, ha, ⟨rfl, _⟩ | ⟨rows, s, L2, tail, log, hl, _, hs, hst, hw, ht, hend⟩⟩ :=
    reconcileOperation_writes h
  · exact hc
  have hbusy : Busy L a.runId := ⟨a, (latest_operation ha).1, rfl, .inr hst⟩
  have hpaused : AllDone L2 a.runId → L2.status? a.runId ≠ some .pausedOutcomeUnknown := by
    obtain ⟨L1, hsettled, hresume⟩ := commits_split [_, _, _, _] hw
    have hL1 := hL.commits hsettled
      ((hn.mono (draws_commits ht)).mono (draws_commits hresume))
    obtain ⟨_, rfl⟩ := hresume
    exact resume_done hL1
  obtain ⟨run, t, payload, actor, time, rfl, hrun⟩ := isLog_log hl
  exact completing_call hL hw ht hn (by simp [Write.inserts]) (by simp [Write.advances])
    (by simp [Write.logsOnly, hrun]) (alive_of_busy hL hbusy) (.inr ⟨hend, hpaused⟩) hc

theorem resolve_recorded {runId gateId : String} {input : ResolveHealthGateInput} {now : String}
    {snapshot : RunSnapshot} (hL : Written o L)
    (h : resolveHealthGate o L runId gateId input now = .ok (snapshot, L'))
    (hn : NoCollision o.host L') (hc : Closed L ∧ Concluded L) : Closed L' ∧ Concluded L' := by
  obtain ⟨rfl, _⟩ | ⟨rows, ids, L1, tail, log, hl, _, hw, ht, hend⟩ := resolveHealthGate_writes h
  · exact hc
  obtain ⟨run0, hrun0, hrunning⟩ : ∃ run, L.run? runId = some run ∧ run.status = .running :=
    hw.1.2.1.1
  have hend' : (Doomed L1 runId ∧ tail = []) ∨ (Completion L1 runId input.actorId now tail ∧
      (AllDone L1 runId → L1.status? runId ≠ some .pausedOutcomeUnknown)) := by
    obtain ⟨hfailed, rfl⟩ | ⟨hout, hcompletion⟩ := hend
    · refine .inl ⟨.inr ?_, rfl⟩
      obtain ⟨run, t, payload, actor, time, rfl, _⟩ := isLog_log hl
      obtain ⟨_, rfl⟩ := hw
      obtain ⟨d, hd, h1, _, h2⟩ := decision_new o.host (perform o.host L (.evidence rows)) runId gateId
        input (decisionDigest o.host runId gateId input) ids now
      exact ⟨d, hd, h1, h2.trans hfailed⟩
    · refine .inr ⟨hcompletion, fun _ => ?_⟩
      rw [(decide_tables hl hout hw).2.2.2.2, Ledger.status?, hrun0, Option.map_some, hrunning]
      simp
  obtain ⟨run, t, payload, actor, time, rfl, hrun⟩ := isLog_log hl
  exact completing_call hL hw ht hn (by simp [Write.inserts]) (by simp [Write.advances])
    (by simp [Write.logsOnly, hrun]) (alive_of_status hL hrun0 (by simp [hrunning])) hend' hc

/-- A call that neither advances nor completes a run. -/
theorem plain_call {ws : List Write} {runId : String} (hL : Written o L) (hw : Commits o L ws L')
    (hn : NoCollision o.host L') (hins : ∀ w ∈ ws, w.inserts = false)
    (hadv : ∀ w ∈ ws, ∀ r, ¬w.advances r) (hlogs : ∀ w ∈ ws, w.logsOnly runId) (ha : Alive L runId)
    (hc : Closed L ∧ Concluded L) : Closed L' ∧ Concluded L' :=
  ⟨(closed_commits hL hw hn hlogs hc.1 ha).1,
    concluded_commits hL hw hn hins hc.2 fun w hm _ _ hwa => absurd hwa (hadv w hm _)⟩

theorem create_recorded {b : Blueprint} {q : RunRequest} {now : String} {log : Write}
    (hl : log.isLog (o.host.randomUUID L.draws) = true) (hL : Written o L)
    (hw : Commits o L [.insertRun b q now, log] L') (hn : NoCollision o.host L')
    (hc : Closed L ∧ Concluded L) : Closed L' ∧ Concluded L' := by
  obtain ⟨run, t, payload, actor, time, rfl, hrun⟩ := isLog_log hl
  obtain ⟨L1, hinsert, hlog⟩ := commits_split [_] hw
  have hn1 := hn.mono (draws_commits hlog)
  have hL1 := hL.commits hinsert hn1
  constructor
  · have honly : ∀ w ∈ [.insertRun b q now, .log run t payload actor time],
        Write.logsOnly (o.host.randomUUID L.draws) w := by
      simp [Write.logsOnly, hrun]
    refine (closed_commits hL hw hn honly hc.1 ?_).1
    intro r hr he
    have hlt : L.draws < L1.draws := by
      obtain ⟨_, rfl⟩ := hinsert
      exact Nat.lt_succ_self _
    exact absurd (he ▸ hL.keyed.runDrawn r hr) (fresh_not_drawn hn1 hlt)
  · refine concluded_commits hL1 hlog hn (by simp [Write.inserts]) ?_ (by simp [Write.advances])
    obtain ⟨_, rfl⟩ := hinsert
    exact concluded_insertRun hL hn1 hc.2

theorem draws_rounds (h : Relation.ReflTransGen (RecoveryRound o) L L') : L.draws ≤ L'.draws := by
  induction h with
  | refl => exact le_rfl
  | tail _ hround ih =>
    obtain ⟨_, _, _, _, _, hw⟩ := hround
    exact ih.trans (draws_commits hw)

theorem rounds_recorded (h : Relation.ReflTransGen (RecoveryRound o) L L') (hL : Written o L)
    (hn : NoCollision o.host L') (hc : Closed L ∧ Concluded L) : Closed L' ∧ Concluded L' := by
  induction h using Relation.ReflTransGen.head_induction_on with
  | refl => exact hc
  | head hround hrest ih =>
    have hn1 := hn.mono (draws_rounds hrest)
    have hc1 := And.intro (closed_round hL hround hn1 hc.1) (concluded_round hL hround hn1 hc.2)
    obtain ⟨_, _, _, _, _, hw⟩ := hround
    exact ih (hL.commits hw hn1) hc1

theorem recorded_call {op : Op} {r : Response} (hL : Written o L)
    (h : call o L op = .ok (r, L')) (hn : NoCollision o.host L') (hsafe : ¬StrandsRun L op)
    (hc : Closed L ∧ Concluded L) : Closed L' ∧ Concluded L' := by
  cases op with
  | createRun request now =>
    obtain ⟨result, hok, _⟩ := respond_ok h
    obtain ⟨rfl, _⟩ | ⟨b, log, hl, hw⟩ := createRun_writes hok
    · exact hc
    · exact create_recorded hl hL hw hn hc
  | startRun runId actorId now =>
    obtain ⟨result, hok, _⟩ := respond_ok h
    obtain ⟨rfl, _⟩ | ⟨log, hl, hw⟩ := startRun_writes hok
    · exact hc
    · obtain ⟨run, _, _, _, _, rfl, hrun⟩ := isLog_log hl
      obtain ⟨run0, hrun0, hplanned⟩ := hw.1.1
      exact plain_call hL hw hn (by simp [Write.inserts]) (by simp [Write.advances])
        (by simp [Write.logsOnly, hrun]) (alive_of_status hL hrun0 (by simp [hplanned])) hc
  | beginStepAttempt runId stepId key actorId now =>
    obtain ⟨result, hok, _⟩ := respond_ok h
    obtain ⟨_, _, rfl, _⟩ | ⟨row, log, hl, hw, hid, _⟩ := beginStepAttempt_writes hok
    · exact hc
    · obtain ⟨run, _, _, _, _, rfl, hrun⟩ := isLog_log hl
      obtain ⟨run0, hrun0, hrunning⟩ := hw.1.1.1
      exact plain_call hL hw hn (by simp [Write.inserts]) (by simp [Write.advances])
        (by simp [Write.logsOnly, hrun]) (alive_of_status hL (hid ▸ hrun0) (by simp [hrunning])) hc
  | recordStepOutcome operationId input actorId now =>
    obtain ⟨result, hok, _⟩ := respond_ok h
    exact record_recorded hL hok hn hsafe hc
  | markOutcomeUnknown operationId reasonCode actorId now =>
    obtain ⟨result, hok, _⟩ := respond_ok h
    obtain ⟨a, _, ⟨rfl, _⟩ | ⟨s, log, _, hl, hw⟩⟩ := markOutcomeUnknown_writes hok
    · exact hc
    · obtain ⟨run, _, _, _, _, rfl, hrun⟩ := isLog_log hl
      have hbusy : Busy L a.runId := ⟨a, hw.1.1.1, rfl, .inl hw.1.1.2.1⟩
      exact plain_call hL hw hn (by simp [Write.inserts]) (by simp [Write.advances])
        (by simp [Write.logsOnly, hrun]) (alive_of_busy hL hbusy) hc
  | reconcileOperation operationId input now =>
    obtain ⟨result, hok, _⟩ := respond_ok h
    exact reconcile_recorded hL hok hn hc
  | recoverInterruptedOperations actorId now =>
    obtain ⟨result, hok, _⟩ := respond_ok h
    exact rounds_recorded (recover_rounds hL.keyed.attempts hok) hL hn hc
  | resolveHealthGate runId gateId input now =>
    obtain ⟨result, hok, _⟩ := respond_ok h
    exact resolve_recorded hL hok hn hc

theorem recorded_exec {ops : List Op} (hL : Reached o L) (hn : NoCollision o.host (exec o L ops))
    (hsafe : Along o (fun L op => ¬StrandsRun L op) L ops) (hc : Closed L ∧ Concluded L) :
    Closed (exec o L ops) ∧ Concluded (exec o L ops) := by
  induction ops generalizing L with
  | nil => exact hc
  | cons op ops ih =>
    have hn1 := hn.mono (draws_exec o (step o L op) ops)
    refine ih (hL.step op hn1) hn hsafe.2 ?_
    cases hcall : call o L op with
    | error e => rwa [step_error hcall]
    | ok p =>
      rw [step_ok hcall] at hn1 ⊢
      exact recorded_call hL.written hcall hn1 hsafe.1 hc

end Concluding

end AccessStack.Release
