import AccessStack.Release.Effects

/-!
# A recorded failure stops its run

A run with a failed step or a failed gate should never run again. The status
column alone does not remember the failure: marking an operation unknown
overwrites it, and the resumption that follows a reconciliation rebuilds it
from the steps without looking at the gates. The failure is final exactly as
long as no reconciliation closes the last open operation of a run whose only
failure is a gate.
-/

set_option autoImplicit false

namespace AccessStack.Release
open AccessStack.Rows

def Doomed (L : Ledger) (runId : String) : Prop :=
  StepFailed L runId ∨ GateDecidedFailed L runId

/-- A run with a failure on record is failed or paused. -/
def Stopped (L : Ledger) : Prop :=
  ∀ r ∈ L.releaseRuns, Doomed L r.runId → r.status = .failed ∨ r.status = .pausedOutcomeUnknown

def GatesDecided (L : Ledger) : Prop :=
  ∀ g ∈ L.runHealthGates,
    (g.status = .failed → ∃ d ∈ L.healthGateDecisions,
      d.runId = g.runId ∧ d.gateId = g.gateId ∧ d.outcome = .failed) ∧
    (g.status = .passed → ∃ d ∈ L.healthGateDecisions,
      d.runId = g.runId ∧ d.gateId = g.gateId ∧ d.outcome = .passed)

theorem gatesDecided_perform {h : Host} {L : Ledger} {w : Write} (hd : GatesDecided L) :
    GatesDecided (perform h L w) := by
  intro g' hg'
  obtain ⟨g, hg, hid, hst⟩ | ⟨b, q, t, d, rfl, _, rfl⟩ := gate_before hg'
  · have hrun : g.runId = g'.runId := congrArg (·.1) hid
    have hgate : g.gateId = g'.gateId := congrArg (·.2.1) hid
    have hkeep : ∀ outcome, (∃ d ∈ L.healthGateDecisions, d.runId = g.runId ∧ d.gateId = g.gateId ∧
        d.outcome = outcome) → ∃ d ∈ (perform h L w).healthGateDecisions, d.runId = g'.runId ∧
        d.gateId = g'.gateId ∧ d.outcome = outcome := by
      rintro outcome ⟨d, hm, h1, h2, h3⟩
      exact ⟨d, decision_after hm, h1.trans hrun, h2.trans hgate, h3⟩
    have hnew : ∀ outcome, (∃ runId gateId input sha ids now,
        w = .decide runId gateId input sha ids now ∧ g.runId = runId ∧ g.gateId = gateId ∧
        input.outcome = outcome) → ∃ d ∈ (perform h L w).healthGateDecisions,
        d.runId = g'.runId ∧ d.gateId = g'.gateId ∧ d.outcome = outcome := by
      rintro outcome ⟨runId, gateId, input, sha, ids, now, rfl, h1, h2, h3⟩
      obtain ⟨d, hm, hd1, hd2, hd3⟩ := decision_new h L runId gateId input sha ids now
      exact ⟨d, hm, (hd1.trans h1.symm).trans hrun, (hd2.trans h2.symm).trans hgate, hd3.trans h3⟩
    constructor
    · intro hfailed
      rcases gateStatus_failed (hst ▸ hfailed) with hold | hnow
      · exact hkeep _ ((hd g hg).1 hold)
      · exact hnew _ hnow
    · intro hpassed
      rcases gateStatus_passed (hst ▸ hpassed) with hold | hnow
      · exact hkeep _ ((hd g hg).2 hold)
      · exact hnew _ hnow
  · simp [gateRow]

theorem Written.gatesDecided {o : Orchestrator} {L : Ledger} (h : Written o L) :
    GatesDecided L := by
  induction h with
  | opened h =>
    rw [opened_ledger h]
    intro g hg
    cases hg
  | write w _ _ _ ih => exact gatesDecided_perform ih

/-- A new failure sets the run to failed in the same write. -/
theorem doomed_before {h : Host} {L : Ledger} {w : Write} {runId : String}
    (hd : Doomed (perform h L w) runId) :
    Doomed L runId ∨ ∀ r : RunRow, r.runId = runId → w.runStatus L r = .failed := by
  rcases hd with ⟨s', hs', hrun, hst⟩ | ⟨d, hm, hrun, hout⟩
  · obtain ⟨s, hs, hid, hstatus⟩ | ⟨b, q, t, i, d, rfl, _, rfl⟩ := step_before hs'
    · have hsr : s.runId = runId := (congrArg (·.1) hid : s.runId = s'.runId).trans hrun
      rcases stepStatus_failed (hstatus ▸ hst) with hold | ⟨a, input, sha, now, rfl, hm, ho⟩
      · exact .inl (.inl ⟨s, hs, hsr, hold⟩)
      · right
        intro r hr
        simp [Write.runStatus, hr, ← hsr, hm, ho]
    · cases hst
  · obtain hold | ⟨r0, gateId, input, sha, ids, now, rfl, h1, _, h3, _⟩ := decision_before hm
    · exact .inl (.inr ⟨d, hold, hrun, hout⟩)
    · right
      intro r hr
      simp [Write.runStatus, hr, ← hrun, h1, ← h3, hout]

/-- Every write keeps failed runs stopped, except a resumption that finds no
open operation and no failed step. -/
theorem stopped_perform {o : Orchestrator} {L : Ledger} {w : Write} (hL : Written o L)
    (hg : Guard o L w) (hn : NoCollision o.host (perform o.host L w)) (hJ : Stopped L)
    (hres : ∀ r t, w = .resume r t → GateDecidedFailed L r → Busy L r ∨ StepFailed L r) :
    Stopped (perform o.host L w) := by
  have hk := hL.keyed
  intro r' hr' hdoom
  obtain ⟨r, hr, hid, hst⟩ | ⟨b, q, t, rfl, _, hid⟩ := run_before hr'
  · rw [hst]
    rcases doomed_before hdoom with hold | hnew
    · have hstop := hJ r hr (hid ▸ hold)
      cases w with
      | start runId now =>
        obtain ⟨run, hrun, hp⟩ := hg
        simp only [Write.runStatus]
        split
        · rename_i he
          rw [← he, hk.find_run hr] at hrun
          obtain rfl := Option.some.inj hrun
          rcases hstop with h | h <;> simp [h] at hp
        · exact hstop
      | finish a input sha now =>
        simp only [Write.runStatus]
        split
        · exact .inl rfl
        · exact hstop
      | lose a mark d now =>
        simp only [Write.runStatus]
        split
        · exact .inr rfl
        · exact hstop
      | resume runId now =>
        simp only [Write.runStatus]
        split
        · rename_i hc
          split
          · exact .inl rfl
          · rename_i hnf
            have hgate : GateDecidedFailed L runId := by
              have hold : Doomed L runId := by rw [← hc.1, hid]; exact hold
              exact hold.resolve_left hnf
            exact absurd (hres runId now rfl hgate) (not_or.mpr ⟨hc.2.2, hnf⟩)
        · exact hstop
      | complete run actorId now =>
        simp only [Write.runStatus]
        split
        · rename_i he
          have hrun := hg.1
          rw [← he, hk.find_run hr] at hrun
          obtain rfl := Option.some.inj hrun
          exact absurd hstop (not_or.mpr ⟨hg.2.1, hg.2.2.1⟩)
        · exact hstop
      | decide runId gateId input sha ids now =>
        simp only [Write.runStatus]
        split
        · exact .inl rfl
        · exact hstop
      | _ => exact hstop
    · exact .inl (hnew r hid)
  · have hfresh := fresh_not_drawn hn (Nat.lt_succ_self L.draws)
    have hnorun : r'.runId ∉ L.releaseRuns.map (·.runId) := by
      intro hm
      obtain ⟨r, hr, he⟩ := List.mem_map.mp hm
      exact hfresh (hid ▸ he ▸ hk.runDrawn r hr)
    rcases doomed_before hdoom with hold | hnew
    · rcases hold with ⟨s, hs, he, _⟩ | ⟨d, hd, he, _⟩
      · exact absurd (he ▸ hk.stepRun s hs) hnorun
      · exact absurd (he ▸ hk.decisionRun d hd) hnorun
    · have hplanned := hnew r' rfl
      simp only [Write.runStatus] at hplanned
      exact .inl hplanned

theorem stopped_commits {o : Orchestrator} {L L' : Ledger} {ws : List Write} (hL : Written o L)
    (h : Commits o L ws L') (hn : NoCollision o.host L') (hJ : Stopped L)
    (hws : ∀ w ∈ ws, ∀ r t, w ≠ .resume r t) : Stopped L' := by
  refine (hL.along ?_ h hn hJ).2
  intro L1 w hw hL1 hg hn1 hJ1
  exact stopped_perform hL1 hg hn1 hJ1 fun r t he => absurd he (hws w hw r t)

/-- The call concludes the last open operation of a run in which a gate was
decided failed and no step has failed. -/
def ForgetsGateFailure (L : Ledger) : Op → Prop
  | .reconcileOperation operationId input _ =>
    ∃ a, Ledger.latestAttempt (L.stepAttempts.filter (·.operationId == operationId)) = some a ∧
      a.status = .outcomeUnknown ∧ input.outcome ≠ .stillUnknown ∧
      (∀ b ∈ L.stepAttempts, b.runId = a.runId → b.attemptId ≠ a.attemptId →
        b.status ≠ .intentRecorded ∧ b.status ≠ .outcomeUnknown) ∧
      ¬StepFailed L a.runId ∧ GateDecidedFailed L a.runId
  | _ => False

/-- The tables a resumption reads are those of the settled operation. -/
theorem settled_tables {o : Orchestrator} {L L1 : Ledger} {a : AttemptRow} {operationId : String}
    {input : ReconcileOperationInput} {sha now : String} {d : StepDefinition}
    {outcome : ReconciliationOutcome} {rows : List EvidenceRow} {log : Write}
    {runId : String} (hl : log.isLog runId = true) (h : Commits o L
      [.evidence rows, .note a operationId input sha now, .settle a d outcome now, log] L1) :
    L1.stepAttempts = (settleOutcome L a d outcome now).stepAttempts ∧
      L1.runSteps = (settleOutcome L a d outcome now).runSteps ∧
      L1.runHealthGates = (settleOutcome L a d outcome now).runHealthGates ∧
      L1.healthGateDecisions = L.healthGateDecisions := by
  obtain ⟨run, t, payload, actorId, at', rfl, _⟩ := isLog_log hl
  obtain ⟨_, rfl⟩ := h
  cases outcome <;> exact ⟨rfl, rfl, rfl, rfl⟩

theorem settle_keeps_attempt {L : Ledger} {a b : AttemptRow} (d : StepDefinition)
    (outcome : ReconciliationOutcome) (now : String) (hb : b ∈ L.stepAttempts)
    (hne : b.attemptId ≠ a.attemptId) : b ∈ (settleOutcome L a d outcome now).stepAttempts := by
  cases outcome with
  | applied => exact mem_update.mpr ⟨b, hb, by simp [hne]⟩
  | notApplied => exact mem_update.mpr ⟨b, hb, by simp [hne]⟩
  | stillUnknown => exact hb

/-- A resumption that forgets a failed gate comes from a call that concludes
the last open operation. -/
theorem forgets_of_idle {o : Orchestrator} {L : Ledger} (hL : Written o L) {operationId : String}
    {input : ReconcileOperationInput} {now : String} {a : AttemptRow} {s : StepRow} {L1 : Ledger}
    (ha : Ledger.latestAttempt (L.stepAttempts.filter (·.operationId == operationId)) = some a)
    (hst : a.status = .outcomeUnknown) (hs : L.step? a.runId a.stepId = some s)
    (hattempts : L1.stepAttempts = (settleOutcome L a s.definition input.outcome now).stepAttempts)
    (hsteps : L1.runSteps = (settleOutcome L a s.definition input.outcome now).runSteps)
    (hbusy : ¬Busy L1 a.runId) (hfail : ¬StepFailed L1 a.runId)
    (hgate : GateDecidedFailed L a.runId) :
    ForgetsGateFailure L (.reconcileOperation operationId input now) := by
  obtain ⟨hmem, _⟩ := latest_operation ha
  refine ⟨a, ha, hst, ?_, ?_, ?_, hgate⟩
  · intro hstill
    rw [hstill] at hattempts
    exact hbusy ⟨a, hattempts ▸ hmem, rfl, .inr hst⟩
  · intro b hb hrun hne
    have hb1 : b ∈ L1.stepAttempts := hattempts ▸ settle_keeps_attempt _ _ _ hb hne
    exact ⟨fun h => hbusy ⟨b, hb1, hrun, .inl h⟩, fun h => hbusy ⟨b, hb1, hrun, .inr h⟩⟩
  · rintro ⟨f, hf, hrun, hff⟩
    have hfrozen := frozen_perform hL (w := .settle a s.definition input.outcome now)
      ⟨hmem, hst, s, hs, rfl⟩ hf (.inr hff)
    exact hfail ⟨f, hsteps ▸ hfrozen.1, hrun, hff⟩

theorem stopped_reconcile {o : Orchestrator} {L L' : Ledger} (hL : Written o L)
    {operationId : String} {input : ReconcileOperationInput} {now : String} {snapshot : RunSnapshot}
    (h : reconcileOperation o L operationId input now = .ok (snapshot, L'))
    (hn : NoCollision o.host L') (hJ : Stopped L)
    (hsafe : ¬ForgetsGateFailure L (.reconcileOperation operationId input now)) : Stopped L' := by
  obtain ⟨a, ha, ⟨rfl, _⟩ | ⟨rows, s, L2, tail, log, hl, _, hs, hst, hw, ht, hend⟩⟩ :=
    reconcileOperation_writes h
  · exact hJ
  · obtain ⟨L1, hsettled, hresume⟩ := commits_split [_, _, _, _] hw
    obtain ⟨hattempts, hsteps, _, hdecisions⟩ := settled_tables hl hsettled
    have hn2 := hn.mono (draws_commits ht)
    have hn1 := hn2.mono (draws_commits hresume)
    have hL1 := hL.commits hsettled hn1
    obtain ⟨_, _, _, _, _, rfl, _⟩ := isLog_log hl
    have hJ1 := stopped_commits hL hsettled hn1 hJ (by simp)
    have hJ2 : Stopped L2 := by
      obtain ⟨⟨hg, _⟩, rfl⟩ := hresume
      refine stopped_perform hL1 hg hn2 hJ1 ?_
      rintro r t he hgate
      obtain ⟨rfl, rfl⟩ : a.runId = r ∧ now = t := by simpa using he
      by_contra hidle
      obtain ⟨hbusy, hfail⟩ := not_or.mp hidle
      have hgate : GateDecidedFailed L a.runId := by rwa [GateDecidedFailed, ← hdecisions]
      exact hsafe (forgets_of_idle hL ha hst hs hattempts hsteps hbusy hfail hgate)
    refine stopped_commits (hL1.commits hresume hn2) ht hn hJ2 ?_
    rcases completion_tail hend with rfl | ⟨run, _, rfl⟩ <;> simp

theorem stopped_step {o : Orchestrator} {L : Ledger} {op : Op} (hL : Reached o L)
    (hn : NoCollision o.host (step o L op)) (hJ : Stopped L) (hsafe : ¬ForgetsGateFailure L op) :
    Stopped (step o L op) := by
  by_cases hop : ∃ id input now, op = .reconcileOperation id input now
  · obtain ⟨id, input, now, rfl⟩ := hop
    cases hc : call o L (.reconcileOperation id input now) with
    | error e =>
      rw [step_error hc]
      exact hJ
    | ok p =>
      obtain ⟨snapshot, hr, _⟩ := respond_ok hc
      rw [step_ok hc] at hn ⊢
      exact stopped_reconcile hL.written hr hn hJ hsafe
  · obtain ⟨ws, hw, hkinds⟩ := step_commits hL.written.keyed op
    refine stopped_commits hL.written hw hn hJ ?_
    rintro w hm r t rfl
    have hmay := (hkinds _ hm).1
    cases op with
    | reconcileOperation id input now => exact hop ⟨id, input, now, rfl⟩
    | _ => cases hmay

theorem stopped_exec {o : Orchestrator} {L : Ledger} {ops : List Op} (hL : Reached o L)
    (hn : NoCollision o.host (exec o L ops)) (hJ : Stopped L)
    (hsafe : Along o (fun L op => ¬ForgetsGateFailure L op) L ops) : Stopped (exec o L ops) := by
  induction ops generalizing L with
  | nil => exact hJ
  | cons op ops ih =>
    have hn1 := hn.mono (draws_exec o (step o L op) ops)
    exact ih (hL.step op hn1) hn (stopped_step hL hn1 hJ hsafe.1) hsafe.2

/-- A step or a gate of the run is recorded as failed. -/
def FailureRecorded (L : Ledger) (runId : String) : Prop :=
  (∃ s ∈ L.runSteps, s.runId = runId ∧ s.status = .failed) ∨
    ∃ g ∈ L.runHealthGates, g.runId = runId ∧ g.status = .failed

theorem FailureRecorded.doomed {o : Orchestrator} {L : Ledger} {runId : String} (hL : Written o L)
    (h : FailureRecorded L runId) : Doomed L runId := by
  rcases h with hs | ⟨g, hg, hrun, hst⟩
  · exact .inl hs
  · obtain ⟨d, hd, h1, _, h2⟩ := (hL.gatesDecided g hg).1 hst
    exact .inr ⟨d, hd, h1.trans hrun, h2⟩

theorem doomed_exec {o : Orchestrator} {L : Ledger} {ops : List Op} {runId : String}
    (hL : Reached o L) (hn : NoCollision o.host (exec o L ops)) (hd : Doomed L runId) :
    Doomed (exec o L ops) runId := by
  rcases hd with ⟨s, hs, hrun, hst⟩ | ⟨d, hd, hrun, hout⟩
  · exact .inl ⟨s, (frozen_exec hL hn hs (.inr hst)).1, hrun, hst⟩
  · have hkept := hL.along (P := fun L' => d ∈ L'.healthGateDecisions)
      (fun _ _ _ _ _ hm => decision_after hm) hn hd
    exact .inr ⟨d, hkept, hrun, hout⟩

theorem stopped_opened {o : Orchestrator} {L : Ledger} (h : Opened o L) : Stopped L := by
  rw [opened_ledger h]
  intro r hr
  cases hr

/-- Along every history that never concludes the last open operation of a run
stopped by a gate alone, a recorded failure is final: the run is never again
running or succeeded and gives out no new intent. -/
theorem failure_is_final {o : Orchestrator} {L : Ledger} (hO : Opened o L) (ops later : List Op)
    (hn : NoCollision o.host (exec o L (ops++later)))
    (hsafe : Along o (fun L op => ¬ForgetsGateFailure L op) L (ops++later)) {runId : String}
    (hf : FailureRecorded (exec o L ops) runId) :
    (∀ run, (exec o L (ops++later)).run? runId = some run →
      run.status ≠ .running ∧ run.status ≠ .succeeded) ∧
    ∀ stepId key actorId now intent L',
      beginStepAttempt o (exec o L (ops++later)) runId stepId key actorId now ≠
        .ok (.intent intent, L') := by
  have hL := Reached.opened hO
  rw [exec_append] at hn ⊢
  have hn1 := hn.mono (draws_exec o _ later)
  have hL1 := hL.exec hn1
  have hdoom := doomed_exec hL1 hn (hf.doomed hL1.written)
  have hstop := stopped_exec hL1 hn
    (stopped_exec hL hn1 (stopped_opened hO) (along_append.mp hsafe).1) (along_append.mp hsafe).2
  have hstatus : ∀ run, (exec o (exec o L ops) later).run? runId = some run →
      run.status = .failed ∨ run.status = .pausedOutcomeUnknown := by
    intro run hr
    exact hstop run (run_mem hr) (run_id hr ▸ hdoom)
  constructor
  · intro run hr
    rcases hstatus run hr with h | h <;> simp [h]
  · intro stepId key actorId now intent L' hb
    obtain ⟨_, hr, _⟩ | ⟨row, log, _, hw, rfl, _⟩ := beginStepAttempt_writes hb
    · cases hr
    · obtain ⟨run, hr, hrun⟩ := hw.1.1.1
      rcases hstatus run hr with h | h <;> simp [h] at hrun

instance (L : Ledger) (runId : String) : Decidable (FailureRecorded L runId) :=
  inferInstanceAs (Decidable ((∃ s ∈ L.runSteps, s.runId = runId ∧ s.status = .failed) ∨
    ∃ g ∈ L.runHealthGates, g.runId = runId ∧ g.status = .failed))

def forgottenBlueprint : Blueprint :=
  sampleBlueprint [sampleGate "health"]
    [sampleStep "measure" [] [] (some "health"), sampleStep "deploy" [] [] none]

/-- A step fails while a second operation is in flight. -/
def stepFailedOps : List Op :=
  [.createRun sampleRequest sampleTime, .startRun (sampleId 0) "operator" sampleTime,
    .beginStepAttempt (sampleId 0) "measure" "measure-key" "operator" sampleTime,
    .beginStepAttempt (sampleId 0) "deploy" "deploy-key" "operator" sampleTime,
    .recordStepOutcome (sampleId 5) ⟨.failed, none, none⟩ "operator" sampleTime]

/-- The operation in flight is lost, which pauses the run, and then proven not
applied, which would set a run without a failed step running again. -/
def stepReconciledOps : List Op :=
  [.markOutcomeUnknown (sampleId 9) "timeout" "operator" sampleTime,
    .reconcileOperation (sampleId 9) ⟨"observed", .notApplied, some [sampleEvidence], "operator"⟩
      sampleTime]

theorem failure_is_final_of_step :
    let o := sampleOrchestrator forgottenBlueprint
    let L := exec o (sampleLedger forgottenBlueprint) stepFailedOps
    let paused := exec o (sampleLedger forgottenBlueprint) (stepFailedOps++stepReconciledOps.take 1)
    let L' := exec o (sampleLedger forgottenBlueprint) (stepFailedOps++stepReconciledOps)
    FailureRecorded L (sampleId 0) ∧
      (paused.run? (sampleId 0)).map (·.status) = some .pausedOutcomeUnknown ∧
      L'.operationReconciliations.length = 1 ∧
      (∀ run, L'.run? (sampleId 0) = some run → run.status ≠ .running ∧ run.status ≠ .succeeded) ∧
      ∀ stepId key actorId now intent L'',
        beginStepAttempt o L' (sampleId 0) stepId key actorId now ≠ .ok (.intent intent, L'') := by
  intro o L paused L'
  have hrun : L'.draws < 16^12 ∧
      (∀ a ∈ paused.stepAttempts, ∃ s ∈ paused.runSteps, s.runId = a.runId ∧ s.status = .failed) ∧
      FailureRecorded L (sampleId 0) ∧
      (paused.run? (sampleId 0)).map (·.status) = some .pausedOutcomeUnknown ∧
      L'.operationReconciliations.length = 1 := by
    have hL : L = exec o (sampleCreated forgottenBlueprint) stepFailedOps.tail :=
      sample_created rfl rfl _
    have hpaused : paused = exec o (sampleCreated forgottenBlueprint)
        (stepFailedOps.tail++stepReconciledOps.take 1) := sample_created rfl rfl _
    have hL' : L' = exec o (sampleCreated forgottenBlueprint) (stepFailedOps.tail++stepReconciledOps) :=
      sample_created rfl rfl _
    rw [hL', hpaused, hL]
    decide +kernel
  obtain ⟨hdraws, hfailed, hrecorded, hpause, hreconciled⟩ := hrun
  -- the reconciliation finds a failed step, so it is not the one that forgets a gate
  have hreconcile : ¬ForgetsGateFailure paused (.reconcileOperation (sampleId 9)
      ⟨"observed", .notApplied, some [sampleEvidence], "operator"⟩ sampleTime) := by
    rintro ⟨a, ha, _, _, _, hnone, _⟩
    exact hnone (hfailed a (List.mem_filter.mp (latest_mem ha)).1)
  have hsafe : Along o (fun L op => ¬ForgetsGateFailure L op) (sampleLedger forgottenBlueprint)
      (stepFailedOps++stepReconciledOps) := by
    have happend : stepFailedOps++stepReconciledOps =
        (stepFailedOps++stepReconciledOps.take 1)++stepReconciledOps.drop 1 := rfl
    rw [happend, along_append]
    exact ⟨by simp [stepFailedOps, stepReconciledOps, Along, ForgetsGateFailure], hreconcile, trivial⟩
  exact ⟨hrecorded, hpause, hreconciled, failure_is_final (sample_opened (by decide +kernel))
    stepFailedOps stepReconciledOps (sample_distinct hdraws) hsafe hrecorded⟩

def issuesIntent : Fallible (BeginStepResult × Ledger) → Bool
  | .ok (.intent _, _) => true
  | _ => false

/-- The gate fails while a second operation is in flight. -/
def gateFailedOps : List Op :=
  [.createRun sampleRequest sampleTime, .startRun (sampleId 0) "operator" sampleTime,
    .beginStepAttempt (sampleId 0) "measure" "measure-key" "operator" sampleTime,
    .recordStepOutcome (sampleId 5) ⟨.succeeded, none, some [sampleEvidence]⟩ "operator" sampleTime,
    .beginStepAttempt (sampleId 0) "deploy" "deploy-key" "operator" sampleTime,
    .resolveHealthGate (sampleId 0) "health" ⟨"decision", .failed, [], "operator"⟩ sampleTime]

/-- The operation in flight is lost and then proven not applied. -/
def gateForgottenOps : List Op :=
  [.markOutcomeUnknown (sampleId 12) "timeout" "operator" sampleTime,
    .reconcileOperation (sampleId 12) ⟨"observed", .notApplied, some [sampleEvidence], "operator"⟩
      sampleTime]

theorem gate_failure_forgotten :
    let o := sampleOrchestrator forgottenBlueprint
    let L := exec o (sampleLedger forgottenBlueprint) gateFailedOps
    let L' := exec o (sampleLedger forgottenBlueprint) (gateFailedOps++gateForgottenOps)
    validateWorkflowBlueprint forgottenBlueprint = .ok () ∧ Reached o L' ∧
      FailureRecorded L (sampleId 0) ∧
      (L'.run? (sampleId 0)).map (·.status) = some .running ∧
      issuesIntent (beginStepAttempt o L' (sampleId 0) "deploy" "deploy-key" "operator"
        sampleTime) = true := by
  intro o L L'
  have hv : validateWorkflowBlueprint forgottenBlueprint = .ok () := by decide +kernel
  have hrun : L'.draws < 16^12 ∧ FailureRecorded L (sampleId 0) ∧
      (L'.run? (sampleId 0)).map (·.status) = some .running ∧
      issuesIntent (beginStepAttempt o L' (sampleId 0) "deploy" "deploy-key" "operator"
        sampleTime) = true := by
    have hL : L = exec o (sampleCreated forgottenBlueprint) gateFailedOps.tail :=
      sample_created rfl rfl _
    have hL' : L' = exec o (sampleCreated forgottenBlueprint) (gateFailedOps.tail++gateForgottenOps) :=
      sample_created rfl rfl _
    rw [hL', hL]
    decide +kernel
  have hreached : Reached o L' :=
    (Reached.opened (sample_opened hv)).exec (sample_distinct (L := L') hrun.1)
  exact ⟨hv, hreached, hrun.2⟩

end AccessStack.Release
