import AccessStack.Release.Identities

/-!
# Reachable ledgers

`Reached` ledgers are those of histories of calls on a freshly opened
orchestrator; `Written` ledgers also include the states inside a transaction.
Both assume that the identifiers drawn so far are distinct. An invariant that
every guarded write keeps is proved by induction on `Written`.
-/

set_option autoImplicit false

namespace AccessStack.Release
open AccessStack.Text AccessStack.Rows AccessStack.JsonText

/-- The ledger of a new orchestrator: its blueprints are valid and registered
in an empty database. -/
def Opened (o : Orchestrator) (L : Ledger) : Prop :=
  ∃ now, construct o.host o.blueprints {} now = .ok (o, L)

inductive Reached (o : Orchestrator) : Ledger → Prop where
  | opened {L : Ledger} : Opened o L → Reached o L
  | step {L : Ledger} (op : Op) : Reached o L → NoCollision o.host (step o L op) →
      Reached o (step o L op)

inductive Written (o : Orchestrator) : Ledger → Prop where
  | opened {L : Ledger} : Opened o L → Written o L
  | write {L : Ledger} (w : Write) : Written o L → Guard o L w →
      NoCollision o.host (perform o.host L w) → Written o (perform o.host L w)

theorem register_blueprints {h : Host} {now : String} {blueprints : List Blueprint} {L L' : Ledger}
    (hr : blueprints.foldlM (registerBlueprint h now) L = .ok L') :
    L' = { L with workflowBlueprints := L'.workflowBlueprints } := by
  induction blueprints generalizing L with
  | nil =>
    obtain rfl : L = L' := by simpa [pure, Except.pure] using hr
    rfl
  | cons b rest ih =>
    rw [List.foldlM_cons, bind_ok] at hr
    obtain ⟨L1, h1, hr⟩ := hr
    have hL1 : L1 = { L with workflowBlueprints := L1.workflowBlueprints } := by
      simp only [registerBlueprint] at h1
      split at h1
      · simp only [bind_ok, pure, Except.pure, Except.ok.injEq] at h1
        obtain ⟨_, _, rfl⟩ := h1
        rfl
      · obtain rfl : _ = L1 := by simpa [pure, Except.pure] using h1
        rfl
    rw [ih hr, hL1]

theorem opened_ledger {o : Orchestrator} {L : Ledger} (h : Opened o L) :
    L = { workflowBlueprints := L.workflowBlueprints } := by
  obtain ⟨now, h⟩ := h
  simp only [construct, bind_ok, pure, Except.pure, Except.ok.injEq, Prod.mk.injEq] at h
  obtain ⟨_, _, L', hr, _, rfl⟩ := h
  exact register_blueprints hr

theorem opened_wellformed {o : Orchestrator} {L : Ledger} (h : Opened o L) :
    ∀ b ∈ o.blueprints, Wellformed b := by
  obtain ⟨now, h⟩ := h
  simp only [construct, bind_ok] at h
  obtain ⟨_, hv, _⟩ := h
  exact fun b hb => accepted_wellformed (forM_ok hv b hb)

theorem opened_keyed {o : Orchestrator} {L : Ledger} (h : Opened o L) : Keyed o.host L := by
  rw [opened_ledger h]
  constructor <;> simp

theorem respond_ok {α : Type} {f : α → Response} {x : Fallible (α × Ledger)} {r : Response}
    {L : Ledger} (h : respond f x = .ok (r, L)) : ∃ a, x = .ok (a, L) ∧ r = f a := by
  cases x with
  | error e => simp [respond, Except.map] at h
  | ok p =>
    obtain ⟨rfl, rfl⟩ : f p.1 = r ∧ p.2 = L := by simpa [respond, Except.map] using h
    exact ⟨p.1, rfl, rfl⟩

/-- The kinds of writes an operation makes. -/
def Op.mayWrite : Op → Write → Bool
  | _, .log .. => true
  | .createRun .., .insertRun .. => true
  | .startRun .., .start .. => true
  | .beginStepAttempt .., .begin .. => true
  | .recordStepOutcome .., .evidence .. => true
  | .recordStepOutcome .., .finish .. => true
  | .recordStepOutcome .., .complete .. => true
  | .markOutcomeUnknown .., .lose .. => true
  | .reconcileOperation .., .evidence .. => true
  | .reconcileOperation .., .note .. => true
  | .reconcileOperation .., .settle .. => true
  | .reconcileOperation .., .resume .. => true
  | .reconcileOperation .., .complete .. => true
  | .recoverInterruptedOperations .., .lose .. => true
  | .resolveHealthGate .., .evidence .. => true
  | .resolveHealthGate .., .decide .. => true
  | .resolveHealthGate .., .complete .. => true
  | _, _ => false

theorem isLog_log {w : Write} {runId : String} (h : w.isLog runId = true) :
    ∃ run t payload actorId now, w = .log run t payload actorId now ∧ run.runId = runId := by
  cases w with
  | log run t payload actorId now =>
    exact ⟨run, t, payload, actorId, now, rfl, beq_iff_eq.mp h⟩
  | _ => cases h

theorem completion_tail {L : Ledger} {runId actorId now : String} {ws : List Write}
    (h : Completion L runId actorId now ws) :
    ws = [] ∨ ∃ run, run.runId = runId ∧ ws = [.complete run actorId now] := by
  obtain ⟨run, hr, ⟨rfl, _⟩ | rfl⟩ := h
  · exact .inl rfl
  · exact .inr ⟨run, run_id hr, rfl⟩

/-- A run is completed by a call about one of its steps. -/
def Write.completesIn (L : Ledger) : Write → Prop
  | .complete run _ _ => ∃ s ∈ L.runSteps, s.runId = run.runId
  | _ => True

attribute [local simp] Op.mayWrite in
/-- Every accepted call is a sequence of guarded writes of its own kinds. The
recovery loop relies on attempts being told apart by their identifiers. -/
theorem call_commits {o : Orchestrator} {L L' : Ledger} {op : Op} {r : Response}
    (hk : (∃ actorId now, op = .recoverInterruptedOperations actorId now) →
      (L.stepAttempts.map (·.attemptId)).Nodup)
    (h : call o L op = .ok (r, L')) :
    ∃ ws, Commits o L ws L' ∧ ∀ w ∈ ws, op.mayWrite w = true ∧ w.completesIn L := by
  cases op with
  | createRun request now =>
    obtain ⟨result, hc, _⟩ := respond_ok h
    obtain ⟨rfl, _⟩ | ⟨b, log, hl, hw⟩ := createRun_writes hc
    · exact ⟨[], commits_nil o _, by simp⟩
    · obtain ⟨_, _, _, _, _, rfl, _⟩ := isLog_log hl
      exact ⟨_, hw, by simp [Op.mayWrite, Write.completesIn]⟩
  | startRun runId actorId now =>
    obtain ⟨result, hc, _⟩ := respond_ok h
    obtain ⟨rfl, _⟩ | ⟨log, hl, hw⟩ := startRun_writes hc
    · exact ⟨[], commits_nil o _, by simp⟩
    · obtain ⟨_, _, _, _, _, rfl, _⟩ := isLog_log hl
      exact ⟨_, hw, by simp [Op.mayWrite, Write.completesIn]⟩
  | beginStepAttempt runId stepId key actorId now =>
    obtain ⟨result, hc, _⟩ := respond_ok h
    obtain ⟨_, _, rfl, _⟩ | ⟨row, log, hl, hw, _⟩ := beginStepAttempt_writes hc
    · exact ⟨[], commits_nil o _, by simp⟩
    · obtain ⟨_, _, _, _, _, rfl, _⟩ := isLog_log hl
      exact ⟨_, hw, by simp [Op.mayWrite, Write.completesIn]⟩
  | recordStepOutcome operationId input actorId now =>
    obtain ⟨result, hc, _⟩ := respond_ok h
    obtain ⟨a, _, ⟨rfl, _⟩ | ⟨rows, L1, tail, log, hl, _, hw, ht, hend⟩⟩ := recordStepOutcome_writes hc
    · exact ⟨[], commits_nil o _, by simp⟩
    · obtain ⟨_, _, _, _, _, rfl, _⟩ := isLog_log hl
      have htail : tail = [] ∨ ∃ run, run.runId = a.runId ∧ tail = [.complete run actorId now] :=
        hend.elim (fun h => .inl h.2) (fun h => completion_tail h.2)
      obtain ⟨_, hfinish, _⟩ := hw.1
      obtain ⟨s, hs⟩ := hfinish.2.2.1
      have hstep : ∃ s ∈ L.runSteps, s.runId = a.runId := ⟨s, step_mem hs, (step_key hs).1⟩
      refine ⟨_, commits_append hw ht, ?_⟩
      rcases htail with rfl | ⟨run, hrun, rfl⟩
      · simp [Op.mayWrite, Write.completesIn]
      · simpa [Op.mayWrite, Write.completesIn, hrun] using hstep
  | markOutcomeUnknown operationId reasonCode actorId now =>
    obtain ⟨result, hc, _⟩ := respond_ok h
    obtain ⟨a, _, ⟨rfl, _⟩ | ⟨s, log, _, hl, hw⟩⟩ := markOutcomeUnknown_writes hc
    · exact ⟨[], commits_nil o _, by simp⟩
    · obtain ⟨_, _, _, _, _, rfl, _⟩ := isLog_log hl
      exact ⟨_, hw, by simp [Op.mayWrite, Write.completesIn]⟩
  | reconcileOperation operationId input now =>
    obtain ⟨result, hc, _⟩ := respond_ok h
    obtain ⟨a, _, ⟨rfl, _⟩ | ⟨rows, s, L1, tail, log, hl, _, hs, _, hw, ht, hend⟩⟩ :=
      reconcileOperation_writes hc
    · exact ⟨[], commits_nil o _, by simp⟩
    · obtain ⟨_, _, _, _, _, rfl, _⟩ := isLog_log hl
      have hstep : ∃ s ∈ L.runSteps, s.runId = a.runId := ⟨s, step_mem hs, (step_key hs).1⟩
      refine ⟨_, commits_append hw ht, ?_⟩
      rcases completion_tail hend with rfl | ⟨run, hrun, rfl⟩
      · simp [Op.mayWrite, Write.completesIn]
      · simpa [Op.mayWrite, Write.completesIn, hrun] using hstep
  | recoverInterruptedOperations actorId now =>
    obtain ⟨result, hc, _⟩ := respond_ok h
    obtain ⟨ws, hw, hall⟩ := recover_writes (hk ⟨_, _, rfl⟩) hc
    refine ⟨ws, hw, fun w hm => ?_⟩
    rcases hall w hm with hl | ⟨_, hl⟩
    · cases w with
      | lose a mark d t => exact ⟨rfl, trivial⟩
      | _ => cases hl
    · obtain ⟨_, _, _, _, _, rfl, _⟩ := isLog_log hl
      exact ⟨rfl, trivial⟩
  | resolveHealthGate runId gateId input now =>
    obtain ⟨result, hc, _⟩ := respond_ok h
    obtain ⟨rfl, _⟩ | ⟨rows, ids, L1, tail, log, hl, _, hw, ht, hend⟩ := resolveHealthGate_writes hc
    · exact ⟨[], commits_nil o _, by simp⟩
    · obtain ⟨_, _, _, _, _, rfl, _⟩ := isLog_log hl
      have htail : tail = [] ∨ ∃ run, run.runId = runId ∧
          tail = [.complete run input.actorId now] :=
        hend.elim (fun h => .inl h.2) (fun h => completion_tail h.2)
      obtain ⟨_, hdecide, _⟩ := hw.1
      obtain ⟨s, hs, _⟩ := hdecide.2.2.1
      have hstep : ∃ s ∈ L.runSteps, s.runId = runId := ⟨s, measuring_mem hs⟩
      refine ⟨_, commits_append hw ht, ?_⟩
      rcases htail with rfl | ⟨run, hrun, rfl⟩
      · simp [Op.mayWrite, Write.completesIn]
      · simpa [Op.mayWrite, Write.completesIn, hrun] using hstep

theorem step_commits {o : Orchestrator} {L : Ledger} (hk : Keyed o.host L) (op : Op) :
    ∃ ws, Commits o L ws (step o L op) ∧ ∀ w ∈ ws, op.mayWrite w = true ∧ w.completesIn L := by
  unfold step transaction
  split
  · rename_i h
    exact call_commits (fun _ => hk.attempts) h
  · exact ⟨[], commits_nil o L, by simp⟩

theorem draws_commits {o : Orchestrator} {L L' : Ledger} {ws : List Write}
    (h : Commits o L ws L') : L.draws ≤ L'.draws := by
  obtain ⟨hg, rfl⟩ := h
  induction ws generalizing L with
  | nil => exact le_rfl
  | cons w ws ih => exact (draws_mono o.host L w).trans (ih hg.2)

theorem draws_recoverAll {o : Orchestrator} {actorId : String} {now : ℕ → String} {L L' : Ledger}
    {rest : List AttemptRow} {k n : ℕ} (h : recoverAll o actorId now L rest k = .ok (n, L')) :
    L.draws ≤ L'.draws := by
  induction rest generalizing L k with
  | nil =>
    obtain ⟨_, rfl⟩ : k = n ∧ L = L' := by simpa [recoverAll] using h
    exact le_rfl
  | cons a rest ih =>
    simp only [recoverAll, bind_ok, appendEvent_ok] at h
    obtain ⟨_, _, L1, ⟨run, _, rfl⟩, h⟩ := h
    exact (Nat.le_add_right L.draws 2).trans (ih h)

theorem draws_step (o : Orchestrator) (L : Ledger) (op : Op) :
    L.draws ≤ (step o L op).draws := by
  unfold step transaction
  split
  · rename_i L' h
    by_cases hr : ∃ actorId now, op = .recoverInterruptedOperations actorId now
    · obtain ⟨actorId, now, rfl⟩ := hr
      obtain ⟨n, hc, _⟩ := respond_ok h
      simp only [recoverInterruptedOperations, bind_ok] at hc
      obtain ⟨_, _, hc⟩ := hc
      exact draws_recoverAll hc
    · obtain ⟨ws, hw, _⟩ := call_commits (fun h => absurd h hr) h
      exact draws_commits hw
  · exact le_rfl

theorem draws_exec (o : Orchestrator) (L : Ledger) (ops : List Op) :
    L.draws ≤ (exec o L ops).draws := by
  induction ops generalizing L with
  | nil => exact le_rfl
  | cons op ops ih => exact (draws_step o L op).trans (ih (step o L op))

/-- What each of the guarded writes keeps, their sequence keeps. -/
theorem Written.along {o : Orchestrator} {P : Ledger → Prop} {L L' : Ledger} {ws : List Write}
    (hP : ∀ L, ∀ w ∈ ws, Written o L → Guard o L w → NoCollision o.host (perform o.host L w) →
      P L → P (perform o.host L w))
    (hL : Written o L) (h : Commits o L ws L') (hn : NoCollision o.host L') (h0 : P L) :
    Written o L' ∧ P L' := by
  obtain ⟨hg, rfl⟩ := h
  induction ws generalizing L with
  | nil => exact ⟨hL, h0⟩
  | cons w ws ih =>
    have hrest : Commits o (perform o.host L w) ws (performAll o.host (perform o.host L w) ws) :=
      ⟨hg.2, rfl⟩
    have hn1 := hn.mono (draws_commits hrest)
    exact ih (fun L v hv => hP L v (List.mem_cons_of_mem w hv)) (hL.write w hg.1 hn1)
      (hP L w List.mem_cons_self hL hg.1 hn1 h0) hg.2 hn

theorem Written.commits {o : Orchestrator} {L L' : Ledger} {ws : List Write} (hL : Written o L)
    (h : Commits o L ws L') (hn : NoCollision o.host L') : Written o L' :=
  (hL.along (P := fun _ => True) (fun _ _ _ _ _ _ _ => trivial) h hn trivial).1

theorem Written.wellformed {o : Orchestrator} {L : Ledger} (h : Written o L) :
    ∀ b ∈ o.blueprints, Wellformed b := by
  induction h with
  | opened h => exact opened_wellformed h
  | write w _ _ _ ih => exact ih

theorem Written.keyed {o : Orchestrator} {L : Ledger} (h : Written o L) : Keyed o.host L := by
  induction h with
  | opened h => exact opened_keyed h
  | write w h hg hn ih => exact keyed_perform h.wellformed ih hg hn

theorem Reached.written {o : Orchestrator} {L : Ledger} (h : Reached o L) : Written o L := by
  induction h with
  | opened h => exact .opened h
  | step op h hn ih =>
    obtain ⟨ws, hw, _⟩ := step_commits ih.keyed op
    exact ih.commits hw hn

/-- A history whose draws are distinct stays inside the reached ledgers. -/
theorem Reached.exec {o : Orchestrator} {L : Ledger} {ops : List Op} (h : Reached o L)
    (hn : NoCollision o.host (Release.exec o L ops)) : Reached o (Release.exec o L ops) := by
  induction ops generalizing L with
  | nil => exact h
  | cons op ops ih => exact ih (h.step op (hn.mono (draws_exec o _ ops))) hn

/-- What every guarded write keeps, a history keeps. -/
theorem Reached.along {o : Orchestrator} {P : Ledger → Prop}
    (hP : ∀ L w, Written o L → Guard o L w → NoCollision o.host (perform o.host L w) → P L →
      P (perform o.host L w))
    {L : Ledger} {ops : List Op} (hL : Reached o L)
    (hn : NoCollision o.host (Release.exec o L ops)) (h0 : P L) : P (Release.exec o L ops) := by
  induction ops generalizing L with
  | nil => exact h0
  | cons op ops ih =>
    have hn1 := hn.mono (draws_exec o (Release.step o L op) ops)
    obtain ⟨ws, hw, _⟩ := step_commits hL.written.keyed op
    exact ih (hL.step op hn1) hn (hL.written.along (fun L w _ => hP L w) hw hn1 h0).2

section Sample

def sampleStep (id : String) (dependsOn requiredGates : List String)
    (healthGateId : Option String) : StepDefinition where
  id := id
  stage := .buildRelease
  action := .verifyCanonicalCi
  executionClass := .readOnly
  dependsOn := dependsOn
  requiredGates := requiredGates
  healthGateId := healthGateId

def sampleGate (id : String) : HealthGateDefinition where
  id := id
  stage := .buildRelease
  requiredEvidenceKinds := ["health"]

def sampleBlueprint (gates : List HealthGateDefinition) (steps : List StepDefinition) :
    Blueprint where
  id := "sample"
  version := 1
  name := "Sample"
  historicalReference := "none"
  stages := releaseStages
  gates := gates
  steps := steps

def sampleTime : String := "1970-01-01T00:00:00.000Z"

def sampleRequest : RunRequest where
  blueprintId := "sample"
  blueprintVersion := 1
  targetRelease := "v1"
  sourceCommitSha := String.ofList (List.replicate 40 'a')
  idempotencyKey := "create"
  actorId := "operator"

def sampleEvidence : EvidenceInput where
  kind := "health"
  source := "probe"
  sha256 := String.ofList (List.replicate 64 'a')
  observedAt := sampleTime

def sampleOrchestrator (b : Blueprint) : Orchestrator := ⟨sampleHost, [b]⟩

/-- The ledger of an orchestrator opened with one blueprint. -/
def freshLedger (h : Host) (b : Blueprint) : Ledger where
  workflowBlueprints := [{
    blueprintId := b.id, version := b.version, sha256 := h.sha256 (canonicalJson h b.toJson)
    definition := b, registeredAt := sampleTime }]

def sampleLedger (b : Blueprint) : Ledger := freshLedger sampleHost b

/-- The run of the first `createRun` and the draws of the calls after it. -/
def sampleId (n : ℕ) : String := sampleHost.randomUUID n

theorem fresh_opened {h : Host} {b : Blueprint} (hv : validateWorkflowBlueprint b = .ok ()) :
    Opened ⟨h, [b]⟩ (freshLedger h b) := by
  refine ⟨sampleTime, ?_⟩
  simp [construct, hv, bind, Except.bind, pure, Except.pure, List.foldlM, registerBlueprint,
    freshLedger]

theorem sample_opened {b : Blueprint} (h : validateWorkflowBlueprint b = .ok ()) :
    Opened (sampleOrchestrator b) (sampleLedger b) := fresh_opened h

theorem sample_distinct {L : Ledger} (h : L.draws < 16^12) : NoCollision sampleHost L :=
  fun _ hm _ hn he => sampleHost_distinct (hm.trans h) (hn.trans h) he

theorem sample_reached {b : Blueprint} (h : validateWorkflowBlueprint b = .ok ()) {ops : List Op}
    (hd : (exec (sampleOrchestrator b) (sampleLedger b) ops).draws < 16^12) :
    Reached (sampleOrchestrator b) (exec (sampleOrchestrator b) (sampleLedger b) ops) :=
  (Reached.opened (sample_opened h)).exec (sample_distinct hd)

/-- The ledger in which the sample request has created its run. -/
def sampleCreated (b : Blueprint) : Ledger :=
  (insertRun sampleHost (sampleLedger b) b sampleRequest sampleTime).logEvent sampleHost {
      runId := sampleId 0, blueprintId := b.id, blueprintVersion := b.version
      blueprintSha256 := sampleHost.sha256 (canonicalJson sampleHost b.toJson)
      targetRelease := sampleRequest.targetRelease, sourceCommitSha := sampleRequest.sourceCommitSha
      status := .planned, createIdempotencyKey := sampleRequest.idempotencyKey
      createRequestSha256 := createRequestDigest sampleHost sampleRequest
      createdAt := sampleTime, updatedAt := sampleTime, lastSeq := 0 }
    .runCreated (.obj [
      ("blueprintId", .str b.id), ("blueprintVersion", .num b.version),
      ("blueprintSha256", .str (sampleHost.sha256 (canonicalJson sampleHost b.toJson))),
      ("targetRelease", .str sampleRequest.targetRelease),
      ("sourceCommitSha", .str sampleRequest.sourceCommitSha)]) sampleRequest.actorId sampleTime

theorem sample_call {b : Blueprint} (hid : b.id = "sample") (hversion : b.version = 1) :
    ∃ r, call (sampleOrchestrator b) (sampleLedger b) (.createRun sampleRequest sampleTime) =
      .ok (r, sampleCreated b) := by
  have hvalid : validateRunRequest sampleRequest = .ok () := by decide +kernel
  have hb : requireBlueprint (sampleOrchestrator b) sampleRequest.blueprintId
      sampleRequest.blueprintVersion = .ok b := by
    simp [requireBlueprint, sampleOrchestrator, hid, hversion, sampleRequest]
  have hstored : ((sampleLedger b).workflowBlueprints.find? fun row =>
      row.blueprintId == b.id && row.version == b.version).any
        (fun row => row.sha256 == sampleHost.sha256 (canonicalJson sampleHost b.toJson)) = true := by
    simp [sampleLedger, freshLedger]
  have hevent : appendEvent sampleHost
      (insertRun sampleHost (sampleLedger b) b sampleRequest sampleTime) (sampleId 0) .runCreated
      (.obj [
        ("blueprintId", .str b.id), ("blueprintVersion", .num b.version),
        ("blueprintSha256", .str (sampleHost.sha256 (canonicalJson sampleHost b.toJson))),
        ("targetRelease", .str sampleRequest.targetRelease),
        ("sourceCommitSha", .str sampleRequest.sourceCommitSha)])
      sampleRequest.actorId sampleTime = .ok (sampleCreated b) := by
    refine bind_ok.mpr ⟨_, ?_, rfl⟩
    simp [requireRun, Ledger.run?, insertRun, sampleLedger, freshLedger, sampleId]
  have hrunId : validateRunId (sampleId 0) = .ok () := by decide +kernel
  obtain ⟨run, hrun⟩ : ∃ run, requireRun (sampleCreated b) (sampleId 0) = .ok run := by
    simp [requireRun, Ledger.run?, sampleCreated, Ledger.logEvent, Ledger.setRun, insertRun,
      sampleLedger, freshLedger, sampleId, update]
  obtain ⟨snapshot, hsnapshot⟩ : ∃ snapshot, getRun (sampleCreated b) (sampleId 0) = .ok snapshot :=
    ⟨_, bind_ok.mpr ⟨(), hrunId, bind_ok.mpr ⟨run, hrun, rfl⟩⟩⟩
  have hcall : createRun (sampleOrchestrator b) (sampleLedger b) sampleRequest sampleTime =
      .ok (⟨snapshot, true⟩, sampleCreated b) := by
    refine bind_ok.mpr ⟨(), hvalid, bind_ok.mpr ⟨b, hb, bind_ok.mpr ⟨(), ?_, bind_ok.mpr
      ⟨sampleCreated b, hevent, bind_ok.mpr ⟨snapshot, hsnapshot, rfl⟩⟩⟩⟩⟩
    rw [failIf_ok, Bool.not_eq_false']
    exact hstored
  refine ⟨.created ⟨snapshot, true⟩, ?_⟩
  show respond Response.created _ = _
  rw [hcall]
  rfl

/-- The digests of the registered and of the stored blueprint are one text,
which need not be computed to be compared. -/
theorem sample_created {b : Blueprint} (hid : b.id = "sample") (hversion : b.version = 1)
    (ops : List Op) :
    exec (sampleOrchestrator b) (sampleLedger b) (.createRun sampleRequest sampleTime :: ops) =
      exec (sampleOrchestrator b) (sampleCreated b) ops := by
  obtain ⟨r, hr⟩ := sample_call hid hversion
  rw [exec_cons, step_ok hr]

end Sample

end AccessStack.Release
