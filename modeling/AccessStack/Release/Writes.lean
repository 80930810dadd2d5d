import AccessStack.Release.Orchestrator

/-!
# The writes of an accepted call

Every accepted call of the orchestrator is a sequence of row writes, each
made under what the source has checked before it. This module names the
writes with their guards and inverts each operation into its sequence, so
that an invariant is proved once for each write and never by unfolding an
operation.
-/

set_option autoImplicit false

namespace AccessStack.Release
open AccessStack.Text AccessStack.Rows AccessStack.JsonText

/-- A group of row writes inside a transaction. `log` and `evidence` are the
writes of `appendEvent` and `persistEvidence`; `complete` carries its event. -/
inductive Write where
  | evidence (rows : List EvidenceRow)
  | log (run : RunRow) (eventType : EventType) (payload : Json) (actorId occurredAt : String)
  | insertRun (blueprint : Blueprint) (request : RunRequest) (now : String)
  | start (runId now : String)
  | begin (row : StepRow) (idempotencyKey now : String)
  | finish (attempt : AttemptRow) (input : RecordStepOutcomeInput) (sha256 now : String)
  | lose (attempt : AttemptRow) (mark : AttemptRow → AttemptRow) (definition : StepDefinition)
      (now : String)
  | note (attempt : AttemptRow) (operationId : String) (input : ReconcileOperationInput)
      (sha256 now : String)
  | settle (attempt : AttemptRow) (definition : StepDefinition) (outcome : ReconciliationOutcome)
      (now : String)
  | resume (runId now : String)
  | complete (run : RunRow) (actorId now : String)
  | decide (runId gateId : String) (input : ResolveHealthGateInput) (sha256 : String)
      (evidenceIds : List String) (now : String)

/-- The operation the next attempt of a step carries. -/
def operationOf (h : Host) (L : Ledger) (row : StepRow) : String :=
  row.operationId.getD (h.randomUUID L.draws)

def afterOperation (L : Ledger) (row : StepRow) : Ledger :=
  if row.operationId.isSome then L else { L with draws := L.draws+1 }

def succeedRun (L : Ledger) (runId now : String) : Ledger :=
  L.setRun runId fun r => { r with status := .succeeded, updatedAt := now }

def perform (h : Host) (L : Ledger) : Write → Ledger
  | .evidence rows => { L with
      evidenceRecords := L.evidenceRecords ++ rows, draws := L.draws+rows.length }
  | .log run eventType payload actorId occurredAt =>
    L.logEvent h run eventType payload actorId occurredAt
  | .insertRun blueprint request now => AccessStack.Release.insertRun h L blueprint request now
  | .start runId now => L.setRun runId fun r => { r with status := .running, updatedAt := now }
  | .begin row key now => insertAttempt h (afterOperation L row) row (operationOf h L row) key now
  | .finish attempt input sha256 now =>
    let L' := finishAttempt L attempt input sha256 now
    if input.outcome = .succeeded then L' else failRun L' attempt.runId now
  | .lose attempt mark definition now => loseOutcome L attempt mark definition now
  | .note attempt operationId input sha256 now =>
    insertReconciliation h L attempt operationId input sha256 now
  | .settle attempt definition outcome now => settleOutcome L attempt definition outcome now
  | .resume runId now => resumeIfNoUnknownOperations L runId now
  | .complete run actorId now =>
    (succeedRun L run.runId now).logEvent h run .runSucceeded (.obj []) actorId now
  | .decide runId gateId input sha256 evidenceIds now =>
    let L' := insertDecision h L runId gateId input sha256 evidenceIds now
    if input.outcome = .failed then failRun L' runId now else L'

/-- Every step of the run has succeeded and every gate has passed. -/
def AllDone (L : Ledger) (runId : String) : Prop :=
  (∀ s ∈ L.runSteps, s.runId = runId → s.status = .succeeded) ∧
    ∀ g ∈ L.runHealthGates, g.runId = runId → g.status = .passed

/-- What the source has established when it makes the write. -/
def Guard (o : Orchestrator) (L : Ledger) : Write → Prop
  | .evidence _ => True
  | .log run eventType _ _ _ => L.run? run.runId = some run ∧ eventType ≠ .runSucceeded
  | .insertRun blueprint request _ => blueprint ∈ o.blueprints ∧
      ∀ r ∈ L.releaseRuns, r.createIdempotencyKey ≠ request.idempotencyKey
  | .start runId _ => ∃ run, L.run? runId = some run ∧ run.status = .planned
  | .begin row key _ =>
      (∃ run, L.run? row.runId = some run ∧ run.status = .running) ∧
      L.step? row.runId row.stepId = some row ∧ row.status = .pending ∧
      (∀ s, L.runSteps.find? (fun s => s.runId == row.runId && s.idempotencyKey == some key) =
        some s → s.stepId = row.stepId) ∧
      (∀ d ∈ row.definition.dependsOn, ∃ s, L.step? row.runId d = some s ∧ s.status = .succeeded) ∧
      (∀ g ∈ row.definition.requiredGates, ∃ r, L.gate? row.runId g = some r ∧ r.status = .passed) ∧
      (row.operationId.isSome → row.idempotencyKey = some key)
  | .finish attempt input sha256 _ =>
      attempt ∈ L.stepAttempts ∧ attempt.status = .intentRecorded ∧
      (∃ s, L.step? attempt.runId attempt.stepId = some s) ∧
      ∃ actorId, sha256 = resultDigest o.host input actorId
  | .lose attempt mark definition _ =>
      attempt ∈ L.stepAttempts ∧ attempt.status = .intentRecorded ∧
      (mark = markUnknown ∨ mark = markInterrupted) ∧
      ∃ s, L.step? attempt.runId attempt.stepId = some s ∧ s.definition = definition
  | .note attempt operationId input sha256 _ =>
      attempt ∈ L.stepAttempts ∧ attempt.operationId = operationId ∧
      sha256 = reconciliationDigest o.host operationId input ∧
      ∀ row ∈ L.operationReconciliations, row.runId = attempt.runId →
        row.idempotencyKey ≠ input.idempotencyKey
  | .settle attempt definition _ _ =>
      attempt ∈ L.stepAttempts ∧ attempt.status = .outcomeUnknown ∧
      ∃ s, L.step? attempt.runId attempt.stepId = some s ∧ s.definition = definition
  | .resume _ _ => True
  | .complete run _ _ => L.run? run.runId = some run ∧ run.status ≠ .failed ∧
      run.status ≠ .pausedOutcomeUnknown ∧ AllDone L run.runId
  | .decide runId gateId input sha256 _ _ =>
      (∃ run, L.run? runId = some run ∧ run.status = .running) ∧
      (∃ g, L.gate? runId gateId = some g ∧ g.status = .pending) ∧
      (∃ s, measuringStep L runId gateId = some s ∧ s.status = .succeeded) ∧
      (∀ d ∈ L.healthGateDecisions, d.runId = runId →
        d.gateId ≠ gateId ∧ d.idempotencyKey ≠ input.idempotencyKey) ∧
      sha256 = decisionDigest o.host runId gateId input

def performAll (h : Host) (L : Ledger) (ws : List Write) : Ledger := ws.foldl (perform h) L

def Guarded (o : Orchestrator) : Ledger → List Write → Prop
  | _, [] => True
  | L, w::ws => Guard o L w ∧ Guarded o (perform o.host L w) ws

@[simp] theorem performAll_nil (h : Host) (L : Ledger) : performAll h L [] = L := rfl

@[simp] theorem performAll_cons (h : Host) (L : Ledger) (w : Write) (ws : List Write) :
    performAll h L (w::ws) = performAll h (perform h L w) ws := rfl

theorem performAll_append (h : Host) (L : Ledger) (ws rest : List Write) :
    performAll h L (ws++rest) = performAll h (performAll h L ws) rest := by
  simp [performAll]

theorem guarded_append (o : Orchestrator) (L : Ledger) (ws rest : List Write) :
    Guarded o L (ws++rest) ↔ Guarded o L ws ∧ Guarded o (performAll o.host L ws) rest := by
  induction ws generalizing L with
  | nil => simp [Guarded]
  | cons w ws ih => simp [Guarded, ih, and_assoc]

theorem run_id {L : Ledger} {runId : String} {run : RunRow} (h : L.run? runId = some run) :
    run.runId = runId := by
  simpa using List.find?_some h

theorem run_mem {L : Ledger} {runId : String} {run : RunRow} (h : L.run? runId = some run) :
    run ∈ L.releaseRuns := List.mem_of_find?_eq_some h

theorem step_key {L : Ledger} {runId stepId : String} {s : StepRow}
    (h : L.step? runId stepId = some s) : s.runId = runId ∧ s.stepId = stepId := by
  simpa using List.find?_some h

theorem step_mem {L : Ledger} {runId stepId : String} {s : StepRow}
    (h : L.step? runId stepId = some s) : s ∈ L.runSteps := List.mem_of_find?_eq_some h

theorem gate_key {L : Ledger} {runId gateId : String} {g : GateRow}
    (h : L.gate? runId gateId = some g) : g.runId = runId ∧ g.gateId = gateId := by
  simpa using List.find?_some h

theorem gate_mem {L : Ledger} {runId gateId : String} {g : GateRow}
    (h : L.gate? runId gateId = some g) : g ∈ L.runHealthGates := List.mem_of_find?_eq_some h

theorem measuring_mem {L : Ledger} {runId gateId : String} {s : StepRow}
    (h : measuringStep L runId gateId = some s) : s ∈ L.runSteps ∧ s.runId = runId := by
  have hm := List.mem_of_find?_eq_some h
  simpa [Ledger.stepsOf, orderBy] using hm

@[simp] theorem requireRun_ok {L : Ledger} {runId : String} {run : RunRow} :
    requireRun L runId = .ok run ↔ L.run? runId = some run := by
  unfold requireRun
  cases L.run? runId <;> simp [fail]

@[simp] theorem requireStep_ok {L : Ledger} {runId stepId : String} {s : StepRow} :
    requireStep L runId stepId = .ok s ↔ L.step? runId stepId = some s := by
  unfold requireStep
  cases L.step? runId stepId <;> simp [fail]

@[simp] theorem requireGate_ok {L : Ledger} {runId gateId : String} {g : GateRow} :
    requireGate L runId gateId = .ok g ↔ L.gate? runId gateId = some g := by
  unfold requireGate
  cases L.gate? runId gateId <;> simp [fail]

@[simp] theorem requireMeasurement_ok {L : Ledger} {runId gateId : String} {s : StepRow} :
    requireMeasurement L runId gateId = .ok s ↔
      measuringStep L runId gateId = some s ∧ s.status = .succeeded := by
  unfold requireMeasurement
  cases measuringStep L runId gateId with
  | none => simp [fail]
  | some t =>
    by_cases h : t.status = .succeeded
    · simp only [Option.filter_some, h, beq_self_eq_true, if_true, Except.ok.injEq,
        Option.some.injEq]
      constructor
      · rintro rfl
        exact ⟨rfl, h⟩
      · exact fun h => h.1
    · simp only [Option.filter_some, beq_eq_false_iff_ne.mpr h, fail, Option.some.injEq]
      constructor
      · intro h'
        cases h'
      · rintro ⟨rfl, h'⟩
        exact absurd h' h

@[simp] theorem requireLatestAttempt_ok {L : Ledger} {operationId : String} {a : AttemptRow} :
    requireLatestAttempt L operationId = .ok a ↔
      Ledger.latestAttempt (L.stepAttempts.filter (·.operationId == operationId)) = some a := by
  unfold requireLatestAttempt
  cases Ledger.latestAttempt (L.stepAttempts.filter (·.operationId == operationId)) <;> simp [fail]

theorem latest_mem {rows : List AttemptRow} {a : AttemptRow}
    (h : Ledger.latestAttempt rows = some a) : a ∈ rows := List.argmax_mem h

theorem latest_operation {L : Ledger} {operationId : String} {a : AttemptRow}
    (h : Ledger.latestAttempt (L.stepAttempts.filter (·.operationId == operationId)) = some a) :
    a ∈ L.stepAttempts ∧ a.operationId = operationId := by
  simpa using latest_mem h

@[simp] theorem appendEvent_ok {h : Host} {L L' : Ledger} {runId : String} {t : EventType}
    {payload : Json} {actorId now : String} :
    appendEvent h L runId t payload actorId now = .ok L' ↔
      ∃ run, L.run? runId = some run ∧ L.logEvent h run t payload actorId now = L' := by
  simp [appendEvent, bind_ok, pure, Except.pure]

attribute [local simp] perform in
theorem persistEvidence_ok {h : Host} {L L' : Ledger} {runId stepId now : String}
    {items : List EvidenceInput} {ids : List String}
    (hp : persistEvidence h L runId stepId now items = .ok (ids, L')) :
    ∃ rows, L' = perform h L (.evidence rows) ∧ rows.length = items.length ∧
      ids = rows.map (·.evidenceId) := by
  induction items generalizing L ids with
  | nil =>
    obtain ⟨rfl, rfl⟩ : [] = ids ∧ L = L' := by simpa [persistEvidence] using hp
    exact ⟨[], by simp [perform], rfl, rfl⟩
  | cons item items ih =>
    simp only [persistEvidence, bind_ok] at hp
    obtain ⟨_, _, ⟨ids', L1⟩, hr, he⟩ := hp
    obtain ⟨rfl, rfl⟩ : _ ∧ L1 = L' := by simpa [pure, Except.pure] using he
    obtain ⟨rows, rfl, hlen, rfl⟩ := ih hr
    refine ⟨evidenceRow runId stepId now (h.randomUUID L.draws) item::rows, ?_, by simp [hlen], rfl⟩
    simp only [perform, List.append_assoc, List.singleton_append, List.length_cons]
    congr 1
    omega

/-- The ledger `L'` is `L` after the guarded writes `ws`. -/
def Commits (o : Orchestrator) (L : Ledger) (ws : List Write) (L' : Ledger) : Prop :=
  Guarded o L ws ∧ performAll o.host L ws = L'

theorem commits_nil (o : Orchestrator) (L : Ledger) : Commits o L [] L := ⟨trivial, rfl⟩

theorem commits_append {o : Orchestrator} {L L1 L2 : Ledger} {ws rest : List Write}
    (h : Commits o L ws L1) (hr : Commits o L1 rest L2) : Commits o L (ws++rest) L2 := by
  obtain ⟨hg, rfl⟩ := h
  exact ⟨(guarded_append o L ws rest).mpr ⟨hg, hr.1⟩, by rw [performAll_append, hr.2]⟩

theorem commits_split {o : Orchestrator} {L L' : Ledger} (ws : List Write) {rest : List Write}
    (h : Commits o L (ws++rest) L') : ∃ L1, Commits o L ws L1 ∧ Commits o L1 rest L' := by
  obtain ⟨hg, hp⟩ := h
  obtain ⟨hg1, hg2⟩ := (guarded_append o L ws rest).mp hg
  exact ⟨_, ⟨hg1, rfl⟩, hg2, by rw [← hp, performAll_append]⟩

theorem commits_one {o : Orchestrator} {L : Ledger} {w : Write} (h : Guard o L w) :
    Commits o L [w] (perform o.host L w) := ⟨⟨h, trivial⟩, rfl⟩

def Write.isLog (w : Write) (runId : String) : Bool :=
  match w with
  | .log run .. => run.runId == runId
  | _ => false

theorem commits_log {o : Orchestrator} {L L1 L2 : Ledger} {ws : List Write} {runId : String}
    {t : EventType} {payload : Json} {actorId now : String} (h : Commits o L ws L1)
    (he : appendEvent o.host L1 runId t payload actorId now = .ok L2) (ht : t ≠ .runSucceeded) :
    ∃ log : Write, log.isLog runId = true ∧ Commits o L (ws++[log]) L2 := by
  obtain ⟨run, hr, rfl⟩ := appendEvent_ok.mp he
  refine ⟨.log run t payload actorId now, by simp [Write.isLog, run_id hr],
    commits_append h (commits_one ⟨?_, ht⟩)⟩
  rw [run_id hr]
  exact hr

/-- A call that answers with the run commits the ledger it has read. -/
theorem answered {L L' : Ledger} {runId : String} {snapshot : RunSnapshot}
    (h : (getRun L runId >>= fun s => (pure (s, L) : Fallible (RunSnapshot × Ledger))) =
      .ok (snapshot, L')) : L' = L := by
  simp only [bind_ok, pure, Except.pure, Except.ok.injEq, Prod.mk.injEq] at h
  obtain ⟨_, _, _, rfl⟩ := h
  rfl

theorem startRun_writes {o : Orchestrator} {L L' : Ledger} {runId actorId now : String}
    {snapshot : RunSnapshot} (h : startRun o L runId actorId now = .ok (snapshot, L')) :
    (L' = L ∧ ∃ run, L.run? runId = some run ∧ run.status = .running) ∨
    ∃ log : Write, log.isLog runId = true ∧ Commits o L [.start runId now, log] L' := by
  simp only [startRun, bind_ok, requireRun_ok] at h
  obtain ⟨_, _, _, _, run, hr, h⟩ := h
  split at h
  · rename_i hrunning
    exact .inl ⟨answered h, run, hr, hrunning⟩
  · simp only [bind_ok, failIf_ok, bne_eq_false_iff_eq] at h
    obtain ⟨_, hp, L1, he, h⟩ := h
    obtain rfl := answered (bind_ok.mpr h)
    exact .inr (commits_log (commits_one (w := .start runId now) ⟨run, hr, hp⟩) he (by decide))

theorem maybeComplete_writes {o : Orchestrator} {L L' : Ledger} {runId actorId now : String}
    (h : maybeCompleteRun o.host L runId actorId now = .ok L') :
    ∃ run, L.run? runId = some run ∧
      ((L' = L ∧ (run.status = .failed ∨ run.status = .pausedOutcomeUnknown ∨ ¬AllDone L runId)) ∨
        Commits o L [.complete run actorId now] L') := by
  simp only [maybeCompleteRun, bind_ok, requireRun_ok] at h
  obtain ⟨run, hr, h⟩ := h
  refine ⟨run, hr, ?_⟩
  obtain rfl := run_id hr
  split at h
  · rename_i hs
    obtain rfl : L = L' := by simpa [pure, Except.pure] using h
    exact .inl ⟨rfl, hs.elim .inl (fun h => .inr (.inl h))⟩
  · rename_i hs
    split at h
    · rename_i ha
      obtain rfl : L = L' := by simpa [pure, Except.pure] using h
      refine .inl ⟨rfl, .inr (.inr ?_)⟩
      simp only [Bool.or_eq_true, List.any_eq_true, Bool.and_eq_true, beq_iff_eq,
        bne_iff_ne] at ha
      rintro ⟨hsteps, hgates⟩
      obtain ⟨s, hm, h1, h2⟩ | ⟨g, hm, h1, h2⟩ := ha
      · exact h2 (hsteps s hm h1)
      · exact h2 (hgates g hm h1)
    · rename_i ha
      simp only [appendEvent_ok] at h
      obtain ⟨run', hr', rfl⟩ := h
      simp only [Bool.or_eq_true, List.any_eq_true, Bool.and_eq_true, beq_iff_eq, bne_iff_ne,
        not_or, not_exists, not_and, not_not] at ha hs
      have hrun : run'.runId = run.runId ∧ run'.lastSeq = run.lastSeq := by
        rw [Ledger.run_setRun (by intro r; rfl), hr] at hr'
        obtain rfl : _ = run' := by simpa using hr'
        simp
      refine .inr ⟨⟨⟨hr, hs.1, hs.2, ha.1, ha.2⟩, trivial⟩, ?_⟩
      simp [perform, succeedRun, Ledger.logEvent, hrun]

theorem createRun_writes {o : Orchestrator} {L L' : Ledger} {request : RunRequest} {now : String}
    {result : CreateRunResult} (h : createRun o L request now = .ok (result, L')) :
    (L' = L ∧ ∃ r, L.releaseRuns.find? (·.createIdempotencyKey == request.idempotencyKey) = some r ∧
      r.createRequestSha256 = createRequestDigest o.host request) ∨
    ∃ b, ∃ log : Write, log.isLog (o.host.randomUUID L.draws) = true ∧
      Commits o L [.insertRun b request now, log] L' := by
  simp only [createRun, bind_ok] at h
  obtain ⟨_, _, b, hb, h⟩ := h
  split at h
  · rename_i r hf
    simp only [bind_ok, failIf_ok, bne_eq_false_iff_eq, pure, Except.pure, Except.ok.injEq,
      Prod.mk.injEq] at h
    obtain ⟨_, hd, _, _, _, rfl⟩ := h
    exact .inl ⟨rfl, r, hf, hd⟩
  · rename_i hk
    simp only [bind_ok, pure, Except.pure, Except.ok.injEq, Prod.mk.injEq] at h
    obtain ⟨_, _, L1, he, _, _, _, rfl⟩ := h
    have hm : b ∈ o.blueprints := by
      unfold requireBlueprint at hb
      split at hb
      · rename_i b' hf
        obtain rfl : b' = b := by simpa using hb
        exact List.mem_reverse.mp (List.mem_of_find?_eq_some hf)
      · simp [fail] at hb
    have hkey : ∀ r ∈ L.releaseRuns, r.createIdempotencyKey ≠ request.idempotencyKey := by
      intro r hr
      simpa using List.find?_eq_none.mp hk r hr
    exact .inr ⟨b, commits_log (commits_one (w := .insertRun b request now) ⟨hm, hkey⟩) he
      (by decide)⟩

theorem begin_guard {o : Orchestrator} {L L1 : Ledger} {runId stepId key operationId : String}
    {run : RunRow} {row : StepRow} (hr : L.run? runId = some run) (hrun : run.status = .running)
    (hs : L.step? runId stepId = some row) (hst : row.status = .pending)
    (hk : (L.runSteps.find? fun s => s.runId == runId && s.idempotencyKey == some key).any
      (fun keyOwner => keyOwner.stepId != stepId) = false)
    (hd : checkDependenciesSucceeded L runId stepId row.definition.dependsOn = .ok ())
    (hg : checkGatesPassed L runId stepId row.definition.requiredGates = .ok ())
    (hop : nextOperation o.host L row key = .ok (operationId, L1)) (now : String) :
    Guard o L (.begin row key now) ∧ operationId = operationOf o.host L row ∧
      L1 = afterOperation L row := by
  obtain ⟨rfl, rfl⟩ := step_key hs
  have hnext : operationId = operationOf o.host L row ∧ L1 = afterOperation L row ∧
      (row.operationId.isSome → row.idempotencyKey = some key) := by
    unfold nextOperation at hop
    cases hc : row.operationId with
    | none =>
      obtain ⟨rfl, rfl⟩ : _ = operationId ∧ _ = L1 := by
        simpa [hc, pure, Except.pure] using hop
      simp [operationOf, afterOperation, hc]
    | some op =>
      simp only [hc, bind_ok, failIf_ok, bne_eq_false_iff_eq, pure, Except.pure, Except.ok.injEq,
        Prod.mk.injEq] at hop
      obtain ⟨_, hkey, _, _, rfl, rfl⟩ := hop
      simp [operationOf, afterOperation, hc, hkey]
  refine ⟨⟨⟨run, hr, hrun⟩, hs, hst, ?_, ?_, ?_, hnext.2.2⟩, hnext.1, hnext.2.1⟩
  · intro s hf
    simpa [hf] using hk
  · intro d hdm
    have := forM_ok hd d hdm
    simpa only [bind_ok, requireStep_ok, failIf_ok, bne_eq_false_iff_eq, exists_const] using this
  · intro g hgm
    have := forM_ok hg g hgm
    simpa [Option.any_eq_true] using this

theorem beginStepAttempt_writes {o : Orchestrator} {L L' : Ledger}
    {runId stepId key actorId now : String} {result : BeginStepResult}
    (h : beginStepAttempt o L runId stepId key actorId now = .ok (result, L')) :
    (∃ operationId, result = .alreadyCompleted runId stepId operationId ∧ L' = L ∧
      ∃ row, L.step? runId stepId = some row ∧ row.status = .succeeded) ∨
    ∃ row, ∃ log : Write, log.isLog runId = true ∧ Commits o L [.begin row key now, log] L' ∧
      row.runId = runId ∧ row.stepId = stepId ∧ result = .intent {
        runId, stepId, action := row.definition.action, operationId := operationOf o.host L row
        idempotencyKey := key, attemptNumber := row.attemptCount+1
        executionClass := row.definition.executionClass } := by
  simp only [beginStepAttempt, bind_ok, failIf_ok, requireRun_ok, requireStep_ok] at h
  obtain ⟨_, _, _, _, _, _, _, _, run, hr, _, hrun, row, hs, _, hk, h⟩ := h
  have hrun : run.status = .running := by simpa using hrun
  split at h
  · rename_i hsucceeded _
    simp only [bind_ok, pure, Except.pure, Except.ok.injEq, Prod.mk.injEq] at h
    obtain ⟨_, _, rfl, rfl⟩ := h
    exact .inl ⟨_, rfl, rfl, row, hs, hsucceeded⟩
  · simp only [bind_ok, failIf_ok, pure, Except.pure, Except.ok.injEq, Prod.mk.injEq] at h
    obtain ⟨_, _, _, hst, _, hd, _, hg, ⟨operationId, L1⟩, hop, L2, he, rfl, rfl⟩ := h
    obtain ⟨hguard, rfl, rfl⟩ := begin_guard hr hrun hs (by simpa using hst) hk hd hg hop now
    obtain ⟨rfl, rfl⟩ := step_key hs
    obtain ⟨log, hl, hc⟩ := commits_log (commits_one hguard) he (by decide)
    exact .inr ⟨row, log, hl, hc, rfl, rfl, rfl⟩

/-- The completion at the end of a call, or the reason why there is none. -/
def Completion (L : Ledger) (runId actorId now : String) (ws : List Write) : Prop :=
  ∃ run, L.run? runId = some run ∧
    ((ws = [] ∧ (run.status = .failed ∨ run.status = .pausedOutcomeUnknown ∨ ¬AllDone L runId)) ∨
      ws = [.complete run actorId now])

theorem maybeComplete_commits {o : Orchestrator} {L L' : Ledger} {runId actorId now : String}
    (h : maybeCompleteRun o.host L runId actorId now = .ok L') :
    ∃ ws, Commits o L ws L' ∧ Completion L runId actorId now ws := by
  obtain ⟨run, hr, ⟨rfl, hs⟩ | hc⟩ := maybeComplete_writes h
  · exact ⟨[], commits_nil o L', run, hr, .inl ⟨rfl, hs⟩⟩
  · exact ⟨_, hc, run, hr, .inr rfl⟩

theorem recordStepOutcome_writes {o : Orchestrator} {L L' : Ledger} {operationId : String}
    {input : RecordStepOutcomeInput} {actorId now : String} {snapshot : RunSnapshot}
    (h : recordStepOutcome o L operationId input actorId now = .ok (snapshot, L')) :
    ∃ a, Ledger.latestAttempt (L.stepAttempts.filter (·.operationId == operationId)) = some a ∧
      ((L' = L ∧ (a.status = .succeeded ∨ a.status = .failed) ∧
        ∀ sha ∈ a.resultRequestSha256, sha = resultDigest o.host input actorId) ∨
      ∃ rows L1 tail, ∃ log : Write, log.isLog a.runId = true ∧
        rows.length = (input.evidence.getD []).length ∧
        Commits o L [.evidence rows, .finish a input (resultDigest o.host input actorId) now, log] L1 ∧
        Commits o L1 tail L' ∧
        ((input.outcome = .failed ∧ tail = []) ∨
          input.outcome = .succeeded ∧ Completion L1 a.runId actorId now tail)) := by
  simp only [recordStepOutcome, bind_ok, requireLatestAttempt_ok, requireStep_ok] at h
  obtain ⟨_, _, _, _, _, _, a, ha, s, hs, h⟩ := h
  refine ⟨a, ha, ?_⟩
  split at h
  · rename_i hst
    simp only [bind_ok, failIf_ok, pure, Except.pure, Except.ok.injEq, Prod.mk.injEq] at h
    obtain ⟨_, hd, _, _, _, rfl⟩ := h
    refine .inl ⟨rfl, hst, ?_⟩
    intro sha hsha
    simpa [Option.mem_def.mp hsha] using hd
  · right
    simp only [bind_ok, failIf_ok, bne_eq_false_iff_eq] at h
    obtain ⟨_, hst, ⟨ids, L1⟩, hp, _, _, h⟩ := h
    obtain ⟨rows, rfl, hlen, _⟩ := persistEvidence_ok hp
    obtain ⟨hmem, _⟩ := latest_operation ha
    have hwrites : Commits o L
        [.evidence rows, .finish a input (resultDigest o.host input actorId) now] _ :=
      ⟨⟨trivial, ⟨hmem, hst, ⟨s, hs⟩, actorId, rfl⟩, trivial⟩, rfl⟩
    cases ho : input.outcome with
    | failed =>
      simp only [ho, show (StepOutcome.failed == .succeeded) = false from rfl, Bool.false_eq_true,
        if_false, bind_ok, pure, Except.pure, Except.ok.injEq, Prod.mk.injEq] at h
      obtain ⟨L2, he, L3, rfl, _, _, _, rfl⟩ := h
      simp only [performAll_cons, performAll_nil, perform, ho, reduceCtorEq, if_false] at hwrites
      obtain ⟨log, hl, hc⟩ := commits_log hwrites he (by decide)
      exact ⟨rows, _, [], log, hl, hlen, hc, commits_nil o _, .inl ⟨rfl, rfl⟩⟩
    | succeeded =>
      simp only [ho, beq_self_eq_true, if_true, bind_ok, pure, Except.pure, Except.ok.injEq,
        Prod.mk.injEq] at h
      obtain ⟨L2, he, L3, hm, _, _, _, rfl⟩ := h
      simp only [performAll_cons, performAll_nil, perform, ho, if_true] at hwrites
      obtain ⟨log, hl, hc⟩ := commits_log hwrites he (by decide)
      obtain ⟨tail, ht, hcompletion⟩ := maybeComplete_commits hm
      exact ⟨rows, _, tail, log, hl, hlen, hc, ht, .inr ⟨rfl, hcompletion⟩⟩

theorem markOutcomeUnknown_writes {o : Orchestrator} {L L' : Ledger}
    {operationId reasonCode actorId now : String} {snapshot : RunSnapshot}
    (h : markOutcomeUnknown o L operationId reasonCode actorId now = .ok (snapshot, L')) :
    ∃ a, Ledger.latestAttempt (L.stepAttempts.filter (·.operationId == operationId)) = some a ∧
      ((L' = L ∧ a.status = .outcomeUnknown) ∨ ∃ s, ∃ log : Write,
        L.step? a.runId a.stepId = some s ∧ log.isLog a.runId = true ∧
        Commits o L [.lose a markUnknown s.definition now, log] L') := by
  simp only [markOutcomeUnknown, bind_ok, requireLatestAttempt_ok, requireStep_ok] at h
  obtain ⟨_, _, _, _, _, _, a, ha, s, hs, h⟩ := h
  refine ⟨a, ha, ?_⟩
  split at h
  · rename_i hst
    exact .inl ⟨answered h, hst⟩
  · simp only [bind_ok, failIf_ok, bne_eq_false_iff_eq] at h
    obtain ⟨_, hst, L1, he, h⟩ := h
    obtain rfl := answered (bind_ok.mpr h)
    obtain ⟨hmem, _⟩ := latest_operation ha
    obtain ⟨log, hl, hc⟩ := commits_log (commits_one (w := .lose a markUnknown s.definition now)
      ⟨hmem, hst, .inl rfl, s, hs, rfl⟩) he (by decide)
    exact .inr ⟨s, log, hs, hl, hc⟩

theorem reconcileOperation_writes {o : Orchestrator} {L L' : Ledger} {operationId : String}
    {input : ReconcileOperationInput} {now : String} {snapshot : RunSnapshot}
    (h : reconcileOperation o L operationId input now = .ok (snapshot, L')) :
    ∃ a, Ledger.latestAttempt (L.stepAttempts.filter (·.operationId == operationId)) = some a ∧
      ((L' = L ∧ ∃ row, L.operationReconciliations.find? (fun row =>
          row.runId == a.runId && row.idempotencyKey == input.idempotencyKey) = some row ∧
          row.requestSha256 = reconciliationDigest o.host operationId input) ∨
      ∃ rows s L1 tail, ∃ log : Write, log.isLog a.runId = true ∧
        rows.length = (input.evidence.getD []).length ∧ L.step? a.runId a.stepId = some s ∧
        a.status = .outcomeUnknown ∧
        Commits o L [.evidence rows,
          .note a operationId input (reconciliationDigest o.host operationId input) now,
          .settle a s.definition input.outcome now, log, .resume a.runId now] L1 ∧
        Commits o L1 tail L' ∧ Completion L1 a.runId input.actorId now tail) := by
  simp only [reconcileOperation, bind_ok, requireLatestAttempt_ok] at h
  obtain ⟨_, _, _, _, _, _, _, _, a, ha, h⟩ := h
  refine ⟨a, ha, ?_⟩
  split at h
  · rename_i prior hf
    simp only [bind_ok, failIf_ok, bne_eq_false_iff_eq, pure, Except.pure, Except.ok.injEq,
      Prod.mk.injEq] at h
    obtain ⟨_, hd, _, _, _, rfl⟩ := h
    exact .inl ⟨rfl, prior, hf, hd⟩
  · rename_i hf
    right
    simp only [bind_ok, failIf_ok, bne_eq_false_iff_eq, requireStep_ok] at h
    obtain ⟨_, hst, ⟨ids, L1⟩, hp, s, hs, L2, he, L3, hm, h⟩ := h
    obtain rfl := answered (bind_ok.mpr h)
    obtain ⟨rows, rfl, hlen, _⟩ := persistEvidence_ok hp
    obtain ⟨hmem, hop⟩ := latest_operation ha
    have hkey : ∀ row ∈ L.operationReconciliations, row.runId = a.runId →
        row.idempotencyKey ≠ input.idempotencyKey := by
      intro row hr hrun hk
      have := List.find?_eq_none.mp hf row hr
      simp [hrun, hk] at this
    have hwrites : Commits o L [.evidence rows,
        .note a operationId input (reconciliationDigest o.host operationId input) now,
        .settle a s.definition input.outcome now] _ :=
      ⟨⟨trivial, ⟨hmem, hop, rfl, hkey⟩, ⟨hmem, hst, s, hs, rfl⟩, trivial⟩, rfl⟩
    obtain ⟨log, hl, hc⟩ := commits_log hwrites he (by simp)
    obtain ⟨tail, ht, hcompletion⟩ := maybeComplete_commits hm
    exact ⟨rows, s, _, tail, log, hl, hlen, hs, hst,
      commits_append hc (commits_one (w := .resume a.runId now) trivial), ht, hcompletion⟩

theorem resolveHealthGate_writes {o : Orchestrator} {L L' : Ledger} {runId gateId : String}
    {input : ResolveHealthGateInput} {now : String} {snapshot : RunSnapshot}
    (h : resolveHealthGate o L runId gateId input now = .ok (snapshot, L')) :
    (L' = L ∧ ∃ row, L.healthGateDecisions.find? (fun row =>
        row.runId == runId && row.idempotencyKey == input.idempotencyKey) = some row ∧
        row.requestSha256 = decisionDigest o.host runId gateId input) ∨
    ∃ rows ids L1 tail, ∃ log : Write, log.isLog runId = true ∧ rows.length = input.evidence.length ∧
      Commits o L [.evidence rows,
        .decide runId gateId input (decisionDigest o.host runId gateId input) ids now, log] L1 ∧
      Commits o L1 tail L' ∧
      ((input.outcome = .failed ∧ tail = []) ∨
        input.outcome = .passed ∧ Completion L1 runId input.actorId now tail) := by
  simp only [resolveHealthGate, bind_ok, requireRun_ok] at h
  obtain ⟨_, _, _, _, _, _, _, _, _, _, run, hr, h⟩ := h
  split at h
  · rename_i prior hf
    simp only [bind_ok, failIf_ok, bne_eq_false_iff_eq, pure, Except.pure, Except.ok.injEq,
      Prod.mk.injEq] at h
    obtain ⟨_, hd, _, _, _, rfl⟩ := h
    exact .inl ⟨rfl, prior, hf, hd⟩
  · rename_i hf
    right
    simp only [bind_ok, failIf_ok, bne_eq_false_iff_eq, requireGate_ok, requireMeasurement_ok] at h
    obtain ⟨_, hdec, _, hrun, gate, hg, _, hgs, s, ⟨hs, hss⟩, _, _, ⟨ids, L1⟩, hp, h⟩ := h
    obtain ⟨rows, rfl, hlen, _⟩ := persistEvidence_ok hp
    have hkey : ∀ d ∈ L.healthGateDecisions, d.runId = runId →
        d.gateId ≠ gateId ∧ d.idempotencyKey ≠ input.idempotencyKey := by
      intro d hd hrd
      have h1 := List.find?_eq_none.mp hf d hd
      have h2 := List.any_eq_false.mp hdec d hd
      simp only [hrd, beq_self_eq_true, Bool.true_and, beq_iff_eq] at h1 h2
      exact ⟨h2, h1⟩
    have hwrites : Commits o L [.evidence rows,
        .decide runId gateId input (decisionDigest o.host runId gateId input) ids now] _ :=
      ⟨⟨trivial, ⟨⟨run, hr, hrun⟩, ⟨gate, hg, hgs⟩, ⟨s, hs, hss⟩, hkey, rfl⟩, trivial⟩, rfl⟩
    cases ho : input.outcome with
    | failed =>
      simp only [ho, reduceCtorEq, if_true, if_false, bind_ok, pure, Except.pure, Except.ok.injEq,
        Prod.mk.injEq] at h
      obtain ⟨L2, he, L3, rfl, _, _, _, rfl⟩ := h
      simp only [performAll_cons, performAll_nil, perform, ho, if_true] at hwrites
      obtain ⟨log, hl, hc⟩ := commits_log hwrites he (by decide)
      exact ⟨rows, ids, _, [], log, hl, hlen, hc, commits_nil o _, .inl ⟨rfl, rfl⟩⟩
    | passed =>
      simp only [ho, reduceCtorEq, if_true, if_false, bind_ok, pure, Except.pure, Except.ok.injEq,
        Prod.mk.injEq] at h
      obtain ⟨L2, he, L3, hm, _, _, _, rfl⟩ := h
      simp only [performAll_cons, performAll_nil, perform, ho, reduceCtorEq, if_false] at hwrites
      obtain ⟨log, hl, hc⟩ := commits_log hwrites he (by decide)
      obtain ⟨tail, ht, hcompletion⟩ := maybeComplete_commits hm
      exact ⟨rows, ids, _, tail, log, hl, hlen, hc, ht, .inr ⟨rfl, hcompletion⟩⟩

def Write.isLose : Write → Bool
  | .lose .. => true
  | _ => false

/-- One round of the recovery loop. -/
def RecoveryRound (o : Orchestrator) (L L' : Ledger) : Prop :=
  ∃ a definition now, ∃ log : Write, log.isLog a.runId = true ∧
    Commits o L [.lose a markInterrupted definition now, log] L'

/-- The loop rewrites one attempt at a time, so the attempts it has not
reached are still in flight when their turn comes. -/
theorem recoverAll_rounds {o : Orchestrator} {actorId : String} {now : ℕ → String}
    {L L' : Ledger} {rest : List AttemptRow} {k n : ℕ}
    (hin : ∀ a ∈ rest, a ∈ L.stepAttempts ∧ a.status = .intentRecorded)
    (hd : (rest.map (·.attemptId)).Nodup)
    (h : recoverAll o actorId now L rest k = .ok (n, L')) :
    Relation.ReflTransGen (RecoveryRound o) L L' := by
  induction rest generalizing L k with
  | nil =>
    obtain ⟨_, rfl⟩ : k = n ∧ L = L' := by simpa [recoverAll] using h
    exact .refl
  | cons a rest ih =>
    simp only [recoverAll, bind_ok, requireStep_ok] at h
    obtain ⟨s, hs, L1, he, h⟩ := h
    rw [List.map_cons, List.nodup_cons] at hd
    obtain ⟨hmem, hst⟩ := hin a (by simp)
    obtain ⟨log, hl, hc⟩ := commits_log (commits_one
      (w := .lose a markInterrupted s.definition (now k)) ⟨hmem, hst, .inr rfl, s, hs, rfl⟩) he
      (by decide)
    have hattempts : L1.stepAttempts =
        update (·.attemptId == a.attemptId) markInterrupted L.stepAttempts := by
      obtain ⟨run, _, rfl⟩ := appendEvent_ok.mp he
      rfl
    have hin' : ∀ b ∈ rest, b ∈ L1.stepAttempts ∧ b.status = .intentRecorded := by
      intro b hb
      refine ⟨?_, (hin b (by simp [hb])).2⟩
      have hne : b.attemptId ≠ a.attemptId :=
        fun heq => hd.1 (heq ▸ List.mem_map_of_mem hb)
      rw [hattempts, mem_update]
      exact ⟨b, (hin b (by simp [hb])).1, by simp [hne]⟩
    exact .head ⟨a, s.definition, now k, log, hl, hc⟩ (ih hin' hd.2 h)

theorem recover_rounds {o : Orchestrator} {actorId : String} {now : ℕ → String}
    {L L' : Ledger} {n : ℕ} (hn : (L.stepAttempts.map (·.attemptId)).Nodup)
    (h : recoverInterruptedOperations o L actorId now = .ok (n, L')) :
    Relation.ReflTransGen (RecoveryRound o) L L' := by
  simp only [recoverInterruptedOperations, bind_ok] at h
  obtain ⟨_, _, h⟩ := h
  have hp : (interruptedAttempts L).Perm (L.stepAttempts.filter (·.status == .intentRecorded)) :=
    List.perm_insertionSort _ _
  refine recoverAll_rounds ?_ ?_ h
  · intro a ha
    simpa using hp.mem_iff.mp ha
  · exact (hp.map _).nodup_iff.mpr ((List.filter_sublist.map _).nodup hn)

theorem recover_writes {o : Orchestrator} {actorId : String} {now : ℕ → String}
    {L L' : Ledger} {n : ℕ} (hn : (L.stepAttempts.map (·.attemptId)).Nodup)
    (h : recoverInterruptedOperations o L actorId now = .ok (n, L')) :
    ∃ ws, Commits o L ws L' ∧ ∀ w ∈ ws, w.isLose = true ∨ ∃ runId, w.isLog runId = true := by
  have hrounds := recover_rounds hn h
  clear h
  induction hrounds with
  | refl => exact ⟨[], commits_nil o L, by simp⟩
  | tail _ hround ih =>
    obtain ⟨ws, hws, hall⟩ := ih
    obtain ⟨a, definition, t, log, hl, hc⟩ := hround
    refine ⟨_, commits_append hws hc, fun w hw => ?_⟩
    simp only [List.mem_append, List.mem_cons, List.not_mem_nil, or_false] at hw
    rcases hw with hw | rfl | rfl
    · exact hall w hw
    · exact .inl rfl
    · exact .inr ⟨_, hl⟩

end AccessStack.Release
