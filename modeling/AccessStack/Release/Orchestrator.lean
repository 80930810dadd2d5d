import AccessStack.Release.Ledger

/-!
# The release orchestrator

The public operations of `ReleaseOrchestrator` as functions of the ledger.
Argument checks come before the transaction, as in the source; a check that
runs inside the transaction and fails discards everything written before it.
The clock is an argument: `now` is the value of `new Date().toISOString()`.
-/

set_option autoImplicit false

namespace AccessStack.Release
open AccessStack.Text AccessStack.Rows AccessStack.JsonText

def identifierPattern (value : String) : Bool :=
  bounded Char.isAlphanum
    (fun c => c.isAlphanum || c = '.' || c = '_' || c = ':' || c = '-') 199 value

def actorPattern (value : String) : Bool :=
  bounded Char.isAlphanum (fun c => c.isAlphanum || c = '.' || c = '_' || c = ':' || c = '@' ||
    c = '/' || c = '-') 127 value

def hashPattern (value : String) : Bool := exactly isHexLower 64 value

def commitPattern (value : String) : Bool :=
  exactly isHexLower 40 value || exactly isHexLower 64 value

def outcomeCodePattern (value : String) : Bool :=
  bounded (fun c => c.isUpper || c.isDigit)
    (fun c => c.isUpper || c.isDigit || c = '_' || c = '.' || c = '-') 79 value

def validateIdentifier (value name : String) : Fallible Unit :=
  failIf (!identifierPattern value) .invalidArgument (name ++ " must be a bounded identifier.")

def validateIdempotencyKey (value : String) : Fallible Unit :=
  validateIdentifier value "idempotencyKey"

def validateActor (value : String) : Fallible Unit :=
  failIf (!actorPattern value) .invalidArgument "actorId is invalid."

def validateRunId (value : String) : Fallible Unit :=
  failIf (!isRunId value) .invalidArgument "runId must be a UUID."

def validateOutcomeCode (value : Option String) : Fallible Unit :=
  failIf (value.any fun code => !outcomeCodePattern code) .invalidArgument
    "outcomeCode must be a bounded uppercase code."

def validateEvidence (h : Host) (item : EvidenceInput) : Fallible Unit := do
  validateIdentifier item.kind "evidence kind"
  validateIdentifier item.source "evidence source"
  failIf (!hashPattern item.sha256) .invalidArgument "Evidence sha256 must be lowercase hexadecimal."
  failIf (!h.dateParses item.observedAt) .invalidArgument
    "Evidence observedAt must be a valid timestamp."

def validateRunRequest (request : RunRequest) : Fallible Unit := do
  validateIdentifier request.blueprintId "blueprintId"
  failIf (request.blueprintVersion < 1) .invalidArgument
    "blueprintVersion must be a positive integer."
  failIf (!identifierPattern request.targetRelease) .invalidArgument
    "targetRelease must be a bounded identifier."
  failIf (!commitPattern request.sourceCommitSha) .invalidArgument
    "sourceCommitSha must be a full hexadecimal commit id."
  validateIdempotencyKey request.idempotencyKey
  validateActor request.actorId

structure StepSnapshot where
  stepId : String
  stage : Stage
  action : Action
  executionClass : ExecutionClass
  status : StepStatus
  attemptCount : ℕ
  operationId : Option String
  idempotencyKey : Option String
  deriving DecidableEq

structure GateSnapshot where
  gateId : String
  stage : Stage
  status : GateStatus
  requiredEvidenceKinds : List String
  evidenceIds : List String
  deriving DecidableEq

structure RunSnapshot where
  runId : String
  blueprintId : String
  blueprintVersion : ℤ
  blueprintSha256 : String
  targetRelease : String
  sourceCommitSha : String
  status : RunStatus
  createdAt : String
  updatedAt : String
  lastSeq : ℕ
  steps : List StepSnapshot
  gates : List GateSnapshot
  deriving DecidableEq

structure CreateRunResult where
  run : RunSnapshot
  created : Bool
  deriving DecidableEq

structure StepIntent where
  runId : String
  stepId : String
  action : Action
  operationId : String
  idempotencyKey : String
  attemptNumber : ℕ
  executionClass : ExecutionClass
  deriving DecidableEq

inductive BeginStepResult where
  | intent (intent : StepIntent)
  | alreadyCompleted (runId stepId operationId : String)
  deriving DecidableEq

structure RecordStepOutcomeInput where
  outcome : StepOutcome
  outcomeCode : Option String
  evidence : Option (List EvidenceInput)
  deriving DecidableEq

structure ReconcileOperationInput where
  idempotencyKey : String
  outcome : ReconciliationOutcome
  evidence : Option (List EvidenceInput)
  actorId : String
  deriving DecidableEq

structure ResolveHealthGateInput where
  idempotencyKey : String
  outcome : GateOutcome
  evidence : List EvidenceInput
  actorId : String
  deriving DecidableEq

structure Orchestrator where
  host : Host
  blueprints : List Blueprint

def outcomeName : StepOutcome → String
  | .succeeded => "succeeded"
  | .failed => "failed"

def gateOutcomeName : GateOutcome → String
  | .passed => "passed"
  | .failed => "failed"

def reconciliationName : ReconciliationOutcome → String
  | .applied => "applied"
  | .notApplied => "not_applied"
  | .stillUnknown => "still_unknown"

def runStatusName : RunStatus → String
  | .planned => "planned"
  | .running => "running"
  | .pausedOutcomeUnknown => "paused_outcome_unknown"
  | .failed => "failed"
  | .succeeded => "succeeded"

def stepStatusName : StepStatus → String
  | .pending => "pending"
  | .inProgress => "in_progress"
  | .outcomeUnknown => "outcome_unknown"
  | .failed => "failed"
  | .succeeded => "succeeded"

def attemptStatusName : AttemptStatus → String
  | .intentRecorded => "intent_recorded"
  | .outcomeUnknown => "outcome_unknown"
  | .resolvedNotApplied => "resolved_not_applied"
  | .failed => "failed"
  | .succeeded => "succeeded"

def gateStatusName : GateStatus → String
  | .pending => "pending"
  | .passed => "passed"
  | .failed => "failed"
  | .outcomeUnknown => "outcome_unknown"

def createRequestDigest (h : Host) (request : RunRequest) : String :=
  h.sha256 (canonicalJson h (.obj [
    ("blueprintId", .str request.blueprintId), ("blueprintVersion", .num request.blueprintVersion),
    ("targetRelease", .str request.targetRelease),
    ("sourceCommitSha", .str request.sourceCommitSha), ("actorId", .str request.actorId)]))

def resultDigest (h : Host) (input : RecordStepOutcomeInput) (actorId : String) : String :=
  h.sha256 (canonicalJson h (.obj [
    ("outcome", .str (outcomeName input.outcome)), ("outcomeCode", optional input.outcomeCode),
    ("evidence", .arr ((input.evidence.getD []).map EvidenceInput.toJson)),
    ("actorId", .str actorId)]))

def reconciliationDigest (h : Host) (operationId : String) (input : ReconcileOperationInput) :
    String :=
  h.sha256 (canonicalJson h (.obj [
    ("operationId", .str operationId), ("outcome", .str (reconciliationName input.outcome)),
    ("evidence", .arr ((input.evidence.getD []).map EvidenceInput.toJson)),
    ("actorId", .str input.actorId)]))

/-- The digest of a gate decision names no actor. -/
def decisionDigest (h : Host) (runId gateId : String) (input : ResolveHealthGateInput) : String :=
  h.sha256 (canonicalJson h (.obj [
    ("runId", .str runId), ("gateId", .str gateId),
    ("outcome", .str (gateOutcomeName input.outcome)),
    ("evidence", .arr (input.evidence.map EvidenceInput.toJson))]))

def blueprintKey (id : String) (version : ℤ) : String := id ++ "@" ++ toString version

/-- A later entry of the constructor's map replaces an earlier one. -/
def requireBlueprint (o : Orchestrator) (id : String) (version : ℤ) : Fallible Blueprint :=
  match o.blueprints.reverse.find? (fun b => blueprintKey b.id b.version == blueprintKey id version) with
  | some blueprint => .ok blueprint
  | none => fail .blueprintNotFound
      ("Unknown workflow blueprint " ++ blueprintKey id version ++ ".")

def requireRun (L : Ledger) (runId : String) : Fallible RunRow :=
  match L.run? runId with
  | some row => .ok row
  | none => fail .runNotFound ("Run " ++ runId ++ " does not exist.")

def requireStep (L : Ledger) (runId stepId : String) : Fallible StepRow :=
  match L.step? runId stepId with
  | some row => .ok row
  | none => fail .stepNotFound ("Step " ++ stepId ++ " does not exist in run " ++ runId ++ ".")

def requireLatestAttempt (L : Ledger) (operationId : String) : Fallible AttemptRow :=
  match Ledger.latestAttempt (L.stepAttempts.filter (·.operationId == operationId)) with
  | some row => .ok row
  | none => fail .operationNotFound ("Operation " ++ operationId ++ " does not exist.")

def getRun (L : Ledger) (runId : String) : Fallible RunSnapshot := do
  validateRunId runId
  let run ← requireRun L runId
  return {
    runId := run.runId, blueprintId := run.blueprintId
    blueprintVersion := run.blueprintVersion, blueprintSha256 := run.blueprintSha256
    targetRelease := run.targetRelease, sourceCommitSha := run.sourceCommitSha
    status := run.status, createdAt := run.createdAt, updatedAt := run.updatedAt
    lastSeq := run.lastSeq
    steps := (L.stepsOf runId).map fun step => {
      stepId := step.stepId, stage := step.stage, action := step.action
      executionClass := step.executionClass, status := step.status
      attemptCount := step.attemptCount, operationId := step.operationId
      idempotencyKey := step.idempotencyKey }
    gates := (L.gatesOf runId).map fun gate => {
      gateId := gate.gateId, stage := gate.stage, status := gate.status
      requiredEvidenceKinds := gate.requiredEvidenceKinds, evidenceIds := gate.evidenceIds } }

def evidenceRow (runId stepId recordedAt evidenceId : String) (item : EvidenceInput) :
    EvidenceRow where
  evidenceId := evidenceId
  runId := runId
  stepId := stepId
  kind := item.kind
  source := item.source
  sha256 := item.sha256
  observedAt := item.observedAt
  recordedAt := recordedAt

def persistEvidence (h : Host) (L : Ledger) (runId stepId recordedAt : String) :
    List EvidenceInput → Fallible (List String × Ledger)
  | [] => .ok ([], L)
  | item::rest => do
    validateEvidence h item
    let evidenceId := h.randomUUID L.draws
    let (ids, L') ← persistEvidence h { L with
        evidenceRecords := L.evidenceRecords ++ [evidenceRow runId stepId recordedAt evidenceId item]
        draws := L.draws+1 } runId stepId recordedAt rest
    return (evidenceId::ids, L')

def appendEvent (h : Host) (L : Ledger) (runId : String) (eventType : EventType) (payload : Json)
    (actorId occurredAt : String) : Fallible Ledger := do
  let run ← requireRun L runId
  return L.logEvent h run eventType payload actorId occurredAt

/-- The status a paused run takes up again is read off its steps alone. -/
def resumeIfNoUnknownOperations (L : Ledger) (runId now : String) : Ledger :=
  if L.stepAttempts.any (fun a => a.runId == runId &&
      (a.status == .intentRecorded || a.status == .outcomeUnknown)) then L
  else
    let nextStatus := if L.runSteps.any (fun s => s.runId == runId && s.status == .failed)
      then RunStatus.failed else .running
    L.setRun runId fun r =>
      if r.status = .pausedOutcomeUnknown then { r with status := nextStatus, updatedAt := now }
      else r

def maybeCompleteRun (h : Host) (L : Ledger) (runId actorId now : String) : Fallible Ledger := do
  let run ← requireRun L runId
  if run.status = .failed ∨ run.status = .pausedOutcomeUnknown then return L
  if L.runSteps.any (fun s => s.runId == runId && s.status != .succeeded) ||
      L.runHealthGates.any (fun g => g.runId == runId && g.status != .passed) then return L
  appendEvent h (L.setRun runId fun r => { r with status := .succeeded, updatedAt := now })
    runId .runSucceeded (.obj []) actorId now

def stepRow (runId : String) (ordinal : ℕ) (step : StepDefinition) : StepRow where
  runId := runId
  stepId := step.id
  ordinal := ordinal
  stage := step.stage
  action := step.action
  executionClass := step.executionClass
  definition := step
  status := .pending
  attemptCount := 0
  operationId := none
  idempotencyKey := none

def gateRow (runId : String) (gate : HealthGateDefinition) : GateRow where
  runId := runId
  gateId := gate.id
  stage := gate.stage
  status := .pending
  requiredEvidenceKinds := gate.requiredEvidenceKinds
  evidenceIds := []

/-- The insertions of `createRun` before its event. -/
def insertRun (h : Host) (L : Ledger) (blueprint : Blueprint) (request : RunRequest)
    (now : String) : Ledger :=
  let runId := h.randomUUID L.draws
  { L with
    releaseRuns := L.releaseRuns ++ [{
      runId, blueprintId := blueprint.id, blueprintVersion := blueprint.version
      blueprintSha256 := h.sha256 (canonicalJson h blueprint.toJson)
      targetRelease := request.targetRelease, sourceCommitSha := request.sourceCommitSha
      status := .planned, createIdempotencyKey := request.idempotencyKey
      createRequestSha256 := createRequestDigest h request
      createdAt := now, updatedAt := now, lastSeq := 0 }]
    runSteps := L.runSteps ++ blueprint.steps.mapIdx (stepRow runId)
    runHealthGates := L.runHealthGates ++ blueprint.gates.map (gateRow runId)
    draws := L.draws+1 }

def createRun (o : Orchestrator) (L : Ledger) (request : RunRequest) (now : String) :
    Fallible (CreateRunResult × Ledger) := do
  validateRunRequest request
  let blueprint ← requireBlueprint o request.blueprintId request.blueprintVersion
  let blueprintSha256 := o.host.sha256 (canonicalJson o.host blueprint.toJson)
  let requestSha256 := createRequestDigest o.host request
  match L.releaseRuns.find? (·.createIdempotencyKey == request.idempotencyKey) with
  | some existing => do
    failIf (existing.createRequestSha256 != requestSha256) .idempotencyKeyConflict
      "Run idempotency key was already used with different release inputs."
    let run ← getRun L existing.runId
    return (⟨run, false⟩, L)
  | none => do
    failIf (!((L.workflowBlueprints.find? fun row =>
        row.blueprintId == blueprint.id && row.version == blueprint.version).any
          fun row => row.sha256 == blueprintSha256))
      .blueprintVersionConflict "Persisted blueprint does not match source."
    let runId := o.host.randomUUID L.draws
    let L' ← appendEvent o.host (insertRun o.host L blueprint request now) runId .runCreated (.obj [
      ("blueprintId", .str blueprint.id), ("blueprintVersion", .num blueprint.version),
      ("blueprintSha256", .str blueprintSha256), ("targetRelease", .str request.targetRelease),
      ("sourceCommitSha", .str request.sourceCommitSha)]) request.actorId now
    let run ← getRun L' runId
    return (⟨run, true⟩, L')

def startRun (o : Orchestrator) (L : Ledger) (runId actorId now : String) :
    Fallible (RunSnapshot × Ledger) := do
  validateRunId runId
  validateActor actorId
  let run ← requireRun L runId
  if run.status = .running then
    return (← getRun L runId, L)
  failIf (run.status != .planned) .invalidTransition
    ("Cannot start run from " ++ runStatusName run.status ++ ".")
  let L' ← appendEvent o.host (L.setRun runId fun r =>
    { r with status := .running, updatedAt := now }) runId .runStarted (.obj []) actorId now
  return (← getRun L' runId, L')

/-- The dependency loop of `beginStepAttempt`. -/
def checkDependenciesSucceeded (L : Ledger) (runId stepId : String) (dependsOn : List String) :
    Fallible Unit :=
  dependsOn.forM fun dependencyId => do
    let dependency ← requireStep L runId dependencyId
    failIf (dependency.status != .succeeded) .dependencyNotSatisfied
      ("Step " ++ stepId ++ " is waiting for " ++ dependencyId ++ ".")

/-- The gate loop of `beginStepAttempt`. -/
def checkGatesPassed (L : Ledger) (runId stepId : String) (requiredGates : List String) :
    Fallible Unit :=
  requiredGates.forM fun gateId =>
    failIf (!(L.gate? runId gateId).any fun gate => gate.status == .passed) .gateNotPassed
      ("Step " ++ stepId ++ " requires passed gate " ++ gateId ++ ".")

def attemptsOf (L : Ledger) (runId stepId : String) : List AttemptRow :=
  L.stepAttempts.filter fun a => a.runId == runId && a.stepId == stepId

/-- The operation of the next attempt and the ledger after its draw: a
reconciled retry keeps the operation, a first attempt draws one. -/
def nextOperation (h : Host) (L : Ledger) (row : StepRow) (idempotencyKey : String) :
    Fallible (String × Ledger) :=
  match row.operationId with
  | some operationId => do
    failIf (row.idempotencyKey != some idempotencyKey) .idempotencyKeyConflict
      "A reconciled retry must reuse the original idempotency key."
    failIf (!((Ledger.latestAttempt (attemptsOf L row.runId row.stepId)).any
        fun a => a.status == .resolvedNotApplied))
      .reconciliationRequired "The previous operation must be proven not applied before retry."
    return (operationId, L)
  | none => return (h.randomUUID L.draws, { L with draws := L.draws+1 })

/-- The writes of `beginStepAttempt` before its event. -/
def insertAttempt (h : Host) (L : Ledger) (row : StepRow)
    (operationId idempotencyKey now : String) : Ledger :=
  let L1 := L.setStep row.runId row.stepId fun s => { s with
    status := .inProgress, attemptCount := row.attemptCount+1, operationId := some operationId
    idempotencyKey := some idempotencyKey }
  { L1 with
    stepAttempts := L1.stepAttempts ++ [{
      attemptId := h.randomUUID L.draws, runId := row.runId, stepId := row.stepId
      attemptNumber := row.attemptCount+1, operationId, idempotencyKey, status := .intentRecorded
      intentRecordedAt := now, completedAt := none, outcomeCode := none
      resultRequestSha256 := none }]
    draws := L.draws+1 }

def beginStepAttempt (o : Orchestrator) (L : Ledger) (runId stepId idempotencyKey actorId now : String) :
    Fallible (BeginStepResult × Ledger) := do
  validateRunId runId
  validateIdentifier stepId "stepId"
  validateIdempotencyKey idempotencyKey
  validateActor actorId
  let run ← requireRun L runId
  failIf (run.status != .running)
    (if run.status = .pausedOutcomeUnknown then .reconciliationRequired else .invalidTransition)
    ("Cannot begin a step while run is " ++ runStatusName run.status ++ ".")
  let row ← requireStep L runId stepId
  failIf ((L.runSteps.find? fun s => s.runId == runId && s.idempotencyKey == some idempotencyKey).any
      fun keyOwner => keyOwner.stepId != stepId)
    .idempotencyKeyConflict "Idempotency key is already assigned to another step."
  match row.status, row.operationId with
  | .succeeded, some operationId => do
    failIf (row.idempotencyKey != some idempotencyKey) .idempotencyKeyConflict
      "Completed step was called with another idempotency key."
    return (.alreadyCompleted runId stepId operationId, L)
  | _, _ => do
    failIf (row.status == .inProgress || row.status == .outcomeUnknown) .reconciliationRequired
      ("Step " ++ stepId ++ " has a persisted operation that must be reconciled before retry.")
    failIf (row.status != .pending) .invalidTransition
      ("Cannot begin step " ++ stepId ++ " from " ++ stepStatusName row.status ++ ".")
    checkDependenciesSucceeded L runId stepId row.definition.dependsOn
    checkGatesPassed L runId stepId row.definition.requiredGates
    let (operationId, L1) ← nextOperation o.host L row idempotencyKey
    let attemptNumber := row.attemptCount+1
    let L2 ← appendEvent o.host (insertAttempt o.host L1 row operationId idempotencyKey now) runId
      .stepIntentRecorded (.obj [
        ("stepId", .str stepId), ("action", .str (actionName row.definition.action)),
        ("operationId", .str operationId), ("attemptNumber", .num attemptNumber),
        ("executionClass", .str (executionClassName row.definition.executionClass))]) actorId now
    return (.intent {
      runId, stepId, action := row.definition.action, operationId, idempotencyKey, attemptNumber
      executionClass := row.definition.executionClass }, L2)

/-- The result of an operation in flight on its attempt and its step. -/
def finishAttempt (L : Ledger) (attempt : AttemptRow) (input : RecordStepOutcomeInput)
    (resultRequestSha256 now : String) : Ledger :=
  let L1 := L.setAttempt attempt.attemptId fun a => { a with
    status := if input.outcome = .succeeded then .succeeded else .failed, completedAt := some now
    outcomeCode := input.outcomeCode, resultRequestSha256 := some resultRequestSha256 }
  L1.setStep attempt.runId attempt.stepId fun s =>
    { s with status := if input.outcome = .succeeded then .succeeded else .failed }

def failRun (L : Ledger) (runId now : String) : Ledger :=
  L.setRun runId fun r => { r with status := .failed, updatedAt := now }

def recordStepOutcome (o : Orchestrator) (L : Ledger) (operationId : String)
    (input : RecordStepOutcomeInput) (actorId now : String) : Fallible (RunSnapshot × Ledger) := do
  validateIdentifier operationId "operationId"
  validateActor actorId
  validateOutcomeCode input.outcomeCode
  let resultRequestSha256 := resultDigest o.host input actorId
  let attempt ← requireLatestAttempt L operationId
  let step ← requireStep L attempt.runId attempt.stepId
  if attempt.status = .succeeded ∨ attempt.status = .failed then
    failIf (attempt.resultRequestSha256.any (· != resultRequestSha256)) .idempotencyKeyConflict
      "Operation result was already recorded differently."
    return (← getRun L attempt.runId, L)
  failIf (attempt.status != .intentRecorded) .reconciliationRequired
    "An ambiguous operation must be reconciled before accepting a new result."
  let (evidenceIds, L1) ← persistEvidence o.host L attempt.runId attempt.stepId now
    (input.evidence.getD [])
  let succeeded := input.outcome == .succeeded
  let L2 := finishAttempt L1 attempt input resultRequestSha256 now
  failIf (succeeded && step.definition.measuredGate.isSome && evidenceIds.isEmpty) .invalidArgument
    ("Health gate measurement " ++ attempt.stepId ++ " requires evidence.")
  let L3 := if succeeded then L2 else failRun L2 attempt.runId now
  let L4 ← appendEvent o.host L3 attempt.runId (if succeeded then .stepSucceeded else .stepFailed)
    (.obj [("stepId", .str attempt.stepId), ("operationId", .str operationId),
      ("attemptNumber", .num attempt.attemptNumber), ("outcomeCode", optional input.outcomeCode),
      ("evidenceIds", strings evidenceIds)]) actorId now
  let L5 ← if succeeded then maybeCompleteRun o.host L4 attempt.runId actorId now else .ok L4
  return (← getRun L5 attempt.runId, L5)

/-- `UPDATE run_health_gates … WHERE gate_id = definition.healthGateId`, made
only when the definition names a gate. -/
def setMeasuredGate (L : Ledger) (runId : String) (definition : StepDefinition)
    (f : GateRow → GateRow) : Ledger :=
  { L with runHealthGates := update (fun row => row.runId == runId &&
      definition.measuredGate == some row.gateId) f L.runHealthGates }

def markUnknown (a : AttemptRow) : AttemptRow := { a with status := .outcomeUnknown }

/-- `AND status = 'intent_recorded'` in the update of the recovery loop. -/
def markInterrupted (a : AttemptRow) : AttemptRow :=
  if a.status = .intentRecorded then markUnknown a else a

/-- The writes by which an operation in flight becomes unknown, shared by
`markOutcomeUnknown` and the recovery loop up to the event they append. -/
def loseOutcome (L : Ledger) (attempt : AttemptRow) (mark : AttemptRow → AttemptRow)
    (definition : StepDefinition) (now : String) : Ledger :=
  let L1 := L.setAttempt attempt.attemptId mark
  let L2 := L1.setStep attempt.runId attempt.stepId fun s => { s with status := .outcomeUnknown }
  let L3 := setMeasuredGate L2 attempt.runId definition fun g => { g with status := .outcomeUnknown }
  L3.setRun attempt.runId fun r => { r with status := .pausedOutcomeUnknown, updatedAt := now }

def markOutcomeUnknown (o : Orchestrator) (L : Ledger) (operationId reasonCode actorId now : String) :
    Fallible (RunSnapshot × Ledger) := do
  validateIdentifier operationId "operationId"
  validateIdentifier reasonCode "reasonCode"
  validateActor actorId
  let attempt ← requireLatestAttempt L operationId
  let step ← requireStep L attempt.runId attempt.stepId
  if attempt.status = .outcomeUnknown then
    return (← getRun L attempt.runId, L)
  failIf (attempt.status != .intentRecorded) .invalidTransition
    ("Cannot mark operation unknown from " ++ attemptStatusName attempt.status ++ ".")
  let L' ← appendEvent o.host (loseOutcome L attempt markUnknown step.definition now)
    attempt.runId
    .operationOutcomeUnknown (.obj [
      ("stepId", .str attempt.stepId), ("operationId", .str operationId),
      ("attemptNumber", .num attempt.attemptNumber), ("reasonCode", .str reasonCode)]) actorId now
  return (← getRun L' attempt.runId, L')

/-- The writes of one reconciliation before the event and the resumption. -/
def settleOutcome (L : Ledger) (attempt : AttemptRow) (definition : StepDefinition)
    (outcome : ReconciliationOutcome) (now : String) : Ledger :=
  match outcome with
  | .applied =>
    let L1 := L.setAttempt attempt.attemptId fun a => { a with
      status := .succeeded, completedAt := some now, outcomeCode := some "RECONCILED_APPLIED" }
    let L2 := L1.setStep attempt.runId attempt.stepId fun s => { s with status := .succeeded }
    setMeasuredGate L2 attempt.runId definition fun g =>
      { g with status := .pending, evidenceIds := [] }
  | .notApplied =>
    let L1 := L.setAttempt attempt.attemptId fun a => { a with
      status := .resolvedNotApplied, completedAt := some now
      outcomeCode := some "RECONCILED_NOT_APPLIED" }
    let L2 := L1.setStep attempt.runId attempt.stepId fun s => { s with status := .pending }
    setMeasuredGate L2 attempt.runId definition fun g => { g with status := .pending }
  | .stillUnknown => L

def insertReconciliation (h : Host) (L : Ledger) (attempt : AttemptRow) (operationId : String)
    (input : ReconcileOperationInput) (requestSha256 now : String) : Ledger :=
  { L with
    operationReconciliations := L.operationReconciliations ++ [{
      reconciliationId := h.randomUUID L.draws, runId := attempt.runId, stepId := attempt.stepId
      operationId, idempotencyKey := input.idempotencyKey, requestSha256, outcome := input.outcome
      createdAt := now }]
    draws := L.draws+1 }

def reconcileOperation (o : Orchestrator) (L : Ledger) (operationId : String)
    (input : ReconcileOperationInput) (now : String) : Fallible (RunSnapshot × Ledger) := do
  validateIdentifier operationId "operationId"
  validateIdempotencyKey input.idempotencyKey
  validateActor input.actorId
  failIf (input.outcome != .stillUnknown && (input.evidence.getD []).isEmpty) .invalidArgument
    "A conclusive reconciliation requires evidence proving the external state."
  let attempt ← requireLatestAttempt L operationId
  let requestSha256 := reconciliationDigest o.host operationId input
  match L.operationReconciliations.find? fun row =>
      row.runId == attempt.runId && row.idempotencyKey == input.idempotencyKey with
  | some prior => do
    failIf (prior.requestSha256 != requestSha256) .idempotencyKeyConflict
      "Reconciliation idempotency key was reused with a different observation."
    return (← getRun L attempt.runId, L)
  | none => do
    failIf (attempt.status != .outcomeUnknown) .invalidTransition
      "Only an outcome_unknown operation can be reconciled."
    let (evidenceIds, L1) ← persistEvidence o.host L attempt.runId attempt.stepId now
      (input.evidence.getD [])
    let L2 := insertReconciliation o.host L1 attempt operationId input requestSha256 now
    let step ← requireStep L2 attempt.runId attempt.stepId
    let L3 := settleOutcome L2 attempt step.definition input.outcome now
    let L4 ← appendEvent o.host L3 attempt.runId (.operationReconciled input.outcome) (.obj [
      ("stepId", .str attempt.stepId), ("operationId", .str operationId),
      ("attemptNumber", .num attempt.attemptNumber), ("evidenceIds", strings evidenceIds)])
      input.actorId now
    let L5 := resumeIfNoUnknownOperations L4 attempt.runId now
    let L6 ← maybeCompleteRun o.host L5 attempt.runId input.actorId now
    return (← getRun L6 attempt.runId, L6)

/-- `ORDER BY run_id, step_id, attempt_number` -/
def attemptLe (a b : AttemptRow) : Bool :=
  decide (a.runId < b.runId) || (a.runId == b.runId && (decide (a.stepId < b.stepId) ||
    (a.stepId == b.stepId && decide (a.attemptNumber ≤ b.attemptNumber))))

def interruptedAttempts (L : Ledger) : List AttemptRow :=
  (L.stepAttempts.filter (·.status == .intentRecorded)).insertionSort
    fun a b => attemptLe a b = true

/-- The recovery loop. The clock is read once for each operation. -/
def recoverAll (o : Orchestrator) (actorId : String) (now : ℕ → String) :
    Ledger → List AttemptRow → ℕ → Fallible (ℕ × Ledger)
  | L, [], recovered => .ok (recovered, L)
  | L, attempt::rest, recovered => do
    let step ← requireStep L attempt.runId attempt.stepId
    let L' ← appendEvent o.host (loseOutcome L attempt markInterrupted step.definition (now recovered))
      attempt.runId .operationRecoveredAsUnknown (.obj [
        ("stepId", .str attempt.stepId), ("operationId", .str attempt.operationId),
        ("attemptNumber", .num attempt.attemptNumber)]) actorId (now recovered)
    recoverAll o actorId now L' rest (recovered+1)

def recoverInterruptedOperations (o : Orchestrator) (L : Ledger) (actorId : String)
    (now : ℕ → String) : Fallible (ℕ × Ledger) := do
  validateActor actorId
  recoverAll o actorId now L (interruptedAttempts L) 0

/-- The health measurement of a gate is the first step that names it. -/
def measuringStep (L : Ledger) (runId gateId : String) : Option StepRow :=
  (L.stepsOf runId).find? fun step => step.definition.healthGateId == some gateId

def requireGate (L : Ledger) (runId gateId : String) : Fallible GateRow :=
  match L.gate? runId gateId with
  | some gate => .ok gate
  | none => fail .gateNotFound ("Health gate " ++ gateId ++ " does not exist in run " ++ runId ++ ".")

/-- The health measurement must exist and must have succeeded. -/
def requireMeasurement (L : Ledger) (runId gateId : String) : Fallible StepRow :=
  match (measuringStep L runId gateId).filter (·.status == .succeeded) with
  | some healthStep => .ok healthStep
  | none => fail .dependencyNotSatisfied
      ("Health measurement for gate " ++ gateId ++ " must succeed before its decision.")

/-- The decision row and the status and evidence of its gate. -/
def insertDecision (h : Host) (L : Ledger) (runId gateId : String) (input : ResolveHealthGateInput)
    (requestSha256 : String) (evidenceIds : List String) (now : String) : Ledger :=
  let L1 : Ledger := { L with
    healthGateDecisions := L.healthGateDecisions ++ [{
      decisionId := h.randomUUID L.draws, runId, gateId, idempotencyKey := input.idempotencyKey
      requestSha256, outcome := input.outcome, createdAt := now }]
    draws := L.draws+1 }
  L1.setGate runId gateId fun g => { g with
    status := if input.outcome = .passed then .passed else .failed, evidenceIds }

def resolveHealthGate (o : Orchestrator) (L : Ledger) (runId gateId : String)
    (input : ResolveHealthGateInput) (now : String) : Fallible (RunSnapshot × Ledger) := do
  validateRunId runId
  validateIdentifier gateId "gateId"
  validateIdempotencyKey input.idempotencyKey
  validateActor input.actorId
  failIf (input.outcome == .passed && input.evidence.isEmpty) .invalidArgument
    "A passing health gate requires evidence."
  let requestSha256 := decisionDigest o.host runId gateId input
  let run ← requireRun L runId
  match L.healthGateDecisions.find? fun row =>
      row.runId == runId && row.idempotencyKey == input.idempotencyKey with
  | some prior => do
    failIf (prior.requestSha256 != requestSha256) .idempotencyKeyConflict
      "Gate idempotency key was reused differently."
    return (← getRun L runId, L)
  | none => do
    failIf (L.healthGateDecisions.any fun row => row.runId == runId && row.gateId == gateId)
      .invalidTransition "Health gate decision is immutable once recorded."
    failIf (run.status != .running) .invalidTransition
      ("Cannot resolve a health gate while run is " ++ runStatusName run.status ++ ".")
    let gate ← requireGate L runId gateId
    failIf (gate.status != .pending) .invalidTransition
      ("Cannot resolve health gate " ++ gateId ++ " from " ++ gateStatusName gate.status ++ ".")
    let healthStep ← requireMeasurement L runId gateId
    let missingKinds := gate.requiredEvidenceKinds.filter fun kind =>
      !(input.evidence.map (·.kind)).contains kind
    failIf (input.outcome == .passed && !missingKinds.isEmpty) .invalidArgument
      ("Health gate " ++ gateId ++ " is missing required evidence kinds: " ++
        ", ".intercalate missingKinds ++ ".")
    let (evidenceIds, L1) ← persistEvidence o.host L runId healthStep.stepId now input.evidence
    let L2 := insertDecision o.host L1 runId gateId input requestSha256 evidenceIds now
    let L3 := if input.outcome = .failed then failRun L2 runId now else L2
    let L4 ← appendEvent o.host L3 runId (.healthGate input.outcome)
      (.obj [("gateId", .str gateId), ("evidenceIds", strings evidenceIds)]) input.actorId now
    let L5 ← if input.outcome = .passed then
      maybeCompleteRun o.host L4 runId input.actorId now else .ok L4
    return (← getRun L5 runId, L5)

def registerBlueprint (h : Host) (now : String) (L : Ledger) (blueprint : Blueprint) :
    Fallible Ledger :=
  let checksum := h.sha256 (canonicalJson h blueprint.toJson)
  match L.workflowBlueprints.find? fun row =>
      row.blueprintId == blueprint.id && row.version == blueprint.version with
  | some existing => do
    failIf (existing.sha256 != checksum) .blueprintVersionConflict
      ("Blueprint " ++ blueprintKey blueprint.id blueprint.version ++ " is immutable.")
    return L
  | none => return { L with
      workflowBlueprints := L.workflowBlueprints ++ [{
        blueprintId := blueprint.id, version := blueprint.version, sha256 := checksum
        definition := blueprint, registeredAt := now }] }

/-- The constructor: every blueprint is validated, then registered. -/
def construct (h : Host) (blueprints : List Blueprint) (L : Ledger) (now : String) :
    Fallible (Orchestrator × Ledger) := do
  blueprints.forM validateWorkflowBlueprint
  let L' ← blueprints.foldlM (registerBlueprint h now) L
  return (⟨h, blueprints⟩, L')

structure ReleaseRunEvent where
  runId : String
  seq : ℕ
  eventId : String
  eventType : EventType
  payload : Json
  occurredAt : String

/-- The payload is `JSON.parse` of a text the ledger has written itself, so
the default stands for no ledger's row. -/
def runEvent (event : EventRow) : ReleaseRunEvent where
  runId := event.runId
  seq := event.seq
  eventId := event.eventId
  eventType := event.eventType
  payload := (parse event.payloadJson).getD .null
  occurredAt := event.occurredAt

def replayEvents (L : Ledger) (runId : String) (afterSeq limit : ℤ) :
    Fallible (List ReleaseRunEvent) := do
  validateRunId runId
  failIf (afterSeq < 0) .invalidArgument "afterSeq must be a non-negative integer."
  failIf (limit < 1 || limit > 1000) .invalidArgument
    "Event replay limit must be between 1 and 1000."
  let _ ← requireRun L runId
  return ((orderBy (·.seq) (L.runEvents.filter fun e =>
    e.runId == runId && decide (afterSeq < e.seq))).take limit.toNat).map runEvent

end AccessStack.Release
