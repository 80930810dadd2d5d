import AccessStack.Json
import AccessStack.Release.Blueprint

/-!
# The release ledger

The tables of `storage/migrations.ts` as lists of rows, with the queries and
the row writes the orchestrator composes into transactions. The work of a
transaction is a function from one ledger to a result and the next ledger, or
it throws.

Primary keys and `UNIQUE` constraints are not checked on insertion: the
invariants of the later modules show that no insertion violates one. Random
identifiers are drawn from the host in order and `draws` counts them; a draw
of a transaction that was rolled back was never stored and is made again.
-/

set_option autoImplicit false

namespace AccessStack.Release
open AccessStack.Text AccessStack.Rows AccessStack.JsonText

/-- `validateRunId`: `^[0-9a-f-]{36}$` -/
def isRunId (value : String) : Bool := exactly (fun c => isHexLower c || c = '-') 36 value

/-- What the orchestrator takes from Node: the digest, the collation behind
`localeCompare`, `Number.isFinite(Date.parse(value))` and the identifiers
`randomUUID` returns, in the order of the calls. -/
structure Host where
  sha256 : String → String
  sha256_format : ∀ s, exactly isHexLower 64 (sha256 s) = true
  localeLe : String → String → Bool
  dateParses : String → Bool
  dateParses_iso : dateParses "1970-01-01T00:00:00.000Z" = true
  randomUUID : ℕ → String
  randomUUID_format : ∀ n, isUuid (randomUUID n) = true

section Sample

/-- A host to run the model on: identifiers count up, the digest is the
beginning of the text in the format of SHA-256 and names are ordered by their
code points. -/
def sampleHost : Host where
  sha256 := leadingDigest
  sha256_format := leadingDigest_format
  localeLe a b := decide (bytes a ≤ bytes b)
  dateParses s := s == "1970-01-01T00:00:00.000Z"
  dateParses_iso := by decide
  randomUUID := countedUuid
  randomUUID_format := countedUuid_format

theorem sampleHost_distinct {m n : ℕ} (hm : m < 16^12) (hn : n < 16^12)
    (h : sampleHost.randomUUID m = sampleHost.randomUUID n) : m = n :=
  hexDigits_injective hm hn (List.append_cancel_left (String.ofList_injective h))

end Sample

structure RunRequest where
  blueprintId : String
  blueprintVersion : ℤ
  targetRelease : String
  sourceCommitSha : String
  idempotencyKey : String
  actorId : String
  deriving DecidableEq

structure EvidenceInput where
  kind : String
  source : String
  sha256 : String
  observedAt : String
  deriving DecidableEq

inductive EventType where
  | runCreated | runStarted | stepIntentRecorded | stepSucceeded | stepFailed
  | operationOutcomeUnknown | operationReconciled (outcome : ReconciliationOutcome)
  | operationRecoveredAsUnknown | healthGate (outcome : GateOutcome) | runSucceeded
  deriving DecidableEq

structure BlueprintRow where
  blueprintId : String
  version : ℤ
  sha256 : String
  definition : Blueprint
  registeredAt : String
  deriving DecidableEq

structure RunRow where
  runId : String
  blueprintId : String
  blueprintVersion : ℤ
  blueprintSha256 : String
  targetRelease : String
  sourceCommitSha : String
  status : RunStatus
  createIdempotencyKey : String
  createRequestSha256 : String
  createdAt : String
  updatedAt : String
  lastSeq : ℕ
  deriving DecidableEq

/-- `definition` is the parsed `definition_json`. -/
structure StepRow where
  runId : String
  stepId : String
  ordinal : ℕ
  stage : Stage
  action : Action
  executionClass : ExecutionClass
  definition : StepDefinition
  status : StepStatus
  attemptCount : ℕ
  operationId : Option String
  idempotencyKey : Option String
  deriving DecidableEq

structure GateRow where
  runId : String
  gateId : String
  stage : Stage
  status : GateStatus
  requiredEvidenceKinds : List String
  evidenceIds : List String
  deriving DecidableEq

structure AttemptRow where
  attemptId : String
  runId : String
  stepId : String
  attemptNumber : ℕ
  operationId : String
  idempotencyKey : String
  status : AttemptStatus
  intentRecordedAt : String
  completedAt : Option String
  outcomeCode : Option String
  resultRequestSha256 : Option String
  deriving DecidableEq

structure EvidenceRow where
  evidenceId : String
  runId : String
  stepId : String
  kind : String
  source : String
  sha256 : String
  observedAt : String
  recordedAt : String
  deriving DecidableEq

structure EventRow where
  runId : String
  seq : ℕ
  eventId : String
  eventType : EventType
  payloadJson : String
  occurredAt : String
  deriving DecidableEq

structure AuditRow where
  auditId : String
  runId : String
  eventSeq : ℕ
  actorId : String
  action : EventType
  detailsJson : String
  occurredAt : String
  deriving DecidableEq

structure DecisionRow where
  decisionId : String
  runId : String
  gateId : String
  idempotencyKey : String
  requestSha256 : String
  outcome : GateOutcome
  createdAt : String
  deriving DecidableEq

structure ReconciliationRow where
  reconciliationId : String
  runId : String
  stepId : String
  operationId : String
  idempotencyKey : String
  requestSha256 : String
  outcome : ReconciliationOutcome
  createdAt : String
  deriving DecidableEq

structure Ledger where
  workflowBlueprints : List BlueprintRow := []
  releaseRuns : List RunRow := []
  runSteps : List StepRow := []
  runHealthGates : List GateRow := []
  stepAttempts : List AttemptRow := []
  evidenceRecords : List EvidenceRow := []
  runEvents : List EventRow := []
  auditLog : List AuditRow := []
  healthGateDecisions : List DecisionRow := []
  operationReconciliations : List ReconciliationRow := []
  draws : ℕ := 0
  deriving DecidableEq

section Canonical

mutual

/-- The entries are sorted by key alone, so sorting after the values have
been made canonical gives the object of the source. -/
def canonicalValue (h : Host) : Json → Json
  | .arr items => .arr (canonicalItems h items)
  | .obj fields => .obj ((canonicalFields h fields).insertionSort
      fun left right => h.localeLe left.1 right.1 = true)
  | v => v

def canonicalItems (h : Host) : List Json → List Json
  | [] => []
  | v::rest => canonicalValue h v :: canonicalItems h rest

def canonicalFields (h : Host) : List (String × Json) → List (String × Json)
  | [] => []
  | (k, v)::rest => (k, canonicalValue h v) :: canonicalFields h rest

end

def canonicalJson (h : Host) (v : Json) : String := stringify (canonicalValue h v)

def strings (xs : List String) : Json := .arr (xs.map .str)

def optional : Option String → Json
  | none => .null
  | some s => .str s

def actionName : Action → String
  | .resolveMainCommit => "resolve_main_commit"
  | .verifyCanonicalCi => "verify_canonical_ci"
  | .publishReleaseTag => "publish_release_tag"
  | .buildAndSignRelease => "build_and_sign_release"
  | .publishSignedRelease => "publish_signed_release"
  | .verifyReleaseAssets => "verify_release_assets"
  | .deployEdge => "deploy_edge"
  | .verifyEdgeHealth => "verify_edge_health"
  | .prepareOracle => "prepare_oracle"
  | .prepareWindows => "prepare_windows"
  | .validateOracleCandidate => "validate_oracle_candidate"
  | .validateWindowsCandidate => "validate_windows_candidate"
  | .promoteOracle => "promote_oracle"
  | .verifyOracleHealth => "verify_oracle_health"
  | .promoteWindows => "promote_windows"
  | .verifyWindowsHealth => "verify_windows_health"
  | .reconcileFinalPointers => "reconcile_final_pointers"
  | .smokeCatalog => "smoke_catalog"
  | .cleanupKnownTemporaryResidue => "cleanup_known_temporary_residue"

def executionClassName : ExecutionClass → String
  | .readOnly => "read_only"
  | .externalEffect => "external_effect"

def StepDefinition.toJson (s : StepDefinition) : Json :=
  .obj ([("id", .str s.id), ("stage", .str (stageName s.stage)),
    ("action", .str (actionName s.action)),
    ("executionClass", .str (executionClassName s.executionClass)),
    ("dependsOn", strings s.dependsOn), ("requiredGates", strings s.requiredGates)] ++
    (s.healthGateId.map fun g => ("healthGateId", .str g)).toList)

def HealthGateDefinition.toJson (g : HealthGateDefinition) : Json :=
  .obj [("id", .str g.id), ("stage", .str (stageName g.stage)),
    ("requiredEvidenceKinds", strings g.requiredEvidenceKinds)]

def Blueprint.toJson (b : Blueprint) : Json :=
  .obj [("id", .str b.id), ("version", .num b.version), ("name", .str b.name),
    ("historicalReference", .str b.historicalReference),
    ("stages", strings (b.stages.map stageName)),
    ("gates", .arr (b.gates.map HealthGateDefinition.toJson)),
    ("steps", .arr (b.steps.map StepDefinition.toJson))]

def EvidenceInput.toJson (e : EvidenceInput) : Json :=
  .obj [("kind", .str e.kind), ("source", .str e.source), ("sha256", .str e.sha256),
    ("observedAt", .str e.observedAt)]

end Canonical

/-- `ORDER BY key` -/
def orderBy {α β : Type} [LinearOrder β] (key : α → β) (rows : List α) : List α :=
  rows.insertionSort fun a b => key a ≤ key b

namespace Ledger

def stepsOf (L : Ledger) (runId : String) : List StepRow :=
  orderBy (·.ordinal) (L.runSteps.filter (·.runId == runId))

def gatesOf (L : Ledger) (runId : String) : List GateRow :=
  orderBy (·.gateId) (L.runHealthGates.filter (·.runId == runId))

def run? (L : Ledger) (runId : String) : Option RunRow :=
  L.releaseRuns.find? (·.runId == runId)

def step? (L : Ledger) (runId stepId : String) : Option StepRow :=
  L.runSteps.find? fun row => row.runId == runId && row.stepId == stepId

def gate? (L : Ledger) (runId gateId : String) : Option GateRow :=
  L.runHealthGates.find? fun row => row.runId == runId && row.gateId == gateId

/-- `ORDER BY attempt_number DESC LIMIT 1` -/
def latestAttempt (rows : List AttemptRow) : Option AttemptRow :=
  rows.argmax (·.attemptNumber)

def setRun (L : Ledger) (runId : String) (f : RunRow → RunRow) : Ledger :=
  { L with releaseRuns := update (·.runId == runId) f L.releaseRuns }

def setStep (L : Ledger) (runId stepId : String) (f : StepRow → StepRow) : Ledger :=
  { L with runSteps := update (fun row => row.runId == runId && row.stepId == stepId) f L.runSteps }

def setGate (L : Ledger) (runId gateId : String) (f : GateRow → GateRow) : Ledger :=
  { L with runHealthGates :=
      update (fun row => row.runId == runId && row.gateId == gateId) f L.runHealthGates }

def setAttempt (L : Ledger) (attemptId : String) (f : AttemptRow → AttemptRow) : Ledger :=
  { L with stepAttempts := update (·.attemptId == attemptId) f L.stepAttempts }

/-- The writes of `appendEvent` once the row of the run is read. -/
def logEvent (h : Host) (L : Ledger) (run : RunRow) (eventType : EventType) (payload : Json)
    (actorId occurredAt : String) : Ledger :=
  { L.setRun run.runId fun r => { r with lastSeq := run.lastSeq+1, updatedAt := occurredAt } with
    runEvents := L.runEvents ++ [{
      runId := run.runId, seq := run.lastSeq+1, eventId := h.randomUUID L.draws, eventType,
      payloadJson := canonicalJson h payload, occurredAt }]
    auditLog := L.auditLog ++ [{
      auditId := h.randomUUID (L.draws+1), runId := run.runId, eventSeq := run.lastSeq+1, actorId,
      action := eventType, detailsJson := canonicalJson h payload, occurredAt }]
    draws := L.draws+2 }

variable {L : Ledger} {runId stepId gateId attemptId : String}

theorem run_setRun {f : RunRow → RunRow} (hf : ∀ r, (f r).runId = r.runId) (r' : String) :
    (L.setRun runId f).run? r' =
      (L.run? r').map fun r => if r.runId == runId then f r else r :=
  find_update _ _ _ _ fun r => by rw [hf]

end Ledger

end AccessStack.Release
