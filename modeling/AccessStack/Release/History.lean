import AccessStack.Release.Writes

/-!
# Histories of orchestrator calls

A history is the list of the calls made on one orchestrator, in any order and
with any arguments. A call that throws leaves the ledger as it was. The
invariants of the ledger are proved for one write and carried over calls and
histories by the induction of this module.
-/

set_option autoImplicit false

namespace AccessStack.Release
open AccessStack.Text AccessStack.Rows AccessStack.JsonText

inductive Op where
  | createRun (request : RunRequest) (now : String)
  | startRun (runId actorId now : String)
  | beginStepAttempt (runId stepId idempotencyKey actorId now : String)
  | recordStepOutcome (operationId : String) (input : RecordStepOutcomeInput) (actorId now : String)
  | markOutcomeUnknown (operationId reasonCode actorId now : String)
  | reconcileOperation (operationId : String) (input : ReconcileOperationInput) (now : String)
  | recoverInterruptedOperations (actorId : String) (now : ℕ → String)
  | resolveHealthGate (runId gateId : String) (input : ResolveHealthGateInput) (now : String)

inductive Response where
  | created (result : CreateRunResult)
  | run (snapshot : RunSnapshot)
  | begun (result : BeginStepResult)
  | recovered (count : ℕ)
  deriving DecidableEq

def respond {α : Type} (f : α → Response) (r : Fallible (α × Ledger)) : Fallible (Response × Ledger) :=
  r.map fun p => (f p.1, p.2)

def call (o : Orchestrator) (L : Ledger) : Op → Fallible (Response × Ledger)
  | .createRun request now => respond .created (createRun o L request now)
  | .startRun runId actorId now => respond .run (startRun o L runId actorId now)
  | .beginStepAttempt runId stepId key actorId now =>
    respond .begun (beginStepAttempt o L runId stepId key actorId now)
  | .recordStepOutcome operationId input actorId now =>
    respond .run (recordStepOutcome o L operationId input actorId now)
  | .markOutcomeUnknown operationId reasonCode actorId now =>
    respond .run (markOutcomeUnknown o L operationId reasonCode actorId now)
  | .reconcileOperation operationId input now =>
    respond .run (reconcileOperation o L operationId input now)
  | .recoverInterruptedOperations actorId now =>
    respond .recovered (recoverInterruptedOperations o L actorId now)
  | .resolveHealthGate runId gateId input now =>
    respond .run (resolveHealthGate o L runId gateId input now)

/-- `SqliteReleaseLedger.transaction`: what the work has written is committed,
or the ledger is rolled back to the one it began with and the error goes on. -/
def transaction {α : Type} (L : Ledger) (work : Ledger → Fallible (α × Ledger)) :
    Fallible α × Ledger :=
  match work L with
  | .ok (value, L') => (.ok value, L')
  | .error e => (.error e, L)

/-- The ledger after a call. Every operation makes its writes in one
transaction; what it checks before throws as well, and has written nothing. -/
def step (o : Orchestrator) (L : Ledger) (op : Op) : Ledger :=
  (transaction L fun L => call o L op).2

def exec (o : Orchestrator) (L : Ledger) (ops : List Op) : Ledger := ops.foldl (step o) L

@[simp] theorem exec_nil (o : Orchestrator) (L : Ledger) : exec o L [] = L := rfl

@[simp] theorem exec_cons (o : Orchestrator) (L : Ledger) (op : Op) (ops : List Op) :
    exec o L (op::ops) = exec o (step o L op) ops := rfl

@[simp] theorem exec_append (o : Orchestrator) (L : Ledger) (ops rest : List Op) :
    exec o L (ops++rest) = exec o (exec o L ops) rest := by
  simp [exec]

theorem transaction_ok {α : Type} {L L' : Ledger} {work : Ledger → Fallible (α × Ledger)} {value : α}
    (h : work L = .ok (value, L')) : transaction L work = (.ok value, L') := by
  simp [transaction, h]

theorem transaction_error {α : Type} {L : Ledger} {work : Ledger → Fallible (α × Ledger)}
    {e : OrchestratorError} (h : work L = .error e) : transaction L work = (.error e, L) := by
  simp [transaction, h]

theorem step_ok {o : Orchestrator} {L L' : Ledger} {op : Op} {r : Response}
    (h : call o L op = .ok (r, L')) : step o L op = L' := by
  rw [step, transaction_ok h]

theorem step_error {o : Orchestrator} {L : Ledger} {op : Op} {e : OrchestratorError}
    (h : call o L op = .error e) : step o L op = L := by
  rw [step, transaction_error h]

/-- Every call of the history meets the condition in the ledger it finds. -/
def Along (o : Orchestrator) (P : Ledger → Op → Prop) : Ledger → List Op → Prop
  | _, [] => True
  | L, op::ops => P L op ∧ Along o P (step o L op) ops

theorem along_append {o : Orchestrator} {P : Ledger → Op → Prop} {L : Ledger} {ops rest : List Op} :
    Along o P L (ops++rest) ↔ Along o P L ops ∧ Along o P (exec o L ops) rest := by
  induction ops generalizing L with
  | nil => simp [Along]
  | cons op ops ih => simp [Along, ih, and_assoc]

end AccessStack.Release
