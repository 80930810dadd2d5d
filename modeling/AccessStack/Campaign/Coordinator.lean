import AccessStack.Campaign.Laws

/-!
# The campaign coordinator

`DelegatedCampaignCoordinator.run` cut at its awaits. Any number of runs of
one campaign are under way, each at the await it waits for; an event says how
that await ends and the run goes on to its next one. A run can be lost at
every await. The ledger is all that survives it, and other operations on the
ledger may come in between.

The lease around a run is left out: runs may overlap here, and what holds
then holds of runs that come one after the other. What a capability answers
is any JSON value.
-/

set_option autoImplicit false

namespace AccessStack.Coordinator
open AccessStack.Text AccessStack.Rows AccessStack.JsonText AccessStack.Campaign

section Source

/-- The values of a `TypedCampaignCapability` that are not its calls. -/
structure TypedCampaignCapability where
  action : String
  targetResource : String
  expectedState : String
  argumentsDigest : String
  deriving DecidableEq

structure CampaignInvocation where
  campaignId : String
  workspaceId : String
  taskId : String
  operationId : String
  action : String
  targetResource : String
  expectedState : String
  argumentsDigest : String
  deriving DecidableEq

inductive CampaignRunStop where
  | allCompleted | awaitingReconciliation | noRunnableStep | stepBudget
  deriving DecidableEq

structure CampaignRunResult where
  stop : CampaignRunStop
  executed : ℕ
  reconciled : ℕ
  campaign : CampaignRecord

abbrev Bindings := String → Option TypedCampaignCapability

def assertBinding (task : CampaignStep) (capability : Option TypedCampaignCapability) :
    Except String Unit :=
  if capability = some ⟨task.action, task.targetResource, task.expectedState, task.argumentsDigest⟩
  then .ok ()
  else .error "CAMPAIGN_BINDING_MISMATCH: typed capability must exactly match the persisted task"

def outputField (output : Json) (name : String) : Option String :=
  match output with
  | .obj fields => textField fields name
  | _ => none

def outputProof : Json → Option Json
  | .obj fields => field fields "proof"
  | _ => none

/-- The states that need a proof. -/
def isTerminal (output : Json) : Bool :=
  outputField output "state" == some "succeeded" || outputField output "state" == some "failed" ||
    outputField output "state" == some "not_started"

def validateObservation (output : Json) (task : CampaignTask) (operationId : String) :
    Except String Unit :=
  if !(outputField output "operationId" == some operationId &&
      outputField output "targetResource" == some task.targetResource &&
      outputField output "expectedState" == some task.expectedState &&
      outputField output "argumentsDigest" == some task.argumentsDigest) then
    .error "CAMPAIGN_OBSERVATION_MISMATCH: operation/resource/CAS identity changed"
  else if isTerminal output then
    if (outputProof output).any validProof then .ok ()
    else .error "CAMPAIGN_UNVERIFIED: terminal observation requires bounded verification"
  else if outputField output "state" == some "in_progress" ||
      outputField output "state" == some "outcome_unknown" then .ok ()
  else .error "CAMPAIGN_OBSERVATION_INVALID: unknown terminal state"

def invocation (campaign : CampaignRecord) (task : CampaignTask) (operationId : String) :
    CampaignInvocation where
  campaignId := campaign.campaignId
  workspaceId := campaign.workspaceId
  taskId := task.id
  operationId := operationId
  action := task.action
  targetResource := task.targetResource
  expectedState := task.expectedState
  argumentsDigest := task.argumentsDigest

/-- The transition `applyObservation` asks for, if any. -/
def observed (task : CampaignTask) (output : Json) : Option (TransitionTarget × Option Json) :=
  if outputField output "state" == some "succeeded" then some (.completed, outputProof output)
  else if outputField output "state" == some "failed" then some (.failed, outputProof output)
  else if outputField output "state" == some "not_started" then some (.blocked, outputProof output)
  else if outputField output "state" == some "outcome_unknown" && task.state == .inFlight then
    some (.outcomeUnknown, none)
  else none

def isUnresolved (t : CampaignTask) : Bool := t.state == .inFlight || t.state == .outcomeUnknown

def allCompleted (r : CampaignRecord) : Bool := r.tasks.all (·.state == .completed)

end Source

section Machine

/-- The locals of the loop in `run`. -/
structure Frame where
  bindings : Bindings
  left : ℕ
  visited : List String
  executed : ℕ
  reconciled : ℕ

inductive CallKind where
  | execute | reconcile
  deriving DecidableEq

/-- A call of a capability, with what its continuation still reads. -/
structure Call where
  kind : CallKind
  campaign : CampaignRecord
  task : CampaignTask
  operationId : String

def Call.request (call : Call) : CampaignInvocation :=
  invocation call.campaign call.task call.operationId

/-- The await a run is at: reading the campaign before the loop, reading it
in the loop, claiming, about to call a capability, waiting for its answer,
waiting for `verify`, recording the observation, recording uncertainty in a
`catch`. -/
inductive Phase where
  | idle
  | opening (bindings : Bindings) (maxSteps : ℕ)
  | looping (frame : Frame)
  | claiming (frame : Frame)
  | calling (frame : Frame) (call : Call)
  | waiting (frame : Frame) (call : Call)
  | verifying (frame : Frame) (call : Call) (output : Json)
  | applying (frame : Frame) (call : Call) (output : Json)
  | failing (frame : Frame) (call : Call)
  | finished (result : Except String CampaignRunResult)

/-- How an awaited operation goes: through, or it throws before or after it
has had its effect. -/
inductive Fault where
  | none
  | before (message : String)
  | after (message : String)

structure Event where
  now : String
  fault : Fault
  output : Json
  verified : Bool

def await {α : Type} (x : Campaign.Effect α) (fault : Fault) : Campaign.Effect α := fun s =>
  match fault with
  | .none => x s
  | .before message => (.error message, s)
  | .after message => (.error message, (x s).2)

variable (ledger : DelegatedCampaignLedger) (w i : String)

def requireCampaign : Campaign.Effect CampaignRecord := do
  match ← get ledger w i with
  | some record => return record
  | none => Campaign.Effect.lift (.error "CAMPAIGN_NOT_FOUND")

def Frame.result (f : Frame) (stop : CampaignRunStop) (campaign : CampaignRecord) : Phase :=
  .finished (.ok ⟨stop, f.executed, f.reconciled, campaign⟩)

/-- The loop body from the record it has read to its next await. -/
def body (f : Frame) (current : CampaignRecord) : Phase :=
  match f.left with
  | 0 => f.result (if allCompleted current then .allCompleted else .stepBudget) current
  | left+1 =>
    if allCompleted current then f.result .allCompleted current
    else match current.tasks.find? (fun t => isUnresolved t && !f.visited.contains t.id) with
      | some t =>
        match t.operationId with
        | none => .finished (.error "CAMPAIGN_INVALID: missing operationId")
        | some operationId =>
          .calling { f with left, visited := t.id::f.visited, reconciled := f.reconciled+1 }
            ⟨.reconcile, current, t, operationId⟩
      | none =>
        if current.tasks.any (·.state == .inFlight) then f.result .awaitingReconciliation current
        else .claiming { f with left }

/-- The loop body from the answer of `claimNext` to its next await. -/
def claimed (f : Frame) : CampaignClaim → Phase
  | .noRunnableStep campaign =>
    f.result (if campaign.tasks.any (·.state == .outcomeUnknown) then .awaitingReconciliation
      else .noRunnableStep) campaign
  | .claimed taskId operationId campaign =>
    match campaign.tasks.find? (·.id == taskId) with
    | none => .finished (.error "CAMPAIGN_INVALID: claimed task disappeared")
    | some task =>
      match assertBinding task.toCampaignStep (f.bindings task.id) with
      | .error e => .finished (.error e)
      | .ok _ =>
        .calling { f with executed := f.executed+1, visited := task.id::f.visited }
          ⟨.execute, campaign, task, operationId⟩

/-- The `catch` of a call. That of a reconciliation leaves a task alone that
is uncertain already. -/
def caught (f : Frame) (call : Call) : Phase :=
  match call.kind with
  | .execute => .failing f call
  | .reconcile => if call.task.state == .inFlight then .failing f call else .looping f

/-- An answer that needs no proof is not verified. -/
def answered (f : Frame) (call : Call) (output : Json) : Phase :=
  match validateObservation output call.task call.operationId with
  | .error _ => caught f call
  | .ok _ => if isTerminal output then .verifying f call output else .applying f call output

/-- The `try` of a call goes on, or control passes to its `catch`. -/
def caughtOr {α : Type} (f : Frame) (call : Call) (next : α → Phase) : Except String α → Phase
  | .ok a => next a
  | .error _ => caught f call

def thrownOr {α : Type} (next : α → Phase) : Except String α → Phase
  | .ok a => next a
  | .error e => .finished (.error e)

/-- A capability does not touch the ledger; it may throw. -/
def remote {α : Type} (a : α) : Campaign.Effect α := fun s => (.ok a, s)

/-- One await of a run. -/
def advance (e : Event) (s : State) : Phase → Phase × State
  | .idle => (.idle, s)
  | .finished result => (.finished result, s)
  | .opening bindings maxSteps =>
    let (r, s') := await (requireCampaign ledger w i) e.fault s
    (thrownOr (fun _ => .looping ⟨bindings, maxSteps, [], 0, 0⟩)
      (r.bind fun initial => initial.tasks.forM fun t => assertBinding t.toCampaignStep (bindings t.id)), s')
  | .looping f =>
    let (r, s') := await (requireCampaign ledger w i) e.fault s
    (thrownOr (body f) r, s')
  | .claiming f =>
    let (r, s') := await (claimNext ledger w i e.now) e.fault s
    (thrownOr (claimed f) r, s')
  | .calling f call => (.waiting f call, s)
  | .waiting f call => (caughtOr f call (answered f call) (await (remote e.output) e.fault s).1, s)
  | .verifying f call output =>
    (caughtOr f call (fun ok => if ok then .applying f call output else caught f call)
      (await (remote e.verified) e.fault s).1, s)
  | .applying f call output =>
    match call.task.operationId, observed call.task output with
    | none, _ => (caught f call, s)
    | some _, none => (.looping f, s)
    | some operationId, some (next, proof) =>
      let (r, s') := await (transition ledger call.campaign.workspaceId call.campaign.campaignId
        call.task.id operationId next proof e.now) e.fault s
      (caughtOr f call (fun _ => .looping f) r, s')
  | .failing f call =>
    let (workspaceId, campaignId) := match call.kind with
      | .execute => (w, i)
      | .reconcile => (call.campaign.workspaceId, call.campaign.campaignId)
    let (r, s') := await (transition ledger workspaceId campaignId call.task.id call.operationId
      .outcomeUnknown none e.now) e.fault s
    (thrownOr (fun _ => .looping f) r, s')

structure Config where
  state : State
  runs : ℕ → Phase
  executions : List CampaignInvocation

inductive Action where
  | start (n : ℕ) (bindings : Bindings) (maxSteps : ℕ)
  | advance (n : ℕ) (event : Event)
  | crash (n : ℕ)
  | ledger (op : Op)

/-- The calls of `execute` made by leaving an await. -/
def Phase.executes : Phase → List CampaignInvocation
  | .calling _ call => if call.kind = .execute then [call.request] else []
  | _ => []

def Phase.resting : Phase → Bool
  | .idle | .finished _ => true
  | _ => false

def act (c : Config) : Action → Config
  | .start n bindings maxSteps =>
    if (c.runs n).resting && 1 ≤ maxSteps && maxSteps ≤ 128 then
      { c with runs := Function.update c.runs n (.opening bindings maxSteps) }
    else c
  | .advance n event =>
    let (phase, state) := advance ledger w i event c.state (c.runs n)
    { state, runs := Function.update c.runs n phase
      executions := c.executions ++ (c.runs n).executes }
  | .crash n => { c with runs := Function.update c.runs n .idle }
  | .ledger op => { c with state := step ledger c.state op }

def history (c : Config) (actions : List Action) : Config := actions.foldl (act ledger w i) c

def Config.initial (s : State) : Config := ⟨s, fun _ => .idle, []⟩

end Machine

end AccessStack.Coordinator
