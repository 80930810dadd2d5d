import AccessStack.Runs

/-!
# The registry of MCP operations

`McpOperationRegistry`: calls that have been announced, operations that run
and the controllers that a cancellation finds. The log of the calls and the
fields of a registration that say where in the log it began and ended are the
model's own.
-/

set_option autoImplicit false

namespace AccessStack.McpOperations
open AccessStack.Runs

section Keys

/-- A number is what `String` writes of it. -/
inductive McpRequestId where
  | string (value : String)
  | number (text : String)
  deriving DecidableEq

def McpRequestId.text : McpRequestId → String
  | .string value => "string:" ++ value
  | .number text => "number:" ++ text

def operationKey (sha256 : String → String) (principalKey : String) (requestId : McpRequestId) : String :=
  principalKey ++ ":" ++ sha256 requestId.text

end Keys

section Registry

inductive Input where
  | registerPending (cancellationScopeKey : String) (requestId : McpRequestId) (requestLifecycleId : String)
  | releasePending (registration : ℕ)
  | begin (operationScopeKey : String) (requestId : McpRequestId) (cancellationScopeKey : String)
      (requestLifecycleId : Option String)
  | release (registration : ℕ)
  | cancel (cancellationScopeKey : String) (requestId : McpRequestId) (reason : Option String)
  | clear
  deriving DecidableEq

/-- A registration of a pending request is open until it is released, taken
by an operation or replaced, unless a `clear` has dropped it. -/
inductive Status where
  | opened
  | dropped
  | closed
  deriving DecidableEq

structure PendingOperation where
  cancellationScopeKey : String
  requestId : McpRequestId
  requestLifecycleId : String
  cancelled : Bool
  reason : Option String
  registered : ℕ
  status : Status
  deriving DecidableEq

/-- An operation with its controller; its number is its token. `held` until
it is released or cleared. -/
structure ActiveOperation where
  key : String
  cancellationScopeKey : String
  requestId : McpRequestId
  aborted : Bool
  reason : Option String
  registered : ℕ
  released : Option ℕ
  held : Bool
  deriving DecidableEq

structure State where
  active : String → Option ℕ
  cancellationTargets : String → Option (List ℕ)
  pending : String → Option (List (String × ℕ))
  pendings : List PendingOperation
  operations : List ActiveOperation
  log : List Input

def State.initial : State := ⟨fun _ => none, fun _ => none, fun _ => none, [], [], []⟩

variable (sha256 : String → String)

/-- Of the same request. -/
def PendingOperation.isFor (p : PendingOperation) (scope : String) (requestId : McpRequestId)
    (lifecycleId : String) :
    Bool := p.cancellationScopeKey = scope && p.requestId = requestId && p.requestLifecycleId = lifecycleId

def PendingOperation.replace (p : PendingOperation) (scope : String) (requestId : McpRequestId)
    (lifecycleId : String) :
    PendingOperation := if p.isFor scope requestId lifecycleId then { p with status := .closed } else p

/-- A map that goes when it is empty. -/
def unlessEmpty {α : Type} (entries : List α) : Option (List α) :=
  if entries.isEmpty then none else some entries

def registerPending (s : State) (scope : String) (requestId : McpRequestId) (lifecycleId : String) : State :=
  let key := operationKey sha256 scope requestId
  let pendingRequests := (s.pending key).getD []
  { s with
    pending := Function.update s.pending key <|
      some (pendingRequests.filter (·.1 ≠ lifecycleId) ++ [(lifecycleId, s.pendings.length)])
    pendings := (s.pendings.map fun p => p.replace scope requestId lifecycleId) ++
      [⟨scope, requestId, lifecycleId, false, none, s.log.length, .opened⟩] }

def State.close (s : State) (registration : ℕ) (p : PendingOperation) : State :=
  { s with pendings := s.pendings.set registration { p with status := .closed } }

/-- The entry of a pending request is deleted. -/
def State.forget (s : State) (key lifecycleId : String) : State :=
  { s with pending := Function.update s.pending key (unlessEmpty
    (((s.pending key).getD []).filter (·.1 ≠ lifecycleId))) }

def releasePending (s : State) (registration : ℕ) : State :=
  match s.pendings[registration]? with
  | none => s
  | some p =>
    let key := operationKey sha256 p.cancellationScopeKey p.requestId
    let current := ((s.pending key).getD []).lookup p.requestLifecycleId
    (if current = some registration then s.forget key p.requestLifecycleId else s).close registration p

/-- The pending request that an operation takes. -/
def State.taken (s : State) (cancellationKey : String) (requestLifecycleId : Option String) :
    Option (String × ℕ × PendingOperation) := do
  let lifecycleId ← requestLifecycleId
  let registration ← ((s.pending cancellationKey).getD []).lookup lifecycleId
  let p ← s.pendings[registration]?
  pure (lifecycleId, registration, p)

/-- Where the operation was registered: with its pending request, also one
that a `clear` has dropped, or when it begins. -/
def State.origin (s : State) (scope : String) (requestId : McpRequestId)
    (requestLifecycleId : Option String) : ℕ :=
  match requestLifecycleId.bind fun lifecycleId =>
    s.pendings.find? fun p => p.isFor scope requestId lifecycleId && p.status ≠ .closed with
  | some p => p.registered
  | none => s.log.length

def State.enlist (s : State) (key cancellationKey : String) (o : ActiveOperation) : State :=
  let targets := (s.cancellationTargets cancellationKey).getD []
  { s with
    active := Function.update s.active key (some s.operations.length)
    cancellationTargets :=
      Function.update s.cancellationTargets cancellationKey (some (targets ++ [s.operations.length]))
    operations := s.operations ++ [o] }

/-- The registry with a new operation, aborted when its pending request was
cancelled. It throws when the key is active. -/
def begin (s : State) (operationScopeKey : String) (requestId : McpRequestId) (cancellationScopeKey : String)
    (requestLifecycleId : Option String) : Option State :=
  let key := operationKey sha256 operationScopeKey requestId
  let cancellationKey := operationKey sha256 cancellationScopeKey requestId
  if (s.active key).isSome then none
  else
    let registered := s.origin cancellationScopeKey requestId requestLifecycleId
    match s.taken cancellationKey requestLifecycleId with
    | none =>
      some (s.enlist key cancellationKey
        ⟨key, cancellationScopeKey, requestId, false, none, registered, none, true⟩)
    | some (lifecycleId, registration, p) =>
      let reason := if p.cancelled then p.reason else none
      some <| ((s.forget cancellationKey lifecycleId).close registration p).enlist key cancellationKey
        ⟨key, cancellationScopeKey, requestId, p.cancelled, reason, registered, none, true⟩

def release (s : State) (registration : ℕ) : State :=
  match s.operations[registration]? with
  | none => s
  | some o =>
    let cancellationKey := operationKey sha256 o.cancellationScopeKey o.requestId
    let operations := s.operations.set registration
      { o with held := false, released := some (o.released.getD s.log.length) }
    if s.active o.key = some registration then
      { s with
        active := Function.update s.active o.key none
        cancellationTargets := Function.update s.cancellationTargets cancellationKey <|
          unlessEmpty (((s.cancellationTargets cancellationKey).getD []).filter (· ≠ registration))
        operations }
    else { s with operations }

/-- `controller.abort(reason)` keeps the first reason. -/
def ActiveOperation.abort (o : ActiveOperation) (reason : Option String) : ActiveOperation :=
  if o.aborted then o else { o with aborted := true, reason }

def cancel (s : State) (scope : String) (requestId : McpRequestId) (reason : Option String) : State × Bool :=
  let key := operationKey sha256 scope requestId
  let targets := (s.cancellationTargets key).getD []
  let pendingRequests := ((s.pending key).getD []).map (·.2)
  ({ s with
      operations := s.operations.mapIdx fun token o => if token ∈ targets then o.abort reason else o
      pendings := s.pendings.mapIdx fun registration p =>
        if registration ∈ pendingRequests then { p with cancelled := true, reason } else p },
    !targets.isEmpty || !pendingRequests.isEmpty)

def PendingOperation.drop (p : PendingOperation) : PendingOperation :=
  if p.status = .opened then { p with status := .dropped } else p

def shutdown : Option String := some "gateway shutdown"

def clear (s : State) : State where
  active := fun _ => none
  cancellationTargets := fun _ => none
  pending := fun _ => none
  pendings := s.pendings.map PendingOperation.drop
  operations := s.operations.mapIdx fun token o =>
    if s.active o.key = some token then { o.abort shutdown with held := false } else o
  log := s.log

def perform (s : State) : Input → State
  | .registerPending scope requestId lifecycleId => registerPending sha256 s scope requestId lifecycleId
  | .releasePending registration => releasePending sha256 s registration
  | .begin operationScope requestId scope lifecycleId =>
    (begin sha256 s operationScope requestId scope lifecycleId).getD s
  | .release registration => release sha256 s registration
  | .cancel scope requestId reason => (cancel sha256 s scope requestId reason).1
  | .clear => clear s

def step (s : State) (input : Input) : State := { perform sha256 s input with log := s.log ++ [input] }

end Registry

end AccessStack.McpOperations
