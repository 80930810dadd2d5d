import AccessStack.Runs
import AccessStack.Text

/-!
# Calls of the browser worker that carry an id

`BrowserIdempotencyRegistry` and the part of `BrowserWorkerApplication.handle`
around it. The promise of an entry is named by its place in the list of
executions. A step is a request, an execution that goes on, or a request that
is answered; between them the clock may advance.
-/

set_option autoImplicit false

namespace AccessStack.BrowserIdempotency
open AccessStack.Runs

section Operations

inductive BrowserOperation where
  | status | connect | tabs | selectTab | dialog | viewport | «open» | openAuthorizedSite | navigate
  | snapshot | find | evaluate | click | hover | drag | scroll | fill | formInput | type | press
  | wait | extract | sequence | frameExtract | frameClick | frameFill | profilePage | domIndex
  | frameSequence | navigatePath | screenshot | goBack | goForward | closeTab | finishTask | plan
  | download | upload | console | networkList | networkInspect | traceStart | traceStop | videoStart
  | videoStop | pdf | diagnostics
  deriving DecidableEq

def BrowserOperation.name : BrowserOperation → String
  | .status => "status" | .connect => "connect" | .tabs => "tabs" | .selectTab => "selectTab"
  | .dialog => "dialog" | .viewport => "viewport" | .open => "open"
  | .openAuthorizedSite => "openAuthorizedSite" | .navigate => "navigate" | .snapshot => "snapshot"
  | .find => "find" | .evaluate => "evaluate" | .click => "click" | .hover => "hover" | .drag => "drag"
  | .scroll => "scroll" | .fill => "fill" | .formInput => "formInput" | .type => "type" | .press => "press"
  | .wait => "wait" | .extract => "extract" | .sequence => "sequence" | .frameExtract => "frameExtract"
  | .frameClick => "frameClick" | .frameFill => "frameFill" | .profilePage => "profilePage"
  | .domIndex => "domIndex" | .frameSequence => "frameSequence" | .navigatePath => "navigatePath"
  | .screenshot => "screenshot" | .goBack => "goBack" | .goForward => "goForward" | .closeTab => "closeTab"
  | .finishTask => "finishTask" | .plan => "plan" | .download => "download" | .upload => "upload"
  | .console => "console" | .networkList => "networkList" | .networkInspect => "networkInspect"
  | .traceStart => "traceStart" | .traceStop => "traceStop" | .videoStart => "videoStart"
  | .videoStop => "videoStop" | .pdf => "pdf" | .diagnostics => "diagnostics"

def isMutatingOperation : BrowserOperation → Bool
  | .status | .tabs | .snapshot | .find | .wait | .extract | .frameExtract | .profilePage | .domIndex
  | .console | .networkList | .networkInspect | .diagnostics => false
  | _ => true

structure AppError where
  code : String
  message : String
  deriving DecidableEq

/-- What a promise is rejected with. -/
inductive Failure where
  | app (error : AppError)
  | other (message : String)
  deriving DecidableEq

def asAppError : Failure → AppError
  | .app error => error
  | .other _ => ⟨"INTERNAL_ERROR", "Unexpected internal error."⟩

structure Metrics where
  entries : ℕ
  hits : ℕ
  misses : ℕ
  conflicts : ℕ
  evictions : ℕ
  expirations : ℕ
  deriving DecidableEq

/-- What a worker is made with. `respond` is the schema of the result and the
payload limit. -/
structure Worker (ι ρ β : Type) where
  ttlMs : ℕ
  maxEntries : ℕ
  sha256 : String → String
  canonicalJson : ι → String
  withMetrics : ρ → Metrics → ρ
  respond : BrowserOperation → ρ → Except Failure β

end Operations

section Registry

structure Entry where
  key : String
  fingerprint : String
  /-- None is infinity. -/
  expiresAt : Option ℕ
  settled : Bool
  value : ℕ
  deriving DecidableEq

structure Registry where
  entries : List Entry
  hits : ℕ
  misses : ℕ
  conflicts : ℕ
  evictions : ℕ
  expirations : ℕ
  deriving DecidableEq

def Registry.empty : Registry := ⟨[], 0, 0, 0, 0, 0⟩

def conflictError : AppError :=
  ⟨"IDEMPOTENCY_KEY_CONFLICT",
    "The idempotency key is already associated with a different browser operation fingerprint."⟩

def capacityError : AppError :=
  ⟨"LIMIT_EXCEEDED", "The browser idempotency registry is at capacity with unexpired operations."⟩

def Entry.isExpired (now : ℕ) (e : Entry) : Bool := e.settled && e.expiresAt.any (· ≤ now)

def Registry.prune (now : ℕ) (r : Registry) : Registry :=
  { r with entries := r.entries.filter (!·.isExpired now)
           expirations := r.expirations + r.entries.countP (·.isExpired now) }

def Registry.metrics (r : Registry) : Metrics :=
  ⟨r.entries.length, r.hits, r.misses, r.conflicts, r.evictions, r.expirations⟩

inductive Ran where
  /-- The promise of an execution. -/
  | value (execution : ℕ)
  /-- `operation` is called. -/
  | operation
  | throws (error : AppError)
  deriving DecidableEq

/-- `run`; `next` is the promise that a new entry gets. -/
def Registry.run (maxEntries now : ℕ) (r : Registry) (key : Option String) (fingerprint : String) (next : ℕ) :
    Registry × Ran :=
  match key with
  | none => (r, .operation)
  | some key =>
    if key = "" then (r, .operation)
    else
      let r := r.prune now
      match r.entries.find? (·.key = key) with
      | some existing =>
        if existing.fingerprint ≠ fingerprint then
          ({ r with conflicts := r.conflicts+1 }, .throws conflictError)
        else ({ r with hits := r.hits+1 }, .value existing.value)
      | none =>
        if maxEntries ≤ r.entries.length then (r, .throws capacityError)
        else
          ({ r with misses := r.misses+1
                    entries := r.entries ++
                      [{ key, fingerprint, expiresAt := none, settled := false, value := next }] },
            .operation)

/-- The continuation of a promise that has settled. -/
def Registry.settle (ttlMs now : ℕ) (r : Registry) (execution : ℕ) : Registry :=
  { r with entries := r.entries.map fun e =>
      if e.value = execution then { e with settled := true, expiresAt := some (now+ttlMs) } else e }

end Registry

section Application

/-- A header field as it is received. -/
inductive Header where
  | absent
  | one (value : String)
  | many (values : List String)
  deriving DecidableEq

def Header.value : Header → Option String
  | .absent => none
  | .one value => some value
  | .many values => values.head?

def isScopeChar (c : Char) : Bool := c.isAlphanum || c = '.' || c = '_' || c = ':' || c = '-'

def browserOwnerScope (header : Header) : Option String :=
  header.value.filter (Text.bounded isScopeChar isScopeChar 255)

def browserCallId (header : Header) : Option String :=
  header.value.filter (Text.bounded isScopeChar isScopeChar 127)

variable {ι ρ β : Type}

def scopedBrowserCallId (w : Worker ι ρ β) (ownerScope callId : Option String) : Option String :=
  callId.map fun callId => w.sha256 (ownerScope.getD "local" ++ "\x00" ++ callId)

/-- The canonical text of `{ operation, input }`, whose fields are sorted. -/
def fingerprintText (w : Worker ι ρ β) (operation : BrowserOperation) (input : ι) : String :=
  "\x7b\"input\":" ++ w.canonicalJson input ++ ",\"operation\":\"" ++ operation.name ++ "\"\x7d"

def createBrowserOperationFingerprint (w : Worker ι ρ β) (operation : BrowserOperation)
    (input : ι) : String :=
  w.sha256 (fingerprintText w operation input)

inductive Answer (β : Type) where
  | result (body : β)
  | error (error : AppError)
  deriving DecidableEq

/-- Why the signal of a request is aborted. -/
inductive Abort where
  | disconnected
  | timeout
  deriving DecidableEq

def Abort.reason : Abort → AppError
  | .disconnected =>
    ⟨"OPERATION_CANCELLED", "Browser operation was cancelled because the HTTP client disconnected."⟩
  | .timeout => ⟨"BROWSER_WORKER_TIMEOUT", "Browser worker operation exceeded the configured timeout."⟩

/-- The `catch` of `handle`. -/
def caught (abortReason : Option Abort) (failure : Failure) : AppError :=
  match abortReason, failure with
  | some .timeout, _ => Abort.timeout.reason
  | _, .app error => error
  | some abort, .other _ => abort.reason
  | none, failure => asAppError failure

inductive Stage where
  | queued
  | executing
  | settled
  deriving DecidableEq

structure Execution (ρ : Type) where
  /-- The request whose operation is run. -/
  request : ℕ
  key : Option String
  fingerprint : String
  beganAt : ℕ
  stage : Stage
  /-- How often `execute` has been called, and when last. -/
  executed : ℕ
  executedAt : Option ℕ
  settledAt : Option ℕ
  outcome : Option (Except Failure ρ)

structure Request (ι β : Type) where
  ownerScope : Option String
  callId : Option String
  operation : BrowserOperation
  input : ι
  arrivedAt : ℕ
  abortReason : Option Abort
  /-- The execution that is awaited. -/
  awaits : Option ℕ
  answer : Option (Answer β)

structure State (ι ρ β : Type) where
  now : ℕ
  registry : Registry
  executions : List (Execution ρ)
  requests : List (Request ι β)

def State.initial : State ι ρ β := ⟨0, .empty, [], []⟩

inductive Input (ι ρ : Type) where
  | advance (ms : ℕ)
  /-- A request whose body has been read; the client may be gone by then. -/
  | request (ownerScope callId : Header) (operation : BrowserOperation) (input : ι) (gone : Bool)
  /-- The queue runs the task of the execution. -/
  | execute (execution : ℕ)
  /-- `operations.run` has succeeded or failed. -/
  | settle (execution : ℕ) (outcome : Except Failure ρ)
  /-- The client disconnects, or the deadline of the request passes. -/
  | abort (request : ℕ) (abort : Abort)
  /-- The request goes on with what it has awaited. -/
  | deliver (request : ℕ)

variable (w : Worker ι ρ β)

def Request.key (q : Request ι β) : Option String :=
  if isMutatingOperation q.operation then scopedBrowserCallId w q.ownerScope q.callId else none

def Request.fingerprint (q : Request ι β) : String := createBrowserOperationFingerprint w q.operation q.input

def attachIdempotencyMetrics (operation : BrowserOperation) (result : ρ) (metrics : Metrics) : ρ :=
  if operation = .status ∨ operation = .connect then w.withMetrics result metrics else result

/-- What `handle` answers when the race is won by the execution. -/
def replay (operation : BrowserOperation) (abortReason : Option Abort) (metrics : Metrics) :
    Except Failure ρ → Answer β
  | .error failure => .error (caught abortReason failure)
  | .ok result =>
    match w.respond operation (attachIdempotencyMetrics w operation result metrics) with
    | .error failure => .error (caught abortReason failure)
    | .ok body => .result body

def handle (s : State ι ρ β) (q : Request ι β) : State ι ρ β :=
  match s.registry.run w.maxEntries s.now (q.key w) (q.fingerprint w) s.executions.length with
  | (registry, .throws error) =>
    { s with registry,
             requests := s.requests ++
             [{ q with answer := some (.error (caught q.abortReason (.app error))) }] }
  | (registry, .value execution) =>
    { s with registry, requests := s.requests ++ [{ q with awaits := some execution }] }
  | (registry, .operation) =>
    { s with registry
             executions := s.executions ++ [{
               request := s.requests.length, key := (q.key w).filter (· ≠ ""), fingerprint := q.fingerprint w
               beganAt := s.now, stage := .queued, executed := 0, executedAt := none, settledAt := none
               outcome := none }]
             requests := s.requests ++ [{ q with awaits := some s.executions.length }] }

def onExecution (s : State ι ρ β) (execution : ℕ) (f : Execution ρ → State ι ρ β) : State ι ρ β :=
  match s.executions[execution]? with
  | none => s
  | some x => f x

def onRequest (s : State ι ρ β) (request : ℕ) (f : Request ι β → State ι ρ β) : State ι ρ β :=
  match s.requests[request]? with
  | none => s
  | some q => f q

/-- What the request awaits has settled. -/
def awaited (s : State ι ρ β) (q : Request ι β) : Option (Except Failure ρ) := do
  let execution ← q.awaits
  let x ← s.executions[execution]?
  x.outcome

def step (s : State ι ρ β) : Input ι ρ → State ι ρ β
  | .advance ms => { s with now := s.now+ms }
  | .request ownerScope callId operation input gone =>
    handle w s {
      ownerScope := browserOwnerScope ownerScope, callId := browserCallId callId, operation, input
      arrivedAt := s.now, abortReason := if gone then some .disconnected else none, awaits := none,
      answer := none }
  | .execute execution => onExecution s execution fun x =>
    let after := { x with stage := .executing, executed := x.executed+1, executedAt := some s.now }
    { s with executions := s.executions.set execution after }
  | .settle execution outcome => onExecution s execution fun x =>
    let registry := if x.key.isSome then s.registry.settle w.ttlMs s.now execution else s.registry
    let after := { x with stage := .settled, settledAt := some s.now, outcome := some outcome }
    { s with registry, executions := s.executions.set execution after }
  | .abort request abort => onRequest s request fun q =>
    let abortReason := q.abortReason <|> some abort
    let answer :=
      if (awaited s q).isSome then q.answer else some (.error (caught abortReason (.app abort.reason)))
    { s with requests := s.requests.set request { q with abortReason, answer } }
  | .deliver request => onRequest s request fun q =>
    match awaited s q with
    | none => s
    | some outcome =>
      let registry := if outcome matches .ok _ then s.registry.prune s.now else s.registry
      let answer := some (replay w q.operation q.abortReason registry.metrics outcome)
      { s with registry, requests := s.requests.set request { q with answer } }

/-- What may happen. The queue runs a task at most once, and the result of an
execution comes from a task that has run. -/
def Ready (s : State ι ρ β) : Input ι ρ → Prop
  | .advance _ => True
  | .request _ _ _ _ _ => True
  | .execute execution => ∃ x ∈ s.executions[execution]?, x.stage = .queued
  | .settle execution outcome => ∃ x ∈ s.executions[execution]?, x.stage ≠ .settled ∧
    (x.stage = .queued → outcome matches .error _)
  | .abort request abort =>
    ∃ q ∈ s.requests[request]?, q.answer = none ∧ (abort = .disconnected → q.abortReason = none)
  | .deliver request => ∃ q ∈ s.requests[request]?, q.answer = none ∧ (awaited s q).isSome

instance (s : State ι ρ β) : (input : Input ι ρ) → Decidable (Ready s input)
  | .advance _ => inferInstanceAs (Decidable True)
  | .request _ _ _ _ _ => inferInstanceAs (Decidable True)
  | .execute execution => inferInstanceAs (Decidable (∃ x ∈ s.executions[execution]?, x.stage = .queued))
  | .settle execution outcome =>
    inferInstanceAs (Decidable (∃ x ∈ s.executions[execution]?, x.stage ≠ .settled ∧
      (x.stage = .queued → outcome matches .error _)))
  | .abort request abort => inferInstanceAs (Decidable (∃ q ∈ s.requests[request]?, q.answer = none ∧
      (abort = .disconnected → q.abortReason = none)))
  | .deliver request => inferInstanceAs (Decidable (∃ q ∈ s.requests[request]?, q.answer = none ∧
      (awaited s q).isSome))

abbrev Reached (s : State ι ρ β) : Prop := Reaches (step w) Ready .initial s

end Application

end AccessStack.BrowserIdempotency
