import AccessStack.Emission
import AccessStack.Json
import AccessStack.Text

/-!
# The channel to the Oracle side

`UpdateControlOracleChannel`: one socket for each of four scopes and one map
of the requests that wait for a response. A handler runs without an await, so
that handlers, timers and closes follow one another in any order. The parsers
of the contract package are arbitrary functions.
-/

set_option autoImplicit false

namespace AccessStack.Oracle
open AccessStack.Text AccessStack.JsonText AccessStack.Emits

section Frames

inductive Scope where
  | read
  | control
  | source
  | workflow
  deriving DecidableEq

structure Command where
  method : String
  arguments : Json
  principal : Json

inductive Outcome where
  | success (result : Json)
  | error (errorCode : String)

structure OracleRpcResponse where
  requestId : String
  outcome : Outcome

inductive Response where
  | error (error : String) (status : ℕ)
  | result (result : Json)

structure Contract where
  parseCommand : Scope → Json → Option Command
  /-- The result is one of the contract, for a request of the method. -/
  validResult : Scope → String → Json → Bool
  utf8ByteLength : Json → ℕ

def oracleChannelMaxFrameBytes : ℕ := 512*1024

def oracleChannelMaxInFlight : ℕ := 32

def oracleSourceMaxResultBytes : ℕ := 64*1024

def oracleWorkflowMaxResultBytes : ℕ := 4*1024

def maxResultBytes : Scope → ℕ
  | .read => oracleChannelMaxFrameBytes
  | .control => oracleChannelMaxFrameBytes
  | .source => oracleSourceMaxResultBytes
  | .workflow => oracleWorkflowMaxResultBytes

/-- `^[0-9a-f]{8}-[0-9a-f]{4}-[1-8][0-9a-f]{3}-[89ab][0-9a-f]{3}-[0-9a-f]{12}$` with the flags `iu` -/
def isRequestId (value : String) : Bool := isVersionedUuid (String.ofList (value.toList.map Char.toLower))

def fieldOf (fields : List (String × Json)) (name : String) : Option Json :=
  (fields.find? fun field => field.1 = name).map (·.2)

def textOf (fields : List (String × Json)) (name : String) : Option String :=
  match fieldOf fields name with
  | some (.str value) => some value
  | _ => none

def hasExactKeys (fields : List (String × Json)) (expected : List String) : Bool :=
  fields.length = expected.length && expected.all fun key => fields.any fun field => field.1 = key

def versionOne : Option Json → Bool
  | some (.num n) => n = 1
  | _ => false

def parseOutcome (fields : List (String × Json)) : Option Outcome :=
  match textOf fields "outcome" with
  | some "success" =>
    if hasExactKeys fields ["version", "type", "requestId", "outcome", "result"] then
      (fieldOf fields "result").map .success
    else none
  | some "error" =>
    if hasExactKeys fields ["version", "type", "requestId", "outcome", "errorCode"] then
      ((textOf fields "errorCode").filter
        (["RUN_NOT_FOUND", "UPDATE_ORCHESTRATOR_UNAVAILABLE"].contains ·)).map .error
    else none
  | _ => none

def parseOracleRpcResponse : Json → Option OracleRpcResponse
  | .obj fields =>
    if versionOne (fieldOf fields "version") && textOf fields "type" = some "response" then
      match (textOf fields "requestId").filter isRequestId, parseOutcome fields with
      | some requestId, some outcome => some ⟨requestId, outcome⟩
      | _, _ => none
    else none
  | _ => none

def requestFrame (scope : Scope) (requestId : String) (command : Command) : Json :=
  .obj ([("version", .num 1), ("type", .str "request"), ("requestId", .str requestId),
    ("method", .str command.method), ("arguments", command.arguments)] ++
    if scope = .control then [("principal", command.principal)] else [])

end Frames

section Machine

structure Socket where
  id : ℕ
  scope : Scope
  isOpen : Bool
  deriving DecidableEq

structure PendingRpc where
  call : ℕ
  requestId : String
  socket : ℕ
  sourceMethod : Option String
  workflowMethod : Option String
  deriving DecidableEq

inductive Event where
  | opened (scope : Scope)
  | closed (socket code : ℕ)
  | violated (socket code : ℕ) (reason : String)
  | lost (socket : ℕ)
  | detached (socket : ℕ)
  | refused (call : ℕ) (response : Response)
  | sent (pending : PendingRpc)
  | received (socket : ℕ) (requestId : String) (outcome : Outcome)
  | resolved (call : ℕ) (response : Response)

/-- The sockets that are attached, the requests that wait, the numbers of
connections and of calls so far, and what has happened. -/
structure State where
  sockets : List Socket
  pending : List PendingRpc
  connections : ℕ
  calls : ℕ
  log : List Event

def State.initial : State := ⟨[], [], 0, 0, []⟩

def State.shut (s : State) (socket : ℕ) : State :=
  { s with sockets :=
      s.sockets.map fun found => if found.id = socket then { found with isOpen := false } else found }

def State.apply (s : State) : Event → State
  | .opened scope =>
    { s with sockets := s.sockets ++ [⟨s.connections, scope, true⟩], connections := s.connections+1 }
  | .closed socket _ => s.shut socket
  | .violated socket _ _ => s.shut socket
  | .lost socket => s.shut socket
  | .detached socket => { s with sockets := s.sockets.filter (·.id ≠ socket) }
  | .refused _ _ => { s with calls := s.calls+1 }
  | .sent pending => { s with pending := s.pending ++ [pending], calls := s.calls+1 }
  | .received _ _ _ => s
  | .resolved call _ => { s with pending := s.pending.filter (·.call ≠ call) }

def State.after (s : State) (e : Event) : State := { s.apply e with log := s.log ++ [e] }

abbrev Handler := Emits State.after

variable (contract : Contract)

def finish (pending : PendingRpc) (response : Response) : Handler Unit := do
  if pending ∈ (← look State.pending) then emit (.resolved pending.call response)

def oracleUnavailable : Response := .error "oracle_unavailable" 503

def failEach : List PendingRpc → Handler Unit
  | [] => return
  | pending::rest => do
    finish pending oracleUnavailable
    failEach rest

def failPendingForSocket (socket : ℕ) : Handler Unit := do
  failEach ((← look State.pending).filter (·.socket = socket))

def protocolViolation (socket code : ℕ) (reason : String) : Handler Unit := do
  emit (.violated socket code reason)
  failPendingForSocket socket

inductive Message where
  | binary
  /-- The length in bytes, and what `JSON.parse` returns, unless it throws. -/
  | text (bytes : ℕ) (value : Option Json)

def scopeOf (s : State) (socket : ℕ) : Option Scope := (s.sockets.find? (·.id = socket)).map (·.scope)

def acceptable (scope : Scope) (pending : PendingRpc) (result : Json) : Bool :=
  contract.utf8ByteLength (.obj [("result", result)]) ≤ maxResultBytes scope &&
  match scope with
  | .read => true
  | .control => contract.validResult .control "" result
  | .source => pending.sourceMethod.any fun method => contract.validResult .source method result
  | .workflow => pending.workflowMethod.any fun method => contract.validResult .workflow method result

def responseTo (scope : Scope) (pending : PendingRpc) : Outcome → Response
  | .success result =>
    if acceptable contract scope pending result then .result result else .error "invalid_oracle_response" 502
  | .error errorCode => .error errorCode (if errorCode = "RUN_NOT_FOUND" then 404 else 503)

def webSocketMessage (socket : ℕ) (message : Message) : Handler Unit := do
  match message with
  | .binary => protocolViolation socket 1003 "text frames required"
  | .text bytes value =>
    if oracleChannelMaxFrameBytes < bytes then protocolViolation socket 1009 "frame too large"
    else match ← look fun s => scopeOf s socket with
    | none => protocolViolation socket 1008 "inactive Oracle connection"
    | some scope =>
      match value.bind parseOracleRpcResponse with
      | none => protocolViolation socket 1008 "invalid response frame"
      | some frame =>
        emit (.received socket frame.requestId frame.outcome)
        match (← look fun s => s.pending.find? (·.requestId = frame.requestId)).filter
          (·.socket = socket) with
        | none => protocolViolation socket 1008 "unexpected response id"
        | some pending => finish pending (responseTo contract scope pending frame.outcome)

/-- The previous sockets are closed; the close that throws, if one does, is
the one of the given number. -/
def replaceEach : List Socket → Option ℕ → Handler Bool
  | [], failing => return failing = none
  | previous::rest, failing => do
    failPendingForSocket previous.id
    if failing = some 0 then return false
    else
      emit (.closed previous.id 1012)
      replaceEach rest (failing.map (· - 1))

/-- A connection whose request is authorized. After the sockets before it,
the factory of the pair may be what throws. -/
def connectOracle (scope : Scope) (failing : Option ℕ) : Handler Unit := do
  if ← replaceEach ((← look State.sockets).filter (·.scope = scope)) failing then emit (.opened scope)

inductive Body where
  | tooLarge
  | unreadable
  | text (value : Option Json)

structure RpcRequest where
  isPost : Bool
  /-- The path is that of the scope, with no search and no hash. -/
  isPath : Bool
  isJson : Bool
  body : Body

def parseRpc (scope : Scope) (request : RpcRequest) : Except Response Command :=
  if !request.isPost then .error (.error "method_not_allowed" 405)
  else if !request.isPath then .error (.error "not_found" 404)
  else if !request.isJson then .error (.error "invalid_request" 415)
  else match request.body with
  | .tooLarge => .error (.error "request_too_large" 413)
  | .unreadable => .error (.error "invalid_request" 400)
  | .text value =>
    match value.bind (contract.parseCommand scope) with
    | none => .error (.error "invalid_request" 400)
    | some command => .ok command

def violateEach : List Socket → Handler Unit
  | [] => return
  | socket::rest => do
    protocolViolation socket.id 1008 "multiple Oracle connections"
    violateEach rest

def openSockets (s : State) (scope : Scope) : List Socket :=
  s.sockets.filter fun socket => socket.scope = scope && socket.isOpen

def getActiveOracleSocket (scope : Scope) : Handler (Option Socket) := do
  match ← look fun s => openSockets s scope with
  | [socket] => return some socket
  | [] => return none
  | sockets =>
    violateEach sockets
    return none

def refuse (response : Response) : Handler Unit := do
  let call ← look State.calls
  emit (.refused call response)

/-- `requestId` is what `crypto.randomUUID` returns. -/
def dispatchRpc (scope : Scope) (command : Command) (socket : Socket) (requestId : String)
    (sendFails : Bool) :
    Handler Unit := do
  if oracleChannelMaxInFlight ≤ (← look State.pending).length then refuse (.error "oracle_channel_busy" 503)
  else if !isRequestId requestId || (← look State.pending).any (·.requestId = requestId) then
    refuse (.error "oracle_channel_unavailable" 503)
  else if oracleChannelMaxFrameBytes < contract.utf8ByteLength (requestFrame scope requestId command) then
    refuse (.error "request_too_large" 413)
  else
    let call ← look State.calls
    let pending : PendingRpc :=
      { call, requestId, socket := socket.id
        sourceMethod := if scope = .source then some command.method else none
        workflowMethod := if scope = .workflow then some command.method else none }
    emit (.sent pending)
    if sendFails then finish pending oracleUnavailable

def handleRpc (scope : Scope) (request : RpcRequest) (requestId : String)
    (sendFails : Bool) : Handler Unit := do
  match parseRpc contract scope request with
  | .error response => refuse response
  | .ok command =>
    match ← getActiveOracleSocket scope with
    | none => refuse oracleUnavailable
    | some socket => dispatchRpc contract scope command socket requestId sendFails

/-- The timer of a call fires. -/
def fireTimer (call : ℕ) : Handler Unit := do
  match ← look fun s => s.pending.find? (·.call = call) with
  | none => return
  | some pending => finish pending (.error "transport_timeout" 504)

inductive Input where
  | connect (scope : Scope) (failing : Option ℕ)
  | rpc (scope : Scope) (request : RpcRequest) (requestId : String) (sendFails : Bool)
  | message (socket : ℕ) (message : Message)
  | timeout (call : ℕ)
  /-- `webSocketClose` or `webSocketError`. -/
  | ended (socket : ℕ)
  /-- The socket is no longer open. -/
  | lost (socket : ℕ)
  /-- The runtime no longer returns the socket. -/
  | detached (socket : ℕ)

def handle : Input → Handler Unit
  | .connect scope failing => connectOracle scope failing
  | .rpc scope request requestId sendFails => handleRpc contract scope request requestId sendFails
  | .message socket message => webSocketMessage contract socket message
  | .timeout call => fireTimer call
  | .ended socket => failPendingForSocket socket
  | .lost socket => emit (.lost socket)
  | .detached socket => emit (.detached socket)

def step (s : State) (input : Input) : State := (handle contract input).final s

end Machine

end AccessStack.Oracle
