import AccessStack.Faults
import AccessStack.Json
import AccessStack.Identity.Records

/-!
# Reprovisioning the OAuth state

`UpdateControlAuthController` on its storage. One request is served at a time,
and each write of a reprovision may fail or be the last before a crash. What
an ordinary request and an admin bootstrap write before they answer, throw or
crash are arbitrary functions of the request and the storage.
-/

set_option autoImplicit false

namespace AccessStack.Reprovision
open AccessStack.Text AccessStack.JsonText AccessStack.Fallible AccessStack.Identity

section Records

inductive OAuthReprovisionStatus where
  | inProgress
  | completed
  | outcomeUnknown
  deriving DecidableEq

inductive OAuthReprovisionEventType where
  | started
  | resumed
  | oauthStateCleared
  | ownerAuthorityReprovisioned
  | completed
  | outcomeUnknown
  deriving DecidableEq

structure OAuthReprovisionOperation where
  status : OAuthReprovisionStatus
  attempt : ℕ
  deriving DecidableEq

structure OAuthReprovisionActiveState where
  operationId : String
  status : OAuthReprovisionStatus
  deriving DecidableEq

structure OAuthReprovisionAuditEvent where
  operationId : String
  attempt : ℕ
  eventType : OAuthReprovisionEventType
  deriving DecidableEq

def isOAuthReprovisionOperation (operation : OAuthReprovisionOperation) : Bool :=
  isSafeInteger operation.attempt && 0 < operation.attempt

inductive Event where
  | recorded (operationId : String) (operation : OAuthReprovisionOperation)
  | activated (operationId : String) (status : OAuthReprovisionStatus)
  | audited (event : OAuthReprovisionAuditEvent)
  /-- A reprovision has deleted a key. -/
  | removed (operationId : String) (key : OAuthKey)
  /-- Another request has put a key under the OAuth prefix. -/
  | stored (entry : OAuthKey × String)
  | deleted (key : OAuthKey)
  | elsewhere
  | dropped
  deriving DecidableEq

/-- The entries are those under the OAuth prefix. -/
structure State where
  operations : String → Option OAuthReprovisionOperation
  active : Option OAuthReprovisionActiveState
  audit : List OAuthReprovisionAuditEvent
  entries : List (OAuthKey × String)
  log : List Event

def State.initial : State := ⟨fun _ => none, none, [], [], []⟩

def State.apply (s : State) : Event → State
  | .recorded operationId operation =>
    { s with operations := Function.update s.operations operationId (some operation) }
  | .activated operationId status => { s with active := some ⟨operationId, status⟩ }
  | .audited event => { s with audit := s.audit ++ [event] }
  | .removed _ key => { s with entries := s.entries.filter (·.1 ≠ key) }
  | .stored entry => { s with entries := s.entries.filter (·.1 ≠ entry.1) ++ [entry] }
  | .deleted key => { s with entries := s.entries.filter (·.1 ≠ key) }
  | .elsewhere => s
  | .dropped => s

def State.after (s : State) (e : Event) : State := { s.apply e with log := s.log ++ [e] }

abbrev Program := Fallible State.after Stop

inductive Report where
  | notExecuted
  | status (status : OAuthReprovisionStatus)
  deriving DecidableEq

structure Response where
  status : ℕ
  operationId : Option String := none
  report : Option Report := none
  attempt : Option ℕ := none
  error : Option String := none
  deriving DecidableEq

def operationOf (s : State) (operationId : String) : Option OAuthReprovisionOperation :=
  (s.operations operationId).filter isOAuthReprovisionOperation

/-- The operation that is active and not completed. -/
def unresolved (s : State) : Option String :=
  (s.active.filter (·.status ≠ .completed)).map (·.operationId)

end Records

section Run

variable (faults : ℕ → Fault)

def put (e : Event) : Program Unit := write faults (fun s => s.log.length) .dropped e

def appendOAuthReprovisionEvent (operationId : String) (attempt : ℕ) (eventType : OAuthReprovisionEventType) :
    Program Unit := do
  if ⟨operationId, attempt, eventType⟩ ∉ (← look State.audit) then
    put faults (.audited ⟨operationId, attempt, eventType⟩)

/-- The number of the keys that were there. -/
def deleteMany (operationId : String) : List OAuthKey → Program ℕ
  | [] => return 0
  | key::keys => do
    let found ← look fun s => s.entries.any (·.1 = key)
    put faults (.removed operationId key)
    let deleted ← deleteMany operationId keys
    return if found then deleted+1 else deleted

def oauthDeleteLimitPerRequest : ℕ := 4096

/-- A round deletes at least one key, so that as many rounds as there are keys
left to delete are enough. -/
def deleteRounds (operationId : String) : ℕ → ℕ → Program Bool
  | 0, _ => look fun s => s.entries.isEmpty
  | rounds+1, left => do
    if left = 0 then look fun s => s.entries.isEmpty
    else
      let keys ← look fun s => (s.entries.take (min 256 left)).map (·.1)
      if keys = [] then return true
      else
        let deleted ← deleteMany faults operationId keys
        deleteRounds operationId rounds (left - deleted)

def deleteOAuthState (operationId : String) (limit : ℕ) : Program Bool :=
  deleteRounds faults operationId limit limit

/-- The part of `runOAuthReprovision` that an operation reaches when it starts
and when it is resumed. -/
def runAttempt (operationId : String) (attempt : ℕ) : Program Response := do
  put faults (.recorded operationId ⟨.inProgress, attempt⟩)
  put faults (.activated operationId .inProgress)
  if ← deleteOAuthState faults operationId oauthDeleteLimitPerRequest then
    appendOAuthReprovisionEvent faults operationId attempt .oauthStateCleared
    appendOAuthReprovisionEvent faults operationId attempt .ownerAuthorityReprovisioned
    put faults (.recorded operationId ⟨.completed, attempt⟩)
    appendOAuthReprovisionEvent faults operationId attempt .completed
    put faults (.activated operationId .completed)
    return { status := 200, operationId, report := some (.status .completed), attempt }
  else return { status := 202, operationId, report := some (.status .inProgress), attempt }

def anotherActive (s : State) (operationId : String) : Bool := (unresolved s).any (· ≠ operationId)

def tryReprovision (operationId : String) : Program Response := do
  let existing ← look (operationOf · operationId)
  if ← look (anotherActive · operationId) then
    return { status := 409, operationId, report := some (.status .inProgress),
             error := "another_operation_active" }
  else match existing with
  | none =>
    appendOAuthReprovisionEvent faults operationId 1 .started
    runAttempt faults operationId 1
  | some operation =>
    if operation.status = .completed then
      if (← look unresolved) = some operationId then put faults (.activated operationId .completed)
      return { status := 200, operationId, report := some (.status .completed), attempt := operation.attempt }
    else
      appendOAuthReprovisionEvent faults operationId (operation.attempt+1) .resumed
      runAttempt faults operationId (operation.attempt+1)

def outcomeUnknownResponse (operationId : String) : Response :=
  { status := 503, operationId, report := some (.status .outcomeUnknown) }

/-- The `catch` of `runOAuthReprovision`. -/
def markOutcomeUnknown (operationId : String) : Program Response := do
  match (← look (operationOf · operationId)).filter (·.status ≠ .completed) with
  | none => return outcomeUnknownResponse operationId
  | some persisted =>
    put faults (.recorded operationId ⟨.outcomeUnknown, persisted.attempt⟩)
    put faults (.activated operationId .outcomeUnknown)
    appendOAuthReprovisionEvent faults operationId persisted.attempt .outcomeUnknown
    return outcomeUnknownResponse operationId

def runOAuthReprovision (configured : Bool) (operationId : String) : Program Response :=
  if !configured then
    return { status := 503, operationId, report := some .notExecuted,
             error := "runtime_configuration_invalid" }
  else
    rescue (tryReprovision faults operationId)
      (rescue (markOutcomeUnknown faults operationId) (return outcomeUnknownResponse operationId))

def statusOf (s : State) (operationId : String) : Report :=
  match operationOf s operationId with
  | some operation =>
    if operation.status = .completed && unresolved s = some operationId then .status .outcomeUnknown
    else .status operation.status
  | none =>
    match s.active.filter (·.operationId = operationId) with
    | some active => .status active.status
    | none => .notExecuted

def readOAuthReprovisionStatus (s : State) (operationId : String) : Response :=
  let operation := operationOf s operationId
  if operation.isNone && anotherActive s operationId then
    { status := 409, operationId, report := s.active.map (.status ·.status),
      error := "another_operation_active" }
  else
    { status := 200, operationId, report := some (statusOf s operationId),
      attempt := operation.map (·.attempt) }

end Run

section Requests

structure Url where
  pathname : String
  /-- The origin is that of the configuration, with no credentials and no hash. -/
  isPublic : Bool
  searchParams : List (String × String)
  /-- The text of the URL has a `?` or a `#`. -/
  hasMark : Bool

structure Request where
  /-- The URL and the headers are within their bounds. -/
  isBounded : Bool
  url : Option Url
  method : String
  /-- The markers of the Worker for the two operations. -/
  reprovisionMarker : Option String
  adminOperationMarker : Option String
  /-- What `JSON.parse` returns of a body within its bound, unless it throws. -/
  body : Option Json

def oauthReprovisionPath : String := "/_operations/oauth/reprovision"

def adminBootstrapPath : String := "/_operations/admin/bootstrap"

/-- The flags of the pattern are `iu`. -/
def isOperationId (value : String) : Bool := isVersionedUuid (String.ofList (value.toList.map Char.toLower))

def operationIdOf (request : Request) (url : Url) : Except Response String :=
  if request.method = "GET" then
    match url.searchParams with
    | [(key, value)] =>
      if key = "operationId" then .ok value else .error { status := 400, error := "invalid_request" }
    | _ => .error { status := 400, error := "invalid_request" }
  else if request.method = "POST" && !url.hasMark then
    match request.body with
    | none => .error { status := 400, error := "invalid_request" }
    | some (.obj [(key, .str value)]) =>
      if key = "operationId" then .ok value else .error { status := 400, error := "invalid_operation_id" }
    | some _ => .error { status := 400, error := "invalid_operation_id" }
  else .error { status := 405, error := "method_not_allowed" }

def parseFixedOperationId (request : Request) (url : Url) : Except Response String :=
  if !url.isPublic then .error { status := 404, error := "not_found" }
  else match operationIdOf request url with
  | .error response => .error response
  | .ok operationId =>
    if isOperationId operationId then .ok
      operationId else .error { status := 400, error := "invalid_operation_id" }

/-- What another request does to the storage. -/
inductive Write where
  | stored (entry : OAuthKey × String)
  | deleted (key : OAuthKey)
  | elsewhere
  deriving DecidableEq

def Write.event : Write → Event
  | .stored entry => .stored entry
  | .deleted key => .deleted key
  | .elsewhere => .elsewhere

structure Environment where
  configurationValid : Bool
  identityOAuth : Bool
  ordinary : Request → State → List Write × Except Stop ℕ
  /-- The bootstrap records are not under the OAuth prefix. -/
  bootstrap : Request → String → State → ℕ × Except Stop ℕ

def Environment.configured (env : Environment) : Bool := env.configurationValid && env.identityOAuth

/-- A handler of other requests: its writes, and how it ends. -/
def perform (writes : List Write) (result : Except Stop ℕ) : Program Response :=
  fun _ => (result.map fun status => { status }, writes.map Write.event)

variable (env : Environment) (faults : ℕ → Fault)

def handleOAuthReprovision (request : Request) (url : Url) : Program Response :=
  match if env.configurationValid then parseFixedOperationId request url
      else .error { status := 404, error := "not_found" } with
  | .error response => return response
  | .ok operationId =>
    if request.reprovisionMarker ≠ some "v1" then return { status := 401, error := "operation_auth_required" }
    else if request.method = "GET" then look (readOAuthReprovisionStatus · operationId)
    else runOAuthReprovision faults env.configured operationId

def handleAdminBootstrap (request : Request) (url : Url) : Program Response :=
  match if env.configurationValid then parseFixedOperationId request url
      else .error { status := 404, error := "not_found" } with
  | .error response => return response
  | .ok operationId =>
    if request.adminOperationMarker ≠ some "v1" then
      return { status := 401, error := "operation_auth_required" }
    else if !env.configured then return { status := 503, error := "update_control_not_configured" }
    else do
      let (writes, result) ← look (env.bootstrap request operationId)
      perform (List.replicate writes .elsewhere) result

def isReserved (pathname : String) : Bool :=
  pathname = "/_operations" || "/_operations/".toList.isPrefixOf pathname.toList ||
  pathname = "/_internal" || "/_internal/".toList.isPrefixOf pathname.toList

def unavailable : Response := { status := 503, error := "update_control_unavailable" }

def serveOrdinary (request : Request) : Program Response := do
  if (← look unresolved).isSome then return { status := 503, error := "oauth_reprovision_required" }
  else
    let (writes, result) ← look (env.ordinary request)
    perform writes result

def fetchSerialized (request : Request) : Program Response :=
  if !request.isBounded then return { status := 431 }
  else match request.url with
  | none => return { status := 400, error := "invalid_request" }
  | some url =>
    if url.pathname = oauthReprovisionPath then handleOAuthReprovision env faults request url
    else if url.pathname = adminBootstrapPath then handleAdminBootstrap env request url
    else if isReserved url.pathname then return { status := 404, error := "not_found" }
    else if !env.configured then return { status := 503, error := "update_control_not_configured" }
    else rescue (serveOrdinary env request) (return unavailable)

def fetch (request : Request) : Program Response :=
  rescue (fetchSerialized env faults request) (return unavailable)

def step (s : State) (request : Request) : State := (fetch env faults request).final s

end Requests

end AccessStack.Reprovision
