import AccessStack.Json
import AccessStack.Rows
import AccessStack.Text
import AccessStack.Walk

/-!
# The delegated campaign ledger

`DelegatedCampaignLedger` over the texts of its files. An object handed to
`create` is the list of its fields in their order, because the digest of a
campaign is taken over `JSON.stringify` of that very object. A record is
written as a text and every operation starts by reading that text back
through `parsePersisted`, which normalises the definition again and compares
digests.

The operations run under the ledger's lock, one after the other.
`redactSensitiveText` and the digest are taken from the host, as are the
identifiers `randomUUID` returns.
-/

set_option autoImplicit false

namespace AccessStack.Campaign
open AccessStack.Text AccessStack.Rows AccessStack.JsonText

structure Host where
  sha256 : String → String
  sha256_format : ∀ s, exactly isHexLower 64 (sha256 s) = true
  redactSensitiveText : String → String
  randomUUID : ℕ → String
  randomUUID_format : ∀ n, isVersionedUuid (randomUUID n) = true

def campaignActions : List String :=
  ["inspect", "edit", "test", "commit", "push", "pr", "ci", "merge", "deploy", "release",
    "reprovision", "rotate", "revoke"]

inductive CampaignTaskState where
  | pending | inFlight | outcomeUnknown | completed | blocked | failed
  deriving DecidableEq

def stateName : CampaignTaskState → String
  | .pending => "pending"
  | .inFlight => "in_flight"
  | .outcomeUnknown => "outcome_unknown"
  | .completed => "completed"
  | .blocked => "blocked"
  | .failed => "failed"

def stateOf (name : String) : Option CampaignTaskState :=
  [.pending, .inFlight, .outcomeUnknown, .completed, .blocked, .failed].find? (stateName · == name)

structure CampaignStep where
  id : String
  action : String
  dependsOn : List String
  targetResource : String
  expectedState : String
  argumentsDigest : String
  deriving DecidableEq

structure DelegatedCampaignInput where
  campaignId : String
  workspaceId : String
  objective : String
  authorizedActions : List String
  tasks : List CampaignStep
  deriving DecidableEq

/-- A proof is kept as the object the caller has given. -/
structure CampaignTask extends CampaignStep where
  state : CampaignTaskState
  operationId : Option String
  proof : Option Json

structure CampaignRecord where
  campaignId : String
  workspaceId : String
  ownerScopeHash : String
  definitionDigest : String
  objective : String
  authorizedActions : List String
  tasks : List CampaignTask
  revision : ℕ
  createdAt : String
  updatedAt : String

inductive CampaignClaim where
  | claimed (taskId operationId : String) (campaign : CampaignRecord)
  | noRunnableStep (campaign : CampaignRecord)

def CampaignClaim.campaign : CampaignClaim → CampaignRecord
  | .claimed _ _ campaign | .noRunnableStep campaign => campaign

section Encoding

def CampaignStep.fields (t : CampaignStep) : List (String × Json) :=
  [("id", .str t.id), ("action", .str t.action), ("dependsOn", .arr (t.dependsOn.map .str)),
    ("targetResource", .str t.targetResource), ("expectedState", .str t.expectedState),
    ("argumentsDigest", .str t.argumentsDigest)]

def CampaignTask.toJson (t : CampaignTask) : Json :=
  .obj (t.fields ++ [("state", .str (stateName t.state))] ++
    t.operationId.toList.map (fun id => ("operationId", .str id)) ++
    t.proof.toList.map fun p => ("proof", p))

def CampaignRecord.toJson (r : CampaignRecord) : Json :=
  .obj [("version", .num 1), ("campaignId", .str r.campaignId), ("workspaceId", .str r.workspaceId),
    ("ownerScopeHash", .str r.ownerScopeHash), ("definitionDigest", .str r.definitionDigest),
    ("objective", .str r.objective), ("authorizedActions", .arr (r.authorizedActions.map .str)),
    ("tasks", .arr (r.tasks.map CampaignTask.toJson)), ("revision", .num r.revision),
    ("createdAt", .str r.createdAt), ("updatedAt", .str r.updatedAt)]

/-- The text `write` puts into the file. -/
def CampaignRecord.text (r : CampaignRecord) : String := stringify r.toJson ++ "\n"

end Encoding

section Definitions

def ensure (ok : Bool) (message : String) : Except String Unit :=
  if ok then .ok () else .error ("CAMPAIGN_INVALID: " ++ message)

def taskIdPattern (s : String) : Bool :=
  bounded Char.isLower (fun c => c.isLower || c.isDigit || c = '-') 63 s

def workspaceIdPattern (s : String) : Bool :=
  bounded Char.isAlphanum (fun c => c.isAlphanum || c = '.' || c = '_' || c = '-') 127 s

def boundValuePattern (s : String) : Bool :=
  bounded Char.isAlphanum (fun c => c.isAlphanum || c = ':' || c = '.' || c = '_' || c = '/' ||
    c = '@' || c = '-') 255 s

/-- `value.includes("..")` -/
def includesDots (s : String) : Bool :=
  (s.toList.zip s.toList.tail).any fun p => p.1 = '.' && p.2 = '.'

def textField (fields : List (String × Json)) (name : String) : Option String :=
  match field fields name with
  | some (.str s) => some s
  | _ => none

def numberField (fields : List (String × Json)) (name : String) : Option ℤ :=
  match field fields name with
  | some (.num n) => some n
  | _ => none

def arrayField (fields : List (String × Json)) (name : String) : Option (List Json) :=
  match field fields name with
  | some (.arr items) => some items
  | _ => none

def strings : List Json → Option (List String)
  | [] => some []
  | .str s :: rest => (strings rest).map (s :: ·)
  | _ => none

/-- `[...values].sort()` on identifiers. -/
def sorted (values : List String) : List String := values.insertionSort (· ≤ ·)

/-- The body of the first loop over the tasks. A dependency that is no text
is refused here rather than in the second loop. -/
def readStep (permissions ids : List String) (task : Json) : Except String CampaignStep :=
  let fields := match task with
    | .obj fields => fields
    | _ => []
  let text := fun name => (textField fields name).getD ""
  do
    ensure (taskIdPattern (text "id") && !ids.contains (text "id")) "invalid/duplicate task id"
    ensure (campaignActions.contains (text "action") && permissions.contains (text "action"))
      "task outside delegated authorization"
    ensure (boundValuePattern (text "targetResource") && !includesDots (text "targetResource"))
      "invalid target resource"
    ensure (boundValuePattern (text "expectedState") && !includesDots (text "expectedState"))
      "invalid expected state"
    ensure (exactly isHexLower 64 (text "argumentsDigest")) "invalid typed arguments digest"
    ensure ((arrayField fields "dependsOn").any fun deps => deps.length ≤ 64) "invalid dependencies"
    let deps := (arrayField fields "dependsOn").bind strings
    ensure deps.isSome "missing/self dependency"
    return {
      id := text "id", action := text "action", dependsOn := deps.getD []
      targetResource := text "targetResource", expectedState := text "expectedState"
      argumentsDigest := text "argumentsDigest" }

def readSteps (permissions : List String) : List String → List Json → Except String (List CampaignStep)
  | _, [] => .ok []
  | ids, task::rest => do
    let step ← readStep permissions ids task
    let steps ← readSteps permissions (ids ++ [step.id]) rest
    return step::steps

def checkDependencies (tasks : List CampaignStep) : Except String Unit :=
  tasks.forM fun task => do
    ensure task.dependsOn.Nodup "duplicate dependency"
    task.dependsOn.forM fun dep =>
      ensure ((tasks.map (·.id)).contains dep && dep != task.id) "missing/self dependency"

def visitTasks (tasks : List CampaignStep) : Except String (List String) :=
  Walk.visitAll (fun id => (tasks.find? (·.id == id)).map (·.dependsOn))
    (fun _ => "CAMPAIGN_INVALID: dependency cycle") (fun _ => "CAMPAIGN_INVALID: dependency cycle")
    (tasks.length+1) (tasks.map (·.id))

def normalize (h : Host) (input : List (String × Json)) : Except String DelegatedCampaignInput := do
  let text := fun name => (textField input name).getD ""
  ensure (isVersionedUuid (text "campaignId")) "campaignId must be a lowercase UUID"
  ensure (workspaceIdPattern (text "workspaceId")) "invalid workspaceId"
  ensure (0 < utf16Length (text "objective") && utf16Length (text "objective") ≤ 4000)
    "invalid objective"
  ensure (h.redactSensitiveText (text "objective") == text "objective")
    "objective must not contain secret material"
  ensure ((arrayField input "authorizedActions").any fun actions =>
    0 < actions.length && actions.length ≤ campaignActions.length) "invalid authorization"
  ensure ((arrayField input "tasks").any fun tasks => 0 < tasks.length && tasks.length ≤ 64)
    "invalid task count"
  let permissions := (arrayField input "authorizedActions").bind strings
  ensure (permissions.any fun actions => actions.Nodup && actions.all (campaignActions.contains ·))
    "invalid permissions"
  let steps ← readSteps (permissions.getD []) [] ((arrayField input "tasks").getD [])
  checkDependencies steps
  let _ ← visitTasks steps
  return {
    campaignId := text "campaignId", workspaceId := text "workspaceId"
    objective := h.redactSensitiveText (text "objective")
    authorizedActions := sorted (permissions.getD [])
    tasks := steps.map fun t => { t with dependsOn := sorted t.dependsOn } }

/-- `{ ...input, objective, authorizedActions, tasks }`: the fields stay
where the input has them. -/
def definitionJson (input : List (String × Json)) (normalized : DelegatedCampaignInput) : Json :=
  .obj (input.map fun f =>
    if f.1 = "objective" then (f.1, .str normalized.objective)
    else if f.1 = "authorizedActions" then (f.1, .arr (normalized.authorizedActions.map .str))
    else if f.1 = "tasks" then (f.1, .arr (normalized.tasks.map fun t => .obj t.fields))
    else f)

def definitionDigest (h : Host) (input : List (String × Json)) (normalized : DelegatedCampaignInput) :
    String :=
  h.sha256 (stringify (definitionJson input normalized))

end Definitions

section Persisted

/-- A bounded verified proof. -/
def validProof : Json → Bool
  | .obj proof => textField proof "kind" == some "verified" &&
    (textField proof "reference").any fun r => 0 < utf16Length r && utf16Length r ≤ 300
  | _ => false

def parseTask (task : Json) (base : CampaignStep) : Except String CampaignTask :=
  let fields := match task with
    | .obj fields => fields
    | _ => []
  let state := (textField fields "state").bind stateOf
  let operationId := textField fields "operationId"
  let proof := field fields "proof"
  do
    ensure state.isSome "invalid persisted task state"
    ensure (textField fields "id" == some base.id && textField fields "action" == some base.action &&
      (field fields "dependsOn").map stringify == some (stringify (.arr (base.dependsOn.map .str))) &&
      textField fields "targetResource" == some base.targetResource &&
      textField fields "expectedState" == some base.expectedState &&
      textField fields "argumentsDigest" == some base.argumentsDigest) "task definition mismatch"
    ensure (state == some .pending || operationId.any isVersionedUuid) "missing operation identity"
    ensure (state != some .pending || (field fields "operationId").isNone)
      "unclaimed task has operationId"
    ensure ((state != some .completed && proof.isNone) || proof.any validProof) "invalid proof"
    return { base with state := state.getD .pending, operationId, proof }

def definitionFields : List String :=
  ["campaignId", "workspaceId", "objective", "authorizedActions", "tasks"]

def parsePersisted (h : Host) (ownerScopeHash : String) (value : Json) :
    Except String CampaignRecord :=
  let fields := match value with
    | .obj fields => fields
    | _ => []
  let input := definitionFields.filterMap fun name => (field fields name).map (name, ·)
  let tasks := (arrayField fields "tasks").getD []
  do
    ensure (numberField fields "version" == some 1) "invalid persisted record"
    ensure (textField fields "ownerScopeHash" == some ownerScopeHash) "owner scope mismatch"
    ensure ((textField fields "objective").isSome &&
      (textField fields "definitionDigest").any (exactly isHexLower 64)) "invalid campaign"
    ensure ((numberField fields "revision").any fun n => isSafeInteger n && decide (0 ≤ n)) "invalid revision"
    ensure ((textField fields "createdAt").isSome && (textField fields "updatedAt").isSome)
      "invalid timestamps"
    let normalized ← normalize h input
    ensure (textField fields "definitionDigest" == some (definitionDigest h input normalized))
      "persisted authorization/plan digest mismatch"
    ensure (tasks.length == normalized.tasks.length) "invalid tasks"
    let parsed ← (tasks.zip normalized.tasks).mapM fun p => parseTask p.1 p.2
    return {
      campaignId := normalized.campaignId, workspaceId := normalized.workspaceId, ownerScopeHash
      definitionDigest := (textField fields "definitionDigest").getD ""
      objective := normalized.objective, authorizedActions := normalized.authorizedActions
      tasks := parsed, revision := ((numberField fields "revision").getD 0).toNat
      createdAt := (textField fields "createdAt").getD ""
      updatedAt := (textField fields "updatedAt").getD "" }

end Persisted

section Operations

structure DelegatedCampaignLedger where
  host : Host
  ownerScopeHash : String

/-- The files of the ledger's directory, and how many identifiers have been
drawn. -/
structure State where
  files : String → Option String
  draws : ℕ

def State.empty : State := ⟨fun _ => none, 0⟩

/-- An operation on the files. What it has written stays when it fails. -/
def Effect (α : Type) := State → Except String α × State

instance : Monad Effect where
  pure a := fun s => (.ok a, s)
  bind x f := fun s => match x s with
    | (.ok a, s') => f a s'
    | (.error e, s') => (.error e, s')

def Effect.lift {α : Type} (x : Except String α) : Effect α := fun s => (x, s)

variable (ledger : DelegatedCampaignLedger)

def path (workspaceId id : String) : String :=
  ledger.host.sha256 (ledger.ownerScopeHash ++ ":" ++ workspaceId ++ ":" ++ id) ++ ".json"

def file (workspaceId id : String) : Except String String := do
  ensure (workspaceIdPattern workspaceId && isVersionedUuid id) "invalid record identity"
  return path ledger workspaceId id

def read (s : State) (workspaceId id : String) : Except String (Option CampaignRecord) := do
  let source ← file ledger workspaceId id
  match s.files source with
  | none => return none
  | some text =>
    match parse text with
    | none => .error "SyntaxError"
    | some value => return some (← parsePersisted ledger.host ledger.ownerScopeHash value)

def get (workspaceId id : String) : Effect (Option CampaignRecord) :=
  fun s => (read ledger s workspaceId id, s)

/-- The rename that ends `write`; the file it renames is private. -/
def store (target text : String) : Effect Unit :=
  fun s => (.ok (), { s with files := Function.update s.files target (some text) })

def write (record : CampaignRecord) : Effect Unit := do
  let target ← Effect.lift (file ledger record.workspaceId record.campaignId)
  store target record.text

def randomUUID : Effect String :=
  fun s => (.ok (ledger.host.randomUUID s.draws), { s with draws := s.draws+1 })

def newRecord (input : List (String × Json)) (normalized : DelegatedCampaignInput) (now : String) :
    CampaignRecord where
  campaignId := normalized.campaignId
  workspaceId := normalized.workspaceId
  ownerScopeHash := ledger.ownerScopeHash
  definitionDigest := definitionDigest ledger.host input normalized
  objective := normalized.objective
  authorizedActions := normalized.authorizedActions
  tasks := normalized.tasks.map fun t => { t with state := .pending, operationId := none, proof := none }
  revision := 0
  createdAt := now
  updatedAt := now

def create (input : List (String × Json)) (now : String) : Effect CampaignRecord := do
  let normalized ← Effect.lift (normalize ledger.host input)
  match ← get ledger normalized.workspaceId normalized.campaignId with
  | some old =>
    Effect.lift (ensure (old.definitionDigest == definitionDigest ledger.host input normalized)
      "campaignId reused with different objective/authorization")
    return old
  | none =>
    let record := newRecord ledger input normalized now
    write ledger record
    return record

def requireCampaign (workspaceId id : String) : Effect CampaignRecord := do
  match ← get ledger workspaceId id with
  | some record => return record
  | none => Effect.lift (.error "CAMPAIGN_INVALID: campaign not found")

/-- The predicate of `record.tasks.find` in `claimNext`. -/
def runnable (record : CampaignRecord) (t : CampaignTask) : Bool :=
  t.state == .pending &&
    t.dependsOn.all (fun dep => (record.tasks.find? (·.id == dep)).any (·.state == .completed)) &&
    !record.tasks.any fun other => other.id != t.id &&
      (other.state == .outcomeUnknown || other.state == .blocked) &&
      other.targetResource == t.targetResource

def setTask (record : CampaignRecord) (taskId : String) (f : CampaignTask → CampaignTask)
    (now : String) : CampaignRecord :=
  { record with
    tasks := update (·.id == taskId) f record.tasks
    revision := record.revision+1
    updatedAt := now }

def claimTask (operationId : String) (t : CampaignTask) : CampaignTask :=
  { t with state := .inFlight, operationId := some operationId }

def claimNext (workspaceId id now : String) : Effect CampaignClaim := do
  let record ← requireCampaign ledger workspaceId id
  if record.tasks.any (·.state == .inFlight) then return .noRunnableStep record
  match record.tasks.find? (runnable record) with
  | none => return .noRunnableStep record
  | some available =>
    let operationId ← randomUUID ledger
    let claimed := setTask record available.id (claimTask operationId) now
    write ledger claimed
    return .claimed available.id operationId claimed

inductive TransitionTarget where
  | completed | failed | blocked | outcomeUnknown
  deriving DecidableEq

def TransitionTarget.state : TransitionTarget → CampaignTaskState
  | .completed => .completed
  | .failed => .failed
  | .blocked => .blocked
  | .outcomeUnknown => .outcomeUnknown

/-- `proof?.kind === "verified"` -/
def verifiedKind : Json → Bool
  | .obj proof => textField proof "kind" == some "verified"
  | _ => false

def settleTask (next : TransitionTarget) (proof : Option Json) (t : CampaignTask) : CampaignTask :=
  { t with state := next.state, proof := if proof.any verifiedKind then proof else t.proof }

def checkTransition (record : CampaignRecord) (taskId operationId : String) (next : TransitionTarget)
    (proof : Option Json) : Except String Unit :=
  match record.tasks.find? (·.id == taskId) with
  | none => .error "CAMPAIGN_INVALID: operation identity mismatch"
  | some task => do
    ensure (task.operationId == some operationId && isVersionedUuid operationId)
      "operation identity mismatch"
    ensure (task.state == .inFlight || task.state == .outcomeUnknown) "task is not reconcilable"
    ensure (task.state != .outcomeUnknown || next != .outcomeUnknown) "duplicate uncertain transition"
    ensure (!(next == .completed || task.state == .outcomeUnknown) || proof.any validProof)
      "reconciled/completed task requires bounded verified evidence"

def transition (workspaceId id taskId operationId : String) (next : TransitionTarget)
    (proof : Option Json) (now : String) : Effect CampaignRecord := do
  let record ← requireCampaign ledger workspaceId id
  Effect.lift (checkTransition record taskId operationId next proof)
  let moved := setTask record taskId (settleTask next proof) now
  write ledger moved
  return moved

end Operations

end AccessStack.Campaign
