import AccessStack.Json
import AccessStack.Text
import AccessStack.Properties

/-!
# The progress plans of the edge

Each user has a list of recent plans. The owner of each plan is kept under the
name of the plan, and the plan of a conversation under the name of the session.
A moment is the number of its millisecond.
-/

set_option autoImplicit false

namespace AccessStack.Edge.Progress
open AccessStack.JsonText AccessStack.Text AccessStack.Properties

section Steps

inductive ProgressStepState where
  | done | doing | todo | failed | skipped
  deriving DecidableEq

structure ProgressStep where
  text : String
  state : ProgressStepState
  detail : Option String
  link : Option String
  deriving DecidableEq

structure ProgressPlanStep extends ProgressStep where
  startedAt : Option ℕ
  endedAt : Option ℕ
  deriving DecidableEq

structure ProgressPlan where
  planId : String
  title : String
  steps : List ProgressPlanStep
  updatedAt : ℕ
  shownAt : Option ℕ
  deriving DecidableEq

structure ProgressUpdate where
  planId : String
  title : Option String
  steps : List ProgressStep

/-- The step that stood here before: at the same place, or the first with the same text. -/
def earlierStep (previous : List ProgressPlanStep) (text : String) (index : ℕ) : Option ProgressPlanStep :=
  match previous[index]? with
  | some entry => if entry.text = text then some entry else previous.find? (·.text = text)
  | none => previous.find? (·.text = text)

def startedAt (before : Option ProgressPlanStep) (state : ProgressStepState) (now : ℕ) : Option ℕ :=
  if state = .todo ∨ state = .skipped then none
  else (before.bind (·.startedAt)).or
    (if state = .doing ∨ before.map (·.state) = some .doing then some now else none)

def endedAt (before : Option ProgressPlanStep) (state : ProgressStepState) (now : ℕ) : Option ℕ :=
  if state = .done ∨ state = .failed then
    (before.bind (·.endedAt)).or ((startedAt before state now).map fun _ => now)
  else none

def timed (previous : List ProgressPlanStep) (next : List ProgressStep) (now : ℕ) : List ProgressPlanStep :=
  next.zipIdx.map fun (step, index) =>
    let before := earlierStep previous step.text index
    { step with startedAt := startedAt before step.state now, endedAt := endedAt before step.state now }

end Steps

section Input

def progressStepState : String → Option ProgressStepState
  | "done" => some .done
  | "doing" => some .doing
  | "todo" => some .todo
  | "failed" => some .failed
  | "skipped" => some .skipped
  | _ => none

def text? : Option Json → Option String
  | some (.str s) => some s
  | _ => none

/-- A text with at most so many units, without the spaces around it. -/
def readText (value : Option Json) (longest : ℕ) : Option String :=
  match value with
  | some (.str s) => if 1 ≤ utf16Length (trim s) ∧ utf16Length (trim s) ≤ longest then some (trim s) else none
  | _ => none

/-- A field that may be missing. -/
def readOptional {α : Type} (read : Option Json → Option α) : Option Json → Option (Option α)
  | none => some none
  | some value => (read (some value)).map some

def linkPrefix : List Char := "https://github.com/".toList

def readLink : Option Json → Option String
  | some (.str s) =>
    if linkPrefix <+: s.toList ∧ 1 ≤ (s.toList.drop linkPrefix.length).length ∧
        (s.toList.drop linkPrefix.length).length ≤ 280 ∧
        (s.toList.drop linkPrefix.length).all fun c => !isSpace c && c != '"' && c != '<' &&
          c != '>' then some s
    else none
  | _ => none

def parseProgressStep : Json → Option ProgressStep
  | .obj value =>
    if value.any fun f => decide (f.1 ∉ ["text", "state", "detail", "link"]) then none
    else do
      let text ← readText (field value "text") 200
      let state ← (text? (field value "state")).bind progressStepState
      let detail ← readOptional (readText · 160) (field value "detail")
      let link ← readOptional readLink (field value "link")
      some ⟨text, state, detail, link⟩
  | _ => none

/-- `^plan_[0-9a-f-]{36}$` -/
def isPlanId (s : String) : Bool :=
  "plan_".toList.isPrefixOf s.toList && (s.toList.drop 5).length = 36 &&
    (s.toList.drop 5).all fun c => isHexLower c || c = '-'

structure PlanInput where
  title : Option String
  steps : List ProgressStep

def readSteps : Option Json → Option (List ProgressStep)
  | some (.arr items) => if 1 ≤ items.length ∧ items.length ≤ 20 then items.mapM parseProgressStep else none
  | _ => none

def readPlanInput (value : List (String × Json)) (allowed : List String) : Option PlanInput :=
  if value.any fun f => decide (f.1 ∉ allowed) then none
  else if allowed.contains "planId" && !(text? (field value "planId")).any isPlanId then none
  else do
    let title ←
      if (field value "title").isSome || !allowed.contains "planId" then
        (readText (field value "title") 120).map some
      else some none
    let steps ← readSteps (field value "steps")
    some ⟨title, steps⟩

/-- A field that is missing or null gives way to the other one. -/
def orElse (value other : Option Json) : Option Json :=
  match value with
  | none => other
  | some .null => other
  | some value => some value

def progressSession : Json → Option String
  | .obj body =>
    match field body "params" with
    | some (.obj params) =>
      match field params "_meta" with
      | some (.obj metadata) =>
        match orElse (field metadata "openai/session") (field metadata "sessionId") with
        | some (.str value) =>
          if ¬ blank value ∧ utf16Length value ≤ 200 then some (trim value) else none
        | _ => none
      | _ => none
    | _ => none
  | _ => none

end Input

section Storage

def maxPlans : ℕ := 20

def maxSessionPlans : ℕ := 100

def maxUserCards : ℕ := 50

/-- The calls that open a plan or bind a session. They are not stored. -/
inductive Call where
  | opened (userId planId : String)
  | bound (userId session planId : String)
  deriving DecidableEq

structure Plans where
  plans : String → Option (List ProgressPlan)
  owners : String → Option String
  sessions : String → Option (List (String × String))
  cards : String → Option (List (String × ℕ))
  calls : List Call

def empty : Plans := ⟨fun _ => none, fun _ => none, fun _ => none, fun _ => none, []⟩

/-- The number of an array index: no zero stands before it, and it is less than the largest length. -/
def arrayIndex (name : String) : Option ℕ :=
  let digits := name.toList
  let value := digits.foldl (fun n c => 10 * n + (c.toNat - '0'.toNat)) 0
  if digits ≠ [] ∧ (digits.all Char.isDigit) = true ∧
    (digits.head? = some '0' → digits.length = 1) ∧ value < 2^32 - 1 then
    some value
  else none

def Plans.of (p : Plans) (userId : String) : List ProgressPlan := (p.plans userId).getD []

def Plans.assignments (p : Plans) (userId : String) : List (String × String) := (p.sessions userId).getD []

def replaced (plans : List ProgressPlan) (plan : ProgressPlan) : List ProgressPlan :=
  plans.map fun entry => if entry.planId = plan.planId then plan else entry

def Plans.put (p : Plans) (userId : String) (plans : List ProgressPlan) : Plans :=
  { p with plans := Function.update p.plans userId (some plans) }

def bindSession (p : Plans) (userId : String) (session : Option String) (planId : String) : Plans :=
  match session with
  | none => p
  | some session =>
    { p with
      sessions := Function.update p.sessions userId
        (some (renew arrayIndex maxSessionPlans (p.assignments userId) session planId))
      calls := p.calls ++ [.bound userId session planId] }

def newId (uuid : String) : String := "plan_" ++ uuid

def opened (title : String) (steps : List ProgressStep) (now : ℕ) (uuid : String) : ProgressPlan :=
  ⟨newId uuid, title, timed [] steps now, now, some now⟩

/-- `open` -/
def openPlan (p : Plans) (userId : String) (plan : ProgressPlan) : Plans :=
  let plans := p.of userId
  let dropped := plans.take (plans.length + 1 - maxPlans)
  { p with
    plans := Function.update p.plans userId (some (lastOf maxPlans (plans ++ [plan])))
    owners := Function.update
      (fun planId => if planId ∈ dropped.map (·.planId) then none else p.owners planId) plan.planId
        (some userId)
    calls := p.calls ++ [.opened userId plan.planId] }

def changed (current : ProgressPlan) (title : Option String) (steps : List ProgressStep)
    (now : ℕ) : ProgressPlan :=
  { current with title := title.getD current.title, steps := timed current.steps steps now, updatedAt := now }

end Storage

section Requests

inductive Answer where
  | toolError (id : Json) (code message : String)
  | toolResult (id : Json) (text : String) (plan : ProgressPlan)
  | userCard (id : Json) (shownAt : Option ℕ)

def progressTools : List String :=
  ["browser_progress", "browser_progress_update", "browser_progress_read", "browser_user_card"]

/-- The name and the arguments of a tool call. -/
def toolCall (body : List (String × Json)) : Option (String × Option (List (String × Json))) :=
  if text? (field body "method") ≠ some "tools/call" then none
  else
    match field body "params" with
    | some (.obj params) =>
      (text? (field params "name")).map fun name =>
        (name, match field params "arguments" with
          | some (.obj arguments) => some arguments
          | _ => none)
    | _ => none

def requestId (body : List (String × Json)) : Json :=
  match field body "id" with
  | some (.str s) => .str s
  | some (.num n) => .num n
  | _ => .null

def invalid (id : Json) (name : String) : Answer :=
  .toolError id "INVALID_ARGUMENT" ("Input validation error: Invalid arguments for tool " ++ name ++ ".")

def progressText (plan : ProgressPlan) : String :=
  toString (plan.steps.filter fun step => step.state = .done || step.state = .skipped).length ++ "/" ++
    toString plan.steps.length ++ " done"

def handleProgress (p : Plans) (body : Json) (id : Json) (args : List (String × Json))
    (userId : String) (now : ℕ) (uuid : String) : Plans × Answer :=
  match field args "planId" with
  | some planId =>
    if args.any fun f => f.1 != "planId" then (p, invalid id "browser_progress")
    else
      match (p.of userId).find? fun entry => text? (some planId) = some entry.planId with
      | none => (p, .toolError id "NOT_FOUND" "No plan with this planId; open one with browser_progress.")
      | some current =>
        let plan := { current with shownAt := some now }
        (bindSession (p.put userId (replaced (p.of userId) plan)) userId (progressSession body) plan.planId,
          .toolResult id ("Plan shown again (" ++ progressText plan ++ ").") plan)
  | none =>
    match readPlanInput args ["title", "steps"] with
    | none => (p, invalid id "browser_progress")
    | some input =>
      let plan := opened (input.title.getD "") input.steps now uuid
      (bindSession (openPlan p userId plan) userId (progressSession body) plan.planId,
        .toolResult id ("Plan shown to the user (planId " ++ plan.planId ++ ", " ++ progressText plan ++
          "). Update it with browser_progress_update and this planId; the same card follows.") plan)

def handleUpdate (p : Plans) (id : Json) (args : List (String × Json)) (userId : String)
    (now : ℕ) : Plans × Answer :=
  match readPlanInput args ["planId", "title", "steps"] with
  | none => (p, invalid id "browser_progress_update")
  | some input =>
    match (p.of userId).find? fun entry => text? (field args "planId") = some entry.planId with
    | none => (p, .toolError id "NOT_FOUND" "No plan with this planId; open one with browser_progress.")
    | some current =>
      let plan := changed current input.title input.steps now
      (p.put userId (replaced (p.of userId) plan), .toolResult id
        ("Plan updated: " ++ progressText plan ++ ".") plan)

def handleTool (p : Plans) (body : Json) (id : Json) (name : String) (args : List (String × Json))
    (userId : String) (now : ℕ) (uuid : String) : Plans × Answer :=
  if name = "browser_user_card" then
    (p, .userCard id (get ((p.cards userId).getD []) ((text? (field args "taskId")).getD "")))
  else if name = "browser_progress_read" then
    (p, match (p.of userId).find? fun entry => text? (field args "planId") = some entry.planId with
      | some plan => .toolResult id ("Plan " ++ plan.planId ++ ".") plan
      | none => .toolError id "NOT_FOUND" "This plan is no longer kept.")
  else if name = "browser_progress" then handleProgress p body id args userId now uuid
  else handleUpdate p id args userId now

def handle (p : Plans) (body : Json) (userId : Option String) (now : ℕ)
    (uuid : String) : Plans × Option Answer :=
  match body with
  | .obj fields =>
    match toolCall fields with
    | some (name, arguments) =>
      if text? (field fields "jsonrpc") ≠ some "2.0" ∨ name ∉ progressTools then (p, none)
      else
        match userId.filter (· ≠ "") with
        | none =>
          (p, some (.toolError (requestId fields) "IDENTITY_REQUIRED" "Reconnect MCP V3 to show the plan."))
        | some userId =>
          let args := (arguments.getD []).filter fun f => f.1 != "deviceId" && f.1 != "runtimeId"
          let result := handleTool p body (requestId fields) name args userId now uuid
          (result.1, some result.2)
    | none => (p, none)
  | _ => (p, none)

/-- Notes that a reply card of this task is shown now, and says when. -/
def noteUserCard (p : Plans) (userId : String) (taskId : Option String) (now : ℕ) : Plans × ℕ :=
  let kept := renew arrayIndex maxUserCards ((p.cards userId).getD []) (taskId.getD "") now
  ({ p with cards := Function.update p.cards userId (some kept) }, now)

def updateSteps : List ProgressStep :=
  [⟨"Pré-checagem: CI da MAIN, estado da Oracle e do Edge", .doing, none, none⟩]

/-- The plan that the call goes on with. -/
def openForUpdate (p : Plans) (body : Json) (userId : Option String) (now : ℕ)
    (uuid : String) : Plans × Option String :=
  match userId.filter (· ≠ ""), body with
  | some userId, .obj fields =>
    match toolCall fields with
    | some (name, some args) =>
      if name ≠ "mcp_update" ∨ text? (field args "action") ≠ some "start" ∨
        (field args "planId").isSome then (p, none)
      else
        let plan := opened "Atualizando o MCP" updateSteps now uuid
        (bindSession (openPlan p userId plan) userId (progressSession body) plan.planId, some plan.planId)
    | _ => (p, none)
  | _, _ => (p, none)

/-- Resolves only plans created by this user and this exact session. -/
def planForSession (p : Plans) (userId : String) (session : Option String) : Option String :=
  match session.filter (· ≠ "") with
  | none => none
  | some session =>
    match (get (p.assignments userId) session).filter (· ≠ "") with
    | none => none
    | some planId => if (p.of userId).any (·.planId = planId) then some planId else none

/-- A runtime's step of a long operation. -/
def applyUpdate (p : Plans) (update : ProgressUpdate) (ownerUserId : Option String)
    (now : ℕ) : Plans × Bool :=
  match (p.owners update.planId).filter (· ≠ "") with
  | none => (p, false)
  | some userId =>
    if ∃ owner ∈ ownerUserId, owner ≠ userId then (p, false)
    else
      match (p.of userId).find? (·.planId = update.planId) with
      | none => (p, false)
      | some current =>
        (p.put userId (replaced (p.of userId) (changed current update.title update.steps now)), true)

end Requests

end AccessStack.Edge.Progress
