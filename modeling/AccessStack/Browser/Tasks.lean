import AccessStack.Browser.Registry
import AccessStack.Faults

/-!
# The tasks of the browser worker

`BrowserTaskRegistry`: the tasks, the task of each tab and the leases. A task
is revised, gets a tab or loses one, or is closed, and each of these is an
event. A method may revise a task and throw afterwards. The time of a call is
an argument of it.
-/

set_option autoImplicit false

namespace AccessStack.BrowserTasks
open AccessStack.Browser AccessStack.Fallible

section Records

structure Clock where
  toISOString : ℕ → String
  /-- `Date.parse`, where it is a number. -/
  parse : String → Option ℤ
  ttlMs : ℕ
  sha256 : String → String

structure AppError where
  code : String
  message : String
  deriving DecidableEq

/-- A lease that has been handed out. -/
structure Lease where
  taskId : String
  released : Bool
  deriving DecidableEq

structure State where
  tasks : List BrowserTask
  taskByTab : String → Option String
  activeLeases : String → Option ℕ
  leases : List Lease

def leaseCount (s : State) (taskId : String) : ℕ := (s.activeLeases taskId).getD 0

def taskOf (s : State) (taskId : String) : Option BrowserTask := s.tasks.find? (·.taskId = taskId)

/-- `this.tasks.set` -/
def setTask (task : BrowserTask) : List BrowserTask → List BrowserTask
  | [] => [task]
  | found::rest => if found.taskId = task.taskId then task::rest else found :: setTask task rest

def claimTabs (taskId : String) (tabIds : List String) (taskByTab : String → Option String) :
    String → Option String :=
  fun tabId => if taskByTab tabId = none ∧ tabId ∈ tabIds then some taskId else taskByTab tabId

/-- The constructor, on tasks that satisfy their schema. -/
def construct (initialTasks : List BrowserTask) : State where
  tasks := initialTasks.foldl (fun tasks task => setTask task tasks) []
  taskByTab :=
    initialTasks.foldl (fun taskByTab task => claimTabs task.taskId task.tabIds taskByTab) fun _ => none
  activeLeases := fun _ => none
  leases := []

inductive Event where
  | created (task : BrowserTask)
  /-- The state and the times of the task of the id are new. -/
  | revised (task : BrowserTask)
  | expiring (taskId : String) (now : ℕ)
  | attached (taskId tabId : String)
  | detached (taskId tabId : String)
  | closed (taskId : String) (state : TaskState) (now : String)
  | acquired (taskId : String)
  | released (lease : ℕ)
  deriving DecidableEq

def State.change (s : State) (taskId : String) (f : BrowserTask → BrowserTask) : State :=
  { s with tasks := s.tasks.map fun task => if task.taskId = taskId then f task else task }

def attachTo (tabId : String) (task : BrowserTask) : BrowserTask :=
  { task with tabIds := if tabId ∈ task.tabIds then task.tabIds else task.tabIds ++ [tabId] }

def detachFrom (tabId : String) (task : BrowserTask) : BrowserTask :=
  { task with tabIds := task.tabIds.filter (· ≠ tabId) }

def close (state : TaskState) (now : String) (task : BrowserTask) : BrowserTask :=
  { task with state, tabIds := [], lastActivityAt := now, expiresAt := now }

def tabsOf (s : State) (taskId : String) : List String := ((taskOf s taskId).map (·.tabIds)).getD []

/-- The counter of the leases after a release. -/
def lowered (count : Option ℕ) : Option ℕ := if count.getD 1 - 1 = 0 then none else some (count.getD 1 - 1)

def State.after (s : State) : Event → State
  | .created task => { s with tasks := setTask task s.tasks }
  | .revised task => s.change task.taskId fun _ => task
  | .expiring taskId _ => s.change taskId fun task => { task with state := .finishing }
  | .attached taskId tabId =>
    { s.change taskId (attachTo tabId) with taskByTab := Function.update s.taskByTab tabId (some taskId) }
  | .detached taskId tabId =>
    { s.change taskId (detachFrom tabId) with taskByTab := Function.update s.taskByTab tabId none }
  | .closed taskId state now =>
    { s.change taskId (close state now) with
      taskByTab := fun tabId => if tabId ∈ tabsOf s taskId then none else s.taskByTab tabId }
  | .acquired taskId =>
    { s with activeLeases := Function.update s.activeLeases taskId (some (leaseCount s taskId+1))
             leases := s.leases ++ [⟨taskId, false⟩] }
  | .released lease =>
    match s.leases[lease]? with
    | none => s
    | some found =>
      { s with activeLeases := Function.update s.activeLeases found.taskId (lowered
        (s.activeLeases found.taskId))
               leases := s.leases.set lease { found with released := true } }

abbrev Op := Fallible State.after AppError

end Records

section Methods

variable (z : Clock) (now : ℕ)

structure OperationContext where
  ownerScope : Option String
  deriving DecidableEq

def ownerScope (context : Option OperationContext) : String :=
  (context.bind (·.ownerScope)).getD "legacy-local"

def hashOwner (context : Option OperationContext) : String := z.sha256 (ownerScope context)

/-- The test of a text that may be undefined. -/
def truthy (text : Option String) : Option String := text.filter (· ≠ "")

def isAccessibleState (state : TaskState) : Bool := state = .active || state = .suspended

def touched (extendExpiry : Bool) (task : BrowserTask) : BrowserTask :=
  { task with lastActivityAt := z.toISOString now
              expiresAt := if extendExpiry then z.toISOString (now+z.ttlMs) else task.expiresAt }

/-- `touchTask`, with the state that has been set before it. -/
def revise (task : BrowserTask) (extendExpiry : Bool) : Op BrowserTask := do
  emit (.revised (touched z now extendExpiry task))
  return touched z now extendExpiry task

def resume (task : BrowserTask) : Op BrowserTask := revise z now { task with state := .active } true

def taskNotFound : AppError := ⟨"TASK_NOT_FOUND", "The browser task was not found."⟩

def ownershipMismatch (message : String) : AppError := ⟨"TASK_OWNERSHIP_MISMATCH", message⟩

def requireOwnedTask (taskId ownerHash : String) (includeFinished resumeSuspended : Bool) :
    Op BrowserTask := do
  match ← look (taskOf · taskId) with
  | none => fail taskNotFound
  | some task =>
    if task.ownerScopeHash ≠ ownerHash then
      fail (ownershipMismatch "The browser task belongs to another owner scope.")
    else if task.state = .expired then fail ⟨"TASK_EXPIRED", "The browser task has expired."⟩
    else if task.state = .finished && !includeFinished then
      fail ⟨"TASK_NOT_FOUND", "The browser task is already finished."⟩
    else if task.state = .finishing then fail ⟨"TASK_SUSPENDED", "The browser task is finishing."⟩
    else if resumeSuspended && task.state = .suspended then resume z now task
    else return task

def scopeRequired : AppError :=
  ⟨"TASK_SCOPE_REQUIRED", "More than one browser task is accessible. Provide taskId explicitly."⟩

/-- The task id is a new one. -/
def create (taskId : String) (context : Option OperationContext) : Op BrowserTask := do
  let task : BrowserTask :=
    { taskId, ownerScopeHash := hashOwner z context, state := .active, tabIds := []
      createdAt := z.toISOString now, lastActivityAt := z.toISOString now,
      expiresAt := z.toISOString (now+z.ttlMs) }
  emit (.created task)
  return task

def resolveForOpen (taskId : Option String) (context : Option OperationContext) (created : String) :
    Op BrowserTask := do
  match truthy taskId with
  | some taskId => requireOwnedTask z now taskId (hashOwner z context) false true
  | none =>
    match ← look fun s => s.tasks.filter fun task =>
        task.ownerScopeHash = hashOwner z context && isAccessibleState task.state with
    | [] => create z now created context
    | [task] => resume z now task
    | _ => fail scopeRequired

def resolveScoped (taskId : Option String) (context : Option OperationContext) (includeFinished : Bool) :
    Op BrowserTask := do
  match truthy taskId with
  | some taskId => requireOwnedTask z now taskId (hashOwner z context) includeFinished true
  | none =>
    match ← look fun s => s.tasks.filter fun task => task.ownerScopeHash = hashOwner z context &&
        (isAccessibleState task.state || includeFinished && task.state = .finished) with
    | [] => fail ⟨"TASK_NOT_FOUND", "No browser task is accessible."⟩
    | [task] => if isAccessibleState task.state then resume z now task else return task
    | _ => fail scopeRequired

def assertTabAccess (tabId : String) (context : Option OperationContext) : Op BrowserTask := do
  match truthy (← look (·.taskByTab tabId)) with
  | none => fail ⟨"TASK_NOT_FOUND", "The browser tab is not associated with a task."⟩
  | some taskId => requireOwnedTask z now taskId (hashOwner z context) false true

/-- The tab has no task, or the task. -/
def claim (taskId tabId : String) : Op Unit := do
  if (truthy (← look (·.taskByTab tabId))).any (· ≠ taskId) then
    fail (ownershipMismatch "The browser tab already belongs to another task.")
  else emit (.attached taskId tabId)

/-- The task as it is now; every caller has found it before. -/
def current (taskId : String) : Op BrowserTask := do
  match ← look (taskOf · taskId) with
  | none => fail taskNotFound
  | some task => return task

def attachTab (taskId tabId : String) (context : Option OperationContext) : Op BrowserTask := do
  let _ ← requireOwnedTask z now taskId (hashOwner z context) false true
  claim taskId tabId
  revise z now (← current taskId) true

def attachExistingTab (taskId tabId : String) : Op BrowserTask := do
  let _ ← current taskId
  claim taskId tabId
  current taskId

def detachTab (tabId : String) : Op Unit := do
  match truthy (← look (·.taskByTab tabId)) with
  | none => return
  | some taskId =>
    emit (.detached taskId tabId)
    match ← look (taskOf · taskId) with
    | none => return
    | some task => let _ ← revise z now task true

/-- The lease is the number of the one that is handed out. -/
def acquireForTask (taskId : String) (context : Option OperationContext) : Op (BrowserTask × ℕ) := do
  let task ← requireOwnedTask z now taskId (hashOwner z context) false true
  let lease ← look (·.leases.length)
  emit (.acquired task.taskId)
  -- `touchTask` is called on the copy that `requireOwnedTask` returns
  return (task, lease)

def acquireForTab (tabId : String) (context : Option OperationContext) : Op (BrowserTask × ℕ) := do
  let task ← assertTabAccess z now tabId context
  acquireForTask z now task.taskId context

def release (lease : ℕ) : Op Unit := do
  match (← look (·.leases[lease]?)).filter (!·.released) with
  | none => return
  | some found =>
    emit (.released lease)
    match (← look (taskOf · found.taskId)).filter (isAccessibleState ·.state) with
    | none => return
    | some task => let _ ← revise z now task true

def beginFinish (taskId : String) (context : Option OperationContext) : Op BrowserTask := do
  let task ← requireOwnedTask z now taskId (hashOwner z context) true false
  if task.state = .finished then return task
  else if task.state = .expired then fail ⟨"TASK_EXPIRED", "The browser task has expired."⟩
  else revise z now { task with state := .finishing } false

/-- `completeFinish` and `markExpired` -/
def terminate (state : TaskState) (taskId : String) : Op BrowserTask := do
  let task ← current taskId
  emit (.closed taskId state (z.toISOString now))
  return close state (z.toISOString now) task

def completeFinish (taskId : String) : Op BrowserTask := terminate z now .finished taskId

def markExpired (taskId : String) : Op BrowserTask := terminate z now .expired taskId

/-- `Date.parse(task.expiresAt) > now` -/
def isLater (expiresAt : String) : Bool := (z.parse expiresAt).any ((now : ℤ) < ·)

def beginExpiration (taskId : String) : Op (Option BrowserTask) := do
  match (← look (taskOf · taskId)).filter (isAccessibleState ·.state) with
  | none => return none
  | some task =>
    if 0 < (← look (leaseCount · taskId)) then return none
    else if isLater z now task.expiresAt then return none
    else
      emit (.expiring taskId now)
      return some { task with state := .finishing }

def restoreAfterFailedFinalization (taskId : String) : Op (Option BrowserTask) := do
  match (← look (taskOf · taskId)).filter (·.state = .finishing) with
  | none => return none
  | some task => return some (← revise z now { task with state := .active } true)

def accessibleTasks (s : State) (context : Option OperationContext) (includeTerminal : Bool) :
    List BrowserTask :=
  (s.tasks.filter (·.ownerScopeHash = hashOwner z context)).filter fun task =>
    includeTerminal || isAccessibleState task.state

def expiredCandidates (s : State) : List BrowserTask :=
  s.tasks.filter fun task =>
    isAccessibleState task.state && leaseCount s task.taskId = 0 &&
      (z.parse task.expiresAt).any (· ≤ (now : ℤ))

end Methods

section Calls

inductive Call where
  | accessibleTasks (context : Option OperationContext) (includeTerminal : Bool)
  | expiredCandidates
  | resolveForOpen (taskId : Option String) (context : Option OperationContext) (created : String)
  | resolveScoped (taskId : Option String) (context : Option OperationContext) (includeFinished : Bool)
  | create (taskId : String) (context : Option OperationContext)
  | assertTabAccess (tabId : String) (context : Option OperationContext)
  | attachTab (taskId tabId : String) (context : Option OperationContext)
  | attachExistingTab (taskId tabId : String)
  | detachTab (tabId : String)
  | acquireForTask (taskId : String) (context : Option OperationContext)
  | acquireForTab (tabId : String) (context : Option OperationContext)
  | release (lease : ℕ)
  | beginFinish (taskId : String) (context : Option OperationContext)
  | completeFinish (taskId : String)
  | beginExpiration (taskId : String)
  | restoreAfterFailedFinalization (taskId : String)
  | markExpired (taskId : String)
  deriving DecidableEq

/-- The context of a call that is given one. -/
def Call.context : Call → Option (Option OperationContext)
  | .accessibleTasks context _ => some context
  | .resolveForOpen _ context _ => some context
  | .resolveScoped _ context _ => some context
  | .create _ context => some context
  | .assertTabAccess _ context => some context
  | .attachTab _ _ context => some context
  | .acquireForTask _ context => some context
  | .acquireForTab _ context => some context
  | .beginFinish _ context => some context
  | _ => none

variable (z : Clock) (now : ℕ)

/-- The tasks that a call returns, those of its lease included. -/
def perform : Call → Op (List BrowserTask)
  | .accessibleTasks context includeTerminal => look (accessibleTasks z · context includeTerminal)
  | .expiredCandidates => look (expiredCandidates z now)
  | .resolveForOpen taskId context created => return [← resolveForOpen z now taskId context created]
  | .resolveScoped taskId context includeFinished =>
    return [← resolveScoped z now taskId context includeFinished]
  | .create taskId context => return [← create z now taskId context]
  | .assertTabAccess tabId context => return [← assertTabAccess z now tabId context]
  | .attachTab taskId tabId context => return [← attachTab z now taskId tabId context]
  | .attachExistingTab taskId tabId => return [← attachExistingTab taskId tabId]
  | .detachTab tabId => do
    detachTab z now tabId
    return []
  | .acquireForTask taskId context => return [(← acquireForTask z now taskId context).1]
  | .acquireForTab tabId context => return [(← acquireForTab z now tabId context).1]
  | .release lease => do
    release z now lease
    return []
  | .beginFinish taskId context => return [← beginFinish z now taskId context]
  | .completeFinish taskId => return [← completeFinish z now taskId]
  | .beginExpiration taskId => return (← beginExpiration z now taskId).toList
  | .restoreAfterFailedFinalization taskId => return (← restoreAfterFailedFinalization z now taskId).toList
  | .markExpired taskId => return [← markExpired z now taskId]

def step (s : State) (input : ℕ × Call) : State := (perform z input.1 input.2).final s

end Calls

end AccessStack.BrowserTasks
