import Mathlib

/-!
# The background task manager

One task of a `BackgroundTaskManager`, cut at its awaits. `persist` appends a
record to the queue of writes of the task, and a write that is done puts its
record into `records` and wakes its writer. `start_background_task` and
`execute` run once; any number of calls read the record, to cancel the task
or only to look at it, and each may find the task without an owner and write
it off as failed.

A task may also be one that an earlier process has left behind. Files are
written without failure.
-/

set_option autoImplicit false

namespace AccessStack.Tasks

inductive BackgroundTaskState where
  | starting | running | succeeded | failed | cancelled
  deriving DecidableEq

/-- `ACTIVE_STATES` -/
def isActive : BackgroundTaskState → Bool
  | .starting | .running => true
  | _ => false

/-- The fields of a record that are not fixed when the task is created. Of its
`result` the exit code and the time-out are kept; its `lifecycle`, which tells
a reader where the task stands, is left out. -/
structure BackgroundTaskRecord where
  state : BackgroundTaskState
  startedAt : Option String
  completedAt : Option String
  pid : Option ℕ
  exitCode : Option ℤ
  timedOut : Bool
  error : Option String
  deriving DecidableEq

def newTask : BackgroundTaskRecord :=
  ⟨.starting, none, none, none, none, false, none⟩

section Records

def runningRecord (record : BackgroundTaskRecord) (now : String) : BackgroundTaskRecord :=
  { record with state := .running, startedAt := some now }

def cancelledRecord (record : BackgroundTaskRecord) (now : String) : BackgroundTaskRecord :=
  { record with state := .cancelled, completedAt := some now }

def completedRecord (record : BackgroundTaskRecord) (exitCode : Option ℤ) (timedOut : Bool)
    (now : String) : BackgroundTaskRecord :=
  { record with
    state := if exitCode = some 0 ∧ timedOut = false then .succeeded else .failed
    completedAt := some now, exitCode, timedOut }

def failedRecord (record : BackgroundTaskRecord) (message now : String) : BackgroundTaskRecord :=
  { record with state := .failed, completedAt := some now, error := some message }

/-- What `refreshRecoveredTask` writes for a task without an owner. -/
def interruptedRecord (record : BackgroundTaskRecord) (now : String) : BackgroundTaskRecord :=
  { record with
    state := .failed
    completedAt := some (record.completedAt.getD now)
    error := some (record.error.getD "Background task was interrupted before Agent recovery.") }

end Records

section Phases

/-- How the runner ends: with a result, with an answer that is no result, or
with an error. -/
inductive Outcome where
  | executed (exitCode : Option ℤ) (timedOut : Bool)
  | unexpected
  | error (message : String)
  deriving DecidableEq

/-- The await `start_background_task` is at. -/
inductive StartPhase where
  | idle | creating | created | over
  deriving DecidableEq

/-- The await `execute` is at. A check of the record waits for the writes
that were queued when it began, takes the record, and goes on with it. -/
inductive ExecutePhase where
  | absent
  | entering
  | entered
  | waiting
  | sanitizing (outcome : Outcome)
  | checking (outcome : Outcome) (pending : ℕ)
  | looked (outcome : Outcome) (latest : Option BackgroundTaskRecord)
  | resulting
  | finishing
  | returning
  | returned
  deriving DecidableEq

/-- The await a reader is at. One that cancels goes on to write. -/
inductive ReaderPhase where
  | idle
  | reading (cancels : Bool) (pending : ℕ)
  | looked (cancels : Bool) (latest : BackgroundTaskRecord)
  | refreshed (latest : BackgroundTaskRecord)
  | recovering
  | cancelling
  | cancelled
  deriving DecidableEq

inductive Writer where
  | start | running | pid | final
  | cancel (n : ℕ)
  | recover (n : ℕ)
  deriving DecidableEq

end Phases

structure Manager where
  stored : Option BackgroundTaskRecord
  queue : List (Writer × BackgroundTaskRecord)
  /-- An entry of `controllers`, and one of `executions`. -/
  controller : Bool
  executing : Bool
  start : StartPhase
  execute : ExecutePhase
  /-- The variable `current` of `execute`. -/
  current : BackgroundTaskRecord
  readers : ℕ → ReaderPhase

/-- A manager with no record of the task, or with one from before. -/
def Manager.initial (found : Option BackgroundTaskRecord) : Manager where
  stored := found
  queue := []
  controller := false
  executing := false
  start := if found = none then .idle else .over
  execute := .absent
  current := newTask
  readers := fun _ => .idle

section Steps

def Manager.persist (m : Manager) (writer : Writer) (record : BackgroundTaskRecord) : Manager :=
  { m with queue := m.queue ++ [(writer, record)] }

def Manager.setReader (m : Manager) (n : ℕ) (phase : ReaderPhase) : Manager :=
  { m with readers := Function.update m.readers n phase }

def wakeReader (writer : Writer) (n : ℕ) : ReaderPhase → ReaderPhase
  | .reading cancels pending => .reading cancels (pending-1)
  | .cancelling => if writer = .cancel n then .cancelled else .cancelling
  | .recovering => if writer = .recover n then .idle else .recovering
  | phase => phase

def wakeExecute (writer : Writer) : ExecutePhase → ExecutePhase
  | .entering => if writer = .running then .entered else .entering
  | .checking outcome pending => .checking outcome (pending-1)
  | .finishing => if writer = .final then .returning else .finishing
  | phase => phase

/-- The first write is done. -/
def drain (m : Manager) : Manager :=
  match m.queue with
  | [] => m
  | (writer, record)::rest =>
    { m with
      stored := some record
      queue := rest
      start := if m.start = .creating ∧ writer = .start then .created else m.start
      execute := wakeExecute writer m.execute
      readers := fun n => wakeReader writer n (m.readers n) }

/-- `execute` goes on from its check. -/
def decideOutcome (m : Manager) (outcome : Outcome) (latest : Option BackgroundTaskRecord)
    (now : String) : Manager :=
  if latest.any (·.state = .cancelled) then { m with execute := .returning }
  else match outcome with
    | .executed exitCode timedOut =>
      { m with current := completedRecord m.current exitCode timedOut now, execute := .resulting }
    | .unexpected =>
      let error := "Background tasks cannot enter an interactive confirmation flow."
      { m with execute := .sanitizing (.error error) }
    | .error message =>
      { m.persist .final (failedRecord m.current message now) with execute := .finishing }

/-- The call of `refreshRecoveredTask` by a reader. -/
def refresh (m : Manager) (n : ℕ) (cancels : Bool) (record : BackgroundTaskRecord) (alive : Bool)
    (now : String) : Manager :=
  if !isActive record.state || m.executing || m.controller || (record.pid.isSome && alive) then
    m.setReader n (if cancels then .refreshed record else .idle)
  else (m.persist (.recover n) (interruptedRecord record now)).setReader n .recovering

inductive Event where
  | create
  | begin (now : String)
  | drain
  | launch
  | pid (pid : ℕ)
  | settle (outcome : Outcome)
  | sanitized (fault : Option String)
  | look
  | decide (now : String)
  | resulted (fault : Option String)
  | leave
  | forget
  | call (n : ℕ) (cancels : Bool)
  | readerLook (n : ℕ)
  | refresh (n : ℕ) (alive : Bool) (now : String)
  | proceed (n : ℕ) (now : String)
  | rejoin (n : ℕ)

/-- The runner has been started. -/
def ExecutePhase.launched : ExecutePhase → Bool
  | .absent | .entering | .entered => false
  | _ => true

/-- One step. An event that is not due leaves the manager as it is. -/
def step (m : Manager) : Event → Manager
  | .create =>
    if m.start = .idle then { m.persist .start newTask with start := .creating } else m
  | .begin now =>
    if m.start = .created then
      { m.persist .running (runningRecord newTask now) with
        start := .over, controller := true, executing := true, execute := .entering
        current := runningRecord newTask now }
    else m
  | .drain => drain m
  | .launch => if m.execute = .entered then { m with execute := .waiting } else m
  | .pid pid =>
    if m.execute.launched then
      { m.persist .pid { m.current with pid := some pid } with
        current := { m.current with pid := some pid } }
    else m
  | .settle outcome =>
    if m.execute = .waiting then { m with execute := .sanitizing outcome } else m
  | .sanitized fault =>
    match m.execute, fault with
    | .sanitizing outcome, none => { m with execute := .checking outcome m.queue.length }
    | .sanitizing (.error _), some _ => { m with execute := .returning }
    | .sanitizing _, some message => { m with execute := .sanitizing (.error message) }
    | _, _ => m
  | .look =>
    match m.execute with
    | .checking outcome 0 => { m with execute := .looked outcome m.stored }
    | _ => m
  | .decide now =>
    match m.execute with
    | .looked outcome latest => decideOutcome m outcome latest now
    | _ => m
  | .resulted fault =>
    match m.execute, fault with
    | .resulting, none => { m.persist .final m.current with execute := .finishing }
    | .resulting, some message => { m with execute := .sanitizing (.error message) }
    | _, _ => m
  | .leave =>
    if m.execute = .returning then { m with execute := .returned, controller := false } else m
  | .forget => if m.execute = .returned then { m with executing := false } else m
  | .call n cancels =>
    if m.readers n = .idle then m.setReader n (.reading cancels m.queue.length) else m
  | .readerLook n =>
    match m.readers n, m.stored with
    | .reading cancels 0, some record => m.setReader n (.looked cancels record)
    | .reading _ 0, none => m.setReader n .idle
    | _, _ => m
  | .refresh n alive now =>
    match m.readers n with
    | .looked cancels record => Tasks.refresh m n cancels record alive now
    | _ => m
  | .proceed n now =>
    match m.readers n with
    | .refreshed record =>
      if isActive record.state then
        (m.persist (.cancel n) (cancelledRecord record now)).setReader n .cancelling
      else m.setReader n .idle
    | _ => m
  | .rejoin n =>
    if m.readers n = .cancelled ∧ (m.controller = false ∨ m.executing = false) then
      m.setReader n (.reading false m.queue.length)
    else m

def run (m : Manager) (events : List Event) : Manager := events.foldl step m

end Steps

end AccessStack.Tasks
