import AccessStack.Interleaving
import AccessStack.Json

/-!
# The lock of the companion instance

`acquireCompanionInstanceLock` and the `release` of its lease as routines of
file operations. A file that has been created is empty until it is written,
and what is written to a file that is gone is seen by nobody. Whose a file is,
who has taken the lock and from whom is the model's own.
-/

set_option autoImplicit false

namespace AccessStack.InstanceLock
open AccessStack.Runs AccessStack.JsonText

section Records

structure CompanionInstanceRecord where
  instanceId : String
  pid : ℤ
  releaseRoot : String
  startedAt : String
  deriving DecidableEq

def CompanionInstanceRecord.toJson (r : CompanionInstanceRecord) : Json :=
  .obj [("version", .num 1), ("instanceId", .str r.instanceId), ("pid", .num r.pid),
    ("releaseRoot", .str r.releaseRoot), ("startedAt", .str r.startedAt)]

def CompanionInstanceRecord.text (r : CompanionInstanceRecord) : String :=
  String.ofList (chars r.toJson ++ ['\n'])

/-- What `readCompanionInstanceRecord` makes of a text. -/
def readRecord (raw : String) : Option CompanionInstanceRecord :=
  match parse raw with
  | some (.obj fields) =>
    match field fields "version", field fields "instanceId", field fields "pid", field fields "releaseRoot",
      field fields "startedAt" with
    | some (.num version), some (.str instanceId), some (.num pid), some (.str releaseRoot),
        some (.str startedAt) =>
      if version = 1 && !instanceId.isEmpty && 0 <
        pid then some ⟨instanceId, pid, releaseRoot, startedAt⟩ else none
    | _, _, _, _, _ => none
  | _ => none

theorem readRecord_text (r : CompanionInstanceRecord) :
    readRecord r.text = if !r.instanceId.isEmpty && 0 < r.pid then some r else none := by
  have hparse : parse r.text = some r.toJson := parse_written r.toJson ['\n'] (by simp [isBlank])
  unfold readRecord
  rw [hparse]
  simp [CompanionInstanceRecord.toJson, field]

end Records

section Files

/-- An instance id by its number, and its process. -/
structure Instance where
  number : ℕ
  pid : ℤ
  deriving DecidableEq

structure File where
  owner : Instance
  text : String
  deriving DecidableEq

structure Shared where
  lock : Option File
  /-- By instance id. -/
  handoverFiles : String → Option String
  dead : List ℤ
  /-- Which call has drawn an instance id. -/
  drawers : List ℕ
  /-- Whose lock file a call has read last. -/
  seen : ℕ → Option ℕ
  takers : List Instance
  leases : List Instance
  /-- From whom to whom. -/
  handovers : List (ℕ × ℕ)
  released : List ℕ
  /-- An operation of whose call has thrown. -/
  failed : List ℕ

def Shared.initial : Shared := ⟨none, fun _ => none, [], [], fun _ => none, [], [], [], [], []⟩

structure Host where
  fails : Bool
  now : String

inductive Op where
  | randomUUID
  | mkdir
  | now
  | openLock (i : Instance)
  | writeLock (number : ℕ) (text : String)
  | sync
  | close
  | read
  | delay
  | processAlive (pid : ℤ)
  | writeHandover (instanceId text : String)
  | rename (i : Instance) (handoverFromInstanceId : String)
  | removeHandover (instanceId : String)
  | removeStale
  | createLease (i : Instance)
  | removeOwn (lease : ℕ)
  | settle (lease : ℕ)
  deriving DecidableEq

/-- `openLock` says whether there was no file. -/
def Answer : Op → Type
  | .randomUUID => ℕ
  | .now => String
  | .openLock _ | .processAlive _ => Bool
  | .read => Option CompanionInstanceRecord
  | .mkdir | .writeLock _ _ | .sync | .close | .delay | .writeHandover _ _ | .rename _ _ | .removeHandover _
  | .removeStale | .createLease _ | .removeOwn _ | .settle _ => Unit

/-- The file system may refuse. -/
def Op.fallible : Op → Bool
  | .randomUUID | .now | .delay | .processAlive _ | .createLease _ | .settle _ => false
  | .mkdir | .openLock _ | .writeLock _ _ | .sync | .close | .read | .writeHandover _ _ | .rename _ _
  | .removeHandover _ | .removeStale | .removeOwn _ => true

/-- `randomUUID` never draws an id again. -/
structure Env where
  uuid : ℕ → String

variable (env : Env)

def Shared.write (s : Shared) (number : ℕ) (text : String) : Shared :=
  match s.lock with
  | none => s
  | some f => if f.owner.number = number then { s with lock := some { f with text } } else s

def Shared.create (s : Shared) (i : Instance) : Shared :=
  { s with lock := some ⟨i, ""⟩, takers := s.takers ++ [i] }

/-- The instances that the new owner of the lock takes it from. -/
def Shared.handing (s : Shared) (number : ℕ) (handoverFromInstanceId : String) : List (ℕ × ℕ) :=
  match s.lock with
  | none => []
  | some f => if env.uuid f.owner.number = handoverFromInstanceId then [(f.owner.number, number)] else []

def Shared.rename (s : Shared) (i : Instance) (handoverFromInstanceId text : String) : Shared :=
  { s with
    lock := some ⟨i, text⟩
    handoverFiles := Function.update s.handoverFiles (env.uuid i.number) none
    takers := s.takers ++ [i]
    handovers := s.handovers ++ s.handing env i.number handoverFromInstanceId }

/-- The ids that a call has drawn. -/
def Shared.drawn (s : Shared) (party : ℕ) : List ℕ :=
  (List.range s.drawers.length).filter fun number => s.drawers[number]? = some party

def perform (party : ℕ) : (e : Op) → Shared → Host → Shared × Option (Answer e)
  | .randomUUID, s, _ => ({ s with drawers := s.drawers ++ [party] }, some s.drawers.length)
  | .mkdir, s, _ => (s, some ())
  | .now, s, host => (s, some host.now)
  | .openLock i, s, _ => if s.lock.isSome then (s, some false) else (s.create i, some true)
  | .writeLock number text, s, _ => (s.write number text, some ())
  | .sync, s, _ => (s, some ())
  | .close, s, _ => (s, some ())
  | .read, s, _ =>
    ({ s with seen := Function.update s.seen party (s.lock.map (·.owner.number)) },
      some (s.lock.bind fun f => readRecord f.text))
  | .delay, s, _ => (s, some ())
  | .processAlive pid, s, _ => (s, some (decide (pid ∉ s.dead)))
  | .writeHandover instanceId text, s, _ =>
    if (s.handoverFiles instanceId).isSome then (s, none)
    else ({ s with handoverFiles := Function.update s.handoverFiles instanceId (some text) }, some ())
  | .rename i handoverFromInstanceId, s, _ =>
    match s.handoverFiles (env.uuid i.number) with
    | none => (s, none)
    | some text => (s.rename env i handoverFromInstanceId text, some ())
  | .removeHandover instanceId, s, _ =>
    ({ s with handoverFiles := Function.update s.handoverFiles instanceId none }, some ())
  | .removeStale, s, _ => ({ s with lock := none }, some ())
  | .createLease i, s, _ => ({ s with leases := s.leases ++ [i] }, some ())
  | .removeOwn lease, s, _ => ({ s with lock := none, released := lease::s.released }, some ())
  | .settle lease, s, _ => ({ s with released := lease::s.released }, some ())

def effect (party : ℕ) (e : Op) (s : Shared) (host : Host) : Shared × Option (Answer e) :=
  if host.fails &&
    e.fallible then ({ s with failed := s.drawn party ++ s.failed }, none) else perform env party e s host

end Files

section Calls

inductive Failure where
  | app (code message : String)
  | thrown
  deriving DecidableEq

structure CompanionInstanceLockOptions where
  releaseRoot : String
  pid : ℤ
  handoverFromInstanceId : Option String
  deriving DecidableEq

/-- A lease is released in the process that has it. -/
inductive Input where
  | acquire (options : CompanionInstanceLockOptions)
  | release (lease : Instance)
  deriving DecidableEq

def Input.pid : Input → ℤ
  | .acquire options => options.pid
  | .release lease => lease.pid

abbrev Locking (α : Type) := Routine (fun e => Option (Answer e)) Failure α

def fail {α : Type} (x : Failure) : Locking α := .fail x

def call (e : Op) : Locking (Answer e) :=
  .act e fun
    | some answer => .ret answer
    | none => .fail .thrown

def alreadyActive (pid : ℤ) : Failure :=
  .app "AGENT_BUSY" ("Another MCP V3 local companion instance is already active. pid=" ++ toString pid)

def notAcquired : Failure :=
  .app "AGENT_BUSY" "MCP V3 local companion could not acquire its single-instance lock."

/-- `finally` -/
def closing {α : Type} (p : Locking α) (e : Op) : Locking α :=
  p.ensuing fun outcome => do
    let _ ← call e
    match outcome with
    | .ok a => pure a
    | .error x => fail x

def writeRecord (number : ℕ) (record : CompanionInstanceRecord) : Locking Unit := do
  let _ ← call (.writeLock number record.text)
  let _ ← call .sync
  pure ()

/-- Whether the lock has been handed over. -/
def takeOver (i : Instance) (record : CompanionInstanceRecord) (handoverFromInstanceId : String) :
    Locking Bool := do
  let _ ← call (.writeHandover record.instanceId record.text)
  closing (do
    let current : Option CompanionInstanceRecord ← call .read
    if current.map (·.instanceId) = some handoverFromInstanceId then do
      let _ ← call (.rename i handoverFromInstanceId)
      pure true
    else pure false) (.removeHandover record.instanceId)

def readExisting : Locking (Option CompanionInstanceRecord) := do
  let existing : Option CompanionInstanceRecord ← call .read
  match existing with
  | some record => pure (some record)
  | none => do
    let _ ← call .delay
    call .read

/-- The record of the lock when its process is alive. -/
def readActive : Locking (Option CompanionInstanceRecord) := do
  match ← readExisting with
  | none => pure none
  | some existing => do
    let alive : Bool ← call (.processAlive existing.pid)
    pure (if alive then some existing else none)

def createLease (i : Instance) : Locking Unit := do
  let _ ← call (.createLease i)
  pure ()

variable (env : Env)

def attempts (options : CompanionInstanceLockOptions) (number : ℕ) : ℕ → Locking Unit
  | 0 => fail notAcquired
  | n+1 => do
    let startedAt : String ← call .now
    let record : CompanionInstanceRecord := ⟨env.uuid number, options.pid, options.releaseRoot, startedAt⟩
    let created : Bool ← call (.openLock ⟨number, options.pid⟩)
    if created then do
      closing (writeRecord number record) .close
      createLease ⟨number, options.pid⟩
    else do
      match ← readActive with
      | none => do
        let _ ← call .removeStale
        attempts options number n
      | some existing =>
        if options.handoverFromInstanceId = some existing.instanceId then do
          let taken ← takeOver ⟨number, options.pid⟩ record existing.instanceId
          if taken then createLease ⟨number, options.pid⟩ else attempts options number n
        else fail (alreadyActive existing.pid)

def acquireCompanionInstanceLock (options : CompanionInstanceLockOptions) : Locking Unit := do
  let number : ℕ ← call .randomUUID
  let _ ← call .mkdir
  attempts env options number 3

def release (lease : Instance) : Locking Unit := do
  let current : Option CompanionInstanceRecord ← call .read
  if current.map (·.instanceId) = some (env.uuid lease.number) then do
    let _ ← call (.removeOwn lease.number)
    pure ()
  else do
    let _ ← call (.settle lease.number)
    pure ()

def routine : Input → Locking Unit
  | .acquire options => acquireCompanionInstanceLock env options
  | .release lease => release env lease

/-- A process dies. -/
structure Death where
  pid : ℤ
  deriving DecidableEq

def machine : Machine Op Shared Host Death Input Failure Unit (fun e => Option (Answer e)) where
  routine := routine env
  effect := effect env
  change := fun s death => { s with dead := death.pid::s.dead }

abbrev State := Together Shared Input (fun e => Option (Answer e)) Failure Unit

end Calls

end AccessStack.InstanceLock
