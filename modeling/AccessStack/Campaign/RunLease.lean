import AccessStack.Json
import AccessStack.Text

/-!
# The campaign run lease

`CampaignRunLease.run` as a program of single file operations on one lock
file. Any number of calls, each inside some process of one host, take their
operations in any order, read any clock and may stop for good when their
process dies. A heartbeat writes a private file and renames it over the lock
file; a recovery holds a second file, the guard, while it deletes the lock
file of a dead process and creates its own.

A file that is created by `open(file, "wx")` is empty until it is written
through its handle, and the handle keeps writing to the same file even when
the path has been given to another: `inode` tells the two apart.
-/

set_option autoImplicit false

namespace AccessStack.RunLease
open AccessStack.Text AccessStack.JsonText

structure RunLeaseRecord where
  ownerId : String
  hostname : String
  pid : ℤ
  issuedAt : ℤ
  renewedAt : ℤ
  expiresAt : ℤ
  deriving DecidableEq

def RunLeaseRecord.toJson (r : RunLeaseRecord) : Json :=
  .obj [("version", .num 1), ("ownerId", .str r.ownerId), ("hostname", .str r.hostname),
    ("pid", .num r.pid), ("issuedAt", .num r.issuedAt), ("renewedAt", .num r.renewedAt),
    ("expiresAt", .num r.expiresAt)]

def RunLeaseRecord.text (r : RunLeaseRecord) : String := stringify r.toJson

def RunLeaseRecord.valid (r : RunLeaseRecord) : Bool :=
  isVersionedUuid r.ownerId && decide (0 < utf16Length r.hostname) &&
    decide (utf16Length r.hostname ≤ 256) && isSafeInteger r.pid && decide (0 < r.pid) &&
    isSafeInteger r.issuedAt && isSafeInteger r.renewedAt && isSafeInteger r.expiresAt &&
    decide (0 < r.issuedAt) && decide (r.issuedAt ≤ r.renewedAt) && decide (r.renewedAt < r.expiresAt)

/-- `readLease`: `none` stands for the error of `locked()`. -/
def readLease (text : String) : Option RunLeaseRecord :=
  match parse text with
  | some (.obj fields) =>
    match field fields "version", field fields "ownerId", field fields "hostname",
      field fields "pid", field fields "issuedAt", field fields "renewedAt",
      field fields "expiresAt" with
    | some (.num version), some (.str ownerId), some (.str hostname), some (.num pid),
      some (.num issuedAt), some (.num renewedAt), some (.num expiresAt) =>
      let r : RunLeaseRecord := ⟨ownerId, hostname, pid, issuedAt, renewedAt, expiresAt⟩
      if version = 1 && r.valid then some r else none
    | _, _, _, _, _, _, _ => none
  | _ => none

theorem readLease_text (r : RunLeaseRecord) :
    readLease r.text = if r.valid then some r else none := by
  have hparse : parse r.text = some r.toJson := parse_stringify r.toJson
  unfold readLease
  rw [hparse]
  simp [RunLeaseRecord.toJson, field]

theorem text_injective {r x : RunLeaseRecord} (h : r.text = x.text) : r = x := by
  have hjson : r.toJson = x.toJson := stringify_injective h
  cases r
  cases x
  simpa [RunLeaseRecord.toJson] using hjson

theorem text_ne_empty (r : RunLeaseRecord) : r.text ≠ "" := by
  intro h
  have hchars : (chars r.toJson) = [] := by
    simpa [RunLeaseRecord.text, stringify] using congrArg String.toList h
  simp [RunLeaseRecord.toJson, chars] at hchars

theorem readLease_empty : readLease "" = none := by decide

theorem readLease_own {r x : RunLeaseRecord} (h : readLease r.text = some x) : x = r := by
  rw [readLease_text] at h
  split at h
  · exact (Option.some.inj h).symm
  · cases h

/-- The intervals and the owner the constructor accepts. -/
structure CampaignRunLease where
  leaseMs : ℤ
  heartbeatMs : ℤ
  hostname : String
  pid : ℤ
  interval : 1000 ≤ leaseMs ∧ 100 ≤ heartbeatMs ∧ heartbeatMs*2 < leaseMs
  owner : hostname ≠ "" ∧ 0 < pid

section Program

variable (Process Caller : Type)

/-- The calls of `run` on one lock file. Each has drawn its own identifier
and belongs to a process of the one host. -/
structure Deployment where
  hostname : String
  pid : Process → ℤ
  process : Caller → Process
  lease : Caller → CampaignRunLease
  ownerId : Caller → String
  lease_hostname : ∀ c, (lease c).hostname = hostname
  lease_pid : ∀ c, (lease c).pid = pid (process c)
  ownerId_injective : Function.Injective ownerId

structure LockFile where
  inode : ℕ
  text : String
  deriving DecidableEq

/-- The next file operation of a call of `run`. -/
inductive Stage where
  | idle
  | creating (record : RunLeaseRecord)
  | writing (record : RunLeaseRecord) (handle : ℕ)
  | guarding (record : RunLeaseRecord)
  | reading (record : RunLeaseRecord)
  | judging (record state : RunLeaseRecord)
  | removing (record : RunLeaseRecord)
  | recreating (record : RunLeaseRecord)
  | rewriting (record : RunLeaseRecord) (handle : ℕ)
  | unguarding (acquired : Bool)
  | running
  | ending
  | releasing
  | done
  deriving DecidableEq

/-- The next file operation of the renewal in progress. -/
inductive Beat where
  | waiting
  | checking (prior : RunLeaseRecord)
  | preparing (next : RunLeaseRecord)
  | renaming (next : RunLeaseRecord)
  deriving DecidableEq

/-- The promise chain `outstanding`: `queued` renewals have not settled, and
`failed` is `heartbeatError`. -/
structure Heartbeat where
  queued : ℕ
  beat : Beat
  failed : Bool
  deriving DecidableEq

structure System where
  known : List Process
  live : List Process
  lease : Option LockFile
  guard : Bool
  inodes : ℕ
  stage : Caller → Stage
  heart : Caller → Heartbeat

end Program

inductive FileOp where
  | none
  | create
  | write (handle : ℕ) (text : String)
  | remove
  | install (text : String)
  | lock
  | unlock
  deriving DecidableEq

section Semantics

variable {Process Caller : Type} [DecidableEq Process] [DecidableEq Caller]

def initial : System Process Caller where
  known := []
  live := []
  lease := none
  guard := false
  inodes := 0
  stage _ := .idle
  heart _ := ⟨0, .waiting, false⟩

variable (d : Deployment Process Caller) (s : System Process Caller)

def System.read : Option RunLeaseRecord := s.lease.bind fun f => readLease f.text

def isProcessAlive (pid : ℤ) : Bool := s.live.any fun p => d.pid p == pid

def Live (c : Caller) : Prop := d.process c ∈ s.live

instance (c : Caller) : Decidable (Live d s c) := by unfold Live; infer_instance

def newRecord (c : Caller) (now : ℤ) : RunLeaseRecord where
  ownerId := d.ownerId c
  hostname := (d.lease c).hostname
  pid := (d.lease c).pid
  issuedAt := now
  renewedAt := now
  expiresAt := now + (d.lease c).leaseMs

/-- What `tryRecover` asks of the lease it has read. -/
def recoverable (c : Caller) (now : ℤ) (state : RunLeaseRecord) : Bool :=
  state.hostname == (d.lease c).hostname && decide (state.expiresAt < now) &&
    !isProcessAlive d s state.pid

/-- The next operation of the call itself; `none` while it has to wait for
its renewals and after its end. -/
def mainMove (now : ℤ) (c : Caller) : Option (FileOp × Stage) :=
  match s.stage c with
  | .idle => some (.none, .creating (newRecord d c now))
  | .creating r => if s.lease.isSome then some (.none, .guarding r)
    else some (.create, .writing r s.inodes)
  | .writing r h => some (.write h r.text, .running)
  | .guarding r => if s.guard then some (.none, .done) else some (.lock, .reading r)
  | .reading r =>
    match s.read with
    | some state => some (.none, .judging r state)
    | none => some (.none, .unguarding false)
  | .judging r state => if recoverable d s c now state then some (.none, .removing r)
    else some (.none, .unguarding false)
  | .removing r => if s.lease.isSome then some (.remove, .recreating r)
    else some (.none, .unguarding false)
  | .recreating r => if s.lease.isSome then some (.none, .unguarding false)
    else some (.create, .rewriting r s.inodes)
  | .rewriting r h => some (.write h r.text, .unguarding true)
  | .unguarding acquired => some (.unlock, if acquired && s.guard then .running else .done)
  | .running => some (.none, .ending)
  | .ending =>
    if (s.heart c).queued = 0 then
      match s.read with
      | some owner => some (.none, if owner.ownerId = d.ownerId c then .releasing else .done)
      | none => some (.none, .done)
    else none
  | .releasing => if s.lease.isSome then some (.remove, .done) else some (.none, .done)
  | .done => none

def renewable (c : Caller) (now : ℤ) (prior : RunLeaseRecord) : Bool :=
  prior.ownerId == d.ownerId c && prior.hostname == (d.lease c).hostname &&
    prior.pid == (d.lease c).pid && decide (prior.renewedAt ≤ now) && decide (now ≤ prior.expiresAt)

def Heartbeat.fails (b : Heartbeat) : Heartbeat := ⟨b.queued-1, .waiting, true⟩

def beatMove (now : ℤ) (c : Caller) : Option (FileOp × Heartbeat) :=
  let b := s.heart c
  if b.queued = 0 then none
  else match b.beat with
    | .waiting =>
      match s.read with
      | some prior => some (.none, { b with beat := .checking prior })
      | none => some (.none, b.fails)
    | .checking prior =>
      if renewable d c now prior then
        some (.none, { b with beat := .preparing { prior with
          renewedAt := now, expiresAt := now + (d.lease c).leaseMs } })
      else some (.none, b.fails)
    | .preparing next => some (.none, { b with beat := .renaming next })
    | .renaming next => some (.install next.text, { b with queued := b.queued-1, beat := .waiting })

def LockFile.write (handle : ℕ) (text : String) (f : LockFile) : LockFile :=
  if f.inode = handle then { f with text } else f

def System.apply : FileOp → System Process Caller
  | .none => s
  | .create => { s with lease := some ⟨s.inodes, ""⟩, inodes := s.inodes+1 }
  | .write h text => { s with lease := s.lease.map (LockFile.write h text) }
  | .remove => { s with lease := none }
  | .install text => { s with lease := some ⟨s.inodes, text⟩, inodes := s.inodes+1 }
  | .lock => { s with guard := true }
  | .unlock => { s with guard := false }

def System.setStage (c : Caller) (stage : Stage) : System Process Caller :=
  { s with stage := Function.update s.stage c stage }

def System.setHeart (c : Caller) (b : Heartbeat) : System Process Caller :=
  { s with heart := Function.update s.heart c b }

/-- A clock value comes with every operation that may read it. -/
inductive Action (Process Caller : Type) where
  | spawn (p : Process)
  | crash (p : Process)
  | main (c : Caller) (now : ℤ)
  | tick (c : Caller)
  | beat (c : Caller) (now : ℤ)
  deriving DecidableEq

def Action.caller : Action Process Caller → Option Caller
  | .main c _ | .tick c | .beat c _ => some c
  | _ => none

/-- A process identifier is not given to a new process while a live process
or the lock file has it. -/
def pidFree (pid : ℤ) : Bool :=
  !isProcessAlive d s pid && (s.read.all fun state => state.pid != pid)

def step : Action Process Caller → Option (System Process Caller)
  | .spawn p =>
    if p ∉ s.known ∧ pidFree d s (d.pid p) then
      some { s with known := p::s.known, live := p::s.live }
    else none
  | .crash p => some { s with live := s.live.filter (· ≠ p) }
  | .main c now =>
    if Live d s c then
      (mainMove d s now c).map fun m => (s.apply m.1).setStage c m.2
    else none
  | .tick c =>
    if Live d s c ∧ s.stage c = .running ∧ (s.heart c).failed = false then
      some (s.setHeart c { s.heart c with queued := (s.heart c).queued+1 })
    else none
  | .beat c now =>
    if Live d s c then
      (beatMove d s now c).map fun m => (s.apply m.1).setHeart c m.2
    else none

def exec : System Process Caller → List (Action Process Caller) → Option (System Process Caller)
  | s, [] => some s
  | s, a::rest => (step d s a).bind fun s' => exec s' rest

end Semantics

end AccessStack.RunLease
