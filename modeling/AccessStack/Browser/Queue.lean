import AccessStack.Runs

/-!
# The operation queue of the browser worker

`BrowserOperationQueue`: a chain of promises for each key, a counter of slots
and a list of those who wait for one. A step is a piece of `run` between two
awaits, an abort, or a promise that settles; the pieces that are ready run in
any order.
-/

set_option autoImplicit false

namespace AccessStack.BrowserQueue
open AccessStack.Runs

section Machine

/-- Where a call of `run` is. -/
inductive Phase where
  /-- `waitForTurn` waits for the call before. -/
  | queued
  /-- An await has been rejected, and the `catch` has not run. -/
  | rejected
  /-- The turn has come, and `acquireSlot` has not been called. -/
  | granted
  /-- The call is one of `slotWaiters`. -/
  | waiting
  /-- `resume` has been called, and the loop has not gone on. -/
  | resumed
  /-- The slot is held, and `run` has not gone on. -/
  | admitted
  | running
  | refused
  | finished
  deriving DecidableEq

structure Call where
  key : String
  /-- The call whose `current` is awaited; none is a promise that has resolved. -/
  previous : Option ℕ
  hasSignal : Bool
  aborted : Bool
  phase : Phase
  slotsReturned : ℕ
  turnsReturned : ℕ
  /-- `current` has settled. -/
  settled : Bool
  /-- `cleanupTail` waits for `current`. -/
  cleaning : Bool
  deriving DecidableEq

structure State where
  calls : List Call
  tails : String → Option ℕ
  slotWaiters : List ℕ
  active : ℕ
  queued : ℕ

def State.initial : State := ⟨[], fun _ => none, [], 0, 0⟩

inductive Input where
  /-- A signal is given or not, and has been aborted or not. -/
  | run (key : String) (signal : Option Bool)
  | abort (call : ℕ)
  /-- The promise that `waitForTurn` waits for has settled. -/
  | grant (call : ℕ)
  /-- The loop of `acquireSlot` tests whether a slot is free. -/
  | enter (call : ℕ)
  /-- The `catch` of `run`. -/
  | leave (call : ℕ)
  /-- The call goes on with its slot; its wait was too long or not. -/
  | start (call : ℕ) (expired : Bool)
  /-- The task has succeeded or failed, and `finally` runs. -/
  | finish (call : ℕ)
  | settle (call : ℕ)
  | forget (call : ℕ)
  deriving DecidableEq

variable (maxConcurrency : ℕ)

def State.put (s : State) (call : ℕ) (c : Call) : State := { s with calls := s.calls.set call c }

/-- `release` of the turn, and `cleanupTail`. -/
def returnTurn (s : State) (call : ℕ) (c : Call) (phase : Phase) : State :=
  s.put call { c with phase, turnsReturned := c.turnsReturned+1, cleaning := s.tails c.key = some call }

/-- `this.slotWaiters.shift()?.()` -/
def wakeNext (s : State) : State :=
  match s.slotWaiters with
  | [] => s
  | next::rest =>
    match s.calls[next]? with
    | none => { s with slotWaiters := rest }
    | some c => { s with slotWaiters := rest, calls := s.calls.set next { c with phase := .resumed } }

/-- `finally`: the slot, then the turn. The call that holds a slot is not the
one that is woken. -/
def conclude (s : State) (call : ℕ) (c : Call) : State :=
  wakeNext { returnTurn s call { c with slotsReturned := c.slotsReturned+1 } .finished with
             active := s.active - 1 }

def acquireSlot (s : State) (call : ℕ) (c : Call) : State :=
  if maxConcurrency ≤ s.active then
    if c.aborted then s.put call { c with phase := .rejected }
    else { s.put call { c with phase := .waiting } with slotWaiters := s.slotWaiters ++ [call] }
  else { s.put call { c with phase := .admitted } with active := s.active+1 }

def abortCall (s : State) (call : ℕ) (c : Call) : State :=
  match c.phase with
  | .queued => s.put call { c with aborted := true, phase := .rejected }
  | .waiting =>
    { s.put call { c with aborted := true, phase := .rejected } with
      slotWaiters := s.slotWaiters.filter (· ≠ call) }
  | _ => s.put call { c with aborted := true }

def enqueue (s : State) (key : String) (signal : Option Bool) : State where
  calls := s.calls ++
    [{ key, previous := s.tails key, hasSignal := signal.isSome, aborted := signal = some true
       phase := if signal = some true then .rejected else .queued
       slotsReturned := 0, turnsReturned := 0, settled := false, cleaning := false }]
  tails := Function.update s.tails key (some s.calls.length)
  slotWaiters := s.slotWaiters
  active := s.active
  queued := s.queued+1

def onCall (s : State) (call : ℕ) (f : Call → State) : State :=
  match s.calls[call]? with
  | none => s
  | some c => f c

def step (s : State) : Input → State
  | .run key signal => enqueue s key signal
  | .abort call => onCall s call fun c => abortCall s call c
  | .grant call => onCall s call fun c => s.put call { c with phase := .granted }
  | .enter call => onCall s call fun c => acquireSlot maxConcurrency s call c
  | .leave call => onCall s call fun c => { returnTurn s call c .refused with queued := s.queued - 1 }
  | .start call expired => onCall s call fun c =>
    if c.aborted || expired then conclude { s with queued := s.queued - 1 } call c
    else { s.put call { c with phase := .running } with queued := s.queued - 1 }
  | .finish call => onCall s call fun c => conclude s call c
  | .settle call => onCall s call fun c => s.put call { c with settled := true }
  | .forget call => onCall s call fun c =>
    { s with tails := if s.tails c.key = some call then Function.update s.tails c.key none else s.tails }

def previousSettled (s : State) (c : Call) : Bool :=
  c.previous.all fun call => (s.calls[call]?).any (·.settled)

/-- What is ready to happen. -/
def isReady (s : State) (c : Call) : Input → Bool
  | .run _ _ => true
  | .abort _ => c.hasSignal && !c.aborted
  | .grant _ => c.phase = .queued && previousSettled s c
  | .enter _ => c.phase = .granted || c.phase = .resumed
  | .leave _ => c.phase = .rejected
  | .start _ _ => c.phase = .admitted
  | .finish _ => c.phase = .running
  | .settle _ => 0 < c.turnsReturned && previousSettled s c && !c.settled
  | .forget _ => c.cleaning && c.settled

def Input.call : Input → Option ℕ
  | .run _ _ => none
  | .abort call => some call
  | .grant call => some call
  | .enter call => some call
  | .leave call => some call
  | .start call _ => some call
  | .finish call => some call
  | .settle call => some call
  | .forget call => some call

/-- The input is about a call that is ready for it. -/
def Ready (s : State) (input : Input) : Prop :=
  (input.call).all (fun call => (s.calls[call]?).any fun c => isReady s c input) = true

instance (s : State) (input : Input) : Decidable (Ready s input) := inferInstanceAs (Decidable (_ = true))

abbrev Reached (s : State) : Prop := Reaches (step maxConcurrency) Ready .initial s

end Machine

end AccessStack.BrowserQueue
