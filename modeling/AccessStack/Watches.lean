import AccessStack.Runs
import AccessStack.Text

/-!
# Watches of commit checks

One watch of a `GitHubCommitChecksWatchManager`, cut at its awaits, from the
moment its first record is stored. Every call of `pollOnce` and every
`expireOverdueWatches` of a start, get or wait is a thread of its own. An
expiry takes its list of overdue records before it waits for the watches
ahead of this one. A write may fail, and may lose the file as it fails.

Texts of errors are the redacted ones, times are in milliseconds.
-/

set_option autoImplicit false

namespace AccessStack.Watches
open AccessStack.Runs AccessStack.Text

section Records

inductive WatchState where
  | watching | passed | failed | timedOut | error
  deriving DecidableEq

inductive ErrorCode where
  | agentUnavailable | agentTimeout | relayProtocolError | executionStateInvalid | internalError
  | other (name : String)
  deriving DecidableEq

structure CommitChecks where
  truncated : Bool
  allCompleted : Bool
  passed : Bool
  /-- The result fits its schema and the target of the watch. -/
  wellFormed : Bool
  checks : List String
  deriving DecidableEq

structure WatchError where
  code : ErrorCode
  message : String
  deriving DecidableEq

/-- The fields of a record that are not fixed when the watch is created. -/
structure WatchRecord where
  state : WatchState
  updatedAt : ℕ
  completedAt : Option ℕ
  pollCount : ℕ
  lastChecks : Option CommitChecks
  lastError : Option WatchError
  deriving DecidableEq

def newWatch (createdAt : ℕ) : WatchRecord := ⟨.watching, createdAt, none, 0, none, none⟩

def isTerminal (record : WatchRecord) : Bool := record.state ≠ .watching

def isTransientPollError : ErrorCode → Bool
  | .agentUnavailable | .agentTimeout | .relayProtocolError => true
  | _ => false

/-- `validatePersistedRecord` -/
def validRecord (record : WatchRecord) : Bool :=
  isTerminal record == record.completedAt.isSome &&
    record.lastChecks.all (·.wellFormed) &&
    record.lastError.all (fun e => 1 ≤ utf16Length e.message && utf16Length e.message ≤ 2000) &&
    (record.state ≠ .error || record.lastError.isSome)

/-- What `complete` writes. -/
def completeRecord (record : WatchRecord) (state : WatchState) (checks : CommitChecks) (updatedAt : ℕ) :
    WatchRecord :=
  { record with
    state, updatedAt, completedAt := some updatedAt, pollCount := record.pollCount+1
    lastChecks := some checks, lastError := none }

/-- What `completeTimedOut` writes, without and with an update. -/
def timedOutRecord (record : WatchRecord) (updatedAt : ℕ) : WatchRecord :=
  { record with state := .timedOut, updatedAt, completedAt := some updatedAt }

def timedOutWith (record : WatchRecord) (checks : CommitChecks) (updatedAt : ℕ) : WatchRecord :=
  { timedOutRecord record updatedAt with pollCount := record.pollCount+1, lastChecks := some checks }

/-- What `completeError` writes. -/
def errorRecord (record : WatchRecord) (error : WatchError) (checks : Option CommitChecks) (updatedAt : ℕ) :
    WatchRecord :=
  { record with
    state := .error, updatedAt, completedAt := some updatedAt, pollCount := record.pollCount+1
    lastChecks := checks.or record.lastChecks, lastError := some error }

def progressRecord (record : WatchRecord) (checks : CommitChecks) (updatedAt : ℕ) : WatchRecord :=
  { record with updatedAt, pollCount := record.pollCount+1, lastChecks := some checks, lastError := none }

def transientRecord (record : WatchRecord) (error : WatchError) (updatedAt : ℕ) : WatchRecord :=
  { record with updatedAt, pollCount := record.pollCount+1, lastError := some error }

def truncatedError : WatchError :=
  ⟨.executionStateInvalid,
    "GitHub commit-check watch cannot determine aggregate state because more than 100 check-runs exist."⟩

def unexpectedError : WatchError := ⟨.internalError, "Unexpected internal error."⟩

end Records

section Machine

/-- Who waits for a write. A poll keeps its record where a failure of the
write is caught. -/
inductive Caller where
  | expire
  | poll (retried : Option WatchRecord)
  deriving DecidableEq

/-- The await a thread is at. -/
inductive Phase where
  | fetching (record : WatchRecord)
  | overdue (record : WatchRecord)
  | writing (caller : Caller) (record : WatchRecord)
  | written (caller : Caller) (record : WatchRecord)
  | caught (record : WatchRecord)
  | finished (caller : Caller) (state : WatchState)
  | gone
  deriving DecidableEq

structure Watch where
  deadlineAt : ℕ
  /-- The entry of `records`, and the file. -/
  record : WatchRecord
  file : Option WatchRecord
  polling : Bool
  queue : List (ℕ × WatchRecord)
  threads : List Phase
  /-- The calls of `onFinished`. -/
  announced : List WatchState
  deriving DecidableEq

def Watch.started (createdAt deadlineAt : ℕ) : Watch :=
  ⟨deadlineAt, newWatch createdAt, some (newWatch createdAt), false, [], [], []⟩

def Watch.setThread (w : Watch) (n : ℕ) (phase : Phase) : Watch :=
  { w with threads := w.threads.set n phase }

/-- A call has returned or thrown. -/
def Watch.leave (w : Watch) (n : ℕ) (caller : Caller) : Watch :=
  { w.setThread n .gone with polling := if caller = .expire then w.polling else false }

/-- A `persist` of the caller has thrown. -/
def Watch.fail (w : Watch) (n : ℕ) : Caller → Watch
  | .poll (some record) => w.setThread n (.caught record)
  | caller => w.leave n caller

def Watch.persist (w : Watch) (n : ℕ) (caller : Caller) (record : WatchRecord) : Watch :=
  if validRecord record then
    { w.setThread n (.writing caller record) with queue := w.queue ++ [(n, record)] }
  else w.fail n caller

/-- The two readings of the clock after a fetch. -/
inductive Move where
  | fetched (result : Except WatchError CommitChecks) (updatedAt now : ℕ)
  | proceed (updatedAt : ℕ)
  | abandon
  | store
  | recover (updatedAt now : ℕ)
  | announce

/-- The end of the inner `try`. -/
def handleChecks (w : Watch) (n : ℕ) (record : WatchRecord) (checks : CommitChecks)
    (updatedAt now : ℕ) : Watch :=
  let caller := Caller.poll (some record)
  if checks.truncated then w.persist n caller (errorRecord record truncatedError (some checks) updatedAt)
  else if checks.allCompleted then
    w.persist n caller (completeRecord record (if checks.passed then .passed else .failed) checks updatedAt)
  else if w.deadlineAt ≤ now then w.persist n caller (timedOutWith record checks updatedAt)
  else w.persist n caller (progressRecord record checks updatedAt)

/-- The `catch` of `pollOnce`. -/
def handleError (w : Watch) (n : ℕ) (record : WatchRecord) (error : WatchError) (updatedAt now : ℕ) : Watch :=
  if isTransientPollError error.code && now < w.deadlineAt then
    w.persist n (.poll none) (transientRecord record error updatedAt)
  else w.persist n (.poll none) (errorRecord record error none updatedAt)

/-- A thread goes on from its await. -/
def resume (w : Watch) (n : ℕ) : Phase → Move → Watch
  | .fetching record, .fetched (.ok checks) updatedAt now => handleChecks w n record checks updatedAt now
  | .fetching record, .fetched (.error error) updatedAt now => handleError w n record error updatedAt now
  | .caught record, .recover updatedAt now => handleError w n record unexpectedError updatedAt now
  | .overdue record, .proceed updatedAt => w.persist n .expire (timedOutRecord record updatedAt)
  | .overdue _, .abandon => w.leave n .expire
  | .written caller record, .store =>
    let stored := { w with record }
    if isTerminal record then stored.setThread n (.finished caller record.state) else stored.leave n caller
  | .finished caller state, .announce => { w.leave n caller with announced := w.announced ++ [state] }
  | _, _ => w

inductive WriteResult where
  | done | failed | lost
  deriving DecidableEq

/-- The first write of the queue is over. -/
def drain (w : Watch) (result : WriteResult) : Watch :=
  match w.queue with
  | [] => w
  | (n, record)::rest =>
    match w.threads[n]? with
    | some (.writing caller _) =>
      match result with
      | .done => { w.setThread n (.written caller record) with queue := rest, file := some record }
      | .failed => { w.fail n caller with queue := rest }
      | .lost => { w.fail n caller with queue := rest, file := none }
    | _ => w

inductive Event where
  | poll (now updatedAt : ℕ)
  | expire (now : ℕ)
  | resume (n : ℕ) (move : Move)
  | drain (result : WriteResult)

def Watch.spawn (w : Watch) (phase : Phase) : Watch := { w with threads := w.threads ++ [phase] }

def pollOnce (w : Watch) (now updatedAt : ℕ) : Watch :=
  if w.polling || isTerminal w.record then w
  else
    let w := { w with polling := true }
    if w.deadlineAt ≤ now then
      (w.spawn .gone).persist w.threads.length (.poll none) (timedOutRecord w.record updatedAt)
    else w.spawn (.fetching w.record)

def expireOverdueWatches (w : Watch) (now : ℕ) : Watch :=
  if !isTerminal w.record && w.deadlineAt ≤ now then w.spawn (.overdue w.record) else w

def step (w : Watch) : Event → Watch
  | .poll now updatedAt => pollOnce w now updatedAt
  | .expire now => expireOverdueWatches w now
  | .resume n move =>
    match w.threads[n]? with
    | none => w
    | some phase => resume w n phase move
  | .drain result => drain w result

/-- No call is at an await with a record of the watch in its hand. -/
def Watch.free (w : Watch) : Prop := ∀ p ∈ w.threads, p = .gone

/-- A call takes a record of the watch only when no other call has one. -/
def Solo (w : Watch) : Event → Prop
  | .poll _ _ => w.polling = false → isTerminal w.record = false → w.free
  | .expire now => isTerminal w.record = false → w.deadlineAt ≤ now → w.free
  | _ => True

instance (w : Watch) : Decidable w.free := by
  unfold Watch.free
  infer_instance

instance (w : Watch) (e : Event) : Decidable (Solo w e) := by
  cases e <;> unfold Solo <;> infer_instance

end Machine

section Threads

/-- Every thread but one is over. -/
structure Only (threads : List Phase) (n : ℕ) (p : Phase) : Prop where
  here : threads[n]? = some p
  others : ∀ m q, threads[m]? = some q → m ≠ n → q = .gone

variable {threads : List Phase} {n : ℕ} {p q : Phase}

theorem Only.set (h : Only threads n p) (q : Phase) : Only (threads.set n q) n q where
  here := by
    have hlt : n < threads.length := (List.getElem?_eq_some_iff.mp h.here).1
    simp [hlt]
  others m r hm hne := by
    rw [List.getElem?_set_ne (Ne.symm hne)] at hm
    exact h.others m r hm hne

theorem Only.all_gone (h : Only threads n .gone) : ∀ p ∈ threads, p = .gone := by
  intro p hp
  obtain ⟨m, hm⟩ := List.mem_iff_getElem?.mp hp
  by_cases hne : m = n
  · subst hne
    rw [h.here] at hm
    exact (Option.some.inj hm).symm
  · exact h.others m p hm hne

theorem only_append (h : ∀ p ∈ threads, p = .gone) (q : Phase) : Only (threads ++ [q]) threads.length q where
  here := by simp
  others m r hm hne := by
    have hlt : m < threads.length := by
      have hle := (List.getElem?_eq_some_iff.mp hm).1
      rw [List.length_append, List.length_singleton] at hle
      omega
    rw [List.getElem?_append_left hlt] at hm
    exact h r (List.mem_of_getElem? hm)

end Threads

section Invariant

variable {w : Watch} {n : ℕ} {p : Phase}

/-- Nothing has ended the watch. -/
structure Pending (w : Watch) : Prop where
  record : w.record.state = .watching
  file : ∀ r, w.file = some r → r.state = .watching
  announced : w.announced = []

/-- A poll goes back to a record that is still watching. -/
def Keeps : Caller → Prop
  | .poll (some record) => record.state = .watching
  | _ => True

/-- What holds while the thread `n`, and no other, is at an await. -/
def Carries (w : Watch) (n : ℕ) : Phase → Prop
  | .fetching record | .overdue record | .caught record =>
    Pending w ∧ w.queue = [] ∧ record.state = .watching
  | .writing caller record => Pending w ∧ w.queue = [(n, record)] ∧ Keeps caller
  | .written _ record =>
    w.record.state = .watching ∧ w.file = some record ∧ w.announced = [] ∧ w.queue = []
  | .finished _ state =>
    w.record.state = state ∧ state ≠ .watching ∧ w.file = some w.record ∧ w.announced = [] ∧ w.queue = []
  | .gone => False

inductive Inv (w : Watch) : Prop
  | watching (hfree : w.free) (hqueue : w.queue = []) (hpending : Pending w)
  | ended (hfree : w.free) (hqueue : w.queue = []) (hterminal : w.record.state ≠ .watching)
      (hfile : w.file = some w.record) (hannounced : w.announced = [w.record.state])
  | held (n : ℕ) (p : Phase) (honly : Only w.threads n p) (hcarries : Carries w n p)

theorem inv_started (createdAt deadlineAt : ℕ) : Inv (Watch.started createdAt deadlineAt) := by
  apply Inv.watching
  · intro p hp
    cases hp
  · rfl
  · constructor
    · rfl
    · intro r hr
      cases hr
      rfl
    · rfl

/-- What is terminal stays. -/
structure Kept (w w' : Watch) : Prop where
  record : w.record.state ≠ .watching → w'.record = w.record
  file : ∀ r, w.file = some r → r.state ≠ .watching → w'.file = some r

theorem kept_refl (w : Watch) : Kept w w := ⟨fun _ => rfl, fun _ h _ => h⟩

theorem kept_pending {w' : Watch} (h : Pending w) : Kept w w' where
  record hne := absurd h.record hne
  file r hr hne := absurd (h.file r hr) hne

theorem inv_leave (honly : Only w.threads n p) (hqueue : w.queue = []) (hpending : Pending w)
    (caller : Caller) : Inv (w.leave n caller) := by
  apply Inv.watching
  · exact (honly.set .gone).all_gone
  · exact hqueue
  · exact ⟨hpending.record, hpending.file, hpending.announced⟩

theorem inv_fail (honly : Only w.threads n p) (hqueue : w.queue = []) (hpending : Pending w)
    {caller : Caller} (hkeeps : Keeps caller) : Inv (w.fail n caller) := by
  unfold Watch.fail
  split
  · rename_i record
    have hpending' : Pending (w.setThread n (.caught record)) :=
      ⟨hpending.record, hpending.file, hpending.announced⟩
    exact .held n (.caught record) (honly.set _) ⟨hpending', hqueue, hkeeps⟩
  · exact inv_leave honly hqueue hpending caller

theorem inv_persist (honly : Only w.threads n p) (hqueue : w.queue = []) (hpending : Pending w)
    {caller : Caller} (hkeeps : Keeps caller) (record : WatchRecord) :
    Inv (w.persist n caller record) := by
  unfold Watch.persist
  split
  · apply Inv.held n (.writing caller record) (honly.set _)
    refine ⟨⟨hpending.record, hpending.file, hpending.announced⟩, ?_, hkeeps⟩
    show w.queue ++ [(n, record)] = [(n, record)]
    rw [hqueue, List.nil_append]
  · exact inv_fail honly hqueue hpending hkeeps

theorem inv_handleChecks {record : WatchRecord} (honly : Only w.threads n p) (hqueue : w.queue = [])
    (hpending : Pending w) (hrecord : record.state = .watching) (checks : CommitChecks) (updatedAt now : ℕ) :
    Inv (handleChecks w n record checks updatedAt now) := by
  have hkeeps : Keeps (.poll (some record)) := hrecord
  unfold handleChecks
  split
  · exact inv_persist honly hqueue hpending hkeeps _
  split
  · exact inv_persist honly hqueue hpending hkeeps _
  split
  · exact inv_persist honly hqueue hpending hkeeps _
  · exact inv_persist honly hqueue hpending hkeeps _

theorem inv_handleError (honly : Only w.threads n p) (hqueue : w.queue = []) (hpending : Pending w)
    (record : WatchRecord) (error : WatchError) (updatedAt now : ℕ) :
    Inv (handleError w n record error updatedAt now) := by
  have hkeeps : Keeps (.poll none) := trivial
  unfold handleError
  split
  · exact inv_persist honly hqueue hpending hkeeps _
  · exact inv_persist honly hqueue hpending hkeeps _

attribute [local simp] resume in
theorem inv_store {caller : Caller} {record : WatchRecord} (honly : Only w.threads n p)
    (hcarries : Carries w n (.written caller record)) :
    Inv (resume w n (.written caller record) .store) ∧
    Kept w (resume w n (.written caller record) .store) := by
  obtain ⟨hwatching, hfile, hannounced, hqueue⟩ := hcarries
  simp only [resume]
  split
  · rename_i hterminal
    have hne : record.state ≠ .watching := by simpa [isTerminal] using hterminal
    constructor
    · exact .held n (.finished caller record.state) (honly.set _) ⟨rfl, hne, hfile, hannounced, hqueue⟩
    · exact ⟨fun h => absurd hwatching h, fun r hr _ => hr⟩
  · rename_i hterminal
    have heq : record.state = .watching := by simpa [isTerminal] using hterminal
    have hpending : Pending { w with record } :=
      ⟨heq, fun r hr => Option.some.inj (hfile.symm.trans hr) ▸ heq, hannounced⟩
    constructor
    · exact inv_leave (w := { w with record }) honly hqueue hpending caller
    · exact ⟨fun h => absurd hwatching h, fun r hr _ => hr⟩

theorem inv_announce {caller : Caller} {state : WatchState} (honly : Only w.threads n p)
    (hcarries : Carries w n (.finished caller state)) :
    Inv (resume w n (.finished caller state) .announce) := by
  obtain ⟨hstate, hne, hfile, hannounced, hqueue⟩ := hcarries
  apply Inv.ended
  · exact (honly.set .gone).all_gone
  · exact hqueue
  · exact hstate ▸ hne
  · exact hfile
  · show w.announced ++ [state] = [w.record.state]
    rw [hannounced, hstate, List.nil_append]

theorem inv_resume (honly : Only w.threads n p) (hcarries : Carries w n p) (move : Move) :
    Inv (resume w n p move) ∧ Kept w (resume w n p move) := by
  unfold resume
  split
  · obtain ⟨hpending, hqueue, hrecord⟩ := hcarries
    exact ⟨inv_handleChecks honly hqueue hpending hrecord _ _ _, kept_pending hpending⟩
  · obtain ⟨hpending, hqueue, _⟩ := hcarries
    exact ⟨inv_handleError honly hqueue hpending _ _ _ _, kept_pending hpending⟩
  · obtain ⟨hpending, hqueue, _⟩ := hcarries
    exact ⟨inv_handleError honly hqueue hpending _ _ _ _, kept_pending hpending⟩
  · obtain ⟨hpending, hqueue, _⟩ := hcarries
    have hkeeps : Keeps .expire := trivial
    exact ⟨inv_persist honly hqueue hpending hkeeps _, kept_pending hpending⟩
  · obtain ⟨hpending, hqueue, _⟩ := hcarries
    exact ⟨inv_leave honly hqueue hpending .expire, kept_pending hpending⟩
  · exact inv_store honly hcarries
  · exact ⟨inv_announce honly hcarries, ⟨fun _ => rfl, fun _ h _ => h⟩⟩
  · exact ⟨.held n p honly hcarries, kept_refl w⟩

theorem resume_gone (w : Watch) (n : ℕ) (move : Move) : resume w n .gone move = w := by
  cases move <;> rfl

theorem inv_drain (h : Inv w) (result : WriteResult) : Inv (drain w result) ∧ Kept w (drain w result) := by
  by_cases hempty : w.queue = []
  · have heq : drain w result = w := by simp [drain, hempty]
    rw [heq]
    exact ⟨h, kept_refl w⟩
  cases h with
  | watching _ hqueue _ => exact absurd hqueue hempty
  | ended _ hqueue _ _ _ => exact absurd hqueue hempty
  | held n p honly hcarries =>
    cases p with
    | fetching _ => exact absurd hcarries.2.1 hempty
    | overdue _ => exact absurd hcarries.2.1 hempty
    | caught _ => exact absurd hcarries.2.1 hempty
    | written _ _ => exact absurd hcarries.2.2.2 hempty
    | finished _ _ => exact absurd hcarries.2.2.2.2 hempty
    | gone => exact absurd hcarries id
    | writing caller record =>
      obtain ⟨hpending, hqueue, hkeeps⟩ := hcarries
      refine ⟨?_, kept_pending hpending⟩
      simp only [drain, hqueue, honly.here]
      cases result with
      | done =>
        exact .held n (.written caller record) (honly.set _) ⟨hpending.record, rfl, hpending.announced, rfl⟩
      | failed =>
        have hpending' : Pending { w with queue := [] } :=
          ⟨hpending.record, hpending.file, hpending.announced⟩
        have hinv := inv_fail (w := { w with queue := [] }) honly rfl hpending' hkeeps
        cases caller with
        | expire => exact hinv
        | poll retried => cases retried <;> exact hinv
      | lost =>
        have hpending' : Pending { w with queue := [], file := none } :=
          ⟨hpending.record, (fun _ hnone => by cases hnone), hpending.announced⟩
        have hinv := inv_fail (w := { w with queue := [], file := none }) honly rfl hpending' hkeeps
        cases caller with
        | expire => exact hinv
        | poll retried => cases retried <;> exact hinv

/-- A free watch whose record is watching has nothing under way. -/
theorem inv_free (h : Inv w) (hfree : w.free) (hwatching : w.record.state = .watching) :
    w.queue = [] ∧ Pending w := by
  cases h with
  | watching _ hqueue hpending => exact ⟨hqueue, hpending⟩
  | ended _ _ hterminal _ _ => exact absurd hwatching hterminal
  | held n p honly hcarries =>
    have hgone : p = .gone := hfree p (List.mem_of_getElem? honly.here)
    subst hgone
    exact absurd hcarries id

theorem inv_pollOnce (h : Inv w) (now updatedAt : ℕ) (hsolo : Solo w (.poll now updatedAt)) :
    Inv (pollOnce w now updatedAt) ∧ Kept w (pollOnce w now updatedAt) := by
  unfold pollOnce
  split
  · exact ⟨h, kept_refl w⟩
  · rename_i hguard
    simp only [Bool.or_eq_true, not_or, Bool.not_eq_true] at hguard
    have hfree := hsolo hguard.1 hguard.2
    have hwatching : w.record.state = .watching := by simpa [isTerminal] using hguard.2
    obtain ⟨hqueue, hpending⟩ := inv_free h hfree hwatching
    have hpending' (threads : List Phase) : Pending { w with polling := true, threads := threads } :=
      ⟨hpending.record, hpending.file, hpending.announced⟩
    refine ⟨?_, kept_pending hpending⟩
    dsimp only
    split
    · have hkeeps : Keeps (.poll none) := trivial
      exact inv_persist (w := { w with polling := true, threads := w.threads ++ [.gone] })
        (only_append hfree .gone) hqueue (hpending' _) hkeeps _
    · exact .held w.threads.length (.fetching w.record) (only_append hfree _) ⟨hpending' _, hqueue, hwatching⟩

theorem inv_expire (h : Inv w) (now : ℕ) (hsolo : Solo w (.expire now)) :
    Inv (expireOverdueWatches w now) ∧ Kept w (expireOverdueWatches w now) := by
  unfold expireOverdueWatches
  split
  · rename_i hguard
    simp only [Bool.and_eq_true, Bool.not_eq_true', decide_eq_true_eq] at hguard
    have hfree := hsolo hguard.1 hguard.2
    have hwatching : w.record.state = .watching := by simpa [isTerminal] using hguard.1
    obtain ⟨hqueue, hpending⟩ := inv_free h hfree hwatching
    have hpending' : Pending (w.spawn (.overdue w.record)) :=
      ⟨hpending.record, hpending.file, hpending.announced⟩
    exact ⟨.held w.threads.length _ (only_append hfree _) ⟨hpending', hqueue, hwatching⟩,
      kept_pending hpending⟩
  · exact ⟨h, kept_refl w⟩

/-- A thread that does not hold the watch is over. -/
theorem resume_other (h : Inv w) {n : ℕ} {p : Phase} (hp : w.threads[n]? = some p)
    (hother : ∀ q, Only w.threads n q → ¬ Carries w n q) : p = .gone := by
  cases h with
  | watching hfree _ _ => exact hfree p (List.mem_of_getElem? hp)
  | ended hfree _ _ _ _ => exact hfree p (List.mem_of_getElem? hp)
  | held m q honly hcarries =>
    by_cases hne : n = m
    · subst hne
      exact absurd hcarries (hother q honly)
    · exact honly.others n p hp hne

attribute [local simp] step in
theorem inv_step (h : Inv w) (e : Event) (hsolo : Solo w e) : Inv (step w e) ∧ Kept w (step w e) := by
  cases e with
  | poll now updatedAt => exact inv_pollOnce h now updatedAt hsolo
  | expire now => exact inv_expire h now hsolo
  | drain result => exact inv_drain h result
  | resume n move =>
    simp only [step]
    split
    · exact ⟨h, kept_refl w⟩
    · rename_i p hp
      by_cases hholder : ∃ q, Only w.threads n q ∧ Carries w n q
      · obtain ⟨q, honly, hcarries⟩ := hholder
        have heq : p = q := Option.some.inj (hp.symm.trans honly.here)
        exact inv_resume (heq ▸ honly) (heq ▸ hcarries) move
      · have hgone : p = .gone := resume_other h hp fun q honly hcarries => hholder ⟨q, honly, hcarries⟩
        rw [hgone, resume_gone]
        exact ⟨h, kept_refl w⟩

end Invariant

section Runs

variable {w w' : Watch}

theorem inv_reached (h : Inv w) (hrun : Reaches step Solo w w') : Inv w' :=
  hrun.invariant h fun _ e hw he => (inv_step hw e he).1

theorem kept_reached (h : Inv w) (hrun : Reaches step Solo w w') : Kept w w' := by
  induction hrun with
  | refl => exact kept_refl w
  | next e hrun he ih =>
    have hkept : Kept _ (step _ e) := (inv_step (inv_reached h hrun) e he).2
    constructor
    · intro hne
      have heq := ih.record hne
      rw [← heq] at hne
      exact (hkept.record hne).trans heq
    · intro r hr hne
      exact hkept.file r (ih.file r hr hne) hne

theorem announced_pending (h : Inv w) (hterminal : w.record.state ≠ .watching) :
    w.announced = [w.record.state] ∨
      w.announced = [] ∧ ∃ n, (step w (.resume n .announce)).announced = [w.record.state] := by
  cases h with
  | watching _ _ hpending => exact absurd hpending.record hterminal
  | ended _ _ _ _ hannounced => exact .inl hannounced
  | held n p honly hcarries =>
    cases p with
    | finished caller state =>
      obtain ⟨hstate, _, _, hannounced, _⟩ := hcarries
      refine .inr ⟨hannounced, n, ?_⟩
      simp only [step, honly.here, resume, hannounced, List.nil_append, hstate]
    | fetching _ => exact absurd hcarries.1.record hterminal
    | overdue _ => exact absurd hcarries.1.record hterminal
    | caught _ => exact absurd hcarries.1.record hterminal
    | writing _ _ => exact absurd hcarries.1.record hterminal
    | written _ _ => exact absurd hcarries.1 hterminal
    | gone => exact absurd hcarries id

theorem announced_stored (h : Inv w) : w.announced = [] ∨
    w.announced = [w.record.state] ∧ w.record.state ≠ .watching ∧ w.file = some w.record := by
  cases h with
  | watching _ _ hpending => exact .inl hpending.announced
  | ended _ _ hterminal hfile hannounced => exact .inr ⟨hannounced, hterminal, hfile⟩
  | held n p honly hcarries =>
    cases p with
    | finished _ _ => exact .inl hcarries.2.2.2.1
    | fetching _ => exact .inl hcarries.1.announced
    | overdue _ => exact .inl hcarries.1.announced
    | caught _ => exact .inl hcarries.1.announced
    | writing _ _ => exact .inl hcarries.1.announced
    | written _ _ => exact .inl hcarries.2.2.1
    | gone => exact absurd hcarries id

end Runs

/-- What is stored as terminal stays, and `onFinished` is called once, with
the stored state. -/
def FinishesOnce (w : Watch) (ok : Watch → Event → Prop) : Prop :=
  (∀ w', Reaches step ok w w' →
    (isTerminal w.record = true → w'.record = w.record) ∧
    ∀ r, w.file = some r → isTerminal r = true → w'.file = some r) ∧
  (w.announced = [] ∨ w.announced = [w.record.state] ∧ isTerminal w.record = true ∧ w.file = some w.record) ∧
  (isTerminal w.record = true → w.announced = [w.record.state] ∨
    w.announced = [] ∧ ∃ n, (step w (.resume n .announce)).announced = [w.record.state])

/-- A watch finishes once, where a call takes its record only when no other
call has it. -/
theorem watch_finishes_once (createdAt deadlineAt : ℕ) (w : Watch)
    (hrun : Reaches step Solo (Watch.started createdAt deadlineAt) w) : FinishesOnce w Solo := by
  have hinv : Inv w := inv_reached (inv_started createdAt deadlineAt) hrun
  have hterminal (r : WatchRecord) : isTerminal r = true ↔ r.state ≠ .watching := by simp [isTerminal]
  simp only [FinishesOnce, hterminal]
  refine ⟨?_, announced_stored hinv, announced_pending hinv⟩
  intro w' hrun'
  have hkept : Kept w w' := kept_reached hinv hrun'
  exact ⟨hkept.record, hkept.file⟩

section Samples

def pendingChecks : CommitChecks := ⟨false, false, false, true, []⟩

def passingChecks : CommitChecks := ⟨false, true, true, true, ["build"]⟩

/-- A poll before the deadline, then one that finds the checks passed. -/
def polledEvents : List Event :=
  [.poll 10 11, .resume 0 (.fetched (.ok pendingChecks) 12 13), .drain .done, .resume 0 .store,
    .poll 20 21, .resume 1 (.fetched (.ok passingChecks) 22 23), .drain .done, .resume 1 .store,
    .expire 200, .resume 1 .announce]

theorem watch_finishes_once_polled :
    let w := polledEvents.foldl step (Watch.started 0 100)
    w.announced = [.passed] ∧ w.record = ⟨.passed, 22, some 22, 2, some passingChecks, none⟩ ∧
      FinishesOnce w Solo := by
  have hrun : Admitted step Solo (Watch.started 0 100) polledEvents ∧
      (polledEvents.foldl step (Watch.started 0 100)).announced = [.passed] ∧
      (polledEvents.foldl step (Watch.started 0 100)).record =
          ⟨.passed, 22, some 22, 2, some passingChecks, none⟩ := by
    decide +kernel
  have h : Reaches step Solo (Watch.started 0 100) (polledEvents.foldl step (Watch.started 0 100)) :=
    Reaches.events .refl hrun.1 rfl
  exact ⟨hrun.2.1, hrun.2.2, watch_finishes_once 0 100 _ h⟩

/-- A poll is waiting for GitHub when two gets find the watch overdue. -/
def overdueEvents : List Event :=
  [.poll 10 11, .expire 100, .expire 101, .resume 1 (.proceed 102), .resume 2 (.proceed 103), .drain .done,
    .resume 1 .store, .resume 1 .announce]

def lateEvents : List Event :=
  [.drain .done, .resume 2 .store, .resume 2 .announce, .resume 0 (.fetched (.ok passingChecks) 104 105),
    .drain .done, .resume 0 .store, .resume 0 .announce]

/-- The watch is announced three times, and its stored state changes from
timed out to passed. -/
theorem overdue_watch_finishes_thrice :
    let w := overdueEvents.foldl step (Watch.started 0 100)
    let w' := lateEvents.foldl step w
    w.record.state = .timedOut ∧ w.announced = [.timedOut] ∧ w'.record.state = .passed ∧
      w'.announced = [.timedOut, .timedOut, .passed] ∧
      ∃ w, Reaches step (fun _ _ => True) (Watch.started 0 100) w ∧ ¬ FinishesOnce w fun _ _ => True := by
  have hrun : Reaches step (fun _ _ => True) (Watch.started 0 100)
      (overdueEvents.foldl step (Watch.started 0 100)) := Reaches.events .refl (by decide +kernel) rfl
  have hlate : Reaches step (fun _ _ => True) (overdueEvents.foldl step (Watch.started 0 100))
      (lateEvents.foldl step (overdueEvents.foldl step (Watch.started 0 100))) :=
    Reaches.events .refl (by decide +kernel) rfl
  refine ⟨by decide +kernel, by decide +kernel, by decide +kernel, by decide +kernel, _, hrun, ?_⟩
  intro hfinishes
  have hsame := (hfinishes.1 _ hlate).1 (by decide +kernel)
  revert hsame
  decide +kernel

end Samples

end AccessStack.Watches
