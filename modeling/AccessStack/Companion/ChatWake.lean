import AccessStack.Json
import AccessStack.Runs
import AccessStack.Text

/-!
# Waking the conversation

`ChatWake`: events wait in `pending`; an attempt takes a snapshot of them,
groups what is open by conversation, and delivers one text after another. It
stops at the await of each delivery, and everything else may happen there.
The number of an event stands for the identity of its object. What the
callbacks answer comes with the step that asks them. What has been taken back
and what has been sent is the model's own.
-/

set_option autoImplicit false

namespace AccessStack.ChatWake
open AccessStack.Runs AccessStack.Text AccessStack.JsonText

section Events

inductive TaskState where
  | succeeded
  | failed
  deriving DecidableEq

inductive ChecksState where
  | passed
  | failed
  | timedOut
  | error
  deriving DecidableEq

inductive UpdateState where
  | succeeded
  | failed
  | needsConfirmation
  deriving DecidableEq

inductive ChatWakeEvent where
  | message (messageId text : String) (taskId : Option String)
  | task (taskId : String) (workspaceId : Option String) (state : TaskState) (exitCode : Option ℤ)
  | checks (watchId workspaceId repository commitSha : String) (state : ChecksState)
  | handback (tabId : String) (reason : Option String)
  | update (updateId workspaceId : String) (state : UpdateState)
  deriving DecidableEq

structure Queued where
  number : ℕ
  event : ChatWakeEvent
  queuedAt : ℤ
  deriving DecidableEq

inductive ChatWakeOutcome where
  | sent
  | busy
  | typing
  | unavailable
  | elsewhere
  | failed
  deriving DecidableEq

def taskReceiptKey : ChatWakeEvent → Option String
  | .task taskId workspaceId _ _ =>
    some (stringify (.arr [.str "task", (workspaceId.map Json.str).getD .null, .str taskId]))
  | _ => none

def ChatWakeEvent.isMessage : ChatWakeEvent → Bool
  | .message _ _ _ => true
  | _ => false

def ChatWakeEvent.isHandback : ChatWakeEvent → Bool
  | .handback _ _ => true
  | _ => false

def ChatWakeEvent.isTask : ChatWakeEvent → Bool
  | .task _ _ _ _ => true
  | _ => false

def ChatWakeEvent.isChecks : ChatWakeEvent → Bool
  | .checks _ _ _ _ _ => true
  | _ => false

def ChatWakeEvent.isUpdate : ChatWakeEvent → Bool
  | .update _ _ _ => true
  | _ => false

end Events

section Texts

def slice (limit : ℕ) (text : String) : String := String.ofList (sliceUnits limit text.toList)

def TaskState.text : TaskState → String
  | .succeeded => "succeeded"
  | .failed => "failed"

/-- `CHECKS_STATE` -/
def ChecksState.text : ChecksState → String
  | .passed => "passou"
  | .failed => "falhou"
  | .timedOut => "o tempo acabou"
  | .error => "não deu para ler"

/-- `UPDATE_STATE` -/
def UpdateState.text : UpdateState → String
  | .succeeded => "terminou"
  | .failed => "parou com um erro"
  | .needsConfirmation => "espera uma confirmação"

/-- What an event says in the conversation. A message is its own words. -/
def ChatWakeEvent.note : ChatWakeEvent → String
  | .message _ text _ => trim text
  | .handback tabId reason =>
    "[MCP V3] A aba " ++ tabId ++ " foi devolvida" ++
      (match reason with
        | none => ""
        | some reason => if reason.isEmpty then "" else " (" ++ slice 120 reason ++ ")") ++
      ". Chame browser_wait com forUser nessa aba para recebê-la."
  | .task taskId workspaceId state exitCode =>
    "[MCP V3] A tarefa em segundo plano " ++ taskId ++
      (match workspaceId with
        | none => ""
        | some workspaceId => " (workspace " ++ workspaceId ++ ")") ++
      " terminou: " ++ state.text ++
      (match exitCode with
        | none => ""
        | some exitCode => ", código " ++ toString exitCode) ++
      ". Veja com get_background_task."
  | .checks watchId workspaceId repository commitSha state =>
    "[MCP V3] O CI de " ++ repository ++ " em " ++ slice 7 commitSha ++ " terminou: " ++ state.text ++
      " (acompanhamento " ++ watchId ++ ", workspace " ++ workspaceId ++
        "). Veja com github_wait_commit_checks_watch."
  | .update updateId workspaceId state =>
    "[MCP V3] A atualização do MCP " ++ updateId ++ " " ++ state.text ++ " (workspace " ++ workspaceId ++
      "). Veja com mcp_update " ++
      stringify (.obj [("action", .str "read"), ("workspaceId", .str workspaceId),
        ("updateId", .str updateId)]) ++ "."

def maxHandbacks : ℕ := 3
def maxTasks : ℕ := 5
def maxChecks : ℕ := 5
def maxUpdates : ℕ := 3

def notesOf (events : List ChatWakeEvent) (ofKind : ChatWakeEvent → Bool) (limit : ℕ) : List String :=
  ((events.filter ofKind).take limit).map ChatWakeEvent.note

def wakeNotes (events : List ChatWakeEvent) : List String :=
  notesOf events ChatWakeEvent.isHandback maxHandbacks ++ notesOf events ChatWakeEvent.isTask maxTasks ++
    notesOf events ChatWakeEvent.isChecks maxChecks ++ notesOf events ChatWakeEvent.isUpdate maxUpdates

def chatWakeText (events : List ChatWakeEvent) : String :=
  let parts := ((events.filter ChatWakeEvent.isMessage).map ChatWakeEvent.note).filter (!·.isEmpty)
  let notes := wakeNotes events
  "\n\n".intercalate (parts ++ if notes = [] then [] else ["\n".intercalate notes])

end Texts

section State

def maxEvents : ℕ := 20
def maxTaskReceipts : ℕ := 5000
def taskReceiptRetentionMs : ℤ := 30 * 24 * 60 * 60 * 1000

/-- `routed` and `receiptFile` say whether the options `conversationOf` and
`receiptFile` are given. -/
structure Options where
  routed : Bool
  receiptFile : Bool
  spacingMs : ℤ
  retryMs : ℤ
  ttlMs : ℤ

/-- What the callbacks answer. `targets` counts the places there are for a
conversation. -/
structure Host where
  now : ℤ
  isOpen : Queued → Bool
  conversationOf : Queued → Option String
  targets : Option String → ℕ

abbrev Group := Option String × List Queued

/-- An attempt at the await of a delivery. What the callbacks answered at its
start, and how often the feature had been disabled, is the model's own. -/
structure Attempt where
  number : ℕ
  snapshot : List Queued
  stillOpen : List Queued
  isOpen : Queued → Bool
  owners : Queued → Option String
  disables : ℕ
  conversationId : Option String
  batch : List Queued
  targetsLeft : ℕ
  groups : List Group

/-- `ended` until the promise of the run has been taken note of. -/
inductive Phase where
  | delivering (a : Attempt)
  | ended

/-- An event that `resolveHandback` or `setEnabled(false)` has taken back when
so many attempts had started. -/
structure Gone where
  number : ℕ
  disabled : Bool
  attempts : ℕ
  deriving DecidableEq

/-- A text that was sent, what was passed to `onSent`, what left `pending`
with it, which receipts were kept before, which were recorded and how many
there were before they were pruned. -/
structure Sent where
  attempt : ℕ
  sentAt : ℤ
  text : String
  conversationId : Option String
  events : List Queued
  owners : Queued → Option String
  removed : List Queued
  notOpen : List Queued
  retained : List String
  recorded : List String
  receipts : ℕ

structure State where
  enabled : Bool
  closed : Bool
  pending : List Queued
  sentTasks : List (String × ℤ)
  lastSentAt : Option ℤ
  timer : Option ℤ
  running : Option Phase
  rerun : Bool
  queued : ℕ
  attempts : ℕ
  disables : ℕ
  gone : List Gone
  sent : List Sent

/-- The receipts that have been loaded. -/
def State.initial (sentTasks : List (String × ℤ)) : State :=
  ⟨true, false, [], sentTasks, none, none, none, false, 0, 0, 0, [], []⟩

end State

section Service

variable (options : Options)

def State.takeBack (s : State) (events : List Queued) (disabled : Bool) : State :=
  { s with gone := s.gone ++ events.map fun e => ⟨e.number, disabled, s.attempts⟩ }

def State.schedule (s : State) (delayMs now : ℤ) : State :=
  if s.closed || !s.enabled || s.pending.isEmpty then s
  else
    let spacing := (s.lastSentAt.map fun last => last + options.spacingMs - now).getD 0
    { s with timer := some (max delayMs (max spacing 0)) }

def receiptKeys (sentTasks : List (String × ℤ)) : List String := sentTasks.map (·.1)

def pruneTaskReceipts (now : ℤ) (sentTasks : List (String × ℤ)) : List (String × ℤ) :=
  let kept := sentTasks.filter fun receipt => now - receipt.2 < taskReceiptRetentionMs
  kept.drop (kept.length - maxTaskReceipts)

def recordTask (sentAt : ℤ) (sentTasks : List (String × ℤ)) (e : Queued) : List (String × ℤ) :=
  match taskReceiptKey e.event with
  | none => sentTasks
  | some key => if key ∈ receiptKeys sentTasks then sentTasks else sentTasks ++ [(key, sentAt)]

def recordSentTasks (sentTasks : List (String × ℤ)) (events : List Queued) (sentAt : ℤ) : List (String × ℤ) :=
  let recorded := events.foldl (recordTask sentAt) sentTasks
  if recorded.length ≠ sentTasks.length &&
    options.receiptFile then pruneTaskReceipts sentAt recorded else recorded

def queue (s : State) (event : ChatWakeEvent) (now : ℤ) : State :=
  if !s.enabled || s.closed then s
  else if (taskReceiptKey event).any fun key =>
      key ∈ receiptKeys s.sentTasks || s.pending.any fun e => taskReceiptKey e.event = some key then s
  else
    let all := s.pending ++ [⟨s.queued, event, now⟩]
    ({ s with pending := all.drop (all.length - maxEvents), queued := s.queued + 1 }).schedule options 0 now

def isHandbackOf (tabId : String) (e : Queued) : Bool :=
  match e.event with
  | .handback tabId' _ => tabId' = tabId
  | _ => false

def resolveHandback (s : State) (tabId : String) : State :=
  ({ s with pending := s.pending.filter fun e => !isHandbackOf tabId e }).takeBack
    (s.pending.filter (isHandbackOf tabId))
    false

def setEnabled (s : State) (enabled : Bool) : State :=
  if enabled then { s with enabled := true }
  else { s with enabled := false, pending := [], timer := none,
                disables := s.disables + 1 }.takeBack s.pending true

def close (s : State) : State := { s with closed := true, timer := none }

/-- The group of an owner comes where its first event came. -/
def addToGroup (groups : List Group) (owner : Option String) (e : Queued) : List Group :=
  if groups.any (·.1 = owner) then groups.map fun g => if g.1 = owner then (g.1, g.2 ++ [e]) else g
  else groups ++ [(owner, [e])]

/-- Without an owner an event waits, if owners are known at all. -/
def placeEvent (owners : Queued → Option String) (groups : List Group) (e : Queued) : List Group :=
  if options.routed then
    match owners e with
    | none => groups
    | some owner => addToGroup groups (some owner) e
  else addToGroup groups none e

def groupEvents (owners : Queued → Option String) (events : List Queued) : List Group :=
  events.foldl (placeEvent options owners) []

/-- The attempt ends and nothing has been sent: `keep()`. -/
def State.giveUp (s : State) (a : Attempt) (now : ℤ) : State :=
  ({ s with
      pending := a.stillOpen ++ s.pending.filter (· ∉ a.snapshot)
      running := some .ended }).schedule options options.retryMs now

/-- Goes on to the next group that there is a place for. -/
def State.nextGroup (s : State) (host : Host) (a : Attempt) : List Group → State
  | [] => s.giveUp options a host.now
  | (conversationId, batch)::groups =>
    if host.targets conversationId = 0 then s.nextGroup host a groups
    else
      { s with running := some (.delivering
          { a with conversationId, batch, targetsLeft := host.targets conversationId - 1, groups }) }

def State.openEvents (s : State) (host : Host) : List Queued :=
  s.pending.filter fun e =>
    (e.event.isMessage || host.now - e.queuedAt < options.ttlMs) && host.isOpen e

/-- The attempt that takes its snapshot now. -/
def State.attempt (s : State) (host : Host) : Attempt where
  number := s.attempts + 1
  snapshot := s.pending
  stillOpen := s.openEvents options host
  isOpen := host.isOpen
  owners := host.conversationOf
  disables := s.disables
  conversationId := none
  batch := []
  targetsLeft := 0
  groups := groupEvents options host.conversationOf (s.openEvents options host)

/-- A run up to its first await. -/
def State.run (s : State) (host : Host) : State :=
  if !s.enabled || s.pending.isEmpty then { s with running := some .ended }
  else
    let a := s.attempt options host
    let s := { s with attempts := s.attempts + 1 }
    if a.stillOpen.isEmpty then { s with pending := [], running := some .ended }
    else s.nextGroup options host a a.groups

def State.start (s : State) (host : Host) : State :=
  if s.running.isSome then { s with rerun := true } else s.run options host

def State.fire (s : State) (host : Host) : State :=
  if s.timer.isSome then { s with timer := none }.start options host else s

/-- What stays pending when the text of an attempt has been sent. -/
def Attempt.stays (a : Attempt) (e : Queued) : Bool := e ∉ a.snapshot || (e ∉ a.batch && e ∈ a.stillOpen)

/-- The record that a sent text leaves. -/
def State.notice (s : State) (a : Attempt) (sentAt : ℤ) : Sent where
  attempt := a.number
  sentAt := sentAt
  text := chatWakeText (a.batch.map (·.event))
  conversationId := a.conversationId
  events := a.batch
  owners := a.owners
  removed := s.pending.filter (!a.stays ·)
  notOpen := a.snapshot.filter (· ∉ a.stillOpen)
  retained := receiptKeys s.sentTasks
  recorded := (receiptKeys (recordSentTasks options s.sentTasks a.batch sentAt)).filter
    (· ∉ receiptKeys s.sentTasks)
  receipts := (a.batch.foldl (recordTask sentAt) s.sentTasks).length

/-- A delivery has sent the text. -/
def State.acknowledge (s : State) (a : Attempt) (sentAt : ℤ) : State :=
  ({ s with
      sentTasks := recordSentTasks options s.sentTasks a.batch sentAt
      pending := s.pending.filter a.stays
      lastSentAt := some sentAt
      running := some .ended
      sent := s.sent ++ [s.notice options a sentAt] }).schedule options 0 sentAt

def State.delivered (s : State) (outcome : ChatWakeOutcome) (host : Host) : State :=
  match s.running with
  | some (.delivering a) =>
    match outcome with
    | .sent => s.acknowledge options a host.now
    | .busy | .typing => s.nextGroup options host a a.groups
    | .unavailable | .elsewhere | .failed =>
      if a.targetsLeft = 0 then s.nextGroup options host a a.groups
      else { s with running := some (.delivering { a with targetsLeft := a.targetsLeft - 1 }) }
  | _ => s

/-- `finally` -/
def State.finish (s : State) (now : ℤ) : State :=
  match s.running with
  | some .ended =>
    if s.rerun then ({ s with running := none, rerun := false }).schedule options 0 now
    else { s with running := none }
  | _ => s

inductive Input where
  | queue (event : ChatWakeEvent) (now : ℤ)
  | resolveHandback (tabId : String)
  | setEnabled (enabled : Bool)
  | close
  | fire (host : Host)
  | delivered (outcome : ChatWakeOutcome) (host : Host)
  | finish (now : ℤ)

def step (s : State) : Input → State
  | .queue event now => queue options s event now
  | .resolveHandback tabId => resolveHandback s tabId
  | .setEnabled enabled => setEnabled s enabled
  | .close => close s
  | .fire host => s.fire options host
  | .delivered outcome host => s.delivered options outcome host
  | .finish now => s.finish options now

end Service

end AccessStack.ChatWake
