import AccessStack.Interleaving
import AccessStack.Text

/-!
# Semantic snapshots of a page

`SemanticSnapshotTracker` on one page. A capture keeps the state object it has
found across its await, so the objects are a heap and the page refers to one.
The browser computes a tracked snapshot against what it was last asked for.
-/

set_option autoImplicit false

namespace AccessStack.Snapshots
open AccessStack.Runs AccessStack.Text

section States

inductive EventType where
  | console
  | pageerror
  | request
  | response
  | requestfailed
  | dialog
  | download
  | filechooser
  deriving DecidableEq

structure BrowserStateEvent where
  sequence : ℕ
  type : EventType
  timestamp : String
  text : Option String
  url : Option String
  status : Option ℕ
  deriving DecidableEq

/-- An event that has no number yet, and maybe no time. -/
structure NewEvent where
  type : EventType
  timestamp : Option String
  text : Option String
  url : Option String
  status : Option ℕ
  deriving DecidableEq

structure RevisionEntry where
  revision : ℕ
  content : Option String
  eventSequence : ℕ
  deriving DecidableEq

structure PageSnapshotState where
  documentId : ℕ
  revision : ℕ
  history : List RevisionEntry
  events : List BrowserStateEvent
  nextEventSequence : ℕ
  deriving DecidableEq

inductive Kind where
  | full
  | delta
  | unchanged
  deriving DecidableEq

inductive ReferenceMode where
  | replace
  | merge
  | unchanged
  deriving DecidableEq

structure BrowserStateUpdate where
  documentId : ℕ
  revision : ℕ
  baseRevision : Option ℕ
  kind : Kind
  snapshot : Option String
  events : List BrowserStateEvent
  refsValid : Bool
  deriving DecidableEq

structure SemanticSnapshotCapture where
  fullContent : String
  referenceMode : ReferenceMode
  update : BrowserStateUpdate
  deriving DecidableEq

/-- `trackedSnapshot` says whether it is given. -/
structure Options where
  knownRevision : Option ℕ
  forceFull : Bool
  trackedSnapshot : Bool
  deriving DecidableEq

/-- `difference` is what the browser writes of a change from one content to
another. It writes it for the last content it was asked for, which is the
`seen` of a tracker: that is taken from the browser as it is. -/
structure Env where
  historyLimit : ℕ
  eventLimit : ℕ
  difference : String → String → String

end States

section Texts

def withoutReturns : List Char → List Char
  | '\r' :: '\n' :: cs => '\n' :: withoutReturns cs
  | c::cs => c::withoutReturns cs
  | [] => []

def normalizeSnapshot (value : String) : String := trim (String.ofList (withoutReturns value.toList))

def lines (text : String) : List String := (text.toList.splitOn '\n').map String.ofList

/-- How many lines are the same from the first one on. -/
def agreeing : List String → List String → ℕ
  | a::as, b::bs => if a = b then agreeing as bs + 1 else 0
  | _, _ => 0

def createReadableDelta (previous current : String) : String :=
  let before := lines previous
  let after := lines current
  let first := agreeing before after
  let last := agreeing (before.drop first).reverse (after.drop first).reverse
  let removed := (before.take (before.length - last)).drop first
  let added := (after.take (after.length - last)).drop first
  let header := "@@ snapshot lines " ++ toString (first + 1) ++ "-" ++
    toString (max (first + 1) (after.length - last)) ++ " @@"
  trim ("\n".intercalate (header :: removed.map ("- " ++ ·) ++ added.map ("+ " ++ ·)))

end Texts

section Captures

variable (env : Env) (state : PageSnapshotState)

def eventsAfter (events : List BrowserStateEvent) (sequence : ℕ) : List BrowserStateEvent :=
  events.filter (sequence < ·.sequence)

def trimHistory (history : List RevisionEntry) : List RevisionEntry :=
  history.drop (history.length - env.historyLimit)

/-- A new revision. -/
def PageSnapshotState.push (content : Option String) : PageSnapshotState :=
  { state with
    revision := state.revision + 1
    history := trimHistory env (state.history ++ [⟨state.revision + 1, content, state.nextEventSequence⟩]) }

/-- The base, when the tracked snapshot can be used. -/
def trackedBase (o : Options) : Option RevisionEntry :=
  let latestBeforeCapture := state.history.getLast?
  let requestedBase := o.knownRevision.bind fun known => state.history.find? (·.revision = known)
  if !o.forceFull && o.trackedSnapshot && latestBeforeCapture.isSome &&
    requestedBase.map (·.revision) = latestBeforeCapture.map (·.revision) then requestedBase else none

/-- The state after a tracked snapshot. -/
def follow (requestedBase : RevisionEntry) (delta : String) : PageSnapshotState :=
  if delta ≠ "" ∨ requestedBase.eventSequence ≠ state.nextEventSequence then state.push env none else state

/-- What is answered of a tracked snapshot. -/
def answerDelta (requestedBase : RevisionEntry) (delta : String) : SemanticSnapshotCapture :=
  let current := state.history.getLast?.getD requestedBase
  let events := eventsAfter state.events requestedBase.eventSequence
  if current.revision = requestedBase.revision then
    ⟨"", .unchanged,
      ⟨state.documentId, current.revision, some requestedBase.revision, .unchanged, none, events, true⟩⟩
  else
    ⟨delta, if delta ≠ "" then .merge else .unchanged,
      ⟨state.documentId, current.revision, some requestedBase.revision, .delta,
        if delta ≠ "" then some delta else none, events, true⟩⟩

/-- What follows a tracked snapshot. -/
def takeDelta (requestedBase : RevisionEntry)
    (delta : String) : PageSnapshotState × SemanticSnapshotCapture :=
  (follow env state requestedBase delta,
    answerDelta (follow env state requestedBase delta) requestedBase delta)

/-- The state after a full snapshot. -/
def adopt (fullContent : String) : PageSnapshotState :=
  match state.history.getLast? with
  | none => state.push env (some fullContent)
  | some latest =>
    if latest.content ≠ some fullContent ∨ latest.eventSequence ≠ state.nextEventSequence then
      state.push env (some fullContent)
    else state

def fullCapture (current : RevisionEntry) (fullContent : String) : SemanticSnapshotCapture :=
  ⟨fullContent, .replace,
    ⟨state.documentId, current.revision, none, .full, some fullContent, state.events, true⟩⟩

/-- A capture against its base, both with content. -/
def compared (base current : RevisionEntry) (before after fullContent : String) : SemanticSnapshotCapture :=
  let events := eventsAfter state.events base.eventSequence
  if before = after then
    ⟨fullContent, .unchanged,
      ⟨state.documentId, current.revision, some base.revision, .delta, none, events, true⟩⟩
  else
    let delta := createReadableDelta before after
    -- the factor 0.8: a product that is an integer is that integer also when rounded
    let useFull := 4 * utf16Length after ≤ 5 * utf16Length delta
    ⟨fullContent, if useFull then .replace else .merge,
      ⟨state.documentId, current.revision, some base.revision, if useFull then .full else .delta,
      some (if useFull then after else delta), events, true⟩⟩

/-- What is answered of a full snapshot. -/
def answerFull (o : Options) (fullContent : String) : SemanticSnapshotCapture :=
  let current := state.history.getLast?.getD ⟨state.revision, some fullContent, state.nextEventSequence⟩
  match o.knownRevision.bind fun known => state.history.find? (·.revision = known) with
  | none => fullCapture state current fullContent
  | some base =>
    match base.content with
    | none => fullCapture state current fullContent
    | some before =>
      if o.forceFull then fullCapture state current fullContent
      else if base.revision = current.revision then
        ⟨fullContent, .unchanged, ⟨state.documentId, current.revision, some base.revision, .unchanged, none,
          eventsAfter state.events base.eventSequence, true⟩⟩
      else
        match current.content with
        | none => fullCapture state current fullContent
        | some after => compared state base current before after fullContent

/-- What follows a full snapshot. -/
def takeFull (o : Options) (fullContent : String) : PageSnapshotState × SemanticSnapshotCapture :=
  (adopt env state fullContent, answerFull (adopt env state fullContent) o fullContent)

end Captures

section Tracker

/-- What a capture has answered; `content` is what the page showed and `mark`
how many events had been recorded. -/
structure Report where
  knownRevision : Option ℕ
  content : String
  mark : ℕ
  capture : SemanticSnapshotCapture
  deriving DecidableEq

abbrev Report.update (x : Report) : BrowserStateUpdate := x.capture.update

abbrev Report.revision (x : Report) : ℕ := x.capture.update.revision

/-- `page` is what a snapshot of the page would show, `seen` what the last one
has shown, and `recorded` are the events since the page was last discarded. -/
structure Tracker where
  heap : List PageSnapshotState
  current : Option ℕ
  page : String
  seen : String
  reports : List Report
  recorded : List BrowserStateEvent
  deriving DecidableEq

variable (env : Env)

def emptyState (documentId : ℕ) : PageSnapshotState := ⟨documentId, 0, [], [], 0⟩

def Tracker.allocate (t : Tracker) (state : PageSnapshotState) : Tracker :=
  { t with heap := t.heap ++ [state], current := some t.heap.length }

/-- `state(page)` -/
def Tracker.state (t : Tracker) : Tracker × ℕ :=
  match t.current with
  | some ref => (t, ref)
  | none => (t.allocate (emptyState t.heap.length), t.heap.length)

def Tracker.read (t : Tracker) (ref : ℕ) : PageSnapshotState := (t.heap[ref]?).getD (emptyState ref)

/-- `slice(-limit)` -/
def sliceLast (events : List BrowserStateEvent) : List BrowserStateEvent :=
  if env.eventLimit = 0 then events else events.drop (events.length - env.eventLimit)

def Tracker.invalidate (t : Tracker) : Tracker :=
  match t.current with
  | none => t.allocate (emptyState t.heap.length)
  | some ref =>
    let existing := t.read ref
    t.allocate ⟨t.heap.length, existing.revision, [], sliceLast env existing.events,
      existing.nextEventSequence⟩

def Tracker.discard (t : Tracker) : Tracker := { t with current := none, recorded := [] }

def numbered (event : NewEvent) (sequence : ℕ) (now : String) : BrowserStateEvent :=
  ⟨sequence, event.type, event.timestamp.getD now, event.text, event.url, event.status⟩

def Tracker.recordEvent (t : Tracker) (event : NewEvent) (now : String) : Tracker :=
  let (t, ref) := t.state
  let state := t.read ref
  let stored := numbered event (state.nextEventSequence + 1) now
  let events := state.events ++ [stored]
  { t with
    heap := t.heap.set ref { state with
      nextEventSequence := state.nextEventSequence + 1
      events := events.drop (events.length - env.eventLimit) }
    recorded := t.recorded ++ [stored] }

/-- An answer of `trackedSnapshot`. -/
inductive Tracked where
  | full (content : String)
  | delta (text : String)
  deriving DecidableEq

/-- `observed` is what the page showed when a delta was computed. -/
inductive Op where
  | start (o : Options)
  | trackedSnapshot (base : RevisionEntry)
  | snapshot
  | takeDelta (ref : ℕ) (o : Options) (base : RevisionEntry) (delta observed : String)
  | takeFull (ref : ℕ) (o : Options) (fullContent : String)
  deriving DecidableEq

/-- A snapshot may throw. -/
def Answer : Op → Type
  | .start _ => ℕ × Option RevisionEntry
  | .trackedSnapshot _ => Option (Tracked × String)
  | .snapshot => Option String
  | .takeDelta _ _ _ _ _ | .takeFull _ _ _ => SemanticSnapshotCapture

/-- `full`: tracking is not available any more. -/
structure Host where
  fails : Bool
  full : Bool
  deriving DecidableEq

def Tracker.settle (t : Tracker) (ref : ℕ) (o : Options) (content : String)
    (taken : PageSnapshotState × SemanticSnapshotCapture) : Tracker × SemanticSnapshotCapture :=
  ({ t with
    heap := t.heap.set ref taken.1
    reports := t.reports ++ [⟨o.knownRevision, content, t.recorded.length, taken.2⟩] }, taken.2)

def effect : (e : Op) → Tracker → Host → Tracker × Answer e
  | .start o, t, _ => (t.state.1, (t.state.2, trackedBase (t.state.1.read t.state.2) o))
  | .trackedSnapshot _, t, host =>
    let shown := normalizeSnapshot t.page
    if host.fails then (t, none)
    else ({ t with seen := shown },
      some (if host.full then .full t.page else .delta (env.difference t.seen shown), shown))
  | .snapshot, t, host =>
    if host.fails then (t, none) else ({ t with seen := normalizeSnapshot t.page }, some t.page)
  | .takeDelta ref o base delta observed, t, _ =>
    t.settle ref o observed (takeDelta env (t.read ref) base delta)
  | .takeFull ref o fullContent, t, _ => t.settle ref o fullContent (takeFull env (t.read ref) o fullContent)

inductive Failure where
  | thrown
  deriving DecidableEq

abbrev Capturing (α : Type) := Routine Answer Failure α

def ask (e : Op) : Capturing (Answer e) := Routine.perform e

def capture (o : Options) : Capturing SemanticSnapshotCapture := do
  let found : ℕ × Option RevisionEntry ← ask (.start o)
  match found.2 with
  | some requestedBase => do
    let tracked : Option (Tracked × String) ← ask (.trackedSnapshot requestedBase)
    match tracked with
    | none => .fail .thrown
    | some (.full content, _) => ask (.takeFull found.1 o (normalizeSnapshot content))
    | some (.delta text, observed) =>
      ask (.takeDelta found.1 o requestedBase (normalizeSnapshot text) observed)
  | none => do
    let taken : Option String ← ask .snapshot
    match taken with
    | none => .fail .thrown
    | some content => ask (.takeFull found.1 o (normalizeSnapshot content))

/-- What else happens to the page. -/
inductive Change where
  | recordEvent (event : NewEvent) (now : String)
  | invalidate
  | discard
  | page (content : String)
  deriving DecidableEq

def Tracker.change (t : Tracker) : Change → Tracker
  | .recordEvent event now => t.recordEvent env event now
  | .invalidate => t.invalidate env
  | .discard => t.discard
  | .page content => { t with page := content }

def machine : Machine Op Tracker Host Change Options Failure SemanticSnapshotCapture Answer where
  routine := capture
  effect := fun _ => effect env
  change := Tracker.change env

abbrev State := Together Tracker Options Answer Failure SemanticSnapshotCapture

def initial (page : String) : Tracker := ⟨[], none, page, "", [], []⟩

end Tracker

end AccessStack.Snapshots
