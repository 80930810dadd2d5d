import AccessStack.Browser.Registry

/-!
# Recovering and migrating a browser registry

A registry of the sixth version is recovered through the fourth: its sessions,
tabs and bindings first, then its tasks. The older versions migrate one to the
next. Every stage parses its result, and a result that its schema rejects is
thrown.
-/

set_option autoImplicit false

namespace AccessStack.Browser
open AccessStack.Keys AccessStack.Text

section Parsing

inductive RegistryError where
  | shape
  | issues (messages : List String)
  | tasksRequired
  deriving DecidableEq

/-- A schema holds of what it returns, and it returns a value of which it holds
as it is. -/
structure Schema (α : Type) where
  holds : α → Bool
  output : α → α
  output_eq : ∀ value, holds value = true → output value = value

/-- `schema.parse` of one value. -/
def parseShape {α : Type} (schema : Schema α) (value : α) : Except RegistryError α :=
  if schema.holds (schema.output value) then .ok (schema.output value) else .error .shape

/-- `schema.parse` of each of the values. -/
def parseAll {α : Type} (schema : Schema α) : List α → Except RegistryError (List α)
  | [] => .ok []
  | value::rest =>
    match parseShape schema value, parseAll schema rest with
    | .ok value, .ok rest => .ok (value::rest)
    | .error e, _ => .error e
    | _, .error e => .error e

/-- `superRefine` sees only what has the shape of the schema. -/
def refine {α : Type} (schema : Schema α) (issues : α → List String) (value : α) : Except RegistryError α :=
  if !schema.holds (schema.output value) then .error .shape
  else if issues (schema.output value) = [] then .ok (schema.output value)
  else .error (.issues (issues (schema.output value)))

variable (z : Environment)

def sessionParse : Schema BrowserSession := ⟨browserSessionSchema z, id, fun _ _ => rfl⟩

def taskParse : Schema BrowserTask := ⟨browserTaskSchema z, id, fun _ _ => rfl⟩

def tabV4Parse : Schema UnifiedBrowserTabV4 := ⟨unifiedBrowserTabV4Schema z, parsedTabV4 z, parsedTabV4_eq⟩

def tabParse : Schema UnifiedBrowserTab := ⟨unifiedBrowserTabSchema z, parsedTab z, parsedTab_eq⟩

def bindingParse : Schema BrowserTabBinding := ⟨browserTabBindingSchema z, parsedBinding z, parsedBinding_eq⟩

def storageV4Parse : Schema RegistryV4 := ⟨registryV4StorageSchema z, parsedV4 z, parsedV4_eq⟩

def storageParse : Schema Registry := ⟨registryStorageSchema z, parsedRegistry z, parsedRegistry_eq⟩

def registryV4Schema (d : RegistryV4) : Except RegistryError RegistryV4 :=
  refine (storageV4Parse z) registryV4Issues d

def registryV6Schema (d : Registry) : Except RegistryError Registry :=
  refine (storageParse z) registryV6Issues d

end Parsing

variable (z : Environment)

section Recovery

def SessionState.live (state : SessionState) : Bool := state = .starting || state = .connected

def recoverSession (s : BrowserSession) : BrowserSession :=
  { s with state := if s.state.live then .disconnected else s.state }

/-- The sessions with the latest one first, each identifier once. -/
def recoverSessions (sessions : List BrowserSession) : List BrowserSession :=
  (deduplicateBy BrowserSession.sessionId
    (sessions.insertionSort fun left right => z.localeLe right.lastUsedAt left.lastUsedAt =
      true)).map recoverSession

/-- A tab has the session and the binding, and the binding says the same. -/
def attachedTo (tab : UnifiedBrowserTabV4) : Option BrowserSession → Option BrowserTabBinding → Bool
  | some _, some binding => binding.matches tab
  | _, _ => false

def recoverTabs (d : RegistryV4) : List UnifiedBrowserTabV4 :=
  let sessions := recoverSessions z d.sessions
  let bindings := deduplicateBy BrowserTabBinding.tabId d.bindings
  (deduplicateBy UnifiedBrowserTabV4.tabId d.tabs).filter fun tab =>
    attachedTo tab (lookup BrowserSession.sessionId sessions tab.sessionId)
      (lookup BrowserTabBinding.tabId bindings tab.tabId)

def retainedSessions (d : RegistryV4) : List BrowserSession :=
  (recoverSessions z d.sessions).filter fun session =>
    ((recoverTabs z d).map (·.sessionId)).contains session.sessionId ||
      (lookup BrowserSession.sessionId d.sessions session.sessionId).map (·.state) = some .disconnected

/-- What is left of a registry of the fourth version. -/
def recoveredV4 (d : RegistryV4) : RegistryV4 :=
  let tabs := recoverTabs z d
  let tabIds := tabs.map (·.tabId)
  let sessions := retainedSessions z d
  let sessionIds := sessions.map (·.sessionId)
  { updatedAt := d.updatedAt
    sessions
    tabs := tabs.filter fun tab => sessionIds.contains tab.sessionId
    bindings := (deduplicateBy BrowserTabBinding.tabId d.bindings).filter fun binding =>
      tabIds.contains binding.tabId && sessionIds.contains binding.sessionId }

def recoverV4Registry (d : RegistryV4) : Except RegistryError RegistryV4 :=
  registryV4Schema z (recoveredV4 z d)

def Registry.toV4 (d : Registry) : RegistryV4 :=
  ⟨d.updatedAt, d.sessions, d.tabs.map (·.toUnifiedBrowserTabV4), d.bindings⟩

def TaskState.recovered (state : TaskState) : TaskState :=
  if state = .active ∨ state = .finishing then .suspended else state

def recoverTask (retainedTabIds : List String) (task : BrowserTask) : BrowserTask :=
  { task with
    state := task.state.recovered
    tabIds := if task.state.terminal then [] else task.tabIds.filter fun tabId =>
      retainedTabIds.contains tabId }

def recoverTasks (retainedTabIds : List String) (tasks : List BrowserTask) : List BrowserTask :=
  (deduplicateBy BrowserTask.taskId tasks).map (recoverTask retainedTabIds)

def restorableTaskIds (tasks : List BrowserTask) : List String :=
  (tasks.filter fun task => task.state = .active || task.state = .suspended).map (·.taskId)

/-- A tab with the task of its last record, where the task can be restored. -/
def recoverTab (d : Registry) (restorable : List String) (tab : UnifiedBrowserTabV4) :
    Option UnifiedBrowserTab :=
  (lookup (fun t : UnifiedBrowserTab => t.tabId) d.tabs tab.tabId).bind fun original =>
    if restorable.contains original.taskId then some ⟨tab, original.taskId, original.lifecycle⟩ else none

def keepTabs (finalTabIds : List String) (task : BrowserTask) : BrowserTask :=
  { task with tabIds := task.tabIds.filter fun tabId => finalTabIds.contains tabId }

def recoverV6Registry (d : Registry) : Except RegistryError Registry := do
  let recovered ← recoverV4Registry z d.toV4
  let tasks ← parseAll (taskParse z) (recoverTasks (recovered.tabs.map (·.tabId)) d.tasks)
  let tabs ← parseAll (tabParse z)
    (recovered.tabs.filterMap (recoverTab d (restorableTaskIds tasks)))
  let finalTabIds := tabs.map (·.tabId)
  registryV6Schema z
    { updatedAt := d.updatedAt
      sessions := recovered.sessions
      tasks := tasks.map (keepTabs finalTabIds)
      tabs
      bindings := recovered.bindings.filter fun binding => finalTabIds.contains binding.tabId }

end Recovery

section Migration

def migrateTask (task : BrowserTask) : BrowserTask :=
  { task with
    state := if task.state = .finished then .finished else .expired
    tabIds := []
    expiresAt := if task.state.terminal then task.expiresAt else task.lastActivityAt }

def migrateV5Registry (d : Registry) : Except RegistryError Registry := do
  let recovered ← recoverV4Registry z d.toV4
  let tasks ← parseAll (taskParse z) ((deduplicateBy BrowserTask.taskId d.tasks).map migrateTask)
  registryV6Schema z ⟨d.updatedAt, recovered.sessions, tasks, [], []⟩

/-- The task that a session is given. -/
def sessionTaskId (sessionId : String) : String := "task-" ++ sessionId

def sessionTask (recovered : RegistryV4) (session : BrowserSession) : BrowserTask :=
  { taskId := sessionTaskId session.sessionId
    ownerScopeHash := "legacy-unclaimed"
    state := .suspended
    tabIds := (recovered.tabs.filter fun tab => tab.sessionId = session.sessionId).map (·.tabId)
    createdAt := session.createdAt
    lastActivityAt := session.lastUsedAt
    expiresAt := z.inTenMinutes }

def migrateV4Registry (d : RegistryV4) : Except RegistryError Registry := do
  let recovered ← recoverV4Registry z d
  let tasks ← parseAll (taskParse z) (recovered.sessions.map (sessionTask z recovered))
  let migrated ← parseShape (storageParse z)
    { updatedAt := recovered.updatedAt
      sessions := recovered.sessions
      tasks
      tabs := recovered.tabs.map fun tab => ⟨tab, sessionTaskId tab.sessionId, .taskScoped⟩
      bindings := recovered.bindings }
  migrateV5Registry z migrated

inductive LegacyDriver where
  | direct
  | mcp
  | cli
  deriving DecidableEq

inductive LegacyProfile where
  | defaultChrome
  | isolated
  | persistent
  deriving DecidableEq

structure LegacySession where
  sessionId : String
  driver : LegacyDriver
  mode : BrowserMode
  state : SessionState
  profileType : LegacyProfile
  routingReason : Option String
  routingPolicyReason : Option String
  fallbackFrom : Option LegacyDriver
  fallbackReason : Option String
  createdAt : String
  lastUsedAt : String
  deriving DecidableEq

structure LegacyTab where
  tabId : String
  sessionId : String
  driver : LegacyDriver
  remoteTabId : String
  remoteIndex : ℕ
  purpose : String
  reusable : Bool
  isProtected : Bool
  sticky : Bool
  createdAt : String
  lastUsedAt : String
  url : Option String
  title : Option String
  lockedUrl : Option String
  deriving DecidableEq

structure LegacyBinding extends BrowserTabBinding where
  driver : LegacyDriver
  deriving DecidableEq

structure RegistryV3 where
  updatedAt : String
  sessions : List LegacySession
  tabs : List LegacyTab
  bindings : List LegacyBinding
  deriving DecidableEq

def LegacySession.toSession (s : LegacySession) : BrowserSession :=
  ⟨s.sessionId, s.mode, s.state, s.routingReason, s.routingPolicyReason, s.createdAt, s.lastUsedAt⟩

def LegacyTab.toTab (t : LegacyTab) : UnifiedBrowserTabV4 :=
  { tabId := t.tabId, sessionId := t.sessionId, remoteTabId := t.remoteTabId, remoteIndex := t.remoteIndex
    purpose := t.purpose, reusable := t.reusable, isProtected := t.isProtected, sticky := t.sticky
    createdAt := t.createdAt, lastUsedAt := t.lastUsedAt, url := t.url, requestedUrl := none, title := t.title
    lockedUrl := t.lockedUrl }

def registryV3StorageSchema (d : RegistryV3) : Bool :=
  z.isDatetime d.updatedAt && d.sessions.length ≤ 100 &&
    d.sessions.all (fun s => browserSessionSchema z s.toSession && s.fallbackReason.all (sized 1 500)) &&
    d.tabs.length ≤ 500 && d.tabs.all (fun t => unifiedBrowserTabV4Schema z t.toTab) &&
    d.bindings.length ≤ 500 && d.bindings.all fun b => browserTabBindingSchema z b.toBrowserTabBinding

/-- The direct sessions of a persistent profile, with their tabs and bindings. -/
def RegistryV3.toV4 (d : RegistryV3) : RegistryV4 :=
  let sessions := d.sessions.filter fun s => s.driver = .direct && s.profileType = .persistent
  let sessionIds := sessions.map (·.sessionId)
  let tabs := d.tabs.filter fun t => t.driver = .direct && sessionIds.contains t.sessionId
  let tabIds := tabs.map (·.tabId)
  { updatedAt := d.updatedAt
    sessions := sessions.map (·.toSession)
    tabs := tabs.map (·.toTab)
    bindings := (d.bindings.filter fun b => b.driver = .direct && sessionIds.contains b.sessionId &&
      tabIds.contains b.tabId).map (·.toBrowserTabBinding) }

def migrateV3Registry (d : RegistryV3) : Except RegistryError Registry := do
  let sessions ← parseAll (sessionParse z) d.toV4.sessions
  let tabs ← parseAll (tabV4Parse z) d.toV4.tabs
  let bindings ← parseAll (bindingParse z) d.toV4.bindings
  let migrated ← parseShape (storageV4Parse z) ⟨d.updatedAt, sessions, tabs, bindings⟩
  migrateV4Registry z migrated

end Migration

section Files

/-- What the storage schema of its version has made of a file. -/
inductive Stored where
  | v3 (d : RegistryV3)
  | v4 (d : RegistryV4)
  | v5 (d : Registry)
  | v6 (d : Registry)
  deriving DecidableEq

/-- The storage schema returns it as it is. -/
def Stored.accepted : Stored → Bool
  | .v3 d => registryV3StorageSchema z d
  | .v4 d => registryV4StorageSchema z d
  | .v5 d => registryStorageSchema z d
  | .v6 d => registryStorageSchema z d

def load : Stored → Except RegistryError Registry
  | .v3 d => migrateV3Registry z d
  | .v4 d => migrateV4Registry z d
  | .v5 d => migrateV5Registry z d
  | .v6 d => recoverV6Registry z d

/-- What is written, at the time `now`. -/
def save (sessions : List BrowserSession) (tabs : List UnifiedBrowserTab) (bindings : List BrowserTabBinding)
    (tasks : List BrowserTask) (now : String) : Except RegistryError Registry :=
  if tabs ≠ [] ∧ tasks = [] then .error .tasksRequired
  else registryV6Schema z ⟨now, sessions, tasks, tabs, bindings⟩

end Files

end AccessStack.Browser
