import AccessStack.Keys
import AccessStack.Text

/-!
# The browser session registry

The sessions, tasks, tabs and remote bindings of the browser worker, as they
are stored and as they are read back. A stored registry is accepted by its
schema when its fields are in their bounds, and the schema returns its urls
without the blanks around them. What is read is recovered first:
the records of a key after the first one, the tabs without a session or a
binding and the sessions that are of no use are dropped.
-/

set_option autoImplicit false

namespace AccessStack.Browser
open AccessStack.Keys AccessStack.Text

section Records

inductive BrowserMode where
  | auto
  | interactive
  | efficient
  | diagnostic
  deriving DecidableEq

inductive SessionState where
  | starting
  | connected
  | disconnected
  | failed
  deriving DecidableEq

structure BrowserSession where
  sessionId : String
  mode : BrowserMode
  state : SessionState
  routingReason : Option String
  routingPolicyReason : Option String
  createdAt : String
  lastUsedAt : String
  deriving DecidableEq

inductive Lifecycle where
  | taskScoped
  | persistent
  | external
  deriving DecidableEq

structure UnifiedBrowserTabV4 where
  tabId : String
  sessionId : String
  remoteTabId : String
  remoteIndex : ℕ
  purpose : String
  reusable : Bool
  isProtected : Bool
  sticky : Bool
  createdAt : String
  lastUsedAt : String
  url : Option String
  requestedUrl : Option String
  title : Option String
  lockedUrl : Option String
  deriving DecidableEq

structure UnifiedBrowserTab extends UnifiedBrowserTabV4 where
  taskId : String
  lifecycle : Lifecycle
  deriving DecidableEq

inductive NavigationOperation where
  | navigate
  | click
  | press
  | goBack
  | goForward
  deriving DecidableEq

structure NavigationTransition where
  operation : NavigationOperation
  startedAt : String
  expiresAt : String
  expectedUrl : Option String
  deriving DecidableEq

structure BrowserTabBinding where
  tabId : String
  sessionId : String
  remoteTabId : String
  remoteIndex : ℕ
  url : String
  title : String
  remoteTabCount : Option ℕ
  navigation : Option NavigationTransition
  deriving DecidableEq

inductive TaskState where
  | active
  | suspended
  | finishing
  | finished
  | expired
  deriving DecidableEq

structure BrowserTask where
  taskId : String
  ownerScopeHash : String
  state : TaskState
  tabIds : List String
  createdAt : String
  lastActivityAt : String
  expiresAt : String
  deriving DecidableEq

structure RegistryV4 where
  updatedAt : String
  sessions : List BrowserSession
  tabs : List UnifiedBrowserTabV4
  bindings : List BrowserTabBinding
  deriving DecidableEq

/-- The registry of the versions five and six. -/
structure Registry where
  updatedAt : String
  sessions : List BrowserSession
  tasks : List BrowserTask
  tabs : List UnifiedBrowserTab
  bindings : List BrowserTabBinding
  deriving DecidableEq

end Records

section Schemas

/-- The format of times, what `z.url()` returns for a text that it accepts, the
order of `localeCompare` and the time ten minutes from now. A url that was
returned is returned again as it is. -/
structure Environment where
  isDatetime : String → Bool
  parseUrl : String → Option String
  parseUrl_again : ∀ text url, parseUrl text = some url → parseUrl url = some url
  localeLe : String → String → Bool
  localeLe_total : ∀ left right, localeLe left right = true ∨ localeLe right left = true
  localeLe_trans : ∀ a b c, localeLe a b = true → localeLe b c = true → localeLe a c = true
  inTenMinutes : String
  inTenMinutes_datetime : isDatetime inTenMinutes = true

variable (z : Environment)

/-- A text that `z.url()` returns as it is. -/
def Environment.isUrl (text : String) : Bool := z.parseUrl text = some text

/-- `z.string().min(least).max(most)` -/
def sized (least most : ℕ) (s : String) : Bool := least ≤ utf16Length s && utf16Length s ≤ most

def browserSessionSchema (s : BrowserSession) : Bool :=
  sized 1 128 s.sessionId && s.routingReason.all (sized 1 200) && s.routingPolicyReason.all (sized 1 200) &&
    z.isDatetime s.createdAt && z.isDatetime s.lastUsedAt

def unifiedBrowserTabV4Schema (t : UnifiedBrowserTabV4) : Bool :=
  sized 1 128 t.tabId && sized 1 128 t.sessionId && sized 1 256 t.remoteTabId && sized 1 200 t.purpose &&
    z.isDatetime t.createdAt && z.isDatetime t.lastUsedAt && t.url.all z.isUrl &&
      t.requestedUrl.all z.isUrl &&
    t.title.all (sized 0 500) && t.lockedUrl.all z.isUrl

def unifiedBrowserTabSchema (t : UnifiedBrowserTab) : Bool :=
  unifiedBrowserTabV4Schema z t.toUnifiedBrowserTabV4 && sized 1 128 t.taskId

def browserNavigationTransitionSchema (n : NavigationTransition) : Bool :=
  1 ≤ utf16Length n.startedAt && 1 ≤ utf16Length n.expiresAt && n.expectedUrl.all z.isUrl

def browserTabBindingSchema (b : BrowserTabBinding) : Bool :=
  sized 1 128 b.tabId && sized 1 128 b.sessionId && sized 1 256 b.remoteTabId && z.isUrl b.url &&
    sized 0 500 b.title && b.navigation.all (browserNavigationTransitionSchema z)

/-- The schemas of the tasks of both lifecycle versions. -/
def browserTaskSchema (t : BrowserTask) : Bool :=
  sized 1 128 t.taskId && sized 1 128 t.ownerScopeHash && t.tabIds.all (sized 1 128) &&
    t.tabIds.length ≤ 500 &&
    z.isDatetime t.createdAt && z.isDatetime t.lastActivityAt && z.isDatetime t.expiresAt

def registryV4StorageSchema (d : RegistryV4) : Bool :=
  z.isDatetime d.updatedAt && d.sessions.length ≤ 100 && d.sessions.all (browserSessionSchema z) &&
    d.tabs.length ≤ 500 && d.tabs.all (unifiedBrowserTabV4Schema z) &&
    d.bindings.length ≤ 500 && d.bindings.all (browserTabBindingSchema z)

/-- The storage schemas of the versions five and six. -/
def registryStorageSchema (d : Registry) : Bool :=
  z.isDatetime d.updatedAt && d.sessions.length ≤ 100 && d.sessions.all (browserSessionSchema z) &&
    d.tasks.length ≤ 500 && d.tasks.all (browserTaskSchema z) &&
    d.tabs.length ≤ 500 && d.tabs.all (unifiedBrowserTabSchema z) &&
    d.bindings.length ≤ 500 && d.bindings.all (browserTabBindingSchema z)

/-- What `z.url()` makes of a text; one that it refuses stays as it is. -/
def parsedUrl (text : String) : String := (z.parseUrl text).getD text

def parsedTabV4 (t : UnifiedBrowserTabV4) : UnifiedBrowserTabV4 :=
  { t with
    url := t.url.map (parsedUrl z), requestedUrl := t.requestedUrl.map (parsedUrl z)
    lockedUrl := t.lockedUrl.map (parsedUrl z) }

def parsedTab (t : UnifiedBrowserTab) : UnifiedBrowserTab :=
  { t with toUnifiedBrowserTabV4 := parsedTabV4 z t.toUnifiedBrowserTabV4 }

def parsedNavigation (n : NavigationTransition) : NavigationTransition :=
  { n with expectedUrl := n.expectedUrl.map (parsedUrl z) }

def parsedBinding (b : BrowserTabBinding) : BrowserTabBinding :=
  { b with url := parsedUrl z b.url, navigation := b.navigation.map (parsedNavigation z) }

def parsedV4 (d : RegistryV4) : RegistryV4 :=
  { d with tabs := d.tabs.map (parsedTabV4 z), bindings := d.bindings.map (parsedBinding z) }

def parsedRegistry (d : Registry) : Registry :=
  { d with tabs := d.tabs.map (parsedTab z), bindings := d.bindings.map (parsedBinding z) }

variable {z}

theorem parsedUrl_eq {text : String} (h : z.isUrl text = true) : parsedUrl z text = text := by
  rw [parsedUrl, of_decide_eq_true h]
  rfl

theorem map_parsed {α : Type} {accepts : α → Bool} {parsed : α → α}
    (hkept : ∀ x, accepts x = true → parsed x = x) {value : Option α}
    (h : value.all accepts = true) : value.map parsed = value := by
  cases value with
  | none => rfl
  | some x => exact congrArg some (hkept x h)

theorem maps_parsed {α : Type} {accepts : α → Bool} {parsed : α → α}
    (hkept : ∀ x, accepts x = true → parsed x = x) {values : List α}
    (h : values.all accepts = true) : values.map parsed = values := by
  rw [List.map_congr_left fun x hx => hkept x (List.all_eq_true.mp h x hx), List.map_id']

theorem parsedTabV4_eq (t : UnifiedBrowserTabV4) (h : unifiedBrowserTabV4Schema z t = true) :
    parsedTabV4 z t = t := by
  simp only [unifiedBrowserTabV4Schema, Bool.and_eq_true] at h
  obtain ⟨⟨⟨⟨_, hurl⟩, hrequested⟩, _⟩, hlocked⟩ := h
  simp only [parsedTabV4, map_parsed (fun _ => parsedUrl_eq) hurl,
    map_parsed (fun _ => parsedUrl_eq) hrequested, map_parsed (fun _ => parsedUrl_eq) hlocked]

theorem parsedTab_eq (t : UnifiedBrowserTab) (h : unifiedBrowserTabSchema z t = true) :
    parsedTab z t = t := by
  rw [parsedTab, parsedTabV4_eq _ (Bool.and_eq_true_iff.mp h).1]

theorem parsedNavigation_eq (n : NavigationTransition) (h : browserNavigationTransitionSchema z n = true) :
    parsedNavigation z n = n := by
  simp only [browserNavigationTransitionSchema, Bool.and_eq_true] at h
  simp only [parsedNavigation, map_parsed (fun _ => parsedUrl_eq) h.2]

theorem parsedBinding_eq (b : BrowserTabBinding) (h : browserTabBindingSchema z b = true) :
    parsedBinding z b = b := by
  simp only [browserTabBindingSchema, Bool.and_eq_true] at h
  simp only [parsedBinding, parsedUrl_eq h.1.1.2, map_parsed parsedNavigation_eq h.2]

theorem parsedV4_eq (d : RegistryV4) (h : registryV4StorageSchema z d = true) : parsedV4 z d = d := by
  simp only [registryV4StorageSchema, Bool.and_eq_true] at h
  simp only [parsedV4, maps_parsed parsedTabV4_eq h.1.1.2, maps_parsed parsedBinding_eq h.2]

theorem parsedRegistry_eq (d : Registry) (h : registryStorageSchema z d = true) : parsedRegistry z d = d := by
  simp only [registryStorageSchema, Bool.and_eq_true] at h
  simp only [parsedRegistry, maps_parsed parsedTab_eq h.1.1.2, maps_parsed parsedBinding_eq h.2]

end Schemas

section Issues

/-- `assertUnique`, with what it has seen. -/
def duplicates (label : String) : List String → List String → List String
  | _, [] => []
  | seen, key::rest =>
    (if key ∈ seen then ["Duplicate " ++ label ++ ": " ++ key ++ "."] else []) ++
      duplicates label (key::seen) rest

def BrowserTabBinding.matches (b : BrowserTabBinding) (t : UnifiedBrowserTabV4) : Bool :=
  b.sessionId = t.sessionId && b.remoteTabId = t.remoteTabId && b.remoteIndex = t.remoteIndex

def TaskState.terminal (state : TaskState) : Bool := state = .finished || state = .expired

def bindingIssues (tabIds : List String) (b : BrowserTabBinding) : List String :=
  if b.tabId ∈ tabIds then [] else ["Binding " ++ b.tabId ++ " does not have a registered tab."]

def tabIssuesV4 (d : RegistryV4) (t : UnifiedBrowserTabV4) : List String :=
  match lookup BrowserSession.sessionId d.sessions t.sessionId with
  | none => ["Tab " ++ t.tabId ++ " references a missing session."]
  | some _ =>
    match lookup BrowserTabBinding.tabId d.bindings t.tabId with
    | none => ["Tab " ++ t.tabId ++ " is missing its remote binding."]
    | some b => if b.matches t then [] else ["Tab " ++ t.tabId ++ " has an inconsistent remote binding."]

/-- What the refinement of the fourth version objects to. -/
def registryV4Issues (d : RegistryV4) : List String :=
  duplicates "sessionId" [] (d.sessions.map (·.sessionId)) ++ duplicates "tabId" [] (d.tabs.map (·.tabId)) ++
    duplicates "binding tabId" [] (d.bindings.map (·.tabId)) ++ d.tabs.flatMap (tabIssuesV4 d) ++
    d.bindings.flatMap (bindingIssues (d.tabs.map (·.tabId)))

def tabIssues (d : Registry) (t : UnifiedBrowserTab) : List String :=
  (match lookup BrowserSession.sessionId d.sessions t.sessionId with
    | none => ["Tab " ++ t.tabId ++ " references a missing session."]
    | some _ => []) ++
  (match lookup BrowserTask.taskId d.tasks t.taskId with
    | none => ["Tab " ++ t.tabId ++ " references a missing task."]
    | some task =>
      if t.tabId ∉ task.tabIds then ["Task " ++ task.taskId ++ " does not reference tab " ++ t.tabId ++ "."]
      else if task.state.terminal then
        ["Terminal task " ++ task.taskId ++ " cannot retain tab " ++ t.tabId ++ "."]
      else []) ++
  (match lookup BrowserTabBinding.tabId d.bindings t.tabId with
    | none => ["Tab " ++ t.tabId ++ " is missing its remote binding."]
    | some b =>
      if b.matches t.toUnifiedBrowserTabV4 then [] else ["Tab " ++ t.tabId ++
        " has an inconsistent remote binding."])

def taskIssues (d : Registry) (task : BrowserTask) : List String :=
  duplicates ("tab id in task " ++ task.taskId) [] task.tabIds ++
  (if task.state.terminal ∧ task.tabIds ≠ [] then
    ["Terminal task " ++ task.taskId ++ " must not retain tabs."]
    else []) ++
  task.tabIds.flatMap fun tabId =>
    match lookup (fun t : UnifiedBrowserTab => t.tabId) d.tabs tabId with
    | none => ["Task " ++ task.taskId ++ " references missing tab " ++ tabId ++ "."]
    | some t =>
      if t.taskId = task.taskId then []
      else ["Task " ++ task.taskId ++ " crosses into tab " ++ tabId ++ " owned by another task."]

/-- What the refinement of the sixth version objects to. -/
def registryV6Issues (d : Registry) : List String :=
  duplicates "sessionId" [] (d.sessions.map (·.sessionId)) ++
    duplicates "taskId" [] (d.tasks.map (·.taskId)) ++
    duplicates "tabId" [] (d.tabs.map (·.tabId)) ++
      duplicates "binding tabId" [] (d.bindings.map (·.tabId)) ++
    d.tabs.flatMap (tabIssues d) ++ d.tasks.flatMap (taskIssues d) ++
    d.bindings.flatMap (bindingIssues (d.tabs.map (·.tabId)))

end Issues

end AccessStack.Browser
