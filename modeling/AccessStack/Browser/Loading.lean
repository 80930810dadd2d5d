import AccessStack.Browser.Totality

/-!
# Loading a browser registry

What the recoveries and the migrations give to the schemas has the shape of
the schemas. A registry of the fifth version is always loaded, one of the
sixth where its tabs are listed and one of the older versions where the
identifiers of its sessions leave room for the names of their tasks.
-/

set_option autoImplicit false

namespace AccessStack.Browser
open AccessStack.Keys AccessStack.Text

variable {z : Environment}

section Shape

variable {d : Registry} {task : BrowserTask}

/-- The storage schema of the versions five and six as a structure. -/
structure Fits (z : Environment) (d : Registry) : Prop where
  updatedAt : z.isDatetime d.updatedAt = true
  sessionCount : d.sessions.length ≤ 100
  sessions : ∀ s ∈ d.sessions, browserSessionSchema z s = true
  taskCount : d.tasks.length ≤ 500
  tasks : ∀ task ∈ d.tasks, browserTaskSchema z task = true
  tabCount : d.tabs.length ≤ 500
  tabs : ∀ t ∈ d.tabs, unifiedBrowserTabSchema z t = true
  bindingCount : d.bindings.length ≤ 500
  bindings : ∀ b ∈ d.bindings, browserTabBindingSchema z b = true

theorem fits : registryStorageSchema z d = true ↔ Fits z d := by
  simp only [registryStorageSchema, Bool.and_eq_true, decide_eq_true_eq, List.all_eq_true]
  constructor
  · rintro ⟨⟨⟨⟨⟨⟨⟨⟨h1, h2⟩, h3⟩, h4⟩, h5⟩, h6⟩, h7⟩, h8⟩, h9⟩
    exact ⟨h1, h2, h3, h4, h5, h6, h7, h8, h9⟩
  · intro h
    exact ⟨⟨⟨⟨⟨⟨⟨⟨h.updatedAt, h.sessionCount⟩, h.sessions⟩, h.taskCount⟩, h.tasks⟩, h.tabCount⟩, h.tabs⟩,
      h.bindingCount⟩, h.bindings⟩

/-- The bounds of a task as a structure. -/
structure FitsTask (z : Environment) (task : BrowserTask) : Prop where
  taskId : sized 1 128 task.taskId = true
  owner : sized 1 128 task.ownerScopeHash = true
  tabIds : ∀ tabId ∈ task.tabIds, sized 1 128 tabId = true
  tabCount : task.tabIds.length ≤ 500
  createdAt : z.isDatetime task.createdAt = true
  lastActivityAt : z.isDatetime task.lastActivityAt = true
  expiresAt : z.isDatetime task.expiresAt = true

theorem fitsTask : browserTaskSchema z task = true ↔ FitsTask z task := by
  simp only [browserTaskSchema, Bool.and_eq_true, decide_eq_true_eq, List.all_eq_true]
  constructor
  · rintro ⟨⟨⟨⟨⟨⟨h1, h2⟩, h3⟩, h4⟩, h5⟩, h6⟩, h7⟩
    exact ⟨h1, h2, h3, h4, h5, h6, h7⟩
  · intro h
    exact ⟨⟨⟨⟨⟨⟨h.taskId, h.owner⟩, h.tabIds⟩, h.tabCount⟩, h.createdAt⟩, h.lastActivityAt⟩, h.expiresAt⟩

theorem Fits.toV4 (h : Fits z d) : FitsV4 z d.toV4 := by
  refine ⟨h.updatedAt, h.sessionCount, h.sessions, ?_, ?_, h.bindingCount, h.bindings⟩
  · rw [Registry.toV4, List.length_map]
    exact h.tabCount
  · intro t ht
    obtain ⟨tab, htab, rfl⟩ := List.mem_map.mp ht
    exact (Bool.and_eq_true_iff.mp (h.tabs tab htab)).1

/-- A task with fewer tabs fits. -/
theorem FitsTask.filter (h : FitsTask z task) (keep : String → Bool) :
    FitsTask z { task with tabIds := task.tabIds.filter keep } :=
  ⟨h.taskId, h.owner, fun tabId hmem => h.tabIds tabId (List.mem_filter.mp hmem).1,
    (List.length_filter_le _ _).trans h.tabCount, h.createdAt, h.lastActivityAt, h.expiresAt⟩

theorem recoverTask_fits (retained : List String) (h : FitsTask z task) :
    FitsTask z (recoverTask retained task) := by
  refine ⟨h.taskId, h.owner, ?_, ?_, h.createdAt, h.lastActivityAt, h.expiresAt⟩
  · intro tabId hmem
    simp only [recoverTask] at hmem
    split_ifs at hmem
    · cases hmem
    · exact h.tabIds tabId (List.mem_filter.mp hmem).1
  · simp only [recoverTask]
    split_ifs
    · exact Nat.zero_le 500
    · exact (List.length_filter_le _ _).trans h.tabCount

theorem migrateTask_fits (h : FitsTask z task) : FitsTask z (migrateTask task) := by
  refine ⟨h.taskId, h.owner, ?_, Nat.zero_le 500, h.createdAt, h.lastActivityAt, ?_⟩
  · intro tabId hmem
    cases hmem
  · simp only [migrateTask]
    split_ifs
    · exact h.expiresAt
    · exact h.lastActivityAt

end Shape

section Sixth

variable {d : Registry}

theorem finalTasks_fits (h : Fits z d) : ∀ task ∈ finalTasks z d, browserTaskSchema z task = true := by
  intro task htask
  obtain ⟨original, horiginal, rfl⟩ := List.mem_map.mp htask
  exact fitsTask.mpr (recoverTask_fits _ (fitsTask.mp (h.tasks original (deduplicateBy_subset horiginal))))

theorem finalTabs_fits (h : Fits z d) : ∀ t ∈ finalTabs z d, unifiedBrowserTabSchema z t = true := by
  intro t ht
  obtain ⟨task, hsurvives⟩ := mem_finalTabs.mp ht
  obtain ⟨original, horiginal, htaskId, -⟩ := hsurvives.owner
  have hv4 := h.toV4.tabs _ (recoverTabs_subset (finalTabs_recovered ht))
  have hsized := (Bool.and_eq_true_iff.mp (h.tabs original (lookup_mem horiginal).1)).2
  rw [htaskId] at hsized
  exact Bool.and_eq_true_iff.mpr ⟨hv4, hsized⟩

theorem final_fits (h : Fits z d) : Fits z (final z d) := by
  have hv4 := recoveredV4_fits h.toV4
  refine ⟨h.updatedAt, hv4.sessionCount, hv4.sessions, ?_, ?_, ?_, finalTabs_fits h, ?_, ?_⟩
  · simp only [final, finalTasks, recoverTasks, List.length_map]
    exact (deduplicateBy_sublist _).length_le.trans h.taskCount
  · intro task htask
    obtain ⟨found, hfound, rfl⟩ := List.mem_map.mp htask
    exact fitsTask.mpr ((fitsTask.mp (finalTasks_fits h found hfound)).filter _)
  · have hlength : (recoverTabs z d.toV4).length ≤ 500 := recoveredV4_tabs (z := z) ▸ hv4.tabCount
    exact (List.length_filterMap_le _ _).trans hlength
  · exact (List.length_filter_le _ _).trans hv4.bindingCount
  · intro b hb
    exact hv4.bindings b (List.mem_filter.mp hb).1

/-- A recovery gives its result to the schema. -/
theorem recoverV6_eq (h : Fits z d) : recoverV6Registry z d = registryV6Schema z (final z d) := by
  have htasks : parseAll (taskParse z) (recoverTasks ((recoveredV4 z d.toV4).tabs.map (·.tabId)) d.tasks) =
      .ok (finalTasks z d) := by
    rw [recoveredV4_tabs]
    exact parseAll_ok (finalTasks_fits h)
  have htabs : parseAll (tabParse z)
      ((recoveredV4 z d.toV4).tabs.filterMap (recoverTab d (restorableTaskIds (finalTasks z d)))) =
      .ok (finalTabs z d) := by
    rw [recoveredV4_tabs]
    exact parseAll_ok (finalTabs_fits h)
  rw [recoverV6Registry, recoverV4_ok h.toV4]
  show (parseAll (taskParse z) _ >>= _) = _
  rw [htasks]
  show (parseAll (tabParse z) _ >>= _) = _
  rw [htabs]
  rfl

theorem registryV6_ok {r : Registry} (h : Fits z d) : registryV6Schema z d = .ok r ↔ Consistent d ∧
    d = r := by
  have hkept : (storageParse z).output d = d := parsedRegistry_eq d (fits.mpr h)
  have hholds : (storageParse z).holds d = true := fits.mpr h
  rw [registryV6Schema, refine_ok, hkept, registryV6Issues_nil, hholds, eq_self_iff_true, true_and]

theorem recoverV6_ok {r : Registry} (h : Fits z d) : recoverV6Registry z d = .ok r ↔ Listed d ∧
    final z d = r := by
  rw [recoverV6_eq h, registryV6_ok (final_fits h), final_consistent]

end Sixth

section Fifth

variable {d : Registry}

/-- A registry of the fifth version after its migration. -/
def migrated (z : Environment) (d : Registry) : Registry :=
  ⟨d.updatedAt, (recoveredV4 z d.toV4).sessions,
    (deduplicateBy BrowserTask.taskId d.tasks).map migrateTask, [], []⟩

theorem migrateTask_terminal (task : BrowserTask) : (migrateTask task).state.terminal = true := by
  simp only [migrateTask]
  split_ifs <;> rfl

theorem migrated_consistent : Consistent (migrated z d) := by
  have hids : (migrated z d).tasks.map (·.taskId) = (deduplicateBy BrowserTask.taskId d.tasks).map
      (·.taskId) := by
    rw [migrated, List.map_map]
    rfl
  refine ⟨recoveredV4_consistent.sessionIds, ?_, List.nodup_nil, List.nodup_nil, ?_, ?_, ?_⟩
  · rw [hids]
    exact nodup_deduplicateBy _
  · intro t ht
    cases ht
  · intro task htask
    obtain ⟨original, -, rfl⟩ := List.mem_map.mp htask
    exact ⟨List.nodup_nil, fun _ => rfl, fun tabId hmem => by cases hmem⟩
  · intro b hb
    cases hb

theorem migratedTasks_fits (h : Fits z d) :
    ∀ task ∈ (migrated z d).tasks, browserTaskSchema z task = true := by
  intro task htask
  obtain ⟨original, horiginal, rfl⟩ := List.mem_map.mp htask
  exact fitsTask.mpr (migrateTask_fits (fitsTask.mp (h.tasks original (deduplicateBy_subset horiginal))))

theorem migrated_fits (h : Fits z d) : Fits z (migrated z d) := by
  have hv4 := recoveredV4_fits h.toV4
  refine ⟨h.updatedAt, hv4.sessionCount, hv4.sessions, ?_, migratedTasks_fits h, Nat.zero_le 500,
    ?_, Nat.zero_le 500, ?_⟩
  · simp only [migrated, List.length_map]
    exact (deduplicateBy_sublist _).length_le.trans h.taskCount
  · intro t ht
    cases ht
  · intro b hb
    cases hb

/-- A registry of the fifth version is always migrated. -/
theorem migrateV5_ok (h : Fits z d) : migrateV5Registry z d = .ok (migrated z d) := by
  have htasks : parseAll (taskParse z) ((deduplicateBy BrowserTask.taskId d.tasks).map migrateTask) =
      .ok (migrated z d).tasks := parseAll_ok (migratedTasks_fits h)
  rw [migrateV5Registry, recoverV4_ok h.toV4]
  show (parseAll (taskParse z) _ >>= _) = _
  rw [htasks]
  exact (registryV6_ok (migrated_fits h)).mpr ⟨migrated_consistent, rfl⟩

end Fifth

section Fourth

variable {d : RegistryV4}

/-- The session is left: a tab that survives has it or its last record says
that it was disconnected. -/
def Retained (d : RegistryV4) (sessionId : String) : Prop :=
  (∃ t, Surviving d t ∧ t.sessionId = sessionId) ∨
    (lookup BrowserSession.sessionId d.sessions sessionId).map (·.state) = some .disconnected

/-- The names of the tasks of the sessions that are left are short enough. -/
def Nameable (d : RegistryV4) : Prop := ∀ sessionId, Retained d sessionId → utf16Length sessionId ≤ 123

theorem retained_iff {sessionId : String} :
    sessionId ∈ (recoveredV4 z d).sessions.map (·.sessionId) ↔ Retained d sessionId := by
  constructor
  · intro hmem
    obtain ⟨s, hs, rfl⟩ := List.mem_map.mp hmem
    exact (mem_retainedSessions.mp hs).2
  · intro h
    have hknown : sessionId ∈ d.sessions.map (·.sessionId) := by
      rcases h with ⟨t, ht, rfl⟩ | hstate
      · exact ht.session
      · rw [← lookup_isSome]
        cases hfind : lookup BrowserSession.sessionId d.sessions sessionId with
        | none => simp [hfind] at hstate
        | some s => rfl
    obtain ⟨s, hs, rfl⟩ := List.mem_map.mp (mem_recoverSessions_ids (z := z).mpr hknown)
    exact List.mem_map.mpr ⟨s, mem_retainedSessions.mpr ⟨hs, h⟩, rfl⟩

theorem sessionTaskId_length (sessionId : String) :
    utf16Length (sessionTaskId sessionId) = utf16Length sessionId + 5 := by
  simp [utf16Length, sessionTaskId, String.toList_append]
  omega

theorem sessionTaskId_sized {sessionId : String} :
    sized 1 128 (sessionTaskId sessionId) = true ↔ utf16Length sessionId ≤ 123 := by
  rw [sized, sessionTaskId_length, Bool.and_eq_true, decide_eq_true_eq, decide_eq_true_eq]
  omega

theorem sessionTask_fits (h : FitsV4 z d) {s : BrowserSession} (hs : browserSessionSchema z s = true)
    (hname : utf16Length s.sessionId ≤ 123) : FitsTask z (sessionTask z d s) := by
  simp only [browserSessionSchema, Bool.and_eq_true] at hs
  have howner : sized 1 128 "legacy-unclaimed" = true := by decide
  refine ⟨sessionTaskId_sized.mpr hname, howner, ?_, ?_, hs.1.2, hs.2, z.inTenMinutes_datetime⟩
  · intro tabId hmem
    obtain ⟨t, ht, rfl⟩ := List.mem_map.mp hmem
    have htab := h.tabs t (List.mem_filter.mp ht).1
    simp only [unifiedBrowserTabV4Schema, Bool.and_eq_true] at htab
    exact htab.1.1.1.1.1.1.1.1.1
  · simp only [sessionTask, List.length_map]
    exact (List.length_filter_le _ _).trans h.tabCount

/-- What a migration gives to the storage schema of the fifth version. -/
def tasked (z : Environment) (d : RegistryV4) : Registry :=
  { updatedAt := d.updatedAt
    sessions := d.sessions
    tasks := d.sessions.map (sessionTask z d)
    tabs := d.tabs.map fun tab => ⟨tab, sessionTaskId tab.sessionId, .taskScoped⟩
    bindings := d.bindings }

theorem tasked_fits (h : FitsV4 z d) (hnames : ∀ s ∈ d.sessions, utf16Length s.sessionId ≤ 123)
    (hsessions : ∀ t ∈ d.tabs, t.sessionId ∈ d.sessions.map (·.sessionId)) : Fits z (tasked z d) := by
  refine ⟨h.updatedAt, h.sessionCount, h.sessions, ?_, ?_, ?_, ?_, h.bindingCount, h.bindings⟩
  · simp only [tasked, List.length_map]
    exact h.sessionCount.trans (by omega)
  · intro task htask
    obtain ⟨s, hs, rfl⟩ := List.mem_map.mp htask
    exact fitsTask.mpr (sessionTask_fits h (h.sessions s hs) (hnames s hs))
  · simp only [tasked, List.length_map]
    exact h.tabCount
  · intro t ht
    obtain ⟨tab, htab, rfl⟩ := List.mem_map.mp ht
    obtain ⟨s, hs, hid⟩ := List.mem_map.mp (hsessions tab htab)
    refine Bool.and_eq_true_iff.mpr ⟨h.tabs tab htab, sessionTaskId_sized.mpr ?_⟩
    rw [← hid]
    exact hnames s hs

theorem migrateV4_ok (h : FitsV4 z d) (hnames : Nameable d) :
    migrateV4Registry z d = .ok (migrated z (tasked z (recoveredV4 z d))) := by
  have hv4 := recoveredV4_fits (z := z) h
  have hshort : ∀ s ∈ (recoveredV4 z d).sessions, utf16Length s.sessionId ≤ 123 := fun s hs =>
    hnames s.sessionId (retained_iff.mp (List.mem_map_of_mem hs))
  have hfits := tasked_fits hv4 hshort fun t ht => (recoveredV4_consistent.tab t ht).session
  have htasks : parseAll (taskParse z)
      ((recoveredV4 z d).sessions.map (sessionTask z (recoveredV4 z d))) = .ok
          (tasked z (recoveredV4 z d)).tasks :=
    parseAll_ok hfits.tasks
  have hshape : parseShape (storageParse z) (tasked z (recoveredV4 z d)) = .ok (tasked z (recoveredV4 z d)) :=
    parseShape_ok (fits.mpr hfits)
  rw [migrateV4Registry, recoverV4_ok h]
  show (parseAll (taskParse z) _ >>= _) = _
  rw [htasks]
  show (parseShape (storageParse z) (tasked z (recoveredV4 z d)) >>= _) = _
  rw [hshape]
  exact migrateV5_ok hfits

theorem migrateV4_error (h : FitsV4 z d) (hnames : ¬ Nameable d) : ∃ e, migrateV4Registry z d = .error e := by
  rw [Nameable] at hnames
  push Not at hnames
  obtain ⟨sessionId, hretained, hlong⟩ := hnames
  obtain ⟨s, hs, rfl⟩ := List.mem_map.mp (retained_iff (z := z).mpr hretained)
  have hschema : browserTaskSchema z (sessionTask z (recoveredV4 z d) s) = false := by
    rw [Bool.eq_false_iff]
    intro hfits
    have := sessionTaskId_sized.mp (fitsTask.mp hfits).taskId
    omega
  obtain ⟨e, he⟩ : ∃ e,
    parseAll (taskParse z) ((recoveredV4 z d).sessions.map (sessionTask z (recoveredV4 z d))) =
      .error e := parseAll_error (List.mem_map_of_mem hs) hschema
  refine ⟨e, ?_⟩
  rw [migrateV4Registry, recoverV4_ok h]
  show (parseAll (taskParse z) _ >>= _) = _
  rw [he]
  rfl

end Fourth

section Third

variable {d : RegistryV3}

theorem fitsV3_toV4 (h : registryV3StorageSchema z d = true) : FitsV4 z d.toV4 := by
  simp only [registryV3StorageSchema, Bool.and_eq_true, decide_eq_true_eq, List.all_eq_true] at h
  obtain ⟨⟨⟨⟨⟨⟨hupdated, hsessionCount⟩, hsessions⟩, htabCount⟩, htabs⟩, hbindingCount⟩, hbindings⟩ := h
  refine ⟨hupdated, ?_, ?_, ?_, ?_, ?_, ?_⟩
  · simp only [RegistryV3.toV4, List.length_map]
    exact (List.length_filter_le _ _).trans hsessionCount
  · intro s hs
    obtain ⟨original, horiginal, rfl⟩ := List.mem_map.mp hs
    exact (hsessions original (List.mem_filter.mp horiginal).1).1
  · simp only [RegistryV3.toV4, List.length_map]
    exact (List.length_filter_le _ _).trans htabCount
  · intro t ht
    obtain ⟨original, horiginal, rfl⟩ := List.mem_map.mp ht
    exact htabs original (List.mem_filter.mp horiginal).1
  · simp only [RegistryV3.toV4, List.length_map]
    exact (List.length_filter_le _ _).trans hbindingCount
  · intro b hb
    obtain ⟨original, horiginal, rfl⟩ := List.mem_map.mp hb
    exact hbindings original (List.mem_filter.mp horiginal).1

theorem migrateV3_eq (h : registryV3StorageSchema z d = true) :
    migrateV3Registry z d = migrateV4Registry z d.toV4 := by
  have hv4 := fitsV3_toV4 h
  have hshape : parseShape (storageV4Parse z) d.toV4 = .ok d.toV4 := parseShape_ok (fitsV4.mpr hv4)
  rw [migrateV3Registry, parseAll_ok hv4.sessions, parseAll_ok hv4.tabs, parseAll_ok hv4.bindings]
  show (parseShape (storageV4Parse z) d.toV4 >>= _) = _
  rw [hshape]
  rfl

end Third

section Files

/-- A file is loaded, nothing in it is against the rules and no session is
live and no task in use. -/
def Recovers (z : Environment) (stored : Stored) : Prop :=
  ∃ r, load z stored = .ok r ∧ registryV6Schema z r = .ok r ∧ (∀ s ∈ r.sessions, s.state.live = false) ∧
    ∀ task ∈ r.tasks, task.state ≠ .active ∧ task.state ≠ .finishing

def Loadable : Stored → Prop
  | .v3 d => Nameable d.toV4
  | .v4 d => Nameable d
  | .v5 _ => True
  | .v6 d => Listed d

theorem terminal_unused {state : TaskState} (h : state.terminal = true) :
    state ≠ .active ∧ state ≠ .finishing := by
  cases state <;> simp_all [TaskState.terminal]

theorem recovered_unused (state : TaskState) : state.recovered ≠ .active ∧ state.recovered ≠ .finishing := by
  cases state <;> decide

theorem migrated_recovers {stored : Stored} {d : Registry} (h : Fits z d)
    (hload : load z stored = .ok (migrated z d)) :
    Recovers z stored := by
  refine ⟨_, hload, (registryV6_ok (migrated_fits h)).mpr ⟨migrated_consistent, rfl⟩, ?_, ?_⟩
  · intro s hs
    exact recoveredV4_live hs
  · intro task htask
    obtain ⟨original, -, rfl⟩ := List.mem_map.mp htask
    exact terminal_unused (migrateTask_terminal original)

theorem final_recovers {d : Registry} (h : Fits z d) (hlisted : Listed d) : Recovers z (.v6 d) := by
  refine ⟨final z d, (recoverV6_ok h).mpr ⟨hlisted, rfl⟩,
    (registryV6_ok (final_fits h)).mpr ⟨final_consistent.mpr hlisted, rfl⟩, ?_, ?_⟩
  · intro s hs
    exact recoveredV4_live hs
  · intro task htask
    obtain ⟨original, -, rfl⟩ := mem_final_tasks.mp htask
    exact recovered_unused original.state

theorem migrateV4_recovers {stored : Stored} {d : RegistryV4} (h : FitsV4 z d)
    (hload : load z stored = migrateV4Registry z d) : Recovers z stored ↔ Nameable d := by
  constructor
  · rintro ⟨r, hr, -⟩
    by_contra hnames
    obtain ⟨e, he⟩ := migrateV4_error h hnames
    rw [hload, he] at hr
    cases hr
  · intro hnames
    have hv4 := recoveredV4_fits (z := z) h
    apply migrated_recovers (d := tasked z (recoveredV4 z d))
    · apply tasked_fits hv4
      · intro s hs
        exact hnames s.sessionId (retained_iff.mp (List.mem_map_of_mem hs))
      · intro t ht
        exact (recoveredV4_consistent.tab t ht).session
    · rw [hload, migrateV4_ok h hnames]

/-- Which of the files that a storage schema accepts are recovered. -/
theorem load_recovers_iff (z : Environment) (stored : Stored) (h : stored.accepted z = true) :
    Recovers z stored ↔ Loadable stored := by
  cases stored with
  | v3 d => exact migrateV4_recovers (fitsV3_toV4 h) (migrateV3_eq h)
  | v4 d => exact migrateV4_recovers (fitsV4.mp h) rfl
  | v5 d => exact ⟨fun _ => trivial, fun _ => migrated_recovers (fits.mp h) (migrateV5_ok (fits.mp h))⟩
  | v6 d =>
    constructor
    · rintro ⟨r, hr, -⟩
      exact ((recoverV6_ok (fits.mp h)).mp hr).1
    · exact final_recovers (fits.mp h)

end Files

section Samples

def sampleTime : String := "2026-01-05T10:00:00.000Z"

/-- One url is accepted, also with a blank before it. -/
def sampleUrl (text : String) : Option String :=
  if text = "https://app.test/" ∨ text = " https://app.test/" then some "https://app.test/" else none

theorem sampleUrl_again (text url : String) (h : sampleUrl text = some url) : sampleUrl url = some url := by
  unfold sampleUrl at h
  split_ifs at h
  cases h
  rfl

def sampleEnvironment : Environment :=
  { isDatetime := fun s => s = sampleTime || s = "2026-01-05T10:10:00.000Z"
    parseUrl := sampleUrl
    parseUrl_again := sampleUrl_again
    localeLe := fun left right => decide (left ≤ right)
    localeLe_total := fun left right => by simpa using le_total left right
    localeLe_trans := fun a b c hab hbc => by
      simpa using le_trans (of_decide_eq_true hab) (of_decide_eq_true hbc)
    inTenMinutes := "2026-01-05T10:10:00.000Z"
    inTenMinutes_datetime := by decide }

def sampleSession : BrowserSession := ⟨"session-1", .auto, .connected, none, none, sampleTime, sampleTime⟩

def sampleTab : UnifiedBrowserTab :=
  { tabId := "tab-1", sessionId := "session-1", remoteTabId := "remote-1", remoteIndex := 0, purpose := "work"
    reusable := true, isProtected := false, sticky := false, createdAt := sampleTime, lastUsedAt := sampleTime
    url := none, requestedUrl := none, title := none, lockedUrl := none, taskId := "task-1",
    lifecycle := .taskScoped }

def sampleBinding : BrowserTabBinding :=
  ⟨"tab-1", "session-1", "remote-1", 0, "https://app.test/", "App", none, none⟩

def sampleTask : BrowserTask := ⟨"task-1", "owner-1", .active, ["tab-1"], sampleTime, sampleTime, sampleTime⟩

def sampleRegistry : Registry := ⟨sampleTime, [sampleSession], [sampleTask], [sampleTab], [sampleBinding]⟩

/-- The task does not list its tab. -/
def unlistedRegistry : Registry := { sampleRegistry with tasks := [{ sampleTask with tabIds := [] }] }

/-- The session has no tab and was disconnected, with an identifier of the
greatest length. -/
def longRegistry : RegistryV4 :=
  ⟨sampleTime,
    [{ sampleSession with sessionId := String.ofList (List.replicate 128 's'),
                          state := .disconnected }], [], []⟩

/-- The second tab of the task has no binding and is dropped. -/
def unboundRegistry : Registry :=
  { sampleRegistry with
    tasks := [{ sampleTask with tabIds := ["tab-1", "tab-2"] }]
    tabs := [sampleTab, { sampleTab with tabId := "tab-2", remoteTabId := "remote-2", remoteIndex := 1 }] }

theorem load_recovers_iff_sample : (Stored.v6 unboundRegistry).accepted sampleEnvironment = true ∧
    Recovers sampleEnvironment (.v6 unboundRegistry) := by
  have hrun : (Stored.v6 unboundRegistry).accepted sampleEnvironment = true ∧
      registryV6Issues (final sampleEnvironment unboundRegistry) = [] := by decide +kernel
  obtain ⟨haccepted, hissues⟩ := hrun
  have hlisted : Listed unboundRegistry := final_consistent.mp (registryV6Issues_nil.mp hissues)
  exact ⟨haccepted, (load_recovers_iff sampleEnvironment (.v6 unboundRegistry) haccepted).mpr hlisted⟩

theorem not_recovered {stored : Stored} {e : RegistryError} (h : load sampleEnvironment stored = .error e) :
    ¬ Recovers sampleEnvironment stored := by
  rintro ⟨r, hr, -⟩
  rw [h] at hr
  cases hr

theorem unlisted_not_recovered : ((Stored.v6 unlistedRegistry).accepted sampleEnvironment = true ∧
      ¬ Recovers sampleEnvironment (.v6 unlistedRegistry)) ∧
    (Stored.v4 longRegistry).accepted sampleEnvironment = true ∧
      ¬ Recovers sampleEnvironment (.v4 longRegistry) := by
  have hunlisted : load sampleEnvironment (.v6 unlistedRegistry) =
      .error (.issues ["Task task-1 does not reference tab tab-1."]) := by decide +kernel
  have hlong : load sampleEnvironment (.v4 longRegistry) = .error .shape := by decide +kernel
  exact ⟨⟨by decide +kernel, not_recovered hunlisted⟩, by decide +kernel, not_recovered hlong⟩

end Samples

end AccessStack.Browser
