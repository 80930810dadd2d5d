import AccessStack.Browser.Loading

/-!
# A restart keeps what was consistent

A registry that the schema of the sixth version accepts comes back with its
tabs and bindings as the schema returns them, with its tasks out of use and
with the sessions of its tabs disconnected. What was loaded is loaded again as
it is.
-/

set_option autoImplicit false

namespace AccessStack.Browser
open AccessStack.Keys AccessStack.Text

variable {z : Environment}

section Lists

variable {α : Type} {xs : List α}

theorem filterMap_of_forall {f : α → Option α} (h : ∀ x ∈ xs, f x = some x) : xs.filterMap f = xs := by
  induction xs with
  | nil => rfl
  | cons x xs ih =>
    rw [List.filterMap_cons_some (h x List.mem_cons_self), ih fun y hy => h y (List.mem_cons_of_mem x hy)]

theorem find_of_nodup {κ : Type} [DecidableEq κ] {keyOf : α → κ} {x : α} (h : (xs.map keyOf).Nodup)
    (hx : x ∈ xs) :
    xs.find? (fun y => keyOf y = keyOf x) = some x := by
  rw [← mem_deduplicateBy, deduplicateBy_eq h]
  exact hx

theorem map_of_forall {f : α → α} (h : ∀ x ∈ xs, f x = x) : xs.map f = xs := by
  rw [List.map_congr_left h, List.map_id']

end Lists

section Restored

variable {d : Registry}

theorem Registry.toV4_tabIds (d : Registry) : d.toV4.tabs.map (·.tabId) = d.tabs.map (·.tabId) := by
  rw [Registry.toV4, List.map_map]
  rfl

/-- Every tab of a consistent registry survives. -/
theorem consistent_surviving (h : Consistent d) {t : UnifiedBrowserTab} (ht : t ∈ d.tabs) :
    Surviving d.toV4 t.toUnifiedBrowserTabV4 := by
  obtain ⟨⟨hsession, b, hb, hid, hmatch⟩, -⟩ := h.tab t ht
  have hnodup : (d.toV4.tabs.map (·.tabId)).Nodup := d.toV4_tabIds ▸ h.tabIds
  refine ⟨find_of_nodup hnodup (List.mem_map_of_mem ht), hsession, b, ?_, hmatch⟩
  rw [← hid]
  exact find_of_nodup h.bindingIds hb

theorem consistent_open (h : Consistent d) {t : UnifiedBrowserTab} (ht : t ∈ d.tabs) :
    ∃ task, Survives d t task := by
  obtain ⟨-, task, htask, hid, hlists⟩ := h.tab t ht
  refine ⟨task, consistent_surviving h ht, ⟨t, lookup_of_mem h.tabIds ht, rfl, rfl⟩, ?_, ?_⟩
  · rw [← hid]
    exact find_of_nodup h.taskIds htask
  · by_contra hterminal
    rw [Bool.not_eq_false] at hterminal
    rw [(h.task task htask).2.1 hterminal] at hlists
    cases hlists

theorem consistent_recoverTabs (h : Consistent d) : recoverTabs z d.toV4 = d.toV4.tabs := by
  have hnodup : (d.toV4.tabs.map (·.tabId)).Nodup := d.toV4_tabIds ▸ h.tabIds
  have hall : ∀ t ∈ d.toV4.tabs, t ∈ recoverTabs z d.toV4 := by
    intro t ht
    obtain ⟨tab, htab, rfl⟩ := List.mem_map.mp ht
    exact mem_recoverTabs.mpr (consistent_surviving h htab)
  have hfilter : deduplicateBy UnifiedBrowserTabV4.tabId d.toV4.tabs = d.toV4.tabs := deduplicateBy_eq hnodup
  rw [recoverTabs] at hall ⊢
  rw [hfilter] at hall ⊢
  exact List.filter_eq_self.mpr fun t ht => (List.mem_filter.mp (hall t ht)).2

theorem consistent_finalTabs (h : Consistent d) : finalTabs z d = d.tabs := by
  rw [finalTabs, consistent_recoverTabs h, Registry.toV4, List.filterMap_map]
  apply filterMap_of_forall
  intro t ht
  obtain ⟨task, hsurvives⟩ := consistent_open h ht
  have hrestorable : t.taskId ∈ restorableTaskIds (finalTasks z d) :=
    mem_restorable.mpr ⟨task, hsurvives.held, hsurvives.resumable⟩
  have hlookup : lookup (fun t : UnifiedBrowserTab => t.tabId) d.tabs t.tabId = some t :=
    lookup_of_mem h.tabIds ht
  show (lookup _ d.tabs t.tabId).bind _ = some t
  rw [hlookup]
  show (if (restorableTaskIds (finalTasks z d)).contains t.taskId then _ else _) = _
  rw [if_pos (List.contains_iff_mem.mpr hrestorable)]

/-- A task out of use. -/
def restTask (task : BrowserTask) : BrowserTask := { task with state := task.state.recovered }

theorem consistent_keeps (h : Consistent d) {task : BrowserTask} (htask : task ∈ d.tasks) :
    keepTabs ((finalTabs z d).map (·.tabId)) (recoverTask ((recoverTabs z d.toV4).map (·.tabId)) task) =
      restTask task := by
  have hids := @final_tabIds z d task
  have heq : (if task.state.terminal then [] else
      task.tabIds.filter fun tabId => ((finalTabs z d).map (·.tabId)).contains tabId) = task.tabIds := by
    obtain ⟨-, hterminal, hlisted⟩ := h.task task htask
    split_ifs with hstate
    · exact (hterminal hstate).symm
    · apply List.filter_eq_self.mpr
      intro tabId hmem
      obtain ⟨t, ht, rfl, -⟩ := hlisted tabId hmem
      rw [consistent_finalTabs h]
      exact List.contains_iff_mem.mpr (List.mem_map_of_mem ht)
  rw [heq] at hids
  rw [restTask, keepTabs]
  simp only [keepTabs] at hids
  rw [hids]
  rfl

/-- A binding is one of a tab and of its session. -/
theorem consistent_binding (h : Consistent d) {b : BrowserTabBinding} (hb : b ∈ d.bindings) :
    ∃ t ∈ d.tabs, t.tabId = b.tabId ∧ t.sessionId = b.sessionId := by
  obtain ⟨t, ht, hid⟩ := List.mem_map.mp (h.binding b hb)
  obtain ⟨⟨-, other, hother, hotherId, hmatch⟩, -⟩ := h.tab t ht
  obtain rfl : other = b := List.inj_on_of_nodup_map h.bindingIds hother hb (hotherId.trans hid)
  simp only [BrowserTabBinding.matches, Bool.and_eq_true, decide_eq_true_eq] at hmatch
  exact ⟨t, ht, hid, hmatch.1.1.symm⟩

theorem consistent_bindings (h : Consistent d) : (final z d).bindings = d.bindings := by
  have hdistinct : deduplicateBy BrowserTabBinding.tabId d.toV4.bindings = d.bindings :=
    deduplicateBy_eq h.bindingIds
  have hkept : (recoveredV4 z d.toV4).bindings = d.bindings := by
    rw [recoveredV4, hdistinct]
    apply List.filter_eq_self.mpr
    intro b hb
    obtain ⟨t, ht, hid, hsession⟩ := consistent_binding h hb
    have hmem : t.toUnifiedBrowserTabV4 ∈ recoverTabs z d.toV4 :=
      mem_recoverTabs.mpr (consistent_surviving h ht)
    simp only [Bool.and_eq_true, List.contains_iff_mem]
    rw [← hid, ← hsession]
    exact ⟨List.mem_map_of_mem hmem, recoverTabs_session hmem⟩
  show (recoveredV4 z d.toV4).bindings.filter _ = _
  rw [hkept, consistent_finalTabs h]
  exact List.filter_eq_self.mpr fun b hb => List.contains_iff_mem.mpr (h.binding b hb)

/-- What is left of a consistent registry. -/
theorem consistent_final (h : Consistent d) : final z d =
    ⟨d.updatedAt, (recoveredV4 z d.toV4).sessions, d.tasks.map restTask, d.tabs, d.bindings⟩ := by
  have htasks : (final z d).tasks = d.tasks.map restTask := by
    show (finalTasks z d).map _ = _
    rw [finalTasks, recoverTasks, deduplicateBy_eq h.taskIds, List.map_map]
    exact List.map_congr_left fun task htask => consistent_keeps h htask
  rw [← htasks, ← consistent_finalTabs (z := z) h, ← consistent_bindings (z := z) h]
  rfl

theorem consistent_listed (z : Environment) (h : Consistent d) : Listed d := by
  intro t task hsurvives other hother hopen
  have hmem : t ∈ d.tabs := by
    rw [← consistent_finalTabs (z := z) h]
    exact mem_finalTabs.mpr ⟨task, hsurvives⟩
  obtain ⟨hnodup, -, hlisted⟩ := h.task other (List.mem_of_find?_eq_some hother)
  split_ifs with heq
  · subst heq
    obtain ⟨-, owner, howner, hid, hlists⟩ := h.tab t hmem
    have hfind : d.tasks.find? (fun found => found.taskId = t.taskId) = some owner := by
      rw [← hid]
      exact find_of_nodup h.taskIds howner
    obtain rfl : owner = other := Option.some.inj (hfind.symm.trans hsurvives.held)
    exact List.count_eq_one_of_mem hnodup hlists
  · apply List.count_eq_zero_of_not_mem
    intro hlists
    obtain ⟨same, hsame, hid, htaskId⟩ := hlisted t.tabId hlists
    obtain rfl : same = t := List.inj_on_of_nodup_map h.tabIds hsame hmem hid
    rw [← htaskId] at hother
    exact heq (Option.some.inj (hother.symm.trans hsurvives.held))

end Restored

section Sorted

variable {sessions : List BrowserSession} {d : Registry}

/-- The latest session first. -/
def latestFirst (z : Environment) (left right : BrowserSession) : Prop :=
  z.localeLe right.lastUsedAt left.lastUsedAt = true

instance : DecidableRel (latestFirst z) := fun left right =>
  inferInstanceAs (Decidable (z.localeLe right.lastUsedAt left.lastUsedAt = true))

theorem recoverSessions_sorted : (recoverSessions z sessions).Pairwise (latestFirst z) := by
  have htotal : ∀ a b : BrowserSession, latestFirst z a b ∨ latestFirst z b a := fun a b =>
    z.localeLe_total b.lastUsedAt a.lastUsedAt
  have htrans : ∀ a b c : BrowserSession, latestFirst z a b → latestFirst z b c → latestFirst z a c :=
    fun a b c hab hbc => z.localeLe_trans c.lastUsedAt b.lastUsedAt a.lastUsedAt hbc hab
  have : Std.Total (latestFirst z) := ⟨htotal⟩
  have : IsTrans BrowserSession (latestFirst z) := ⟨htrans⟩
  have hsub : (deduplicateBy BrowserSession.sessionId (sessions.insertionSort fun left right =>
      z.localeLe right.lastUsedAt left.lastUsedAt = true)).Sublist (sessions.insertionSort fun left right =>
        z.localeLe right.lastUsedAt left.lastUsedAt = true) := deduplicateBy_sublist _
  have hsorted :
    (sessions.insertionSort fun left right => z.localeLe right.lastUsedAt left.lastUsedAt = true).Pairwise
      (latestFirst z) := List.pairwise_insertionSort (latestFirst z) sessions
  rw [recoverSessions, List.pairwise_map]
  exact hsorted.sublist hsub

/-- Sessions that are sorted, distinct and not live recover as they are. -/
theorem recoverSessions_eq (hsorted : sessions.Pairwise (latestFirst z))
    (hdistinct : (sessions.map (·.sessionId)).Nodup)
    (hlive : ∀ s ∈ sessions, s.state.live = false) : recoverSessions z sessions = sessions := by
  have hsort :
      sessions.insertionSort
      (fun left right => z.localeLe right.lastUsedAt left.lastUsedAt = true) = sessions :=
    hsorted.insertionSort_eq
  have hdedup : deduplicateBy BrowserSession.sessionId sessions = sessions := deduplicateBy_eq hdistinct
  rw [recoverSessions, hsort, hdedup]
  apply map_of_forall
  intro s hs
  rw [recoverSession, hlive s hs]
  rfl

/-- What a registry has after a restart. -/
def restarted (z : Environment) (d : Registry) : Registry :=
  ⟨d.updatedAt, (recoveredV4 z d.toV4).sessions, d.tasks.map restTask, d.tabs, d.bindings⟩

theorem restarted_surviving {t : UnifiedBrowserTabV4} (h : Surviving d.toV4 t) :
    Surviving (restarted z d).toV4 t :=
  ⟨h.first, recoverTabs_session (mem_recoverTabs.mpr h), h.binding⟩

theorem recoverSession_disconnected {s : BrowserSession} (h : s.state = .disconnected) :
    (recoverSession s).state = .disconnected := by
  rw [recoverSession, h]
  rfl

/-- A session that is left is left again. -/
theorem restarted_retained (h : Consistent d) {s : BrowserSession} (hs : s ∈ (restarted z d).sessions) :
    (∃ t, Surviving (restarted z d).toV4 t ∧ t.sessionId = s.sessionId) ∨
      (lookup BrowserSession.sessionId (restarted z d).toV4.sessions s.sessionId).map (·.state) =
        some .disconnected := by
  obtain ⟨hrecovered, ⟨t, ht, hid⟩ | hstate⟩ := mem_retainedSessions.mp hs
  · exact .inl ⟨t, restarted_surviving ht, hid⟩
  · right
    obtain ⟨original, horiginal, rfl⟩ := mem_recoverSessions hrecovered
    have hlookup : lookup BrowserSession.sessionId d.toV4.sessions original.sessionId = some original :=
      lookup_of_mem h.sessionIds horiginal
    have hfind : lookup BrowserSession.sessionId d.toV4.sessions
        (recoverSession original).sessionId = some original :=
      hlookup
    rw [hfind, Option.map_some, Option.some.injEq] at hstate
    have hagain : lookup BrowserSession.sessionId (restarted z d).toV4.sessions
      (recoverSession original).sessionId =
        some (recoverSession original) := lookup_of_mem recoveredV4_consistent.sessionIds hs
    rw [hagain, Option.map_some, recoverSession_disconnected hstate]

/-- What is left of the sessions is left of them again. -/
theorem restarted_sessions (h : Consistent d) :
    (recoveredV4 z (restarted z d).toV4).sessions = (restarted z d).sessions := by
  have hsorted : (restarted z d).sessions.Pairwise (latestFirst z) :=
    recoverSessions_sorted.sublist List.filter_sublist
  have heq : recoverSessions z (restarted z d).toV4.sessions = (restarted z d).sessions :=
    recoverSessions_eq hsorted recoveredV4_consistent.sessionIds fun s hs => recoveredV4_live hs
  have hall : ∀ s ∈ (restarted z d).sessions, s ∈ retainedSessions z (restarted z d).toV4 := by
    intro s hs
    refine mem_retainedSessions.mpr ⟨?_, restarted_retained h hs⟩
    rw [heq]
    exact hs
  show retainedSessions z (restarted z d).toV4 = _
  rw [retainedSessions, heq] at hall ⊢
  exact List.filter_eq_self.mpr fun s hs => (List.mem_filter.mp (hall s hs)).2

end Sorted

section Restarts

variable {d : Registry} {sessions : List BrowserSession} {tabs : List UnifiedBrowserTab}
  {bindings : List BrowserTabBinding} {tasks : List BrowserTask} {now : String}

theorem restarted_fits (h : Fits z d) (hc : Consistent d) : Fits z (restarted z d) := by
  have hfinal : Fits z (final z d) := final_fits h
  rwa [consistent_final hc] at hfinal

theorem restarted_consistent (hc : Consistent d) : Consistent (restarted z d) := by
  have hfinal : Consistent (final z d) := final_consistent.mpr (consistent_listed z hc)
  rwa [consistent_final hc] at hfinal

/-- A load of a consistent registry restarts it. -/
theorem load_consistent (h : Fits z d) (hc : Consistent d) : load z (.v6 d) = .ok (restarted z d) :=
  (recoverV6_ok h).mpr ⟨consistent_listed z hc, consistent_final hc⟩

theorem restTask_again (task : BrowserTask) : restTask (restTask task) = restTask task := by
  rcases task with ⟨_, _, state, _, _, _, _⟩
  cases state <;> rfl

/-- A second restart changes nothing. -/
theorem restarted_again (hc : Consistent d) : restarted z (restarted z d) = restarted z d := by
  have hsessions : (recoveredV4 z (restarted z d).toV4).sessions = (restarted z d).sessions :=
    restarted_sessions hc
  have htasks : (restarted z d).tasks.map restTask = (restarted z d).tasks := by
    apply map_of_forall
    intro task htask
    obtain ⟨original, -, rfl⟩ := List.mem_map.mp htask
    exact restTask_again original
  rw [restarted, hsessions, htasks]

/-- The time of the save is kept and nothing depends on it. -/
theorem restarted_stamp : restarted z { restarted z d with updatedAt := now } =
    { restarted z (restarted z d) with updatedAt := now } := rfl

theorem save_ok (h : save z sessions tabs bindings tasks now = .ok d) :
    d = parsedRegistry z ⟨now, sessions, tasks, tabs, bindings⟩ ∧ Fits z d ∧ Consistent d := by
  unfold save at h
  split at h
  · cases h
  obtain ⟨hshape, hissues, rfl⟩ := refine_ok.mp h
  exact ⟨rfl, fits.mp hshape, registryV6Issues_nil.mp hissues⟩

theorem save_consistent (h : Fits z d) (hc : Consistent d) (hnow : z.isDatetime now = true) :
    save z d.sessions d.tabs d.bindings d.tasks now = .ok { d with updatedAt := now } := by
  have htasks : ¬ (d.tabs ≠ [] ∧ d.tasks = []) := by
    rintro ⟨htabs, hempty⟩
    obtain ⟨t, ht⟩ := List.exists_mem_of_ne_nil _ htabs
    obtain ⟨-, task, htask, -⟩ := hc.tab t ht
    rw [hempty] at htask
    cases htask
  rw [save, if_neg htasks]
  have hfits : Fits z { d with updatedAt := now } :=
    ⟨hnow, h.sessionCount, h.sessions, h.taskCount, h.tasks, h.tabCount, h.tabs, h.bindingCount, h.bindings⟩
  have hconsistent : Consistent { d with updatedAt := now } :=
    ⟨hc.sessionIds, hc.taskIds, hc.tabIds, hc.bindingIds, hc.tab, hc.task, hc.binding⟩
  exact (registryV6_ok hfits).mpr ⟨hconsistent, rfl⟩

/-- What is saved is loaded with its urls as they were parsed, and what was
loaded is saved and loaded again under the time of its save. -/
theorem load_save_restores (z : Environment) (sessions : List BrowserSession) (tabs : List UnifiedBrowserTab)
    (bindings : List BrowserTabBinding) (tasks : List BrowserTask) (now : String) (d : Registry)
    (h : save z sessions tabs bindings tasks now = .ok d) :
    ∃ r, load z (.v6 d) = .ok r ∧ r.tabs = tabs.map (parsedTab z) ∧
    r.bindings = bindings.map (parsedBinding z) ∧
      r.tasks = tasks.map restTask ∧
      (∀ s ∈ sessions, (∃ t ∈ tabs, t.sessionId = s.sessionId) →
        recoverSession s ∈ r.sessions ∧ (recoverSession s).state.live = false) ∧
      ∀ later, z.isDatetime later = true → ∃ d', save z r.sessions r.tabs r.bindings r.tasks later = .ok d' ∧
        load z (.v6 d') = .ok { r with updatedAt := later } := by
  obtain ⟨rfl, hfits, hc⟩ := save_ok h
  refine ⟨_, load_consistent hfits hc, rfl, rfl, rfl, ?_, ?_⟩
  · rintro s hs ⟨t, ht, hid⟩
    refine ⟨?_, recoverSession_live s⟩
    have hparsed : parsedTab z t ∈ tabs.map (parsedTab z) := List.mem_map_of_mem ht
    have hmem : (parsedTab z t).toUnifiedBrowserTabV4 ∈ recoverTabs z _ :=
      mem_recoverTabs.mpr (consistent_surviving hc hparsed)
    obtain ⟨kept, hkept, hkeptId⟩ := List.mem_map.mp (recoverTabs_session hmem)
    obtain ⟨original, horiginal, rfl⟩ := mem_recoverSessions (mem_retainedSessions.mp hkept).1
    obtain rfl : original = s := List.inj_on_of_nodup_map hc.sessionIds horiginal hs (hkeptId.trans hid)
    exact hkept
  · intro later hlater
    have hrestarted := restarted_consistent (z := z) hc
    have hsaved := save_consistent (restarted_fits hfits hc) hrestarted hlater
    refine ⟨_, hsaved, ?_⟩
    obtain ⟨-, hagain, hconsistent⟩ := save_ok hsaved
    rw [load_consistent hagain hconsistent, restarted_stamp, restarted_again hc]

/-- The url of the binding has a blank before it. -/
def paddedBinding : BrowserTabBinding := { sampleBinding with url := " https://app.test/" }

theorem load_save_restores_sample : ∃ r, load sampleEnvironment (.v6 sampleRegistry) = .ok r ∧
    r.tabs = [sampleTab] ∧ r.bindings = [sampleBinding] ∧
    r.tasks = [{ sampleTask with state := .suspended }] := by
  have hsave : save sampleEnvironment [sampleSession] [sampleTab] [paddedBinding] [sampleTask] sampleTime =
      .ok sampleRegistry := by decide +kernel
  obtain ⟨r, hload, htabs, hbindings, htasks, -⟩ :=
    load_save_restores sampleEnvironment [sampleSession] [sampleTab]
    [paddedBinding] [sampleTask] sampleTime sampleRegistry hsave
  exact ⟨r, hload, htabs, hbindings, htasks⟩

/-- A padded url comes back without its blank, and the second save writes its
own time, which the second load returns. -/
theorem resaved_stamped : ∃ d r d' r',
    save sampleEnvironment [sampleSession] [sampleTab] [paddedBinding] [sampleTask] sampleTime = .ok d ∧
      load sampleEnvironment (.v6 d) = .ok r ∧ r.bindings ≠ [paddedBinding] ∧
      save sampleEnvironment r.sessions r.tabs r.bindings r.tasks sampleEnvironment.inTenMinutes = .ok d' ∧
      load sampleEnvironment (.v6 d') = .ok r' ∧ r' ≠ r := by
  let resting : Registry := restarted sampleEnvironment sampleRegistry
  let later : Registry := { resting with updatedAt := sampleEnvironment.inTenMinutes }
  have hrun : save sampleEnvironment [sampleSession] [sampleTab] [paddedBinding] [sampleTask] sampleTime =
        .ok sampleRegistry ∧ load sampleEnvironment (.v6 sampleRegistry) = .ok resting ∧
      resting.bindings ≠ [paddedBinding] ∧
      save sampleEnvironment resting.sessions resting.tabs resting.bindings resting.tasks
        sampleEnvironment.inTenMinutes = .ok later ∧
      load sampleEnvironment (.v6 later) = .ok later ∧ later ≠ resting := by decide +kernel
  exact ⟨sampleRegistry, resting, later, later, hrun⟩

end Restarts

end AccessStack.Browser
