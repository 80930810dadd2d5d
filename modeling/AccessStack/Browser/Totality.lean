import AccessStack.Browser.Recovered

/-!
# When a registry can be loaded

A registry of the sixth version can be recovered exactly when each tab that
is left is listed once by its own task and by no other task that is open. One
of the fourth version can be migrated exactly when the identifiers of the
sessions that are left are short enough for the names of their tasks.
-/

set_option autoImplicit false

namespace AccessStack.Browser
open AccessStack.Keys AccessStack.Text

variable {z : Environment}

section Tasks

variable {d : Registry} {t : UnifiedBrowserTab} {task : BrowserTask}

/-- The tab is left, with the task of its last record, and the task is open. -/
structure Survives (d : Registry) (t : UnifiedBrowserTab) (task : BrowserTask) : Prop where
  surviving : Surviving d.toV4 t.toUnifiedBrowserTabV4
  owner : ∃ original, lookup (fun t : UnifiedBrowserTab => t.tabId) d.tabs t.tabId = some original ∧
    original.taskId = t.taskId ∧ original.lifecycle = t.lifecycle
  held : d.tasks.find? (fun other => other.taskId = t.taskId) = some task
  resumable : task.state.terminal = false

/-- Each tab that is left is listed once by its task and by no other open one. -/
def Listed (d : Registry) : Prop :=
  ∀ t task, Survives d t task → ∀ other, d.tasks.find? (fun found => found.taskId = other.taskId) =
    some other →
    other.state.terminal = false → other.tabIds.count t.tabId = if other = task then 1 else 0

def finalTasks (z : Environment) (d : Registry) : List BrowserTask :=
  recoverTasks ((recoverTabs z d.toV4).map (·.tabId)) d.tasks

def finalTabs (z : Environment) (d : Registry) : List UnifiedBrowserTab :=
  (recoverTabs z d.toV4).filterMap (recoverTab d (restorableTaskIds (finalTasks z d)))

/-- What a recovery gives to the schema of the sixth version. -/
def final (z : Environment) (d : Registry) : Registry :=
  { updatedAt := d.updatedAt
    sessions := (recoveredV4 z d.toV4).sessions
    tasks := (finalTasks z d).map (keepTabs ((finalTabs z d).map (·.tabId)))
    tabs := finalTabs z d
    bindings := (recoveredV4 z d.toV4).bindings.filter fun binding =>
      ((finalTabs z d).map (·.tabId)).contains binding.tabId }

theorem recovered_open (state : TaskState) :
    (decide (state.recovered = .active) || decide (state.recovered = .suspended)) = !state.terminal := by
  cases state <;> rfl

theorem recovered_terminal (state : TaskState) : state.recovered.terminal = state.terminal := by
  cases state <;> rfl

theorem mem_restorable {taskId : String} : taskId ∈ restorableTaskIds (finalTasks z d) ↔
    ∃ task, d.tasks.find? (fun other => other.taskId = taskId) = some task ∧ task.state.terminal = false := by
  simp only [restorableTaskIds, finalTasks, recoverTasks, List.mem_map, List.mem_filter]
  constructor
  · rintro ⟨_, ⟨⟨task, htask, rfl⟩, hopen⟩, rfl⟩
    refine ⟨task, mem_deduplicateBy.mp htask, ?_⟩
    rw [recoverTask, recovered_open] at hopen
    simpa using hopen
  · rintro ⟨task, hfind, hopen⟩
    have hid : task.taskId = taskId := by simpa using List.find?_some hfind
    refine ⟨_, ⟨⟨task, mem_deduplicateBy.mpr (by rw [hid]; exact hfind), rfl⟩, ?_⟩, hid⟩
    rw [recoverTask, recovered_open, hopen]
    rfl

theorem mem_finalTabs : t ∈ finalTabs z d ↔ ∃ task, Survives d t task := by
  rw [finalTabs, List.mem_filterMap]
  constructor
  · rintro ⟨tab, htab, hrecover⟩
    obtain ⟨original, horiginal, hsome⟩ := Option.bind_eq_some_iff.mp hrecover
    split_ifs at hsome with hrestorable
    cases hsome
    obtain ⟨task, htask, hopen⟩ := mem_restorable.mp (List.contains_iff_mem.mp hrestorable)
    exact ⟨task, mem_recoverTabs.mp htab, ⟨original, horiginal, rfl, rfl⟩, htask, hopen⟩
  · rintro ⟨task, h⟩
    obtain ⟨original, horiginal, htaskId, hlifecycle⟩ := h.owner
    refine ⟨t.toUnifiedBrowserTabV4, mem_recoverTabs.mpr h.surviving, Option.bind_eq_some_iff.mpr
      ⟨original, horiginal, ?_⟩⟩
    rw [if_pos]
    · rw [htaskId, hlifecycle]
    · rw [List.contains_iff_mem, htaskId]
      exact mem_restorable.mpr ⟨task, h.held, h.resumable⟩

theorem finalTabs_recovered (h : t ∈ finalTabs z d) : t.toUnifiedBrowserTabV4 ∈ recoverTabs z d.toV4 := by
  obtain ⟨task, h⟩ := mem_finalTabs.mp h
  exact mem_recoverTabs.mpr h.surviving

theorem finalTabs_nodup : ((finalTabs z d).map (·.tabId)).Nodup := by
  have hsub : ∀ tabs : List UnifiedBrowserTabV4,
      ((tabs.filterMap (recoverTab d (restorableTaskIds (finalTasks z d)))).map (·.tabId)).Sublist
        (tabs.map (·.tabId)) := by
    intro tabs
    induction tabs with
    | nil => exact .slnil
    | cons tab tabs ih =>
      cases hrecover : recoverTab d (restorableTaskIds (finalTasks z d)) tab with
      | none =>
        rw [List.filterMap_cons_none hrecover]
        exact ih.cons _
      | some t =>
        have hid : t.tabId = tab.tabId := by
          obtain ⟨original, -, hsome⟩ := Option.bind_eq_some_iff.mp hrecover
          split_ifs at hsome
          cases hsome
          rfl
        rw [List.filterMap_cons_some hrecover, List.map_cons, List.map_cons, hid]
        exact ih.cons_cons _
  exact recoverTabs_nodup.sublist (hsub _)

/-- The tab identifiers that are left in a task. -/
theorem final_tabIds : (keepTabs ((finalTabs z d).map (·.tabId))
      (recoverTask ((recoverTabs z d.toV4).map (·.tabId)) task)).tabIds =
    if task.state.terminal then [] else task.tabIds.filter fun tabId =>
    ((finalTabs z d).map (·.tabId)).contains tabId := by
  simp only [keepTabs, recoverTask]
  split_ifs
  · rfl
  · rw [List.filter_filter]
    apply List.filter_congr
    intro tabId _
    rw [Bool.eq_iff_iff, Bool.and_eq_true, and_iff_left_iff_imp, List.contains_iff_mem, List.contains_iff_mem]
    intro hmem
    obtain ⟨t, ht, rfl⟩ := List.mem_map.mp hmem
    exact List.mem_map_of_mem (finalTabs_recovered ht)

theorem mem_final_tasks {found : BrowserTask} : found ∈ (final z d).tasks ↔
    ∃ task, d.tasks.find? (fun other => other.taskId = task.taskId) = some task ∧
      keepTabs ((finalTabs z d).map (·.tabId))
        (recoverTask ((recoverTabs z d.toV4).map (·.tabId)) task) = found := by
  simp only [final, finalTasks, recoverTasks, List.mem_map, List.map_map, mem_deduplicateBy,
    Function.comp_apply]

theorem final_taskIds : ((final z d).tasks.map (·.taskId)).Nodup := by
  have hmap : (final z d).tasks.map (·.taskId) = (deduplicateBy BrowserTask.taskId d.tasks).map
      (·.taskId) := by
    simp only [final, finalTasks, recoverTasks, List.map_map]
    rfl
  rw [hmap]
  exact nodup_deduplicateBy _

theorem final_attached (h : t ∈ finalTabs z d) :
    Attached (final z d).sessions (final z d).bindings t.toUnifiedBrowserTabV4 := by
  have htab := finalTabs_recovered h
  refine ⟨recoverTabs_session htab, ?_⟩
  obtain ⟨b, hb, hid, hmatch⟩ := recoveredV4_binding htab
  refine ⟨b, List.mem_filter.mpr ⟨hb, ?_⟩, hid, hmatch⟩
  rw [List.contains_iff_mem, hid]
  exact List.mem_map_of_mem h

theorem final_binding {b : BrowserTabBinding} (h : b ∈ (final z d).bindings) :
    b.tabId ∈ (final z d).tabs.map (·.tabId) :=
  List.contains_iff_mem.mp (List.mem_filter.mp h).2

/-- The records that are left refer to one another exactly where the tabs are
listed as they should be. -/
theorem final_consistent : Consistent (final z d) ↔ Listed d := by
  constructor
  · intro h t task ht other hother hopen
    have hmem : t ∈ finalTabs z d := mem_finalTabs.mpr ⟨task, ht⟩
    have hcontains : ((finalTabs z d).map (·.tabId)).contains t.tabId = true :=
      List.contains_iff_mem.mpr (List.mem_map_of_mem hmem)
    obtain ⟨hnodup, -, howned⟩ := h.task _ (mem_final_tasks.mpr ⟨other, hother, rfl⟩)
    rw [final_tabIds, if_neg (by simp [hopen])] at hnodup howned
    have hcount :
      (other.tabIds.filter fun tabId => ((finalTabs z d).map (·.tabId)).contains tabId).count t.tabId =
        other.tabIds.count t.tabId := List.count_filter hcontains
    have hle : other.tabIds.count t.tabId ≤ 1 := hcount ▸ List.nodup_iff_count_le_one.mp hnodup t.tabId
    split_ifs with heq
    · subst heq
      obtain ⟨-, found, hfound, hid, hlists⟩ := h.tab t hmem
      obtain ⟨same, hsame, rfl⟩ := mem_final_tasks.mp hfound
      have hsameId : same.taskId = t.taskId := hid
      rw [hsameId] at hsame
      obtain rfl : other = same := Option.some.inj (ht.held.symm.trans hsame)
      rw [final_tabIds, if_neg (by simp [hopen])] at hlists
      have hpos := List.count_pos_iff.mpr (List.mem_filter.mp hlists).1
      omega
    · by_contra hne
      have hlists : t.tabId ∈ other.tabIds := List.count_pos_iff.mp (Nat.pos_of_ne_zero hne)
      obtain ⟨same, hsame, hid, htaskId⟩ := howned t.tabId (List.mem_filter.mpr ⟨hlists, hcontains⟩)
      obtain rfl : same = t := List.inj_on_of_nodup_map finalTabs_nodup hsame hmem hid
      have hotherId : other.taskId = same.taskId := htaskId.symm
      rw [hotherId] at hother
      exact heq (Option.some.inj (hother.symm.trans ht.held))
  · intro h
    have hbound : ∀ task, d.tasks.find? (fun other => other.taskId = task.taskId) = some task →
        task.state.terminal = false → ∀ t owner, Survives d t owner →
          task.tabIds.count t.tabId = if task = owner then 1 else 0 :=
      fun task htask hopen t owner ht => h t owner ht task htask hopen
    refine ⟨?_, final_taskIds, finalTabs_nodup, ?_, ?_, ?_, ?_⟩
    · exact recoveredV4_consistent.sessionIds
    · exact recoveredV4_consistent.bindingIds.sublist (List.filter_sublist.map _)
    · intro t hmem
      refine ⟨final_attached hmem, ?_⟩
      obtain ⟨task, ht⟩ := mem_finalTabs.mp hmem
      have hid : task.taskId = t.taskId := by simpa using List.find?_some ht.held
      have htask : d.tasks.find? (fun other => other.taskId = task.taskId) = some task := by
        rw [hid]; exact ht.held
      refine ⟨_, mem_final_tasks.mpr ⟨task, htask, rfl⟩, hid, ?_⟩
      have hcount := hbound task htask ht.resumable t task ht
      rw [if_pos rfl] at hcount
      rw [final_tabIds, if_neg (by simp [ht.resumable])]
      refine List.mem_filter.mpr ⟨List.count_pos_iff.mp (by omega), ?_⟩
      exact List.contains_iff_mem.mpr (List.mem_map_of_mem hmem)
    · intro found hfound
      obtain ⟨task, htask, rfl⟩ := mem_final_tasks.mp hfound
      have hterminal : (keepTabs ((finalTabs z d).map (·.tabId))
          (recoverTask ((recoverTabs z d.toV4).map (·.tabId)) task)).state.terminal = task.state.terminal :=
        recovered_terminal task.state
      rw [hterminal, final_tabIds]
      cases hopen : task.state.terminal with
      | true => exact ⟨List.nodup_nil, fun _ => rfl, fun tabId hlists => by cases hlists⟩
      | false =>
        simp only [Bool.false_eq_true, if_false, false_implies, true_and]
        refine ⟨?_, ?_⟩
        · rw [List.nodup_iff_count_le_one]
          intro tabId
          by_cases hcontains : ((finalTabs z d).map (·.tabId)).contains tabId = true
          · obtain ⟨t, hmem, rfl⟩ := List.mem_map.mp (List.contains_iff_mem.mp hcontains)
            obtain ⟨owner, ht⟩ := mem_finalTabs.mp hmem
            have hcount := hbound task htask hopen t owner ht
            rw [List.count_filter hcontains, hcount]
            split_ifs <;> omega
          · rw [List.count_eq_zero_of_not_mem]
            · omega
            · intro hlists
              exact hcontains (List.mem_filter.mp hlists).2
        · intro tabId hlists
          obtain ⟨hlists, hcontains⟩ := List.mem_filter.mp hlists
          obtain ⟨t, hmem, rfl⟩ := List.mem_map.mp (List.contains_iff_mem.mp hcontains)
          obtain ⟨owner, ht⟩ := mem_finalTabs.mp hmem
          have hcount := hbound task htask hopen t owner ht
          have hpos := List.count_pos_iff.mpr hlists
          split_ifs at hcount with heq
          · refine ⟨t, hmem, rfl, ?_⟩
            have hid : owner.taskId = t.taskId := by simpa using List.find?_some ht.held
            exact heq ▸ hid.symm
          · omega
    · intro b hb
      exact final_binding hb

end Tasks

end AccessStack.Browser
