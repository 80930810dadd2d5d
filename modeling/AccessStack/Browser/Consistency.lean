import AccessStack.Browser.Recovery

/-!
# Consistent registries

The refinements of the schemas object to nothing exactly in the registries
whose identifiers are distinct and whose records refer to one another.
-/

set_option autoImplicit false

namespace AccessStack.Browser
open AccessStack.Keys AccessStack.Text

section Structure

/-- A session and a binding that says the same are there for the tab. -/
structure Attached (sessions : List BrowserSession) (bindings : List BrowserTabBinding)
    (t : UnifiedBrowserTabV4) : Prop where
  session : t.sessionId ∈ sessions.map (·.sessionId)
  binding : ∃ b ∈ bindings, b.tabId = t.tabId ∧ b.matches t = true

structure ConsistentV4 (d : RegistryV4) : Prop where
  sessionIds : (d.sessions.map (·.sessionId)).Nodup
  tabIds : (d.tabs.map (·.tabId)).Nodup
  bindingIds : (d.bindings.map (·.tabId)).Nodup
  tab : ∀ t ∈ d.tabs, Attached d.sessions d.bindings t
  binding : ∀ b ∈ d.bindings, b.tabId ∈ d.tabs.map (·.tabId)

structure Consistent (d : Registry) : Prop where
  sessionIds : (d.sessions.map (·.sessionId)).Nodup
  taskIds : (d.tasks.map (·.taskId)).Nodup
  tabIds : (d.tabs.map (·.tabId)).Nodup
  bindingIds : (d.bindings.map (·.tabId)).Nodup
  tab : ∀ t ∈ d.tabs, Attached d.sessions d.bindings t.toUnifiedBrowserTabV4 ∧
    ∃ task ∈ d.tasks, task.taskId = t.taskId ∧ t.tabId ∈ task.tabIds
  task : ∀ task ∈ d.tasks, task.tabIds.Nodup ∧ (task.state.terminal = true → task.tabIds = []) ∧
    ∀ tabId ∈ task.tabIds, ∃ t ∈ d.tabs, t.tabId = tabId ∧ t.taskId = task.taskId
  binding : ∀ b ∈ d.bindings, b.tabId ∈ d.tabs.map (·.tabId)

end Structure

section Issues

variable {label : String} {keys : List String}

theorem duplicates_seen (seen : List String) :
    duplicates label seen keys = [] ↔ keys.Nodup ∧ ∀ key ∈ keys, key ∉ seen := by
  induction keys generalizing seen with
  | nil => simp [duplicates]
  | cons key rest ih =>
    rw [duplicates, List.append_eq_nil_iff, ih, List.nodup_cons]
    constructor
    · rintro ⟨hkey, hnodup, hrest⟩
      have hfresh : key ∉ seen := by
        intro hmem
        rw [if_pos hmem] at hkey
        cases hkey
      refine ⟨⟨?_, hnodup⟩, ?_⟩
      · intro hmem
        exact hrest key hmem List.mem_cons_self
      · intro k hk
        rcases List.mem_cons.mp hk with rfl | hk
        · exact hfresh
        · exact fun hmem => hrest k hk (List.mem_cons_of_mem key hmem)
    · rintro ⟨⟨hkey, hnodup⟩, hseen⟩
      refine ⟨if_neg (hseen key List.mem_cons_self), hnodup, ?_⟩
      intro k hk hmem
      rcases List.mem_cons.mp hmem with rfl | hmem
      · exact hkey hk
      · exact hseen k (List.mem_cons_of_mem key hk) hmem

theorem duplicates_nil : duplicates label [] keys = [] ↔ keys.Nodup := by
  rw [duplicates_seen]
  simp

theorem bindingIssues_nil {tabIds : List String} {b : BrowserTabBinding} :
    bindingIssues tabIds b = [] ↔ b.tabId ∈ tabIds := by
  unfold bindingIssues
  split_ifs with h <;> simp [h]

theorem attached_iff {sessions : List BrowserSession} {bindings : List BrowserTabBinding}
    (hbindings : (bindings.map (·.tabId)).Nodup) {t : UnifiedBrowserTabV4} :
    Attached sessions bindings t ↔ (lookup BrowserSession.sessionId sessions t.sessionId).isSome = true ∧
      ∃ b, lookup BrowserTabBinding.tabId bindings t.tabId = some b ∧ b.matches t = true := by
  constructor
  · rintro ⟨hsession, b, hb, hid, hmatch⟩
    exact ⟨lookup_isSome.mpr hsession, b, (lookup_eq_some hbindings).mpr ⟨hb, hid⟩, hmatch⟩
  · rintro ⟨hsession, b, hb, hmatch⟩
    obtain ⟨hmem, hid⟩ := (lookup_eq_some hbindings).mp hb
    exact ⟨lookup_isSome.mp hsession, b, hmem, hid, hmatch⟩

theorem tabIssuesV4_nil {d : RegistryV4} (hbindings : (d.bindings.map (·.tabId)).Nodup)
    {t : UnifiedBrowserTabV4} :
    tabIssuesV4 d t = [] ↔ Attached d.sessions d.bindings t := by
  rw [attached_iff hbindings, tabIssuesV4]
  cases lookup BrowserSession.sessionId d.sessions t.sessionId with
  | none => simp
  | some s =>
    cases lookup BrowserTabBinding.tabId d.bindings t.tabId with
    | none => simp
    | some b => simp

theorem registryV4Issues_nil {d : RegistryV4} : registryV4Issues d = [] ↔ ConsistentV4 d := by
  simp only [registryV4Issues, List.append_eq_nil_iff, duplicates_nil, List.flatMap_eq_nil_iff,
    bindingIssues_nil]
  constructor
  · rintro ⟨⟨⟨⟨hsessions, htabs⟩, hbindings⟩, htab⟩, hbinding⟩
    exact ⟨hsessions, htabs, hbindings, fun t ht => (tabIssuesV4_nil hbindings).mp (htab t ht), hbinding⟩
  · intro h
    exact ⟨⟨⟨⟨h.sessionIds, h.tabIds⟩, h.bindingIds⟩, fun t ht =>
      (tabIssuesV4_nil h.bindingIds).mpr (h.tab t ht)⟩, h.binding⟩

theorem tabIssues_nil {d : Registry} (htasks : (d.tasks.map (·.taskId)).Nodup)
    (hbindings : (d.bindings.map (·.tabId)).Nodup) {t : UnifiedBrowserTab} :
    tabIssues d t = [] ↔ Attached d.sessions d.bindings t.toUnifiedBrowserTabV4 ∧
      ∃ task ∈ d.tasks, task.taskId = t.taskId ∧ t.tabId ∈ task.tabIds ∧ task.state.terminal = false := by
  have htask :
    (∃ task ∈ d.tasks, task.taskId = t.taskId ∧ t.tabId ∈ task.tabIds ∧ task.state.terminal = false) ↔
      ∃ task, lookup BrowserTask.taskId d.tasks t.taskId = some task ∧ t.tabId ∈ task.tabIds ∧
        task.state.terminal = false := by
    simp only [lookup_eq_some htasks, and_assoc]
  rw [attached_iff hbindings, htask, tabIssues, List.append_eq_nil_iff, List.append_eq_nil_iff]
  cases lookup BrowserSession.sessionId d.sessions t.sessionId with
  | none => simp
  | some s =>
    cases lookup BrowserTask.taskId d.tasks t.taskId with
    | none => simp
    | some task =>
      cases lookup BrowserTabBinding.tabId d.bindings t.tabId with
      | none => simp
      | some b =>
        by_cases hmem : t.tabId ∈ task.tabIds
        · simp [hmem, and_comm]
        · simp [hmem]

theorem taskIssues_nil {d : Registry} (htabs : (d.tabs.map (·.tabId)).Nodup) {task : BrowserTask} :
    taskIssues d task = [] ↔ task.tabIds.Nodup ∧ (task.state.terminal = true → task.tabIds = []) ∧
      ∀ tabId ∈ task.tabIds, ∃ t ∈ d.tabs, t.tabId = tabId ∧ t.taskId = task.taskId := by
  have hterminal : (if task.state.terminal ∧ task.tabIds ≠ [] then
      ["Terminal task " ++ task.taskId ++ " must not retain tabs."] else []) = [] ↔
      (task.state.terminal = true → task.tabIds = []) := by
    split_ifs with h
    · simp [h.1, h.2]
    · simpa using not_and_not_right.mp h
  have htab : ∀ tabId, (∃ t ∈ d.tabs, t.tabId = tabId ∧ t.taskId = task.taskId) ↔
      ∃ t, lookup (fun t : UnifiedBrowserTab => t.tabId) d.tabs tabId = some t ∧ t.taskId = task.taskId := by
    intro tabId
    simp only [lookup_eq_some htabs, and_assoc]
  rw [taskIssues, List.append_eq_nil_iff, List.append_eq_nil_iff, duplicates_nil, hterminal,
    List.flatMap_eq_nil_iff, and_assoc]
  simp only [htab]
  refine and_congr_right fun _ => and_congr_right fun _ => forall₂_congr fun tabId _ => ?_
  cases lookup (fun t : UnifiedBrowserTab => t.tabId) d.tabs tabId with
  | none => simp
  | some t => simp

theorem registryV6Issues_nil {d : Registry} : registryV6Issues d = [] ↔ Consistent d := by
  simp only [registryV6Issues, List.append_eq_nil_iff, duplicates_nil, List.flatMap_eq_nil_iff,
    bindingIssues_nil]
  constructor
  · rintro ⟨⟨⟨⟨⟨⟨hsessions, htasks⟩, htabs⟩, hbindings⟩, htab⟩, htask⟩, hbinding⟩
    refine ⟨hsessions, htasks, htabs, hbindings, ?_, fun task h =>
      (taskIssues_nil htabs).mp (htask task h), hbinding⟩
    intro t ht
    obtain ⟨hattached, task, hmem, hid, hlists, -⟩ := (tabIssues_nil htasks hbindings).mp (htab t ht)
    exact ⟨hattached, task, hmem, hid, hlists⟩
  · intro h
    refine ⟨⟨⟨⟨⟨⟨h.sessionIds, h.taskIds⟩, h.tabIds⟩, h.bindingIds⟩, ?_⟩,
      fun task ht => (taskIssues_nil h.tabIds).mpr (h.task task ht)⟩, h.binding⟩
    intro t ht
    obtain ⟨hattached, task, hmem, hid, hlists⟩ := h.tab t ht
    refine (tabIssues_nil h.taskIds h.bindingIds).mpr ⟨hattached, task, hmem, hid, hlists, ?_⟩
    by_contra hterminal
    rw [Bool.not_eq_false] at hterminal
    rw [(h.task task hmem).2.1 hterminal] at hlists
    cases hlists

end Issues

section Parsing

variable {α : Type} {schema : Schema α} {issues : α → List String} {xs : List α} {x y : α}

theorem parseShape_ok (h : schema.holds x = true) : parseShape schema x = .ok x := by
  rw [parseShape, schema.output_eq x h, if_pos h]

theorem parseAll_ok (h : ∀ x ∈ xs, schema.holds x = true) : parseAll schema xs = .ok xs := by
  induction xs with
  | nil => rfl
  | cons x xs ih =>
    rw [parseAll, parseShape_ok (h x List.mem_cons_self), ih fun y hy => h y (List.mem_cons_of_mem x hy)]

theorem parseAll_error (hx : x ∈ xs) (h : schema.holds (schema.output x) = false) :
    ∃ e, parseAll schema xs = .error e := by
  induction xs with
  | nil => cases hx
  | cons y ys ih =>
    rw [parseAll]
    rcases List.mem_cons.mp hx with rfl | hx
    · have hshape : parseShape schema x = .error .shape := if_neg (by simp [h])
      rw [hshape]
      exact ⟨_, rfl⟩
    · obtain ⟨e, he⟩ := ih hx
      rw [he]
      cases parseShape schema y <;> exact ⟨_, rfl⟩

/-- What is refined is what the schema returns. -/
theorem refine_ok : refine schema issues x = .ok y ↔
    schema.holds (schema.output x) = true ∧ issues (schema.output x) = [] ∧ schema.output x = y := by
  unfold refine
  by_cases hschema : schema.holds (schema.output x) = true
  · by_cases h : issues (schema.output x) = [] <;> simp [hschema, h]
  · simp [hschema]

theorem refine_eq (hschema : schema.holds x = true) (h : issues x = []) : refine schema issues x = .ok x := by
  have hkept := schema.output_eq x hschema
  exact refine_ok.mpr ⟨by rwa [hkept], by rwa [hkept], hkept⟩

end Parsing

end AccessStack.Browser
