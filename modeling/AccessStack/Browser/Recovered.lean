import AccessStack.Browser.Consistency

/-!
# Recovery through the fourth version

Recovering a registry of the fourth version never fails: what is left is
consistent, fits its schema and has no live session.
-/

set_option autoImplicit false

namespace AccessStack.Browser
open AccessStack.Keys AccessStack.Text

variable {z : Environment}

section Sessions

variable {sessions : List BrowserSession} {s : BrowserSession}

theorem recoverSession_live (s : BrowserSession) : (recoverSession s).state.live = false := by
  rcases s with ⟨_, _, state, _, _, _, _⟩
  cases state <;> rfl

theorem recoverSessions_ids :
    (recoverSessions z sessions).map (·.sessionId) = (deduplicateBy BrowserSession.sessionId
      (sessions.insertionSort fun left right => z.localeLe right.lastUsedAt left.lastUsedAt = true)).map
        (·.sessionId) := by
  rw [recoverSessions, List.map_map]
  rfl

theorem recoverSessions_nodup : ((recoverSessions z sessions).map (·.sessionId)).Nodup := by
  rw [recoverSessions_ids]
  exact nodup_deduplicateBy _

theorem mem_recoverSessions_ids {sessionId : String} :
    sessionId ∈ (recoverSessions z sessions).map (·.sessionId) ↔ sessionId ∈ sessions.map (·.sessionId) := by
  rw [recoverSessions_ids]
  refine keys_deduplicateBy.trans ?_
  simp only [List.mem_map, List.mem_insertionSort]

theorem mem_recoverSessions (h : s ∈ recoverSessions z sessions) :
    ∃ s₀ ∈ sessions, recoverSession s₀ = s := by
  obtain ⟨s₀, hs₀, rfl⟩ := List.mem_map.mp h
  exact ⟨s₀, (List.mem_insertionSort _).mp (deduplicateBy_subset hs₀), rfl⟩

theorem recoverSession_schema (h : browserSessionSchema z s = true) :
    browserSessionSchema z (recoverSession s) = true := h

end Sessions

section Tabs

variable {d : RegistryV4} {t : UnifiedBrowserTabV4}

/-- The first record of the tab, with a session and with a first binding that
says the same. -/
structure Surviving (d : RegistryV4) (t : UnifiedBrowserTabV4) : Prop where
  first : d.tabs.find? (fun other => other.tabId = t.tabId) = some t
  session : t.sessionId ∈ d.sessions.map (·.sessionId)
  binding : ∃ b, d.bindings.find? (fun other => other.tabId = t.tabId) = some b ∧ b.matches t = true

theorem mem_recoverTabs : t ∈ recoverTabs z d ↔ Surviving d t := by
  have hattached : attachedTo t (lookup BrowserSession.sessionId (recoverSessions z d.sessions) t.sessionId)
      (lookup BrowserTabBinding.tabId (deduplicateBy BrowserTabBinding.tabId d.bindings) t.tabId) = true ↔
      t.sessionId ∈ d.sessions.map (·.sessionId) ∧
        ∃ b, d.bindings.find? (fun other => other.tabId = t.tabId) = some b ∧ b.matches t = true := by
    have hbinding : ∀ b,
      lookup BrowserTabBinding.tabId (deduplicateBy BrowserTabBinding.tabId d.bindings) t.tabId =
        some b ↔ d.bindings.find? (fun other => other.tabId = t.tabId) = some b := by
      intro b
      rw [lookup_eq_some (nodup_deduplicateBy _), mem_deduplicateBy]
      constructor
      · rintro ⟨hfind, hid⟩
        rwa [hid] at hfind
      · intro hfind
        have hid : b.tabId = t.tabId := by simpa using List.find?_some hfind
        rw [hid]
        exact ⟨hfind, rfl⟩
    rw [← mem_recoverSessions_ids (z := z), ← lookup_isSome]
    simp only [← hbinding]
    cases lookup BrowserSession.sessionId (recoverSessions z d.sessions) t.sessionId with
    | none => simp [attachedTo]
    | some s =>
      cases lookup BrowserTabBinding.tabId (deduplicateBy BrowserTabBinding.tabId d.bindings) t.tabId with
      | none => simp [attachedTo]
      | some b => simp [attachedTo]
  rw [recoverTabs, List.mem_filter, mem_deduplicateBy, hattached]
  constructor
  · rintro ⟨hfirst, hsession, hbinding⟩
    exact ⟨hfirst, hsession, hbinding⟩
  · intro h
    exact ⟨h.first, h.session, h.binding⟩

theorem recoverTabs_nodup : ((recoverTabs z d).map (·.tabId)).Nodup :=
  (nodup_deduplicateBy d.tabs).sublist (List.filter_sublist.map _)

theorem recoverTabs_subset (h : t ∈ recoverTabs z d) : t ∈ d.tabs :=
  List.mem_of_find?_eq_some (mem_recoverTabs.mp h).first

/-- The session of a tab is retained. -/
theorem recoverTabs_session (h : t ∈ recoverTabs z d) :
    t.sessionId ∈ (retainedSessions z d).map (·.sessionId) := by
  obtain ⟨s, hs, hid⟩ := List.mem_map.mp (mem_recoverSessions_ids.mpr (mem_recoverTabs.mp h).session)
  refine List.mem_map.mpr ⟨s, List.mem_filter.mpr ⟨hs, ?_⟩, hid⟩
  rw [Bool.or_eq_true]
  left
  rw [List.contains_iff_mem, hid]
  exact List.mem_map_of_mem h

theorem recoveredV4_tabs : (recoveredV4 z d).tabs = recoverTabs z d := by
  apply List.filter_eq_self.mpr
  intro t ht
  exact List.contains_iff_mem.mpr (recoverTabs_session ht)

theorem mem_retainedSessions {s : BrowserSession} :
    s ∈ retainedSessions z d ↔ s ∈ recoverSessions z d.sessions ∧
    ((∃ t, Surviving d t ∧ t.sessionId = s.sessionId) ∨
      (lookup BrowserSession.sessionId d.sessions s.sessionId).map (·.state) = some .disconnected) := by
  rw [retainedSessions, List.mem_filter, Bool.or_eq_true, List.contains_iff_mem, List.mem_map,
    decide_eq_true_eq]
  simp only [mem_recoverTabs]

theorem mem_recoveredBindings {b : BrowserTabBinding} (h : b ∈ (recoveredV4 z d).bindings) :
    b ∈ deduplicateBy BrowserTabBinding.tabId d.bindings ∧ b.tabId ∈ (recoverTabs z d).map (·.tabId) := by
  obtain ⟨hb, hkept⟩ := List.mem_filter.mp h
  simp only [Bool.and_eq_true, List.contains_iff_mem] at hkept
  exact ⟨hb, hkept.1⟩

theorem recoveredV4_binding (h : t ∈ recoverTabs z d) :
    ∃ b ∈ (recoveredV4 z d).bindings, b.tabId = t.tabId ∧ b.matches t = true := by
  obtain ⟨b, hfind, hmatch⟩ := (mem_recoverTabs.mp h).binding
  have hid : b.tabId = t.tabId := by simpa using List.find?_some hfind
  have hsession : b.sessionId = t.sessionId := by
    simp only [BrowserTabBinding.matches, Bool.and_eq_true, decide_eq_true_eq] at hmatch
    exact hmatch.1.1
  refine ⟨b, List.mem_filter.mpr ⟨mem_deduplicateBy.mpr (by rw [hid]; exact hfind), ?_⟩, hid, hmatch⟩
  simp only [Bool.and_eq_true, List.contains_iff_mem]
  rw [hid, hsession]
  exact ⟨List.mem_map_of_mem h, recoverTabs_session h⟩

theorem recoveredV4_consistent : ConsistentV4 (recoveredV4 z d) := by
  refine ⟨?_, ?_, ?_, ?_, ?_⟩
  · exact recoverSessions_nodup.sublist (List.filter_sublist.map _)
  · rw [recoveredV4_tabs]
    exact recoverTabs_nodup
  · exact (nodup_deduplicateBy d.bindings).sublist (List.filter_sublist.map _)
  · intro t ht
    rw [recoveredV4_tabs] at ht
    exact ⟨recoverTabs_session ht, recoveredV4_binding ht⟩
  · intro b hb
    rw [recoveredV4_tabs]
    exact (mem_recoveredBindings hb).2

theorem recoveredV4_live {s : BrowserSession} (h : s ∈ (recoveredV4 z d).sessions) :
    s.state.live = false := by
  obtain ⟨s₀, _, rfl⟩ := mem_recoverSessions (mem_retainedSessions.mp h).1
  exact recoverSession_live s₀

/-- The storage schema as a structure. -/
structure FitsV4 (z : Environment) (d : RegistryV4) : Prop where
  updatedAt : z.isDatetime d.updatedAt = true
  sessionCount : d.sessions.length ≤ 100
  sessions : ∀ s ∈ d.sessions, browserSessionSchema z s = true
  tabCount : d.tabs.length ≤ 500
  tabs : ∀ t ∈ d.tabs, unifiedBrowserTabV4Schema z t = true
  bindingCount : d.bindings.length ≤ 500
  bindings : ∀ b ∈ d.bindings, browserTabBindingSchema z b = true

theorem fitsV4 : registryV4StorageSchema z d = true ↔ FitsV4 z d := by
  simp only [registryV4StorageSchema, Bool.and_eq_true, decide_eq_true_eq, List.all_eq_true]
  constructor
  · rintro ⟨⟨⟨⟨⟨⟨h1, h2⟩, h3⟩, h4⟩, h5⟩, h6⟩, h7⟩
    exact ⟨h1, h2, h3, h4, h5, h6, h7⟩
  · intro h
    exact ⟨⟨⟨⟨⟨⟨h.updatedAt, h.sessionCount⟩, h.sessions⟩, h.tabCount⟩, h.tabs⟩, h.bindingCount⟩, h.bindings⟩

theorem recoveredV4_fits (h : FitsV4 z d) : FitsV4 z (recoveredV4 z d) := by
  refine ⟨h.updatedAt, ?_, ?_, ?_, ?_, ?_, ?_⟩
  · have hlength : (recoverSessions z d.sessions).length ≤ d.sessions.length := by
      rw [recoverSessions, List.length_map]
      exact (deduplicateBy_sublist _).length_le.trans (List.length_insertionSort _ _).le
    exact (List.length_filter_le _ _).trans (hlength.trans h.sessionCount)
  · intro s hs
    obtain ⟨s₀, hs₀, rfl⟩ := mem_recoverSessions (mem_retainedSessions.mp hs).1
    exact recoverSession_schema (h.sessions s₀ hs₀)
  · rw [recoveredV4_tabs]
    exact (List.length_filter_le _ _).trans ((deduplicateBy_sublist _).length_le.trans h.tabCount)
  · intro t ht
    rw [recoveredV4_tabs] at ht
    exact h.tabs t (recoverTabs_subset ht)
  · exact (List.length_filter_le _ _).trans ((deduplicateBy_sublist _).length_le.trans h.bindingCount)
  · intro b hb
    exact h.bindings b (deduplicateBy_subset (mem_recoveredBindings hb).1)

/-- Recovering a registry of the fourth version never fails. -/
theorem recoverV4_ok (h : FitsV4 z d) : recoverV4Registry z d = .ok (recoveredV4 z d) :=
  refine_eq (fitsV4.mpr (recoveredV4_fits h)) (registryV4Issues_nil.mpr recoveredV4_consistent)

end Tabs

end AccessStack.Browser
