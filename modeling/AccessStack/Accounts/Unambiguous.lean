import AccessStack.Accounts.Failures

/-!
# Workspace ids

Each workspace id of a user names one materialization, and none of the other
workspaces of the primary runtime. Both materializations choose an id that is
not reserved and refuse an answer with another one. An import takes over the
ids of the answer that validates its bindings, and keeps the ids apart only
where the answer does.
-/

set_option autoImplicit false

namespace AccessStack.Accounts
open AccessStack.Index AccessStack.Runs AccessStack.Text

section Statement

structure Unambiguous (s : Storage) (userId : String) (others : List String) : Prop where
  distinct : ∀ k k' m m', s.materializations k = some m → s.materializations k' = some m' →
    m.userId = userId →
    m'.userId = userId → m.workspaceId = m'.workspaceId → k = k'
  apart : ∀ k m, s.materializations k = some m → m.userId = userId → m.workspaceId ∉ others

/-- The user holds a workspace on the host. -/
def Holds (s : Storage) (userId : String) (host : Host) (workspaceId : String) : Prop :=
  ∃ k m, s.materializations k = some m ∧ m.userId = userId ∧ m.host = host ∧ m.workspaceId = workspaceId

/-- Companions that announce what is stored for their devices, and a primary
runtime that lists its other workspaces and what is stored for it, do not
collide. -/
def Routable (s : Storage) (userId : String) (others : List String) : Prop :=
  ∀ (T : Type) (candidates : List (CompanionRouteCandidate T)) (primaryWorkspaceIds : List String)
    (workspaceId : String),
    (candidates.map (·.deviceId)).Nodup →
    (∀ c ∈ candidates, ∀ id ∈ c.workspaceIds, Holds s userId (.device c.deviceId) id) →
    (∀ id ∈ primaryWorkspaceIds, id ∈ others ∨ ∃ runtimeId, Holds s userId (.runtime runtimeId) id) →
    selectWorkspaceRuntime candidates workspaceId primaryWorkspaceIds ≠ .collision

theorem Unambiguous.host {s : Storage} {userId : String} {others : List String}
    (h : Unambiguous s userId others) {a b : Host} {workspaceId : String}
    (ha : Holds s userId a workspaceId) (hb : Holds s userId b workspaceId) :
    a = b := by
  obtain ⟨k, m, hm, huser, rfl, hworkspace⟩ := ha
  obtain ⟨k', m', hm', huser', rfl, hworkspace'⟩ := hb
  have hk := h.distinct k k' m m' hm hm' huser huser' (hworkspace.trans hworkspace'.symm)
  rw [hk, hm'] at hm
  cases hm
  rfl

theorem Unambiguous.routable {s : Storage} {userId : String} {others : List String}
    (h : Unambiguous s userId others) : Routable s userId others := by
  intro T candidates primaryWorkspaceIds workspaceId hdevices hannounced hprimary
  apply selectWorkspaceRuntime_collision
  · intro a ha b hb hina hinb
    have hhost := h.host (hannounced a ha workspaceId hina) (hannounced b hb workspaceId hinb)
    exact List.inj_on_of_nodup_map hdevices ha hb (by simpa using hhost)
  · exact hdevices.of_map
  · intro a ha hina hlisted
    have hholds := hannounced a ha workspaceId hina
    rcases hprimary workspaceId hlisted with hother | ⟨runtimeId, hruntime⟩
    · obtain ⟨k, m, hm, huser, _, hworkspace⟩ := hholds
      exact h.apart k m hm huser (hworkspace ▸ hother)
    · have hhost := h.host hholds hruntime
      cases hhost

end Statement

section Materialize

variable {locale : Locale} {lower : String → String} {s : Storage} {userId : String} {host : Host}

/-- An upsert writes one record. -/
theorem upsertOn_records {input : MaterializationUpsertInput} {generated now : String}
    {m : StoredMaterialization} {T : Storage} (h : upsertOn s userId host input generated now = (.ok m, T)) :
    m = upserted s userId host input generated now ∧
      T.materializations = Function.update s.materializations m.id (some m) := by
  rw [upsertOn_admitted (upsertOn_ok h)] at h
  unfold storeMaterialization at h
  dsimp only at h
  split_ifs at h
  · cases h
    exact ⟨rfl, rfl⟩
  · cases h
  · cases h
    exact ⟨rfl, rfl⟩

/-- The stored materializations of a user are listed. -/
theorem stored_listed (hs : Consistent s) {k : String} {m : StoredMaterialization}
    (hm : s.materializations k = some m) (huser : m.userId = userId) :
    m ∈ listStoredMaterializations locale s userId := by
  obtain ⟨hid, r, hr, howner⟩ := hs.materialization k m hm
  have hrepository : getRepositoryForUser s userId m.repositoryId = some (r, .owner) := by
    simp [getRepositoryForUser, hr, roleFor, howner.trans huser]
  have hmem : m.repositoryId ∈ s.repositoryIds userId := by
    rw [← huser, ← howner]
    exact hs.repositories.mem_owner hr
  apply List.mem_flatMap.mpr
  refine ⟨(r, .owner), ?_, ?_⟩
  · rw [listRepositories, List.mem_insertionSort]
    exact List.mem_filterMap.mpr ⟨m.repositoryId, hmem, hrepository⟩
  · rw [(hs.repository m.repositoryId r hr).1, listMaterializations, hrepository]
    simp only [Option.isNone_some, Bool.false_eq_true, if_false]
    exact List.mem_filterMap.mpr ⟨k, hs.materializations.mem_owner hm, hm⟩

/-- The plan goes on from the previous record under an id that no other record has. -/
theorem unambiguous_planned (hs : Consistent s) {others : List String} (h : Unambiguous s userId others)
    {texts : MaterializeTexts} {platform : Option Platform} {storedPlatform : Platform}
    {call : MaterializeCall} {previous : Option StoredMaterialization} {planned : InternalBoundRepository}
    (hprevious : ∀ p, previous = some p → s.materializations p.id = some p ∧
      p.repositoryId = call.repositoryId)
    (hothers : planned.workspaceId ∉ others)
    (hfree : ∀ k m, s.materializations k = some m → m.userId = userId → some k ≠ previous.map (·.id) →
      m.workspaceId ≠ planned.workspaceId)
    {result : RepositoryDetails × StoredMaterialization} {T : Storage}
    (hsuccess : materializePlanned lower texts platform storedPlatform s userId host call previous planned =
      (.success result, T)) : Unambiguous T userId others := by
  unfold materializePlanned transaction at hsuccess
  dsimp only at hsuccess
  cases hupsert : upsertOn s userId host
      ⟨previous.map (·.id), call.repositoryId, planned.workspaceId, planned.path, storedPlatform⟩
      call.materializationId call.committedAt with
  | mk answer T₁ =>
    rw [hupsert] at hsuccess
    cases answer with
    | error message => cases hsuccess
    | ok m =>
      dsimp only at hsuccess
      have hT : T = T₁ := by
        split at hsuccess
        · cases hsuccess
          rfl
        · split at hsuccess <;> cases hsuccess
      subst hT
      obtain ⟨hm, hrecords⟩ := upsertOn_records hupsert
      have hworkspace : m.workspaceId = planned.workspaceId := by rw [hm]; rfl
      have hid : ∀ p, previous = some p → m.id = p.id := by
        intro p hp
        obtain ⟨hstored, hrepository⟩ := hprevious p hp
        have huser : p.userId = userId := (upsertOn_ok hupsert).user hs hstored hrepository
        rw [hm, upserted, existingOn_id (by simp [hp]) (hs.named _ _ hstored) hstored huser hrepository]
        rfl
      -- Every other record keeps its id, and that is not the planned one.
      have hother : ∀ k x, T.materializations k = some x → k ≠ m.id → s.materializations k = some x ∧
          (x.userId = userId → x.workspaceId ≠ m.workspaceId) := by
        intro k x hx hk
        rw [hrecords, Function.update_of_ne hk] at hx
        refine ⟨hx, fun huser => ?_⟩
        rw [hworkspace]
        apply hfree k x hx huser
        intro heq
        obtain ⟨p, hp, hpk⟩ := Option.map_eq_some_iff.mp heq.symm
        exact hk (hpk.symm.trans (hid p hp).symm)
      have hself : T.materializations m.id = some m := by rw [hrecords, Function.update_self]
      constructor
      · intro k k' x x' hx hx' huser huser' hsame
        by_cases hk : k = m.id
        · by_cases hk' : k' = m.id
          · rw [hk, hk']
          · rw [hk, hself] at hx
            cases hx
            exact absurd hsame.symm ((hother k' x' hx' hk').2 huser')
        · by_cases hk' : k' = m.id
          · rw [hk', hself] at hx'
            cases hx'
            exact absurd hsame ((hother k x hx hk).2 huser)
          · exact h.distinct k k' x x' (hother k x hx hk).1 (hother k' x' hx' hk').1 huser huser' hsame
      · intro k x hx huser
        by_cases hk : k = m.id
        · rw [hk, hself] at hx
          cases hx
          rw [hworkspace]
          exact hothers
        · exact h.apart k x (hother k x hx hk).1 huser

/-- What is reserved against a plan: the ids of the user's other records. -/
theorem reserved_free (hs : Consistent s) {previous : Option StoredMaterialization} {workspaceId : String}
    (h : workspaceId ∉ ((listStoredMaterializations locale s userId).filter
      fun m => some m.id ≠ previous.map (·.id)).map (·.workspaceId)) {k : String} {m : StoredMaterialization}
    (hm : s.materializations k = some m) (huser : m.userId = userId) (hk : some k ≠ previous.map (·.id)) :
    m.workspaceId ≠ workspaceId := by
  intro heq
  apply h
  refine List.mem_map.mpr ⟨m, List.mem_filter.mpr ⟨stored_listed hs hm huser, ?_⟩, heq⟩
  rw [(hs.materialization k m hm).1]
  simpa using hk

theorem unambiguous_primary (hs : Consistent s) {others : List String} (h : Unambiguous s userId others)
    {call : MaterializeCall}
    (hothers : ∀ ids, call.primaryWorkspaceIds = .ok (some ids) → ∀ id ∈ others, id ∈ ids)
    {result : RepositoryDetails × StoredMaterialization} {T : Storage}
    (hsuccess : materializeRepositoryOnPrimary locale lower s userId call = (.success result, T)) :
    Unambiguous T userId others := by
  unfold materializeRepositoryOnPrimary at hsuccess
  split at hsuccess
  · cases hsuccess
  split at hsuccess
  · cases hsuccess
  rename_i repository role haccess
  split at hsuccess
  · cases hsuccess
  split at hsuccess
  · cases hsuccess
  dsimp only at hsuccess
  split at hsuccess
  · cases hsuccess
  rename_i existing hone
  split at hsuccess
  · cases hsuccess
  · cases hsuccess
  rename_i primaryWorkspaceIds hprimary
  split at hsuccess
  · cases hsuccess
  rename_i workspaceId hworkspace
  split at hsuccess
  · cases hsuccess
  · cases hsuccess
  rename_i planned _
  split at hsuccess
  · cases hsuccess
  rename_i hplanned
  simp only [not_or, not_not] at hplanned
  have hsettled := (settled_existing hs (by rw [haccess]; rfl) rfl hone workspaceId planned.path .linux).1
  have hfree := selectAvailable_free hworkspace
  simp only [List.mem_append, not_or] at hfree
  apply unambiguous_planned hs h
    (fun p hp => ⟨(hsettled.previous p hp).1, (hsettled.previous p hp).2.1⟩) _ _ hsuccess
  · intro hother
    rw [hplanned.2] at hother
    apply hfree.1.1
    refine List.mem_filter.mpr ⟨hothers _ hprimary _ hother, ?_⟩
    simp only [decide_eq_true_eq]
    intro heq
    obtain ⟨p, hp, hpw⟩ := Option.map_eq_some_iff.mp heq.symm
    obtain ⟨hstored, hrepository, _⟩ := hsettled.previous p hp
    have huser : p.userId = userId := by
      have hnot : ¬ (getRepositoryForUser s userId call.repositoryId).isNone = true := by simp [haccess]
      obtain ⟨r, hr, howner⟩ := repository_access hnot
      obtain ⟨r', hr', howner'⟩ := (hs.materialization p.id p hstored).2
      rw [hrepository, hr] at hr'
      cases hr'
      exact howner'.symm.trans howner
    exact h.apart p.id p hstored huser (hpw ▸ hother)
  · intro k m hm huser hk
    rw [hplanned.2]
    exact reserved_free hs hfree.1.2 hm huser hk

theorem companionPlan_free {platform : Option Platform} {deviceId : String} {call : MaterializeCall}
    {reservedWorkspaceIds : List String} {planned planned' : InternalBoundRepository}
    (h : companionPlan lower platform deviceId call reservedWorkspaceIds planned = .ok planned') :
    planned'.workspaceId ∉ reservedWorkspaceIds := by
  unfold companionPlan at h
  split at h
  · rename_i hfree
    cases h
    exact hfree
  split at h
  · cases h
  rename_i uniqueId hunique
  dsimp only at h
  split at h
  · cases h
  · cases h
  · split at h
    · cases h
    · rename_i hmatch
      simp only [not_or, not_not] at hmatch
      cases h
      rw [hmatch.2.1]
      exact selectAvailable_free hunique

theorem unambiguous_companion (hs : Consistent s) {others : List String} (h : Unambiguous s userId others)
    {call : MaterializeCall}
    (hothers : ∀ ids, call.primaryWorkspaceIds = .ok (some ids) → ∀ id ∈ others, id ∈ ids)
    {result : RepositoryDetails × StoredMaterialization} {T : Storage}
    (hsuccess : materializeRepositoryOnCompanion locale lower s userId call = (.success result, T)) :
    Unambiguous T userId others := by
  unfold materializeRepositoryOnCompanion at hsuccess
  split at hsuccess
  · cases hsuccess
  split at hsuccess
  · cases hsuccess
  rename_i repository role haccess
  split at hsuccess
  · cases hsuccess
  split at hsuccess
  · cases hsuccess
  · cases hsuccess
  rename_i candidate hselected
  dsimp only at hsuccess
  split at hsuccess
  · cases hsuccess
  rename_i existing hone
  split at hsuccess
  · cases hsuccess
  · cases hsuccess
  split at hsuccess
  · cases hsuccess
  split at hsuccess
  · cases hsuccess
  · cases hsuccess
  rename_i primaryWorkspaceIds hprimary
  split at hsuccess
  · rename_i answer hrefused
    rcases companionPlan_refused hrefused with ⟨message, rfl⟩ | ⟨message, rfl⟩ <;> cases hsuccess
  · rename_i planned hplan
    have hsettled := (settled_existing hs (by rw [haccess]; rfl) rfl hone planned.workspaceId planned.path
      .unknown).1
    have hfree := companionPlan_free hplan
    simp only [List.mem_append, not_or] at hfree
    apply unambiguous_planned hs h
      (fun p hp => ⟨(hsettled.previous p hp).1, (hsettled.previous p hp).2.1⟩) _ _ hsuccess
    · intro hother
      exact hfree.1.1 (hothers _ hprimary _ hother)
    · intro k m hm huser hk
      exact reserved_free hs hfree.1.2 hm huser hk

end Materialize

section Import

variable {locale : Locale} {lower : String → String} {s : Storage} {userId : String}

/-- The ids that an answer gives to the bindings of an import stay apart:
from each other, from the other workspaces of the primary runtime, and from
the records that no entry goes on from. -/
structure Separate (locale : Locale) (s : Storage) (userId deviceId : String) (others : List String)
    (prepared : List InternalBoundRepository) : Prop where
  distinct : (prepared.map (·.workspaceId)).Nodup
  unused : ∀ v ∈ prepared, ∀ k m, s.materializations k = some m → m.userId = userId →
    m.workspaceId = v.workspaceId → ∃ w ∈ prepared,
      previousFor locale s userId deviceId w.repositoryId w.workspaceId w.path = some m
  apart : ∀ v ∈ prepared, v.workspaceId ∉ others

/-- The upserts of some placements: the ids they wrote to, and what is there. -/
structure Written (s T : Storage) (placements : List Placement) (ids : List String) : Prop where
  key : ∀ k m, T.materializations k = some m → m.id = k
  kept : ∀ k, k ∉ ids → T.materializations k = s.materializations k
  held : ∀ k ∈ ids, ∃ m, T.materializations k = some m ∧ m.workspaceId ∈ placements.map (·.workspaceId)
  single : ∀ k ∈ ids, ∀ k' ∈ ids, ∀ m m', T.materializations k = some m → T.materializations k' = some m' →
    m.workspaceId = m'.workspaceId → k = k'
  previous : ∀ p ∈ placements, ∀ m, p.previous = some m → m.id ∈ ids

theorem Written.upsert {T : Storage} {placements : List Placement} {ids : List String} (hs : Consistent s)
    (h : Written s T placements ids) {p : Placement}
    (hprevious : ∀ m, p.previous = some m → s.materializations m.id = some m)
    (hnew : p.workspaceId ∉ placements.map (·.workspaceId)) {deviceId generated now : String}
    {m : StoredMaterialization} {T' : Storage}
    (hupsert : upsertMaterialization T userId deviceId p.input generated now = (.ok m, T')) :
    Written s T' (placements ++ [p]) (m.id :: ids) := by
  have hupsert' : upsertOn T userId (.device deviceId) p.input generated now = (.ok m, T') := hupsert
  obtain ⟨hm, hrecords⟩ := upsertOn_records hupsert'
  have hworkspace : m.workspaceId = p.workspaceId := by rw [hm]; rfl
  have hid : ∀ m₀, p.previous = some m₀ → m.id = m₀.id := by
    intro m₀ hm₀
    have hstored := hprevious m₀ hm₀
    obtain ⟨x, hx⟩ : ∃ x, T.materializations m₀.id = some x := by
      by_cases hk : m₀.id ∈ ids
      · obtain ⟨x, hx, _⟩ := h.held _ hk
        exact ⟨x, hx⟩
      · exact ⟨m₀, (h.kept _ hk).trans hstored⟩
    have hexisting : existingOnDevice T deviceId p.input = some x := by
      have hname := hs.named _ _ hstored
      simp [existingOnDevice, Placement.input, hm₀, Option.filter_some, hname, hx]
    rw [hm]
    simp only [upserted, existingOn, hexisting, Option.map_some, Option.getD_some]
    exact h.key _ _ hx
  have hself : T'.materializations m.id = some m := by rw [hrecords, Function.update_self]
  have hother : ∀ k, k ≠ m.id → T'.materializations k = T.materializations k := by
    intro k hk
    rw [hrecords, Function.update_of_ne hk]
  -- What was written before has another workspace id.
  have hapart : ∀ k ∈ ids, k ≠ m.id → ∀ x, T'.materializations k = some x →
      x.workspaceId ≠ m.workspaceId := by
    intro k hk hne x hx heq
    obtain ⟨y, hy, hmem⟩ := h.held k hk
    rw [hother k hne, hy] at hx
    cases hx
    exact hnew (hworkspace ▸ heq ▸ hmem)
  constructor
  · intro k x hx
    by_cases hk : k = m.id
    · rw [hk, hself] at hx
      cases hx
      exact hk.symm
    · exact h.key k x (hother k hk ▸ hx)
  · intro k hk
    simp only [List.mem_cons, not_or] at hk
    rw [hother k hk.1]
    exact h.kept k hk.2
  · intro k hk
    by_cases hsame : k = m.id
    · exact ⟨m, hsame ▸ hself, by simp [hworkspace]⟩
    · obtain ⟨x, hx, hmem⟩ := h.held k ((List.mem_cons.mp hk).resolve_left hsame)
      refine ⟨x, (hother k hsame).trans hx, ?_⟩
      rw [List.map_append]
      exact List.mem_append_left _ hmem
  · intro k hk k' hk' x x' hx hx' heq
    by_cases hsame : k = m.id
    · by_cases hsame' : k' = m.id
      · rw [hsame, hsame']
      · rw [hsame, hself] at hx
        cases hx
        exact absurd heq.symm (hapart k' ((List.mem_cons.mp hk').resolve_left hsame') hsame' x' hx')
    · by_cases hsame' : k' = m.id
      · rw [hsame', hself] at hx'
        cases hx'
        exact absurd heq (hapart k ((List.mem_cons.mp hk).resolve_left hsame) hsame x hx)
      · exact h.single k ((List.mem_cons.mp hk).resolve_left hsame) k'
          ((List.mem_cons.mp hk').resolve_left hsame')
          x x' ((hother k hsame).symm.trans hx) ((hother k' hsame').symm.trans hx') heq
  · intro q hq x hx
    rcases List.mem_append.mp hq with hq | hq
    · exact List.mem_cons_of_mem _ (h.previous q hq x hx)
    · rw [List.mem_singleton.mp hq] at hx
      rw [hid x hx]
      exact List.mem_cons_self

theorem written_upserts (hs : Consistent s) {deviceId : String} (before after : List Upsert) (T T' : Storage)
    (ids : List String) {stored : List StoredMaterialization}
    (hprevious : ∀ u ∈ after, ∀ m, u.placement.previous = some m → s.materializations m.id = some m)
    (hdistinct : ((before ++ after).map (·.placement.workspaceId)).Nodup)
    (h : Written s T (before.map (·.placement)) ids)
    (hupserts : upsertAnnounced userId deviceId T (after.map (·.announcement)) = (.ok stored, T')) :
    ∃ ids', Written s T' ((before ++ after).map (·.placement)) ids' := by
  induction after generalizing before T ids stored with
  | nil =>
    cases hupserts
    exact ⟨ids, by simpa using h⟩
  | cons u rest ih =>
    rw [List.map_cons, upsertAnnounced] at hupserts
    split at hupserts
    · cases hupserts
    rename_i m T₁ hupsert
    have hnew : u.placement.workspaceId ∉ (before.map (·.placement)).map (·.workspaceId) := by
      rw [List.map_append, List.map_cons] at hdistinct
      intro hmem
      rw [List.map_map] at hmem
      exact (List.nodup_append.mp hdistinct).2.2 _ hmem _ List.mem_cons_self rfl
    have hwritten := h.upsert hs (hprevious u List.mem_cons_self) hnew hupsert
    split at hupserts
    · cases hupserts
    rename_i reconciled T₂ hrest
    cases hupserts
    obtain ⟨ids', hfinal⟩ := ih (before ++ [u]) T₁ (m.id :: ids)
      (fun v hv => hprevious v (List.mem_cons_of_mem u hv)) (by simpa using hdistinct)
        (by simpa using hwritten) hrest
    exact ⟨ids', by simpa using hfinal⟩

theorem Written.unambiguous {T : Storage} {placements : List Placement} {ids : List String}
    (hs : Consistent s) (hwritten : Written s T placements ids) {others : List String}
    (h : Unambiguous s userId others)
    (hunused : ∀ p ∈ placements, ∀ k m, s.materializations k = some m → m.userId = userId →
      m.workspaceId = p.workspaceId → ∃ q ∈ placements, q.previous = some m)
    (hapart : ∀ p ∈ placements, p.workspaceId ∉ others) : Unambiguous T userId others := by
  -- A record that was not written to has none of the new ids.
  have hold : ∀ k ∉ ids, ∀ x, T.materializations k = some x → x.userId = userId →
      x.workspaceId ∉ placements.map (·.workspaceId) := by
    intro k hk x hx huser hmem
    rw [hwritten.kept k hk] at hx
    obtain ⟨p, hp, heq⟩ := List.mem_map.mp hmem
    obtain ⟨q, hq, hprevious⟩ := hunused p hp k x hx huser heq.symm
    apply hk
    rw [← (hs.materialization k x hx).1]
    exact hwritten.previous q hq x hprevious
  have hnew : ∀ k ∈ ids, ∀ x, T.materializations k = some x →
      x.workspaceId ∈ placements.map (·.workspaceId) := by
    intro k hk x hx
    obtain ⟨y, hy, hmem⟩ := hwritten.held k hk
    rw [hy] at hx
    cases hx
    exact hmem
  constructor
  · intro k k' x x' hx hx' huser huser' heq
    by_cases hk : k ∈ ids
    · by_cases hk' : k' ∈ ids
      · exact hwritten.single k hk k' hk' x x' hx hx' heq
      · exact absurd (heq ▸ hnew k hk x hx) (hold k' hk' x' hx' huser')
    · by_cases hk' : k' ∈ ids
      · exact absurd (heq ▸ hnew k' hk' x' hx') (hold k hk x hx huser)
      · rw [hwritten.kept k hk] at hx
        rw [hwritten.kept k' hk'] at hx'
        exact h.distinct k k' x x' hx hx' huser huser' heq
  · intro k x hx huser
    by_cases hk : k ∈ ids
    · obtain ⟨p, hp, heq⟩ := List.mem_map.mp (hnew k hk x hx)
      exact heq ▸ hapart p hp
    · rw [hwritten.kept k hk] at hx
      exact h.apart k x hx huser

/-- The handler answers with an error. -/
theorem handled_success {deviceId : String} {platform : Option Platform} {call : ImportCall}
    {attempt : ImportAttempt} {details : List RepositoryDetails} {T : Storage}
    (h : handled lower userId deviceId platform call attempt = (.success details, T)) :
    attempt = .returned (.success details) T := by
  cases attempt with
  | returned answer S =>
    cases h
    rfl
  | failed message S created committed =>
    unfold handled recoverImport at h
    dsimp only at h
    split_ifs at h <;> cases h

theorem importAllocated_success {deviceId : String} {platform : Option Platform} {call : ImportCall}
    {a : Allocation} (hkeys : (a.bindings.map fun b => companionPathKey lower b.path platform).Nodup)
    {details : List RepositoryDetails} {T : Storage}
    (h : importAllocated locale lower userId deviceId platform call a = .returned (.success details) T) :
    ∃ prepared bindings stored, call.prepare = .ok (some prepared) ∧
      bindings.map (fun b => (b.repositoryId, b.workspaceId, b.path)) =
        prepared.map (fun v => (v.repositoryId, v.workspaceId, v.path)) ∧
      upsertAnnounced userId deviceId a.storage
        ((importUpserts locale a.storage userId deviceId platform call bindings).map (·.announcement)) =
        (.ok stored, T) := by
  unfold importAllocated at h
  dsimp only at h
  split at h
  · cases h
  · cases h
  rename_i prepared hprepare
  split_ifs at h with hlength
  rw [not_not] at hlength
  split at h
  · cases h
  rename_i bindings hcanonical
  obtain ⟨hentries, hbindingKeys⟩ := canonical_entries hlength (canonicalBindings_ok _ hcanonical)
  rw [importUpserts_announcements (hbindingKeys ▸ hkeys)] at h
  unfold transaction at h
  cases hupserts : upsertAnnounced userId deviceId a.storage
    ((importUpserts locale a.storage userId deviceId platform call bindings).map (·.announcement)) with
  | mk result S =>
    cases result with
    | error message =>
      simp only [hupserts] at h
      cases h
    | ok stored =>
      simp only [hupserts] at h
      refine ⟨prepared, bindings, stored, hprepare, hentries, ?_⟩
      rcases importCommitted_cases lower userId platform call a S bindings
        (previousMaterializations locale lower a.storage userId deviceId platform bindings) with
        ⟨_, heq⟩ | ⟨_, heq⟩
      · rw [heq] at h
        cases h
        exact hupserts
      · rw [heq] at h
        cases h

/-- The commit of an import that succeeds. -/
theorem import_success (hs : Consistent s) {call : ImportCall} (hfresh : FreshIds s call)
    {details : List RepositoryDetails} {T : Storage}
    (h : importRepositoriesOnCompanion locale lower s userId call = (.success details, T)) :
    ∃ candidate prepared bindings S created stored,
      selectCompanionDevice call.candidates call.requestedDeviceId = .selected candidate ∧
      call.prepare = .ok (some prepared) ∧ Created s userId S created ∧
      bindings.map (fun b => (b.repositoryId, b.workspaceId, b.path)) =
        prepared.map (fun v => (v.repositoryId, v.workspaceId, v.path)) ∧
      upsertAnnounced userId candidate.deviceId S
        ((importUpserts locale S userId candidate.deviceId candidate.target.platform call bindings).map
          (·.announcement)) = (.ok stored, T) := by
  unfold importRepositoriesOnCompanion at h
  split at h
  · cases h
  rename_i paths _
  split at h
  · cases h
  split at h
  · cases h
  · cases h
  rename_i candidate hselected
  split at h
  · cases h
  · cases h
  have h := handled_success (h : handled lower userId candidate.deviceId candidate.target.platform call _ = _)
  unfold importAttempt at h
  dsimp only at h
  split at h
  · cases h
  · cases h
  rename_i discovered _
  split at h
  · cases h
  rename_i selected hselection
  split at h
  · cases h
  rename_i a hall
  obtain ⟨hcreated, hpaths⟩ := created_allocateAll hfresh.repository hfresh.repositories selected 0 _
    (created_nil hs) (by simp) hall
  have hkeys := allocated_keys (by simpa using hpaths rfl) (importSelection_keys hselection)
  obtain ⟨prepared, bindings, stored, hprepare, hentries, hupserts⟩ := importAllocated_success hkeys h
  exact ⟨candidate, prepared, bindings, a.storage, a.createdRepositoryIds, stored, hselected,
    hprepare, hcreated, hentries, hupserts⟩

/-- The condition on an import: the companion that it selects validates ids
that stay apart. -/
def ImportSeparates (locale : Locale) (s : Storage) (userId : String) (others : List String)
    (call : ImportCall) : Prop :=
  ∀ candidate prepared, selectCompanionDevice call.candidates call.requestedDeviceId = .selected candidate →
    call.prepare = .ok (some prepared) → Separate locale s userId candidate.deviceId others prepared

/-- The upserts of an import by the entries of the answer. -/
theorem importUpserts_entries (hordered : locale.Ordered) (hs : Consistent s) {S : Storage}
    {created : List String} (hcreated : Created s userId S created) (deviceId : String)
    (platform : Option Platform) (call : ImportCall) {bindings : List InternalRepositoryBinding}
    {prepared : List InternalBoundRepository}
    (hentries : bindings.map (fun b => (b.repositoryId, b.workspaceId, b.path)) =
      prepared.map fun v => (v.repositoryId, v.workspaceId, v.path)) :
    (importUpserts locale S userId deviceId platform call bindings).map
      (fun u => (u.placement.workspaceId, u.placement.previous)) =
      prepared.map fun v =>
        (v.workspaceId, previousFor locale s userId deviceId v.repositoryId v.workspaceId v.path) := by
  calc (importUpserts locale S userId deviceId platform call bindings).map
        (fun u => (u.placement.workspaceId, u.placement.previous))
      = ((importUpserts locale S userId deviceId platform call bindings).map (·.placement)).map
          (fun p => (p.workspaceId, p.previous)) := by rw [List.map_map]; rfl
    _ = (bindings.map fun b => (b.repositoryId, b.workspaceId, b.path)).map
          (fun b => (b.2.1, previousFor locale s userId deviceId b.1 b.2.1 b.2.2)) := by
        rw [importUpserts_placements, List.map_map, List.map_map]
        apply List.map_congr_left
        intro b _
        simp only [Function.comp_apply, InternalRepositoryBinding.placement, hcreated.previousFor hs hordered]
    _ = prepared.map fun v =>
          (v.workspaceId, previousFor locale s userId deviceId v.repositoryId v.workspaceId v.path) := by
        rw [hentries, List.map_map]
        rfl

theorem unambiguous_import (hordered : locale.Ordered) (hs : Consistent s) {others : List String}
    (h : Unambiguous s userId others) {call : ImportCall} (hfresh : FreshIds s call)
    (hseparates : ImportSeparates locale s userId others call) {details : List RepositoryDetails}
    {T : Storage}
    (hsuccess : importRepositoriesOnCompanion locale lower s userId call = (.success details, T)) :
    Unambiguous T userId others := by
  obtain ⟨candidate, prepared, bindings, S, created, stored, hselected, hprepare, hcreated,
      hbindings, hupserts⟩ :=
    import_success hs hfresh hsuccess
  have hseparate := hseparates candidate prepared hselected hprepare
  have hentries := importUpserts_entries hordered hs hcreated candidate.deviceId
    candidate.target.platform call hbindings
  generalize importUpserts locale S userId candidate.deviceId candidate.target.platform call
    bindings = upserts
    at hupserts hentries
  have hentry : ∀ u ∈ upserts, ∃ v ∈ prepared, v.workspaceId = u.placement.workspaceId ∧
      previousFor locale s userId candidate.deviceId v.repositoryId v.workspaceId v.path =
          u.placement.previous := by
    intro u hu
    have hmem : (u.placement.workspaceId, u.placement.previous) ∈ prepared.map fun v =>
        (v.workspaceId, previousFor locale s userId candidate.deviceId v.repositoryId v.workspaceId v.path) :=
      hentries ▸ List.mem_map.mpr ⟨u, hu, rfl⟩
    simpa using List.mem_map.mp hmem
  have hplacement : ∀ v ∈ prepared, ∃ u ∈ upserts, u.placement.previous =
      previousFor locale s userId candidate.deviceId v.repositoryId v.workspaceId v.path := by
    intro v hv
    have hmem : (v.workspaceId,
      previousFor locale s userId candidate.deviceId v.repositoryId v.workspaceId v.path) ∈
        upserts.map fun u => (u.placement.workspaceId, u.placement.previous) :=
      hentries ▸ List.mem_map.mpr ⟨v, hv, rfl⟩
    obtain ⟨u, hu, heq⟩ := List.mem_map.mp hmem
    exact ⟨u, hu, (Prod.mk.inj heq).2⟩
  have hdistinct : (([] ++ upserts).map fun u : Upsert => u.placement.workspaceId).Nodup := by
    have hids := congrArg (List.map Prod.fst) hentries
    rw [List.map_map, List.map_map] at hids
    show (upserts.map (Prod.fst ∘ fun u : Upsert => (u.placement.workspaceId, u.placement.previous))).Nodup
    rw [hids]
    exact hseparate.distinct
  have hstored : ∀ u ∈ upserts, ∀ m, u.placement.previous = some m → s.materializations m.id = some m := by
    intro u hu m hm
    obtain ⟨v, _, _, hprevious⟩ := hentry u hu
    exact (previousFor_stored hs (hprevious.trans hm)).1
  have hnothing : Written s S (([] : List Upsert).map (·.placement)) [] := by
    refine ⟨?_, ?_, by simp, by simp, by simp⟩
    · intro k m hm
      rw [hcreated.materializations] at hm
      exact (hs.materialization k m hm).1
    · intro k _
      rw [hcreated.materializations]
  obtain ⟨ids, hwritten⟩ := written_upserts hs [] upserts S T [] hstored hdistinct hnothing hupserts
  apply hwritten.unambiguous hs h
  · intro p hp k m hm huser heq
    obtain ⟨u, hu, rfl⟩ := List.mem_map.mp hp
    obtain ⟨v, hv, hworkspace, _⟩ := hentry u hu
    obtain ⟨w, hw, hprevious⟩ := hseparate.unused v hv k m hm huser (heq.trans hworkspace.symm)
    obtain ⟨u', hu', hprevious'⟩ := hplacement w hw
    exact ⟨u'.placement, List.mem_map.mpr ⟨u', hu', rfl⟩, hprevious'.trans hprevious⟩
  · intro p hp
    obtain ⟨u, hu, rfl⟩ := List.mem_map.mp hp
    obtain ⟨v, hv, hworkspace, _⟩ := hentry u hu
    exact hworkspace ▸ hseparate.apart v hv

theorem workspace_ids_unambiguous (locale : Locale) (lower : String → String) (hordered : locale.Ordered)
    (s : Storage) (hs : Consistent s) (userId : String) (others : List String)
    (h : Unambiguous s userId others) :
    (∀ call : MaterializeCall, (∀ ids, call.primaryWorkspaceIds = .ok (some ids) → ∀ id ∈ others, id ∈ ids) →
      ∀ result T, (materializeRepositoryOnCompanion locale lower s userId call = (.success result, T) ∨
        materializeRepositoryOnPrimary locale lower s userId call = (.success result, T)) →
      Unambiguous T userId others ∧ Routable T userId others) ∧
    ∀ call : ImportCall, FreshIds s call → ImportSeparates locale s userId others call →
      ∀ details T, importRepositoriesOnCompanion locale lower s userId call = (.success details, T) →
      Unambiguous T userId others ∧ Routable T userId others := by
  constructor
  · intro call hothers result T hsuccess
    have hafter : Unambiguous T userId others := by
      rcases hsuccess with hsuccess | hsuccess
      · exact unambiguous_companion hs h hothers hsuccess
      · exact unambiguous_primary hs h hothers hsuccess
    exact ⟨hafter, hafter.routable⟩
  · intro call hfresh hseparates details T hsuccess
    have hafter := unambiguous_import hordered hs h hfresh hseparates hsuccess
    exact ⟨hafter, hafter.routable⟩

end Import

section Samples

theorem sampleStore_unambiguous : Unambiguous sampleStore sampleUser ["p1"] where
  distinct k k' m m' hm hm' _ _ _ :=
    (sampleStore_materialization hm).trans (sampleStore_materialization hm').symm
  apart k m hm _ := by
    have hstored : (sampleStore.materializations "mat_1").map (·.workspaceId) = some "w1" := by
      rw [sampleStore_records.2.2.1, Option.map_some]
    rw [← sampleStore_materialization hm, hm, Option.map_some, Option.some.injEq] at hstored
    rw [hstored]
    decide

/-- The import of the stored path, carried out. -/
def sampleRebind : ImportCall :=
  { sampleReimport with
    primaryWorkspaceIds := .ok (some ["p1"])
    bind := .ok (some [⟨"repo_1", "w1", "/a"⟩]) }

theorem workspace_ids_unambiguous_sample :
    ∃ details T, importRepositoriesOnCompanion plainLocale id sampleStore sampleUser sampleRebind =
      (.success details, T) ∧ Unambiguous T sampleUser ["p1"] := by
  have hfresh := sampleImport_fresh ⟨"alpha", "/a", "w1", []⟩ ⟨"repo_1", "w1", "/a"⟩
  have hseparates : ImportSeparates plainLocale sampleStore sampleUser ["p1"] sampleRebind := by
    intro candidate prepared hselected hprepare
    have hwithin := sampleReimport_within hselected hprepare
    have hprepared : prepared = [⟨"repo_1", "w1", "/a"⟩] := by
      cases hprepare
      rfl
    subst hprepared
    refine ⟨List.nodup_singleton _, ?_, by decide⟩
    intro v hv k m hm _ hworkspace
    have hfields : (sampleStore.materializations "mat_1").map (fun m => (m.repositoryId, m.host)) =
        some ("repo_1", .device "dev_1") := by
      rw [sampleStore_records.2.2.1, Option.map_some]
    rw [← sampleStore_materialization hm, hm, Option.map_some, Option.some.injEq, Prod.mk.injEq] at hfields
    have hdevice : candidate.deviceId = "dev_1" := by
      cases hselected
      rfl
    refine ⟨v, hv, hwithin.only v hv k m hm ?_ (hdevice ▸ hfields.2) hworkspace⟩
    rw [List.mem_singleton.mp hv]
    exact hfields.1
  have hsuccess :
    (match (importRepositoriesOnCompanion plainLocale id sampleStore sampleUser sampleRebind).1 with
    | .success _ => true
    | _ => false) = true := by decide +kernel
  cases hresult : importRepositoriesOnCompanion plainLocale id sampleStore sampleUser sampleRebind with
  | mk answer T =>
    rw [hresult] at hsuccess
    cases answer with
    | success details =>
      exact ⟨details, T, rfl, ((workspace_ids_unambiguous plainLocale id plainLocale_ordered sampleStore
        sampleStore_consistent sampleUser ["p1"] sampleStore_unambiguous).2 sampleRebind
        ⟨hfresh.repository, hfresh.repositories, hfresh.named, hfresh.materialization,
          hfresh.materializations⟩
        hseparates details T hresult).1⟩
    | error code message => cases hsuccess
    | thrown message => cases hsuccess

/-- The companion validates the id of a workspace of the primary runtime,
where it was asked for another. -/
def takingImport : ImportCall :=
  { sampleImport ⟨"gamma", "/c", "w9", []⟩ ⟨"x", "p1", "/c"⟩ with
    primaryWorkspaceIds := .ok (some ["p1"])
    bind := .ok (some [⟨"x", "p1", "/c"⟩]) }

theorem answered_id_taken_over :
    Unambiguous sampleStore sampleUser ["p1"] ∧
    (match (importRepositoriesOnCompanion plainLocale id sampleStore sampleUser takingImport).1 with
      | .success _ => true
      | _ => false) = true ∧
    ¬ Unambiguous
      (importRepositoriesOnCompanion plainLocale id sampleStore sampleUser takingImport).2 sampleUser
      ["p1"] ∧
    selectWorkspaceRuntime [⟨(), "dev_1", ["w1", "p1"]⟩] "p1" ["p1"] = .collision := by
  have hrun : (match (importRepositoriesOnCompanion plainLocale id sampleStore sampleUser takingImport).1 with
      | .success _ => true
      | _ => false) = true ∧
      ((importRepositoriesOnCompanion plainLocale id sampleStore sampleUser
        takingImport).2.materializations "x").map
        (fun m => (m.userId, m.workspaceId)) = some (sampleUser, "p1") := by
    decide +kernel
  obtain ⟨hsuccess, hrecord⟩ := hrun
  refine ⟨sampleStore_unambiguous, hsuccess, ?_, by decide⟩
  intro h
  obtain ⟨m, hm, heq⟩ := Option.map_eq_some_iff.mp hrecord
  rw [Prod.mk.injEq] at heq
  have hnot := h.apart "x" m hm heq.1
  rw [heq.2] at hnot
  exact absurd List.mem_cons_self hnot

end Samples

end AccessStack.Accounts
