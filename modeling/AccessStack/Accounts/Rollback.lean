import AccessStack.Accounts.Indexes
import AccessStack.Accounts.Placement

/-!
# What the commit of a placement leaves to undo

A placement puts a repository on a host under a workspace id, into the record
it goes on from or into a new one. Where no two placements, and no placement
and a stored record it does not go on from, share a repository, a host and a
workspace id, the record that the rollback finds under them is the one that
the commit wrote.
-/

set_option autoImplicit false

namespace AccessStack.Accounts
open AccessStack.Index AccessStack.Text

section Upserts

variable {s : Storage} {userId : String} {host : Host} {input : MaterializationUpsertInput}
  {generated now : String}

def hostAuthorized (s : Storage) (userId : String) : Host → Bool
  | .device deviceId => deviceAuthorized s userId deviceId
  | .runtime runtimeId => isRuntimeId runtimeId

def existingOn (s : Storage) (userId : String) (host : Host) (input : MaterializationUpsertInput) :
    Option StoredMaterialization :=
  match host with
  | .device deviceId => existingOnDevice s deviceId input
  | .runtime runtimeId => existingOnRuntime s userId runtimeId input

/-- An upsert of this repository to this host passes the checks. -/
structure Admitted (s : Storage) (userId repositoryId : String) (host : Host) : Prop where
  access : (getRepositoryForUser s userId repositoryId).isSome = true
  authorized : hostAuthorized s userId host = true

def upserted (s : Storage) (userId : String) (host : Host) (input : MaterializationUpsertInput)
    (generated now : String) : StoredMaterialization :=
  ⟨((existingOn s userId host input).map (·.id)).getD generated, input.repositoryId, userId, host,
    input.workspaceId, input.path, input.platform, now⟩

theorem upsertOn_admitted (h : Admitted s userId input.repositoryId host) :
    upsertOn s userId host input generated now =
      storeMaterialization s (upserted s userId host input generated now) := by
  have haccess : (getRepositoryForUser s userId input.repositoryId).isNone = false := by
    simpa using h.access
  have hauthorized := h.authorized
  cases host with
  | device deviceId =>
    simp only [hostAuthorized] at hauthorized
    simp only [upsertOn, upsertMaterialization, haccess, hauthorized]
    rfl
  | runtime runtimeId =>
    simp only [hostAuthorized] at hauthorized
    simp only [upsertOn, upsertRuntimeMaterialization, haccess, hauthorized]
    rfl

theorem upsertOn_ok {m : StoredMaterialization} {s' : Storage}
    (h : upsertOn s userId host input generated now = (.ok m, s')) :
    Admitted s userId input.repositoryId host := by
  cases host with
  | device deviceId =>
    unfold upsertOn upsertMaterialization at h
    simp only at h
    split at h
    · cases h
    rename_i haccess
    split at h
    · cases h
    rename_i hauthorized
    exact ⟨by simpa [Option.isSome_iff_ne_none] using haccess, by simpa [hostAuthorized] using hauthorized⟩
  | runtime runtimeId =>
    unfold upsertOn upsertRuntimeMaterialization at h
    simp only at h
    split at h
    · cases h
    rename_i haccess
    split at h
    · cases h
    rename_i hauthorized
    exact ⟨by simpa [Option.isSome_iff_ne_none] using haccess, by simpa [hostAuthorized] using hauthorized⟩

/-- An upsert by the id of a record goes on from it. -/
theorem existingOn_id {x : StoredMaterialization} (hid : input.id = some x.id) (hname : x.id ≠ "")
    (hx : s.materializations x.id = some x) (huser : x.userId = userId)
    (hrepository : x.repositoryId = input.repositoryId) : existingOn s userId host input = some x := by
  have hcandidate : (input.id.filter (· ≠ "")).bind s.materializations = some x := by
    simp [hid, Option.filter_some, hname, hx]
  cases host with
  | device deviceId => simp only [existingOn, existingOnDevice, hcandidate, Option.some_or]
  | runtime runtimeId =>
    simp only [existingOn, existingOnRuntime, hcandidate, Option.filter_some, huser, hrepository, and_self,
      decide_true, if_true, Option.some_or]

/-- An upsert without an id goes on from what is under the workspace id. -/
theorem existingOn_workspace (hid : input.id = none) :
    existingOn s userId host input =
      findMaterialization s (s.materializationIds input.repositoryId) host input.workspaceId := by
  cases host <;> simp [existingOn, existingOnDevice, existingOnRuntime, hid]

theorem currentMaterialization_eq {repositoryId workspaceId : String}
    (h : (getRepositoryForUser s userId repositoryId).isSome = true) :
    currentMaterialization s userId repositoryId host workspaceId =
      findMaterialization s (s.materializationIds repositoryId) host workspaceId := by
  have haccess : (getRepositoryForUser s userId repositoryId).isNone = false := by simpa using h
  simp only [currentMaterialization, listMaterializations, haccess]
  rfl

theorem found_matches {ids : List String} {workspaceId : String} {x : StoredMaterialization}
    (h : findMaterialization s ids host workspaceId = some x) :
    x.host = host ∧ x.workspaceId = workspaceId := by
  simpa using List.find?_some h

/-- A record of a repository is found under its host and workspace id. -/
theorem found_some (h : Consistent s) {k : String} {m : StoredMaterialization}
    (hm : s.materializations k = some m) :
    (findMaterialization s (s.materializationIds m.repositoryId) m.host m.workspaceId).isSome = true := by
  unfold findMaterialization
  rw [List.find?_isSome]
  exact ⟨m, List.mem_filterMap.mpr ⟨k, h.materializations.mem_owner hm, hm⟩, by simp⟩

end Upserts

section Placements

/-- A repository to put on a host, and the record it goes on from. -/
structure Placement where
  repositoryId : String
  workspaceId : String
  path : String
  platform : Platform
  previous : Option StoredMaterialization

def Placement.input (p : Placement) : MaterializationUpsertInput :=
  ⟨p.previous.map (·.id), p.repositoryId, p.workspaceId, p.path, p.platform⟩

/-- Two placements under one workspace id of one repository. -/
def Placement.Meets (p q : Placement) : Prop := p.repositoryId = q.repositoryId ∧
    p.workspaceId = q.workspaceId

variable (s : Storage) (host : Host)

/-- What a placement may be undone from: the record it goes on from is one of
its repository on the host, and the only one there under its workspace id. -/
structure Settled (p : Placement) : Prop where
  previous : ∀ m, p.previous = some m →
    s.materializations m.id = some m ∧ m.repositoryId = p.repositoryId ∧ m.host = host
  only : ∀ k m, s.materializations k = some m → m.repositoryId = p.repositoryId → m.host = host →
    m.workspaceId = p.workspaceId → p.previous = some m

/-- The same record, whenever it was written. -/
def StoredMaterialization.Alike (m m' : StoredMaterialization) : Prop :=
  { m with updatedAt := "" } = { m' with updatedAt := "" }

/-- The record carries the placement. -/
structure Placement.Carried (p : Placement) (m : StoredMaterialization) : Prop where
  repository : m.repositoryId = p.repositoryId
  host : m.host = host
  workspace : m.workspaceId = p.workspaceId

/-- The storage has some placements on top of the records of `s`. -/
structure Placed (userId : String) (T : Storage) (placements : List Placement) : Prop where
  consistent : Consistent T
  frame : T = { s with
    repositoryMaterializationIds := T.repositoryMaterializationIds, materializations := T.materializations }
  admitted : ∀ p ∈ placements, Admitted s userId p.repositoryId host
  kept : ∀ r, (T.materializationIds r).filter (fun k => (s.materializations k).isSome) =
    s.materializationIds r
  old : ∀ k m, s.materializations k = some m → ∃ m', T.materializations k = some m' ∧
    (m'.Alike m ∨ ∃ p ∈ placements, p.previous = some m ∧ p.Carried host m')
  new : ∀ k m, T.materializations k = some m → s.materializations k = none →
    ∃ p ∈ placements, p.previous = none ∧ p.Carried host m
  single : ∀ k k' m m', T.materializations k = some m → T.materializations k' = some m' →
    s.materializations k = none → s.materializations k' = none → m.repositoryId = m'.repositoryId →
    m.workspaceId = m'.workspaceId → k = k'

variable {s host}

theorem placed_nil {userId : String} (h : Consistent s) : Placed s host userId s [] where
  consistent := h
  frame := rfl
  admitted p hp := by cases hp
  kept r := by
    apply List.filter_eq_self.mpr
    intro k hk
    obtain ⟨x, hx, _⟩ := h.materializations.listed hk
    simp [hx]
  old k m hm := ⟨m, hm, .inl rfl⟩
  new k m hm hnone := by
    rw [hm] at hnone
    cases hnone
  single k k' m m' hm _ hnone := by
    rw [hm] at hnone
    cases hnone

theorem Admitted.transfer {T : Storage} {userId repositoryId : String}
    (h : Admitted s userId repositoryId host) (hrepositories : T.repositories = s.repositories)
    (hdevices : T.devices = s.devices) :
    Admitted T userId repositoryId host := by
  refine ⟨?_, ?_⟩
  · simpa only [getRepositoryForUser, hrepositories] using h.access
  · have hauthorized := h.authorized
    cases host with
    | device deviceId => simpa only [hostAuthorized, deviceAuthorized, hdevices] using hauthorized
    | runtime runtimeId => exact hauthorized

theorem Admitted.owner {userId repositoryId : String} (h : Admitted s userId repositoryId host) :
    ∃ r, s.repositories repositoryId = some r ∧ r.ownerUserId = userId := by
  apply repository_access
  simpa [Option.isSome_iff_ne_none] using h.access

/-- The records of a repository are those of its owner. -/
theorem Admitted.user {k userId repositoryId : String} {x : StoredMaterialization}
    (h : Admitted s userId repositoryId host) (hs : Consistent s) (hx : s.materializations k = some x)
    (hrepository : x.repositoryId = repositoryId) : x.userId = userId := by
  obtain ⟨r, hr, howner⟩ := h.owner
  obtain ⟨r', hr', howner'⟩ := (hs.materialization k x hx).2
  rw [hrepository, hr] at hr'
  cases hr'
  exact howner'.symm.trans howner

section Step

variable {T : Storage} {userId : String} {placements : List Placement}

theorem Placed.repositories (h : Placed s host userId T placements) : T.repositories = s.repositories := by
  rw [h.frame]

theorem Placed.devices (h : Placed s host userId T placements) : T.devices = s.devices := by
  rw [h.frame]

/-- What is under the workspace id of a placement is an old record that the
placement goes on from, or the new one that carries it. -/
theorem Placed.under (h : Placed s host userId T placements) {p : Placement} (hp : Settled s host p)
    (hmeets : ∀ q ∈ placements, p.Meets q → p = q) {k : String} {m : StoredMaterialization}
    (hm : T.materializations k = some m) (hcarried : p.Carried host m) :
    (∃ m', s.materializations k = some m' ∧ p.previous = some m') ∨
      s.materializations k = none ∧ p ∈ placements ∧ p.previous = none := by
  have hsame : ∀ q ∈ placements, q.Carried host m → p = q := fun q hq hcarries =>
    hmeets q hq ⟨hcarried.repository.symm.trans hcarries.repository,
      hcarried.workspace.symm.trans hcarries.workspace⟩
  cases hk : s.materializations k with
  | some m' =>
    left
    refine ⟨m', rfl, ?_⟩
    obtain ⟨m'', hm'', hcase⟩ := h.old k m' hk
    rw [hm] at hm''
    cases hm''
    rcases hcase with halike | ⟨q, hq, hprevious, hcarries⟩
    · simp only [StoredMaterialization.Alike, StoredMaterialization.mk.injEq] at halike
      exact hp.only k m' hk (halike.2.1 ▸ hcarried.repository) (halike.2.2.2.1 ▸ hcarried.host)
        (halike.2.2.2.2.1 ▸ hcarried.workspace)
    · rw [hsame q hq hcarries]
      exact hprevious
  | none =>
    right
    obtain ⟨q, hq, hprevious, hcarries⟩ := h.new k m hm hk
    have hpq := hsame q hq hcarries
    subst hpq
    exact ⟨rfl, hq, hprevious⟩

/-- The records of `s` are still there, each in its repository. -/
theorem Placed.origin (h : Placed s host userId T placements) (hsettled : ∀ p ∈ placements, Settled s host p)
    {k : String} {m : StoredMaterialization} (hm : s.materializations k = some m) :
    ∃ x, T.materializations k = some x ∧ x.repositoryId = m.repositoryId := by
  obtain ⟨x, hx, hcase⟩ := h.old k m hm
  refine ⟨x, hx, ?_⟩
  rcases hcase with halike | ⟨p, hp, hprevious, hcarried⟩
  · simp only [StoredMaterialization.Alike, StoredMaterialization.mk.injEq] at halike
    exact halike.2.1
  · exact hcarried.repository.trans ((hsettled p hp).previous m hprevious).2.1.symm

/-- A record of `s` is written over. -/
theorem Placed.rewrite (hs : Consistent s) (h : Placed s host userId T placements)
    (hsettled : ∀ p ∈ placements, Settled s host p) {after : List Placement} {m m' : StoredMaterialization}
    (hm : s.materializations m.id = some m) (hid : m'.id = m.id)
    (hrepository : m'.repositoryId = m.repositoryId) (huser : m'.userId = m.userId)
    (hcase : m'.Alike m ∨ ∃ p ∈ after, p.previous = some m ∧ p.Carried host m')
    (hafter : ∀ p ∈ placements, p ∈ after ∨ p.previous = some m)
    (hadmitted : ∀ p ∈ after, Admitted s userId p.repositoryId host) :
    storeMaterialization T m' = (.ok m', T.putMaterialization m') ∧
      Placed s host userId (T.putMaterialization m') after := by
  obtain ⟨x, hx, hsame⟩ := h.origin hsettled hm
  have hstored : storeMaterialization T m' = (.ok m', T.putMaterialization m') := by
    have hmem : m'.id ∈ T.materializationIds m'.repositoryId := by
      rw [hid, hrepository, ← hsame]
      exact h.consistent.materializations.mem_owner hx
    simp only [storeMaterialization, hmem, if_true]
  obtain ⟨r, hr, howner⟩ := (hs.materialization m.id m hm).2
  have hat : ∀ k, (T.putMaterialization m').materializations k =
      if k = m.id then some m' else T.materializations k := by
    intro k
    simp only [Storage.putMaterialization, Function.update_apply, hid]
  have hnot : ∀ k, s.materializations k = none → k ≠ m.id := by
    intro k hk heq
    rw [heq, hm] at hk
    cases hk
  have hconsistent : Consistent (T.putMaterialization m') := by
    have hplace := consistent_storeMaterialization (m := m') (r := r) h.consistent
      (by rw [h.repositories, hrepository, hr]) (howner.trans huser.symm)
      (.inl ⟨x, by rw [hid, hx], hsame.trans hrepository.symm⟩)
    rwa [hstored] at hplace
  refine ⟨hstored, hconsistent, ?_, hadmitted, h.kept, ?_, ?_, ?_⟩
  · conv_lhs => rw [h.frame]
    rfl
  · intro k y hy
    rw [hat k]
    split_ifs with hk
    · rw [hk, hm] at hy
      cases hy
      exact ⟨m', rfl, hcase⟩
    · obtain ⟨y', hy', halike | ⟨p, hp, hprevious, hcarried⟩⟩ := h.old k y hy
      · exact ⟨y', hy', .inl halike⟩
      · refine ⟨y', hy', .inr ⟨p, ?_, hprevious, hcarried⟩⟩
        rcases hafter p hp with hp | hother
        · exact hp
        · rw [hprevious, Option.some.injEq] at hother
          rw [hother] at hy
          exact absurd (hs.materialization k m hy).1.symm hk
  · intro k y hy hnone
    rw [hat k, if_neg (hnot k hnone)] at hy
    obtain ⟨p, hp, hprevious, hcarried⟩ := h.new k y hy hnone
    refine ⟨p, ?_, hprevious, hcarried⟩
    rcases hafter p hp with hp | hother
    · exact hp
    · rw [hprevious] at hother
      cases hother
  · intro k k' y y' hy hy' hnone hnone'
    rw [hat k, if_neg (hnot k hnone)] at hy
    rw [hat k', if_neg (hnot k' hnone')] at hy'
    exact h.single k k' y y' hy hy' hnone hnone'

/-- A new record carries a placement. -/
theorem Placed.insert (h : Placed s host userId T placements) {p : Placement}
    (hmeets : ∀ q ∈ placements, ¬ p.Meets q)
    (hadmitted : Admitted s userId p.repositoryId host) (hprevious : p.previous = none)
    {m : StoredMaterialization} (hm : s.materializations m.id = none)
    (hnew : T.materializations m.id = none) (hname : m.id ≠ "") (huser : m.userId = userId)
    (hcarried : p.Carried host m)
    (hroom : (T.materializationIds m.repositoryId).length < maxMaterializationsPerRepository) :
    Placed s host userId ((T.putMaterialization m).putMaterializationIds m.repositoryId
      (T.materializationIds m.repositoryId ++ [m.id])) (placements ++ [p]) := by
  obtain ⟨r, hr, howner⟩ := hadmitted.owner
  have hconsistent := consistent_storeMaterialization (m := m) (r := r) h.consistent
    (by rw [h.repositories, hcarried.repository, hr]) (howner.trans huser.symm) (.inr ⟨hnew, hname, hroom⟩)
  have hmem : m.id ∉ T.materializationIds m.repositoryId := by
    intro hmem
    obtain ⟨x, hx, _⟩ := h.consistent.materializations.listed hmem
    rw [hnew] at hx
    cases hx
  simp only [storeMaterialization, hmem, if_false, if_neg (Nat.not_le.mpr hroom)] at hconsistent
  have hat : ∀ k, ((T.putMaterialization m).putMaterializationIds m.repositoryId
      (T.materializationIds m.repositoryId ++ [m.id])).materializations k =
      if k = m.id then some m else T.materializations k := by
    intro k
    simp only [Storage.putMaterializationIds, Storage.putMaterialization, Function.update_apply]
  -- No new record is under the workspace id yet.
  have halone : ∀ k y, T.materializations k = some y → s.materializations k = none →
      y.repositoryId = m.repositoryId → y.workspaceId ≠ m.workspaceId := by
    intro k y hy hnone hrepository hworkspace
    obtain ⟨q, hq, _, hcarries⟩ := h.new k y hy hnone
    apply hmeets q hq
    exact ⟨by rw [← hcarried.repository, ← hrepository, hcarries.repository],
      by rw [← hcarried.workspace, ← hworkspace, hcarries.workspace]⟩
  refine ⟨hconsistent, ?_, ?_, ?_, ?_, ?_, ?_⟩
  · conv_lhs => rw [h.frame]
    rfl
  · intro q hq
    rcases List.mem_append.mp hq with hq | hq
    · exact h.admitted q hq
    · rw [List.mem_singleton.mp hq]
      exact hadmitted
  · intro k
    rw [materializationIds_put]
    by_cases hk : k = m.repositoryId
    · subst hk
      rw [Function.update_self, List.filter_append]
      simp only [List.filter_cons, hm, Option.isSome_none, Bool.false_eq_true, if_false, List.filter_nil,
        List.append_nil]
      exact h.kept m.repositoryId
    · rw [Function.update_of_ne hk]
      exact h.kept k
  · intro k y hy
    rw [hat k]
    split_ifs with hk
    · rw [hk, hm] at hy
      cases hy
    · obtain ⟨y', hy', halike | ⟨q, hq, hrest⟩⟩ := h.old k y hy
      · exact ⟨y', hy', .inl halike⟩
      · exact ⟨y', hy', .inr ⟨q, List.mem_append_left _ hq, hrest⟩⟩
  · intro k y hy hnone
    rw [hat k] at hy
    split_ifs at hy with hk
    · cases hy
      exact ⟨p, by simp, hprevious, hcarried⟩
    · obtain ⟨q, hq, hrest⟩ := h.new k y hy hnone
      exact ⟨q, List.mem_append_left _ hq, hrest⟩
  · intro k k' y y' hy hy' hnone hnone' hrepository hworkspace
    rw [hat k] at hy
    rw [hat k'] at hy'
    split_ifs at hy hy' with hk hk' hk'
    · exact hk.trans hk'.symm
    · cases hy
      exact absurd hworkspace.symm (halone k' y' hy' hnone' hrepository.symm)
    · cases hy'
      exact absurd hworkspace (halone k y hy hnone hrepository)
    · exact h.single k k' y y' hy hy' hnone hnone' hrepository hworkspace

/-- The new record of a placement is deleted. -/
theorem Placed.remove {p : Placement} {rest : List Placement} (h : Placed s host userId T (p::rest))
    (hprevious : p.previous = none) {x : StoredMaterialization} (hx : T.materializations x.id = some x)
    (hcarried : p.Carried host x) (hnone : s.materializations x.id = none) :
    ∃ T', deleteMaterialization T userId p.repositoryId x.id = (true, T') ∧ Placed s host userId T' rest := by
  have hadmitted := h.admitted p List.mem_cons_self
  have haccess := (hadmitted.transfer h.repositories h.devices).access
  have huser : x.userId = userId :=
    (hadmitted.transfer h.repositories h.devices).user h.consistent hx hcarried.repository
  have hmem : x.id ∈ T.materializationIds p.repositoryId := by
    rw [← hcarried.repository]
    exact h.consistent.materializations.mem_owner hx
  have hdelete : deleteMaterialization T userId p.repositoryId x.id =
      (true, { T with materializations := Function.update T.materializations x.id none }.putMaterializationIds
        p.repositoryId ((T.materializationIds p.repositoryId).filter (· ≠ x.id))) := by
    have hmem' :
      x.id ∈ { T with materializations := Function.update T.materializations x.id none }.materializationIds
        p.repositoryId := hmem
    have haccess' : (getRepositoryForUser T userId p.repositoryId).isNone = false := by simpa using haccess
    simp only [deleteMaterialization, haccess', hx, huser, hcarried.repository, removeMaterializationId,
      hmem', ne_eq, not_true_eq_false, or_self, if_false, Bool.false_eq_true]
    rfl
  refine ⟨_, hdelete, ?_⟩
  have hconsistent := consistent_deleteMaterialization h.consistent userId p.repositoryId x.id
  rw [hdelete] at hconsistent
  have hat : ∀ k,
    ({ T with materializations := Function.update T.materializations x.id none }.putMaterializationIds
      p.repositoryId ((T.materializationIds p.repositoryId).filter (· ≠ x.id))).materializations k =
      if k = x.id then none else T.materializations k := by
    intro k
    simp only [Storage.putMaterializationIds, Function.update_apply]
  refine ⟨hconsistent, ?_, fun q hq => h.admitted q (List.mem_cons_of_mem p hq), ?_, ?_, ?_, ?_⟩
  · conv_lhs => rw [h.frame]
    rfl
  · intro k
    rw [materializationIds_put]
    by_cases hk : k = p.repositoryId
    · subst hk
      rw [Function.update_self, List.filter_filter, ← h.kept p.repositoryId]
      apply List.filter_congr
      intro i _
      by_cases hi : i = x.id
      · simp [hi, hnone]
      · simp [hi]
    · rw [Function.update_of_ne hk]
      exact h.kept k
  · intro k y hy
    have hk : k ≠ x.id := by
      intro heq
      rw [heq, hnone] at hy
      cases hy
    rw [hat k, if_neg hk]
    obtain ⟨y', hy', halike | ⟨q, hq, hcase, hcarries⟩⟩ := h.old k y hy
    · exact ⟨y', hy', .inl halike⟩
    · rcases List.mem_cons.mp hq with hq | hq
      · rw [hq, hprevious] at hcase
        cases hcase
      · exact ⟨y', hy', .inr ⟨q, hq, hcase, hcarries⟩⟩
  · intro k y hy hnone'
    rw [hat k] at hy
    split_ifs at hy with hk
    obtain ⟨q, hq, hcase, hcarries⟩ := h.new k y hy hnone'
    rcases List.mem_cons.mp hq with hq | hq
    · subst hq
      exact absurd
        (h.single k x.id y x hy hx hnone' hnone (hcarries.repository.trans hcarried.repository.symm)
        (hcarries.workspace.trans hcarried.workspace.symm)) hk
    · exact ⟨q, hq, hcase, hcarries⟩
  · intro k k' y y' hy hy'
    rw [hat k] at hy
    rw [hat k'] at hy'
    split_ifs at hy hy' with hk hk'
    exact h.single k k' y y' hy hy'

/-- The upsert of a placement. -/
theorem Placed.place (hs : Consistent s) (h : Placed s host userId T placements)
    (hsettled : ∀ p ∈ placements, Settled s host p) {p : Placement} (hp : Settled s host p)
    (hmeets : ∀ q ∈ placements, ¬ p.Meets q) {generated now : String} (hname : generated ≠ "")
    (hfresh : s.materializations generated = none) (hnew : T.materializations generated = none)
    {m : StoredMaterialization} {T' : Storage}
    (hupsert : upsertOn T userId host p.input generated now = (.ok m, T')) :
    Placed s host userId T' (placements ++ [p]) := by
  have hadmitted : Admitted s userId p.repositoryId host :=
    (upsertOn_ok hupsert).transfer h.repositories.symm h.devices.symm
  rw [upsertOn_admitted (upsertOn_ok hupsert)] at hupsert
  have hall : ∀ q ∈ placements ++ [p], Admitted s userId q.repositoryId host := by
    intro q hq
    rcases List.mem_append.mp hq with hq | hq
    · exact h.admitted q hq
    · rw [List.mem_singleton.mp hq]
      exact hadmitted
  cases hprevious : p.previous with
  | some m₀ =>
    obtain ⟨hm₀, hrepository, _⟩ := hp.previous m₀ hprevious
    obtain ⟨x, hx, hsame⟩ := h.origin hsettled hm₀
    have hid := (h.consistent.materialization m₀.id x hx).1
    have huser : x.userId = userId :=
      (hadmitted.transfer h.repositories h.devices).user h.consistent hx (hsame.trans hrepository)
    have hexisting : existingOn T userId host p.input = some x :=
      existingOn_id (by simp [Placement.input, hprevious, hid]) (hid ▸ h.consistent.named _ _ hx)
        (hid ▸ hx) huser
        (hsame.trans hrepository)
    have huser₀ : userId = m₀.userId := (hadmitted.user hs hm₀ hrepository).symm
    obtain ⟨hstored, hplaced⟩ := h.rewrite hs hsettled hm₀
      (show (upserted T userId host p.input generated now).id =
        m₀.id by simp [upserted, hexisting, hid]) (by simp [upserted, Placement.input, hrepository])
      (by simpa [upserted] using huser₀) (.inr ⟨p, by simp, hprevious, ⟨rfl, rfl, rfl⟩⟩)
      (fun q hq => .inl (List.mem_append_left _ hq)) hall
    rw [hstored] at hupsert
    cases hupsert
    exact hplaced
  | none =>
    have hexisting : existingOn T userId host p.input = none := by
      rw [existingOn_workspace (by simp [Placement.input, hprevious])]
      apply Option.eq_none_iff_forall_ne_some.mpr
      intro x hx
      obtain ⟨hstored, hrepository⟩ := found_listed h.consistent hx
      obtain ⟨hhost, hworkspace⟩ := found_matches hx
      rcases h.under hp (fun q hq hmeet => absurd hmeet (hmeets q hq)) hstored
        ⟨hrepository, hhost, hworkspace⟩ with
        ⟨m', _, hcase⟩ | ⟨_, hmem, _⟩
      · rw [hprevious] at hcase
        cases hcase
      · exact hmeets p hmem ⟨rfl, rfl⟩
    have hid : (upserted T userId host p.input generated now).id = generated := by simp [upserted, hexisting]
    have hmem : generated ∉ T.materializationIds p.repositoryId := by
      intro hmem
      obtain ⟨x, hx, _⟩ := h.consistent.materializations.listed hmem
      rw [hnew] at hx
      cases hx
    have hrepository : (upserted T userId host p.input generated now).repositoryId = p.repositoryId := rfl
    simp only [storeMaterialization, hid, hrepository, hmem, if_false] at hupsert
    split_ifs at hupsert with hroom
    · cases hupsert
    · have hplaced := h.insert (m := upserted T userId host p.input generated now) hmeets hadmitted hprevious
        (by rw [hid, hfresh]) (by rw [hid, hnew]) (by rwa [hid]) rfl ⟨rfl, rfl, rfl⟩ (Nat.lt_of_not_le hroom)
      rw [hid, hrepository] at hplaced
      cases hupsert
      exact hplaced

/-- What the rollback finds under the workspace id of the next placement. -/
theorem Placed.current (hs : Consistent s) {p : Placement} {rest : List Placement}
    (h : Placed s host userId T (p::rest)) (hp : Settled s host p)
    (hmeets : ∀ q ∈ rest, ¬ p.Meets q) {x : StoredMaterialization}
    (hx : currentMaterialization T userId p.repositoryId host p.workspaceId = some x) :
    T.materializations x.id = some x ∧ p.Carried host x ∧
      ((∃ m, p.previous = some m ∧ m.id = x.id) ∨ s.materializations x.id = none ∧ p.previous = none) := by
  have hadmitted := (h.admitted p List.mem_cons_self).transfer h.repositories h.devices
  rw [currentMaterialization_eq hadmitted.access] at hx
  obtain ⟨hstored, hrepository⟩ := found_listed h.consistent hx
  obtain ⟨hhost, hworkspace⟩ := found_matches hx
  have hcarried : p.Carried host x := ⟨hrepository, hhost, hworkspace⟩
  have hself : ∀ q ∈ p::rest, p.Meets q → p = q := by
    intro q hq hmeet
    rcases List.mem_cons.mp hq with hq | hq
    · exact hq.symm
    · exact absurd hmeet (hmeets q hq)
  refine ⟨hstored, hcarried, ?_⟩
  rcases h.under hp hself hstored hcarried with ⟨m, hm, hprevious⟩ | ⟨hnone, _, hprevious⟩
  · exact .inl ⟨m, hprevious, (hs.materialization x.id m hm).1⟩
  · exact .inr ⟨hnone, hprevious⟩

/-- The record that a placement went on from is written back. -/
theorem Placed.restore (hs : Consistent s) {p : Placement} {rest : List Placement}
    (h : Placed s host userId T (p::rest)) (hsettled : ∀ q ∈ p::rest, Settled s host q)
    {m : StoredMaterialization} (hprevious : p.previous = some m) (generated now : String) :
    ∃ m' T', upsertOn T userId host m.input generated now = (.ok m', T') ∧ Placed s host userId T' rest := by
  obtain ⟨hm, hrepository, hhost⟩ := (hsettled p List.mem_cons_self).previous m hprevious
  have hadmitted := h.admitted p List.mem_cons_self
  have hadmittedT := hadmitted.transfer h.repositories h.devices
  obtain ⟨x, hx, hsame⟩ := h.origin hsettled hm
  have hid := (h.consistent.materialization m.id x hx).1
  have hexisting : existingOn T userId host m.input = some x :=
    existingOn_id (by simp [StoredMaterialization.input, hid]) (hid ▸ h.consistent.named _ _ hx) (hid ▸ hx)
      (hadmittedT.user h.consistent hx (hsame.trans hrepository)) hsame
  have huser : userId = m.userId := (hadmitted.user hs hm hrepository).symm
  have halike : (upserted T userId host m.input generated now).Alike m := by
    simp only [StoredMaterialization.Alike, upserted, hexisting, Option.map_some, Option.getD_some, hid]
    simp [StoredMaterialization.input, huser, hhost]
  have hrest : ∀ q ∈ p::rest, q ∈ rest ∨ q.previous = some m := by
    intro q hq
    rcases List.mem_cons.mp hq with hq | hq
    · exact .inr (hq ▸ hprevious)
    · exact .inl hq
  obtain ⟨hstored, hplaced⟩ := h.rewrite hs hsettled hm
    (show (upserted T userId host m.input generated now).id =
      m.id by simp [upserted, hexisting, hid]) rfl huser
    (.inl halike) hrest (fun q hq => h.admitted q (List.mem_cons_of_mem p hq))
  have hinput : Admitted T userId m.input.repositoryId host := by
    show Admitted T userId m.repositoryId host
    rwa [hrepository]
  refine ⟨upserted T userId host m.input generated now, _, ?_, hplaced⟩
  rw [upsertOn_admitted hinput]
  exact hstored

/-- Nothing is left to undo. -/
theorem Placed.skip {p : Placement} {rest : List Placement} (h : Placed s host userId T (p::rest))
    (hprevious : p.previous = none)
    (hnone : currentMaterialization T userId p.repositoryId host p.workspaceId = none) :
    Placed s host userId T rest where
  consistent := h.consistent
  frame := h.frame
  admitted q hq := h.admitted q (List.mem_cons_of_mem p hq)
  kept := h.kept
  old k m hm := by
    obtain ⟨m', hm', halike | ⟨q, hq, hcase, hcarried⟩⟩ := h.old k m hm
    · exact ⟨m', hm', .inl halike⟩
    · rcases List.mem_cons.mp hq with hq | hq
      · rw [hq, hprevious] at hcase
        cases hcase
      · exact ⟨m', hm', .inr ⟨q, hq, hcase, hcarried⟩⟩
  new k m hm hnew := by
    obtain ⟨q, hq, hcase, hcarried⟩ := h.new k m hm hnew
    rcases List.mem_cons.mp hq with hq | hq
    · subst hq
      have hadmitted := (h.admitted q List.mem_cons_self).transfer h.repositories h.devices
      have hfound := found_some h.consistent hm
      rw [hcarried.repository, hcarried.host,
        hcarried.workspace, ← currentMaterialization_eq hadmitted.access, hnone] at hfound
      cases hfound
    · exact ⟨q, hq, hcase, hcarried⟩
  single := h.single

end Step

section Restored

variable {T : Storage} {userId : String}

/-- The same repositories, materializations and indexes up to the time of the
last write; a list that is not stored is empty. -/
structure Restored (s T : Storage) : Prop where
  repositories : T.repositories = s.repositories
  repositoryIds : T.repositoryIds = s.repositoryIds
  materializationIds : T.materializationIds = s.materializationIds
  materializations : ∀ k, (T.materializations k).map (fun m => { m with updatedAt := "" }) =
    (s.materializations k).map (fun m => { m with updatedAt := "" })

theorem restored_refl (s : Storage) : Restored s s := ⟨rfl, rfl, rfl, fun _ => rfl⟩

theorem Placed.restored (h : Placed s host userId T []) : Restored s T where
  repositories := h.repositories
  repositoryIds := by rw [h.frame]; rfl
  materializationIds := by
    funext r
    rw [← h.kept r, eq_comm, List.filter_eq_self]
    intro k hk
    obtain ⟨x, hx, _⟩ := h.consistent.materializations.listed hk
    cases hold : s.materializations k with
    | some m => rfl
    | none =>
      obtain ⟨p, hp, _⟩ := h.new k x hx hold
      cases hp
  materializations k := by
    cases hold : s.materializations k with
    | some m =>
      obtain ⟨m', hm', halike | ⟨p, hp, _⟩⟩ := h.old k m hold
      · rw [hm', Option.map_some, Option.map_some, halike]
      · cases hp
    | none =>
      cases hnew : T.materializations k with
      | none => rfl
      | some m =>
        obtain ⟨p, hp, _⟩ := h.new k m hnew hold
        cases hp

end Restored

end Placements

end AccessStack.Accounts
