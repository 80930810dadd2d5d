import AccessStack.Index
import AccessStack.Runs
import AccessStack.Accounts.Store

/-!
# The indexes of the account store

There is at most one user. The repositories and the devices are indexed by
their owner, the materializations by their repository. An upsert breaks the
index when it takes over a record of another repository, or when it has
stored a record that no longer fits into the list.
-/

set_option autoImplicit false

namespace AccessStack.Accounts
open AccessStack.Index AccessStack.Runs AccessStack.Text

section Storage

variable {s : Storage}

theorem repositoryIds_put (userId : String) (ids : List String) :
    (s.putRepositoryIds userId ids).repositoryIds = Function.update s.repositoryIds userId ids := by
  funext k
  simp only [Storage.repositoryIds, Storage.putRepositoryIds, Function.update_apply]
  split_ifs <;> rfl

theorem deviceIds_put (userId : String) (ids : List String) :
    (s.putDeviceIds userId ids).deviceIds = Function.update s.deviceIds userId ids := by
  funext k
  simp only [Storage.deviceIds, Storage.putDeviceIds, Function.update_apply]
  split_ifs <;> rfl

theorem materializationIds_put (repositoryId : String) (ids : List String) :
    (s.putMaterializationIds repositoryId ids).materializationIds =
      Function.update s.materializationIds repositoryId ids := by
  funext k
  simp only [Storage.materializationIds, Storage.putMaterializationIds, Function.update_apply]
  split_ifs <;> rfl

end Storage

section Consistent

/-- No user, or one with its name. -/
def SingleUser (s : Storage) : Prop :=
  (s.userIdList = [] ∧ (∀ u, s.users u = none) ∧ ∀ n, s.userNames n = none) ∨
  ∃ user : AccountUser, s.userIdList = [user.id] ∧ isUserId user.id = true ∧ user.normalizedName ≠ "" ∧
    (∀ u, s.users u = if u = user.id then some user else none) ∧
    ∀ n, s.userNames n = if n = user.normalizedName then some user.id else none

structure Consistent (s : Storage) : Prop where
  user : SingleUser s
  repositories : Indexes maxRepositoriesPerUser s.repositoryIds s.repositories (·.ownerUserId)
  devices : Indexes maxDevicesPerUser s.deviceIds s.devices (·.userId)
  materializations :
    Indexes maxMaterializationsPerRepository s.materializationIds s.materializations (·.repositoryId)
  repository : ∀ id x, s.repositories id = some x → x.id = id ∧ (s.users x.ownerUserId).isSome = true ∧
    x.visibility = .privateOnly ∧ x.members = [(x.ownerUserId, .owner)]
  device : ∀ id x, s.devices id = some x → x.id = id ∧ (s.users x.userId).isSome = true
  materialization : ∀ id x, s.materializations id = some x → x.id = id ∧
    ∃ r, s.repositories x.repositoryId = some r ∧ r.ownerUserId = x.userId
  named : ∀ id x, s.materializations id = some x → id ≠ ""

theorem consistent_empty : Consistent Storage.empty where
  user := .inl ⟨rfl, fun _ => rfl, fun _ => rfl⟩
  repositories := indexes_empty _ _
  devices := indexes_empty _ _
  materializations := indexes_empty _ _
  repository _ _ h := by cases h
  device _ _ h := by cases h
  materialization _ _ h := by cases h
  named _ _ h := by cases h

variable {s : Storage}

theorem consistent_addRepository (h : Consistent s) {repository : StoredRepository}
    (hnew : s.repositories repository.id = none) (huser : (s.users repository.ownerUserId).isSome = true)
    (hprivate : repository.visibility = .privateOnly)
    (hmembers : repository.members = [(repository.ownerUserId, .owner)])
    (hroom : (s.repositoryIds repository.ownerUserId).length < maxRepositoriesPerUser) :
    Consistent ((s.putRepository repository).putRepositoryIds repository.ownerUserId
      (s.repositoryIds repository.ownerUserId ++ [repository.id])) where
  user := h.user
  repositories := by
    rw [repositoryIds_put]
    exact h.repositories.insert repository hnew hroom
  devices := h.devices
  materializations := h.materializations
  repository id x hx := by
    by_cases hid : id = repository.id
    · subst hid
      simp only [Storage.putRepositoryIds, Storage.putRepository, Function.update_self,
        Option.some.injEq] at hx
      subst hx
      exact ⟨rfl, huser, hprivate, hmembers⟩
    · simp only [Storage.putRepositoryIds, Storage.putRepository, Function.update_of_ne hid] at hx
      exact h.repository id x hx
  device := h.device
  materialization id x hx := by
    obtain ⟨hid, r, hr, howner⟩ := h.materialization id x hx
    refine ⟨hid, r, ?_, howner⟩
    have hne : x.repositoryId ≠ repository.id := by
      intro heq
      rw [heq, hnew] at hr
      cases hr
    simp only [Storage.putRepositoryIds, Storage.putRepository, Function.update_of_ne hne]
    exact hr
  named := h.named

theorem consistent_addDevice (h : Consistent s) {device : StoredDevice} (hnew : s.devices device.id = none)
    (huser : (s.users device.userId).isSome = true)
    (hroom : (s.deviceIds device.userId).length < maxDevicesPerUser) :
    Consistent ((s.putDevice device).putDeviceIds device.userId
      (s.deviceIds device.userId ++ [device.id])) where
  user := h.user
  repositories := h.repositories
  devices := by
    rw [deviceIds_put]
    exact h.devices.insert device hnew hroom
  materializations := h.materializations
  repository := h.repository
  device id x hx := by
    by_cases hid : id = device.id
    · subst hid
      simp only [Storage.putDeviceIds, Storage.putDevice, Function.update_self, Option.some.injEq] at hx
      subst hx
      exact ⟨rfl, huser⟩
    · simp only [Storage.putDeviceIds, Storage.putDevice, Function.update_of_ne hid] at hx
      exact h.device id x hx
  materialization := h.materialization
  named := h.named

theorem consistent_rewriteDevice (h : Consistent s) {deviceId : String} {device updated : StoredDevice}
    (hdevice : s.devices deviceId = some device) (hid : updated.id = device.id)
    (huser : updated.userId = device.userId) :
    Consistent { s with devices := Function.update s.devices deviceId (some updated) } where
  user := h.user
  repositories := h.repositories
  devices := h.devices.rewrite hdevice huser
  materializations := h.materializations
  repository := h.repository
  device id x hx := by
    by_cases hsame : id = deviceId
    · subst hsame
      simp only [Function.update_self, Option.some.injEq] at hx
      subst hx
      obtain ⟨hkey, howner⟩ := h.device id device hdevice
      exact ⟨hid.trans hkey, huser ▸ howner⟩
    · simp only [Function.update_of_ne hsame] at hx
      exact h.device id x hx
  materialization := h.materialization
  named := h.named

/-- The record comes from one of the same repository, or is new and fits. -/
theorem consistent_storeMaterialization (h : Consistent s) {m : StoredMaterialization} {r : StoredRepository}
    (hrepository : s.repositories m.repositoryId = some r) (howner : r.ownerUserId = m.userId)
    (hplace : (∃ x, s.materializations m.id = some x ∧ x.repositoryId = m.repositoryId) ∨
      s.materializations m.id = none ∧ m.id ≠ "" ∧
        (s.materializationIds m.repositoryId).length < maxMaterializationsPerRepository) :
    Consistent (storeMaterialization s m).2 := by
  have hrecords : ∀ id x, Function.update s.materializations m.id (some m) id = some x →
      x.id = id ∧ ∃ r, s.repositories x.repositoryId = some r ∧ r.ownerUserId = x.userId := by
    intro id x hx
    by_cases hid : id = m.id
    · subst hid
      simp only [Function.update_self, Option.some.injEq] at hx
      subst hx
      exact ⟨rfl, r, hrepository, howner⟩
    · rw [Function.update_of_ne hid] at hx
      exact h.materialization id x hx
  have hnamed : m.id ≠ "" → ∀ id x, Function.update s.materializations m.id (some m) id = some x →
      id ≠ "" := by
    intro hnew id x hx
    by_cases hid : id = m.id
    · exact hid ▸ hnew
    · rw [Function.update_of_ne hid] at hx
      exact h.named id x hx
  unfold storeMaterialization
  rcases hplace with ⟨x, hx, hsame⟩ | ⟨hnone, hnew, hroom⟩
  · have hmem : m.id ∈ s.materializationIds m.repositoryId := hsame ▸ h.materializations.mem_owner hx
    simp only [hmem, if_true]
    exact ⟨h.user, h.repositories, h.devices, h.materializations.rewrite hx hsame.symm,
      h.repository, h.device, hrecords, hnamed (h.named m.id x hx)⟩
  · have hmem : m.id ∉ s.materializationIds m.repositoryId := by
      intro hmem
      obtain ⟨x, hx, _⟩ := h.materializations.listed hmem
      rw [hnone] at hx
      cases hx
    simp only [hmem, if_false, if_neg (Nat.not_le.mpr hroom)]
    refine ⟨h.user, h.repositories, h.devices, ?_, h.repository, h.device, hrecords, hnamed hnew⟩
    rw [materializationIds_put]
    exact h.materializations.insert m hnone hroom

theorem consistent_deleteMaterialization (h : Consistent s) (userId repositoryId materializationId : String) :
    Consistent (deleteMaterialization s userId repositoryId materializationId).2 := by
  unfold deleteMaterialization
  split
  · exact h
  split
  · exact h
  · rename_i value hvalue
    split
    · exact h
    · rename_i hguard
      simp only [not_or, not_not] at hguard
      obtain ⟨_, rfl⟩ := hguard
      have hmem : materializationId ∈ s.materializationIds value.repositoryId :=
        h.materializations.mem_owner hvalue
      have herase := h.materializations.erase hvalue
      have heq : removeMaterializationId
          { s with materializations := Function.update s.materializations materializationId none }
          value.repositoryId materializationId =
          { s with materializations :=
              Function.update s.materializations materializationId none }.putMaterializationIds
            value.repositoryId
                ((s.materializationIds value.repositoryId).filter (· ≠ materializationId)) := by
        unfold removeMaterializationId
        simp only [Storage.materializationIds] at hmem ⊢
        simp only [hmem, not_true_eq_false, if_false]
      simp only [heq]
      have hkept : ∀ id x, Function.update s.materializations materializationId none id = some x →
          s.materializations id = some x := by
        intro id x hx
        by_cases hid : id = materializationId
        · subst hid
          rw [Function.update_self] at hx
          cases hx
        · rwa [Function.update_of_ne hid] at hx
      refine ⟨h.user, h.repositories, h.devices, ?_, h.repository, h.device,
        fun id x hx => h.materialization id x (hkept id x hx), fun id x hx => h.named id x (hkept id x hx)⟩
      rw [materializationIds_put]
      exact herase

end Consistent

section Operations

inductive Operation where
  | createSingleUserIdentity (displayName : String) (id createdAt : Option String) (generated now : String)
  | createRepository (userId name : String) (remoteUrls : List String) (generated now : String)
  | registerDevice (userId : String) (deviceId : Option String) (displayName : String) (platform : Platform)
      (generated now : String)
  | touchDevice (userId deviceId now : String)
  | revokeDevice (userId deviceId now : String)
  | upsertMaterialization (userId deviceId : String) (input : MaterializationUpsertInput)
    (generated now : String)
  | upsertRuntimeMaterialization (userId runtimeId : String) (input : MaterializationUpsertInput)
      (generated now : String)
  | reconcileDeviceMaterializations (userId deviceId : String) (desired : List Announcement)
  | deleteMaterialization (userId repositoryId materializationId : String)
  | deleteOwnedRepositoryIfUnmaterialized (userId repositoryId : String)
  | migrateSingleUserIdentity (fromUserId : String) (toUser : TargetUser)

def step (locale : Locale) (s : Storage) : Operation → Storage
  | .createSingleUserIdentity displayName id createdAt generated now =>
    (createSingleUserIdentity locale s displayName id createdAt generated now).2
  | .createRepository userId name remoteUrls generated now =>
    (createRepository locale s userId name remoteUrls generated now).2
  | .registerDevice userId deviceId displayName platform generated now =>
    (registerDevice s userId deviceId displayName platform generated now).2
  | .touchDevice userId deviceId now => (touchDevice s userId deviceId now).2
  | .revokeDevice userId deviceId now => (revokeDevice s userId deviceId now).2
  | .upsertMaterialization userId deviceId input generated now =>
    (upsertMaterialization s userId deviceId input generated now).2
  | .upsertRuntimeMaterialization userId runtimeId input generated now =>
    (upsertRuntimeMaterialization s userId runtimeId input generated now).2
  | .reconcileDeviceMaterializations userId deviceId desired =>
    (reconcileDeviceMaterializations locale s userId deviceId desired).2
  | .deleteMaterialization userId repositoryId materializationId =>
    (deleteMaterialization s userId repositoryId materializationId).2
  | .deleteOwnedRepositoryIfUnmaterialized userId repositoryId =>
    (deleteOwnedRepositoryIfUnmaterialized s userId repositoryId).2
  | .migrateSingleUserIdentity fromUserId toUser => (migrateSingleUserIdentity locale s fromUserId toUser).2

/-- A check of every upsert of a reconciliation, where it is made. -/
def eachUpsert (check : Storage → Announcement → Bool) (userId deviceId : String) :
    Storage → List Announcement → Bool
  | _, [] => true
  | s, a::rest =>
    check s a &&
      match upsertMaterialization s userId deviceId a.input a.generated a.now with
      | (.error _, _) => true
      | (.ok _, s) => eachUpsert check userId deviceId s rest

/-- The upserts of a reconciliation that comes to them. -/
def reconciles (locale : Locale) (check : Storage → Announcement → Bool) (s : Storage)
    (userId deviceId : String) (desired : List Announcement) : Bool :=
  !deviceAuthorized s userId deviceId || (checkAnnouncements s userId [] desired).isSome ||
    eachUpsert check userId deviceId (deleteAllUnannounced locale s userId deviceId desired) desired

def freshMaterialization (s : Storage) (generated : String) : Bool :=
  generated ≠ "" && (s.materializations generated).isNone

/-- Generated ids are new. -/
def fresh (locale : Locale) (s : Storage) : Operation → Bool
  | .createRepository _ _ _ generated _ => (s.repositories generated).isNone
  | .registerDevice _ _ _ _ generated _ => (s.devices generated).isNone
  | .upsertMaterialization _ _ _ generated _ => freshMaterialization s generated
  | .upsertRuntimeMaterialization _ _ _ generated _ => freshMaterialization s generated
  | .reconcileDeviceMaterializations userId deviceId desired =>
    reconciles locale (fun s a => freshMaterialization s a.generated) s userId deviceId desired
  | _ => true

/-- There is room in the repository, or a record to go on from. -/
def hasRoom (s : Storage) (repositoryId : String) (existing : Option StoredMaterialization) : Bool :=
  existing.isSome || decide ((s.materializationIds repositoryId).length < maxMaterializationsPerRepository)

/-- The id of the input is not one of another repository, and there is room. -/
def fitsDevice (s : Storage) (userId deviceId : String) (input : MaterializationUpsertInput) : Bool :=
  (getRepositoryForUser s userId input.repositoryId).isNone || !deviceAuthorized s userId deviceId ||
    (((input.id.filter (· ≠ "")).bind s.materializations).all (·.repositoryId = input.repositoryId) &&
      hasRoom s input.repositoryId (existingOnDevice s deviceId input))

def fitsRuntime (s : Storage) (userId runtimeId : String) (input : MaterializationUpsertInput) : Bool :=
  (getRepositoryForUser s userId input.repositoryId).isNone || !isRuntimeId runtimeId ||
    hasRoom s input.repositoryId (existingOnRuntime s userId runtimeId input)

def fits (locale : Locale) (s : Storage) : Operation → Bool
  | .upsertMaterialization userId deviceId input _ _ => fitsDevice s userId deviceId input
  | .upsertRuntimeMaterialization userId runtimeId input _ _ => fitsRuntime s userId runtimeId input
  | .reconcileDeviceMaterializations userId deviceId desired =>
    reconciles locale (fun s a => fitsDevice s userId deviceId a.input) s userId deviceId desired
  | _ => true

end Operations

section Steps

variable {locale : Locale} {s : Storage}

theorem repository_access {userId repositoryId : String}
    (h : ¬ (getRepositoryForUser s userId repositoryId).isNone = true) :
    ∃ r, s.repositories repositoryId = some r ∧ r.ownerUserId = userId := by
  unfold getRepositoryForUser roleFor at h
  cases hr : s.repositories repositoryId with
  | none => simp [hr] at h
  | some r =>
    refine ⟨r, rfl, ?_⟩
    by_contra hne
    simp [hr, hne] at h

theorem user_available {userId : String} (h : ¬ (getUser s userId).isNone = true) :
    (s.users userId).isSome = true := by
  simpa [getUser, ← Option.isSome_iff_ne_none] using h

theorem consistent_createRepository (h : Consistent s) (userId name : String) (remoteUrls : List String)
    (generated now : String) (hfresh : (s.repositories generated).isNone = true) :
    Consistent (createRepository locale s userId name remoteUrls generated now).2 := by
  unfold createRepository
  split
  · exact h
  · rename_i huser
    dsimp only
    split_ifs with _ hlimit _
    · exact h
    · exact h
    · exact h
    · exact consistent_addRepository h (Option.isNone_iff_eq_none.mp hfresh) (user_available huser) rfl rfl
        (Nat.not_le.mp hlimit)

/-- A repository without materializations is taken out of its owner's list. -/
theorem consistent_removeRepository (h : Consistent s) {repositoryId : String} {repository : StoredRepository}
    (hrepository : s.repositories repositoryId = some repository)
    (hnone : ∀ id ∈ s.materializationIds repositoryId, s.materializations id = none) :
    Consistent { s.putRepositoryIds repository.ownerUserId
        ((s.repositoryIds repository.ownerUserId).filter (· ≠ repositoryId)) with
      repositoryMaterializationIds := Function.update s.repositoryMaterializationIds repositoryId none
      repositories := Function.update s.repositories repositoryId none } := by
  have hunused : ∀ id x, s.materializations id = some x → x.repositoryId ≠ repositoryId := by
    intro id x hx heq
    have hmem := h.materializations.mem_owner hx
    rw [heq] at hmem
    rw [hnone id hmem] at hx
    cases hx
  have hnil : s.materializationIds repositoryId = [] := h.materializations.nil hunused
  have hsame : (fun k => (Function.update s.repositoryMaterializationIds repositoryId none k).getD []) =
      s.materializationIds := by
    funext k
    by_cases hk : k = repositoryId
    · subst hk
      simp [hnil]
    · simp [Function.update_of_ne hk, Storage.materializationIds]
  refine ⟨h.user, ?_, h.devices, ?_, ?_, h.device, ?_, h.named⟩
  · have herase := h.repositories.erase hrepository
    rw [← repositoryIds_put] at herase
    exact herase
  · show Indexes _ (fun k => (Function.update s.repositoryMaterializationIds repositoryId none k).getD []) _ _
    rw [hsame]
    exact h.materializations
  · intro id x hx
    have hx : Function.update s.repositories repositoryId none id = some x := hx
    by_cases hid : id = repositoryId
    · subst hid
      rw [Function.update_self] at hx
      cases hx
    · rw [Function.update_of_ne hid] at hx
      exact h.repository id x hx
  · intro id x hx
    obtain ⟨hid, r, hr, howner⟩ := h.materialization id x hx
    refine ⟨hid, r, ?_, howner⟩
    show Function.update s.repositories repositoryId none x.repositoryId = some r
    rw [Function.update_of_ne (hunused id x hx)]
    exact hr

theorem consistent_deleteRepository (h : Consistent s) (userId repositoryId : String) :
    Consistent (deleteOwnedRepositoryIfUnmaterialized s userId repositoryId).2 := by
  unfold deleteOwnedRepositoryIfUnmaterialized
  split
  · exact h
  · rename_i repository role haccess
    split_ifs with howner hmaterialized
    · exact h
    · exact h
    · simp only [not_or, not_not] at howner
      have hnone : ∀ id ∈ s.materializationIds repositoryId, s.materializations id = none := by
        simpa using hmaterialized
      have hrepository : s.repositories repositoryId = some repository := by
        obtain ⟨r, hr, hrole⟩ := Option.bind_eq_some_iff.mp haccess
        obtain ⟨_, _, heq⟩ := Option.map_eq_some_iff.mp hrole
        cases heq
        exact hr
      have hmem : repositoryId ∈ s.repositoryIds userId := howner.2 ▸ h.repositories.mem_owner hrepository
      have heq : removeRepositoryId s userId repositoryId =
          s.putRepositoryIds repository.ownerUserId
            ((s.repositoryIds repository.ownerUserId).filter (· ≠ repositoryId)) := by
        rw [howner.2]
        simp only [removeRepositoryId, hmem, not_true_eq_false, if_false]
      simp only [heq]
      exact consistent_removeRepository h hrepository hnone

theorem consistent_registerDevice (h : Consistent s) (userId : String) (deviceId : Option String)
    (displayName : String) (platform : Platform) (generated now : String)
    (hfresh : (s.devices generated).isNone = true) :
    Consistent (registerDevice s userId deviceId displayName platform generated now).2 := by
  unfold registerDevice
  split
  · exact h
  · rename_i huser
    dsimp only
    split
    · exact h
    split
    · rename_i id _
      split
      · exact h
      · rename_i existing hexisting
        split
        · exact h
        · have hkey : existing.id = id := (h.device id existing hexisting).1
          rw [hkey]
          exact consistent_rewriteDevice h hexisting hkey.symm rfl
    · split
      · exact h
      · rename_i hlimit
        exact consistent_addDevice h (Option.isNone_iff_eq_none.mp hfresh) (user_available huser)
          (Nat.not_le.mp hlimit)

theorem consistent_touchDevice (h : Consistent s) (userId deviceId now : String) :
    Consistent (touchDevice s userId deviceId now).2 := by
  unfold touchDevice
  split
  · exact h
  · rename_i device hdevice
    split
    · exact h
    · exact consistent_rewriteDevice h hdevice rfl rfl

theorem consistent_revokeDevice (h : Consistent s) (userId deviceId now : String) :
    Consistent (revokeDevice s userId deviceId now).2 := by
  unfold revokeDevice
  split
  · exact h
  · rename_i device hdevice
    split
    · exact h
    · exact consistent_rewriteDevice h hdevice rfl rfl

/-- A record that is found in the list of a repository is one of its own. -/
theorem found_listed (h : Consistent s) {repositoryId workspaceId : String} {host : Host}
    {x : StoredMaterialization}
    (hx : findMaterialization s (s.materializationIds repositoryId) host workspaceId = some x) :
    s.materializations x.id = some x ∧ x.repositoryId = repositoryId := by
  have hmem := List.mem_of_find?_eq_some hx
  obtain ⟨id, hid, hstored⟩ := List.mem_filterMap.mp hmem
  obtain ⟨y, hy, howner⟩ := h.materializations.listed hid
  rw [hstored] at hy
  cases hy
  rw [(h.materialization id x hstored).1]
  exact ⟨hstored, howner⟩

theorem existing_device (h : Consistent s) {deviceId : String} {input : MaterializationUpsertInput}
    {x : StoredMaterialization} (hsame : ((input.id.filter (· ≠ "")).bind s.materializations).all
      (·.repositoryId = input.repositoryId) = true)
    (hx : existingOnDevice s deviceId input = some x) :
    s.materializations x.id = some x ∧ x.repositoryId = input.repositoryId := by
  unfold existingOnDevice at hx
  cases hcandidate : (input.id.filter (· ≠ "")).bind s.materializations with
  | none =>
    rw [hcandidate] at hx
    exact found_listed h hx
  | some y =>
    rw [hcandidate] at hx hsame
    cases hx
    obtain ⟨id, _, hstored⟩ := Option.bind_eq_some_iff.mp hcandidate
    rw [(h.materialization id x hstored).1]
    exact ⟨hstored, by simpa using hsame⟩

theorem existing_runtime (h : Consistent s) {userId runtimeId : String} {input : MaterializationUpsertInput}
    {x : StoredMaterialization} (hx : existingOnRuntime s userId runtimeId input = some x) :
    s.materializations x.id = some x ∧ x.repositoryId = input.repositoryId := by
  unfold existingOnRuntime at hx
  cases hcandidate : ((input.id.filter (· ≠ "")).bind s.materializations).filter fun candidate =>
      candidate.userId = userId ∧ candidate.repositoryId = input.repositoryId with
  | none =>
    rw [hcandidate] at hx
    exact found_listed h hx
  | some y =>
    rw [hcandidate] at hx
    cases hx
    obtain ⟨hbind, hcond⟩ := Option.filter_eq_some_iff.mp hcandidate
    obtain ⟨id, _, hstored⟩ := Option.bind_eq_some_iff.mp hbind
    rw [(h.materialization id x hstored).1]
    exact ⟨hstored, (of_decide_eq_true hcond).2⟩

/-- What an upsert stores has its place. -/
theorem existing_place {repositoryId generated : String} {existing : Option StoredMaterialization}
    (hexisting : ∀ x, existing = some x → s.materializations x.id = some x ∧ x.repositoryId = repositoryId)
    (hfresh : freshMaterialization s generated = true) (hroom : hasRoom s repositoryId existing = true) :
    (∃ x, s.materializations ((existing.map (·.id)).getD generated) = some x ∧
      x.repositoryId = repositoryId) ∨
      s.materializations ((existing.map (·.id)).getD generated) = none ∧
        (existing.map (·.id)).getD generated ≠ "" ∧
        (s.materializationIds repositoryId).length < maxMaterializationsPerRepository := by
  cases existing with
  | none =>
    right
    simp only [freshMaterialization, Bool.and_eq_true, decide_eq_true_eq, Option.isNone_iff_eq_none] at hfresh
    exact ⟨hfresh.2, hfresh.1, by simpa [hasRoom] using hroom⟩
  | some x =>
    left
    exact ⟨x, hexisting x rfl⟩

theorem consistent_upsert (h : Consistent s) (userId deviceId : String) (input : MaterializationUpsertInput)
    (generated now : String) (hfresh : freshMaterialization s generated = true)
    (hfits : fitsDevice s userId deviceId input = true) :
    Consistent (upsertMaterialization s userId deviceId input generated now).2 := by
  unfold upsertMaterialization
  split
  · exact h
  · rename_i haccess
    split
    · exact h
    · rename_i hdevice
      obtain ⟨r, hr, howner⟩ := repository_access haccess
      have hfits : ((input.id.filter (· ≠ "")).bind s.materializations).all
          (·.repositoryId = input.repositoryId) = true ∧
          hasRoom s input.repositoryId (existingOnDevice s deviceId input) = true := by
        simp only [fitsDevice, haccess, hdevice, Bool.or_eq_true, Bool.and_eq_true,
          Bool.false_eq_true, false_or] at hfits
        exact hfits
      exact consistent_storeMaterialization h hr howner
        (existing_place (fun x hx => existing_device h hfits.1 hx) hfresh hfits.2)

theorem consistent_upsertRuntime (h : Consistent s) (userId runtimeId : String)
    (input : MaterializationUpsertInput) (generated now : String)
    (hfresh : freshMaterialization s generated = true) (hfits : fitsRuntime s userId runtimeId input = true) :
    Consistent (upsertRuntimeMaterialization s userId runtimeId input generated now).2 := by
  unfold upsertRuntimeMaterialization
  split
  · exact h
  · rename_i haccess
    split
    · exact h
    · rename_i hruntime
      obtain ⟨r, hr, howner⟩ := repository_access haccess
      have hroom : hasRoom s input.repositoryId (existingOnRuntime s userId runtimeId input) = true := by
        simp only [fitsRuntime, haccess, hruntime, Bool.or_eq_true, Bool.false_eq_true, false_or] at hfits
        exact hfits
      exact consistent_storeMaterialization h hr howner
        (existing_place (fun x hx => existing_runtime h hx) hfresh hroom)

attribute [local simp] eachUpsert in
theorem consistent_upsertAnnounced (userId deviceId : String) (s : Storage) (desired : List Announcement)
    (h : Consistent s)
    (hfresh : eachUpsert (fun s a => freshMaterialization s a.generated) userId deviceId s desired = true)
    (hfits : eachUpsert (fun s a => fitsDevice s userId deviceId a.input) userId deviceId s desired = true) :
    Consistent (upsertAnnounced userId deviceId s desired).2 := by
  induction desired generalizing s with
  | nil => exact h
  | cons a rest ih =>
    simp only [eachUpsert, Bool.and_eq_true] at hfresh hfits
    have hnext := consistent_upsert h userId deviceId a.input a.generated a.now hfresh.1 hfits.1
    unfold upsertAnnounced
    cases hupsert : upsertMaterialization s userId deviceId a.input a.generated a.now with
    | mk result s' =>
      rw [hupsert] at hnext hfresh hfits
      cases result with
      | error message => exact hnext
      | ok materialization =>
        have hrest := ih s' hnext hfresh.2 hfits.2
        dsimp only
        cases hall : upsertAnnounced userId deviceId s' rest with
        | mk result s'' =>
          rw [hall] at hrest
          cases result with
          | error message => exact hrest
          | ok reconciled => exact hrest

theorem consistent_deleteUnannounced (deviceId : String) (keys : List String) (userId : String)
    (h : Consistent s) (m : StoredMaterialization) :
    Consistent (deleteUnannounced deviceId keys userId s m) := by
  unfold deleteUnannounced
  split
  · exact consistent_deleteMaterialization h _ _ _
  · exact h

theorem foldl_consistent {α : Type} (f : Storage → α → Storage)
    (hf : ∀ s a, Consistent s → Consistent (f s a)) (l : List α) (s : Storage) (h : Consistent s) :
    Consistent (l.foldl f s) := by
  induction l generalizing s with
  | nil => exact h
  | cons a l ih => exact ih (f s a) (hf s a h)

theorem consistent_deleteAll (h : Consistent s) (userId deviceId : String) (desired : List Announcement) :
    Consistent (deleteAllUnannounced locale s userId deviceId desired) := by
  apply foldl_consistent _ _ _ s h
  intro s access hs
  apply foldl_consistent _ _ _ s hs
  intro s m hs
  exact consistent_deleteUnannounced deviceId _ userId hs m

theorem consistent_reconcile (h : Consistent s) (userId deviceId : String) (desired : List Announcement)
    (hfresh : reconciles locale (fun s a => freshMaterialization s a.generated) s userId deviceId
      desired = true)
    (hfits : reconciles locale (fun s a => fitsDevice s userId deviceId a.input) s userId deviceId
      desired = true) :
    Consistent (reconcileDeviceMaterializations locale s userId deviceId desired).2 := by
  unfold reconcileDeviceMaterializations
  split
  · exact h
  · rename_i hdevice
    split
    · exact h
    · rename_i hcheck
      simp only [reconciles, hdevice, hcheck, Option.isSome_none, Bool.or_eq_true,
        Bool.false_eq_true, false_or]
        at hfresh hfits
      exact consistent_upsertAnnounced userId deviceId _ desired
        (consistent_deleteAll h userId deviceId desired)
        hfresh hfits

/-- The first user finds no records. -/
theorem consistent_createUser (h : Consistent s) (displayName : String) (id createdAt : Option String)
    (generated now : String) :
    Consistent (createSingleUserIdentity locale s displayName id createdAt generated now).2 := by
  unfold createSingleUserIdentity
  dsimp only
  split_ifs with hname hexists hid hcreated
  · exact h
  · exact h
  · exact h
  · exact h
  · simp only [not_or, not_not, List.length_eq_zero_iff] at hname hexists
    have hnobody : (∀ u, s.users u = none) ∧ ∀ n, s.userNames n = none := by
      rcases h.user with ⟨_, husers, hnames⟩ | ⟨user, hids, _⟩
      · exact ⟨husers, hnames⟩
      · rw [hexists] at hids
        cases hids
    have hno (u : String) : ¬ (s.users u).isSome = true := by simp [hnobody.1 u]
    refine ⟨.inr ⟨⟨id.getD generated, trim displayName, normalizeName locale displayName, createdAt.getD now⟩,
      rfl, by simpa using hid, hname.1, ?_, ?_⟩, h.repositories, h.devices, h.materializations, ?_, ?_,
      h.materialization, h.named⟩
    · intro u
      simp only [Function.update_apply, hnobody.1]
    · intro n
      simp only [Function.update_apply, hnobody.2]
    · intro id x hx
      exact absurd (h.repository id x hx).2.1 (hno _)
    · intro id x hx
      exact absurd (h.device id x hx).2 (hno _)

end Steps

end AccessStack.Accounts
