import AccessStack.Accounts.Migration

/-!
# Laws of the account store

The indexes hold after every operation of a run, and the single user of such
a store can be migrated, where the upserts of the run stay in their
repositories and have room. Both fail after one upsert with the id of another
repository's record.
-/

set_option autoImplicit false

namespace AccessStack.Accounts
open AccessStack.Index AccessStack.Runs AccessStack.Text

/-- Every index list has no duplicates and keeps its limit, and lists exactly
the records of its owner. -/
structure Indexed (s : Storage) : Prop where
  users : s.userIdList.Nodup ∧ s.userIdList.length ≤ 1
  repositoryLists : ∀ u, (s.repositoryIds u).Nodup ∧ (s.repositoryIds u).length ≤ maxRepositoriesPerUser
  deviceLists : ∀ u, (s.deviceIds u).Nodup ∧ (s.deviceIds u).length ≤ maxDevicesPerUser
  materializationLists : ∀ r, (s.materializationIds r).Nodup ∧
    (s.materializationIds r).length ≤ maxMaterializationsPerRepository
  repositories : ∀ u id, id ∈ s.repositoryIds u ↔ ∃ x, s.repositories id = some x ∧ x.ownerUserId = u
  devices : ∀ u id, id ∈ s.deviceIds u ↔ ∃ x, s.devices id = some x ∧ x.userId = u
  materializations : ∀ r id, id ∈ s.materializationIds r ↔ ∃ x, s.materializations id = some x ∧
    x.repositoryId = r
  owners : ∀ id x, s.materializations id = some x →
    ∃ r, s.repositories x.repositoryId = some r ∧ r.ownerUserId = x.userId

theorem Consistent.indexed {s : Storage} (h : Consistent s) : Indexed s where
  users := by
    rcases h.user with ⟨hids, _⟩ | ⟨user, hids, _⟩
    · simp [hids]
    · simp [hids]
  repositoryLists u := ⟨h.repositories.nodup u, h.repositories.bound u⟩
  deviceLists u := ⟨h.devices.nodup u, h.devices.bound u⟩
  materializationLists r := ⟨h.materializations.nodup r, h.materializations.bound r⟩
  repositories := h.repositories.mem
  devices := h.devices.mem
  materializations := h.materializations.mem
  owners id x hx := (h.materialization id x hx).2

/-- Generated ids are new, and upserts keep to their repository and fit. -/
def Orderly (locale : Locale) (s : Storage) (op : Operation) : Prop :=
  fresh locale s op = true ∧ fits locale s op = true

instance (locale : Locale) (s : Storage) (op : Operation) : Decidable (Orderly locale s op) :=
  inferInstanceAs (Decidable (_ ∧ _))

theorem consistent_step (locale : Locale) (s : Storage) (op : Operation) (h : Consistent s)
    (horderly : Orderly locale s op) : Consistent (step locale s op) := by
  obtain ⟨hfresh, hfits⟩ := horderly
  cases op with
  | createSingleUserIdentity displayName id createdAt generated now =>
    exact consistent_createUser h displayName id createdAt generated now
  | createRepository userId name remoteUrls generated now =>
    exact consistent_createRepository h userId name remoteUrls generated now hfresh
  | registerDevice userId deviceId displayName platform generated now =>
    exact consistent_registerDevice h userId deviceId displayName platform generated now hfresh
  | touchDevice userId deviceId now => exact consistent_touchDevice h userId deviceId now
  | revokeDevice userId deviceId now => exact consistent_revokeDevice h userId deviceId now
  | upsertMaterialization userId deviceId input generated now =>
    exact consistent_upsert h userId deviceId input generated now hfresh hfits
  | upsertRuntimeMaterialization userId runtimeId input generated now =>
    exact consistent_upsertRuntime h userId runtimeId input generated now hfresh hfits
  | reconcileDeviceMaterializations userId deviceId desired =>
    exact consistent_reconcile h userId deviceId desired hfresh hfits
  | deleteMaterialization userId repositoryId materializationId =>
    exact consistent_deleteMaterialization h userId repositoryId materializationId
  | deleteOwnedRepositoryIfUnmaterialized userId repositoryId =>
    exact consistent_deleteRepository h userId repositoryId
  | migrateSingleUserIdentity fromUserId toUser => exact consistent_migrate h fromUserId toUser

theorem consistent_reached {locale : Locale} {s : Storage}
    (h : Reaches (step locale) (Orderly locale) Storage.empty s) : Consistent s :=
  h.invariant consistent_empty fun s op hs hop => consistent_step locale s op hs hop

theorem store_indexed (locale : Locale) (s : Storage)
    (h : Reaches (step locale) (Orderly locale) Storage.empty s) :
    Indexed s := (consistent_reached h).indexed

section Migration

/-- The user id stands in a key or in a record. -/
def Mentions (s : Storage) (userId : String) : Prop :=
  userId ∈ s.userIdList ∨ (∃ u x, s.users u = some x ∧ (u = userId ∨ x.id = userId)) ∨
  (∃ n, s.userNames n = some userId) ∨
  (s.userRepositoryIds userId).isSome = true ∨ (s.userDeviceIds userId).isSome = true ∨
  (∃ id x, s.repositories id = some x ∧ (x.ownerUserId = userId ∨ userId ∈ x.members.map (·.1))) ∨
  (∃ id x, s.devices id = some x ∧ x.userId = userId) ∨ ∃ id x, s.materializations id = some x ∧
    x.userId = userId

/-- What a migration does: it succeeds, the new user sees what the old one saw
with the user replaced, nothing mentions the old one, the new name is the only
one that is known, and a second migration finds the same. -/
structure Migrates (locale : Locale) (s : Storage) (fromUserId : String) (toUser : TargetUser)
    (s' : Storage) : Prop where
  succeeds : migrateSingleUserIdentity locale s fromUserId toUser =
    (.ok (migrationCounts s fromUserId (toUser.account locale) false), s')
  repositories : listRepositories locale s' toUser.id =
    (listRepositories locale s fromUserId).map fun access => (access.1.moveTo toUser.id, access.2)
  devices : listDevices locale s' toUser.id = (listDevices locale s fromUserId).map (·.moveTo toUser.id)
  materializations : ∀ r, listMaterializations s' toUser.id r =
    (listMaterializations s fromUserId r).map (·.moveTo toUser.id)
  forgotten : ¬ Mentions s' fromUserId
  named : ∀ name, findUserByName locale s' name =
    if normalizeName locale name =
      (toUser.account locale).normalizedName then some (toUser.account locale) else none
  again : migrateSingleUserIdentity locale s' fromUserId toUser =
    (.ok (migrationCounts s fromUserId (toUser.account locale) true), s')

variable {locale : Locale} {s : Storage} {source user : AccountUser}

theorem repositoryIds_new (hne : source.id ≠ user.id) :
    (migrated s source user).repositoryIds user.id = s.repositoryIds source.id := by
  rw [repositoryIds_migrated, Function.update_of_ne (Ne.symm hne), Function.update_self]

theorem deviceIds_new (hne : source.id ≠ user.id) :
    (migrated s source user).deviceIds user.id = s.deviceIds source.id := by
  rw [deviceIds_migrated, Function.update_of_ne (Ne.symm hne), Function.update_self]

theorem getRepository_migrated (h : Consistent s) (hsole : Sole s source) (r : String) :
    getRepositoryForUser (migrated s source user) user.id r =
      (getRepositoryForUser s source.id r).map fun access => (access.1.moveTo user.id, access.2) := by
  unfold getRepositoryForUser
  cases hr : s.repositories r with
  | none => simp [migrated, hr]
  | some x =>
    have howner := owned_repository h hsole hr
    simp [migrated, hr, roleFor, howner, StoredRepository.moveTo]

theorem listRepositories_migrated (h : Consistent s) (hsole : Sole s source) (hne : source.id ≠ user.id) :
    listRepositories locale (migrated s source user) user.id =
      (listRepositories locale s source.id).map fun access => (access.1.moveTo user.id, access.2) := by
  have hsort := List.map_insertionSort (fun a b : StoredRepository × RepositoryRole =>
      locale.le a.1.name b.1.name = true)
    (fun a b : StoredRepository × RepositoryRole => locale.le a.1.name b.1.name = true)
    (fun access : StoredRepository × RepositoryRole => (access.1.moveTo user.id, access.2))
    ((s.repositoryIds source.id).filterMap (getRepositoryForUser s source.id)) fun _ _ _ _ => Iff.rfl
  unfold listRepositories
  rw [repositoryIds_new hne, hsort, List.map_filterMap]
  apply congrArg
  apply List.filterMap_congr
  intro r _
  exact getRepository_migrated h hsole r

theorem listDevices_migrated (hne : source.id ≠ user.id) :
    listDevices locale (migrated s source user) user.id =
      (listDevices locale s source.id).map (·.moveTo user.id) := by
  have hsort := List.map_insertionSort (fun a b : StoredDevice => locale.le a.createdAt b.createdAt = true)
    (fun a b : StoredDevice => locale.le a.createdAt b.createdAt = true)
      (fun x : StoredDevice => x.moveTo user.id)
    ((s.deviceIds source.id).filterMap s.devices) fun _ _ _ _ => Iff.rfl
  unfold listDevices
  rw [deviceIds_new hne, hsort, List.map_filterMap]
  rfl

theorem listMaterializations_migrated (h : Consistent s) (hsole : Sole s source) (r : String) :
    listMaterializations (migrated s source user) user.id r =
      (listMaterializations s source.id r).map (·.moveTo user.id) := by
  unfold listMaterializations
  rw [getRepository_migrated h hsole r, Option.isNone_map]
  split
  · rfl
  · rw [List.map_filterMap]
    rfl

theorem migrated_forgets (hne : source.id ≠ user.id) : ¬ Mentions (migrated s source user) source.id := by
  intro hmentions
  rcases hmentions with hids | ⟨u, x, hx, hmention⟩ | ⟨n, hn⟩ | hrepositories | hdevices | ⟨id, x,
    hx, hmention⟩ |
    ⟨id, x, hx, hmention⟩ | ⟨id, x, hx, hmention⟩
  · exact hne (List.mem_singleton.mp hids)
  · simp only [migrated] at hx
    split_ifs at hx with hu
    cases hx
    rcases hmention with rfl | hid
    · exact hne hu
    · exact hne hid.symm
  · simp only [migrated] at hn
    split_ifs at hn
    exact hne (Option.some.inj hn).symm
  · simp [migrated] at hrepositories
  · simp [migrated] at hdevices
  · obtain ⟨y, _, rfl⟩ := Option.map_eq_some_iff.mp hx
    rcases hmention with howner | hmember
    · exact hne howner.symm
    · simp only [StoredRepository.moveTo, List.map_singleton, List.mem_singleton] at hmember
      exact hne hmember
  · obtain ⟨y, _, rfl⟩ := Option.map_eq_some_iff.mp hx
    exact hne hmention.symm
  · obtain ⟨y, _, rfl⟩ := Option.map_eq_some_iff.mp hx
    exact hne hmention.symm

theorem findUser_migrated (hvalid : isUserId user.id = true) (hnamed : user.normalizedName ≠ "")
    (name : String) :
    findUserByName locale (migrated s source user) name =
      if normalizeName locale name = user.normalizedName then some user else none := by
  have hid : user.id ≠ "" := by
    intro heq
    rw [heq] at hvalid
    exact absurd hvalid (by decide)
  unfold findUserByName
  by_cases hname : normalizeName locale name = user.normalizedName
  · simp [hname, hnamed, migrated, getUser, Option.filter_some, hid]
  · simp [hname, migrated]

/-- The counts of a second migration are read off the indexes. -/
theorem migrate_again {toUser : TargetUser} (hvalid : isUserId source.id = true) (hne : source.id ≠ toUser.id)
    (htarget : ValidTarget locale s source.id toUser) :
    migrateSingleUserIdentity locale (migrated s source (toUser.account locale)) source.id toUser =
      (.ok (migrationCounts s source.id (toUser.account locale) true),
        migrated s source (toUser.account locale)) := by
  have hname : ¬ (normalizeName locale (trim toUser.displayName) = "" ∨
      200 < utf16Length (normalizeName locale (trim toUser.displayName))) := by
    rw [not_or]
    exact ⟨htarget.named, Nat.not_lt.mpr htarget.short⟩
  have hids : (migrated s source (toUser.account locale)).userIdList = [toUser.id] := rfl
  have huser : (migrated s source (toUser.account locale)).users toUser.id =
      some (toUser.account locale) := by
    simp [migrated, TargetUser.account]
  have hold : (migrated s source (toUser.account locale)).users source.id = none := by
    simp [migrated, TargetUser.account, hne]
  have hcounts : identityBindingCounts (migrated s source (toUser.account locale))
    (toUser.account locale).id =
      ((s.repositoryIds source.id).length, (s.deviceIds source.id).length,
        ((s.repositoryIds source.id).map fun id => (s.materializationIds id).length).sum) := by
    simp only [identityBindingCounts]
    rw [repositoryIds_new hne, deviceIds_new hne]
    rfl
  unfold migrateSingleUserIdentity
  simp only [hvalid, htarget.id, Bool.not_true, Bool.false_eq_true, if_false, hne, hname,
    htarget.created, hids, if_true, huser, hold, Option.isSome_none]
  rw [if_neg (by simp [TargetUser.account])]
  simp only [hcounts, migrationCounts]

end Migration

/-- The single user of a store can be migrated to every valid target, and a
migration that is rejected changes nothing. -/
theorem migration_total (locale : Locale) (s : Storage)
    (h : Reaches (step locale) (Orderly locale) Storage.empty s) :
    (∀ fromUserId toUser, s.userIdList = [fromUserId] → ValidTarget locale s fromUserId toUser →
      ∃ s', Migrates locale s fromUserId toUser s') ∧
    ∀ fromUserId toUser message, (migrateSingleUserIdentity locale s fromUserId toUser).1 = .error message →
      (migrateSingleUserIdentity locale s fromUserId toUser).2 = s := by
  have hconsistent : Consistent s := consistent_reached h
  refine ⟨?_, fun fromUserId toUser message hrejected => migrate_rejected s fromUserId toUser hrejected⟩
  intro fromUserId toUser hids htarget
  obtain ⟨source, hsole, rfl⟩ := sole_user hconsistent hids
  have hne : source.id ≠ (toUser.account locale).id := by
    intro heq
    have hnew : s.users (toUser.account locale).id = none := htarget.new
    simp [hsole.users, heq] at hnew
  exact ⟨migrated s source (toUser.account locale),
    migrate_eq hconsistent hsole htarget,
    listRepositories_migrated hconsistent hsole hne,
    listDevices_migrated hne,
    listMaterializations_migrated hconsistent hsole,
    migrated_forgets hne,
    findUser_migrated htarget.id htarget.named,
    migrate_again hsole.valid hne htarget⟩

section Samples

/-- The language, on lower-case names of the Latin alphabet. -/
def plainLocale : Locale := ⟨id, fun _ => true, fun a b => decide (a ≤ b)⟩

def sampleUser : String := "usr_00000000-0000-4000-8000-000000000001"

def sampleTarget : TargetUser := ⟨"usr_00000000-0000-4000-8000-000000000002", "bea", "2024-01-02T00:00:00Z"⟩

def sampleTime : String := "2024-01-01T00:00:00Z"

/-- A user with a device and two repositories, the first of them materialized. -/
def sampleOperations : List Operation :=
  [.createSingleUserIdentity "ana" (some sampleUser) (some sampleTime) "" "",
    .registerDevice sampleUser none "laptop" .linux "dev_1" sampleTime,
    .createRepository sampleUser "alpha" [] "repo_1" sampleTime,
    .createRepository sampleUser "beta" [] "repo_2" sampleTime,
    .upsertMaterialization sampleUser "dev_1" ⟨none, "repo_1", "w1", "/a", .linux⟩ "mat_1" sampleTime]

def sampleStore : Storage := sampleOperations.foldl (step plainLocale) Storage.empty

theorem sampleStore_run : Admitted (step plainLocale) (Orderly plainLocale) Storage.empty sampleOperations ∧
    sampleStore.materializationIds "repo_1" = ["mat_1"] ∧ sampleStore.userIdList = [sampleUser] ∧
    sampleStore.users sampleTarget.id = none ∧
    sampleStore.userNames (sampleTarget.account plainLocale).normalizedName = none := by
  decide +kernel

theorem sampleStore_reached : Reaches (step plainLocale) (Orderly plainLocale) Storage.empty sampleStore :=
  Reaches.events .refl sampleStore_run.1 rfl

theorem store_indexed_sample : sampleStore.materializationIds "repo_1" = ["mat_1"] ∧ Indexed sampleStore :=
  ⟨sampleStore_run.2.1, store_indexed plainLocale sampleStore sampleStore_reached⟩

theorem sampleTarget_valid {s : Storage} (hnew : s.users sampleTarget.id = none)
    (hname : s.userNames (sampleTarget.account plainLocale).normalizedName = none) :
    ValidTarget plainLocale s sampleUser sampleTarget where
  id := by decide +kernel
  new := hnew
  named := by decide +kernel
  short := by decide +kernel
  free owner h := by
    rw [hname] at h
    cases h
  created := by decide +kernel

theorem migration_total_sample : sampleStore.userIdList = [sampleUser] ∧
    ∃ s, Migrates plainLocale sampleStore sampleUser sampleTarget s := by
  obtain ⟨-, -, hids, hnew, hname⟩ := sampleStore_run
  have htarget : ValidTarget plainLocale sampleStore sampleUser sampleTarget := sampleTarget_valid hnew hname
  exact ⟨hids,
    (migration_total plainLocale sampleStore sampleStore_reached).1 sampleUser sampleTarget hids htarget⟩

/-- The record of the first repository is upserted into the second. -/
def movedStore : Storage :=
  step plainLocale sampleStore
    (.upsertMaterialization sampleUser "dev_1" ⟨some "mat_1", "repo_2", "w2", "/b", .linux⟩ "mat_2"
      sampleTime)

theorem movedStore_run :
    fresh plainLocale sampleStore
      (.upsertMaterialization sampleUser "dev_1"
        ⟨some "mat_1", "repo_2", "w2", "/b", .linux⟩ "mat_2" sampleTime) = true ∧
    movedStore.materializationIds "repo_1" = ["mat_1"] ∧ movedStore.materializationIds "repo_2" = ["mat_1"] ∧
    (movedStore.materializations "mat_1").map (·.repositoryId) = some "repo_2" ∧
    movedStore.userIdList = [sampleUser] ∧ movedStore.users sampleTarget.id = none ∧
    movedStore.userNames (sampleTarget.account plainLocale).normalizedName = none ∧
    (match (migrateSingleUserIdentity plainLocale movedStore sampleUser sampleTarget).1 with
      | .ok _ => true
      | .error _ => false) = false := by
  decide +kernel

theorem movedStore_reached :
    Reaches (step plainLocale) (fun s op => fresh plainLocale s op = true) Storage.empty movedStore :=
  .next _ (sampleStore_reached.mono fun _ _ h => h.1) movedStore_run.1

theorem moved_record_indexed_twice : ∃ s,
    Reaches (step plainLocale) (fun s op => fresh plainLocale s op = true) Storage.empty s ∧
    s.materializationIds "repo_1" = ["mat_1"] ∧ s.materializationIds "repo_2" = ["mat_1"] ∧
    (s.materializations "mat_1").map (·.repositoryId) = some "repo_2" ∧ ¬ Indexed s := by
  obtain ⟨-, hfirst, hsecond, hmoved, -⟩ := movedStore_run
  refine ⟨movedStore, movedStore_reached, hfirst, hsecond, hmoved, ?_⟩
  intro h
  obtain ⟨x, hx, hrepository⟩ :=
    (h.materializations "repo_1" "mat_1").mp (by rw [hfirst]; exact List.mem_cons_self)
  rw [hx, Option.map_some, hrepository] at hmoved
  exact absurd hmoved (by decide)

theorem moved_record_not_migrated : ∃ s,
    Reaches (step plainLocale) (fun s op => fresh plainLocale s op = true) Storage.empty s ∧
    s.userIdList = [sampleUser] ∧ ValidTarget plainLocale s sampleUser sampleTarget ∧
    ¬ ∃ s', Migrates plainLocale s sampleUser sampleTarget s' := by
  obtain ⟨-, -, -, -, hids, hnew, hname, hrefused⟩ := movedStore_run
  refine ⟨movedStore, movedStore_reached, hids, sampleTarget_valid hnew hname, ?_⟩
  rintro ⟨s', h⟩
  rw [h.succeeds] at hrefused
  cases hrefused

end Samples

end AccessStack.Accounts
