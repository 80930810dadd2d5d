import AccessStack.Accounts.Indexes

/-!
# The migration of the single user

In a consistent store every record belongs to the user, so the walk over the
indexes finds everything and refuses nothing. The migration writes each
record back with the new user, and hands the indexes over.
-/

set_option autoImplicit false

namespace AccessStack.Accounts
open AccessStack.Index AccessStack.Runs AccessStack.Text

section Collecting

variable {s : Storage} {userId : String}

theorem collectMaterializations_ok {repositoryId : String} (ids : List String)
    (h : ∀ id ∈ ids, ∃ x, s.materializations id = some x ∧ x.repositoryId = repositoryId ∧
      x.userId = userId) :
    collectMaterializations s userId repositoryId ids = .ok (ids.filterMap s.materializations) := by
  induction ids with
  | nil => rfl
  | cons id ids ih =>
    obtain ⟨x, hx, hrepository, huser⟩ := h id List.mem_cons_self
    have hrest := ih fun id hid => h id (List.mem_cons_of_mem _ hid)
    simp only [collectMaterializations, hx, hrepository, huser, and_self, if_true, hrest]
    rw [List.filterMap_cons_some hx]
    rfl

theorem collectDevices_ok (ids : List String)
    (h : ∀ id ∈ ids, ∃ x, s.devices id = some x ∧ x.userId = userId) :
    collectDevices s userId ids = .ok (ids.filterMap s.devices) := by
  induction ids with
  | nil => rfl
  | cons id ids ih =>
    obtain ⟨x, hx, huser⟩ := h id List.mem_cons_self
    have hrest := ih fun id hid => h id (List.mem_cons_of_mem _ hid)
    simp only [collectDevices, hx, huser, if_true, hrest]
    rw [List.filterMap_cons_some hx]
    rfl

/-- The materializations of the repositories, in the order of the indexes. -/
def materializationsOf (s : Storage) (ids : List String) : List StoredMaterialization :=
  ids.flatMap fun id => (s.materializationIds id).filterMap s.materializations

theorem collectRepositories_ok (ids : List String)
    (h : ∀ id ∈ ids, ∃ x, s.repositories id = some x ∧ migratableRepository userId x = true)
    (hm : ∀ id ∈ ids, ∀ m ∈ s.materializationIds id,
      ∃ x, s.materializations m = some x ∧ x.repositoryId = id ∧ x.userId = userId) :
    collectRepositories s userId ids = .ok (ids.filterMap s.repositories, materializationsOf s ids) := by
  induction ids with
  | nil => rfl
  | cons id ids ih =>
    obtain ⟨x, hx, hmigratable⟩ := h id List.mem_cons_self
    have hrest := ih (fun id hid => h id (List.mem_cons_of_mem _ hid)) fun id hid =>
      hm id (List.mem_cons_of_mem _ hid)
    have hhere := collectMaterializations_ok (s.materializationIds id) (hm id List.mem_cons_self)
    simp only [collectRepositories, hx, hmigratable, if_true, hhere, hrest]
    rw [List.filterMap_cons_some hx]
    rfl

end Collecting

section Owned

variable {s : Storage} {source : AccountUser}

/-- The one user of the store. -/
structure Sole (s : Storage) (user : AccountUser) : Prop where
  ids : s.userIdList = [user.id]
  valid : isUserId user.id = true
  named : user.normalizedName ≠ ""
  users : ∀ u, s.users u = if u = user.id then some user else none
  names : ∀ n, s.userNames n = if n = user.normalizedName then some user.id else none

theorem sole_user (h : Consistent s) {userId : String} (hids : s.userIdList = [userId]) :
    ∃ user, Sole s user ∧ user.id = userId := by
  rcases h.user with ⟨hnone, _⟩ | ⟨user, huser, hvalid, hnamed, husers, hnames⟩
  · rw [hids] at hnone
    cases hnone
  · rw [hids] at huser
    exact ⟨user, ⟨hids.trans huser, hvalid, hnamed, husers, hnames⟩, (List.cons.inj huser).1.symm⟩

theorem sole_of_some (husers : ∀ u, s.users u = if u = source.id then some source else none) {userId : String}
    (h : (s.users userId).isSome = true) : userId = source.id := by
  by_contra hne
  simp [husers, hne] at h

theorem owned_repository (h : Consistent s) (hsole : Sole s source) {id : String} {x : StoredRepository}
    (hx : s.repositories id = some x) : x.ownerUserId = source.id :=
  sole_of_some hsole.users (h.repository id x hx).2.1

theorem owned_device (h : Consistent s) (hsole : Sole s source) {id : String} {x : StoredDevice}
    (hx : s.devices id = some x) : x.userId = source.id :=
  sole_of_some hsole.users (h.device id x hx).2

theorem owned_materialization (h : Consistent s) (hsole : Sole s source) {id : String}
    {x : StoredMaterialization} (hx : s.materializations id = some x) : x.userId = source.id := by
  obtain ⟨_, r, hr, howner⟩ := h.materialization id x hx
  exact howner.symm.trans (owned_repository h hsole hr)

theorem collects (h : Consistent s) (hsole : Sole s source) :
    collectRepositories s source.id (s.repositoryIds source.id) =
      .ok ((s.repositoryIds source.id).filterMap s.repositories,
        materializationsOf s (s.repositoryIds source.id)) ∧
    collectDevices s source.id
      (s.deviceIds source.id) = .ok ((s.deviceIds source.id).filterMap s.devices) := by
  constructor
  · apply collectRepositories_ok
    · intro id hid
      obtain ⟨x, hx, howner⟩ := h.repositories.listed hid
      obtain ⟨_, _, hprivate, hmembers⟩ := h.repository id x hx
      refine ⟨x, hx, ?_⟩
      simp only [migratableRepository, howner, hprivate, hmembers, and_self, decide_true]
    · intro id _ m hm
      obtain ⟨x, hx, hrepository⟩ := h.materializations.listed hm
      exact ⟨x, hx, hrepository, owned_materialization h hsole hx⟩
  · apply collectDevices_ok
    intro id hid
    exact h.devices.listed hid

end Owned

section Written

variable {s : Storage} {source user : AccountUser}

theorem foldl_putRepository (userId : String) (l : List StoredRepository) (s : Storage) :
    l.foldl (fun s repository => s.putRepository (repository.moveTo userId)) s =
      { s with repositories := l.foldl (fun records x =>
          Function.update records x.id (some (x.moveTo userId))) s.repositories } := by
  induction l generalizing s with
  | nil => rfl
  | cons x l ih => exact ih _

theorem foldl_putMaterialization (userId : String) (l : List StoredMaterialization) (s : Storage) :
    l.foldl (fun s materialization => s.putMaterialization (materialization.moveTo userId)) s =
      { s with materializations := l.foldl (fun records x =>
          Function.update records x.id (some (x.moveTo userId))) s.materializations } := by
  induction l generalizing s with
  | nil => rfl
  | cons x l ih => exact ih _

theorem foldl_putDevice (userId : String) (l : List StoredDevice) (s : Storage) :
    l.foldl (fun s device => s.putDevice (device.moveTo userId)) s =
      { s with devices := l.foldl (fun records x =>
          Function.update records x.id (some (x.moveTo userId))) s.devices } := by
  induction l generalizing s with
  | nil => rfl
  | cons x l ih => exact ih _

/-- All records of an index that lists everything are rewritten. -/
theorem rewrite_all {R : Type} (f : R → R) (key : R → String) (records : String → Option R) (l : List R)
    (hl : ∀ x ∈ l, records (key x) = some x) (hall : ∀ i x, records i = some x → x ∈ l ∧ key x = i) :
    l.foldl (fun records x => Function.update records (key x) (some (f x))) records =
      fun i => (records i).map f := by
  funext i
  rw [foldl_rewrite f key records records l hl i]
  cases hi : records i with
  | none => simp
  | some x =>
    obtain ⟨hmem, hkey⟩ := hall i x hi
    have hlisted : i ∈ l.map key := hkey ▸ List.mem_map_of_mem hmem
    simp [hlisted]

theorem repositories_rewritten (h : Consistent s) (hsole : Sole s source) (userId : String) :
    ((s.repositoryIds source.id).filterMap s.repositories).foldl
      (fun (records : String → Option StoredRepository) x =>
      Function.update records x.id (some (x.moveTo userId))) s.repositories =
      fun i => (s.repositories i).map (·.moveTo userId) := by
  apply rewrite_all (fun x : StoredRepository => x.moveTo userId) fun x => x.id
  · intro x hx
    obtain ⟨id, _, hid⟩ := List.mem_filterMap.mp hx
    rw [(h.repository id x hid).1]
    exact hid
  · intro i x hx
    have hlisted := h.repositories.mem_owner hx
    rw [owned_repository h hsole hx] at hlisted
    exact ⟨List.mem_filterMap.mpr ⟨i, hlisted, hx⟩, (h.repository i x hx).1⟩

theorem devices_rewritten (h : Consistent s) (hsole : Sole s source) (userId : String) :
    ((s.deviceIds source.id).filterMap s.devices).foldl (fun (records : String → Option StoredDevice) x =>
      Function.update records x.id (some (x.moveTo userId))) s.devices =
      fun i => (s.devices i).map (·.moveTo userId) := by
  apply rewrite_all (fun x : StoredDevice => x.moveTo userId) fun x => x.id
  · intro x hx
    obtain ⟨id, _, hid⟩ := List.mem_filterMap.mp hx
    rw [(h.device id x hid).1]
    exact hid
  · intro i x hx
    have hlisted := h.devices.mem_owner hx
    rw [owned_device h hsole hx] at hlisted
    exact ⟨List.mem_filterMap.mpr ⟨i, hlisted, hx⟩, (h.device i x hx).1⟩

theorem materializations_rewritten (h : Consistent s) (hsole : Sole s source) (userId : String) :
    (materializationsOf s (s.repositoryIds source.id)).foldl
      (fun (records : String → Option StoredMaterialization) x =>
      Function.update records x.id (some (x.moveTo userId))) s.materializations =
      fun i => (s.materializations i).map (·.moveTo userId) := by
  apply rewrite_all (fun x : StoredMaterialization => x.moveTo userId) fun x => x.id
  · intro x hx
    obtain ⟨_, _, hx⟩ := List.mem_flatMap.mp hx
    obtain ⟨id, _, hid⟩ := List.mem_filterMap.mp hx
    rw [(h.materialization id x hid).1]
    exact hid
  · intro i x hx
    obtain ⟨hid, r, hr, _⟩ := h.materialization i x hx
    have hrepository := h.repositories.mem_owner hr
    rw [owned_repository h hsole hr] at hrepository
    have hlisted := h.materializations.mem_owner hx
    exact ⟨List.mem_flatMap.mpr ⟨_, hrepository, List.mem_filterMap.mpr ⟨i, hlisted, hx⟩⟩, hid⟩

/-- The store after a migration. -/
def migrated (s : Storage) (source user : AccountUser) : Storage where
  userIds := some [user.id]
  users u := if u = user.id then some user else none
  userNames n := if n = user.normalizedName then some user.id else none
  userRepositoryIds := Function.update
    (Function.update s.userRepositoryIds user.id (some (s.repositoryIds source.id))) source.id none
  repositories i := (s.repositories i).map (·.moveTo user.id)
  userDeviceIds := Function.update
    (Function.update s.userDeviceIds user.id (some (s.deviceIds source.id))) source.id none
  devices i := (s.devices i).map (·.moveTo user.id)
  repositoryMaterializationIds := s.repositoryMaterializationIds
  materializations i := (s.materializations i).map (·.moveTo user.id)

theorem users_migrated (hsole : Sole s source) (hne : source.id ≠ user.id) :
    Function.update (Function.update s.users user.id (some user)) source.id none =
      fun u => if u = user.id then some user else none := by
  funext u
  simp only [Function.update_apply, hsole.users]
  split_ifs with h1 h2
  · exact absurd (h1.symm.trans h2) hne
  · rfl
  · rfl
  · rfl

theorem names_migrated (hsole : Sole s source) (user : AccountUser) :
    (if source.normalizedName ≠ user.normalizedName ∧
        Function.update s.userNames user.normalizedName (some user.id) source.normalizedName =
          some source.id then
      Function.update (Function.update s.userNames user.normalizedName (some user.id))
        source.normalizedName none
    else Function.update s.userNames user.normalizedName (some user.id)) =
      fun n => if n = user.normalizedName then some user.id else none := by
  by_cases hsame : source.normalizedName = user.normalizedName
  · simp only [hsame, ne_eq, not_true_eq_false, false_and, if_false]
    funext n
    simp only [Function.update_apply, hsole.names, hsame]
    split_ifs <;> rfl
  · have hold : Function.update s.userNames user.normalizedName (some user.id) source.normalizedName =
        some source.id := by
      rw [Function.update_of_ne hsame, hsole.names, if_pos rfl]
    rw [if_pos ⟨hsame, hold⟩]
    funext n
    simp only [Function.update_apply, hsole.names]
    split_ifs with h1 h2
    · exact absurd (h1.symm.trans h2) hsame
    · rfl
    · rfl
    · rfl

theorem writeMigration_eq (h : Consistent s) (hsole : Sole s source) (hne : source.id ≠ user.id) :
    writeMigration s source user ((s.repositoryIds source.id).filterMap s.repositories)
      (materializationsOf s (s.repositoryIds source.id)) ((s.deviceIds source.id).filterMap s.devices) =
      migrated s source user := by
  unfold writeMigration migrated
  simp only [foldl_putRepository, foldl_putMaterialization, foldl_putDevice, Storage.putRepositoryIds,
    Storage.putDeviceIds]
  rw [← users_migrated hsole hne, ← names_migrated hsole user]
  rw [← repositories_rewritten h hsole, ← devices_rewritten h hsole, ← materializations_rewritten h hsole]
  split_ifs <;> rfl

theorem repositoryIds_migrated (s : Storage) (source user : AccountUser) :
    (migrated s source user).repositoryIds =
    Function.update (Function.update s.repositoryIds user.id (s.repositoryIds source.id)) source.id [] := by
  funext k
  simp only [Storage.repositoryIds, migrated, Function.update_apply]
  split_ifs <;> rfl

theorem deviceIds_migrated (s : Storage) (source user : AccountUser) : (migrated s source user).deviceIds =
    Function.update (Function.update s.deviceIds user.id (s.deviceIds source.id)) source.id [] := by
  funext k
  simp only [Storage.deviceIds, migrated, Function.update_apply]
  split_ifs <;> rfl

theorem consistent_migrated (h : Consistent s) (hsole : Sole s source) (hne : source.id ≠ user.id)
    (hvalid : isUserId user.id = true) (hnamed : user.normalizedName ≠ "") :
    Consistent (migrated s source user) := by
  have huser : ((migrated s source user).users user.id).isSome = true := by simp [migrated]
  constructor
  · exact .inr ⟨user, rfl, hvalid, hnamed, fun _ => rfl, fun _ => rfl⟩
  · rw [repositoryIds_migrated]
    apply h.repositories.transfer hne
    · exact h.repositories.nil fun i x hx => owned_repository h hsole hx ▸ hne
    · exact fun _ => rfl
    · intro i x hx
      rw [if_pos (owned_repository h hsole hx)]
      rfl
  · rw [deviceIds_migrated]
    apply h.devices.transfer hne
    · exact h.devices.nil fun i x hx => owned_device h hsole hx ▸ hne
    · exact fun _ => rfl
    · intro i x hx
      rw [if_pos (owned_device h hsole hx)]
      rfl
  · exact h.materializations.mapped (fun _ => rfl) fun _ => rfl
  · intro id x hx
    obtain ⟨y, hy, rfl⟩ := Option.map_eq_some_iff.mp hx
    exact ⟨(h.repository id y hy).1, huser, rfl, rfl⟩
  · intro id x hx
    obtain ⟨y, hy, rfl⟩ := Option.map_eq_some_iff.mp hx
    exact ⟨(h.device id y hy).1, huser⟩
  · intro id x hx
    obtain ⟨y, hy, rfl⟩ := Option.map_eq_some_iff.mp hx
    obtain ⟨hid, r, hr, _⟩ := h.materialization id y hy
    exact ⟨hid, r.moveTo user.id, Option.map_eq_some_iff.mpr ⟨r, hr, rfl⟩, rfl⟩
  · intro id x hx
    obtain ⟨y, hy, _⟩ := Option.map_eq_some_iff.mp hx
    exact h.named id y hy

end Written

section Migrating

variable {locale : Locale} {s : Storage}

/-- The user a target identity stands for. -/
def TargetUser.account (locale : Locale) (toUser : TargetUser) : AccountUser :=
  ⟨toUser.id, trim toUser.displayName, normalizeName locale (trim toUser.displayName), toUser.createdAt⟩

/-- A new id, a name that is free or the user's own, and a timestamp. -/
structure ValidTarget (locale : Locale) (s : Storage) (fromUserId : String) (toUser : TargetUser) : Prop where
  id : isUserId toUser.id = true
  new : s.users toUser.id = none
  named : (toUser.account locale).normalizedName ≠ ""
  short : utf16Length (toUser.account locale).normalizedName ≤ 200
  free : ∀ owner, s.userNames (toUser.account locale).normalizedName = some owner → owner = fromUserId
  created : isTimestamp locale toUser.createdAt = true

def migrationCounts (s : Storage) (userId : String) (user : AccountUser) (alreadyMigrated : Bool) :
    MigrationResult :=
  ⟨user, (s.repositoryIds userId).length, (s.deviceIds userId).length,
    ((s.repositoryIds userId).map fun id => (s.materializationIds id).length).sum, alreadyMigrated⟩

theorem length_filterMap_some {R : Type} (records : String → Option R) (ids : List String)
    (h : ∀ id ∈ ids, ∃ x, records id = some x) : (ids.filterMap records).length = ids.length := by
  induction ids with
  | nil => rfl
  | cons id ids ih =>
    obtain ⟨x, hx⟩ := h id List.mem_cons_self
    rw [List.filterMap_cons_some hx, List.length_cons, List.length_cons,
      ih fun id hid => h id (List.mem_cons_of_mem _ hid)]

theorem counts_collected (h : Consistent s) (userId : String) :
    ((s.repositoryIds userId).filterMap s.repositories).length = (s.repositoryIds userId).length ∧
    ((s.deviceIds userId).filterMap s.devices).length = (s.deviceIds userId).length ∧
    (materializationsOf s (s.repositoryIds userId)).length =
      ((s.repositoryIds userId).map fun id => (s.materializationIds id).length).sum := by
  refine ⟨length_filterMap_some _ _ ?_, length_filterMap_some _ _ ?_, ?_⟩
  · intro id hid
    obtain ⟨x, hx, _⟩ := h.repositories.listed hid
    exact ⟨x, hx⟩
  · intro id hid
    obtain ⟨x, hx, _⟩ := h.devices.listed hid
    exact ⟨x, hx⟩
  · rw [materializationsOf, List.length_flatMap]
    apply congrArg List.sum
    apply List.map_congr_left
    intro id _
    apply length_filterMap_some
    intro m hm
    obtain ⟨x, hx, _⟩ := h.materializations.listed hm
    exact ⟨x, hx⟩

theorem migrateSource_eq {source user : AccountUser} (h : Consistent s) (hsole : Sole s source)
    (hnew : s.users user.id = none) :
    migrateSource s source.id user =
      (.ok (migrationCounts s source.id user false), migrated s source user) := by
  have hne : source.id ≠ user.id := by
    intro heq
    simp [hsole.users, heq] at hnew
  obtain ⟨hrepositories, hdevices⟩ := collects h hsole
  obtain ⟨hcount, hdeviceCount, hmaterializationCount⟩ := counts_collected h source.id
  have hsource : s.users source.id = some source := by rw [hsole.users, if_pos rfl]
  have hname : (s.userNames user.normalizedName).any (fun owner => owner ≠ "" ∧ owner ≠ source.id) =
      false := by
    rw [hsole.names]
    split_ifs <;> simp
  simp only [migrateSource, hsource, ne_eq, not_true_eq_false, if_false, hnew, Option.isSome_none,
    Bool.false_eq_true, hname, hrepositories, hdevices, writeMigration_eq h hsole hne, hcount, hdeviceCount,
    hmaterializationCount, migrationCounts]

theorem migrate_eq {source : AccountUser} {toUser : TargetUser} (h : Consistent s) (hsole : Sole s source)
    (htarget : ValidTarget locale s source.id toUser) :
    migrateSingleUserIdentity locale s source.id toUser =
      (.ok (migrationCounts s source.id (toUser.account locale) false),
        migrated s source (toUser.account locale)) := by
  have hne : source.id ≠ toUser.id := by
    intro heq
    have hnew := htarget.new
    simp [hsole.users, heq] at hnew
  have hname : ¬ (normalizeName locale (trim toUser.displayName) = "" ∨
      200 < utf16Length (normalizeName locale (trim toUser.displayName))) := by
    rw [not_or]
    exact ⟨htarget.named, Nat.not_lt.mpr htarget.short⟩
  have hother : ¬ [source.id] = [toUser.id] := fun heq => hne (List.cons.inj heq).1
  unfold migrateSingleUserIdentity
  simp only [hsole.valid, htarget.id, Bool.not_true, Bool.false_eq_true, if_false, hne, hname,
    htarget.created, hother, hsole.ids, ne_eq, not_true_eq_false]
  exact migrateSource_eq h hsole htarget.new

theorem migrateSource_rejected (s : Storage) (fromUserId : String) (user : AccountUser) {message : String}
    (h : (migrateSource s fromUserId user).1 = .error message) : (migrateSource s fromUserId user).2 = s := by
  unfold migrateSource at h ⊢
  split
  · rfl
  · rename_i source hsource
    simp only [hsource] at h
    split_ifs at h ⊢
    · rfl
    · rfl
    · rfl
    · split
      · rfl
      · rename_i hrepositories
        simp only [hrepositories] at h
        split
        · rfl
        · rename_i hdevices
          simp only [hdevices] at h
          cases h

/-- A rejected migration leaves the store as it was. -/
theorem migrate_rejected (s : Storage) (fromUserId : String) (toUser : TargetUser) {message : String}
    (h : (migrateSingleUserIdentity locale s fromUserId toUser).1 = .error message) :
    (migrateSingleUserIdentity locale s fromUserId toUser).2 = s := by
  unfold migrateSingleUserIdentity at h ⊢
  dsimp only at h ⊢
  split_ifs at h ⊢
  · rfl
  · rfl
  · rfl
  · rfl
  · rfl
  · split
    · rfl
    · split_ifs <;> rfl
  · rfl
  · exact migrateSource_rejected s fromUserId _ h

theorem consistent_migrateSource (h : Consistent s) {fromUserId : String} {user : AccountUser}
    (hids : s.userIdList = [fromUserId]) (hvalid : isUserId user.id = true)
    (hnamed : user.normalizedName ≠ "") :
    Consistent (migrateSource s fromUserId user).2 := by
  obtain ⟨source, hsole, rfl⟩ := sole_user h hids
  by_cases hnew : s.users user.id = none
  · have hne : source.id ≠ user.id := by
      intro heq
      simp [hsole.users, heq] at hnew
    rw [migrateSource_eq h hsole hnew]
    exact consistent_migrated h hsole hne hvalid hnamed
  · have hsource : s.users source.id = some source := by rw [hsole.users, if_pos rfl]
    have hsome : (s.users user.id).isSome = true := Option.isSome_iff_ne_none.mpr hnew
    simp only [migrateSource, hsource, ne_eq, not_true_eq_false, if_false, hsome, if_true]
    exact h

theorem consistent_migrate (h : Consistent s) (fromUserId : String) (toUser : TargetUser) :
    Consistent (migrateSingleUserIdentity locale s fromUserId toUser).2 := by
  unfold migrateSingleUserIdentity
  dsimp only
  split_ifs with hfrom hto hsame hname hcreated hdone hids
  · exact h
  · exact h
  · exact h
  · exact h
  · exact h
  · split
    · exact h
    · split_ifs <;> exact h
  · exact h
  · rw [not_or] at hname
    exact consistent_migrateSource h (not_not.mp hids) (by simpa using hto) hname.1

end Migrating

end AccessStack.Accounts
