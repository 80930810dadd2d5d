import AccessStack.Text

/-!
# The account store

`EdgeAccountStore` over a storage of single keys. Every key has a prefix of
its own, so that the keys of one prefix are a map by themselves. An operation
returns a result or an error, and what it leaves in the storage in either
case; the ids it generates and the times it reads are arguments.

The folding of names, the parser of dates and the collation are those of the
language.
-/

set_option autoImplicit false

namespace AccessStack.Accounts
open AccessStack.Text

section Records

structure AccountUser where
  id : String
  displayName : String
  normalizedName : String
  createdAt : String
  deriving DecidableEq

inductive RepositoryRole where
  | owner | editor | viewer
  deriving DecidableEq

inductive Visibility where
  | privateOnly | shared
  deriving DecidableEq

inductive Platform where
  | windows | linux | macos | unknown
  deriving DecidableEq

structure StoredRepository where
  id : String
  ownerUserId : String
  name : String
  normalizedName : String
  visibility : Visibility
  remoteUrls : List String
  members : List (String × RepositoryRole)
  createdAt : String
  updatedAt : String
  deriving DecidableEq

structure StoredDevice where
  id : String
  userId : String
  displayName : String
  platform : Platform
  createdAt : String
  lastSeenAt : Option String
  revokedAt : Option String
  deriving DecidableEq

/-- A materialization has a `deviceId` or a `runtimeId`. -/
inductive Host where
  | device (deviceId : String)
  | runtime (runtimeId : String)
  deriving DecidableEq

structure StoredMaterialization where
  id : String
  repositoryId : String
  userId : String
  host : Host
  workspaceId : String
  path : String
  platform : Platform
  updatedAt : String
  deriving DecidableEq

structure MaterializationUpsertInput where
  id : Option String
  repositoryId : String
  workspaceId : String
  path : String
  platform : Platform
  deriving DecidableEq

def maxRepositoriesPerUser : ℕ := 4096
def maxDevicesPerUser : ℕ := 256
def maxMaterializationsPerRepository : ℕ := 256

end Records

section Storage

structure Storage where
  userIds : Option (List String)
  users : String → Option AccountUser
  userNames : String → Option String
  userRepositoryIds : String → Option (List String)
  repositories : String → Option StoredRepository
  userDeviceIds : String → Option (List String)
  devices : String → Option StoredDevice
  repositoryMaterializationIds : String → Option (List String)
  materializations : String → Option StoredMaterialization

def Storage.empty : Storage :=
  ⟨none, fun _ => none, fun _ => none, fun _ => none, fun _ => none, fun _ => none, fun _ => none,
    fun _ => none, fun _ => none⟩

def Storage.userIdList (s : Storage) : List String := s.userIds.getD []

def Storage.repositoryIds (s : Storage) (userId : String) : List String :=
  (s.userRepositoryIds userId).getD []

def Storage.deviceIds (s : Storage) (userId : String) : List String := (s.userDeviceIds userId).getD []

def Storage.materializationIds (s : Storage) (repositoryId : String) : List String :=
  (s.repositoryMaterializationIds repositoryId).getD []

def Storage.putRepository (s : Storage) (repository : StoredRepository) : Storage :=
  { s with repositories := Function.update s.repositories repository.id (some repository) }

def Storage.putDevice (s : Storage) (device : StoredDevice) : Storage :=
  { s with devices := Function.update s.devices device.id (some device) }

def Storage.putMaterialization (s : Storage) (materialization : StoredMaterialization) : Storage :=
  { s with materializations := Function.update s.materializations materialization.id (some materialization) }

def Storage.putRepositoryIds (s : Storage) (userId : String) (ids : List String) : Storage :=
  { s with userRepositoryIds := Function.update s.userRepositoryIds userId (some ids) }

def Storage.putDeviceIds (s : Storage) (userId : String) (ids : List String) : Storage :=
  { s with userDeviceIds := Function.update s.userDeviceIds userId (some ids) }

def Storage.putMaterializationIds (s : Storage) (repositoryId : String) (ids : List String) : Storage :=
  { s with repositoryMaterializationIds :=
      Function.update s.repositoryMaterializationIds repositoryId (some ids) }

end Storage

/-- What the language does with names, dates and collation. -/
structure Locale where
  fold : String → String
  dateParses : String → Bool
  le : String → String → Bool

variable (locale : Locale)

section Names

def normalizeName (value : String) : String := locale.fold (trim value)

def normalizeRepositoryName (value : String) : String :=
  let normalized := normalizeName locale value
  if normalized = "" ∨ 200 < utf16Length normalized ∨
      normalized.toList.any (fun c => ['\x00', '\r', '\n', '/', '\\'].contains c) then ""
  else normalized

/-- The folding of a pattern with the flags `iu`, as far as it leads to a
letter of `usr` or to a digit. -/
def foldCase (c : Char) : Char := if c = 'ſ' then 's' else c.toLower

/-- `^usr_…$` and `^rt_…$` with a UUID -/
def prefixedUuid (start : List Char) (value : String) : Bool :=
  let folded := value.toList.map foldCase
  start.isPrefixOf folded && isVersionedUuid (String.ofList (folded.drop start.length))

def isUserId (value : String) : Bool := prefixedUuid ['u', 's', 'r', '_'] value

def isRuntimeId (value : String) : Bool := prefixedUuid ['r', 't', '_'] value

/-- `^\d{4}-\d{2}-\d{2}T\d{2}:\d{2}:\d{2}(?:\.\d+)?Z$` -/
def timestampFormat (value : String) : Bool :=
  let pattern :=
    ['0', '0', '0', '0', '-', '0', '0', '-', '0', '0', 'T', '0', '0', ':', '0', '0', ':', '0', '0']
  let chars := value.toList
  let rest := chars.drop 19
  decide (19 ≤ chars.length) &&
    ((chars.take 19).zip pattern).all (fun p => if p.2 = '0' then p.1.isDigit else p.1 = p.2) &&
    (rest = ['Z'] ||
      (rest.head? = some '.' && rest.getLast? = some 'Z' && 3 ≤ rest.length &&
        (rest.tail.dropLast).all Char.isDigit))

def isTimestamp (value : String) : Bool := timestampFormat value && locale.dateParses value

def normalizeRemoteUrls (values : List String) : List String :=
  let normalized := (values.map trim).filter fun value =>
    0 < utf16Length value && utf16Length value ≤ 4096 &&
      !value.toList.any fun c => ['\x00', '\r', '\n'].contains c
  (normalized.foldl (fun seen value => if value ∈ seen then seen else seen ++ [value]) []).take 32

end Names

section Users

def getUser (s : Storage) (userId : String) : Option AccountUser := s.users userId

def findUserByName (s : Storage) (displayName : String) : Option AccountUser :=
  let normalizedName := normalizeName locale displayName
  if normalizedName = "" then none
  else ((s.userNames normalizedName).filter (· ≠ "")).bind (getUser s)

def createSingleUserIdentity (s : Storage) (displayName : String) (id createdAt : Option String)
    (generated now : String) : Except String AccountUser × Storage :=
  let normalizedName := normalizeName locale displayName
  if normalizedName = "" ∨ 200 < utf16Length normalizedName then (.error "User name is invalid.", s)
  else if s.userIdList.length ≠ 0 then (.error "Single-user identity already exists.", s)
  else
    let id := id.getD generated
    let createdAt := createdAt.getD now
    if !isUserId id then (.error "User id is invalid.", s)
    else if !isTimestamp locale createdAt then (.error "User creation timestamp is invalid.", s)
    else
      let user : AccountUser := ⟨id, trim displayName, normalizedName, createdAt⟩
      (.ok user, { s with
        users := Function.update s.users user.id (some user)
        userNames := Function.update s.userNames normalizedName (some user.id)
        userIds := some [user.id] })

end Users

section Repositories

def roleFor (repository : StoredRepository) (userId : String) : Option RepositoryRole :=
  if repository.ownerUserId = userId then some .owner else none

def getRepositoryForUser (s : Storage) (userId repositoryId : String) :
    Option (StoredRepository × RepositoryRole) :=
  (s.repositories repositoryId).bind fun repository =>
    (roleFor repository userId).map fun role => (repository, role)

def listRepositories (s : Storage) (userId : String) : List (StoredRepository × RepositoryRole) :=
  ((s.repositoryIds userId).filterMap (getRepositoryForUser s userId)).insertionSort
    fun a b => locale.le a.1.name b.1.name = true

def createRepository (s : Storage) (userId name : String) (remoteUrls : List String)
    (generated now : String) :
    Except String StoredRepository × Storage :=
  if (getUser s userId).isNone then (.error "User identity is unavailable.", s)
  else
    let normalizedName := normalizeRepositoryName locale name
    let ids := s.repositoryIds userId
    if normalizedName = "" then (.error "Repository name is invalid.", s)
    else if maxRepositoriesPerUser ≤ ids.length then (.error "Repository limit reached.", s)
    else if ids.any (fun id => (s.repositories id).any fun existing =>
        existing.ownerUserId = userId ∧ existing.normalizedName = normalizedName) then
      (.error "A repository with this name already exists.", s)
    else
      let repository : StoredRepository :=
        ⟨generated, userId, trim name, normalizedName, .privateOnly, normalizeRemoteUrls remoteUrls,
          [(userId, .owner)], now, now⟩
      (.ok repository, (s.putRepository repository).putRepositoryIds userId (ids ++ [repository.id]))

/-- `removeValue` on the index of a user's repositories. -/
def removeRepositoryId (s : Storage) (userId value : String) : Storage :=
  let values := s.repositoryIds userId
  if value ∉ values then s else s.putRepositoryIds userId (values.filter (· ≠ value))

def deleteOwnedRepositoryIfUnmaterialized (s : Storage) (userId repositoryId : String) : Bool × Storage :=
  match getRepositoryForUser s userId repositoryId with
  | none => (false, s)
  | some (repository, role) =>
    if role ≠ .owner ∨ repository.ownerUserId ≠ userId then (false, s)
    else if (s.materializationIds repositoryId).any fun id => (s.materializations id).isSome then (false, s)
    else
      let s := removeRepositoryId s userId repositoryId
      (true, { s with
        repositoryMaterializationIds := Function.update s.repositoryMaterializationIds repositoryId none
        repositories := Function.update s.repositories repositoryId none })

end Repositories

section Devices

def registerDevice (s : Storage) (userId : String) (deviceId : Option String) (displayName : String)
    (platform : Platform) (generated now : String) : Except String StoredDevice × Storage :=
  if (getUser s userId).isNone then (.error "User identity is unavailable.", s)
  else
    let displayName := trim displayName
    if displayName = "" ∨ 200 < utf16Length displayName then (.error "Device name is invalid.", s)
    else
      match deviceId.filter (· ≠ "") with
      | some deviceId =>
        match s.devices deviceId with
        | none => (.error "Device is not authorized.", s)
        | some existing =>
          if existing.userId ≠ userId ∨ existing.revokedAt.isSome then (.error "Device is not authorized.", s)
          else
            let updated := { existing with displayName, platform, lastSeenAt := some now }
            (.ok updated, { s with devices := Function.update s.devices existing.id (some updated) })
      | none =>
        let ids := s.deviceIds userId
        if maxDevicesPerUser ≤ ids.length then (.error "Device limit reached.", s)
        else
          let device : StoredDevice := ⟨generated, userId, displayName, platform, now, some now, none⟩
          (.ok device, (s.putDevice device).putDeviceIds userId (ids ++ [device.id]))

def touchDevice (s : Storage) (userId deviceId now : String) : Option StoredDevice × Storage :=
  match s.devices deviceId with
  | none => (none, s)
  | some device =>
    if device.userId ≠ userId ∨ device.revokedAt.isSome then (none, s)
    else
      let updated := { device with lastSeenAt := some now }
      (some updated, { s with devices := Function.update s.devices deviceId (some updated) })

def listDevices (s : Storage) (userId : String) : List StoredDevice :=
  ((s.deviceIds userId).filterMap s.devices).insertionSort fun a b => locale.le a.createdAt b.createdAt = true

def revokeDevice (s : Storage) (userId deviceId now : String) : Option StoredDevice × Storage :=
  match s.devices deviceId with
  | none => (none, s)
  | some device =>
    if device.userId ≠ userId then (none, s)
    else
      let revoked := { device with revokedAt := some (device.revokedAt.getD now) }
      (some revoked, { s with devices := Function.update s.devices deviceId (some revoked) })

end Devices

section Materializations

/-- The first of the listed materializations on a host with a workspace id. -/
def findMaterialization (s : Storage) (ids : List String) (host : Host) (workspaceId : String) :
    Option StoredMaterialization :=
  (ids.filterMap s.materializations).find? fun value => value.host = host ∧ value.workspaceId = workspaceId

/-- The end of both upserts: the record is stored before the limit is checked. -/
def storeMaterialization (s : Storage) (materialization : StoredMaterialization) :
    Except String StoredMaterialization × Storage :=
  let ids := s.materializationIds materialization.repositoryId
  let stored := s.putMaterialization materialization
  if materialization.id ∈ ids then (.ok materialization, stored)
  else if maxMaterializationsPerRepository ≤ ids.length then (.error "Materialization limit reached.", stored)
  else (.ok materialization, stored.putMaterializationIds materialization.repositoryId
    (ids ++ [materialization.id]))

/-- The record that `upsertMaterialization` goes on from: any one with the id
of the input. -/
def existingOnDevice (s : Storage) (deviceId : String) (input : MaterializationUpsertInput) :
    Option StoredMaterialization :=
  ((input.id.filter (· ≠ "")).bind s.materializations).or
    (findMaterialization s (s.materializationIds input.repositoryId) (.device deviceId) input.workspaceId)

def deviceAuthorized (s : Storage) (userId deviceId : String) : Bool :=
  (s.devices deviceId).any fun device => device.userId = userId ∧ device.revokedAt = none

def upsertMaterialization (s : Storage) (userId deviceId : String) (input : MaterializationUpsertInput)
    (generated now : String) : Except String StoredMaterialization × Storage :=
  if (getRepositoryForUser s userId input.repositoryId).isNone then
    (.error "Repository is not authorized for this user.", s)
  else if !deviceAuthorized s userId deviceId then (.error "Device is not authorized.", s)
  else
    let id := ((existingOnDevice s deviceId input).map (·.id)).getD generated
    storeMaterialization s
      ⟨id, input.repositoryId, userId, .device deviceId, input.workspaceId, input.path, input.platform, now⟩

/-- The record that `upsertRuntimeMaterialization` goes on from: one with the
id of the input, of this user and this repository. -/
def existingOnRuntime (s : Storage) (userId runtimeId : String) (input : MaterializationUpsertInput) :
    Option StoredMaterialization :=
  (((input.id.filter (· ≠ "")).bind s.materializations).filter fun candidate =>
    candidate.userId = userId ∧ candidate.repositoryId = input.repositoryId).or
    (findMaterialization s (s.materializationIds input.repositoryId) (.runtime runtimeId) input.workspaceId)

def upsertRuntimeMaterialization (s : Storage) (userId runtimeId : String)
    (input : MaterializationUpsertInput) (generated now : String) :
    Except String StoredMaterialization × Storage :=
  if (getRepositoryForUser s userId input.repositoryId).isNone then
    (.error "Repository is not authorized for this user.", s)
  else if !isRuntimeId runtimeId then (.error "Runtime id is invalid.", s)
  else
    let id := ((existingOnRuntime s userId runtimeId input).map (·.id)).getD generated
    storeMaterialization s
      ⟨id, input.repositoryId, userId, .runtime runtimeId, input.workspaceId, input.path, input.platform, now⟩

def listMaterializations (s : Storage) (userId repositoryId : String) : List StoredMaterialization :=
  if (getRepositoryForUser s userId repositoryId).isNone then []
  else (s.materializationIds repositoryId).filterMap s.materializations

/-- `removeValue` on the index of a repository's materializations. -/
def removeMaterializationId (s : Storage) (repositoryId value : String) : Storage :=
  let values := s.materializationIds repositoryId
  if value ∉ values then s else s.putMaterializationIds repositoryId (values.filter (· ≠ value))

def deleteMaterialization (s : Storage) (userId repositoryId materializationId : String) : Bool × Storage :=
  if (getRepositoryForUser s userId repositoryId).isNone then (false, s)
  else
    match s.materializations materializationId with
    | none => (false, s)
    | some value =>
      if value.userId ≠ userId ∨ value.repositoryId ≠ repositoryId then (false, s)
      else
        let s := { s with materializations := Function.update s.materializations materializationId none }
        (true, removeMaterializationId s repositoryId materializationId)

def materializationIdentityKey (repositoryId workspaceId : String) : String :=
  repositoryId ++ "\x00" ++ workspaceId

/-- An announced materialization, with the id and the time its upsert gets. -/
structure Announcement where
  input : MaterializationUpsertInput
  generated : String
  now : String
  deriving DecidableEq

def Announcement.key (a : Announcement) : String :=
  materializationIdentityKey a.input.repositoryId a.input.workspaceId

/-- The first announcement that is a duplicate or not authorized. -/
def checkAnnouncements (s : Storage) (userId : String) : List String → List Announcement → Option String
  | _, [] => none
  | keys, a::rest =>
    if a.key ∈ keys then some "Duplicate repository materialization announcement."
    else if (getRepositoryForUser s userId a.input.repositoryId).isNone then
      some "Repository is not authorized for this user."
    else checkAnnouncements s userId (keys ++ [a.key]) rest

def deleteUnannounced (deviceId : String) (keys : List String) (userId : String) (s : Storage)
    (materialization : StoredMaterialization) : Storage :=
  if materialization.host = .device deviceId ∧
      materializationIdentityKey materialization.repositoryId materialization.workspaceId ∉ keys then
    (deleteMaterialization s userId materialization.repositoryId materialization.id).2
  else s

def upsertAnnounced (userId deviceId : String) : Storage → List Announcement →
    Except String (List StoredMaterialization) × Storage
  | s, [] => (.ok [], s)
  | s, a::rest =>
    match upsertMaterialization s userId deviceId a.input a.generated a.now with
    | (.error message, s) => (.error message, s)
    | (.ok materialization, s) =>
      match upsertAnnounced userId deviceId s rest with
      | (.error message, s) => (.error message, s)
      | (.ok reconciled, s) => (.ok (materialization::reconciled), s)

/-- The storage between the deletions and the upserts. -/
def deleteAllUnannounced (s : Storage) (userId deviceId : String) (desired : List Announcement) : Storage :=
  (listRepositories locale s userId).foldl (fun s access =>
    (listMaterializations s userId access.1.id).foldl
      (deleteUnannounced deviceId (desired.map Announcement.key) userId) s) s

def reconcileDeviceMaterializations (s : Storage) (userId deviceId : String) (desired : List Announcement) :
    Except String (List StoredMaterialization) × Storage :=
  if !deviceAuthorized s userId deviceId then (.error "Device is not authorized.", s)
  else
    match checkAnnouncements s userId [] desired with
    | some message => (.error message, s)
    | none => upsertAnnounced userId deviceId (deleteAllUnannounced locale s userId deviceId desired) desired

end Materializations

section Migration

structure TargetUser where
  id : String
  displayName : String
  createdAt : String
  deriving DecidableEq

structure MigrationResult where
  user : AccountUser
  repositoryCount : ℕ
  deviceCount : ℕ
  materializationCount : ℕ
  alreadyMigrated : Bool
  deriving DecidableEq

def migratableRepository (userId : String) (repository : StoredRepository) : Bool :=
  repository.ownerUserId = userId ∧ repository.visibility = .privateOnly ∧ repository.members =
    [(userId, .owner)]

def collectMaterializations (s : Storage) (userId repositoryId : String) :
    List String → Except String (List StoredMaterialization)
  | [] => .ok []
  | id::ids =>
    match s.materializations id with
    | none => .error "Repository materialization is not compatible with single-user migration."
    | some materialization =>
      if materialization.repositoryId = repositoryId ∧ materialization.userId = userId then
        (collectMaterializations s userId repositoryId ids).map (materialization::·)
      else .error "Repository materialization is not compatible with single-user migration."

def collectRepositories (s : Storage) (userId : String) :
    List String → Except String (List StoredRepository × List StoredMaterialization)
  | [] => .ok ([], [])
  | id::ids =>
    match s.repositories id with
    | none => .error "Repository ownership is not compatible with single-user migration."
    | some repository =>
      if migratableRepository userId repository then
        match collectMaterializations s userId id (s.materializationIds id) with
        | .error message => .error message
        | .ok materializations =>
          (collectRepositories s userId ids).map fun rest => (repository::rest.1, materializations ++ rest.2)
      else .error "Repository ownership is not compatible with single-user migration."

def collectDevices (s : Storage) (userId : String) : List String → Except String (List StoredDevice)
  | [] => .ok []
  | id::ids =>
    match s.devices id with
    | none => .error "Device ownership is not compatible with single-user migration."
    | some device =>
      if device.userId = userId then (collectDevices s userId ids).map (device::·)
      else .error "Device ownership is not compatible with single-user migration."

def StoredRepository.moveTo (repository : StoredRepository) (userId : String) : StoredRepository :=
  { repository with ownerUserId := userId, visibility := .privateOnly, members := [(userId, .owner)] }

def StoredMaterialization.moveTo (materialization : StoredMaterialization)
    (userId : String) : StoredMaterialization :=
  { materialization with userId }

def StoredDevice.moveTo (device : StoredDevice) (userId : String) : StoredDevice := { device with userId }

/-- The writes of a migration. -/
def writeMigration (s : Storage) (source user : AccountUser) (repositories : List StoredRepository)
    (materializations : List StoredMaterialization) (devices : List StoredDevice) : Storage :=
  let repositoryIds := s.repositoryIds source.id
  let deviceIds := s.deviceIds source.id
  let s : Storage := { s with
    users := Function.update s.users user.id (some user)
    userNames := Function.update s.userNames user.normalizedName (some user.id) }
  let s : Storage := (s.putRepositoryIds user.id repositoryIds).putDeviceIds user.id deviceIds
  let s : Storage := repositories.foldl (fun s repository => s.putRepository (repository.moveTo user.id)) s
  let s : Storage :=
    materializations.foldl (fun s materialization => s.putMaterialization (materialization.moveTo user.id)) s
  let s : Storage := devices.foldl (fun s device => s.putDevice (device.moveTo user.id)) s
  let s : Storage := { s with userIds := some [user.id] }
  let s : Storage :=
    if source.normalizedName ≠ user.normalizedName ∧ s.userNames source.normalizedName = some source.id then
      { s with userNames := Function.update s.userNames source.normalizedName none }
    else s
  { s with
    userRepositoryIds := Function.update s.userRepositoryIds source.id none
    userDeviceIds := Function.update s.userDeviceIds source.id none
    users := Function.update s.users source.id none }

def identityBindingCounts (s : Storage) (userId : String) : ℕ × ℕ × ℕ :=
  let repositoryIds := s.repositoryIds userId
  (repositoryIds.length, (s.deviceIds userId).length,
    (repositoryIds.map fun id => (s.materializationIds id).length).sum)

/-- The migration of a user that is still the source. -/
def migrateSource (s : Storage) (fromUserId : String)
    (user : AccountUser) : Except String MigrationResult × Storage :=
  match s.users fromUserId with
  | none => (.error "Source user identity is unavailable.", s)
  | some source =>
    if source.id ≠ fromUserId then (.error "Source user identity is unavailable.", s)
    else if (s.users user.id).isSome then (.error "Target user identity already exists.", s)
    else if (s.userNames user.normalizedName).any (fun owner => owner ≠ "" ∧ owner ≠ fromUserId) then
      (.error "Target user name already belongs to another identity.", s)
    else
      match collectRepositories s fromUserId (s.repositoryIds fromUserId) with
      | .error message => (.error message, s)
      | .ok (repositories, materializations) =>
        match collectDevices s fromUserId (s.deviceIds fromUserId) with
        | .error message => (.error message, s)
        | .ok devices =>
          (.ok ⟨user, repositories.length, devices.length, materializations.length, false⟩,
            writeMigration s source user repositories materializations devices)

def migrateSingleUserIdentity (s : Storage) (fromUserId : String) (toUser : TargetUser) :
    Except String MigrationResult × Storage :=
  let displayName := trim toUser.displayName
  let normalizedName := normalizeName locale displayName
  let user : AccountUser := ⟨toUser.id, displayName, normalizedName, toUser.createdAt⟩
  if !isUserId fromUserId then (.error "User id is invalid.", s)
  else if !isUserId toUser.id then (.error "User id is invalid.", s)
  else if fromUserId = toUser.id then (.error "Source and target user ids must differ.", s)
  else if normalizedName = "" ∨ 200 < utf16Length normalizedName then
    (.error "Target user name is invalid.", s)
  else if !isTimestamp locale toUser.createdAt then (.error "Target user creation timestamp is invalid.", s)
  else if s.userIdList = [toUser.id] then
    match s.users toUser.id with
    | none => (.error "Existing single-user identity does not match the requested migration.", s)
    | some existing =>
      if existing.displayName ≠ displayName ∨ existing.createdAt ≠ toUser.createdAt ∨
        (s.users fromUserId).isSome then
        (.error "Existing single-user identity does not match the requested migration.", s)
      else
        let counts := identityBindingCounts s existing.id
        (.ok ⟨existing, counts.1, counts.2.1, counts.2.2, true⟩, s)
  else if s.userIdList ≠ [fromUserId] then
    (.error "Single-user migration source does not match durable account state.", s)
  else migrateSource s fromUserId user

end Migration

end AccessStack.Accounts
