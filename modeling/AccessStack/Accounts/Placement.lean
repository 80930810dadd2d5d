import AccessStack.Accounts.Routing
import AccessStack.Accounts.Store

/-!
# Imports and materializations

The three flows that place repositories on a runtime. Each asks the runtime
for a plan, commits the plan to the account store, asks the runtime to carry
it out, and undoes the commit when the runtime does not. The answers of the
runtimes, the ids that are generated and the times are inputs. A transaction
that throws leaves the storage as it was.
-/

set_option autoImplicit false

namespace AccessStack.Accounts
open AccessStack.Text

section Answers

inductive ToolError where
  | invalidArgument
  | agentUnavailable
  | deviceSelectionRequired
  | workspaceRouteUnresolved
  | repositoryNotFound
  | repositoryRemoteRequired
  | materializationAmbiguous
  | repositoryImportFailed
  | repositoryImportRollbackFailed
  | repositoryMaterializationFailed
  | repositoryMaterializationRollbackFailed
  deriving DecidableEq

/-- The answer of a tool call; a throw outside of every handler is the caller's. -/
inductive Answer (α : Type) where
  | success (value : α)
  | error (code : ToolError) (message : String)
  | thrown (message : String)
  deriving DecidableEq

/-- A relayed request throws, or has a response whose content is read or not. -/
abbrev Relayed (α : Type) := Except String (Option α)

structure CompanionTarget where
  platform : Option Platform
  deriving DecidableEq

structure DiscoveredRepositoryEntry where
  name : String
  path : String
  workspaceId : String
  remoteUrls : List String
  deriving DecidableEq

structure InternalRepositoryBinding where
  repositoryId : String
  name : String
  path : String
  workspaceId : String
  remoteUrls : List String
  deriving DecidableEq

structure InternalBoundRepository where
  repositoryId : String
  workspaceId : String
  path : String
  deriving DecidableEq

structure RepositoryDetails where
  repository : StoredRepository
  role : RepositoryRole
  materializations : List StoredMaterialization
  deriving DecidableEq

def transaction {α : Type} (s : Storage) (body : Storage → Except String α × Storage) :
    Except String α × Storage :=
  match body s with
  | (.ok a, s') => (.ok a, s')
  | (.error message, _) => (.error message, s)

end Answers

variable (locale : Locale) (lower : String → String)

section Helpers

/-- On Windows the case is folded by `lower`. -/
def companionPathKey (value : String) (platform : Option Platform) : String :=
  let normalized :=
    String.ofList ((value.toList.map fun c => if c = '\\' then '/' else c).rdropWhile (· = '/'))
  if platform = some .windows then lower normalized else normalized

def nextAvailableRepositoryName (baseName : String) (usedNames : List String) : Except String String :=
  let start := sliceUnits 200 (trim baseName).toList
  let base := if start = [] then "Repository".toList else start
  if normalizeName locale (String.ofList base) ∉ usedNames then .ok (String.ofList base)
  else
    let names := (List.range 4095).map fun attempt =>
      let marker := " (" ++ toString (attempt + 2) ++ ")"
      String.ofList (sliceUnits (max 1 (200 - marker.length)) base) ++ marker
    match names.find? fun candidate => normalizeName locale candidate ∉ usedNames with
    | some candidate => .ok candidate
    | none => .error "Repository name space is exhausted."

def findMaterializationByDevicePath (s : Storage) (userId deviceId path : String) :
    Option (StoredRepository × StoredMaterialization) :=
  (listRepositories locale s userId).findSome? fun access =>
    (((s.materializationIds access.1.id).filterMap s.materializations).find? fun materialization =>
      materialization.userId = userId ∧ materialization.host = .device deviceId ∧
        materialization.path = path).map
      fun materialization => (access.1, materialization)

def listStoredMaterializations (s : Storage) (userId : String) : List StoredMaterialization :=
  (listRepositories locale s userId).flatMap fun access => listMaterializations s userId access.1.id

def readRepositoryDetails (s : Storage) (userId repositoryId : String) : Option RepositoryDetails :=
  (getRepositoryForUser s userId repositoryId).map fun access =>
    ⟨access.1, access.2, listMaterializations s userId repositoryId⟩

/-- The materialization of a repository on a host under a workspace id. -/
def currentMaterialization (s : Storage) (userId repositoryId : String) (host : Host) (workspaceId : String) :
    Option StoredMaterialization :=
  (listMaterializations s userId repositoryId).find? fun value => value.host = host ∧
    value.workspaceId = workspaceId

/-- The input that writes a record back. -/
def StoredMaterialization.input (previous : StoredMaterialization) : MaterializationUpsertInput :=
  ⟨some previous.id, previous.repositoryId, previous.workspaceId, previous.path, previous.platform⟩

/-- The workspace ids of the companions other than the selected one. -/
def announcedElsewhere (candidates : List (CompanionRouteCandidate CompanionTarget))
    (deviceId : String) : List String :=
  (candidates.filter (·.deviceId ≠ deviceId)).flatMap (·.workspaceIds)

end Helpers

section Import

/-- The arguments of an import, and what it learns from its runtimes. -/
structure ImportCall where
  root : String
  paths : Option (List String)
  requestedDeviceId : Option String
  candidates : List (CompanionRouteCandidate CompanionTarget)
  primaryWorkspaceIds : Relayed (List String)
  candidatesAfter : List (CompanionRouteCandidate CompanionTarget)
  discovery : Relayed (List DiscoveredRepositoryEntry)
  prepare : Relayed (List InternalBoundRepository)
  bind : Relayed (List InternalBoundRepository)
  repositoryId : ℕ → String
  createdAt : ℕ → String
  materializationId : ℕ → String
  committedAt : ℕ → String
  restoredId : ℕ → String
  restoredAt : ℕ → String

/-- What an import has allocated so far. -/
structure Allocation where
  storage : Storage
  cloudRepositories : List StoredRepository
  usedNames : List String
  allocatedWorkspaceIds : List String
  createdRepositoryIds : List String
  bindings : List InternalRepositoryBinding

/-- The repository that a discovered one is bound to, created where no remote matches. -/
def cloudRepository (userId : String) (entry : DiscoveredRepositoryEntry) (generated now : String)
    (a : Allocation) : Except String (StoredRepository × Allocation) :=
  let remoteMatches :=
    if entry.remoteUrls = [] then []
    else a.cloudRepositories.filter fun repository => repository.remoteUrls.any (· ∈ entry.remoteUrls)
  match remoteMatches with
  | _::_::_ => .error "More than one cloud repository matches the discovered Git remote."
  | [repository] => .ok (repository, a)
  | [] =>
    match nextAvailableRepositoryName locale entry.name a.usedNames with
    | .error message => .error message
    | .ok name =>
      match createRepository locale a.storage userId name entry.remoteUrls generated now with
      | (.error message, _) => .error message
      | (.ok repository, storage) =>
        .ok (repository, { a with
          storage
          cloudRepositories := a.cloudRepositories ++ [repository]
          usedNames := a.usedNames ++ [normalizeName locale repository.name]
          createdRepositoryIds := a.createdRepositoryIds ++ [repository.id] })

def allocateRepository (userId deviceId : String) (platform : Option Platform) (generated now : String)
    (a : Allocation) (entry : DiscoveredRepositoryEntry) : Except String Allocation :=
  let existingPath := findMaterializationByDevicePath locale a.storage userId deviceId entry.path
  let requestedWorkspaceId := (existingPath.map (·.2.workspaceId)).getD entry.workspaceId
  match selectAvailableCompanionWorkspaceId requestedWorkspaceId (companionPathKey lower entry.path platform)
    a.allocatedWorkspaceIds with
  | .error message => .error message
  | .ok workspaceId =>
    let a := { a with allocatedWorkspaceIds := a.allocatedWorkspaceIds ++ [workspaceId] }
    let bound : Except String (StoredRepository × Allocation) :=
      match existingPath with
      | some existing => .ok (existing.1, a)
      | none => cloudRepository locale userId entry generated now a
    bound.map fun bound => { bound.2 with
      bindings := bound.2.bindings ++
        [⟨bound.1.id, bound.1.name, entry.path, workspaceId, entry.remoteUrls⟩] }

/-- The allocation of the selected repositories, up to the first that throws. -/
def allocateRepositories (userId deviceId : String) (platform : Option Platform)
    (generated now : ℕ → String) : Allocation → ℕ → List DiscoveredRepositoryEntry →
    Option String × Allocation
  | a, _, [] => (none, a)
  | a, n, entry::rest =>
    match allocateRepository locale lower userId deviceId platform (generated n) (now n) a entry with
    | .error message => (some message, a)
    | .ok a => allocateRepositories userId deviceId platform generated now a (n + 1) rest

/-- The bindings with the paths and the workspace ids of the validated answer. -/
def canonicalBindings (platform : Option Platform) :
    List (InternalRepositoryBinding × InternalBoundRepository) →
    Except String (List InternalRepositoryBinding)
  | [] => .ok []
  | (binding, validated)::rest =>
    if validated.repositoryId ≠ binding.repositoryId ∨
        companionPathKey lower validated.path platform ≠ companionPathKey lower binding.path platform then
      .error "Local repository binding validation did not match the requested repositories."
    else
      (canonicalBindings platform rest).map
        ({ binding with path := validated.path, workspaceId := validated.workspaceId } :: ·)

/-- The record that a binding goes on from. -/
def previousFor (s : Storage) (userId deviceId repositoryId workspaceId path : String) :
    Option StoredMaterialization :=
  ((findMaterializationByDevicePath locale s userId deviceId path).map (·.2)).or
    (currentMaterialization s userId repositoryId (.device deviceId) workspaceId)

/-- The entries of `previousMaterializations`, in the order they are set. -/
def previousMaterializations (s : Storage) (userId deviceId : String) (platform : Option Platform)
    (bindings : List InternalRepositoryBinding) : List (String × Option StoredMaterialization) :=
  bindings.map fun binding =>
    (companionPathKey lower binding.path platform,
      previousFor locale s userId deviceId binding.repositoryId binding.workspaceId binding.path)

def previousOf (entries : List (String × Option StoredMaterialization)) (key : String) :
    Option StoredMaterialization :=
  (entries.reverse.find? (·.1 = key)).bind (·.2)

def announcement (platform : Option Platform) (previous : Option StoredMaterialization)
    (binding : InternalRepositoryBinding) (generated now : String) : Announcement :=
  ⟨⟨previous.map (·.id), binding.repositoryId, binding.workspaceId, binding.path, platform.getD .unknown⟩,
    generated, now⟩

def rollbackBinding (s : Storage) (userId deviceId : String) (binding : InternalRepositoryBinding)
    (previous : Option StoredMaterialization) (generated now : String) : Except String Unit × Storage :=
  let current := currentMaterialization s userId binding.repositoryId (.device deviceId) binding.workspaceId
  let deleted : Bool × Storage :=
    match current with
    | none => (true, s)
    | some current =>
      if previous.any (·.id = current.id) then (true, s)
      else deleteMaterialization s userId binding.repositoryId current.id
  if !deleted.1 then
    (.error ("Materialization rollback failed for " ++ binding.repositoryId ++ "/" ++
      binding.workspaceId ++ "."), deleted.2)
  else
    match previous with
    | none => (.ok (), deleted.2)
    | some previous =>
      match upsertMaterialization deleted.2 userId deviceId previous.input generated now with
      | (.ok _, s) => (.ok (), s)
      | (.error message, s) => (.error message, s)

def rollbackBindings (userId deviceId : String)
    (previous : InternalRepositoryBinding → Option StoredMaterialization)
    (generated now : ℕ → String) :
    ℕ → Storage → List InternalRepositoryBinding → Except String Unit × Storage
  | _, s, [] => (.ok (), s)
  | n, s, binding::rest =>
    match rollbackBinding s userId deviceId binding (previous binding) (generated n) (now n) with
    | (.error message, s) => (.error message, s)
    | (.ok _, s) => rollbackBindings userId deviceId previous generated now (n + 1) s rest

/-- The cleanup of new repositories, with what it could not remove. -/
def cleanupRepositories (userId : String) : Storage → List String → List String × Storage
  | s, [] => ([], s)
  | s, repositoryId::rest =>
    let deleted := deleteOwnedRepositoryIfUnmaterialized s userId repositoryId
    let remaining := cleanupRepositories userId deleted.2 rest
    if deleted.1 then remaining
    else (("New repository cleanup failed for " ++ repositoryId ++ ".") :: remaining.1, remaining.2)

def importSelection (platform : Option Platform) (paths : List String)
    (discovered : List DiscoveredRepositoryEntry) :
    Except (ToolError × String) (List DiscoveredRepositoryEntry) :=
  let requestedKeys := paths.map fun path => companionPathKey lower path platform
  if ¬ requestedKeys.Nodup then .error (.invalidArgument, "Repository paths must be unique.")
  else
    let selected := requestedKeys.map fun key =>
      discovered.reverse.find? fun repository => companionPathKey lower repository.path platform = key
    if selected.any (·.isNone) then
      .error (.repositoryNotFound,
        "One or more selected paths were not discovered as Git repositories under the supplied root.")
    else .ok (selected.filterMap id)

/-- How the handled part of an import ends: in an answer, or in an error with what there is to undo. -/
inductive ImportAttempt where
  | returned (answer : Answer (List RepositoryDetails)) (s : Storage)
  | failed (message : String) (s : Storage) (createdRepositoryIds : List String)
      (committed : Option (List InternalRepositoryBinding × List (String × Option StoredMaterialization)))

/-- The response of the binding, compared with what was validated. -/
def boundAsValidated (platform : Option Platform) (bindings : List InternalRepositoryBinding)
    (bound : List InternalBoundRepository) : Bool :=
  (bindings.zip bound).all fun pair =>
    pair.2.repositoryId = pair.1.repositoryId ∧ pair.2.workspaceId = pair.1.workspaceId ∧
      companionPathKey lower pair.2.path platform = companionPathKey lower pair.1.path platform

/-- The import after its materializations are committed. -/
def importCommitted (userId : String) (platform : Option Platform) (call : ImportCall) (a : Allocation)
    (s : Storage) (bindings : List InternalRepositoryBinding)
    (previous : List (String × Option StoredMaterialization)) : ImportAttempt :=
  let fail (message : String) : ImportAttempt := .failed message s a.createdRepositoryIds
    (some (bindings, previous))
  let repositories := bindings.map fun binding => readRepositoryDetails s userId binding.repositoryId
  if repositories.any (·.isNone) then fail "Imported repository details became unavailable."
  else
    match call.bind with
    | .error message => fail message
    | .ok none => fail "Local repository binding failed."
    | .ok (some bound) =>
      if bound.length ≠ bindings.length then fail "Local repository binding failed."
      else if !boundAsValidated lower platform bindings bound then
        fail "Local repository binding response changed after validation."
      else .returned (.success (repositories.filterMap id)) s

/-- The announcements that the commit of an import upserts. -/
def importAnnouncements (platform : Option Platform) (call : ImportCall)
    (bindings : List InternalRepositoryBinding) (previous : List (String × Option StoredMaterialization)) :
    List Announcement :=
  bindings.zipIdx.map fun p =>
    announcement platform (previousOf previous (companionPathKey lower p.1.path platform)) p.1
      (call.materializationId p.2) (call.committedAt p.2)

/-- The import after its repositories are allocated. -/
def importAllocated (userId deviceId : String) (platform : Option Platform) (call : ImportCall)
    (a : Allocation) : ImportAttempt :=
  let fail (message : String) : ImportAttempt := .failed message a.storage a.createdRepositoryIds none
  match call.prepare with
  | .error message => fail message
  | .ok none => fail "Local repository binding validation failed."
  | .ok (some prepared) =>
    if prepared.length ≠ a.bindings.length then fail "Local repository binding validation failed."
    else
      match canonicalBindings lower platform (a.bindings.zip prepared) with
      | .error message => fail message
      | .ok bindings =>
        let previous := previousMaterializations locale lower a.storage userId deviceId platform bindings
        match transaction a.storage fun s =>
            upsertAnnounced userId deviceId s (importAnnouncements lower platform call bindings previous) with
        | (.error message, s) => .failed message s a.createdRepositoryIds none
        | (.ok _, s) => importCommitted lower userId platform call a s bindings previous

/-- The handled part of an import. -/
def importAttempt (s : Storage) (userId : String) (call : ImportCall) (paths : List String)
    (candidate : CompanionRouteCandidate CompanionTarget) (primaryWorkspaceIds : List String) :
    ImportAttempt :=
  let deviceId := candidate.deviceId
  let platform := candidate.target.platform
  let reservedWorkspaceIds := primaryWorkspaceIds ++
    ((listStoredMaterializations locale s userId).filter (·.host ≠ .device deviceId)).map (·.workspaceId) ++
    announcedElsewhere call.candidatesAfter deviceId
  match call.discovery with
  | .error message => .failed message s [] none
  | .ok none => .failed "Local repository discovery failed." s [] none
  | .ok (some discovered) =>
    match importSelection lower platform paths discovered with
    | .error refused => .returned (.error refused.1 refused.2) s
    | .ok selected =>
      let cloudRepositories := (listRepositories locale s userId).map (·.1)
      let start : Allocation :=
        ⟨s, cloudRepositories, cloudRepositories.map fun r => normalizeName locale r.name,
        reservedWorkspaceIds, [], []⟩
      match allocateRepositories locale lower userId deviceId platform call.repositoryId call.createdAt
        start 0 selected with
      | (some message, a) => .failed message a.storage a.createdRepositoryIds none
      | (none, a) => importAllocated locale lower userId deviceId platform call a

/-- The rollback of the materializations of an import, where they were committed. -/
def rollbackCommitted (userId deviceId : String) (platform : Option Platform) (call : ImportCall)
    (s : Storage) :
    Option (List InternalRepositoryBinding × List (String × Option StoredMaterialization)) →
    Except String Unit × Storage
  | none => (.ok (), s)
  | some (bindings, previous) =>
    transaction s fun s => rollbackBindings userId deviceId
      (fun binding => previousOf previous (companionPathKey lower binding.path platform))
      call.restoredId call.restoredAt 0 s bindings

/-- The handler of an import that failed. -/
def recoverImport (userId deviceId : String) (platform : Option Platform) (call : ImportCall)
    (message : String) (s : Storage) (createdRepositoryIds : List String)
    (committed : Option (List InternalRepositoryBinding × List (String × Option StoredMaterialization))) :
    Answer (List RepositoryDetails) × Storage :=
  let rolledBack := rollbackCommitted lower userId deviceId platform call s committed
  let cleaned := cleanupRepositories userId rolledBack.2 createdRepositoryIds.reverse
  let rollbackFailures := (match rolledBack.1 with
    | .ok _ => []
    | .error failure => [failure]) ++ cleaned.1
  if rollbackFailures ≠ [] then
    (.error .repositoryImportRollbackFailed
      (message ++ " Rollback failure: " ++ String.intercalate " | " rollbackFailures), cleaned.2)
  else (.error .repositoryImportFailed message, cleaned.2)

def importRepositoriesOnCompanion (s : Storage) (userId : String) (call : ImportCall) :
    Answer (List RepositoryDetails) × Storage :=
  match call.paths with
  | none => (.error .invalidArgument "root and at least one repository path are required.", s)
  | some paths =>
    if call.root = "" ∨ paths = [] then
      (.error .invalidArgument "root and at least one repository path are required.", s)
    else
      match selectCompanionDevice call.candidates call.requestedDeviceId with
      | .absent =>
        (.error .agentUnavailable "No authorized MCP V3 local runtime is online for repository import.", s)
      | .ambiguous =>
        (.error .deviceSelectionRequired "More than one MCP V3 device is online; choose a deviceId.", s)
      | .selected candidate =>
        match call.primaryWorkspaceIds with
        | .error message => (.thrown message, s)
        | .ok none =>
          (.error .workspaceRouteUnresolved
            "Primary workspace ownership could not be verified before repository import.", s)
        | .ok (some primaryWorkspaceIds) =>
          match importAttempt locale lower s userId call paths candidate primaryWorkspaceIds with
          | .returned answer s => (answer, s)
          | .failed message s created committed =>
            recoverImport lower userId candidate.deviceId candidate.target.platform call message s
              created committed

end Import

section Materialize

/-- The arguments of a materialization, and what it learns from its runtimes. -/
structure MaterializeCall where
  repositoryId : String
  targetName : Option String
  requestedDeviceId : Option String
  candidates : List (CompanionRouteCandidate CompanionTarget)
  primaryWorkspaceIds : Relayed (List String)
  candidatesAfter : List (CompanionRouteCandidate CompanionTarget)
  connectorReady : Bool
  runtimeId : String
  prepare : Relayed InternalBoundRepository
  correctedPrepare : Relayed InternalBoundRepository
  materialize : Relayed InternalBoundRepository
  materializationId : String
  committedAt : String
  restoredId : String
  restoredAt : String

/-- The two upserts by the host they write to. -/
def upsertOn (s : Storage) (userId : String) (host : Host) (input : MaterializationUpsertInput)
    (generated now : String) : Except String StoredMaterialization × Storage :=
  match host with
  | .device deviceId => upsertMaterialization s userId deviceId input generated now
  | .runtime runtimeId => upsertRuntimeMaterialization s userId runtimeId input generated now

/-- The texts in which the two materializations differ. -/
structure MaterializeTexts where
  changed : String
  unavailable : String
  rollback : String

def companionTexts : MaterializeTexts :=
  ⟨"Local repository materialization changed after validation.",
    "Materialized repository state is unavailable.", "Cloud materialization rollback failed."⟩

def primaryTexts : MaterializeTexts :=
  ⟨"Remote repository materialization changed after validation.",
    "Remote materialized repository state is unavailable.", "Remote materialization rollback failed."⟩

def rollbackMaterialization (texts : MaterializeTexts) (s : Storage) (userId repositoryId : String)
    (host : Host) (workspaceId : String) (original : Option StoredMaterialization) (generated now : String) :
    Except String Unit × Storage :=
  match original with
  | some original =>
    match upsertOn s userId host original.input generated now with
    | (.ok _, s) => (.ok (), s)
    | (.error message, s) => (.error message, s)
  | none =>
    match currentMaterialization s userId repositoryId host workspaceId with
    | none => (.ok (), s)
    | some current =>
      match deleteMaterialization s userId repositoryId current.id with
      | (true, s) => (.ok (), s)
      | (false, s) => (.error texts.rollback, s)

/-- What the runtime made of the committed plan: the answer, or the error to recover from. -/
def materializeCommitted (texts : MaterializeTexts) (platform : Option Platform) (s : Storage)
    (userId : String) (host : Host) (call : MaterializeCall) (planned : InternalBoundRepository) :
    Except String (RepositoryDetails × StoredMaterialization) :=
  match call.materialize with
  | .error message => .error message
  | .ok none => .error texts.changed
  | .ok (some actual) =>
    if actual.repositoryId ≠ planned.repositoryId ∨ actual.workspaceId ≠ planned.workspaceId ∨
        companionPathKey lower actual.path platform ≠ companionPathKey lower planned.path platform then
      .error texts.changed
    else
      match readRepositoryDetails s userId call.repositoryId with
      | none => .error "Materialized repository details became unavailable."
      | some details =>
        match details.materializations.find? fun value =>
            value.host = host ∧ value.workspaceId = planned.workspaceId with
        | none => .error texts.unavailable
        | some materialization => .ok (details, materialization)

/-- The commit of a validated plan, and the handler of its failure. -/
def materializePlanned (texts : MaterializeTexts) (platform : Option Platform) (storedPlatform : Platform)
    (s : Storage) (userId : String) (host : Host) (call : MaterializeCall)
    (previous : Option StoredMaterialization) (planned : InternalBoundRepository) :
    Answer (RepositoryDetails × StoredMaterialization) × Storage :=
  let previousForPlannedWorkspace :=
    currentMaterialization s userId call.repositoryId host planned.workspaceId
  match transaction s fun s => upsertOn s userId host
      ⟨previous.map (·.id), call.repositoryId, planned.workspaceId, planned.path, storedPlatform⟩
      call.materializationId call.committedAt with
  | (.error message, s) => (.error .repositoryMaterializationFailed message, s)
  | (.ok _, s) =>
    match materializeCommitted lower texts platform s userId host call planned with
    | .ok result => (.success result, s)
    | .error message =>
      match transaction s fun s => rollbackMaterialization texts s userId call.repositoryId host
          planned.workspaceId (previous.or previousForPlannedWorkspace) call.restoredId call.restoredAt with
      | (.ok _, s) => (.error .repositoryMaterializationFailed message, s)
      | (.error failure, s) =>
        (.error .repositoryMaterializationRollbackFailed (message ++ " Rollback failure: " ++ failure), s)

def materializeRepositoryOnPrimary (s : Storage) (userId : String) (call : MaterializeCall) :
    Answer (RepositoryDetails × StoredMaterialization) × Storage :=
  if call.repositoryId = "" then (.error .invalidArgument "repositoryId is required.", s)
  else
    match getRepositoryForUser s userId call.repositoryId with
    | none => (.error .repositoryNotFound "Repository is not available to this user.", s)
    | some (repository, _) =>
      if repository.remoteUrls = [] then
        (.error .repositoryRemoteRequired
          "Repository has no remote source that can be materialized on the remote runtime.", s)
      else if !call.connectorReady then
        (.error .agentUnavailable
          "The MCP V3 remote runtime is not online for repository materialization.", s)
      else
        let host : Host := .runtime call.runtimeId
        match (listMaterializations s userId call.repositoryId).filter (·.host = host) with
        | _::_::_ =>
          (.error .materializationAmbiguous
            "Repository has more than one materialization on the remote runtime.", s)
        | existing =>
          let previous := existing.head?
          match call.primaryWorkspaceIds with
          | .error message => (.thrown message, s)
          | .ok none =>
            (.error .workspaceRouteUnresolved "Remote workspace ownership could not be verified.", s)
          | .ok (some primaryWorkspaceIds) =>
            let reservedWorkspaceIds :=
              primaryWorkspaceIds.filter (fun id => some id ≠ previous.map (·.workspaceId)) ++
              ((listStoredMaterializations locale s userId).filter
                fun m => some m.id ≠ previous.map (·.id)).map (·.workspaceId) ++
              call.candidatesAfter.flatMap (·.workspaceIds)
            let targetName := (call.targetName.map trim).filter (· ≠ "")
            let requested := (previous.map (·.workspaceId)).getD (targetName.getD repository.name)
            match selectAvailableRuntimeWorkspaceId requested (call.runtimeId ++ ":" ++ call.repositoryId)
              reservedWorkspaceIds .remote with
            | .error message => (.thrown message, s)
            | .ok workspaceId =>
              match call.prepare with
              | .error message => (.thrown message, s)
              | .ok none =>
                (.error .repositoryMaterializationFailed
                  "Remote repository materialization validation failed.", s)
              | .ok (some planned) =>
                if planned.repositoryId ≠ call.repositoryId ∨ planned.workspaceId ≠ workspaceId then
                  (.error .repositoryMaterializationFailed
                    "Remote repository materialization validation failed.", s)
                else
                  materializePlanned lower primaryTexts
                    (some .linux) .linux s userId host call previous planned

/-- The plan of a companion, with another workspace id where the first is reserved. -/
def companionPlan (platform : Option Platform) (deviceId : String) (call : MaterializeCall)
    (reservedWorkspaceIds : List String) (planned : InternalBoundRepository) :
    Except (Answer (RepositoryDetails × StoredMaterialization)) InternalBoundRepository :=
  if planned.workspaceId ∉ reservedWorkspaceIds then .ok planned
  else
    match selectAvailableCompanionWorkspaceId planned.workspaceId (deviceId ++ ":" ++ call.repositoryId)
      reservedWorkspaceIds with
    | .error message => .error (.thrown message)
    | .ok uniqueId =>
      let refused : Answer (RepositoryDetails × StoredMaterialization) :=
        .error .repositoryMaterializationFailed "Local workspace id reallocation failed validation."
      match call.correctedPrepare with
      | .error message => .error (.thrown message)
      | .ok none => .error refused
      | .ok (some corrected) =>
        if corrected.repositoryId ≠ call.repositoryId ∨ corrected.workspaceId ≠ uniqueId ∨
            companionPathKey lower corrected.path platform ≠ companionPathKey lower planned.path platform then
          .error refused
        else .ok corrected

def materializeRepositoryOnCompanion (s : Storage) (userId : String) (call : MaterializeCall) :
    Answer (RepositoryDetails × StoredMaterialization) × Storage :=
  if call.repositoryId = "" then (.error .invalidArgument "repositoryId is required.", s)
  else
    match getRepositoryForUser s userId call.repositoryId with
    | none => (.error .repositoryNotFound "Repository is not available to this user.", s)
    | some (repository, _) =>
      if repository.remoteUrls = [] then
        (.error .repositoryRemoteRequired
          "Repository has no remote source that can be materialized on another device.", s)
      else
        match selectCompanionDevice call.candidates call.requestedDeviceId with
        | .absent =>
          (.error .agentUnavailable
            "No authorized MCP V3 local runtime is online for repository materialization.", s)
        | .ambiguous =>
          (.error .deviceSelectionRequired "More than one MCP V3 device is online; choose a deviceId.", s)
        | .selected candidate =>
          let host : Host := .device candidate.deviceId
          let platform := candidate.target.platform
          match (listMaterializations s userId call.repositoryId).filter (·.host = host) with
          | _::_::_ =>
            (.error .materializationAmbiguous
              "Repository has more than one materialization on the selected device.", s)
          | existing =>
            let previous := existing.head?
            match call.prepare with
            | .error message => (.thrown message, s)
            | .ok none =>
              (.error .repositoryMaterializationFailed
                "Local repository materialization validation failed.", s)
            | .ok (some planned) =>
              if planned.repositoryId ≠ call.repositoryId then
                (.error .repositoryMaterializationFailed
                  "Local repository materialization validation failed.", s)
              else
                match call.primaryWorkspaceIds with
                | .error message => (.thrown message, s)
                | .ok none =>
                  (.error .workspaceRouteUnresolved "Local workspace ownership could not be verified.", s)
                | .ok (some primaryWorkspaceIds) =>
                  let reservedWorkspaceIds := primaryWorkspaceIds ++
                    ((listStoredMaterializations locale s userId).filter
                      fun m => some m.id ≠ previous.map (·.id)).map (·.workspaceId) ++
                    announcedElsewhere call.candidatesAfter candidate.deviceId
                  match companionPlan lower platform candidate.deviceId call reservedWorkspaceIds planned with
                  | .error answer => (answer, s)
                  | .ok planned =>
                    materializePlanned lower companionTexts platform
                      (platform.getD .unknown) s userId host call
                      previous planned

end Materialize

end AccessStack.Accounts
