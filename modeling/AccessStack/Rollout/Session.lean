import AccessStack.Json
import AccessStack.Rollout.Catalog

/-!
# The contract rollout of a session

The rollout state names the active contract revision and, while a rollout is
prepared, its candidate; after a promotion it names the revision before. The
calls work on the stored state, on the copy in memory and on the connectors
that are attached. Every build expects the revision of its own catalog.
-/

set_option autoImplicit false

namespace AccessStack.Rollout
open AccessStack.Text AccessStack.JsonText

section States

def isMcpContractRolloutState (state : McpContractRolloutState) : Bool :=
  isMcpContractRevision state.activeContractRevision &&
    state.candidateContractRevision.all (fun candidate =>
      isMcpContractRevision candidate && candidate ≠ state.activeContractRevision) &&
    state.previousContractRevision.all fun previous =>
      isMcpContractRevision previous && previous ≠ state.activeContractRevision

/-- The state of a session without a stored one. -/
def initialState (revision : String) : McpContractRolloutState := ⟨revision, none, none, none, none⟩

inductive Refusal where
  | buildContractMismatch
  | activeContractMismatch
  | candidateContractMismatch
  | candidateNotReady
  | previousContractMismatch
  | previousNotReady
  deriving DecidableEq

def Refusal.code : Refusal → String
  | .buildContractMismatch => "build_contract_mismatch"
  | .activeContractMismatch => "active_contract_mismatch"
  | .candidateContractMismatch => "candidate_contract_mismatch"
  | .candidateNotReady => "candidate_not_ready"
  | .previousContractMismatch => "previous_contract_mismatch"
  | .previousNotReady => "previous_not_ready"

/-- The new state, and whether it was the state already. -/
abbrev Change := Except Refusal (McpContractRolloutState × Bool)

variable (expected : String)

def prepareMcpContractRolloutState (state : McpContractRolloutState)
    (expectedActive expectedCandidate now : String) : Change :=
  if expectedCandidate ≠ expected then .error .buildContractMismatch
  else if state.activeContractRevision ≠ expectedActive then .error .activeContractMismatch
  else if state.candidateContractRevision.any (· ≠ expectedCandidate) then .error .candidateContractMismatch
  else if state.activeContractRevision = expectedCandidate ∨
      state.candidateContractRevision = some expectedCandidate then .ok (state, true)
  else .ok ({ state with candidateContractRevision := some expectedCandidate, preparedAt := some now }, false)

def replaceMcpContractCandidateState (state : McpContractRolloutState)
    (expectedActive expectedPreviousCandidate expectedCandidate now : String) :
    Except Refusal McpContractRolloutState :=
  if expectedCandidate ≠ expected then .error .buildContractMismatch
  else if state.activeContractRevision ≠ expectedActive then .error .activeContractMismatch
  else if expectedPreviousCandidate = expectedCandidate ∨ expectedPreviousCandidate = expectedActive ∨
      expectedCandidate = expectedActive ∨ state.candidateContractRevision ≠
        some expectedPreviousCandidate then
    .error .candidateContractMismatch
  else .ok { state with candidateContractRevision := some expectedCandidate, preparedAt := some now }

def promoteMcpContractRolloutState (state : McpContractRolloutState)
    (expectedActive expectedCandidate : String) (candidateReadyRevision : Option String)
    (now : String) : Change :=
  if expectedCandidate ≠ expected then .error .buildContractMismatch
  else if state.activeContractRevision = expectedCandidate ∧ state.candidateContractRevision = none then
    .ok (state, true)
  else if state.activeContractRevision ≠ expectedActive then .error .activeContractMismatch
  else if state.candidateContractRevision ≠ some expectedCandidate then .error .candidateContractMismatch
  else if candidateReadyRevision ≠ some expectedCandidate then .error .candidateNotReady
  else .ok (⟨expectedCandidate, none, some state.activeContractRevision, none, some now⟩, false)

def rollbackMcpContractRolloutState (state : McpContractRolloutState)
    (expectedActive expectedPrevious : String) (previousReadyRevision : Option String)
    (now : String) : Change :=
  if expectedActive ≠ expected then .error .buildContractMismatch
  else if state.activeContractRevision = expectedPrevious ∧ state.candidateContractRevision =
    some expectedActive then
    .ok (state, true)
  else if state.activeContractRevision ≠ expectedActive then .error .activeContractMismatch
  else if state.previousContractRevision ≠ some expectedPrevious then .error .previousContractMismatch
  else if previousReadyRevision ≠ some expectedPrevious then .error .previousNotReady
  else .ok (⟨expectedPrevious, some expectedActive, none, some now, none⟩, false)

end States

section Connectors

structure ConnectorRuntimeIdentity where
  connectorInstanceId : String
  connectionGeneration : ℤ
  processStartedAt : String
  catalogContractRevision : String
  deriving DecidableEq

structure Connector where
  isOpen : Bool
  ready : Bool
  protocolVersion : ℕ
  contractCompatible : Option Bool
  runtime : Option ConnectorRuntimeIdentity
  deriving DecidableEq

def edgeProtocolVersion : ℕ := 3

def isConnectorContractCompatible (runtime : Option ConnectorRuntimeIdentity)
    (state : McpContractRolloutState) : Bool :=
  runtime.any fun runtime =>
    isMcpContractRevision runtime.catalogContractRevision &&
      (runtime.catalogContractRevision = state.activeContractRevision ||
        some runtime.catalogContractRevision = state.candidateContractRevision)

/-- What the language does with dates, collation and JSON texts. -/
structure Language (Tool : Type) where
  parseDate : String → Option ℤ
  after : String → String → Bool
  encodedBytes : List Tool → ℕ

variable {Tool : Type} (language : Language Tool)

def isPreferredConnectorRuntime (candidate current : Option ConnectorRuntimeIdentity) : Bool :=
  let candidateStartedAt := language.parseDate ((candidate.map (·.processStartedAt)).getD "")
  let currentStartedAt := language.parseDate ((current.map (·.processStartedAt)).getD "")
  match candidateStartedAt, currentStartedAt with
  | some candidateStartedAt, some currentStartedAt =>
    if candidateStartedAt ≠ currentStartedAt then currentStartedAt < candidateStartedAt
    else
      let candidateId := (candidate.map (·.connectorInstanceId)).getD ""
      let currentId := (current.map (·.connectorInstanceId)).getD ""
      if candidateId = currentId then
        decide ((current.map (·.connectionGeneration)).getD 0 <
          (candidate.map (·.connectionGeneration)).getD 0)
      else language.after candidateId currentId
  | some _, none => true
  | none, _ => false

def isPreferredConnectorAttachment (candidate current : Connector) : Bool :=
  candidate.protocolVersion = edgeProtocolVersion && current.protocolVersion = edgeProtocolVersion &&
    isPreferredConnectorRuntime language candidate.runtime current.runtime

/-- A connector that the selection does not pass over. -/
def selectable (protocolVersion : Option ℕ) (requireCompatible : Bool)
    (requiredContractRevision : Option String) (connector : Connector) : Bool :=
  connector.ready && protocolVersion.all (· = connector.protocolVersion) &&
    (!requireCompatible || connector.contractCompatible = some true) &&
    requiredContractRevision.all (fun revision =>
      connector.runtime.map (·.catalogContractRevision) = some revision) &&
    connector.isOpen

/-- One turn of the selection: the selected connector gives way to a preferred one. -/
def selectConnector (eligible : Connector → Bool) (selected : Option Connector) (connector : Connector) :
    Option Connector :=
  if !eligible connector then selected
  else
    match selected with
    | none => some connector
    | some current =>
      if isPreferredConnectorAttachment language connector current then some connector else selected

/-- A socket that is closing is looked at with the attachment it is given, as
if it were open; in the list it is a connector that is open. -/
def selectReadyConnector (protocolVersion : Option ℕ) (requireCompatible : Bool)
    (requiredContractRevision : Option String) (connectors : List Connector) : Option Connector :=
  connectors.foldl
    (selectConnector language (selectable protocolVersion requireCompatible requiredContractRevision)) none

def getReadyConnectorForContractRevision (connectors : List Connector)
    (revision : String) : Option Connector :=
  selectReadyConnector language (some edgeProtocolVersion) false (some revision) connectors

end Connectors

variable {Tool : Type} (language : Language Tool)

section Session

structure Build (Tool : Type) where
  catalog : EdgeMcpCatalog Tool

def Build.expected (build : Build Tool) : String := build.catalog.catalogMetadata.contractRevision

structure Session (Tool : Type) where
  build : Build Tool
  storage : Storage Tool
  contractRolloutState : McpContractRolloutState
  hasPersistedContractRolloutState : Bool
  activeMcpCatalog : Option (EdgeMcpCatalog Tool)
  connectors : List Connector
  companions : ℕ

def Value.asRollout : Value Tool → Option McpContractRolloutState
  | .rollout state => if isMcpContractRolloutState state then some state else none
  | _ => none

/-- The stored rollout state, where it is one. -/
def storedRollout (storage : Storage Tool) : Option McpContractRolloutState :=
  (storage.lookup .rollout).bind Value.asRollout

/-- The constructor of the session. -/
def boot (build : Build Tool) (storage : Storage Tool) (connectors : List Connector)
    (companions : ℕ) : Session Tool :=
  let current := storedRollout storage
  let state := current.getD (initialState build.expected)
  let snapshot := readMcpCatalogSnapshot storage state.activeContractRevision
  ⟨build, storage, state, current.isSome,
    snapshot.or (if state.activeContractRevision = build.expected then some build.catalog else none),
    connectors, companions⟩

def refreshOpenConnectorContractCompatibility (s : Session Tool) : Session Tool :=
  { s with connectors := s.connectors.map fun connector =>
      { connector with
        contractCompatible :=
          some (isConnectorContractCompatible connector.runtime s.contractRolloutState) } }

structure Reply where
  status : ℕ
  body : List (String × Json)

def refuse (status : ℕ) (error : String) (details : List (String × Json)) : Reply :=
  ⟨status, ("error", .str error) :: details⟩

def revisionDetail (name : String) (revision : Option String) : List (String × Json) :=
  revision.toList.map fun revision => (name, .str revision)

/-- `Object.keys(input).sort().join(",")` -/
def joinedKeys (fields : List (String × Json)) : String :=
  String.intercalate "," ((fields.map (·.1)).dedup.insertionSort (· ≤ ·))

def stringField (fields : List (String × Json)) (name : String) : Option String :=
  match field fields name with
  | some (.str value) => some value
  | _ => none

def revisionField (fields : List (String × Json)) (name : String) : Option String :=
  (stringField fields name).filter isMcpContractRevision

/-- Two revisions and nothing else. -/
def revisionPair (first second : String) : Json → Option (String × String)
  | .obj fields =>
    if joinedKeys fields ≠ first ++ "," ++ second then none
    else (revisionField fields first).bind fun a => (revisionField fields second).map fun b => (a, b)
  | _ => none

end Session

section Bootstrap

def bootstrapInput : Json → Option String
  | .obj fields =>
    if joinedKeys fields ≠ "expectedActiveContractRevision,expectedState" ∨
        stringField fields "expectedState" ≠ some "absent" then none
    else revisionField fields "expectedActiveContractRevision"
  | _ => none

def bootstrapped (s : Session Tool) (storage : Storage Tool) (state : McpContractRolloutState)
    (alreadyBootstrapped : Bool) : Reply × Session Tool :=
  (⟨200, [("status", .str (if alreadyBootstrapped then "already-bootstrapped" else "bootstrapped")),
      ("activeContractRevision", .str state.activeContractRevision)]⟩,
    { s with
      storage
      contractRolloutState := state
      hasPersistedContractRolloutState := true
      activeMcpCatalog := some s.build.catalog })

def bootstrapContractRollout (s : Session Tool) (input : Json) : Reply × Session Tool :=
  match bootstrapInput input with
  | none => (refuse 400 "invalid_contract_bootstrap" [], s)
  | some expectedActive =>
    if expectedActive ≠ s.build.expected then (refuse 409 "build_contract_mismatch" [], s)
    else
      match s.storage.lookup .rollout with
      | some current =>
        match current.asRollout with
        | none => (refuse 409 "contract_rollout_already_initialized" [], s)
        | some state =>
          if state = initialState s.build.expected ∧
              (readMcpCatalogSnapshot s.storage s.build.expected).isSome then
            bootstrapped s s.storage state true
          else (refuse 409 "contract_rollout_already_initialized" [], s)
      | none =>
        if s.storage.entries ≠ [] then (refuse 409 "bootstrap_storage_not_empty" [], s)
        else if s.connectors ≠ [] ∨ s.companions ≠ 0 then (refuse 409 "bootstrap_connections_present" [], s)
        else
          let state := initialState s.build.expected
          match persistMcpCatalogSnapshot language.encodedBytes s.storage s.build.catalog with
          | .error _ => (refuse 503 "contract_bootstrap_unavailable" [], s)
          | .ok storage => bootstrapped s (storage.insert .rollout (.rollout state)) state false

end Bootstrap

section Prepare

/-- The snapshot of the build, persisted where it cannot be read. -/
def ensureBuildSnapshot (s : Session Tool) : Except String (Storage Tool) :=
  if (readMcpCatalogSnapshot s.storage s.build.expected).isSome then .ok s.storage
  else persistMcpCatalogSnapshot language.encodedBytes s.storage s.build.catalog

def prepareContractRollout (s : Session Tool) (input : Json)
    (now : String) : Except String Reply × Session Tool :=
  match revisionPair "expectedActiveContractRevision" "expectedCandidateContractRevision" input with
  | none => (.ok (refuse 400 "invalid_contract_preparation" []), s)
  | some (expectedActive, expectedCandidate) =>
    match storedRollout s.storage with
    | none => (.ok (refuse 503 "contract_rollout_state_unavailable" []), s)
    | some stored =>
      match prepareMcpContractRolloutState s.build.expected stored expectedActive expectedCandidate now with
      | .error refusal =>
        (.ok (refuse 409 refusal.code (("activeContractRevision", .str stored.activeContractRevision) ::
          revisionDetail "candidateContractRevision" stored.candidateContractRevision)), s)
      | .ok (state, alreadyPrepared) =>
        match ensureBuildSnapshot language s with
        | .error message => (.error message, s)
        | .ok storage =>
          let storage := if alreadyPrepared then storage else storage.insert .rollout (.rollout state)
          let s := { s with storage, contractRolloutState := state, hasPersistedContractRolloutState := true }
          let s := if alreadyPrepared then s else refreshOpenConnectorContractCompatibility s
          let candidate := state.candidateContractRevision
          let status := if !alreadyPrepared then "prepared"
            else if candidate = none then "already-active" else "already-prepared"
          (.ok ⟨200, [("status", .str status),
            ("activeContractRevision", .str state.activeContractRevision)] ++
            revisionDetail "candidateContractRevision" candidate ++
            [("candidateConnectorReady", .bool (candidate.any fun revision =>
              (getReadyConnectorForContractRevision language s.connectors revision).isSome))]⟩, s)

structure ReplacementInput where
  operationId : String
  expectedActive : String
  previousCandidate : String
  nextCandidate : String

def replacementInput : Json → Option ReplacementInput
  | .obj fields =>
    if joinedKeys fields ≠ "expectedActiveContractRevision,expectedCandidateContractRevision," ++
        "expectedPreviousCandidateContractRevision,operationId" then none
    else
      ((stringField fields "operationId").filter isVersionedUuid).bind fun operationId =>
      (revisionField fields "expectedActiveContractRevision").bind fun expectedActive =>
      (revisionField fields "expectedPreviousCandidateContractRevision").bind fun previousCandidate =>
      (revisionField fields "expectedCandidateContractRevision").map fun nextCandidate =>
        ⟨operationId, expectedActive, previousCandidate, nextCandidate⟩
  | _ => none

def ReplacementInput.receipt (input : ReplacementInput) (replacedAt : Option String) : ReplacementReceipt :=
  ⟨input.operationId, input.expectedActive, input.previousCandidate, input.nextCandidate, replacedAt⟩

def Value.asReceipt : Value Tool → Option ReplacementReceipt
  | .receipt stored => some stored
  | _ => none

def replaced (s : Session Tool) (input : ReplacementInput) (replayed : Bool) : Reply :=
  ⟨200, [("status", .str (if replayed then "already-replaced" else "replaced")),
    ("operationId", .str input.operationId),
    ("activeContractRevision", .str input.expectedActive),
      ("candidateContractRevision", .str input.nextCandidate), ("candidateConnectorReady",
      .bool (getReadyConnectorForContractRevision language s.connectors input.nextCandidate).isSome)]⟩

/-- The replacement of an operation that has a receipt. -/
def replayReplacement (s : Session Tool) (input : ReplacementInput) (stored : McpContractRolloutState)
    (receipt : Value Tool) : Reply × Session Tool :=
  match receipt.asReceipt with
  | none => (refuse 409 "operation_id_conflict" [], s)
  | some receipt =>
    if receipt ≠ input.receipt receipt.replacedAt ∨ receipt.replacedAt = none then
      (refuse 409 "operation_id_conflict" [], s)
    else if stored.activeContractRevision ≠ input.expectedActive ∨
        stored.candidateContractRevision ≠ some input.nextCandidate ∨ stored.preparedAt ≠ receipt.replacedAt ∨
        (readMcpCatalogSnapshot s.storage input.nextCandidate).isNone then
      (refuse 409 "replacement_state_changed" [], s)
    else
      let s := { s with contractRolloutState := stored, hasPersistedContractRolloutState := true }
      (replaced language s input true, s)

def replaceContractCandidate (s : Session Tool) (input : Json) (now : String) : Reply × Session Tool :=
  match replacementInput input with
  | none => (refuse 400 "invalid_candidate_replacement" [], s)
  | some input =>
    if input.nextCandidate ≠ s.build.expected then (refuse 409 "build_contract_mismatch" [], s)
    else
      match storedRollout s.storage with
      | none => (refuse 503 "contract_rollout_state_unavailable" [], s)
      | some stored =>
        match s.storage.lookup (.receipt input.operationId) with
        | some receipt => replayReplacement language s input stored receipt
        | none =>
          match replaceMcpContractCandidateState s.build.expected stored input.expectedActive
            input.previousCandidate
            input.nextCandidate now with
          | .error refusal => (refuse 409 refusal.code [], s)
          | .ok state =>
            if (getReadyConnectorForContractRevision language s.connectors
              input.previousCandidate).isSome then
              (refuse 409 "previous_candidate_in_use" [], s)
            else if (readMcpCatalogSnapshot s.storage input.expectedActive).isNone then
              (refuse 503 "active_catalog_unavailable" [], s)
            else
              match ensureBuildSnapshot language s with
              | .error _ => (refuse 503 "candidate_replacement_unavailable" [], s)
              | .ok storage =>
                let s := refreshOpenConnectorContractCompatibility { s with
                  storage := (storage.insert .rollout (.rollout state)).insert (.receipt input.operationId)
                    (.receipt (input.receipt state.preparedAt))
                  contractRolloutState := state
                  hasPersistedContractRolloutState := true }
                (replaced language s input false, s)

end Prepare

section Promote

/-- The revision that the ready connector of a revision announces. -/
def readyRevision (s : Session Tool) (revision : String) : Option String :=
  (getReadyConnectorForContractRevision language s.connectors revision).bind fun connector =>
    connector.runtime.map (·.catalogContractRevision)

/-- The end of a promotion and of a rollback: the snapshot of the new active
revision is read before the state is stored. -/
def activate (s : Session Tool) (state : McpContractRolloutState) (already : Bool) (missing : String)
    (body : McpContractRolloutState → List (String × Json)) : Reply × Session Tool :=
  if already then (⟨200, body s.contractRolloutState⟩, refreshOpenConnectorContractCompatibility s)
  else
    match readMcpCatalogSnapshot s.storage state.activeContractRevision with
    | none => (refuse 503 missing [], s)
    | some catalog =>
      (⟨200, body state⟩, refreshOpenConnectorContractCompatibility { s with
        storage := s.storage.insert .rollout (.rollout state)
        contractRolloutState := state
        activeMcpCatalog := some catalog })

def promoteContractRollout (s : Session Tool) (input : Json) (now : String) : Reply × Session Tool :=
  match revisionPair "expectedActiveContractRevision" "expectedCandidateContractRevision" input with
  | none => (refuse 400 "invalid_contract_promotion" [], s)
  | some (expectedActive, expectedCandidate) =>
    match promoteMcpContractRolloutState s.build.expected s.contractRolloutState expectedActive
      expectedCandidate
      (readyRevision language s expectedCandidate) now with
    | .error refusal =>
      (refuse 409 refusal.code ([("expectedContractRevision", .str s.build.expected),
        ("activeContractRevision", .str s.contractRolloutState.activeContractRevision)] ++
        revisionDetail "candidateContractRevision" s.contractRolloutState.candidateContractRevision), s)
    | .ok (state, alreadyPromoted) =>
      activate s state alreadyPromoted "promoted_catalog_snapshot_unavailable" fun state =>
        [("status", .str (if alreadyPromoted then "already-promoted" else "promoted")),
          ("activeContractRevision", .str state.activeContractRevision)]

def rollbackContractRollout (s : Session Tool) (input : Json) (now : String) : Reply × Session Tool :=
  match revisionPair "expectedActiveContractRevision" "expectedPreviousContractRevision" input with
  | none => (refuse 400 "invalid_contract_rollback" [], s)
  | some (expectedActive, expectedPrevious) =>
    match rollbackMcpContractRolloutState s.build.expected s.contractRolloutState expectedActive
      expectedPrevious
      (readyRevision language s expectedPrevious) now with
    | .error refusal =>
      (refuse 409 refusal.code
        (("activeContractRevision", .str s.contractRolloutState.activeContractRevision) ::
        revisionDetail "previousContractRevision" s.contractRolloutState.previousContractRevision), s)
    | .ok (state, alreadyRolledBack) =>
      activate s state alreadyRolledBack "rollback_catalog_snapshot_unavailable" fun state =>
        [("status", .str (if alreadyRolledBack then "already-rolled-back" else "rolled-back")),
          ("activeContractRevision", .str state.activeContractRevision)] ++
        revisionDetail "candidateContractRevision" state.candidateContractRevision

end Promote

section Events

inductive Call where
  | bootstrap (input : Json)
  | prepare (input : Json) (now : String)
  | replace (input : Json) (now : String)
  | promote (input : Json) (now : String)
  | rollback (input : Json) (now : String)

def answer (s : Session Tool) : Call → Except String Reply × Session Tool
  | .bootstrap input => ((bootstrapContractRollout language s input).map Except.ok id)
  | .prepare input now => prepareContractRollout language s input now
  | .replace input now => ((replaceContractCandidate language s input now).map Except.ok id)
  | .promote input now => ((promoteContractRollout language s input now).map Except.ok id)
  | .rollback input now => ((rollbackContractRollout language s input now).map Except.ok id)

inductive Event (Tool : Type) where
  | call (call : Call)
  | connect (protocolVersion : ℕ)
  | announce (index : ℕ) (runtime : Option ConnectorRuntimeIdentity)
  | closing (index : ℕ)
  | closed (index : ℕ)
  | companions (count : ℕ)
  | restart (build : Build Tool)
  | write (name : String)
  | erase (name : String)

/-- A connector announces its runtime. -/
def announced (state : McpContractRolloutState) (runtime : Option ConnectorRuntimeIdentity)
    (connector : Connector) : Connector :=
  { connector with ready := true,
                   contractCompatible := some (isConnectorContractCompatible runtime state), runtime }

def step (s : Session Tool) : Event Tool → Session Tool
  | .call call => (answer language s call).2
  | .connect protocolVersion => { s with connectors := s.connectors ++ [⟨true, false,
      protocolVersion, none, none⟩] }
  | .announce index runtime =>
    { s with connectors := s.connectors.modify index (announced s.contractRolloutState runtime) }
  | .closing index =>
    { s with connectors :=
        s.connectors.modify index fun connector => { connector with isOpen := false } }
  | .closed index => { s with connectors := s.connectors.eraseIdx index }
  | .companions count => { s with companions := count }
  | .restart build => boot build s.storage s.connectors s.companions
  | .write name => { s with storage := s.storage.insert (.unrelated name) .unrelated }
  | .erase name => { s with storage := s.storage.erase (.unrelated name) }

end Events

end AccessStack.Rollout
