import AccessStack.Interleaving
import AccessStack.Json
import AccessStack.Text

/-!
# Pruning releases

`ReleasePruneService.prune` as a routine of file operations and questions to
the host. An operation is atomic and has an answer, or throws and changes
nothing. Nobody reads what is in the lock file, so the model keeps whose it is.
-/

set_option autoImplicit false

namespace AccessStack.Prune
open AccessStack.Runs AccessStack.JsonText

section Contracts

inductive Kind where
  | release
  | staging
  deriving DecidableEq

def Kind.text : Kind → String
  | .release => "release"
  | .staging => "staging"

def Kind.directory : Kind → String
  | .release => "releases"
  | .staging => "staging"

structure Target where
  kind : Kind
  name : String
  deriving DecidableEq

/-- `selection` is `eligible` or not given. -/
structure Input where
  operationId : String
  dryRun : Bool
  reconcile : Bool
  expectedStateSha256 : Option String
  selection : Bool
  targets : Option (List Target)
  expectedPlanSha256 : Option String
  deriving DecidableEq

inductive Status where
  | planned
  | completed
  deriving DecidableEq

inductive ItemStatus where
  | eligible
  | deleted
  | absent
  deriving DecidableEq

structure Item where
  target : Target
  status : ItemStatus
  deriving DecidableEq

structure Result where
  operationId : String
  status : Status
  stateSha256 : String
  planSha256 : Option String
  items : List Item
  deriving DecidableEq

structure Receipt where
  fingerprint : String
  result : Result
  deriving DecidableEq

/-- The release ids of the lifecycle state. -/
structure Lifecycle where
  active : Option String
  previous : Option String
  candidate : Option String
  deriving DecidableEq

/-- `parseState` is the schema of the lifecycle state, `uuid` the format of an
operation id and `before` the order of `localeCompare`. -/
structure Env where
  root : String
  sha256 : String → String
  uuid : String → Bool
  parseState : String → Option Lifecycle
  before : Target → Target → Bool

def isSha (text : String) : Bool := Text.exactly Text.isHexLower 64 text

def includesDots (text : String) : Bool := (text.toList.zip text.toList.tail).contains ('.', '.')

def nameSchema (name : String) : Bool :=
  Text.bounded Char.isAlphanum (fun c => c.isAlphanum || c = '.' || c = '_' || c = '-') 95 name &&
    !includesDots name

def digits (cs : List Char) : Option (List Char) :=
  match cs.span Char.isDigit with
  | ([], _) => none
  | (_, rest) => some rest

/-- After the three numbers of a version. -/
def suffix : List Char → Bool
  | [] => true
  | '-'::c::cs => c.isAlphanum && cs.all fun c => c.isAlphanum || c = '.' || c = '-'
  | _ => false

def isVersion (cs : List Char) : Bool :=
  match digits cs with
  | some ('.'::cs) =>
    match digits cs with
    | some ('.'::cs) =>
      match digits cs with
      | some cs => suffix cs
      | none => false
    | _ => false
  | _ => false

/-- `RELEASE_ID` -/
def releaseId (name : String) : Bool := isVersion name.toList

/-- `slice(0, -9)` -/
def stem (name : String) : String := String.ofList (name.toList.take (name.toList.length - 9))

/-- `STAGE_ID` -/
def stageId (name : String) : Bool :=
  match name.toList.drop (name.toList.length - 9) with
  | '.'::cs => cs.length = 8 && cs.all Char.isAlphanum && releaseId (stem name)
  | _ => false

def Target.isGenerated (t : Target) : Bool :=
  match t.kind with
  | .release => releaseId t.name
  | .staging => stageId t.name

/-- The release that the directory belongs to. -/
def Target.releaseId (t : Target) : String :=
  match t.kind with
  | .release => t.name
  | .staging => stem t.name

def inputSchema (env : Env) (input : Input) : Bool :=
  env.uuid input.operationId && input.expectedStateSha256.all isSha && input.expectedPlanSha256.all isSha &&
  input.targets.all (fun targets => 1 ≤ targets.length && targets.length ≤ 5 &&
    targets.all (nameSchema ·.name) && targets.Nodup) &&
  if input.reconcile then
    input.dryRun && !input.selection && input.targets.isNone && input.expectedStateSha256.isNone &&
      input.expectedPlanSha256.isNone
  else
    (input.dryRun || input.expectedStateSha256.isSome) &&
    if input.selection then input.targets.isNone && (input.dryRun || input.expectedPlanSha256.isSome)
    else input.targets.isSome && input.expectedPlanSha256.isNone

def resultSchema (env : Env) (result : Result) : Bool :=
  env.uuid result.operationId && isSha result.stateSha256 && result.planSha256.all isSha &&
  result.items.all (nameSchema ·.target.name) && result.items.length ≤ 5

def Target.toJson (t : Target) : Json := .obj [("kind", .str t.kind.text), ("name", .str t.name)]

def optional (key : String) (value : Option Json) : List (String × Json) :=
  (value.map fun v => (key, v)).toList

def fingerprint (env : Env) (input : Input) : String :=
  env.sha256 (stringify (.obj (
    optional "selection" (if input.selection then some (.str "eligible") else none) ++
    optional "targets" (input.targets.map fun targets => .arr (targets.map Target.toJson)) ++
    optional "expectedStateSha256" (input.expectedStateSha256.map .str) ++
    optional "expectedPlanSha256" (input.expectedPlanSha256.map .str))))

def planSha256 (env : Env) (stateSha256 : String) (targets : List Target) : String :=
  env.sha256 (stringify
    (.obj [("stateSha256", .str stateSha256), ("targets", .arr (targets.map Target.toJson))]))

def path (env : Env) (t : Target) : String := env.root ++ "/" ++ t.kind.directory ++ "/" ++ t.name

def quarantine (operationId : String) (i : ℕ) : String := ".release-prune-" ++ operationId ++ "-" ++
    toString i

end Contracts

section Disk

inductive Node where
  | directory
  | file
  | link
  deriving DecidableEq

structure Lock where
  party : ℕ
  operationId : String
  deriving DecidableEq

structure Disk where
  stateFile : String
  /-- Where the link `current` leads. -/
  current : String
  entries : Kind → List (String × Node)
  lock : Option Lock
  receiptRoot : Bool
  receipts : String → Option Receipt
  temps : String → Option Receipt
  /-- What has been deleted, by which operation. -/
  deleted : List (String × Target)

/-- What the host says at an operation. -/
structure Host where
  fails : Bool
  aborted : Bool
  /-- A directory is physical and canonical, a file is one, and so on. -/
  physical : Bool
  activeTasks : Bool
  processes : String → Bool
  mountPoints : List String

inductive Op where
  | aborted
  | physicalRoots
  | lstatReceiptRoot
  | physicalReceiptRoot
  | lstatReceipt (operationId : String)
  | readReceipt (operationId : String)
  | readState
  | activeTasks
  | processes
  | mountPoints
  | topLevel
  | realpathCurrent
  | readdir (kind : Kind)
  | realpathParent (kind : Kind)
  | lstat (target : Target)
  | sameDevice (target : Target)
  | siblings (kind : Kind)
  | lstatLock
  | mkdirReceiptRoot
  | createReceipt (operationId : String) (receipt : Receipt)
  | openLock (operationId : String)
  | writeLock
  | closeLock
  | rename (operationId : String) (target : Target) (i : ℕ)
  | rm (operationId : String) (target : Target) (i : ℕ)
  | writeTemp (operationId : String) (receipt : Receipt)
  | publish (operationId : String)
  | removeLock
  deriving DecidableEq

/-- What an operation answers. Where a name may be taken or missing the answer
says so. -/
def Answer : Op → Type
  | .aborted | .physicalRoots | .lstatReceiptRoot | .physicalReceiptRoot | .lstatReceipt _ | .activeTasks
  | .topLevel | .realpathParent _ | .sameDevice _ | .siblings _ | .lstatLock | .createReceipt _ _
  | .openLock _ | .writeTemp _ _ => Bool
  | .readReceipt _ => Option Receipt
  | .readState => Option String
  | .processes => String → Bool
  | .mountPoints => List String
  | .realpathCurrent => String
  | .readdir _ => List String
  | .lstat _ => Option Node
  | .mkdirReceiptRoot | .writeLock | .closeLock | .rename _ _ _ | .rm _ _ _ | .publish _ | .removeLock => Unit

def Disk.node (d : Disk) (kind : Kind) (name : String) : Option Node :=
  ((d.entries kind).find? (·.1 = name)).map (·.2)

def Disk.without (d : Disk) (kind : Kind) (name : String) : List (String × Node) :=
  (d.entries kind).filter (·.1 ≠ name)

/-- `writeFile` with the flag `wx`. -/
def Disk.createReceipt (d : Disk) (operationId : String) (receipt : Receipt) : Disk × Option Bool :=
  if (d.receipts operationId).isSome then (d, some false)
  else ({ d with receipts := Function.update d.receipts operationId (some receipt) }, some true)

def Disk.openLock (d : Disk) (party : ℕ) (operationId : String) : Disk × Option Bool :=
  if d.lock.isSome then (d, some false) else ({ d with lock := some ⟨party, operationId⟩ }, some true)

/-- An empty directory may be replaced, which is up to the host. -/
def Disk.rename (d : Disk) (operationId : String) (t : Target) (i : ℕ) : Disk × Option Unit :=
  match d.node t.kind t.name with
  | none => (d, none)
  | some node =>
    if (d.node t.kind (quarantine operationId i)).all (· = .directory) then
      let rest := (d.without t.kind t.name).filter (·.1 ≠ quarantine operationId i)
      ({ d with entries := Function.update d.entries t.kind (rest ++
        [(quarantine operationId i, node)]) }, some ())
    else (d, none)

def Disk.rm (d : Disk) (operationId : String) (t : Target) (i : ℕ) : Disk × Option Unit :=
  match d.node t.kind (quarantine operationId i) with
  | none => (d, none)
  | some _ =>
    ({ d with entries := Function.update d.entries t.kind (d.without t.kind (quarantine operationId i))
              deleted := d.deleted ++ [(operationId, t)] }, some ())

def Disk.writeTemp (d : Disk) (operationId : String) (receipt : Receipt) : Disk × Option Bool :=
  if (d.temps operationId).isSome then (d, some false)
  else ({ d with temps := Function.update d.temps operationId (some receipt) }, some true)

def Disk.publish (d : Disk) (operationId : String) : Disk × Option Unit :=
  match d.temps operationId with
  | none => (d, none)
  | some receipt =>
    ({ d with receipts := Function.update d.receipts operationId (some receipt)
              temps := Function.update d.temps operationId none }, some ())

/-- An operation that the host lets through; none is what it throws. -/
def perform (party : ℕ) : (e : Op) → Disk → Host → Disk × Option (Answer e)
  | .aborted, d, host => (d, some host.aborted)
  | .physicalRoots, d, host => (d, some host.physical)
  | .lstatReceiptRoot, d, _ => (d, some d.receiptRoot)
  | .physicalReceiptRoot, d, host => (d, some host.physical)
  | .lstatReceipt operationId, d, host => (d, some ((d.receipts operationId).isSome && host.physical))
  | .readReceipt operationId, d, _ => (d, some (d.receipts operationId))
  | .readState, d, host => (d, some (if host.physical then some d.stateFile else none))
  | .activeTasks, d, host => (d, some host.activeTasks)
  | .processes, d, host => (d, some host.processes)
  | .mountPoints, d, host => (d, some host.mountPoints)
  | .topLevel, d, host => (d, some host.physical)
  | .realpathCurrent, d, _ => (d, some d.current)
  | .readdir kind, d, _ => (d, some ((d.entries kind).map (·.1)))
  | .realpathParent _, d, host => (d, some host.physical)
  | .lstat t, d, _ => (d, some (d.node t.kind t.name))
  | .sameDevice _, d, host => (d, some host.physical)
  | .siblings kind, d, _ => (d, some ((d.entries kind).all (·.2 ≠ .link)))
  | .lstatLock, d, _ => (d, some d.lock.isSome)
  | .mkdirReceiptRoot, d, _ => ({ d with receiptRoot := true }, some ())
  | .createReceipt operationId receipt, d, _ => d.createReceipt operationId receipt
  | .openLock operationId, d, _ => d.openLock party operationId
  | .writeLock, d, _ => (d, some ())
  | .closeLock, d, _ => (d, some ())
  | .rename operationId t i, d, _ => d.rename operationId t i
  | .rm operationId t i, d, _ => d.rm operationId t i
  | .writeTemp operationId receipt, d, _ => d.writeTemp operationId receipt
  | .publish operationId, d, _ => d.publish operationId
  | .removeLock, d, _ => ({ d with lock := none }, some ())

def effect (party : ℕ) (e : Op) (d : Disk) (host : Host) : Disk × Option (Answer e) :=
  if host.fails && e ≠ .aborted then (d, none) else perform party e d host

end Disk

section Service

inductive Failure where
  | app (code message : String)
  /-- What a schema or the file system throws. -/
  | thrown
  deriving DecidableEq

abbrev Pruning (α : Type) := Routine (fun e => Option (Answer e)) Failure α

def deny (message : String) : Failure := .app "PERMISSION_DENIED" message
def conflict (message : String) : Failure := .app "EXECUTION_STATE_INVALID" message
def unknown (message : String) : Failure := .app "EXECUTION_OUTCOME_UNKNOWN" message

def fail {α : Type} (x : Failure) : Pruning α := .fail x

def require (ok : Bool) (x : Failure) : Pruning Unit := Routine.require ok x

def call (e : Op) : Pruning (Answer e) :=
  .act e fun
    | some answer => .ret answer
    | none => .fail .thrown

variable (env : Env)

def checkSignal : Pruning Unit := do
  let aborted : Bool ← call .aborted
  require (!aborted) (.app "OPERATION_CANCELLED" "Release prune was cancelled.")

def notPhysical : Failure := deny "Release prune root is not a physical canonical directory."

def reconcile (input : Input) : Pruning Result := do
  let present : Bool ← call .lstatReceiptRoot
  require present (unknown "Release prune completion has no durable receipt.")
  let physical : Bool ← call .physicalReceiptRoot
  require physical notPhysical
  let isFile : Bool ← call (.lstatReceipt input.operationId)
  require isFile (unknown "Release prune receipt cannot prove completion.")
  match ← call (.readReceipt input.operationId) with
  | none => fail .thrown
  | some record =>
    require (isSha record.fingerprint) (unknown "Release prune receipt identity is invalid.")
    require (resultSchema env record.result) .thrown
    require (record.result.status = .completed && record.result.operationId = input.operationId)
      (unknown "Release prune receipt does not match the operation.")
    pure record.result

structure Plan where
  stateSha256 : String
  active : String
  protectedIds : List String
  deriving DecidableEq

def readLifecycle (input : Input) : Pruning Plan := do
  match ← call .readState with
  | none => fail (deny "Release lifecycle state is not a physical file.")
  | some rawState =>
    match env.parseState rawState with
    | none => fail .thrown
    | some state =>
      let stateSha256 := env.sha256 rawState
      require (input.expectedStateSha256.all (· = stateSha256))
        (conflict "Release lifecycle state changed since the prune plan.")
      match state.active, state.previous with
      | some active, some previous =>
        pure ⟨stateSha256, active, [active, previous] ++ state.candidate.toList⟩
      | _, _ => fail (deny "Pruning requires active and previous releases.")

/-- The receipt that the operation has already. -/
def existing (input : Input) : Pruning (Option Result) := do
  checkSignal
  let present : Bool ← call .lstatReceiptRoot
  if present then do
    let physical : Bool ← call .physicalReceiptRoot
    require physical notPhysical
  match ← call (.readReceipt input.operationId) with
  | none => pure none
  | some parsed =>
    require (parsed.fingerprint = fingerprint env input)
      (conflict "Prune operationId was reused with different input.")
    require (resultSchema env parsed.result) .thrown
    pure (some parsed.result)

def unlessDryRun (input : Input) : Pruning (Option Result) :=
  if input.dryRun then pure none else existing env input

def isEligible (protectedIds : List String) (t : Target) : Bool :=
  t.isGenerated && !includesDots t.name && !protectedIds.contains t.releaseId

def selectEligible (protectedIds : List String) : Pruning (List Target) := do
  let releases : List String ← call (.readdir .release)
  let staging : List String ← call (.readdir .staging)
  let eligible := (releases.map (Target.mk .release) ++ staging.map (Target.mk .staging)).filter
    (isEligible protectedIds)
  pure ((eligible.mergeSort env.before).take 5)

def selectTargets (input : Input) (plan : Plan) : Pruning (List Target) :=
  if input.selection then selectEligible env plan.protectedIds else pure (input.targets.getD [])

/-- What is asked once before the targets are checked. -/
structure Survey where
  processes : String → Bool
  mountPoints : List String
  topLevel : Bool
  current : String

def mountedIn (mountPoints : List String) (absolute : String) : Bool :=
  mountPoints.any fun mount => mount = absolute || (absolute ++ "/").toList.isPrefixOf mount.toList

def checkTarget (plan : Plan) (survey : Survey) (t : Target) : Pruning Unit := do
  require (t.isGenerated && !includesDots t.name && t.name.toList.head? ≠ some '.')
    (deny "Prune target has an invalid generated release name.")
  require (!plan.protectedIds.contains t.releaseId) (deny "Prune target references a protected release.")
  let canonical : Bool ← call (.realpathParent t.kind)
  require canonical (deny "Prune parent is not canonical.")
  let node : Option Node ← call (.lstat t)
  require (node = some .directory) (deny "Prune target is absent or is not a physical directory.")
  let sameDevice : Bool ← call (.sameDevice t)
  require sameDevice (deny "Prune target is on an unexpected filesystem.")
  require (!survey.processes (path env t)) (deny "Prune target is referenced by a running process.")
  require (!mountedIn survey.mountPoints (path env t)) (deny "Prune target contains an active mountpoint.")
  let plain : Bool ← call (.siblings t.kind)
  require plain (deny "Release parent has unrecognized symlink references.")
  require survey.topLevel (deny "An unrecognized installation symlink requires review.")
  require (survey.current ≠ path env t) (deny "Current runtime cannot be pruned.")

def checkTargets (plan : Plan) (survey : Survey) : List Target → Pruning Unit
  | [] => pure ()
  | t::rest => do
    checkTarget env plan survey t
    checkTargets plan survey rest

/-- The receipt that was there before. -/
def priorReceipt (input : Input) : Pruning Result := do
  let isFile : Bool ← call (.lstatReceipt input.operationId)
  require isFile (deny "Prune receipt must be a physical file.")
  match ← call (.readReceipt input.operationId) with
  | none => fail .thrown
  | some prior =>
    require (prior.fingerprint = fingerprint env input)
      (conflict "Release prune operationId has a different receipt.")
    require (resultSchema env prior.result) .thrown
    pure prior.result

/-- A plan without targets. -/
def completeEmpty (input : Input) (planned : Result) : Pruning Result := do
  let unresolved : Bool ← call .lstatLock
  require (!unresolved) (conflict "Unreconciled release prune lock prevents an empty completion.")
  call .mkdirReceiptRoot
  let physical : Bool ← call .physicalReceiptRoot
  require physical notPhysical
  let completed := { planned with status := .completed }
  require (resultSchema env completed) .thrown
  let created : Bool ← call (.createReceipt input.operationId ⟨fingerprint env input, completed⟩)
  if created then pure completed else priorReceipt env input

def stateUnchanged (plan : Plan) (x : Failure) : Pruning Unit := do
  match ← call .readState with
  | none => fail .thrown
  | some rawState => require (env.sha256 rawState = plan.stateSha256) x

def deleteTarget (input : Input) (plan : Plan) (i : ℕ) (t : Target) : Pruning Item := do
  let changed := conflict "Prune preconditions changed during operation."
  checkSignal
  let canonical : Bool ← call (.realpathParent t.kind)
  require canonical changed
  stateUnchanged env plan changed
  let current : String ← call .realpathCurrent
  require (current = path env ⟨.release, plan.active⟩) changed
  let activeTasks : Bool ← call .activeTasks
  require (!activeTasks) changed
  let node : Option Node ← call (.lstat t)
  require node.isSome .thrown
  require (node = some .directory) (deny "Prune target changed type.")
  let live : String → Bool ← call .processes
  require (!live (path env t)) (deny "A process began using the prune target.")
  let latestMounts : List String ← call .mountPoints
  require (!mountedIn latestMounts (path env t)) (deny "A mountpoint was added inside the prune target.")
  call (.rename input.operationId t i)
  call (.rm input.operationId t i)
  pure ⟨t, .deleted⟩

def deleteTargets (input : Input) (plan : Plan) : ℕ → List Target → Pruning (List Item)
  | _, [] => pure []
  | i, t::rest => do
    let item ← deleteTarget env input plan i t
    let items ← deleteTargets input plan (i+1) rest
    pure (item :: items)

/-- The `try` of the deletion, with the lock. -/
def underLock (input : Input) (plan : Plan) (planned : Result) (first : Target)
    (rest : List Target) : Pruning Result := do
  let changed := conflict "Prune state or process references changed after the plan."
  call .writeLock
  checkSignal
  call .closeLock
  stateUnchanged env plan changed
  let activeTasks : Bool ← call .activeTasks
  require (!activeTasks) changed
  let live : String → Bool ← call .processes
  require (!live (path env first)) changed
  let finished ← deleteTargets env input plan 0 (first::rest)
  let completed := { planned with status := .completed, items := finished }
  require (resultSchema env completed) .thrown
  let written : Bool ← call (.writeTemp input.operationId ⟨fingerprint env input, completed⟩)
  require written .thrown
  call (.publish input.operationId)
  pure completed

/-- `finally`: only a success gives the lock back. -/
def conclude (outcome : Except Failure Result) : Pruning Result := do
  (call .closeLock).rescue fun _ => pure ()
  match outcome with
  | .ok completed => do
    call .removeLock
    pure completed
  | .error x => fail x

def deleteSelected (input : Input) (plan : Plan) (planned : Result) (first : Target) (rest : List Target) :
    Pruning Result := do
  call .mkdirReceiptRoot
  let physical : Bool ← call .physicalReceiptRoot
  require physical notPhysical
  let opened : Bool ← call (.openLock input.operationId)
  require opened (conflict "Another prune or unreconciled prune lock exists.")
  (underLock env input plan planned first rest).ensuing conclude

def carryOut (input : Input) (plan : Plan) : Pruning Result := do
  let activeTasks : Bool ← call .activeTasks
  require (!activeTasks) (deny "Pruning is unavailable while background tasks are active.")
  let processes : String → Bool ← call .processes
  let mountPoints : List String ← call .mountPoints
  let topLevel : Bool ← call .topLevel
  let current : String ← call .realpathCurrent
  require (current = path env ⟨.release, plan.active⟩)
    (deny "Current symlink does not match the active release.")
  let selected ← selectTargets env input plan
  let planSha256 := if input.selection then some (planSha256 env plan.stateSha256 selected) else none
  require (input.dryRun || !input.selection || input.expectedPlanSha256 = planSha256)
    (conflict "Eligible release inventory changed since the dry-run plan.")
  checkTargets env plan ⟨processes, mountPoints, topLevel, current⟩ selected
  let planned : Result :=
    ⟨input.operationId, .planned, plan.stateSha256, planSha256, selected.map (⟨·, .eligible⟩)⟩
  require (resultSchema env planned) .thrown
  if input.dryRun then pure planned
  else
    match selected with
    | [] => completeEmpty env input planned
    | first::rest => deleteSelected env input plan planned first rest

def prune (input : Input) : Pruning Result := do
  require (inputSchema env input) .thrown
  checkSignal
  let physical : Bool ← call .physicalRoots
  require physical notPhysical
  if input.reconcile then reconcile env input
  else do
    let plan ← readLifecycle env input
    match ← unlessDryRun env input with
    | some result => pure result
    | none => carryOut env input plan

end Service

section World

/-- What others may change: the lifecycle state with the link, and the entries
of `releases` and `staging`. -/
inductive Change where
  | lifecycle (stateFile current : String)
  | entries (kind : Kind) (entries : List (String × Node))

def Disk.change (d : Disk) : Change → Disk
  | .lifecycle stateFile current => { d with stateFile, current }
  | .entries kind entries => { d with entries := Function.update d.entries kind entries }

def machine (env : Env) : Machine Op Disk Host Change Input Failure Result (fun e => Option (Answer e)) where
  routine := prune env
  effect := effect
  change := Disk.change

abbrev State := Together Disk Input (fun e => Option (Answer e)) Failure Result

/-- The lifecycle state and the link change only while no call is running. -/
def Allowed (s : State) : Change → Prop
  | .lifecycle _ _ => s.Idle
  | .entries _ _ => True

instance (s : State) : (change : Change) → Decidable (Allowed s change)
  | .lifecycle _ _ => inferInstanceAs (Decidable s.Idle)
  | .entries _ _ => inferInstanceAs (Decidable True)

end World

end AccessStack.Prune
