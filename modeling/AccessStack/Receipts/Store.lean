import AccessStack.Effect
import AccessStack.Rows
import AccessStack.Text

/-!
# Mutation receipts

The receipt of a mutation goes from `reserved` over `executing` to
`completed`. `InMemoryMutationReceiptStore` keeps the receipts in a map,
`FileMutationReceiptStore` in files named by the digest of a key. A call runs
to its end before the next.

`JSON.parse(JSON.stringify(value))` is modelled by what it does to a value,
so a file holds the receipt its text denotes. The results are JavaScript
values over any type of numbers.
-/

set_option autoImplicit false

namespace AccessStack.Receipts
open AccessStack.Text AccessStack.Rows

section Values

/-- The prototype of an object: `Object.prototype`, `null` or another object. -/
inductive Prototype where
  | object | null | other
  deriving DecidableEq

/-- A JavaScript value. Finite numbers other than `-0` are of the type `ν`, an
object is the list of its entries, `hole` stands for a missing element of an
array, and `other` for anything else under its `typeof`. -/
inductive Value (ν : Type) where
  | null
  | bool (b : Bool)
  | num (n : ν)
  | negativeZero
  | nonFinite
  | str (s : String)
  | arr (items : List (Value ν))
  | obj (prototype : Prototype) (fields : List (String × Value ν))
  | hole
  | other (type : String)

variable {ν : Type}

def Value.isHole : Value ν → Bool
  | .hole => true
  | _ => false

mutual

/-- `JSON.parse(JSON.stringify(value))` on a parsed result, where `nonFinite`
and `other` do not occur. -/
def cloneValue [Zero ν] : Value ν → Value ν
  | .null => .null
  | .bool b => .bool b
  | .num n => .num n
  | .negativeZero => .num 0
  | .nonFinite => .null
  | .str s => .str s
  | .arr items => .arr (cloneItems items)
  | .obj _ fields => .obj .object (cloneFields fields)
  | .hole => .null
  | .other _ => .null

def cloneItems [Zero ν] : List (Value ν) → List (Value ν)
  | [] => []
  | v::rest => cloneValue v::cloneItems rest

def cloneFields [Zero ν] : List (String × Value ν) → List (String × Value ν)
  | [] => []
  | (key, v)::rest => (key, cloneValue v)::cloneFields rest

end

end Values

section Errors

inductive IssueCode where
  | tooSmall | tooBig | invalidFormat
  deriving DecidableEq

inductive ReceiptError where
  | zod (issues : List (String × IssueCode))
  | app (code message : String)
  deriving DecidableEq

def invalidPublicResult (path : List String) (reason : String) : ReceiptError :=
  let location := if path = [] then "result" else "result." ++ ".".intercalate path
  .app "INVALID_ARGUMENT" ("Mutation receipt " ++ location ++ " contains an invalid " ++ reason ++ ".")

end Errors

section Results

variable {ν : Type}

/-- The letters and digits of `a-z0-9` in `key.toLowerCase()`. The two
capitals outside ASCII are those whose lower case contains such a letter. -/
def normalizedKey (key : String) : List Char :=
  key.toList.filterMap fun c =>
    if c.isUpper then some c.toLower
    else if c.toNat = 0x130 then some 'i'
    else if c.toNat = 0x212a then some 'k'
    else if c.isLower || c.isDigit then some c
    else none

def includesText (text part : List Char) : Bool := text.tails.any (part.isPrefixOf ·)

def isSensitiveReceiptField (key : String) : Bool :=
  let normalized := normalizedKey key
  normalized = "confirmationid".toList || includesText normalized "authorization".toList ||
    normalized = "token".toList || "token".toList.isSuffixOf normalized ||
    includesText normalized "credential".toList || includesText normalized "password".toList ||
    includesText normalized "secret".toList || "apikey".toList.isSuffixOf normalized ||
    includesText normalized "privatekey".toList

/-- The prototype after `result["__proto__"] = value`. -/
def inherited (prototype : Prototype) : Value ν → Prototype
  | .null => .null
  | .arr _ | .obj _ _ => .other
  | _ => prototype

mutual

def parsePublicResultValue (path : List String) : Value ν → Except ReceiptError (Value ν)
  | .null => .ok .null
  | .bool b => .ok (.bool b)
  | .str s => .ok (.str s)
  | .num n => .ok (.num n)
  | .negativeZero => .ok .negativeZero
  | .nonFinite => .error (invalidPublicResult path "non-finite number")
  | .arr items => (parseItems path 0 items).map .arr
  | .obj prototype fields =>
    if prototype = .other then .error (invalidPublicResult path "unsupported object")
    else (parseFields path .object fields).map fun r => .obj r.1 r.2
  | .hole => .error (invalidPublicResult path "unsupported undefined")
  | .other type => .error (invalidPublicResult path ("unsupported " ++ type))

/-- `value.map`, which passes over the holes of an array. -/
def parseItems (path : List String) : ℕ → List (Value ν) → Except ReceiptError (List (Value ν))
  | _, [] => .ok []
  | index, v::rest => do
    let item ← (if v.isHole then .ok v else parsePublicResultValue (path ++ [toString index]) v)
    let items ← parseItems path (index+1) rest
    return item::items

/-- The loop over the entries. An assignment to `__proto__` makes no entry. -/
def parseFields (path : List String) :
    Prototype → List (String × Value ν) → Except ReceiptError (Prototype × List (String × Value ν))
  | prototype, [] => .ok (prototype, [])
  | prototype, (key, v)::rest =>
    if isSensitiveReceiptField key then
      .error (invalidPublicResult (path ++ [key]) "sensitive field")
    else do
      let entry ← parsePublicResultValue (path ++ [key]) v
      if key = "__proto__" then parseFields path (inherited prototype entry) rest
      else do
        let r ← parseFields path prototype rest
        return (r.1, (key, entry)::r.2)

end

def parseMutationReceiptPublicResult (v : Value ν) : Except ReceiptError (Value ν) :=
  parsePublicResultValue [] v

end Results

section Receipts

inductive SourceControlOperationName where
  | gitCreateBranch | gitStagePaths | gitUnstagePaths | gitCommit | gitMergeBranch | gitSyncBranch
  | gitPushBranch | gitPublishTag | githubGetRepository | githubGetCommitChecks
  | githubMaterializeActionsArtifact | githubStartCommitChecksWatch | githubGetCommitChecksWatches
  | githubWaitCommitChecksWatch | githubWorkflowOperation | githubCreateRepository
  | githubGetPullRequest | githubCreatePullRequest | githubClosePullRequest
  | githubMarkPullRequestReady | githubMergePullRequest | githubRead | githubIssueWrite
  deriving DecidableEq

inductive MutationOperation where
  | sourceControl (name : SourceControlOperationName)
  | oracleReleaseAdvance
  deriving DecidableEq

structure MutationReceiptIdentity where
  workspaceId : String
  operation : MutationOperation
  targetResource : String
  canonicalArgumentsDigest : String
  idempotencyKey : String
  deriving DecidableEq

inductive MutationReceiptState where
  | reserved | executing | completed | reconciliationRequired
  deriving DecidableEq

def stateName : MutationReceiptState → String
  | .reserved => "reserved"
  | .executing => "executing"
  | .completed => "completed"
  | .reconciliationRequired => "reconciliation_required"

structure MutationReceipt (ν : Type) where
  identity : MutationReceiptIdentity
  state : MutationReceiptState
  result : Option (Value ν)

inductive Disposition where
  | execute | replayCompleted | reconciliationRequired
  deriving DecidableEq

structure MutationReceiptReservation (ν : Type) where
  disposition : Disposition
  receipt : MutationReceipt ν

/-- `z.string().min(1)`, with `.max(limit)` where there is a limit. -/
def lengthIssues (name : String) (limit : Option ℕ) (s : String) : List (String × IssueCode) :=
  (if utf16Length s < 1 then [(name, .tooSmall)] else []) ++
    if limit.any (· < utf16Length s) then [(name, .tooBig)] else []

def trimmedIdentity (identity : MutationReceiptIdentity) : MutationReceiptIdentity :=
  { identity with
    workspaceId := trim identity.workspaceId
    targetResource := trim identity.targetResource
    idempotencyKey := trim identity.idempotencyKey }

def identityIssues (identity : MutationReceiptIdentity) : List (String × IssueCode) :=
  lengthIssues "workspaceId" none identity.workspaceId ++
    lengthIssues "targetResource" (some 512) identity.targetResource ++
    (if exactly isHexLower 64 identity.canonicalArgumentsDigest then []
      else [("canonicalArgumentsDigest", .invalidFormat)]) ++
    lengthIssues "idempotencyKey" (some 512) identity.idempotencyKey

/-- `mutationReceiptIdentitySchema.parse` -/
def parseIdentity (identity : MutationReceiptIdentity) :
    Except ReceiptError MutationReceiptIdentity :=
  let issues := identityIssues (trimmedIdentity identity)
  if issues = [] then .ok (trimmedIdentity identity) else .error (.zod issues)

variable {ν : Type}

/-- A receipt is either one the store holds or the value of a text it has
written, so its fields are those of the interface. -/
def parseMutationReceipt (value : MutationReceipt ν) : Except ReceiptError (MutationReceipt ν) := do
  let identity ← parseIdentity value.identity
  match value.state, value.result with
  | .completed, none =>
    .error (.app "INVALID_ARGUMENT" "Completed mutation receipt is missing result.")
  | .completed, some result =>
    return ⟨identity, .completed, some (← parseMutationReceiptPublicResult result)⟩
  | _, some _ =>
    .error (.app "INVALID_ARGUMENT" "Non-completed mutation receipt cannot contain result.")
  | state, none => return ⟨identity, state, none⟩

def assertSameIdentity (existing requested : MutationReceiptIdentity) : Except ReceiptError Unit :=
  if existing = requested then .ok ()
  else .error (.app "SOURCE_CONTROL_IDEMPOTENCY_CONFLICT"
    "The idempotency key is already associated with a different source-control mutation identity.")

def requireExistingReceipt (existing : Option (MutationReceipt ν))
    (identity : MutationReceiptIdentity) : Except ReceiptError (MutationReceipt ν) :=
  match existing with
  | none => .error (.app "EXECUTION_STATE_INVALID"
      "Mutation receipt does not exist for this idempotency key.")
  | some receipt => do
    let parsedIdentity ← parseIdentity identity
    let parsedExisting ← parseMutationReceipt receipt
    assertSameIdentity parsedExisting.identity parsedIdentity
    return parsedExisting

def invalidTransition (source target : MutationReceiptState) : ReceiptError :=
  .app "EXECUTION_STATE_INVALID" ("Mutation receipt cannot transition from " ++ stateName source ++
    " to " ++ stateName target ++ ".")

variable [Zero ν]

def cloneReceipt (receipt : MutationReceipt ν) : MutationReceipt ν :=
  { receipt with result := receipt.result.map cloneValue }

def reserveMutationReceipt (existing : Option (MutationReceipt ν))
    (identity : MutationReceiptIdentity) : Except ReceiptError (MutationReceiptReservation ν) := do
  let parsedIdentity ← parseIdentity identity
  match existing with
  | none => return ⟨.execute, ⟨parsedIdentity, .reserved, none⟩⟩
  | some receipt =>
    let parsedExisting ← parseMutationReceipt receipt
    assertSameIdentity parsedExisting.identity parsedIdentity
    if parsedExisting.state = .completed then
      return ⟨.replayCompleted, cloneReceipt parsedExisting⟩
    else return ⟨.reconciliationRequired, cloneReceipt parsedExisting⟩

def markMutationReceiptExecuting (existing : Option (MutationReceipt ν))
    (identity : MutationReceiptIdentity) : Except ReceiptError (MutationReceipt ν) := do
  let receipt ← requireExistingReceipt existing identity
  if receipt.state ≠ .reserved then .error (invalidTransition receipt.state .executing)
  else return ⟨receipt.identity, .executing, none⟩

def markMutationReceiptReconciliationRequired (existing : Option (MutationReceipt ν))
    (identity : MutationReceiptIdentity) : Except ReceiptError (MutationReceipt ν) := do
  let receipt ← requireExistingReceipt existing identity
  if receipt.state = .reconciliationRequired then return receipt
  else if receipt.state ≠ .executing then
    .error (invalidTransition receipt.state .reconciliationRequired)
  else return ⟨receipt.identity, .reconciliationRequired, none⟩

def markMutationReceiptCompleted (result : Value ν) (existing : Option (MutationReceipt ν))
    (identity : MutationReceiptIdentity) : Except ReceiptError (MutationReceipt ν) := do
  let receipt ← requireExistingReceipt existing identity
  if receipt.state ≠ .executing ∧ receipt.state ≠ .reconciliationRequired then
    .error (invalidTransition receipt.state .completed)
  else return ⟨receipt.identity, .completed, some (← parseMutationReceiptPublicResult result)⟩

end Receipts

section Stores

variable (ν : Type)

inductive Call where
  | reserve (identity : MutationReceiptIdentity)
  | markExecuting (identity : MutationReceiptIdentity)
  | markReconciliationRequired (identity : MutationReceiptIdentity)
  | markCompleted (identity : MutationReceiptIdentity) (result : Value ν)
  | get (idempotencyKey : String)

inductive Answer where
  | reservation (reservation : MutationReceiptReservation ν)
  | receipt (receipt : MutationReceipt ν)
  | found (receipt : Option (MutationReceipt ν))

/-- A map from keys to receipts, or a directory from names to receipts. -/
abbrev ReceiptMap := String → Option (MutationReceipt ν)

variable {ν} [Zero ν]

def ReceiptMap.set (key : String) (receipt : MutationReceipt ν) (m : ReceiptMap ν) : ReceiptMap ν :=
  Function.update m key (some receipt)

namespace InMemory

def reserve (identity : MutationReceiptIdentity) : Effect (ReceiptMap ν) ReceiptError (Answer ν) := do
  let parsedIdentity ← Effect.lift (parseIdentity identity)
  let existing ← Effect.look fun receipts => receipts parsedIdentity.idempotencyKey
  let reservation ← Effect.lift (reserveMutationReceipt existing parsedIdentity)
  if reservation.disposition = .execute then
    Effect.alter (ReceiptMap.set parsedIdentity.idempotencyKey (cloneReceipt reservation.receipt))
  return .reservation ⟨reservation.disposition, cloneReceipt reservation.receipt⟩

/-- The three methods that mark a receipt. -/
def mark (transition : Option (MutationReceipt ν) → MutationReceiptIdentity →
      Except ReceiptError (MutationReceipt ν)) (identity : MutationReceiptIdentity) :
    Effect (ReceiptMap ν) ReceiptError (Answer ν) := do
  let parsedIdentity ← Effect.lift (parseIdentity identity)
  let existing ← Effect.look fun receipts => receipts parsedIdentity.idempotencyKey
  let receipt ← Effect.lift (transition existing parsedIdentity)
  Effect.alter (ReceiptMap.set parsedIdentity.idempotencyKey (cloneReceipt receipt))
  return .receipt (cloneReceipt receipt)

def get (idempotencyKey : String) : Effect (ReceiptMap ν) ReceiptError (Answer ν) := do
  let receipt ← Effect.look fun receipts => receipts idempotencyKey
  return .found (receipt.map cloneReceipt)

def perform : Call ν → Effect (ReceiptMap ν) ReceiptError (Answer ν)
  | .reserve identity => reserve identity
  | .markExecuting identity => mark markMutationReceiptExecuting identity
  | .markReconciliationRequired identity => mark markMutationReceiptReconciliationRequired identity
  | .markCompleted identity result => mark (markMutationReceiptCompleted result) identity
  | .get idempotencyKey => get idempotencyKey

end InMemory

namespace Filed

/-- `createHash("sha256")`, taken to be free of collisions. -/
structure Digest where
  sha256 : String → String
  injective : Function.Injective sha256

variable (digest : Digest)

def receiptPath (idempotencyKey : String) : String := digest.sha256 idempotencyKey ++ ".json"

def readReceipt (idempotencyKey : String) :
    Effect (ReceiptMap ν) ReceiptError (Option (MutationReceipt ν)) := do
  let serialized ← Effect.look fun files => files (receiptPath digest idempotencyKey)
  match serialized with
  | none => return none
  | some parsed => return some (← Effect.lift (parseMutationReceipt parsed))

def writeReceipt (receipt : MutationReceipt ν) : Effect (ReceiptMap ν) ReceiptError Unit := do
  let content ← Effect.lift (parseMutationReceipt receipt)
  Effect.alter (ReceiptMap.set (receiptPath digest receipt.identity.idempotencyKey) (cloneReceipt content))

def reserve (identity : MutationReceiptIdentity) : Effect (ReceiptMap ν) ReceiptError (Answer ν) := do
  let existing ← readReceipt digest identity.idempotencyKey
  let reservation ← Effect.lift (reserveMutationReceipt existing identity)
  if reservation.disposition = .execute then writeReceipt digest reservation.receipt
  return .reservation reservation

def mark (transition : Option (MutationReceipt ν) → MutationReceiptIdentity →
      Except ReceiptError (MutationReceipt ν)) (identity : MutationReceiptIdentity) :
    Effect (ReceiptMap ν) ReceiptError (Answer ν) := do
  let existing ← readReceipt digest identity.idempotencyKey
  let receipt ← Effect.lift (transition existing identity)
  writeReceipt digest receipt
  return .receipt receipt

def get (idempotencyKey : String) : Effect (ReceiptMap ν) ReceiptError (Answer ν) := do
  return .found (← readReceipt digest idempotencyKey)

def perform : Call ν → Effect (ReceiptMap ν) ReceiptError (Answer ν)
  | .reserve identity => reserve digest identity
  | .markExecuting identity => mark digest markMutationReceiptExecuting identity
  | .markReconciliationRequired identity =>
    mark digest markMutationReceiptReconciliationRequired identity
  | .markCompleted identity result => mark digest (markMutationReceiptCompleted result) identity
  | .get idempotencyKey => get digest idempotencyKey

end Filed

/-- The answers and the store after a sequence of calls. -/
def runCalls (perform : Call ν → Effect (ReceiptMap ν) ReceiptError (Answer ν)) :
    ReceiptMap ν → List (Call ν) → List (Except ReceiptError (Answer ν)) × ReceiptMap ν
  | store, [] => ([], store)
  | store, call::rest =>
    let r := perform call store
    let later := runCalls perform r.2 rest
    (r.1::later.1, later.2)

def noReceipts : ReceiptMap ν := fun _ => none

end Stores

end AccessStack.Receipts
