import AccessStack.Emission
import AccessStack.OAuth.Owner

/-!
# The records of the update control identity server

`UpdateControlIdentityOAuth` on its storage. Each kind of key is a map of its
own. Every `put` and `delete` is an event that says why it is made; three
events change nothing and say that a session, a factor or a token has been
accepted. The log keeps the events, and nothing reads it.

The hash, the keyed hash of a counter and the case mappings of Unicode are
arbitrary functions. A secret is sealed for the text it is bound to, and an
access token is the term `signed key claims`. What is read is what the server
has written, so that the shape of a record is not checked again.
-/

set_option autoImplicit false

namespace AccessStack.Identity
open AccessStack.Text AccessStack.OAuth

section Records

inductive UpdateControlRole where
  | admin
  | user
  deriving DecidableEq

inductive StoredUpdateControlRole where
  | admin
  | user
  | operator
  | viewer
  | other (name : String)
  deriving DecidableEq

inductive UserStatus where
  | active
  | revoked
  deriving DecidableEq

structure UserOf (ρ : Type) where
  id : String
  displayName : String
  email : String
  role : ρ
  status : UserStatus
  deriving DecidableEq

abbrev UpdateControlUser := UserOf UpdateControlRole

abbrev StoredUpdateControlUser := UserOf StoredUpdateControlRole

structure OAuthClient where
  clientId : String
  redirectUris : List String
  grantTypes : List String
  responseTypes : List String
  deriving DecidableEq

structure AuthorizationRequest where
  clientId : String
  redirectUri : String
  codeChallenge : String
  scopes : List String
  resource : String
  clientState : Option String
  deriving DecidableEq

inductive LoginKind where
  | mcp (request : AuthorizationRequest)
  | oauth (request : AuthorizationRequest)
  | admin
  | user
  deriving DecidableEq

structure PendingLogin where
  state : String
  kind : LoginKind
  expiresAtMs : ℕ
  deriving DecidableEq

/-- A secret with the text it is bound to. -/
structure EncryptedSecret where
  secret : String
  context : String
  deriving DecidableEq

inductive EnrollmentKind where
  | bootstrap
  | join
  deriving DecidableEq

structure PendingEnrollment where
  state : String
  kind : EnrollmentKind
  role : StoredUpdateControlRole
  encryptedSecret : EncryptedSecret
  expiresAtMs : ℕ
  inviteHash : Option String
  deriving DecidableEq

structure AuthorizationCodeRecord where
  clientId : String
  redirectUri : String
  codeChallenge : String
  scopes : List String
  resource : String
  expiresAtMs : ℕ
  userId : String
  deriving DecidableEq

structure RefreshTokenRecord where
  clientId : String
  scopes : List String
  resource : String
  expiresAt : ℕ
  signingVersion : String
  userId : String
  deriving DecidableEq

structure SigningMaterial where
  key : String
  version : String
  deriving DecidableEq

inductive BootstrapStatus where
  | ready
  | completed
  | expired
  deriving DecidableEq

structure BootstrapOperation where
  operationId : String
  status : BootstrapStatus
  expiresAt : ℕ
  deriving DecidableEq

structure InvitationRecord where
  role : StoredUpdateControlRole
  createdByUserId : String
  expiresAt : ℕ
  deriving DecidableEq

structure HumanSessionRecord where
  userId : String
  csrfToken : String
  expiresAt : ℕ
  deriving DecidableEq

structure TotpCredential where
  userId : String
  encryptedSecret : EncryptedSecret
  lastAcceptedCounter : Option ℕ
  recoveryCodeHashes : List String
  failedAttempts : ℕ
  lockedUntilMs : Option ℕ
  deriving DecidableEq

structure AccessClaims where
  iss : String
  aud : String
  sub : String
  scope : String
  clientId : String
  userId : String
  iat : ℕ
  exp : ℕ
  jti : String
  deriving DecidableEq

inductive Bearer where
  | signed (key : String) (claims : AccessClaims)
  | text (value : String)
  deriving DecidableEq

end Records

section Storage

/-- A session of the people who log in, or one of the administrators of the
version before, whose keys are under the OAuth prefix. -/
inductive SessionKey where
  | human (hash : String)
  | admin (hash : String)
  deriving DecidableEq

inductive OAuthKey where
  | adminSession (hash : String)
  | clientCount
  | client (clientId : String)
  | loginPending (state : String)
  | code (hash : String)
  | refresh (hash : String)
  | revoked (jti : String)
  | signing
  deriving DecidableEq

structure Store where
  userIds : List String
  users : String → Option StoredUpdateControlUser
  emails : String → Option String
  credentials : String → Option TotpCredential
  bootstrapActive : Option BootstrapOperation
  bootstraps : String → Option BootstrapOperation
  invitations : String → Option InvitationRecord
  enrollments : String → Option PendingEnrollment
  sessions : SessionKey → Option HumanSessionRecord
  clientCount : ℕ
  clients : String → Option OAuthClient
  logins : String → Option PendingLogin
  codes : String → Option AuthorizationCodeRecord
  refresh : String → Option RefreshTokenRecord
  revoked : String → Option ℕ
  signing : Option SigningMaterial

def Store.empty : Store where
  userIds := []
  users := fun _ => none
  emails := fun _ => none
  credentials := fun _ => none
  bootstrapActive := none
  bootstraps := fun _ => none
  invitations := fun _ => none
  enrollments := fun _ => none
  sessions := fun _ => none
  clientCount := 0
  clients := fun _ => none
  logins := fun _ => none
  codes := fun _ => none
  refresh := fun _ => none
  revoked := fun _ => none
  signing := none

/-- What a user comes from. -/
inductive Origin where
  | bootstrap
  | invitation (hash : String)
  deriving DecidableEq

inductive Factor where
  | counter (n : ℕ)
  | recovery (hash : String)
  deriving DecidableEq

/-- How a person has completed an authorization request. -/
inductive Completion where
  | login
  | session (key : SessionKey)
  deriving DecidableEq

inductive GrantKey where
  | code (hash : String)
  | refresh (hash : String)
  deriving DecidableEq

inductive Event where
  | created (user : StoredUpdateControlUser) (origin : Origin)
  | indexed (emailHash userId : String)
  | listed (userIds : List String)
  | enrolled (credential : TotpCredential) (counter : ℕ)
  | userStored (userId : String) (user : StoredUpdateControlUser)
  | failed (credential : TotpCredential) (now : ℕ)
  | accepted (factor : Factor) (credential : TotpCredential) (now : ℕ)
  | bootstrapStored (operation : BootstrapOperation)
  | bootstrapActivated (operation : BootstrapOperation)
  | bootstrapCleared
  | invited (hash : String) (invitation : InvitationRecord)
  | invitationClosed (hash : String)
  | enrollmentStored (pending : PendingEnrollment)
  | enrollmentClosed (state : String)
  | sessionOpened (key : SessionKey) (session : HumanSessionRecord)
  | sessionClosed (key : SessionKey)
  | presented (key : SessionKey) (session : HumanSessionRecord) (user : UpdateControlUser) (now : ℕ)
  | clientStored (client : OAuthClient)
  | clientsCounted (count : ℕ)
  | loginStored (pending : PendingLogin)
  | loginClosed (state : String)
  | completed (state : String) (completion : Completion) (hash : String) (record : AuthorizationCodeRecord)
  | exchanged (hash : String) (record : AuthorizationCodeRecord) (user : UpdateControlUser)
    (redirectUri codeVerifier : String)
  | refreshed (hash : String) (record : RefreshTokenRecord) (user : UpdateControlUser)
  | refreshClosed (hash : String)
  | signingStored (material : SigningMaterial)
  | issued (origin : GrantKey) (hash : String) (record : RefreshTokenRecord) (key : String)
    (claims : AccessClaims)
  | accessRevoked (jti : String) (expiresAt : ℕ)
  | authenticated (key : String) (claims : AccessClaims) (user : UpdateControlUser)
  | forgotten (key : OAuthKey)
  deriving DecidableEq

def Store.forget (s : Store) : OAuthKey → Store
  | .adminSession hash => { s with sessions := Function.update s.sessions (.admin hash) none }
  | .clientCount => { s with clientCount := 0 }
  | .client clientId => { s with clients := Function.update s.clients clientId none }
  | .loginPending state => { s with logins := Function.update s.logins state none }
  | .code hash => { s with codes := Function.update s.codes hash none }
  | .refresh hash => { s with refresh := Function.update s.refresh hash none }
  | .revoked jti => { s with revoked := Function.update s.revoked jti none }
  | .signing => { s with signing := none }

/-- What an event does to the storage. -/
def Store.after (s : Store) : Event → Store
  | .created user _ => { s with users := Function.update s.users user.id (some user) }
  | .indexed emailHash userId => { s with emails := Function.update s.emails emailHash (some userId) }
  | .listed userIds => { s with userIds }
  | .enrolled credential _ =>
    { s with credentials := Function.update s.credentials credential.userId (some credential) }
  | .userStored userId user => { s with users := Function.update s.users userId (some user) }
  | .failed credential _ =>
    { s with credentials := Function.update s.credentials credential.userId (some credential) }
  | .accepted _ credential _ =>
    { s with credentials := Function.update s.credentials credential.userId (some credential) }
  | .bootstrapStored operation =>
    { s with bootstraps := Function.update s.bootstraps operation.operationId (some operation) }
  | .bootstrapActivated operation => { s with bootstrapActive := some operation }
  | .bootstrapCleared => { s with bootstrapActive := none }
  | .invited hash invitation => { s with invitations := Function.update s.invitations hash (some invitation) }
  | .invitationClosed hash => { s with invitations := Function.update s.invitations hash none }
  | .enrollmentStored pending =>
    { s with enrollments := Function.update s.enrollments pending.state (some pending) }
  | .enrollmentClosed state => { s with enrollments := Function.update s.enrollments state none }
  | .sessionOpened key session => { s with sessions := Function.update s.sessions key (some session) }
  | .sessionClosed key => { s with sessions := Function.update s.sessions key none }
  | .presented _ _ _ _ => s
  | .clientStored client => { s with clients := Function.update s.clients client.clientId (some client) }
  | .clientsCounted count => { s with clientCount := count }
  | .loginStored pending => { s with logins := Function.update s.logins pending.state (some pending) }
  | .loginClosed state => { s with logins := Function.update s.logins state none }
  | .completed _ _ hash record => { s with codes := Function.update s.codes hash (some record) }
  | .exchanged hash _ _ _ _ => { s with codes := Function.update s.codes hash none }
  | .refreshed hash _ _ => { s with refresh := Function.update s.refresh hash none }
  | .refreshClosed hash => { s with refresh := Function.update s.refresh hash none }
  | .signingStored material => { s with signing := some material }
  | .issued _ hash record _ _ => { s with refresh := Function.update s.refresh hash (some record) }
  | .accessRevoked jti expiresAt => { s with revoked := Function.update s.revoked jti (some expiresAt) }
  | .authenticated _ _ _ => s
  | .forgotten key => s.forget key

/-- The storage, and what has happened to it. -/
structure State where
  store : Store
  log : List Event

def State.after (w : State) (e : Event) : State := ⟨w.store.after e, w.log ++ [e]⟩

def State.empty : State := ⟨.empty, []⟩

abbrev Serve := Emits State.after

end Storage

section Environment

structure Config where
  publicBaseUrl : String
  mcpUrl : String
  bootstrapAdminEmail : String
  scopes : List String
  accessTokenTtlSeconds : ℕ
  refreshTokenTtlSeconds : ℕ
  redirectAllowed : String → Bool

structure Environment where
  config : Config
  sha256Base64Url : String → String
  /-- The HMAC of a counter under a secret, as bytes. -/
  hmacSha1 : String → ℕ → List ℕ
  toLowerCase : String → String
  toLowerCase_trim : ∀ s, toLowerCase (trim (toLowerCase (trim s))) = toLowerCase (trim s)
  toUpperCase : String → String
  toUpperCase_digits : ∀ s, s.toList.all Char.isDigit = true → toUpperCase s = s
  encode : String → AccessClaims → String

/-- The random values of one call. -/
structure Randoms where
  uuid : String
  state : String
  secret : String
  invite : String
  code : String
  session : String
  csrf : String
  refresh : String
  jti : String
  signingKey : String
  signingVersion : String
  recoveryCodes : List String
  deriving DecidableEq

def Config.requiredScope (config : Config) : String := config.scopes.headD "update:read"

def authorizationCodeTtlMs : ℕ := 5*60*1000

def loginPendingTtlMs : ℕ := 10*60*1000

def enrollmentPendingTtlMs : ℕ := 10*60*1000

def bootstrapTtlMs : ℕ := 10*60*1000

def inviteTtlMs : ℕ := 30*60*1000

def humanSessionTtlMs : ℕ := 8*60*60*1000

def totpMaxFailures : ℕ := 5

def totpLockMs : ℕ := 5*60*1000

def maxClients : ℕ := 256

end Environment

section Texts

variable (z : Environment)

/-- `^[A-Za-z0-9_-]{43}$` -/
def isOpaqueToken (value : String) : Bool :=
  value.toList.length = 43 && value.toList.all fun c => c.isAlphanum || c = '_' || c = '-'

def normalizeEmail (value : String) : String := z.toLowerCase (trim value)

def isBootstrapAdminEmail (value : String) : Bool :=
  3 ≤ utf16Length value && utf16Length value ≤ 320 &&
    value.toList.all (fun c => 0x20 < c.toNat && c.toNat ≠ 0x7f) &&
    value.toList.count '@' = 1 && value.toList.head? ≠ some '@' && value.toList.getLast? ≠ some '@'

def validBoundedText (value : String) (least most : ℕ) : Bool :=
  least ≤ utf16Length value && utf16Length value ≤ most &&
    value.toList.all fun c => 0x1f < c.toNat && c.toNat ≠ 0x7f

/-- `^\d{6}$` -/
def isTotpCode (value : String) : Bool := value.toList.length = 6 && value.toList.all Char.isDigit

def isBase32 (c : Char) : Bool := ('A' ≤ c && c ≤ 'Z') || ('2' ≤ c && c ≤ '7')

/-- `^[A-Z2-7]{4}-[A-Z2-7]{4}-[A-Z2-7]{4}$` -/
def isRecoveryCode (value : String) : Bool :=
  value.toList.length = 14 &&
    value.toList.zipIdx.all fun p => if p.2 = 4 ∨ p.2 = 9 then p.1 = '-' else isBase32 p.1

def normalizeRecoveryCode (value : String) : String :=
  String.ofList ((z.toUpperCase (trim value)).toList.filter (· ≠ ' '))

def normalizeVerificationCode (value : String) : String :=
  let trimmed := z.toUpperCase (trim value)
  if isTotpCode trimmed then trimmed
  else
    let normalizedRecovery := normalizeRecoveryCode z trimmed
    if isRecoveryCode normalizedRecovery then normalizedRecovery else ""

def normalizeRole : StoredUpdateControlRole → Option UpdateControlRole
  | .admin => some .admin
  | .user => some .user
  | .operator => some .user
  | .viewer => some .user
  | .other _ => none

def UpdateControlRole.stored : UpdateControlRole → StoredUpdateControlRole
  | .admin => .admin
  | .user => .user

/-- `String(n).padStart(digits, "0")` -/
def padStart (digits n : ℕ) : String :=
  String.ofList (List.replicate (digits - (Nat.toDigits 10 n).length) '0' ++ Nat.toDigits 10 n)

def totpCode (secret : String) (counter : ℕ) : String :=
  let mac := z.hmacSha1 secret counter
  let offset := mac.getLastD 0 &&& 0x0f
  let byte := fun i => mac.getD (offset+i) 0
  let binary := (byte 0 &&& 0x7f) <<< 24 ||| byte 1 <<< 16 ||| byte 2 <<< 8 ||| byte 3
  padStart 6 (binary % 1000000)

def totpCounters (now : ℕ) : List ℕ :=
  let current := now/1000/30
  [current] ++ (if current = 0 then [] else [current-1]) ++ [current+1]

def verifyTotp (secret code : String) (lastAcceptedCounter : Option ℕ) (now : ℕ) : Option ℕ :=
  if !isTotpCode code then none
  else (totpCounters now).find? fun counter =>
    lastAcceptedCounter.all (· < counter) && totpCode z secret counter = code

def decryptSecret (encrypted : EncryptedSecret) (context : String) : Option String :=
  if encrypted.context = context then some encrypted.secret else none

end Texts

end AccessStack.Identity
