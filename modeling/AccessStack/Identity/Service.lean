import AccessStack.Identity.Records

/-!
# The endpoints of the identity server

The requests of people and of clients, one function each. The time and the
random values of a call are its arguments. A form that cannot be read is
`none`; what it makes the server throw is answered with `unavailable`.
-/

set_option autoImplicit false

namespace AccessStack.Identity
open AccessStack.Text AccessStack.OAuth AccessStack.Emits

section Calls

abbrev Fields := List (String × String)

/-- `fields.get(name)` of `URLSearchParams` -/
def Fields.get (fields : Fields) (name : String) : Option String :=
  (fields.find? fun field => field.1 = name).map (·.2)

def Fields.text (fields : Fields) (name : String) : String := (fields.get name).getD ""

structure Request where
  isPost : Bool
  formEncoded : Bool
  body : Option Fields
  query : Fields
  sessionCookie : Option String
  adminCookie : Option String
  loginCookie : Option String
  deriving DecidableEq

inductive Response where
  | json (error : String) (status : ℕ)
  | bootstrap (operationId : String) (status : BootstrapStatus) (code : ℕ)
  | notExecuted (operationId : String) (error : Option String) (code : ℕ)
  | enrollmentPage (kind : EnrollmentKind) (state secret : String)
  | recoveryPage (codes : List String)
  | userPage (state : String) (setCookie : Bool)
  | userSessionPage (user : UpdateControlUser) (csrfToken : String)
  | adminPage (users : List UpdateControlUser) (csrfToken : String)
  | inviteCreatedPage (token : String)
  | redirect (location : String) (status : ℕ)
  | loginRequired (state : String)
  | callback (redirectUri code : String) (clientState : Option String)
  | sessionStarted (token : String) (response : Response)
  | loginStateExpired (response : Response)
  | loggedOut
  | registered (client : OAuthClient)
  | tokens (accessToken : Bearer) (expiresIn : ℕ) (refreshToken scope : String)
  | revoked
  | principal (subject : String) (scopes : List String) (userId : String)
  | unauthorized (error : String) (status : ℕ)
  | deleted
  deriving DecidableEq

def unavailable : Response := .json "update_control_unavailable" 503

def oauthError (error : String) (status : ℕ) : Response := .json error status

end Calls

variable (z : Environment) (now : ℕ) (random : Randoms)

section Users

def roleOf (value : StoredUpdateControlUser) (storedRole : UpdateControlRole) : UpdateControlRole :=
  if normalizeEmail z value.email = normalizeEmail z z.config.bootstrapAdminEmail then .admin
  else if storedRole = .admin then .user
  else storedRole

def withRole (value : StoredUpdateControlUser) (role : UpdateControlRole) : UpdateControlUser :=
  ⟨value.id, value.displayName, value.email, role, value.status⟩

def UserOf.stored (user : UpdateControlUser) : StoredUpdateControlUser :=
  ⟨user.id, user.displayName, user.email, user.role.stored, user.status⟩

def getUser (userId : String) : Serve (Option UpdateControlUser) := do
  match ← look fun w => w.store.users userId with
  | none => return none
  | some value =>
    match normalizeRole value.role with
    | none => return none
    | some storedRole =>
      let user := withRole value (roleOf z value storedRole)
      if value.role ≠ user.role.stored then
        emit (.userStored userId user.stored)
      return some user

def findUserByEmail (email : String) : Serve (Option UpdateControlUser) := do
  match ← look fun w => w.store.emails (z.sha256Base64Url (normalizeEmail z email)) with
  | none => return none
  | some userId => if userId = "" then return none else getUser z userId

def getUsers : List String → Serve (List UpdateControlUser)
  | [] => return []
  | id::ids => do
    let user ← getUser z id
    let users ← getUsers ids
    return user.toList ++ users

def listUsers : Serve (List UpdateControlUser) := do
  getUsers z (← look fun w => w.store.userIds)

def activeAdminCount : Serve ℕ := do
  return ((← listUsers z).filter fun user => user.status = .active && user.role = .admin).length

def createLocalUser (email displayName : String) (role : UpdateControlRole) (origin : Origin) :
    Serve UpdateControlUser := do
  let user : UpdateControlUser := ⟨"usr_" ++ random.uuid, displayName, email, role, .active⟩
  let ids ← look fun w => w.store.userIds
  emit (.created user.stored origin)
  emit (.indexed (z.sha256Base64Url email) user.id)
  emit (.listed (ids ++ [user.id]))
  return user

end Users

section Sessions

structure HumanSessionContext where
  user : UpdateControlUser
  session : HumanSessionRecord
  key : SessionKey
  deriving DecidableEq

def SessionKey.legacy : SessionKey → Bool
  | .human _ => false
  | .admin _ => true

def sessionKey (request : Request) : Option SessionKey :=
  match request.sessionCookie with
  | some token => if isOpaqueToken token then some (.human (z.sha256Base64Url token)) else none
  | none => (request.adminCookie.filter isOpaqueToken).map fun token => .admin (z.sha256Base64Url token)

def readHumanSession (request : Request) : Serve (Option HumanSessionContext) := do
  match sessionKey z request with
  | none => return none
  | some key =>
    match ← look fun w => w.store.sessions key with
    | none =>
      emit (.sessionClosed key)
      return none
    | some session =>
      if session.expiresAt ≤ now then
        emit (.sessionClosed key)
        return none
      else
        match ← getUser z session.userId with
        | none =>
          emit (.sessionClosed key)
          return none
        | some user =>
          if user.status ≠ .active ∨ (key.legacy = true ∧ user.role ≠ .admin) then
            emit (.sessionClosed key)
            return none
          else
            emit (.presented key session user now)
            return some ⟨user, session, key⟩

def createHumanSession (user : UpdateControlUser) (response : Response) : Serve Response := do
  emit (.sessionOpened (.human (z.sha256Base64Url random.session))
    ⟨user.id, random.csrf, now+humanSessionTtlMs⟩)
  return .sessionStarted random.session response

/-- The fields of a form that carries the token of the session. -/
def sessionForm (request : Request) (session : HumanSessionRecord) : Except Response Fields :=
  if !request.formEncoded then .error (.json "invalid_content_type" 415)
  else match request.body with
    | none => .error (.json "invalid_request" 400)
    | some fields =>
      if !isOpaqueToken (fields.text "csrf") || fields.text "csrf" ≠ session.csrfToken then
        .error (.json "csrf_rejected" 403)
      else .ok fields

def requireAdminPost (request : Request) : Serve (Except Response (HumanSessionContext × Fields)) := do
  if !request.isPost then return .error (.json "method_not_allowed" 405)
  else
    match ← readHumanSession z now request with
    | none => return .error (.json "admin_auth_required" 401)
    | some context =>
      if context.user.role ≠ .admin then return .error (.json "admin_auth_required" 401)
      else return (sessionForm request context.session).map fun fields => (context, fields)

end Sessions

section Administration

def beginBootstrap (operationId : String) : Serve Response := do
  match ← look fun w => w.store.bootstraps operationId with
  | some existing =>
    if existing.status = .ready ∧ existing.expiresAt ≤ now then
      emit (.bootstrapStored { existing with status := .expired })
      if (← look fun w => w.store.bootstrapActive).any (·.operationId = operationId) then
        emit .bootstrapCleared
      return .bootstrap operationId .expired 409
    else return .bootstrap operationId existing.status 200
  | none =>
    if (← look fun w => w.store.userIds) ≠ [] then
      return .notExecuted operationId "bootstrap_not_required" 409
    else if (← look fun w => w.store.bootstrapActive).any fun active =>
        active.status = .ready && now < active.expiresAt then
      return .notExecuted operationId "another_bootstrap_active" 409
    else
      let operation : BootstrapOperation := ⟨operationId, .ready, now+bootstrapTtlMs⟩
      emit (.bootstrapStored operation)
      emit (.bootstrapActivated operation)
      return .bootstrap operationId .ready 200

def readBootstrap (operationId : String) : Serve Response := do
  match ← look fun w => w.store.bootstraps operationId with
  | none => return .notExecuted operationId none 200
  | some operation =>
    if operation.status = .ready ∧ operation.expiresAt ≤ now then
      emit (.bootstrapStored { operation with status := .expired })
      if (← look fun w => w.store.bootstrapActive).any (·.operationId = operationId) then
        emit .bootstrapCleared
      return .bootstrap operationId .expired 200
    else return .bootstrap operationId operation.status 200

def beginEnrollment (kind : EnrollmentKind) (role : UpdateControlRole) (inviteHash : Option String) :
    Serve Response := do
  emit (.enrollmentStored ⟨random.state, kind, role.stored, ⟨random.secret, "enrollment:" ++ random.state⟩,
    now+enrollmentPendingTtlMs, inviteHash⟩)
  return .enrollmentPage kind random.state random.secret

def bootstrapReady (active : Option BootstrapOperation) : Bool :=
  active.any fun bootstrap => bootstrap.status = .ready && now < bootstrap.expiresAt

def beginBootstrapEnrollment : Serve Response := do
  if (← look fun w => w.store.userIds) ≠ [] then return .json "bootstrap_not_required" 409
  else if !bootstrapReady now (← look fun w => w.store.bootstrapActive) then
    return .json "bootstrap_not_ready" 403
  else beginEnrollment now random .bootstrap .admin none

def beginInviteJoin (inviteToken : String) : Serve Response := do
  if !isOpaqueToken inviteToken then return .json "invalid_invite" 400
  else
    let inviteHash := z.sha256Base64Url inviteToken
    match ← look fun w => w.store.invitations inviteHash with
    | none => return .json "invalid_invite" 400
    | some invitation =>
      if invitation.expiresAt ≤ now then return .json "invalid_invite" 400
      else if normalizeRole invitation.role = none then return .json "invalid_invite" 400
      else
        if invitation.role ≠ .user then
          emit (.invited inviteHash { invitation with role := .user })
        beginEnrollment now random .join .user (some inviteHash)

/-- What the rest of an enrollment is allowed by: the operation that is ready,
or the invitation. -/
def enrollmentAllowed (pending : PendingEnrollment) (email : String) : Serve (Option Response) := do
  match pending.kind with
  | .bootstrap =>
    if !bootstrapReady now (← look fun w => w.store.bootstrapActive) ||
        (← look fun w => w.store.userIds) ≠ [] then
      return some (.json "bootstrap_not_ready" 403)
    else if email ≠ normalizeEmail z z.config.bootstrapAdminEmail then
      return some (.json "bootstrap_identity_mismatch" 403)
    else return none
  | .join =>
    match pending.inviteHash with
    | none => return some (.json "invalid_invite" 400)
    | some inviteHash =>
      if inviteHash = "" then return some (.json "invalid_invite" 400)
      else match ← look fun w => w.store.invitations inviteHash with
      | none => return some (.json "invalid_invite" 400)
      | some invitation =>
        if invitation.expiresAt ≤ now then return some (.json "invalid_invite" 400)
        else return none

def enrollmentRole : EnrollmentKind → UpdateControlRole
  | .bootstrap => .admin
  | .join => .user

def enrollmentOrigin (pending : PendingEnrollment) : Origin :=
  match pending.kind with
  | .bootstrap => .bootstrap
  | .join => .invitation (pending.inviteHash.getD "")

def newCredential (userId secret : String) (acceptedCounter : ℕ) : TotpCredential :=
  { userId
    encryptedSecret := ⟨secret, "user:" ++ userId⟩
    lastAcceptedCounter := acceptedCounter
    recoveryCodeHashes := random.recoveryCodes.map fun code =>
      z.sha256Base64Url (normalizeRecoveryCode z code)
    failedAttempts := 0
    lockedUntilMs := none }

/-- The writes of an enrollment whose code has been accepted. -/
def enroll (pending : PendingEnrollment) (state email displayName secret : String) (acceptedCounter : ℕ) :
    Serve Response := do
  let user ← createLocalUser z random email displayName (enrollmentRole pending.kind)
    (enrollmentOrigin pending)
  emit (.enrolled (newCredential z random user.id secret acceptedCounter) acceptedCounter)
  emit (.enrollmentClosed state)
  match pending.kind with
  | .join => emit (.invitationClosed (pending.inviteHash.getD ""))
  | .bootstrap =>
    match ← look fun w => w.store.bootstrapActive with
    | none => return .recoveryPage random.recoveryCodes
    | some bootstrap =>
      emit (.bootstrapStored { bootstrap with status := .completed })
      emit .bootstrapCleared
  return .recoveryPage random.recoveryCodes

def completeEnrollment (request : Request) : Serve Response := do
  match request.body with
  | none => return unavailable
  | some fields =>
    let state := fields.text "state"
    let email := normalizeEmail z (fields.text "email")
    let displayName := trim (fields.text "display_name")
    let code := normalizeVerificationCode z (fields.text "code")
    if !isOpaqueToken state || !isBootstrapAdminEmail email ||
      !validBoundedText displayName 1 200 || code = "" then
      return .json "invalid_enrollment" 400
    else
      match (← look fun w => w.store.enrollments state).filter fun pending => now < pending.expiresAtMs with
      | none =>
        emit (.enrollmentClosed state)
        return .json "enrollment_expired" 400
      | some pending =>
        if normalizeRole pending.role = none ∨
            (pending.kind = .bootstrap ∧ normalizeRole pending.role ≠ some .admin) then
          return .json "invalid_enrollment" 400
        else if (← findUserByEmail z email).isSome then return .json "identity_already_enrolled" 409
        else
          match ← enrollmentAllowed z now pending email with
          | some refusal => return refusal
          | none =>
            match decryptSecret pending.encryptedSecret ("enrollment:" ++ state) with
            | none => return .json "enrollment_unavailable" 503
            | some secret =>
              match verifyTotp z secret code none now with
              | none => return .json "invalid_credentials" 401
              | some acceptedCounter => enroll z random pending state email displayName secret acceptedCounter

def renderAdmin (request : Request) : Serve Response := do
  match ← readHumanSession z now request with
  | none => return .redirect "/user" 302
  | some context =>
    if context.user.role ≠ .admin then return .json "admin_required" 403
    else return .adminPage (← listUsers z) context.session.csrfToken

def createInvite (request : Request) : Serve Response := do
  match ← requireAdminPost z now request with
  | .error refusal => return refusal
  | .ok (context, fields) =>
    if (fields.get "role").any (· ≠ "user") then return .json "invalid_role" 400
    else
      emit (.invited (z.sha256Base64Url random.invite) ⟨.user, context.user.id, now+inviteTtlMs⟩)
      return .inviteCreatedPage random.invite

/-- `target.role === "admin" && await this.activeAdminCount() <= 1` -/
def lastAdmin (target : UpdateControlUser) : Serve Bool := do
  if target.role ≠ .admin then return false else return (← activeAdminCount z) ≤ 1

def changeUserRole (request : Request) (userId : String) : Serve Response := do
  match ← requireAdminPost z now request with
  | .error refusal => return refusal
  | .ok (_, fields) =>
    if fields.get "role" ≠ some "user" then return .json "invalid_role" 400
    else
      match (← getUser z userId).filter fun target => target.status = .active with
      | none => return .json "user_not_found" 404
      | some target =>
        if normalizeEmail z target.email = normalizeEmail z z.config.bootstrapAdminEmail then
          return .json "last_admin_required" 409
        else if ← lastAdmin z target then
          return .json "last_admin_required" 409
        else
          emit (.userStored target.id { target.stored with role := .user })
          return .redirect "/admin" 303

def revokeUser (request : Request) (userId : String) : Serve Response := do
  match ← requireAdminPost z now request with
  | .error refusal => return refusal
  | .ok _ =>
    match (← getUser z userId).filter fun target => target.status = .active with
    | none => return .json "user_not_found" 404
    | some target =>
      if ← lastAdmin z target then
        return .json "last_admin_required" 409
      else
        emit (.userStored target.id { target.stored with status := .revoked })
        return .redirect "/admin" 303

end Administration

section Logins

/-- The credential after a factor has been accepted. -/
def TotpCredential.afterFactor (credential : TotpCredential) : Factor → TotpCredential
  | .counter n => { credential with lastAcceptedCounter := some n, failedAttempts := 0,
                                    lockedUntilMs := none }
  | .recovery hash =>
    { credential with
      recoveryCodeHashes := credential.recoveryCodeHashes.erase hash, failedAttempts := 0,
      lockedUntilMs := none }

def TotpCredential.afterFailure (credential : TotpCredential) : TotpCredential :=
  let failures := credential.failedAttempts+1
  if totpMaxFailures ≤ failures then
    { credential with failedAttempts := 0, lockedUntilMs := some (now+totpLockMs) }
  else { credential with failedAttempts := failures }

/-- The factor that a code is, if it is one. A secret that cannot be read ends
the verification. -/
def factorOf (credential : TotpCredential) (userId code : String) : Option (Option Factor) :=
  if isTotpCode code then
    (decryptSecret credential.encryptedSecret ("user:" ++ userId)).map fun secret =>
      (verifyTotp z secret code credential.lastAcceptedCounter now).map .counter
  else if isRecoveryCode code then
    let targetHash := z.sha256Base64Url (normalizeRecoveryCode z code)
    some (if targetHash ∈ credential.recoveryCodeHashes then some (.recovery targetHash) else none)
  else some none

def authenticateLocalUser (email code : String) : Serve (Option UpdateControlUser) := do
  match (← findUserByEmail z email).filter fun user => user.status = .active with
  | none => return none
  | some user =>
    match ← look fun w => w.store.credentials user.id with
    | none => return none
    | some credential =>
      if credential.userId ≠ user.id then return none
      else if credential.lockedUntilMs.any fun lockedUntilMs => now < lockedUntilMs then return none
      else
        match factorOf z now credential user.id code with
        | none => return none
        | some none =>
          emit (.failed (credential.afterFailure now) now)
          return none
        | some (some factor) =>
          emit (.accepted factor (credential.afterFactor factor) now)
          return some user

def LoginKind.request : LoginKind → Option AuthorizationRequest
  | .mcp request => some request
  | .oauth request => some request
  | .admin => none
  | .user => none

/-- The pending login of the state, while it lasts. -/
def livePending (state : String) : Serve (Option PendingLogin) := do
  return (← look fun w => w.store.logins state).filter fun pending => now < pending.expiresAtMs

def AuthorizationRequest.incomplete (request : AuthorizationRequest) : Bool :=
  request.clientId = "" || request.redirectUri = "" || request.codeChallenge = "" || request.resource = ""

def codeRecord (request : AuthorizationRequest) (userId : String) : AuthorizationCodeRecord :=
  { clientId := request.clientId, redirectUri := request.redirectUri, codeChallenge := request.codeChallenge
    scopes := request.scopes, resource := request.resource,
    expiresAtMs := now+authorizationCodeTtlMs, userId }

def completeAuthorization (state : String) (user : UpdateControlUser) (completion : Completion) :
    Serve Response := do
  match ((← livePending now state).filter fun pending => pending.state = state).bind fun pending =>
      pending.kind.request with
  | none =>
    emit (.loginClosed state)
    return .json "authorization_expired" 400
  | some request =>
    if request.incomplete then
      emit (.loginClosed state)
      return .json "authorization_unavailable" 503
    else
      let code := "code-" ++ random.code
      emit (.completed state completion (z.sha256Base64Url code) (codeRecord now request user.id))
      emit (.loginClosed state)
      return .callback request.redirectUri code (request.clientState.filter (· ≠ ""))

/-- The page of a person who has not logged in. -/
def beginLogin (state : Option String) : Serve Response := do
  match state with
  | some state =>
    match ← livePending now state with
    | some _ => return .userPage state false
    | none =>
      emit (.loginClosed state)
      emit (.loginStored ⟨random.state, .user, now+loginPendingTtlMs⟩)
      return .userPage random.state true
  | none =>
    emit (.loginStored ⟨random.state, .user, now+loginPendingTtlMs⟩)
    return .userPage random.state true

def beginUserLogin (request : Request) : Serve Response := do
  let human ← readHumanSession z now request
  let state := request.loginCookie.filter isOpaqueToken
  match human with
  | none => beginLogin now random state
  | some human =>
    match state with
    | none => return .userSessionPage human.user human.session.csrfToken
    | some state =>
      match (← livePending now state).bind fun pending => pending.kind.request with
      | none => return .userSessionPage human.user human.session.csrfToken
      | some _ =>
        return .loginStateExpired (← completeAuthorization z now random state human.user (.session human.key))

/-- The answer to a login, before the session. -/
def completeLogin (state : String) (pending : PendingLogin) (user : UpdateControlUser) : Serve Response := do
  match pending.kind with
  | .oauth _ => completeAuthorization z now random state user .login
  | .mcp _ => completeAuthorization z now random state user .login
  | .admin =>
    emit (.loginClosed state)
    return .redirect "/admin" 303
  | .user =>
    emit (.loginClosed state)
    return .redirect "/user" 303

def completeUserLogin (request : Request) : Serve Response := do
  if !request.isPost then return .json "method_not_allowed" 405
  else if !request.formEncoded then return .json "invalid_content_type" 415
  else match request.body with
  | none => return .json "invalid_request" 400
  | some fields =>
    let state := fields.text "state"
    if !isOpaqueToken state || request.loginCookie ≠ some state then return .json "csrf_rejected" 403
    else
      match (← livePending now state).filter fun pending => pending.state = state with
      | none =>
        emit (.loginClosed state)
        return .json "authorization_expired" 400
      | some pending =>
        let email := normalizeEmail z (fields.text "email")
        let code := normalizeVerificationCode z (fields.text "code")
        if !isBootstrapAdminEmail email || code = "" then return .json "invalid_credentials" 401
        else
          match ← authenticateLocalUser z now email code with
          | none => return .json "invalid_credentials" 401
          | some user =>
            if pending.kind = .admin ∧ user.role ≠ .admin then
              emit (.loginClosed state)
              return .json "admin_required" 403
            else
              let response ← completeLogin z now random state pending user
              createHumanSession z now random user response

def logoutUser (request : Request) : Serve Response := do
  if !request.isPost then return .json "method_not_allowed" 405
  else
    match ← readHumanSession z now request with
    | none => return .json "session_required" 401
    | some context =>
      match sessionForm request context.session with
      | .error refusal => return refusal
      | .ok _ =>
        emit (.sessionClosed context.key)
        return .loggedOut

end Logins

section Authorization

def isLegacyAuthorizationLoginForm (fields : Fields) : Bool :=
  fields.length = 3 && ["state", "email", "code"].all fun name => fields.any fun field => field.1 = name

def LoginKind.isMcp : LoginKind → Bool
  | .mcp _ => true
  | _ => false

def completeLegacyMcpLogin (fields : Fields) : Serve (Option Response) := do
  let state := fields.text "state"
  if !isLegacyAuthorizationLoginForm fields || !isOpaqueToken state then return none
  else
    match (← livePending now state).filter fun pending => pending.state = state && pending.kind.isMcp with
    | none => return none
    | some _ =>
      let email := normalizeEmail z (fields.text "email")
      let code := normalizeVerificationCode z (fields.text "code")
      if !isBootstrapAdminEmail email || code = "" then return some (.json "invalid_credentials" 401)
      else
        match ← authenticateLocalUser z now email code with
        | none => return some (.json "invalid_credentials" 401)
        | some user =>
          let response ← completeAuthorization z now random state user .login
          return some (← createHumanSession z now random user response)

/-- `^[A-Za-z0-9_-]{43,128}$` -/
def isCodeChallenge (value : String) : Bool :=
  43 ≤ value.toList.length && value.toList.length ≤ 128 &&
    value.toList.all fun c => c.isAlphanum || c = '_' || c = '-'

def validateAuthorizationRequest (fields : Fields) : Serve (Option AuthorizationRequest) := do
  let clientId := fields.text "client_id"
  match ← look fun w => w.store.clients clientId with
  | none => return none
  | some client =>
    let request : AuthorizationRequest :=
      { clientId
        redirectUri := fields.text "redirect_uri"
        codeChallenge := fields.text "code_challenge"
        scopes := parseScopes ((fields.get "scope").getD (" ".intercalate z.config.scopes))
        resource := fields.text "resource"
        clientState := (fields.get "state").filter (· ≠ "") }
    if fields.get "response_type" ≠ some "code" || fields.get "code_challenge_method" ≠ some "S256" ||
        !isCodeChallenge request.codeChallenge || !client.redirectUris.contains request.redirectUri ||
        request.resource ≠ z.config.mcpUrl || request.scopes = [] ||
        !request.scopes.all z.config.scopes.contains then
      return none
    else return some request

def authorizeFields (fields : Fields) (request : Request) : Serve Response := do
  match ← validateAuthorizationRequest z fields with
  | none => return oauthError "invalid_request" 400
  | some validated =>
    emit (.loginStored ⟨random.state, .oauth validated, now+loginPendingTtlMs⟩)
    match ← readHumanSession z now request with
    | some human => completeAuthorization z now random random.state human.user (.session human.key)
    | none => return .loginRequired random.state

/-- `/oauth`, and `/authorize` with its login form of the version before. -/
def handleAuthorization (request : Request) (isAuthorizePath : Bool) : Serve Response := do
  if !request.isPost then authorizeFields z now random request.query request
  else if !request.formEncoded then return .json "invalid_content_type" 415
  else match request.body with
  | none => return .json "invalid_request" 400
  | some fields =>
    if isAuthorizePath then
      match ← completeLegacyMcpLogin z now random fields with
      | some response => return response
      | none => authorizeFields z now random fields request
    else authorizeFields z now random fields request

structure RegisterInput where
  redirectUris : List String
  authMethod : Option String
  grantTypes : List String
  responseTypes : List String
  deriving DecidableEq

def register (input : RegisterInput) : Serve Response := do
  if input.redirectUris = [] || 16 < input.redirectUris.length ||
      !input.redirectUris.all z.config.redirectAllowed || input.authMethod.any (· ≠ "none") then
    return oauthError "invalid_client_metadata" 400
  else
    let existingCount ← look fun w => w.store.clientCount
    if maxClients ≤ existingCount then return oauthError "invalid_client_metadata" 400
    else if !input.grantTypes.all (["authorization_code", "refresh_token"].contains ·) ||
        !input.responseTypes.all (· = "code") then
      return oauthError "invalid_client_metadata" 400
    else
      let client : OAuthClient :=
        ⟨"mcp-" ++ random.uuid, input.redirectUris, input.grantTypes, input.responseTypes⟩
      emit (.clientStored client)
      emit (.clientsCounted (existingCount+1))
      return .registered client

end Authorization

section Tokens

def getSigningMaterial : Serve SigningMaterial := do
  match ← look fun w => w.store.signing with
  | some existing => return existing
  | none =>
    let created : SigningMaterial := ⟨random.signingKey, random.signingVersion⟩
    emit (.signingStored created)
    return created

def accessClaims (clientId : String) (scopes : List String) (resource userId : String) : AccessClaims :=
  { iss := z.config.publicBaseUrl
    aud := resource
    sub := "user:" ++ userId
    scope := " ".intercalate scopes
    clientId
    userId
    iat := nowSeconds now
    exp := nowSeconds now+z.config.accessTokenTtlSeconds
    jti := random.jti }

def issueTokens (origin : GrantKey) (clientId : String) (scopes : List String) (resource userId : String) :
    Serve Response := do
  let signing ← getSigningMaterial random
  let claims := accessClaims z now random clientId scopes resource userId
  let refreshToken := "refresh-" ++ random.refresh
  emit (.issued origin (z.sha256Base64Url refreshToken)
    ⟨clientId, scopes, resource, nowSeconds now+z.config.refreshTokenTtlSeconds, signing.version, userId⟩
    signing.key claims)
  return .tokens (.signed signing.key claims) z.config.accessTokenTtlSeconds refreshToken
    (" ".intercalate scopes)

/-- The user of a grant, while active. -/
def activeUser (userId : String) : Serve (Option UpdateControlUser) := do
  return (← getUser z userId).filter fun user => user.status = .active

/-- What an exchange asks of the record of its code. -/
def codeAccepted (fields : Fields) (record : AuthorizationCodeRecord) : Bool :=
  record.clientId = fields.text "client_id" && now ≤ record.expiresAtMs &&
    fields.get "redirect_uri" = some record.redirectUri && fields.get "resource" = some record.resource &&
    z.sha256Base64Url (fields.text "code_verifier") = record.codeChallenge

def exchangeCode (fields : Fields) : Serve Response := do
  let key := z.sha256Base64Url (fields.text "code")
  match (← look fun w => w.store.codes key).filter (codeAccepted z now fields) with
  | none => return oauthError "invalid_grant" 400
  | some record =>
    match ← activeUser z record.userId with
    | none => return oauthError "invalid_grant" 400
    | some user =>
      emit (.exchanged key record user (fields.text "redirect_uri") (fields.text "code_verifier"))
      issueTokens z now random (.code key) (fields.text "client_id") record.scopes record.resource user.id

/-- What a refresh asks of its record before it reads the user. -/
def refreshAccepted (fields : Fields) (signing : Option SigningMaterial)
    (record : RefreshTokenRecord) : Bool :=
  record.clientId = fields.text "client_id" && nowSeconds now < record.expiresAt &&
    signing.any fun signing => signing.version = record.signingVersion

def requestedScopes (fields : Fields) (record : RefreshTokenRecord) : List String :=
  parseScopes ((fields.get "scope").getD (" ".intercalate record.scopes))

def refreshTokens (fields : Fields) : Serve Response := do
  let key := z.sha256Base64Url (fields.text "refresh_token")
  let signing ← look fun w => w.store.signing
  match (← look fun w => w.store.refresh key).filter (refreshAccepted now fields signing) with
  | none => return oauthError "invalid_grant" 400
  | some record =>
    match ← activeUser z record.userId with
    | none => return oauthError "invalid_grant" 400
    | some user =>
      if (fields.get "resource").getD record.resource ≠ record.resource then
        return oauthError "invalid_grant" 400
      else
        let requested := requestedScopes fields record
        if !requested.all record.scopes.contains then return oauthError "invalid_scope" 400
        else
          emit (.refreshed key record user)
          issueTokens z now random (.refresh key) (fields.text "client_id") requested record.resource user.id

def token (fields : Fields) : Serve Response := do
  match ← look fun w => w.store.clients (fields.text "client_id") with
  | none => return oauthError "invalid_client" 400
  | some _ =>
    if fields.get "grant_type" = some "authorization_code" then exchangeCode z now random fields
    else if fields.get "grant_type" = some "refresh_token" then refreshTokens z now random fields
    else return oauthError "unsupported_grant_type" 400

def verifyAccessToken (signing : Option SigningMaterial) : Bearer → Option AccessClaims
  | .text _ => none
  | .signed key claims =>
    if isUserId claims.userId && (signing.any fun signing => signing.key = key) &&
        claims.iss = z.config.publicBaseUrl && claims.aud = z.config.mcpUrl then some claims
    else none

def rawText : Bearer → String
  | .text value => value
  | .signed key claims => z.encode key claims

def revoke (token : Option Bearer) : Serve Response := do
  match token with
  | none => return .revoked
  | some token =>
    match verifyAccessToken z (← look fun w => w.store.signing) token with
    | some claims => emit (.accessRevoked claims.jti claims.exp)
    | none => emit (.refreshClosed (z.sha256Base64Url (rawText z token)))
    return .revoked

def keyOf : Bearer → String
  | .text _ => ""
  | .signed key _ => key

def authenticate (token : Option Bearer) : Serve Response := do
  match token with
  | none => return .unauthorized "invalid_token" 401
  | some token =>
    match verifyAccessToken z (← look fun w => w.store.signing) token with
    | none => return .unauthorized "invalid_token" 401
    | some claims =>
      if claims.exp ≤ nowSeconds now then return .unauthorized "invalid_token" 401
      else if (← look fun w => w.store.revoked claims.jti).any (nowSeconds now < ·) then
        return .unauthorized "invalid_token" 401
      else
        match ← activeUser z claims.userId with
        | none => return .unauthorized "invalid_token" 401
        | some user =>
          let scopes := parseScopes claims.scope
          if z.config.requiredScope ∉ scopes then return .unauthorized "insufficient_scope" 403
          else
            emit (.authenticated (keyOf token) claims user)
            return .principal ("user:" ++ user.id) scopes user.id

/-- `deleteOAuthState`, on the keys that its listings return. -/
def deleteOAuthState : List OAuthKey → Serve Response
  | [] => return .deleted
  | key::keys => do
    emit (.forgotten key)
    deleteOAuthState keys

end Tokens

section Serving

inductive Call where
  | beginBootstrap (operationId : String)
  | readBootstrap (operationId : String)
  | beginBootstrapEnrollment
  | beginInviteJoin (inviteToken : String)
  | completeEnrollment (request : Request)
  | renderAdmin (request : Request)
  | createInvite (request : Request)
  | changeUserRole (request : Request) (userId : String)
  | revokeUser (request : Request) (userId : String)
  | beginUserLogin (request : Request)
  | completeUserLogin (request : Request)
  | logoutUser (request : Request)
  | handleAuthorization (request : Request) (isAuthorizePath : Bool)
  | register (input : RegisterInput)
  | token (fields : Fields)
  | revoke (token : Option Bearer)
  | authenticate (token : Option Bearer)
  | deleteOAuthState (keys : List OAuthKey)
  deriving DecidableEq

def serve : Call → Serve Response
  | .beginBootstrap operationId => beginBootstrap now operationId
  | .readBootstrap operationId => readBootstrap now operationId
  | .beginBootstrapEnrollment => beginBootstrapEnrollment now random
  | .beginInviteJoin inviteToken => beginInviteJoin z now random inviteToken
  | .completeEnrollment request => completeEnrollment z now random request
  | .renderAdmin request => renderAdmin z now request
  | .createInvite request => createInvite z now random request
  | .changeUserRole request userId => changeUserRole z now request userId
  | .revokeUser request userId => revokeUser z now request userId
  | .beginUserLogin request => beginUserLogin z now random request
  | .completeUserLogin request => completeUserLogin z now random request
  | .logoutUser request => logoutUser z now request
  | .handleAuthorization request isAuthorizePath => handleAuthorization z now random request isAuthorizePath
  | .register input => register z random input
  | .token fields => token z now random fields
  | .revoke token => revoke z token
  | .authenticate token => authenticate z now token
  | .deleteOAuthState keys => deleteOAuthState keys

end Serving

end AccessStack.Identity
