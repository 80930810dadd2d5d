import AccessStack.Text

/-!
# The owner's OAuth server

`EdgeOwnerOAuth` on its storage. Each kind of key is a map of its own. An
access token is the term `signed key claims`, so that a signature under one
key never verifies under another; any other presented text is `text`. The
hash and the derived signing key are arbitrary functions. The stored
credential material is always one the server has written, which passes
`isOwnerCredentialMaterial`. Random values and the clock are arguments of a
call, and so are the accounts it sees.
-/

set_option autoImplicit false

namespace AccessStack.OAuth
open AccessStack.Text

section Records

structure OwnerClient where
  clientId : String
  redirectUris : List String
  deriving DecidableEq

structure AuthorizationCodeRecord where
  clientId : String
  redirectUri : String
  codeChallenge : String
  scopes : List String
  resource : String
  expiresAtMs : ℕ
  userId : Option String
  deriving DecidableEq

structure RefreshTokenRecord where
  clientId : String
  scopes : List String
  resource : String
  expiresAt : ℕ
  credentialVersion : Option String
  userId : Option String
  deriving DecidableEq

structure OwnerCredentialMaterial where
  ownerVerifierHash : String
  signingKey : String
  credentialVersion : Option String
  deriving DecidableEq

structure OwnerAccessClaims where
  iss : String
  aud : String
  sub : String
  scope : String
  clientId : String
  userId : Option String
  iat : ℕ
  exp : ℕ
  jti : String
  deriving DecidableEq

inductive Bearer where
  | signed (key : String) (claims : OwnerAccessClaims)
  | text (value : String)
  deriving DecidableEq

structure OwnerIdentity where
  id : String
  displayName : String
  deriving DecidableEq

/-- `OwnerIdentityStore` at one moment. -/
structure Accounts where
  getUser : String → Option OwnerIdentity
  listUsers : List OwnerIdentity
  named : ∀ id user, getUser id = some user → user.id = id

/-- `OwnerOAuthStorage` -/
structure Storage where
  clients : String → Option OwnerClient
  clientCount : ℕ
  codes : String → Option AuthorizationCodeRecord
  refresh : String → Option RefreshTokenRecord
  revoked : String → Option ℕ
  material : Option OwnerCredentialMaterial
  ownerUserId : Option String

/-- The server: its storage, and the signing key once it has been loaded.
A load that failed is kept too. -/
structure Server where
  storage : Storage
  hmacKeyPromise : Option (Option String)

def Server.initial : Server where
  storage := ⟨fun _ => none, 0, fun _ => none, fun _ => none, fun _ => none, none, none⟩
  hmacKeyPromise := none

structure Crypto where
  sha256Base64Url : String → String
  signingKey : String → String
  encode : String → OwnerAccessClaims → String

structure Config where
  ownerSecret : Option String
  publicBaseUrl : String
  mcpUrl : String
  scopes : List String
  accessTokenTtlSeconds : ℕ
  refreshTokenTtlSeconds : ℕ
  redirectAllowed : String → Bool

def Config.requiredScope (config : Config) : String := config.scopes.headD "mcp:tools"

end Records

section Texts

def nowSeconds (now : ℕ) : ℕ := now/1000

/-- `[...new Set(values)]` -/
def unique (values : List String) : List String :=
  values.foldl (fun seen value => if value ∈ seen then seen else seen ++ [value]) []

def parseScopes (value : String) : List String :=
  unique (((value.toList.splitOnP isSpace).map String.ofList).filter (· ≠ ""))

/-- Case folding of a pattern with the flags `iu`, on the letters of a user id. -/
def foldCase (c : Char) : Char := if c = 'ſ' then 's' else c.toLower

/-- `^usr_[0-9a-f-]{36}$` with the flags `iu` -/
def isUserId (value : String) : Bool :=
  value.toList.length = 40 && (value.toList.take 4).map foldCase = "usr_".toList &&
    (value.toList.drop 4).all fun c => isHexLower (foldCase c) || c = '-'

def isOwnerClaims (claims : OwnerAccessClaims) : Bool := claims.userId.all isUserId

end Texts

variable (crypto : Crypto) (config : Config)

section Credentials

def deriveOwnerCredentialMaterial (ownerSecret : String) : OwnerCredentialMaterial :=
  ⟨crypto.sha256Base64Url ownerSecret, crypto.signingKey ownerSecret, none⟩

def currentCredentialVersion (storage : Storage) : Option String :=
  storage.material.bind (·.credentialVersion)

def loadMaterial (storage : Storage) : Option OwnerCredentialMaterial :=
  storage.material.or (config.ownerSecret.map (deriveOwnerCredentialMaterial crypto))

def loadSigningKey (storage : Storage) : Option String :=
  (loadMaterial crypto config storage).map (·.signingKey)

/-- The key, and the server that remembers it. -/
def hmacKey (server : Server) : Option String × Server :=
  match server.hmacKeyPromise with
  | some key => (key, server)
  | none =>
    let key := loadSigningKey crypto config server.storage
    (key, { server with hmacKeyPromise := some key })

theorem hmacKey_storage (server : Server) : (hmacKey crypto config server).2.storage = server.storage := by
  unfold hmacKey
  split <;> rfl

def ownerSecretMatches (storage : Storage) (supplied : String) : Bool :=
  match storage.material with
  | some material => crypto.sha256Base64Url supplied = material.ownerVerifierHash
  | none => config.ownerSecret = some supplied

def verifyAccessToken (server : Server) (token : Bearer) : Option OwnerAccessClaims × Server :=
  match token with
  | .text _ => (none, server)
  | .signed key claims =>
    if isOwnerClaims claims then
      let (current, server) := hmacKey crypto config server
      (if current = some key ∧ claims.iss = config.publicBaseUrl ∧ claims.aud = config.mcpUrl then
        some claims else none, server)
    else (none, server)

/-- `resolveOwnerUser`; it may throw, after it has forgotten an owner that is
gone. -/
def resolveOwnerUser (storage : Storage) (accounts : Accounts) : Option OwnerIdentity × Storage :=
  let pinned := (storage.ownerUserId.filter (· ≠ "")).bind accounts.getUser
  match pinned with
  | some user => (some user, storage)
  | none =>
    let storage := if storage.ownerUserId.any (· ≠ "") then { storage with ownerUserId := none } else storage
    match accounts.listUsers with
    | [user] => (some user, { storage with ownerUserId := some user.id })
    | _ => (none, storage)

end Credentials

section Calls

inductive Response where
  | oauthError (error : String) (status : ℕ)
  | page (status : ℕ)
  | registered (client : OwnerClient)
  | redirect (code : String)
  | tokens (accessToken : Bearer) (expiresIn : ℕ) (refreshToken scope : String)
  | revoked
  | principal (subject : String) (scopes : List String) (userId : String)
  | unauthorized (error : String) (status : ℕ)
  | rotated
  | activated (changed : Bool)
  | thrown (message : String)
  deriving DecidableEq

def authenticate (server : Server) (token : Option Bearer) (accounts : Accounts) (now : ℕ) :
    Response × Server :=
  match token with
  | none => (.unauthorized "invalid_token" 401, server)
  | some token =>
    match verifyAccessToken crypto config server token with
    | (none, server) => (.unauthorized "invalid_token" 401, server)
    | (some claims, server) =>
      if claims.exp ≤ nowSeconds now then (.unauthorized "invalid_token" 401, server)
      else if (server.storage.revoked claims.jti).any (nowSeconds now < ·) then
        (.unauthorized "invalid_token" 401, server)
      else
        let server := { server with storage := { server.storage with
          revoked := Function.update server.storage.revoked claims.jti none } }
        let scopes := parseScopes claims.scope
        if config.requiredScope ∉ scopes then (.unauthorized "insufficient_scope" 403, server)
        else
          match resolveOwnerUser server.storage accounts with
          | (none, storage) => (.unauthorized "invalid_token" 401, { server with storage })
          | (some user, storage) =>
            if claims.userId = some user.id then
              (.principal claims.sub scopes user.id, { server with storage })
            else (.unauthorized "invalid_token" 401, { server with storage })

def validPassword (password : String) : Bool :=
  0 < utf16Length password && utf16Length password ≤ 2048 &&
    password.toList.all fun c => c ≠ '\r' && c ≠ '\n' && c ≠ '\x00'

def rotateOwnerPassword (server : Server) (password version : String) : Response × Server :=
  if validPassword password then
    let material := { deriveOwnerCredentialMaterial crypto password with credentialVersion := some version }
    (.rotated, ⟨{ server.storage with material := some material }, none⟩)
  else (.thrown "Owner password is invalid.", server)

def recoverAccess (server : Server) (accounts : Accounts) (password version : String) : Response × Server :=
  match resolveOwnerUser server.storage accounts with
  | (none, storage) =>
    (.thrown "Single-user identity requires explicit administrative migration.", { server with storage })
  | (some _, storage) => rotateOwnerPassword crypto { server with storage } password version

def bumpCredentialVersion (storage : Storage) (version : String) : Option Storage :=
  (loadMaterial crypto config storage).map fun material =>
    { storage with material := some { material with credentialVersion := some version } }

def activateSingleUser (server : Server) (accounts : Accounts) (userId version : String) :
    Response × Server :=
  match accounts.listUsers with
  | [user] =>
    if user.id ≠ userId then (.thrown "Canonical single-user identity is not available.", server)
    else if server.storage.ownerUserId = some user.id then (.activated false, server)
    else
      let storage := { server.storage with ownerUserId := some user.id }
      match bumpCredentialVersion crypto config storage version with
      | some storage => (.activated true, { server with storage })
      | none => (.thrown "Owner credential material is not configured.", { server with storage })
  | _ => (.thrown "Canonical single-user identity is not available.", server)

structure RegisterInput where
  redirectUris : List String
  authMethod : Option String
  grantTypes : List String
  responseTypes : List String

def register (server : Server) (input : RegisterInput) (random : String) : Response × Server :=
  if input.redirectUris = [] ∨ 16 < input.redirectUris.length ∨
      !input.redirectUris.all config.redirectAllowed ∨ input.authMethod.any (· ≠ "none") then
    (.oauthError "invalid_client_metadata" 400, server)
  else if 256 ≤ server.storage.clientCount then (.oauthError "invalid_client_metadata" 400, server)
  else if !input.grantTypes.all (["authorization_code", "refresh_token"].contains ·) ∨
      !input.responseTypes.all (· = "code") then
    (.oauthError "invalid_client_metadata" 400, server)
  else
    let client : OwnerClient := ⟨"mcp-" ++ random, input.redirectUris⟩
    (.registered client, { server with storage := { server.storage with
      clients := Function.update server.storage.clients client.clientId (some client)
      clientCount := server.storage.clientCount+1 } })

structure AuthorizeFields where
  post : Bool
  clientId : String
  redirectUri : String
  codeChallenge : String
  resource : String
  scope : Option String
  responseType : Option String
  codeChallengeMethod : Option String
  ownerPassword : String

def authorizeRefused (fields : AuthorizeFields) (client : OwnerClient) (scopes : List String) : Bool :=
  fields.responseType ≠ some "code" || fields.codeChallengeMethod ≠ some "S256" ||
    utf16Length fields.codeChallenge < 32 || !client.redirectUris.contains fields.redirectUri ||
    fields.resource ≠ config.mcpUrl || scopes = [] || !scopes.all config.scopes.contains

def authorizationCodeTtlMs : ℕ := 5*60*1000

def authorize (server : Server) (fields : AuthorizeFields) (accounts : Accounts) (now : ℕ)
    (random : String) : Response × Server :=
  match server.storage.clients fields.clientId with
  | none => (.oauthError "invalid_request" 400, server)
  | some client =>
    let scopes := parseScopes (fields.scope.getD (" ".intercalate config.scopes))
    if authorizeRefused config fields client scopes then (.oauthError "invalid_request" 400, server)
    else if currentCredentialVersion server.storage = none then (.page 503, server)
    else if !fields.post then (.page 200, server)
    else if !ownerSecretMatches crypto config server.storage fields.ownerPassword then (.page 401, server)
    else
      match resolveOwnerUser server.storage accounts with
      | (none, storage) => (.page 409, { server with storage })
      | (some user, storage) =>
        let code := "code-" ++ random
        let record : AuthorizationCodeRecord := {
          clientId := fields.clientId, redirectUri := fields.redirectUri
          codeChallenge := fields.codeChallenge, scopes, resource := fields.resource
          expiresAtMs := now+authorizationCodeTtlMs, userId := some user.id }
        (.redirect code, { server with storage := { storage with
          codes := Function.update storage.codes (crypto.sha256Base64Url code) (some record) } })

end Calls

section Tokens

inductive Grant where
  | code (rawCode : String) (redirectUri resource : Option String) (codeVerifier : String)
  | refresh (refreshToken : String) (resource scope : Option String)
  | other
  deriving DecidableEq

structure TokenFields where
  clientId : String
  grant : Grant
  deriving DecidableEq

/-- What a record is compared with after it has been read, before the next
await. -/
def codeAccepted (clientId : String) (redirectUri resource : Option String)
    (record : AuthorizationCodeRecord) (now : ℕ) : Bool :=
  record.clientId = clientId && now ≤ record.expiresAtMs && redirectUri = some record.redirectUri &&
    resource = some record.resource

def refreshAccepted (clientId : String) (record : RefreshTokenRecord) (now : ℕ) : Bool :=
  record.clientId = clientId && nowSeconds now < record.expiresAt

def requestedScopes (scope : Option String) (record : RefreshTokenRecord) : List String :=
  parseScopes (scope.getD (" ".intercalate record.scopes))

/-- The checks of a refresh after the credential version has been read. -/
def refreshRefused (resource scope : Option String) (record : RefreshTokenRecord)
    (version : Option String) : Option String :=
  if record.credentialVersion ≠ version then some "invalid_grant"
  else if resource.getD record.resource ≠ record.resource then some "invalid_grant"
  else if (requestedScopes scope record).all record.scopes.contains then none
  else some "invalid_scope"

/-- Random values of `issueTokens`. -/
structure Randoms where
  token : String
  jti : String
  deriving DecidableEq

def accessClaims (clientId : String) (scopes : List String) (resource : String) (userId : Option String)
    (now : ℕ) (jti : String) : OwnerAccessClaims where
  iss := config.publicBaseUrl
  aud := resource
  sub := match userId.filter (· ≠ "") with
    | some userId => "user:" ++ userId
    | none => "owner:" ++ clientId
  scope := " ".intercalate scopes
  clientId
  userId
  iat := nowSeconds now
  exp := nowSeconds now+config.accessTokenTtlSeconds
  jti

def refreshRecord (clientId : String) (scopes : List String) (resource : String) (userId : Option String)
    (now : ℕ) (version : Option String) : RefreshTokenRecord :=
  ⟨clientId, scopes, resource, nowSeconds now+config.refreshTokenTtlSeconds, version, userId⟩

def issueTokens (server : Server) (clientId : String) (scopes : List String) (resource : String)
    (userId : Option String) (now : ℕ) (random : Randoms) : Response × Server :=
  match hmacKey crypto config server with
  | (none, server) => (.thrown "Owner credential material is not configured.", server)
  | (some key, server) =>
    let claims := accessClaims config clientId scopes resource userId now random.jti
    let refreshToken := "refresh-" ++ random.token
    let record := refreshRecord config clientId scopes resource userId now
      (currentCredentialVersion server.storage)
    (.tokens (.signed key claims) config.accessTokenTtlSeconds refreshToken (" ".intercalate scopes),
      { server with storage := { server.storage with
        refresh := Function.update server.storage.refresh (crypto.sha256Base64Url refreshToken)
          (some record) } })

def Storage.deleteCode (storage : Storage) (key : String) : Storage :=
  { storage with codes := Function.update storage.codes key none }

def Storage.deleteRefresh (storage : Storage) (key : String) : Storage :=
  { storage with refresh := Function.update storage.refresh key none }

def token (server : Server) (fields : TokenFields) (now : ℕ) (random : Randoms) : Response × Server :=
  if (server.storage.clients fields.clientId).isNone then (.oauthError "invalid_client" 400, server)
  else match fields.grant with
    | .code rawCode redirectUri resource codeVerifier =>
      let key := crypto.sha256Base64Url rawCode
      match server.storage.codes key with
      | none => (.oauthError "invalid_grant" 400, server)
      | some record =>
        if !codeAccepted fields.clientId redirectUri resource record now then
          (.oauthError "invalid_grant" 400, server)
        else if crypto.sha256Base64Url codeVerifier ≠ record.codeChallenge then
          (.oauthError "invalid_grant" 400, server)
        else issueTokens crypto config { server with storage := server.storage.deleteCode key }
          fields.clientId record.scopes record.resource record.userId now random
    | .refresh refreshToken resource scope =>
      let key := crypto.sha256Base64Url refreshToken
      match server.storage.refresh key with
      | none => (.oauthError "invalid_grant" 400, server)
      | some record =>
        if !refreshAccepted fields.clientId record now then (.oauthError "invalid_grant" 400, server)
        else match refreshRefused resource scope record (currentCredentialVersion server.storage) with
          | some error => (.oauthError error 400, server)
          | none => issueTokens crypto config { server with storage := server.storage.deleteRefresh key }
            fields.clientId (requestedScopes scope record) record.resource record.userId now random
    | .other => (.oauthError "unsupported_grant_type" 400, server)

def revoke (server : Server) (token : Option Bearer) : Response × Server :=
  match token with
  | none => (.revoked, server)
  | some token =>
    match verifyAccessToken crypto config server token with
    | (some claims, server) => (.revoked, { server with storage := { server.storage with
        revoked := Function.update server.storage.revoked claims.jti (some claims.exp) } })
    | (none, server) =>
      let raw := match token with
        | .text value => value
        | .signed key claims => crypto.encode key claims
      (.revoked, { server with storage := server.storage.deleteRefresh (crypto.sha256Base64Url raw) })

end Tokens

section Samples

def plainCrypto : Crypto := ⟨("#" ++ ·), ("key of " ++ ·), fun key claims => key ++ claims.jti⟩

def plainConfig : Config where
  ownerSecret := none
  publicBaseUrl := "https://edge.example/"
  mcpUrl := "https://edge.example/mcp"
  scopes := ["mcp:tools"]
  accessTokenTtlSeconds := 600
  refreshTokenTtlSeconds := 6000
  redirectAllowed := fun _ => true

end Samples

end AccessStack.OAuth
