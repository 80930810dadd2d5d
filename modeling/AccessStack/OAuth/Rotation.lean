import AccessStack.OAuth.Owner
import AccessStack.Runs

/-!
# What a rotation leaves behind

A world is the server together with what its clients hold: everything that
has been handed out, and the part of it that was handed out before the last
rotation. A refresh token carries the credential version and is refused after
every rotation. An authorization code carries nothing, and an access token
only the key it was signed with and its user, so these two need that the
codes have expired, that the new key is new and that the owner is new.
-/

set_option autoImplicit false

namespace AccessStack.OAuth.Rotation
open AccessStack.Runs

section Worlds

inductive Call where
  | register (input : RegisterInput) (random : String)
  | authorize (fields : AuthorizeFields) (accounts : Accounts) (random : String)
  | token (fields : TokenFields) (random : Randoms)
  | revoke (token : Option Bearer)
  | authenticate (token : Option Bearer) (accounts : Accounts)
  | rotateOwnerPassword (password version : String)
  | recoverAccess (accounts : Accounts) (password version : String)
  | activateSingleUser (accounts : Accounts) (userId version : String)

/-- A call at a time, or a new process on the same storage. -/
inductive Event where
  | call (now : ℕ) (call : Call)
  | restart

structure Issued where
  codes : List String
  refreshTokens : List String
  accessTokens : List (String × OwnerAccessClaims)

structure World where
  server : Server
  clock : ℕ
  versions : List String
  issued : Issued
  stale : Issued

def World.initial : World := ⟨Server.initial, 0, [], ⟨[], [], []⟩, ⟨[], [], []⟩⟩

variable (crypto : Crypto) (config : Config)

def perform (server : Server) (now : ℕ) : Call → Response × Server
  | .register input random => register config server input random
  | .authorize fields accounts random => authorize crypto config server fields accounts now random
  | .token fields random => token crypto config server fields now random
  | .revoke token => revoke crypto config server token
  | .authenticate token accounts => authenticate crypto config server token accounts now
  | .rotateOwnerPassword password version => rotateOwnerPassword crypto server password version
  | .recoverAccess accounts password version => recoverAccess crypto server accounts password version
  | .activateSingleUser accounts userId version =>
    activateSingleUser crypto config server accounts userId version

/-- What a response hands out. -/
def Issued.add (issued : Issued) : Response → Issued
  | .redirect code => { issued with codes := issued.codes ++ [code] }
  | .tokens (.signed key claims) _ refreshToken _ =>
    { issued with
      refreshTokens := issued.refreshTokens ++ [refreshToken]
      accessTokens := issued.accessTokens ++ [(key, claims)] }
  | _ => issued

/-- The password has been rotated, or another user activated. -/
def rotates : Response → Bool
  | .rotated | .activated true => true
  | _ => false

def Call.version : Call → Option String
  | .rotateOwnerPassword _ version | .recoverAccess _ _ version | .activateSingleUser _ _ version =>
    some version
  | _ => none

def step (w : World) : Event → World
  | .call now call =>
    let done := perform crypto config w.server now call
    { server := done.2
      clock := now
      versions := w.versions ++ call.version.toList
      issued := w.issued.add done.1
      stale := if rotates done.1 then w.issued else w.stale }
  | .restart => { w with server := { w.server with hmacKeyPromise := none } }

/-- Random values are new, and the clock does not go back. -/
def Timely (w : World) : Event → Prop
  | .call now call => w.clock ≤ now ∧ match call with
    | .authorize _ _ random =>
      crypto.sha256Base64Url ("code-" ++ random) ∉ w.issued.codes.map crypto.sha256Base64Url
    | .token _ random =>
      crypto.sha256Base64Url ("refresh-" ++ random.token) ∉ w.issued.refreshTokens.map crypto.sha256Base64Url
    | .rotateOwnerPassword _ version | .recoverAccess _ _ version | .activateSingleUser _ _ version =>
      version ∉ w.versions
    | _ => True
  | .restart => True

instance (w : World) (e : Event) : Decidable (Timely crypto w e) := by
  cases e with
  | restart => exact inferInstanceAs (Decidable True)
  | call now call => cases call <;> unfold Timely <;> infer_instance

end Worlds

section Conditions

variable (crypto : Crypto) (config : Config)

/-- Every code that has been handed out is used up or has expired. -/
def CodesOver (w : World) (now : ℕ) : Prop :=
  ∀ code ∈ w.issued.codes,
    (w.server.storage.codes (crypto.sha256Base64Url code)).all (·.expiresAtMs < now) = true

/-- Every access token that has been handed out has expired or was signed
with another key. -/
def KeyUnused (w : World) (now : ℕ) (key : String) : Prop :=
  ∀ token ∈ w.issued.accessTokens, token.2.exp ≤ nowSeconds now ∨ token.1 ≠ key

/-- Every access token that has been handed out has expired, was signed with
another key than the current one or names another user. -/
def OwnerUnused (w : World) (now : ℕ) (userId : String) : Prop :=
  ∀ token ∈ w.issued.accessTokens, token.2.exp ≤ nowSeconds now ∨
    some token.1 ≠ loadSigningKey crypto config w.server.storage ∨ token.2.userId ≠ some userId

/-- The user `resolveOwnerUser` would make the owner, if it is another one. -/
def newOwner (storage : Storage) (accounts : Accounts) : Option String :=
  if ((storage.ownerUserId.filter (· ≠ "")).bind accounts.getUser).isSome then none
  else match accounts.listUsers with
    | [user] => some user.id
    | _ => none

def Careful (w : World) : Event → Prop
  | .call now call => match call with
    | .authorize _ accounts _ | .authenticate _ accounts =>
      ∀ userId ∈ (newOwner w.server.storage accounts).toList, OwnerUnused crypto config w now userId
    | .rotateOwnerPassword password _ => CodesOver crypto w now ∧ KeyUnused w now (crypto.signingKey password)
    | .recoverAccess accounts password _ =>
      (∀ userId ∈ (newOwner w.server.storage accounts).toList, OwnerUnused crypto config w now userId) ∧
        CodesOver crypto w now ∧ KeyUnused w now (crypto.signingKey password)
    | .activateSingleUser _ userId _ =>
      w.server.storage.ownerUserId = some userId ∨
        (CodesOver crypto w now ∧ OwnerUnused crypto config w now userId)
    | _ => True
  | .restart => True

instance (w : World) (e : Event) : Decidable (Careful crypto config w e) := by
  cases e with
  | restart => exact inferInstanceAs (Decidable True)
  | call now call =>
    cases call <;> unfold Careful <;> (try unfold CodesOver) <;> (try unfold KeyUnused) <;>
      (try unfold OwnerUnused) <;> infer_instance

/-- A call has led to tokens or to a principal. -/
def accepts : Response → Bool
  | .tokens .. | .principal .. => true
  | _ => false

end Conditions

section Effects

variable (crypto : Crypto) (config : Config)

/-- The current key, as a server that has loaded one remembers it. -/
def Cached (server : Server) : Prop :=
  ∀ key, server.hmacKeyPromise = some (some key) → loadSigningKey crypto config server.storage = some key

/-- What a call without a rotation does. -/
structure Quiet (owners : String → Prop) (server : Server) (done : Response × Server) : Prop where
  same : rotates done.1 = false
  codes : ∀ key record, done.2.storage.codes key = some record → server.storage.codes key = some record ∨
    ∃ code, done.1 = .redirect code ∧ key = crypto.sha256Base64Url code
  refresh : ∀ key record, done.2.storage.refresh key = some record → server.storage.refresh key =
    some record ∨
    ∃ token expiresIn refreshToken scope, done.1 = .tokens token expiresIn refreshToken scope ∧
      key = crypto.sha256Base64Url refreshToken ∧
      record.credentialVersion = currentCredentialVersion server.storage
  material : done.2.storage.material = server.storage.material
  owner : ∀ userId, done.2.storage.ownerUserId = some userId →
    server.storage.ownerUserId = some userId ∨ owners userId
  cached : Cached crypto config server → Cached crypto config done.2

/-- What a call may do to the storage without handing anything out. -/
structure Keeps (owners : String → Prop) (server server' : Server) : Prop where
  codes : ∀ key record, server'.storage.codes key = some record → server.storage.codes key = some record
  refresh : ∀ key record, server'.storage.refresh key = some record → server.storage.refresh key = some record
  material : server'.storage.material = server.storage.material
  owner : ∀ userId, server'.storage.ownerUserId = some userId →
    server.storage.ownerUserId = some userId ∨ owners userId
  cached : Cached crypto config server → Cached crypto config server'

variable {crypto config} {owners : String → Prop} {server : Server}

theorem loadSigningKey_congr {storage storage' : Storage} (h : storage'.material = storage.material) :
    loadSigningKey crypto config storage' = loadSigningKey crypto config storage := by
  simp only [loadSigningKey, loadMaterial, h]

theorem currentCredentialVersion_congr {storage storage' : Storage}
    (h : storage'.material = storage.material) :
    currentCredentialVersion storage' = currentCredentialVersion storage := by
  simp only [currentCredentialVersion, h]

theorem cached_congr {server' : Server} (h : server'.storage.material = server.storage.material)
    (hkey : server'.hmacKeyPromise = server.hmacKeyPromise) (hc : Cached crypto config server) :
    Cached crypto config server' := by
  intro key hk
  rw [hkey] at hk
  rw [loadSigningKey_congr h]
  exact hc key hk

theorem keeps_answer {response : Response} {server' : Server} (hresponse : rotates response = false)
    (h : Keeps crypto config owners server server') :
    Quiet crypto config owners server (response, server') where
  same := hresponse
  codes key record hr := .inl (h.codes key record hr)
  refresh key record hr := .inl (h.refresh key record hr)
  material := h.material
  owner := h.owner
  cached := h.cached

theorem keeps_refl : Keeps crypto config owners server server :=
  ⟨fun _ _ h => h, fun _ _ h => h, rfl, fun _ h => .inl h, fun h => h⟩

theorem Keeps.trans {server1 server2 : Server} (h : Keeps crypto config owners server server1)
    (h' : Keeps crypto config owners server1 server2) : Keeps crypto config owners server server2 where
  codes key record hr := h.codes key record (h'.codes key record hr)
  refresh key record hr := h.refresh key record (h'.refresh key record hr)
  material := h'.material.trans h.material
  owner userId hu := (h'.owner userId hu).elim (h.owner userId) .inr
  cached hc := h'.cached (h.cached hc)

theorem Keeps.quiet {server' : Server} {done : Response × Server}
    (h : Keeps crypto config owners server server') (hq : Quiet crypto config owners server' done) :
    Quiet crypto config owners server done where
  same := hq.same
  codes key record hr := (hq.codes key record hr).imp_left (h.codes key record)
  refresh key record hr := by
    rcases hq.refresh key record hr with hr | ⟨token, expiresIn, refreshToken, scope, hd, hk, hv⟩
    · exact .inl (h.refresh key record hr)
    · rw [currentCredentialVersion_congr h.material] at hv
      exact .inr ⟨token, expiresIn, refreshToken, scope, hd, hk, hv⟩
  material := hq.material.trans h.material
  owner userId hu := (hq.owner userId hu).elim (h.owner userId) .inr
  cached hc := hq.cached (h.cached hc)

theorem keeps_hmacKey (crypto : Crypto) (config : Config) (owners : String → Prop) (server : Server) :
    Keeps crypto config owners server (hmacKey crypto config server).2 := by
  unfold hmacKey
  split
  · exact keeps_refl
  · refine ⟨fun _ _ h => h, fun _ _ h => h, rfl, fun _ h => .inl h, ?_⟩
    intro _ key hk
    exact Option.some.inj hk

theorem keeps_verify (crypto : Crypto) (config : Config) (owners : String → Prop) (server : Server)
    (token : Bearer) :
    Keeps crypto config owners server (verifyAccessToken crypto config server token).2 := by
  cases token with
  | text value => exact keeps_refl
  | signed key claims =>
    simp only [verifyAccessToken]
    split
    · exact keeps_hmacKey crypto config owners server
    · exact keeps_refl

theorem verify_storage (crypto : Crypto) (config : Config) (server : Server) (token : Bearer) :
    (verifyAccessToken crypto config server token).2.storage = server.storage := by
  cases token with
  | text value => rfl
  | signed key claims =>
    simp only [verifyAccessToken]
    split
    · exact hmacKey_storage crypto config server
    · rfl

theorem keeps_resolve (crypto : Crypto) (config : Config) (server : Server) {accounts : Accounts}
    (howners : ∀ userId, newOwner server.storage accounts = some userId → owners userId) :
    Keeps crypto config owners server
      { server with storage := (resolveOwnerUser server.storage accounts).2 } := by
  have hkept : ∀ storage' : Storage, storage'.codes = server.storage.codes →
      storage'.refresh = server.storage.refresh → storage'.material = server.storage.material →
      (∀ userId, storage'.ownerUserId = some userId →
        server.storage.ownerUserId = some userId ∨ owners userId) →
      Keeps crypto config owners server { server with storage := storage' } := by
    intro storage' hcodes hrefresh hmaterial howner
    refine ⟨?_, ?_, hmaterial, howner, cached_congr hmaterial rfl⟩
    · rw [hcodes]
      exact fun _ _ h => h
    · rw [hrefresh]
      exact fun _ _ h => h
  unfold newOwner at howners
  unfold resolveOwnerUser
  simp only
  split
  · exact keeps_refl
  · rename_i hpinned
    rw [hpinned] at howners
    simp only [Option.isSome_none, Bool.false_eq_true, if_false] at howners
    split
    · rename_i user hlist
      rw [hlist] at howners
      refine hkept _ ?_ ?_ ?_ ?_
      · split <;> rfl
      · split <;> rfl
      · split <;> rfl
      · intro userId hu
        exact .inr (howners userId hu)
    · refine hkept _ ?_ ?_ ?_ ?_
      · split <;> rfl
      · split <;> rfl
      · split <;> rfl
      · intro userId hu
        split at hu
        · cases hu
        · exact .inl hu

theorem keeps_deleteCode (server : Server) (key : String) :
    Keeps crypto config owners server { server with storage := server.storage.deleteCode key } := by
  refine ⟨?_, fun _ _ h => h, rfl, fun _ h => .inl h, cached_congr rfl rfl⟩
  intro key' record h
  by_cases hkey : key' = key
  · simp [Storage.deleteCode, hkey] at h
  · simpa [Storage.deleteCode, Function.update_of_ne hkey] using h

theorem keeps_deleteRefresh (server : Server) (key : String) :
    Keeps crypto config owners server { server with storage := server.storage.deleteRefresh key } := by
  refine ⟨fun _ _ h => h, ?_, rfl, fun _ h => .inl h, cached_congr rfl rfl⟩
  intro key' record h
  by_cases hkey : key' = key
  · simp [Storage.deleteRefresh, hkey] at h
  · simpa [Storage.deleteRefresh, Function.update_of_ne hkey] using h

theorem keeps_revoked (crypto : Crypto) (config : Config) (owners : String → Prop) (server : Server)
    (revoked : String → Option ℕ) :
    Keeps crypto config owners server { server with storage := { server.storage with revoked } } :=
  ⟨fun _ _ h => h, fun _ _ h => h, rfl, fun _ h => .inl h, cached_congr rfl rfl⟩

theorem register_quiet (server : Server) (input : RegisterInput) (random : String) :
    Quiet crypto config owners server (register config server input random) := by
  unfold register
  split
  · exact keeps_answer rfl keeps_refl
  split
  · exact keeps_answer rfl keeps_refl
  split
  · exact keeps_answer rfl keeps_refl
  · exact keeps_answer rfl ⟨fun _ _ h => h, fun _ _ h => h, rfl, fun _ h => .inl h, cached_congr rfl rfl⟩

theorem authorize_quiet {fields : AuthorizeFields} {accounts : Accounts} {now : ℕ} {random : String}
    (howners : ∀ userId, newOwner server.storage accounts = some userId → owners userId) :
    Quiet crypto config owners server (authorize crypto config server fields accounts now random) := by
  have hresolve := keeps_resolve crypto config server howners
  unfold authorize
  split
  · exact keeps_answer rfl keeps_refl
  simp only
  split
  · exact keeps_answer rfl keeps_refl
  split
  · exact keeps_answer rfl keeps_refl
  split
  · exact keeps_answer rfl keeps_refl
  split
  · exact keeps_answer rfl keeps_refl
  split
  · rename_i storage hr
    rw [hr] at hresolve
    exact keeps_answer rfl hresolve
  · rename_i user storage hr
    rw [hr] at hresolve
    refine hresolve.quiet ⟨rfl, ?_, fun _ _ h => .inl h, rfl, fun _ h => .inl h, cached_congr rfl rfl⟩
    intro key record h
    by_cases hkey : key = crypto.sha256Base64Url ("code-" ++ random)
    · exact .inr ⟨_, rfl, hkey⟩
    · simp only [Function.update_of_ne hkey] at h
      exact .inl h

theorem issueTokens_quiet (server : Server) (clientId : String) (scopes : List String) (resource : String)
    (userId : Option String) (now : ℕ) (random : Randoms) :
    Quiet crypto config owners server
      (issueTokens crypto config server clientId scopes resource userId now random) := by
  have hkey := keeps_hmacKey crypto config owners server
  unfold issueTokens
  split
  · rename_i server' hr
    rw [hr] at hkey
    exact keeps_answer rfl hkey
  · rename_i key server' hr
    rw [hr] at hkey
    refine hkey.quiet ⟨rfl, fun _ _ h => .inl h, ?_, rfl, fun _ h => .inl h, cached_congr rfl rfl⟩
    intro key' record h
    by_cases hkey' : key' = crypto.sha256Base64Url ("refresh-" ++ random.token)
    · subst hkey'
      simp only [Function.update_self, Option.some.injEq] at h
      rw [← h]
      exact .inr ⟨_, _, _, _, rfl, rfl, rfl⟩
    · simp only [Function.update_of_ne hkey'] at h
      exact .inl h

theorem token_quiet (server : Server) (fields : TokenFields) (now : ℕ) (random : Randoms) :
    Quiet crypto config owners server (token crypto config server fields now random) := by
  unfold token
  split
  · exact keeps_answer rfl keeps_refl
  split
  · simp only
    split
    · exact keeps_answer rfl keeps_refl
    split
    · exact keeps_answer rfl keeps_refl
    split
    · exact keeps_answer rfl keeps_refl
    · exact (keeps_deleteCode server _).quiet (issueTokens_quiet _ _ _ _ _ _ _)
  · simp only
    split
    · exact keeps_answer rfl keeps_refl
    split
    · exact keeps_answer rfl keeps_refl
    split
    · exact keeps_answer rfl keeps_refl
    · exact (keeps_deleteRefresh server _).quiet (issueTokens_quiet _ _ _ _ _ _ _)
  · exact keeps_answer rfl keeps_refl

theorem revoke_quiet (server : Server) (token : Option Bearer) :
    Quiet crypto config owners server (revoke crypto config server token) := by
  cases token with
  | none => exact keeps_answer rfl keeps_refl
  | some token =>
    have hverify := keeps_verify crypto config owners server token
    simp only [revoke]
    split
    · rename_i claims server' hr
      rw [hr] at hverify
      exact keeps_answer rfl (hverify.trans (keeps_revoked crypto config owners server' _))
    · rename_i server' hr
      rw [hr] at hverify
      exact keeps_answer rfl (hverify.trans (keeps_deleteRefresh server' _))

theorem authenticate_quiet {token : Option Bearer} {accounts : Accounts} {now : ℕ}
    (howners : ∀ userId, newOwner server.storage accounts = some userId → owners userId) :
    Quiet crypto config owners server (authenticate crypto config server token accounts now) := by
  cases token with
  | none => exact keeps_answer rfl keeps_refl
  | some token =>
    have hverify := keeps_verify crypto config owners server token
    have hsame : ∀ server' claims, verifyAccessToken crypto config server token = (claims, server') →
        newOwner server'.storage accounts = newOwner server.storage accounts := by
      intro server' claims hr
      have := verify_storage crypto config server token
      rw [hr] at this
      rw [this]
    simp only [authenticate]
    split
    · rename_i server' hr
      rw [hr] at hverify
      exact keeps_answer rfl hverify
    · rename_i claims server' hr
      have howners' : ∀ userId, newOwner server'.storage accounts = some userId → owners userId := by
        rw [hsame server' _ hr]
        exact howners
      rw [hr] at hverify
      split
      · exact keeps_answer rfl hverify
      split
      · exact keeps_answer rfl hverify
      have hrevoked := keeps_revoked crypto config owners server'
        (Function.update server'.storage.revoked claims.jti none)
      split
      · exact keeps_answer rfl (hverify.trans hrevoked)
      have hresolve := keeps_resolve crypto config { server' with storage := { server'.storage with
          revoked := Function.update server'.storage.revoked claims.jti none } } howners'
      split
      · rename_i storage hu
        rw [hu] at hresolve
        exact keeps_answer rfl ((hverify.trans hrevoked).trans hresolve)
      · rename_i user storage hu
        rw [hu] at hresolve
        split
        · exact keeps_answer rfl ((hverify.trans hrevoked).trans hresolve)
        · exact keeps_answer rfl ((hverify.trans hrevoked).trans hresolve)

end Effects

section Invariant

variable (crypto : Crypto) (config : Config)

structure Inv (w : World) : Prop where
  codes : ∀ code ∈ w.stale.codes, code ∈ w.issued.codes ∧ ∀ record,
    w.server.storage.codes (crypto.sha256Base64Url code) = some record → record.expiresAtMs < w.clock
  refreshTokens : ∀ token ∈ w.stale.refreshTokens, token ∈ w.issued.refreshTokens ∧ ∀ record,
    w.server.storage.refresh (crypto.sha256Base64Url token) = some record →
      record.credentialVersion ≠ currentCredentialVersion w.server.storage
  accessTokens : ∀ token ∈ w.stale.accessTokens, token ∈ w.issued.accessTokens ∧
    (token.2.exp ≤ nowSeconds w.clock ∨ some token.1 ≠ loadSigningKey crypto config w.server.storage ∨
      ∀ userId, w.server.storage.ownerUserId = some userId → token.2.userId ≠ some userId)
  versions : ∀ key record version, w.server.storage.refresh key = some record →
    record.credentialVersion = some version → version ∈ w.versions
  current : ∀ version, currentCredentialVersion w.server.storage = some version → version ∈ w.versions
  cached : Cached crypto config w.server

variable {crypto config} {w : World} {now : ℕ} {call : Call}

theorem nowSeconds_mono {now now' : ℕ} (h : now ≤ now') : nowSeconds now ≤ nowSeconds now' :=
  Nat.div_le_div_right h

theorem add_codes (issued : Issued) (response : Response) : issued.codes ⊆ (issued.add response).codes := by
  intro code h
  unfold Issued.add
  split
  · exact List.mem_append_left _ h
  · exact h
  · exact h

theorem add_refreshTokens (issued : Issued) (response : Response) :
    issued.refreshTokens ⊆ (issued.add response).refreshTokens := by
  intro token h
  unfold Issued.add
  split
  · exact h
  · exact List.mem_append_left _ h
  · exact h

theorem add_accessTokens (issued : Issued) (response : Response) :
    issued.accessTokens ⊆ (issued.add response).accessTokens := by
  intro token h
  unfold Issued.add
  split
  · exact h
  · exact List.mem_append_left _ h
  · exact h

/-- A call without a rotation keeps what is refused refused. -/
theorem inv_quiet {owners : String → Prop} {done : Response × Server} {versions : List String}
    (h : Inv crypto config w) (hclock : w.clock ≤ now)
    (hq : Quiet crypto config owners w.server done)
    (hcodes : ∀ code, done.1 = .redirect code →
      crypto.sha256Base64Url code ∉ w.issued.codes.map crypto.sha256Base64Url)
    (hrefresh : ∀ token expiresIn refreshToken scope, done.1 = .tokens token expiresIn refreshToken scope →
      crypto.sha256Base64Url refreshToken ∉ w.issued.refreshTokens.map crypto.sha256Base64Url)
    (howners : ∀ userId, owners userId → OwnerUnused crypto config w now userId)
    (hversions : w.versions ⊆ versions) :
    Inv crypto config ⟨done.2, now, versions, w.issued.add done.1, w.stale⟩ := by
  refine ⟨?_, ?_, ?_, ?_, ?_, hq.cached h.cached⟩
  · intro code hcode
    obtain ⟨hissued, hexpired⟩ := h.codes code hcode
    refine ⟨add_codes _ _ hissued, ?_⟩
    intro record hrecord
    rcases hq.codes _ record hrecord with hrecord | ⟨code', hdone, hkey⟩
    · exact Nat.lt_of_lt_of_le (hexpired record hrecord) hclock
    · exact absurd (hkey ▸ List.mem_map_of_mem hissued) (hcodes code' hdone)
  · intro token htoken
    obtain ⟨hissued, hold⟩ := h.refreshTokens token htoken
    refine ⟨add_refreshTokens _ _ hissued, ?_⟩
    intro record hrecord
    rw [currentCredentialVersion_congr hq.material]
    rcases hq.refresh _ record hrecord with hrecord | ⟨_, _, token', _, hdone, hkey, _⟩
    · exact hold record hrecord
    · exact absurd (hkey ▸ List.mem_map_of_mem hissued) (hrefresh _ _ token' _ hdone)
  · intro token htoken
    obtain ⟨hissued, hdead⟩ := h.accessTokens token htoken
    refine ⟨add_accessTokens _ _ hissued, ?_⟩
    rw [loadSigningKey_congr hq.material]
    rcases hdead with hexpired | hkey | howner
    · exact .inl (hexpired.trans (nowSeconds_mono hclock))
    · exact .inr (.inl hkey)
    · by_cases hexpired : token.2.exp ≤ nowSeconds now
      · exact .inl hexpired
      · by_cases hkey : some token.1 = loadSigningKey crypto config w.server.storage
        · refine .inr (.inr ?_)
          intro userId huser
          rcases hq.owner userId huser with huser | hnew
          · exact howner userId huser
          · rcases howners userId hnew token hissued with hdead | hdead | hdead
            · exact absurd hdead hexpired
            · exact absurd hkey hdead
            · exact hdead
        · exact .inr (.inl hkey)
  · intro key record version hrecord hversion
    rcases hq.refresh key record hrecord with hrecord | ⟨_, _, _, _, _, _, hcurrent⟩
    · exact hversions (h.versions key record version hrecord hversion)
    · rw [hcurrent] at hversion
      exact hversions (h.current version hversion)
  · intro version hversion
    rw [currentCredentialVersion_congr hq.material] at hversion
    exact hversions (h.current version hversion)

/-- A rotation refuses everything handed out before, if the codes are over
and no access token fits the new key and owner. -/
theorem inv_rotation {storage : Storage} {cache : Option (Option String)} {version : String}
    (h : Inv crypto config w) (hcodes : storage.codes = w.server.storage.codes)
    (hrefresh : storage.refresh = w.server.storage.refresh)
    (hversion : currentCredentialVersion storage = some version) (hnew : version ∉ w.versions)
    (hover : CodesOver crypto w now)
    (hdead : ∀ token ∈ w.issued.accessTokens, token.2.exp ≤ nowSeconds now ∨
      some token.1 ≠ loadSigningKey crypto config storage ∨
        ∀ userId, storage.ownerUserId = some userId → token.2.userId ≠ some userId)
    (hcached : Cached crypto config ⟨storage, cache⟩) :
    Inv crypto config ⟨⟨storage, cache⟩, now, w.versions ++ [version], w.issued, w.issued⟩ := by
  refine ⟨?_, ?_, fun token ht => ⟨ht, hdead token ht⟩, ?_, ?_, hcached⟩
  · intro code hcode
    refine ⟨hcode, ?_⟩
    intro record hrecord
    simp only [hcodes] at hrecord
    have hexpired := hover code hcode
    rw [hrecord] at hexpired
    simpa using hexpired
  · intro token htoken
    refine ⟨htoken, ?_⟩
    intro record hrecord heq
    simp only [hrefresh] at hrecord
    simp only [hversion] at heq
    exact hnew (h.versions _ record version hrecord heq)
  · intro key record v hrecord hv
    simp only [hrefresh] at hrecord
    exact List.mem_append_left _ (h.versions key record v hrecord hv)
  · intro v hv
    simp only [hversion, Option.some.injEq] at hv
    simp [hv]

attribute [local simp] perform step in
theorem inv_rotateOwnerPassword {password version : String} (h : Inv crypto config w) (hclock : w.clock ≤ now)
    (hnew : version ∉ w.versions) (hover : CodesOver crypto w now)
    (hkey : KeyUnused w now (crypto.signingKey password)) :
    Inv crypto config (step crypto config w (.call now (.rotateOwnerPassword password version))) := by
  simp only [step, perform, rotateOwnerPassword, Call.version, Option.toList]
  split
  · refine inv_rotation h rfl rfl rfl hnew hover ?_ ?_
    · intro token ht
      rcases hkey token ht with hexpired | hother
      · exact .inl hexpired
      · refine .inr (.inl ?_)
        simpa [loadSigningKey, loadMaterial, deriveOwnerCredentialMaterial] using hother
    · intro key hk
      cases hk
  · have hq : Quiet crypto config (fun _ => False) w.server
        (.thrown "Owner password is invalid.", w.server) :=
      keeps_answer rfl keeps_refl
    exact inv_quiet h hclock hq (by simp) (by simp) (by simp) (List.subset_append_left _ _)

theorem inv_recoverAccess {accounts : Accounts} {password version : String} (h : Inv crypto config w)
    (hclock : w.clock ≤ now) (hnew : version ∉ w.versions)
    (howner : ∀ userId, newOwner w.server.storage accounts = some userId →
      OwnerUnused crypto config w now userId)
    (hover : CodesOver crypto w now) (hkey : KeyUnused w now (crypto.signingKey password)) :
    Inv crypto config (step crypto config w (.call now (.recoverAccess accounts password version))) := by
  have hresolve := keeps_resolve crypto config w.server howner
  cases hr : resolveOwnerUser w.server.storage accounts with
  | mk user storage =>
    rw [hr] at hresolve
    cases user with
    | none =>
      simp only [step, perform, recoverAccess, hr, Call.version, Option.toList]
      exact inv_quiet h hclock (keeps_answer rfl hresolve) (by simp) (by simp)
        (fun _ hu => hu) (List.subset_append_left _ _)
    | some user =>
      have hq : Quiet crypto config _ w.server (.revoked, { w.server with storage }) :=
        keeps_answer rfl hresolve
      have hresolved : Inv crypto config ⟨{ w.server with storage }, now, w.versions, w.issued, w.stale⟩ :=
        inv_quiet h hclock hq (by simp) (by simp) (fun _ hu => hu) (List.Subset.refl _)
      have hover' : CodesOver crypto ⟨{ w.server with storage }, now, w.versions, w.issued, w.stale⟩ now := by
        intro code hcode
        rw [Option.all_eq_true_iff_get]
        intro hsome
        have hrecord := hresolve.codes _ _ (Option.some_get hsome).symm
        have := hover code hcode
        rw [hrecord] at this
        exact this
      have hrotated := inv_rotateOwnerPassword hresolved (Nat.le_refl _) hnew hover' hkey
      simp only [step, perform, recoverAccess, hr]
      exact hrotated

theorem inv_activateSingleUser {accounts : Accounts} {userId version : String} (h : Inv crypto config w)
    (hclock : w.clock ≤ now) (hnew : version ∉ w.versions)
    (hcare : w.server.storage.ownerUserId = some userId ∨
      (CodesOver crypto w now ∧ OwnerUnused crypto config w now userId)) :
    Inv crypto config (step crypto config w (.call now (.activateSingleUser accounts userId version))) := by
  have hquiet : ∀ owners message,
    (∀ userId, owners userId → OwnerUnused crypto config w now userId) → ∀ server',
      Keeps crypto config owners w.server server' →
      Inv crypto config ⟨server', now, w.versions ++ [version], w.issued.add (.thrown message), w.stale⟩ := by
    intro owners message howners server' hkeeps
    have hq : Quiet crypto config owners w.server (.thrown message, server') := keeps_answer rfl hkeeps
    exact inv_quiet h hclock hq (by simp) (by simp) howners (List.subset_append_left _ _)
  have hidle : ∀ message, Inv crypto config
      ⟨w.server, now, w.versions ++ [version], w.issued.add (.thrown message), w.stale⟩ :=
    fun message => hquiet (fun _ => False) message (fun _ hu => hu.elim) w.server keeps_refl
  cases hlist : accounts.listUsers with
  | nil =>
    simp only [step, perform, activateSingleUser, hlist]
    exact hidle _
  | cons user rest =>
    cases rest with
    | cons second more =>
      simp only [step, perform, activateSingleUser, hlist]
      exact hidle _
    | nil =>
      simp only [step, perform, activateSingleUser, hlist]
      split
      · exact hidle _
      rename_i hid
      have hid : user.id = userId := by simpa using hid
      split
      · exact hidle ""
      rename_i hother
      rw [hid] at hother
      obtain ⟨hover, hunused⟩ := hcare.resolve_left hother
      split
      · rename_i storage hbump
        obtain ⟨material, hmaterial, rfl⟩ := Option.map_eq_some_iff.mp hbump
        have hload : loadSigningKey crypto config w.server.storage = some material.signingKey :=
          Option.map_eq_some_iff.mpr ⟨material, hmaterial, rfl⟩
        refine inv_rotation h rfl rfl rfl hnew hover ?_ ?_
        · intro token ht
          rcases hunused token ht with hexpired | hkey | huser
          · exact .inl hexpired
          · refine .inr (.inl ?_)
            rw [hload] at hkey
            exact hkey
          · refine .inr (.inr ?_)
            intro u hu
            rw [← Option.some.inj hu, hid]
            exact huser
        · intro key hk
          have hcached := h.cached key hk
          rw [hload] at hcached
          exact hcached
      · refine hquiet (fun u => u = userId) _ ?_ _ ?_
        · rintro u rfl
          exact hunused
        · refine ⟨fun _ _ h => h, fun _ _ h => h, rfl, ?_, cached_congr rfl rfl⟩
          intro u hu
          exact .inr ((Option.some.inj hu).symm.trans hid)

theorem inv_initial : Inv crypto config World.initial := by
  refine ⟨?_, ?_, ?_, ?_, ?_, ?_⟩
  · intro code hcode
    cases hcode
  · intro token ht
    cases ht
  · intro token ht
    cases ht
  · intro key record version hr
    cases hr
  · intro version hv
    cases hv
  · intro key hk
    cases hk

/-- The owners a call may take over are clear of access tokens. -/
theorem toList_owner {owner : Option String} {P : String → Prop} (h : ∀ userId ∈ owner.toList, P userId) :
    ∀ userId, owner = some userId → P userId :=
  fun userId hu => h userId (Option.mem_toList.mpr hu)

/-- The codes and tokens of a response are those of its call. -/
structure Hands (codes refreshTokens : List String) (response : Response) : Prop where
  codes : ∀ code, response = .redirect code → code ∈ codes
  refreshTokens : ∀ token expiresIn refreshToken scope,
    response = .tokens token expiresIn refreshToken scope → refreshToken ∈ refreshTokens

/-- A call without a rotation, whose codes and tokens are new. -/
theorem inv_call {owners : String → Prop} {codes refreshTokens : List String} (h : Inv crypto config w)
    (hclock : w.clock ≤ now) (hversion : call.version = none)
    (hq : Quiet crypto config owners w.server (perform crypto config w.server now call))
    (hands : Hands codes refreshTokens (perform crypto config w.server now call).1)
    (hcodes : ∀ code ∈ codes, crypto.sha256Base64Url code ∉ w.issued.codes.map crypto.sha256Base64Url)
    (hrefresh : ∀ token ∈ refreshTokens,
      crypto.sha256Base64Url token ∉ w.issued.refreshTokens.map crypto.sha256Base64Url)
    (howners : ∀ userId, owners userId → OwnerUnused crypto config w now userId) :
    Inv crypto config (step crypto config w (.call now call)) := by
  simp only [step, hq.same, hversion, Option.toList, List.append_nil, Bool.false_eq_true, if_false]
  exact inv_quiet h hclock hq (fun code hc => hcodes code (hands.codes code hc))
    (fun t e r s ht => hrefresh r (hands.refreshTokens t e r s ht)) howners (List.Subset.refl _)

theorem hands_nothing {codes refreshTokens : List String} {response : Response}
    (hcodes : ∀ code, response ≠ .redirect code)
    (htokens : ∀ token expiresIn refreshToken scope, response ≠ .tokens token expiresIn refreshToken scope) :
    Hands codes refreshTokens response :=
  ⟨fun code h => absurd h (hcodes code), fun t e r s h => absurd h (htokens t e r s)⟩

theorem authorize_hands (crypto : Crypto) (config : Config) (server : Server)
    (fields : AuthorizeFields) (accounts : Accounts) (now : ℕ) (random : String) :
    Hands ["code-" ++ random] [] (authorize crypto config server fields accounts now random).1 := by
  unfold authorize
  split
  · exact hands_nothing (by simp) (by simp)
  simp only
  split
  · exact hands_nothing (by simp) (by simp)
  split
  · exact hands_nothing (by simp) (by simp)
  split
  · exact hands_nothing (by simp) (by simp)
  split
  · exact hands_nothing (by simp) (by simp)
  split
  · exact hands_nothing (by simp) (by simp)
  · exact ⟨by simp, by simp⟩

theorem issueTokens_hands (crypto : Crypto) (config : Config) (server : Server) (clientId : String)
    (scopes : List String) (resource : String) (userId : Option String) (now : ℕ) (random : Randoms) :
    Hands [] ["refresh-" ++ random.token]
      (issueTokens crypto config server clientId scopes resource userId now random).1 := by
  unfold issueTokens
  split
  · exact hands_nothing (by simp) (by simp)
  · refine ⟨by simp, ?_⟩
    intro token expiresIn refreshToken scope h
    cases h
    exact List.mem_singleton.mpr rfl

theorem token_hands (crypto : Crypto) (config : Config) (server : Server) (fields : TokenFields)
    (now : ℕ) (random : Randoms) :
    Hands [] ["refresh-" ++ random.token] (token crypto config server fields now random).1 := by
  unfold token
  split
  · exact hands_nothing (by simp) (by simp)
  split
  · simp only
    split
    · exact hands_nothing (by simp) (by simp)
    split
    · exact hands_nothing (by simp) (by simp)
    split
    · exact hands_nothing (by simp) (by simp)
    · exact issueTokens_hands crypto config _ _ _ _ _ _ _
  · simp only
    split
    · exact hands_nothing (by simp) (by simp)
    split
    · exact hands_nothing (by simp) (by simp)
    split
    · exact hands_nothing (by simp) (by simp)
    · exact issueTokens_hands crypto config _ _ _ _ _ _ _
  · exact hands_nothing (by simp) (by simp)

theorem register_hands (config : Config) (server : Server) (input : RegisterInput) (random : String) :
    Hands [] [] (register config server input random).1 := by
  unfold register
  split
  · exact hands_nothing (by simp) (by simp)
  split
  · exact hands_nothing (by simp) (by simp)
  split
  · exact hands_nothing (by simp) (by simp)
  · exact hands_nothing (by simp) (by simp)

theorem revoke_hands (crypto : Crypto) (config : Config) (server : Server) (token : Option Bearer) :
    Hands [] [] (revoke crypto config server token).1 := by
  cases token with
  | none => exact hands_nothing (by simp [revoke]) (by simp [revoke])
  | some token =>
    simp only [revoke]
    split
    · exact hands_nothing (by simp) (by simp)
    · exact hands_nothing (by simp) (by simp)

theorem authenticate_hands (crypto : Crypto) (config : Config) (server : Server)
    (token : Option Bearer) (accounts : Accounts) (now : ℕ) :
    Hands [] [] (authenticate crypto config server token accounts now).1 := by
  cases token with
  | none => exact hands_nothing (by simp [authenticate]) (by simp [authenticate])
  | some token =>
    simp only [authenticate]
    split
    · exact hands_nothing (by simp) (by simp)
    split
    · exact hands_nothing (by simp) (by simp)
    split
    · exact hands_nothing (by simp) (by simp)
    split
    · exact hands_nothing (by simp) (by simp)
    split
    · exact hands_nothing (by simp) (by simp)
    split
    · exact hands_nothing (by simp) (by simp)
    · exact hands_nothing (by simp) (by simp)

theorem inv_step {e : Event} (h : Inv crypto config w) (htimely : Timely crypto w e)
    (hcareful : Careful crypto config w e) : Inv crypto config (step crypto config w e) := by
  cases e with
  | restart =>
    refine ⟨h.codes, h.refreshTokens, h.accessTokens, h.versions, h.current, ?_⟩
    intro key hk
    cases hk
  | call now call =>
    obtain ⟨hclock, hfresh⟩ := htimely
    cases call with
    | register input random =>
      have hq : Quiet crypto config (fun _ => False) w.server _ := register_quiet w.server input random
      exact inv_call h hclock rfl hq (register_hands config w.server input random) (by simp) (by simp)
        (fun _ hu => hu.elim)
    | authorize fields accounts random =>
      exact inv_call h hclock rfl (authorize_quiet (toList_owner hcareful))
        (authorize_hands crypto config w.server fields accounts now random) (by simpa using hfresh) (by simp)
        (fun _ hu => hu)
    | token fields random =>
      have hq : Quiet crypto config (fun _ => False) w.server _ := token_quiet w.server fields now random
      exact inv_call h hclock rfl hq (token_hands crypto config w.server fields now random) (by simp)
        (by simpa using hfresh) (fun _ hu => hu.elim)
    | revoke token =>
      have hq : Quiet crypto config (fun _ => False) w.server _ := revoke_quiet w.server token
      exact inv_call h hclock rfl hq (revoke_hands crypto config w.server token) (by simp) (by simp)
        (fun _ hu => hu.elim)
    | authenticate token accounts =>
      exact inv_call h hclock rfl (authenticate_quiet (toList_owner hcareful))
        (authenticate_hands crypto config w.server token accounts now) (by simp) (by simp) (fun _ hu => hu)
    | rotateOwnerPassword password version =>
      exact inv_rotateOwnerPassword h hclock hfresh hcareful.1 hcareful.2
    | recoverAccess accounts password version =>
      exact inv_recoverAccess h hclock hfresh (toList_owner hcareful.1) hcareful.2.1 hcareful.2.2
    | activateSingleUser accounts userId version => exact inv_activateSingleUser h hclock hfresh hcareful

end Invariant

section Refused

variable {crypto : Crypto} {config : Config} {w : World} {now : ℕ}

theorem stale_code_refused (h : Inv crypto config w) (hclock : w.clock ≤ now) {code : String}
    (hcode : code ∈ w.stale.codes) (clientId : String) (redirectUri resource : Option String)
    (codeVerifier : String) (random : Randoms) :
    accepts (token crypto config w.server ⟨clientId, .code code redirectUri resource codeVerifier⟩
      now random).1 =
      false := by
  unfold token
  split
  · rfl
  simp only
  split
  · rfl
  · rename_i record hrecord
    have hexpired := (h.codes code hcode).2 record hrecord
    have hrefused : codeAccepted clientId redirectUri resource record now = false := by
      have hlate : ¬ now ≤ record.expiresAtMs := by omega
      simp [codeAccepted, hlate]
    simp only [hrefused, Bool.not_false, if_true]
    rfl

theorem stale_refreshToken_refused (h : Inv crypto config w) {refreshToken : String}
    (htoken : refreshToken ∈ w.stale.refreshTokens) (clientId : String) (resource scope : Option String)
    (random : Randoms) :
    accepts (token crypto config w.server ⟨clientId, .refresh refreshToken resource scope⟩ now
      random).1 = false := by
  unfold token
  split
  · rfl
  simp only
  split
  · rfl
  · rename_i record hrecord
    have hversion := (h.refreshTokens refreshToken htoken).2 record hrecord
    split
    · rfl
    · simp only [refreshRefused, if_pos hversion]
      rfl

theorem resolve_owner (storage : Storage) (accounts : Accounts) {user : OwnerIdentity} {storage' : Storage}
    (h : resolveOwnerUser storage accounts = (some user, storage')) :
    storage.ownerUserId = some user.id ∨ newOwner storage accounts = some user.id := by
  unfold resolveOwnerUser at h
  unfold newOwner
  simp only at h
  split at h
  · rename_i pinned hpinned
    cases h
    obtain ⟨userId, howner, huser⟩ := Option.bind_eq_some_iff.mp hpinned
    rw [accounts.named userId user huser]
    exact .inl (Option.filter_eq_some_iff.mp howner).1
  · rename_i hpinned
    rw [hpinned]
    simp only [Option.isSome_none, Bool.false_eq_true, if_false]
    rcases hlist : accounts.listUsers with _ | ⟨single, _ | ⟨second, rest⟩⟩
    · rw [hlist] at h
      cases h
    · rw [hlist] at h
      cases h
      exact .inr rfl
    · rw [hlist] at h
      cases h

theorem verify_signed {server server' : Server} {key : String} {claims claims' : OwnerAccessClaims}
    (hcached : Cached crypto config server)
    (h : verifyAccessToken crypto config server (.signed key claims) = (some claims', server')) :
    claims' = claims ∧ loadSigningKey crypto config server.storage = some key ∧
      server'.storage = server.storage := by
  have hstorage := verify_storage crypto config server (.signed key claims)
  rw [h] at hstorage
  simp only [verifyAccessToken] at h
  split at h
  · have hkey := congrArg Prod.fst h
    simp only at hkey
    split at hkey
    · rename_i hcheck
      refine ⟨(Option.some.inj hkey).symm, ?_, hstorage⟩
      have hcurrent := hcheck.1
      unfold hmacKey at hcurrent
      split at hcurrent
      · rename_i key' hpromise
        have hcurrent : key' = some key := hcurrent
        rw [hcurrent] at hpromise
        exact hcached key hpromise
      · exact hcurrent
    · cases hkey
  · cases h

theorem stale_accessToken_refused (h : Inv crypto config w) (hclock : w.clock ≤ now)
    {key : String} {claims : OwnerAccessClaims} (htoken : (key, claims) ∈ w.stale.accessTokens)
    (accounts : Accounts)
    (howner : ∀ userId ∈ (newOwner w.server.storage accounts).toList,
      OwnerUnused crypto config w now userId) :
    accepts (authenticate crypto config w.server (some (.signed key claims)) accounts now).1 = false := by
  obtain ⟨hissued, hdead⟩ := h.accessTokens _ htoken
  simp only [authenticate]
  split
  · rfl
  rename_i claims' server' hverify
  obtain ⟨rfl, hkey, hstorage⟩ := verify_signed h.cached hverify
  split
  · rfl
  rename_i hlive
  split
  · rfl
  split
  · rfl
  split
  · rfl
  rename_i user storage hresolve
  have hother : claims'.userId ≠ some user.id := by
    rcases hdead with hexpired | hold | hpinned
    · exact absurd (hexpired.trans (nowSeconds_mono hclock)) hlive
    · exact absurd hkey.symm hold
    · have hnew := resolve_owner _ accounts hresolve
      simp only [newOwner, hstorage] at hnew
      rcases hnew with hsame | hnew
      · exact hpinned user.id hsame
      · rcases howner user.id (Option.mem_toList.mpr hnew) _ hissued with hexpired | hold | huser
        · exact absurd hexpired hlive
        · exact absurd hkey.symm hold
        · exact huser
  rw [if_neg hother]
  rfl

end Refused

/-- After a rotation nothing that was handed out before it is accepted, if in
every rotation the codes were over and the new key and the new owner unused. -/
theorem rotation_revokes (crypto : Crypto) (config : Config) (w : World) (now : ℕ)
    (h : Reaches (step crypto config) (fun w e => Timely crypto w e ∧ Careful crypto config w e)
      World.initial w) (hclock : w.clock ≤ now) :
    (∀ code ∈ w.stale.codes, ∀ clientId redirectUri resource codeVerifier random,
      accepts (token crypto config w.server
        ⟨clientId, .code code redirectUri resource codeVerifier⟩ now random).1 = false) ∧
    (∀ refreshToken ∈ w.stale.refreshTokens, ∀ clientId resource scope random,
      accepts (token crypto config w.server
        ⟨clientId, .refresh refreshToken resource scope⟩ now random).1 = false) ∧
    ∀ accessToken ∈ w.stale.accessTokens, ∀ accounts,
      Careful crypto config w
        (.call now (.authenticate (some (.signed accessToken.1 accessToken.2)) accounts)) →
      accepts (authenticate crypto config w.server
        (some (.signed accessToken.1 accessToken.2)) accounts now).1 = false := by
  have hinv : Inv crypto config w := h.invariant inv_initial fun w e hw he => inv_step hw he.1 he.2
  refine ⟨?_, ?_, ?_⟩
  · intro code hcode clientId redirectUri resource codeVerifier random
    exact stale_code_refused hinv hclock hcode clientId redirectUri resource codeVerifier random
  · intro refreshToken htoken clientId resource scope random
    exact stale_refreshToken_refused hinv htoken clientId resource scope random
  · intro accessToken htoken accounts hcareful
    exact stale_accessToken_refused hinv hclock htoken accounts hcareful

section Samples

def sampleUser : String := "usr_00000000-0000-4000-8000-000000000001"

def sampleAccounts : Accounts where
  getUser id := if id = sampleUser then some ⟨sampleUser, "owner"⟩ else none
  listUsers := [⟨sampleUser, "owner"⟩]
  named id user h := by
    split at h
    · rename_i heq
      cases h
      exact heq.symm
    · cases h

def challenge : String := "#a verifier that is long enough for S256"

def sampleAuthorize (password : String) : AuthorizeFields where
  post := true
  clientId := "mcp-1"
  redirectUri := "https://edge.example/r"
  codeChallenge := challenge
  resource := "https://edge.example/mcp"
  scope := none
  responseType := some "code"
  codeChallengeMethod := some "S256"
  ownerPassword := password

def sampleExchange (code : String) : TokenFields :=
  ⟨"mcp-1", .code code (some "https://edge.example/r") (some "https://edge.example/mcp")
    "a verifier that is long enough for S256"⟩

/-- A client is registered and the owner has authorized it. -/
def authorized : List Event :=
  [.call 0 (.rotateOwnerPassword "first password" "v1"),
    .call 1000 (.register ⟨["https://edge.example/r"], none, ["authorization_code"], ["code"]⟩ "1"),
    .call 2000 (.authorize (sampleAuthorize "first password") sampleAccounts "1")]

/-- The client has exchanged its code. -/
def exchanged : List Event := authorized ++ [.call 3000 (.token (sampleExchange "code-1") ⟨"1", "j1"⟩)]

def sampleClaims : OwnerAccessClaims :=
  ⟨"https://edge.example/", "https://edge.example/mcp", "user:" ++ sampleUser, "mcp:tools", "mcp-1",
    some sampleUser, 3, 603, "j1"⟩

def rotatedTo (password : String) (events : List Event) : World :=
  (events ++ [Event.call 4000 (.rotateOwnerPassword password "v2")]).foldl (step plainCrypto plainConfig)
    World.initial

/-- A code survives a rotation, and an access token one to the same password. -/
theorem rotation_leaves_credentials :
    (∃ w, Reaches (step plainCrypto plainConfig) (Timely plainCrypto) World.initial w ∧
      "code-1" ∈ w.stale.codes ∧
      accepts (token plainCrypto plainConfig w.server (sampleExchange "code-1") 5000 ⟨"1", "j1"⟩).1 = true) ∧
    ∃ w, Reaches (step plainCrypto plainConfig) (Timely plainCrypto) World.initial w ∧
      ("key of first password", sampleClaims) ∈ w.stale.accessTokens ∧
      accepts (authenticate plainCrypto plainConfig w.server
        (some (.signed "key of first password" sampleClaims)) sampleAccounts 5000).1 = true := by
  have hcode : Admitted (step plainCrypto plainConfig) (Timely plainCrypto) World.initial
        (authorized ++ [Event.call 4000 (.rotateOwnerPassword "second password" "v2")]) ∧
      "code-1" ∈ (rotatedTo "second password" authorized).stale.codes ∧
      accepts (token plainCrypto plainConfig (rotatedTo "second password" authorized).server
        (sampleExchange "code-1") 5000 ⟨"1", "j1"⟩).1 = true := by
    decide +kernel
  have htoken : Admitted (step plainCrypto plainConfig) (Timely plainCrypto) World.initial
        (exchanged ++ [Event.call 4000 (.rotateOwnerPassword "first password" "v2")]) ∧
      ("key of first password", sampleClaims) ∈ (rotatedTo "first password" exchanged).stale.accessTokens ∧
      accepts (authenticate plainCrypto plainConfig (rotatedTo "first password" exchanged).server
        (some (.signed "key of first password" sampleClaims)) sampleAccounts 5000).1 = true := by
    decide +kernel
  exact ⟨⟨_, Reaches.events .refl hcode.1 rfl, hcode.2⟩, _, Reaches.events .refl htoken.1 rfl, htoken.2⟩

theorem rotation_revokes_exchanged :
    ∃ w, Reaches (step plainCrypto plainConfig)
        (fun w e => Timely plainCrypto w e ∧ Careful plainCrypto plainConfig w e) World.initial w ∧
      ("key of first password", sampleClaims) ∈ w.stale.accessTokens ∧
      accepts (authenticate plainCrypto plainConfig w.server
        (some (.signed "key of first password" sampleClaims)) sampleAccounts 5000).1 = false := by
  have hrun : Admitted (step plainCrypto plainConfig)
        (fun w e => Timely plainCrypto w e ∧ Careful plainCrypto plainConfig w e) World.initial
        (exchanged ++ [Event.call 4000 (.rotateOwnerPassword "second password" "v2")]) ∧
      ("key of first password", sampleClaims) ∈
          (rotatedTo "second password" exchanged).stale.accessTokens := by
    decide +kernel
  obtain ⟨hadmitted, hstale⟩ := hrun
  have h : Reaches (step plainCrypto plainConfig)
      (fun w e => Timely plainCrypto w e ∧ Careful plainCrypto plainConfig w e) World.initial
      (rotatedTo "second password" exchanged) := Reaches.events .refl hadmitted rfl
  refine ⟨_, h, hstale, ?_⟩
  exact (rotation_revokes plainCrypto plainConfig _ 5000 h (by decide +kernel)).2.2 _ hstale sampleAccounts
    (by decide +kernel)

end Samples

end AccessStack.OAuth.Rotation
