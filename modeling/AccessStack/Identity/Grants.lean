import AccessStack.Identity.Serving

/-!
# Every grant traces back to a person

A code that can be exchanged was made for an authorization request that a
person completed, by a factor or by a live session. The tokens of the code and
those of its refreshes are the chain of that request, and an access token that
is accepted is one of a chain.
-/

set_option autoImplicit false

namespace AccessStack.Identity
open AccessStack.Text AccessStack.OAuth AccessStack.Emits AccessStack.Runs

section Chains

variable (z : Environment)

/-- The last event is the factor that the user has given, or the live session
that was presented, which a factor of the user has opened. -/
def Attestation (log : List Event) (userId : String) : Completion → Prop
  | .login => ∃ factor credential now, log.getLast? = some (.accepted factor credential now) ∧
      credential.userId = userId
  | .session key => ∃ session user now, log.getLast? = some (.presented key session user now) ∧
      .sessionOpened key session ∈ log ∧ session.userId = userId ∧ user.id = userId ∧ user.status = .active ∧
      now < session.expiresAt ∧ ∃ factor credential opened, .accepted factor credential opened ∈ log ∧
        credential.userId = userId

/-- The code of a request that a person has completed. -/
inductive Authorized : List Event → String → AuthorizationCodeRecord → AuthorizationRequest → Prop
  | completed {log : List Event} {state hash : String} {completion : Completion} {pending : PendingLogin}
      {request : AuthorizationRequest} {now : ℕ} {userId : String} (hrequested : .loginStored pending ∈ log)
      (hrequest : pending.kind.request = some request) (hattested : Attestation log userId completion) :
      Authorized (log ++ [.completed state completion hash (codeRecord now request userId)]) hash
        (codeRecord now request userId) request
  | later {log : List Event} {hash : String} {record : AuthorizationCodeRecord}
    {request : AuthorizationRequest}
      (e : Event) (h : Authorized log hash record request) : Authorized (log ++ [e]) hash record request

/-- The tokens of a request: a refresh record under its hash, and the claims
of the access token that was issued with it. -/
inductive Chain : List Event → AuthorizationRequest → String → RefreshTokenRecord → String →
    AccessClaims → Prop
  | exchange {log : List Event} {request : AuthorizationRequest}
    {hash codeHash redirectUri verifier key : String}
      {code : AuthorizationCodeRecord} {user : UpdateControlUser} {record : RefreshTokenRecord}
        {claims : AccessClaims}
      (hauthorized : Authorized log codeHash code request)
      (hexchanged : .exchanged codeHash code user redirectUri verifier ∈ log)
        (hactive : user.status = .active)
      (huser : user.id = code.userId) (hredirect : redirectUri = request.redirectUri)
      (hchallenge : z.sha256Base64Url verifier = request.codeChallenge)
        (hclient : record.clientId = request.clientId)
      (hscopes : record.scopes = request.scopes) (hresource : record.resource = request.resource)
      (hrecord : record.userId = code.userId) :
      Chain (log ++ [.issued (.code codeHash) hash record key claims]) request hash record key claims
  | refresh {log : List Event} {request : AuthorizationRequest} {hash oldHash key oldKey : String}
      {old record : RefreshTokenRecord} {user : UpdateControlUser} {claims oldClaims : AccessClaims}
      (hchain : Chain log request oldHash old oldKey oldClaims)
        (hrefreshed : .refreshed oldHash old user ∈ log)
      (hactive : user.status = .active) (huser : user.id = old.userId)
        (hclient : record.clientId = old.clientId)
      (hscopes : ∀ scope ∈ record.scopes, scope ∈ old.scopes) (hresource : record.resource = old.resource)
      (hrecord : record.userId = old.userId) :
      Chain (log ++ [.issued (.refresh oldHash) hash record key claims]) request hash record key claims
  | later {log : List Event} {request : AuthorizationRequest} {hash key : String}
    {record : RefreshTokenRecord}
      {claims : AccessClaims} (e : Event) (h : Chain log request hash record key claims) :
      Chain (log ++ [e]) request hash record key claims

/-- The code or the refresh token that an event uses. -/
def grantUsed : Event → Option GrantKey
  | .exchanged hash _ _ _ _ => some (.code hash)
  | .refreshed hash _ _ => some (.refresh hash)
  | _ => none

/-- What the claims say of the record that was stored with them. -/
def Claimed (record : RefreshTokenRecord) (claims : AccessClaims) : Prop :=
  claims.clientId = record.clientId ∧ claims.scope = " ".intercalate record.scopes ∧
    claims.aud = record.resource ∧
    claims.userId = record.userId

end Chains

variable {z : Environment}

section Facts

variable {log : List Event} {request : AuthorizationRequest} {hash key : String} {record : RefreshTokenRecord}
  {code : AuthorizationCodeRecord} {claims : AccessClaims}

theorem Authorized.completed_mem (h : Authorized log hash code request) :
    ∃ state completion, .completed state completion hash code ∈ log := by
  induction h with
  | completed _ _ _ => exact ⟨_, _, List.mem_append_right _ (List.mem_singleton.mpr rfl)⟩
  | later e _ ih =>
    obtain ⟨state, completion, hmem⟩ := ih
    exact ⟨state, completion, List.mem_append_left _ hmem⟩

theorem Authorized.code_eq (h : Authorized log hash code request) : code.clientId = request.clientId ∧
    code.redirectUri = request.redirectUri ∧ code.codeChallenge = request.codeChallenge ∧
    code.scopes = request.scopes ∧ code.resource = request.resource := by
  induction h with
  | completed _ _ _ => exact ⟨rfl, rfl, rfl, rfl, rfl⟩
  | later _ _ ih => exact ih

theorem Chain.issued_mem (h : Chain z log request hash record key claims) :
    ∃ origin, .issued origin hash record key claims ∈ log := by
  induction h with
  | exchange => exact ⟨_, List.mem_append_right _ (List.mem_singleton.mpr rfl)⟩
  | refresh => exact ⟨_, List.mem_append_right _ (List.mem_singleton.mpr rfl)⟩
  | later e _ ih =>
    obtain ⟨origin, hmem⟩ := ih
    exact ⟨origin, List.mem_append_left _ hmem⟩

/-- Along a chain the client and the resource stay, and no scope is added to
those of the request. -/
theorem Chain.bounded (h : Chain z log request hash record key claims) : record.clientId = request.clientId ∧
    record.resource = request.resource ∧ ∀ scope ∈ record.scopes, scope ∈ request.scopes := by
  induction h with
  | exchange _ _ _ _ _ _ hclient hscopes hresource _ =>
    exact ⟨hclient, hresource, fun scope hs => hscopes ▸ hs⟩
  | refresh _ _ _ _ hclient hscopes hresource _ ih =>
    exact ⟨hclient.trans ih.1, hresource.trans ih.2.1, fun scope hs => ih.2.2 scope (hscopes scope hs)⟩
  | later _ _ ih => exact ih

/-- The user of a chain is the person who completed its request. -/
theorem Chain.authorized (h : Chain z log request hash record key claims) :
    ∃ codeHash code, Authorized log codeHash code request ∧ record.userId = code.userId := by
  induction h with
  | exchange hauthorized _ _ _ _ _ _ _ _ hrecord => exact ⟨_, _, hauthorized.later _, hrecord⟩
  | refresh _ _ _ _ _ _ _ hrecord ih =>
    obtain ⟨codeHash, code, hauthorized, huser⟩ := ih
    exact ⟨codeHash, code, hauthorized.later _, hrecord.trans huser⟩
  | later e _ ih =>
    obtain ⟨codeHash, code, hauthorized, huser⟩ := ih
    exact ⟨codeHash, code, hauthorized.later e, huser⟩

end Facts

section Tables

variable {s : Store} {e : Event}

theorem codes_after {hash : String} {record : AuthorizationCodeRecord}
    (h : (s.after e).codes hash = some record) :
    (∃ state completion, e = .completed state completion hash record) ∨ s.codes hash = some record := by
  cases e with
  | completed state completion stored code =>
    rcases update_some_eq h with ⟨rfl, rfl⟩ | h
    · exact .inl ⟨state, completion, rfl⟩
    · exact .inr h
  | exchanged stored code user redirectUri verifier => exact .inr (update_none_eq h)
  | forgotten key =>
    cases key with
    | code stored => exact .inr (update_none_eq h)
    | _ => exact .inr h
  | _ => exact .inr h

theorem refresh_after {hash : String} {record : RefreshTokenRecord}
    (h : (s.after e).refresh hash = some record) :
    (∃ origin key claims, e = .issued origin hash record key claims) ∨ s.refresh hash = some record := by
  cases e with
  | issued origin stored issued key claims =>
    rcases update_some_eq h with ⟨rfl, rfl⟩ | h
    · exact .inl ⟨origin, key, claims, rfl⟩
    · exact .inr h
  | refreshed stored old user => exact .inr (update_none_eq h)
  | refreshClosed stored => exact .inr (update_none_eq h)
  | forgotten key =>
    cases key with
    | refresh stored => exact .inr (update_none_eq h)
    | _ => exact .inr h
  | _ => exact .inr h

theorem logins_after {state : String} {pending : PendingLogin} (h : (s.after e).logins state = some pending) :
    e = .loginStored pending ∨ s.logins state = some pending := by
  cases e with
  | loginStored stored =>
    rcases update_some_eq h with ⟨-, rfl⟩ | h
    · exact .inl rfl
    · exact .inr h
  | loginClosed stored => exact .inr (update_none_eq h)
  | forgotten key =>
    cases key with
    | loginPending stored => exact .inr (update_none_eq h)
    | _ => exact .inr h
  | _ => exact .inr h

theorem sessions_after {key : SessionKey} {session : HumanSessionRecord}
    (h : (s.after e).sessions key = some session) :
    e = .sessionOpened key session ∨ s.sessions key = some session := by
  cases e with
  | sessionOpened stored opened =>
    rcases update_some_eq h with ⟨rfl, rfl⟩ | h
    · exact .inl rfl
    · exact .inr h
  | sessionClosed stored => exact .inr (update_none_eq h)
  | forgotten key =>
    cases key with
    | adminSession stored => exact .inr (update_none_eq h)
    | _ => exact .inr h
  | _ => exact .inr h

theorem signing_after {material : SigningMaterial} (h : (s.after e).signing = some material) :
    e = .signingStored material ∨ s.signing = some material := by
  cases e with
  | signingStored stored =>
    cases h
    exact .inl rfl
  | forgotten key =>
    cases key with
    | signing => cases h
    | _ => exact .inr h
  | _ => exact .inr h

theorem users_after {userId : String} {user : StoredUpdateControlUser}
    (h : (s.after e).users userId = some user) :
    (∃ origin, userId = user.id ∧ e = .created user origin) ∨ e = .userStored userId user ∨
      s.users userId = some user := by
  cases e with
  | created stored origin =>
    rcases update_some_eq h with ⟨rfl, rfl⟩ | h
    · exact .inl ⟨origin, rfl, rfl⟩
    · exact .inr (.inr h)
  | userStored place stored =>
    rcases update_some_eq h with ⟨rfl, rfl⟩ | h
    · exact .inr (.inl rfl)
    · exact .inr (.inr h)
  | forgotten key => cases key <;> exact .inr (.inr h)
  | _ => exact .inr (.inr h)

end Tables

section Invariant

/-- What the storage holds is accounted for in the log. -/
structure Sound (z : Environment) (w : State) : Prop where
  keyed : ∀ userId user, w.store.users userId = some user → user.id = userId
  logins : ∀ state pending, w.store.logins state = some pending → .loginStored pending ∈ w.log
  sessions : ∀ key session, w.store.sessions key = some session → .sessionOpened key session ∈ w.log
  opened : ∀ key session, .sessionOpened key session ∈ w.log →
    ∃ factor credential now, .accepted factor credential now ∈ w.log ∧ credential.userId = session.userId
  presented : ∀ key session user now, .presented key session user now ∈
    w.log → .sessionOpened key session ∈ w.log ∧
    session.userId = user.id ∧ user.status = .active ∧ now < session.expiresAt
  codes : ∀ hash record, w.store.codes hash = some record → ∃ request, Authorized w.log hash record request
  exchanged : ∀ hash record user redirectUri verifier, .exchanged hash record user redirectUri
    verifier ∈ w.log →
    w.store.codes hash = none ∧ (∃ request, Authorized w.log hash record request) ∧ user.status = .active ∧
      user.id = record.userId ∧ redirectUri = record.redirectUri ∧ z.sha256Base64Url verifier =
        record.codeChallenge
  refresh : ∀ hash record, w.store.refresh hash = some record →
    ∃ request key claims, Chain z w.log request hash record key claims
  refreshed : ∀ hash record user, .refreshed hash record user ∈ w.log → w.store.refresh hash = none ∧
    (∃ request key claims, Chain z w.log request hash record key claims) ∧ user.status = .active ∧
      user.id = record.userId
  issued : ∀ origin hash record key claims, .issued origin hash record key claims ∈ w.log →
    (∃ request, Chain z w.log request hash record key claims) ∧ Claimed record claims
  signing : ∀ material, w.store.signing = some material → .signingStored material ∈ w.log
  used : (w.log.filterMap grantUsed).Nodup
  authenticated : ∀ before key claims user rest, w.log = before ++ .authenticated key claims user :: rest →
    ∃ request hash record, Chain z before request hash record key claims ∧ Claimed record claims ∧
      user.status = .active ∧ user.id = claims.userId

variable {t : Turn} {m : Moment} {w : State} {e : Event} {quiet : Prop}

/-- The events of a token request. -/
def ofToken : Event → Bool
  | .exchanged _ _ _ _ _ => true
  | .refreshed _ _ _ => true
  | .issued _ _ _ _ _ => true
  | .signingStored _ => true
  | _ => false

theorem allowed_token (h : Allowed z t quiet True w e) (he : ofToken e = true) : t.call.isToken = true := by
  cases e <;> first | exact h.1 | cases he

theorem mem_after {found : Event} : found ∈ (w.after e).log ↔ found ∈ w.log ∨ found = e := by
  rw [State.after, List.mem_append, List.mem_singleton]

theorem ActiveAt.id {place : String} {user : UpdateControlUser} (h : ActiveAt z w.store place user)
    (hkeyed : ∀ userId user, w.store.users userId = some user → user.id = userId) : user.id = place :=
  hkeyed place _ h.1

theorem keyed_step (h : Sound z w) (he : Allowed z t quiet True w e) :
    ∀ userId user, (w.after e).store.users userId = some user → user.id = userId := by
  intro userId user huser
  rcases users_after huser with ⟨origin, hid, -⟩ | rfl | hold
  · exact hid.symm
  · obtain ⟨place, old, hold, hplace, hid, -⟩ := he
    obtain ⟨value, role, hvalue, -, rfl⟩ := userAt_eq_some.mp hold
    have hkey : value.id = place := h.keyed place value hvalue
    rw [hid]
    rcases hplace with rfl | rfl
    · exact hkey
    · rfl
  · exact h.keyed userId user hold

theorem presented_step (h : Sound z w) (he : Allowed z t quiet True w e) :
    ∀ key session user now, .presented key session user now ∈ (w.after e).log →
      .sessionOpened key session ∈ (w.after e).log ∧ session.userId = user.id ∧ user.status = .active ∧
        now < session.expiresAt := by
  intro key session user now hmem
  rcases mem_after.mp hmem with hmem | rfl
  · obtain ⟨hopened, hrest⟩ := h.presented key session user now hmem
    exact ⟨mem_after.mpr (.inl hopened), hrest⟩
  · obtain ⟨-, hsession, hlive, hactive⟩ := he
    exact ⟨mem_after.mpr (.inl (h.sessions key session hsession)), (hactive.id h.keyed).symm,
      hactive.2.2, hlive⟩

theorem opened_step (h : Sound z w) (he : Allowed z t quiet True w e) :
    ∀ key session, .sessionOpened key session ∈ (w.after e).log →
      ∃ factor credential now, .accepted factor credential now ∈ (w.after e).log ∧
        credential.userId = session.userId := by
  intro key session hmem
  rcases mem_after.mp hmem with hbefore | rfl
  · obtain ⟨factor, credential, now, haccepted, hid⟩ := h.opened key session hbefore
    exact ⟨factor, credential, now, mem_after.mpr (.inl haccepted), hid⟩
  · obtain ⟨-, factor, credential, haccepted, hid⟩ := he
    exact ⟨factor, credential, t.now, mem_after.mpr (.inl haccepted), hid⟩

/-- Who completes a request has been attested. -/
theorem attested_step {userId : String} {completion : Completion} (h : Sound z w)
    (hattested : Attested t w userId completion) : Attestation w.log userId completion := by
  cases completion with
  | login =>
    obtain ⟨factor, credential, hlast, hid⟩ := hattested
    exact ⟨factor, credential, t.now, hlast, hid⟩
  | session key =>
    obtain ⟨session, user, hlast, hid⟩ := hattested
    obtain ⟨hopened, hsession, hactive, hlive⟩ := h.presented key session user t.now (mem_of_getLast hlast)
    obtain ⟨factor, credential, opened, haccepted, hfactor⟩ := h.opened key session hopened
    exact ⟨session, user, t.now, hlast, hopened, hsession.trans hid, hid, hactive, hlive, factor,
      credential, opened, haccepted, hfactor.trans (hsession.trans hid)⟩

theorem codes_step (h : Sound z w) (he : Allowed z t quiet True w e) :
    ∀ hash record, (w.after e).store.codes hash = some record →
      ∃ request, Authorized (w.after e).log hash record request := by
  intro hash record hrecord
  rcases codes_after hrecord with ⟨state, completion, rfl⟩ | hold
  · obtain ⟨-, -, hattested, pending, request, hlogin, -, hrequest, heq⟩ := he
    refine ⟨request, ?_⟩
    rw [heq]
    exact .completed (h.logins state pending hlogin) hrequest (attested_step h hattested)
  · obtain ⟨request, hauthorized⟩ := h.codes hash record hold
    exact ⟨request, hauthorized.later e⟩

/-- The chain of the tokens that are issued. -/
theorem issued_step {origin : GrantKey} {hash key : String} {record : RefreshTokenRecord}
    {claims : AccessClaims} (h : Sound z w)
    (he : Allowed z t quiet True w (.issued origin hash record key claims)) :
    ∃ request, Chain z (w.log ++ [.issued origin hash record key claims]) request hash record key claims := by
  obtain ⟨-, -, -, -, hgranted, -⟩ := he
  cases origin with
  | code codeHash =>
    obtain ⟨code, user, redirectUri, verifier, hmem, hclient, hscopes, hresource, huser⟩ := hgranted
    obtain ⟨-, ⟨request, hauthorized⟩, hactive, hid, hredirect, hchallenge⟩ := h.exchanged _ _ _ _ _ hmem
    obtain ⟨hcodeClient, hcodeRedirect, hcodeChallenge, hcodeScopes, hcodeResource⟩ := hauthorized.code_eq
    exact ⟨request, .exchange hauthorized hmem hactive hid (hredirect.trans hcodeRedirect)
      (hchallenge.trans hcodeChallenge) (hclient.trans hcodeClient) (hscopes.trans hcodeScopes)
      (hresource.trans hcodeResource) (huser.trans hid)⟩
  | refresh oldHash =>
    obtain ⟨old, user, hmem, hclient, hscopes, hresource, huser⟩ := hgranted
    obtain ⟨-, ⟨request, oldKey, oldClaims, hchain⟩, hactive, hid⟩ := h.refreshed _ _ _ hmem
    exact ⟨request, .refresh hchain hmem hactive hid hclient hscopes hresource (huser.trans hid)⟩

theorem refresh_step (h : Sound z w) (he : Allowed z t quiet True w e) :
    ∀ hash record, (w.after e).store.refresh hash = some record →
      ∃ request key claims, Chain z (w.after e).log request hash record key claims := by
  intro hash record hrecord
  rcases refresh_after hrecord with ⟨origin, key, claims, rfl⟩ | hold
  · obtain ⟨request, hchain⟩ := issued_step h he
    exact ⟨request, key, claims, hchain⟩
  · obtain ⟨request, key, claims, hchain⟩ := h.refresh hash record hold
    exact ⟨request, key, claims, hchain.later e⟩

theorem issuedAll_step (h : Sound z w) (he : Allowed z t quiet True w e) :
    ∀ origin hash record key claims, .issued origin hash record key claims ∈ (w.after e).log →
      (∃ request, Chain z (w.after e).log request hash record key claims) ∧ Claimed record claims := by
  intro origin hash record key claims hmem
  rcases mem_after.mp hmem with hmem | rfl
  · obtain ⟨⟨request, hchain⟩, hclaimed⟩ := h.issued origin hash record key claims hmem
    exact ⟨⟨request, hchain.later e⟩, hclaimed⟩
  · refine ⟨issued_step h he, ?_⟩
    obtain ⟨-, -, -, -, -, rfl⟩ := he
    exact ⟨rfl, rfl, rfl, rfl⟩

/-- What a turn keeps of the log: all of it, and a request other than one for
tokens uses no grant and issues none. -/
structure Kept (m : Moment) (t : Turn) (w : State) : Prop where
  grown : ∀ found ∈ m.state.log, found ∈ w.log
  tokens : t.call.isToken = false → ∀ found ∈ w.log, ofToken found = true → found ∈ m.state.log

theorem kept_step (hkept : Kept m t w) (he : Allowed z t quiet True w e) : Kept m t (w.after e) := by
  constructor
  · intro found hfound
    exact mem_after.mpr (.inl (hkept.grown found hfound))
  · intro hcall found hfound htoken
    rcases mem_after.mp hfound with hbefore | rfl
    · exact hkept.tokens hcall found hbefore htoken
    · rw [allowed_token he htoken] at hcall
      cases hcall

/-- A code that was used is not made again. -/
theorem exchanged_step (hstart : Sound z m.state) (hserved : Served z m t) (h : Sound z w)
    (hkept : Kept m t w) (he : Allowed z t quiet True w e) :
    ∀ hash record user redirectUri verifier, .exchanged hash record user redirectUri verifier ∈
      (w.after e).log →
      (w.after e).store.codes hash = none ∧ (∃ request, Authorized (w.after e).log hash record request) ∧
        user.status = .active ∧ user.id = record.userId ∧ redirectUri = record.redirectUri ∧
          z.sha256Base64Url verifier = record.codeChallenge := by
  intro hash record user redirectUri verifier hmem
  rcases mem_after.mp hmem with hbefore | rfl
  · obtain ⟨hnone, ⟨request, hauthorized⟩, hrest⟩ := h.exchanged _ _ _ _ _ hbefore
    refine ⟨?_, ⟨request, hauthorized.later e⟩, hrest⟩
    cases hafter : (w.after e).store.codes hash with
    | none => rfl
    | some again =>
      rcases codes_after hafter with ⟨state, completion, rfl⟩ | hstored
      · obtain ⟨hcall, hhash, -⟩ := he
        obtain ⟨-, ⟨first, hfirst⟩, -⟩ := hstart.exchanged _ _ _ _ _ (hkept.tokens hcall _ hbefore rfl)
        obtain ⟨place, how, hcompleted⟩ := hfirst.completed_mem
        exact absurd hhash (hserved.code _ _ _ _ hcompleted)
      · rw [hnone] at hstored
        cases hstored
  · obtain ⟨-, hstored, -, hredirect, hchallenge, hactive⟩ := he
    obtain ⟨request, hauthorized⟩ := h.codes hash record hstored
    exact ⟨Function.update_self _ _ _, ⟨request, hauthorized.later _⟩, hactive.2.2,
      hactive.id h.keyed, hredirect, hchallenge⟩

/-- A refresh token that was used is not issued again. -/
theorem refreshed_step (h : Sound z w) (he : Allowed z t quiet True w e) :
    ∀ hash record user, .refreshed hash record user ∈ (w.after e).log →
    (w.after e).store.refresh hash = none ∧
      (∃ request key claims, Chain z (w.after e).log request hash record key claims) ∧ user.status = .active ∧
        user.id = record.userId := by
  intro hash record user hmem
  rcases mem_after.mp hmem with hmem | rfl
  · obtain ⟨hnone, ⟨request, key, claims, hchain⟩, hrest⟩ := h.refreshed _ _ _ hmem
    refine ⟨?_, ⟨request, key, claims, hchain.later e⟩, hrest⟩
    cases hafter : (w.after e).store.refresh hash with
    | none => rfl
    | some again =>
      rcases refresh_after hafter with ⟨origin, newKey, newClaims, rfl⟩ | hstored
      · obtain ⟨-, -, hfresh, -⟩ := he
        obtain ⟨first, hissued⟩ := hchain.issued_mem
        exact absurd hissued (hfresh trivial _ _ _ _)
      · rw [hnone] at hstored
        cases hstored
  · obtain ⟨-, hstored, -, hactive⟩ := he
    obtain ⟨request, key, claims, hchain⟩ := h.refresh hash record hstored
    exact ⟨Function.update_self _ _ _, ⟨request, key, claims, hchain.later _⟩, hactive.2.2,
      hactive.id h.keyed⟩

/-- A grant that has been used is not there any more. -/
def GrantKey.absent (s : Store) : GrantKey → Prop
  | .code hash => s.codes hash = none
  | .refresh hash => s.refresh hash = none

theorem Sound.absent_of_used (h : Sound z w) {key : GrantKey} (hkey : key ∈ w.log.filterMap grantUsed) :
    key.absent w.store := by
  obtain ⟨found, hfound, hused⟩ := List.mem_filterMap.mp hkey
  cases found with
  | exchanged hash record user redirectUri verifier =>
    cases hused
    exact (h.exchanged _ _ _ _ _ hfound).1
  | refreshed hash record user =>
    cases hused
    exact (h.refreshed _ _ _ hfound).1
  | _ => cases hused

theorem not_absent_of_uses {key : GrantKey} (he : Allowed z t quiet True w e)
    (hused : grantUsed e = some key) :
    ¬ key.absent w.store := by
  intro habsent
  cases e with
  | exchanged hash record user redirectUri verifier =>
    cases hused
    have hstored : w.store.codes hash = some record := he.2.1
    rw [show w.store.codes hash = none from habsent] at hstored
    cases hstored
  | refreshed hash record user =>
    cases hused
    have hstored : w.store.refresh hash = some record := he.2.1
    rw [show w.store.refresh hash = none from habsent] at hstored
    cases hstored
  | _ => cases hused

/-- No code and no refresh token is used twice. -/
theorem used_step (h : Sound z w) (he : Allowed z t quiet True w e) :
    ((w.after e).log.filterMap grantUsed).Nodup := by
  rw [State.after, List.filterMap_append]
  cases hused : grantUsed e with
  | none =>
    rw [show [e].filterMap grantUsed = [] by simp [hused], List.append_nil]
    exact h.used
  | some key =>
    rw [show [e].filterMap grantUsed = [key] by simp [hused], ← List.concat_eq_append, List.nodup_concat]
    exact ⟨fun hkey => not_absent_of_uses he hused (h.absent_of_used hkey), h.used⟩

theorem authenticated_step (hserved : Served z m t) (h : Sound z w) (hkept : Kept m t w)
    (he : Allowed z t quiet True w e) :
    ∀ before key claims user rest, (w.after e).log = before ++ .authenticated key claims user :: rest →
      ∃ request hash record, Chain z before request hash record key claims ∧ Claimed record claims ∧
        user.status = .active ∧ user.id = claims.userId := by
  intro before key claims user rest hlog
  cases rest using List.reverseRecOn with
  | nil =>
    obtain ⟨rfl, heq⟩ := List.append_inj' hlog rfl
    cases heq
    obtain ⟨hbearer, ⟨material, hsigning, hkey⟩, -, -, -, hactive⟩ := he
    have hcall : t.call.isToken = false := by
      cases hc : t.call with
      | token fields =>
        rw [hc] at hbearer
        cases hbearer
      | _ => rfl
    have hstored := hkept.tokens hcall _ (h.signing material hsigning) rfl
    obtain ⟨origin, hash, record, hissued⟩ := hserved.unforged key claims hbearer ⟨material, hstored, hkey⟩
    obtain ⟨⟨request, hchain⟩, hclaimed⟩ := h.issued _ _ _ _ _ (hkept.grown _ hissued)
    exact ⟨request, hash, record, hchain, hclaimed, hactive.2.2, hactive.id h.keyed⟩
  | append_singleton rest last =>
    rw [← List.cons_append, ← List.append_assoc] at hlog
    obtain ⟨hbefore, -⟩ := List.append_inj' hlog rfl
    exact h.authenticated before key claims user rest hbefore

theorem sound_step (hstart : Sound z m.state) (hserved : Served z m t) (h : Sound z w) (hkept : Kept m t w)
    (he : Allowed z t quiet True w e) : Sound z (w.after e) where
  keyed := keyed_step h he
  logins := by
    intro state pending hstored
    rcases logins_after hstored with rfl | hold
    · exact mem_after.mpr (.inr rfl)
    · exact mem_after.mpr (.inl (h.logins state pending hold))
  sessions := by
    intro key session hstored
    rcases sessions_after hstored with rfl | hold
    · exact mem_after.mpr (.inr rfl)
    · exact mem_after.mpr (.inl (h.sessions key session hold))
  opened := opened_step h he
  presented := presented_step h he
  codes := codes_step h he
  exchanged := exchanged_step hstart hserved h hkept he
  refresh := refresh_step h he
  refreshed := refreshed_step h he
  issued := issuedAll_step h he
  signing := by
    intro material hstored
    rcases signing_after hstored with rfl | hold
    · exact mem_after.mpr (.inr rfl)
    · exact mem_after.mpr (.inl (h.signing material hold))
  used := used_step h he
  authenticated := authenticated_step hserved h hkept he

theorem sound_turn (h : Sound z m.state) (hserved : Served z m t) : Sound z (m.next z t).state := by
  have hstep : ∀ w e, Sound z w ∧ Kept m t w → Allowed z t False True w e →
      Sound z (w.after e) ∧ Kept m t (w.after e) := by
    intro w e hw he
    exact ⟨sound_step h hserved hw.1 hw.2 he, kept_step hw.2 he⟩
  have hstart : Sound z m.state ∧ Kept m t m.state := ⟨h, fun _ hfound => hfound, fun _ _ hfound _ => hfound⟩
  exact (serve_invariant False.elim (fun _ => hserved.fresh) hstart hstep).1

/-- Where only logins have been stored, the rest of the storage is empty. -/
structure OnlyLogins (w : State) : Prop where
  store : w.store = { Store.empty with logins := w.store.logins }
  log : ∀ e ∈ w.log, ∃ pending, e = .loginStored pending
  logins : ∀ state pending, w.store.logins state = some pending → .loginStored pending ∈ w.log

theorem onlyLogins_initial (legacy : List PendingLogin) : OnlyLogins (Moment.initial legacy).state := by
  apply foldl_invariant
  · exact ⟨rfl, fun _ hmem => absurd hmem List.not_mem_nil, fun _ _ hnone => by cases hnone⟩
  · intro w e hw he
    obtain ⟨pending, -, rfl⟩ := List.mem_map.mp he
    refine ⟨?_, ?_, ?_⟩
    · show { w.store with logins := Function.update w.store.logins pending.state (some pending) } = _
      rw [hw.store]
      rfl
    · intro e hmem
      rcases mem_after.mp hmem with hbefore | rfl
      · exact hw.log e hbefore
      · exact ⟨pending, rfl⟩
    · intro state found hstored
      have hfound : (w.store.after (.loginStored pending)).logins state = some found := hstored
      rcases logins_after hfound with heq | hold
      · exact mem_after.mpr (.inr heq.symm)
      · exact mem_after.mpr (.inl (hw.logins state found hold))

theorem OnlyLogins.not_mem (h : OnlyLogins w) (he : ∀ pending, e ≠ .loginStored pending) : e ∉ w.log := by
  intro hmem
  obtain ⟨pending, heq⟩ := h.log e hmem
  exact he pending heq

theorem OnlyLogins.sound (h : OnlyLogins w) : Sound z w where
  keyed := by rw [h.store]; exact nofun
  logins := h.logins
  sessions := by rw [h.store]; exact nofun
  opened := fun _ _ hmem => absurd hmem (h.not_mem (by simp))
  presented := fun _ _ _ _ hmem => absurd hmem (h.not_mem (by simp))
  codes := by rw [h.store]; exact nofun
  exchanged := fun _ _ _ _ _ hmem => absurd hmem (h.not_mem (by simp))
  refresh := by rw [h.store]; exact nofun
  refreshed := fun _ _ _ hmem => absurd hmem (h.not_mem (by simp))
  issued := fun _ _ _ _ _ hmem => absurd hmem (h.not_mem (by simp))
  signing := by rw [h.store]; exact nofun
  used := by
    have hnone : w.log.filterMap grantUsed = [] := by
      rw [List.filterMap_eq_nil_iff]
      intro e he
      obtain ⟨pending, rfl⟩ := h.log e he
      rfl
    rw [hnone]
    exact List.nodup_nil
  authenticated := by
    intro before key claims user rest hlog
    refine absurd ?_ (h.not_mem (e := .authenticated key claims user) nofun)
    rw [hlog]
    exact List.mem_append_right _ List.mem_cons_self

variable {legacy : List PendingLogin}

theorem sound_reached (h : Reached z legacy m) : Sound z m.state := by
  apply h.invariant
  · exact (onlyLogins_initial legacy).sound
  · intro m t hm hserved
    exact sound_turn hm hserved

/-- Every access token that is accepted is one of the chain of a request that
a person has completed, and no code and no refresh token is used twice. -/
theorem accepted_traces_back (h : Reached z legacy m) :
    (∀ before key claims user rest, m.state.log = before ++ .authenticated key claims user :: rest →
      ∃ request hash record codeHash code, Chain z before request hash record key claims ∧
        Authorized before codeHash code request ∧ claims.userId = code.userId ∧
        claims.clientId = request.clientId ∧ claims.aud = request.resource ∧
        claims.scope = " ".intercalate record.scopes ∧ (∀ scope ∈ record.scopes, scope ∈ request.scopes) ∧
        user.status = .active ∧ user.id = claims.userId) ∧
      (m.state.log.filterMap grantUsed).Nodup := by
  have hsound := sound_reached h
  refine ⟨?_, hsound.used⟩
  intro before key claims user rest hlog
  obtain ⟨request, hash, record, hchain, hclaimed, hactive, hid⟩ := hsound.authenticated _ _ _ _ _ hlog
  obtain ⟨hclient, hscope, haud, huser⟩ := hclaimed
  obtain ⟨codeHash, code, hauthorized, hcode⟩ := hchain.authorized
  obtain ⟨hrequestClient, hrequestResource, hscopes⟩ := hchain.bounded
  exact ⟨request, hash, record, codeHash, code, hchain, hauthorized, huser.trans hcode,
    hclient.trans hrequestClient, haud.trans hrequestResource, hscope, hscopes, hactive, hid⟩

end Invariant

section Samples

def sampleClient : String := "mcp-" ++ sampleUuid '3'

def sampleClaims : AccessClaims :=
  accessClaims sampleEnvironment 60000 (sampleRandoms '6') sampleClient ["update:read"] "https://c/mcp"
    ("usr_" ++ sampleUuid '2')

/-- A client is registered and authorized, and its token is accepted. -/
def sampleGrant : List Turn :=
  [⟨.register ⟨["r"], none, ["authorization_code"], ["code"]⟩, 0, sampleRandoms '3'⟩,
    ⟨.handleAuthorization ⟨false, false, none,
      [("client_id", sampleClient), ("redirect_uri", "r"), ("response_type", "code"),
        ("code_challenge_method", "S256"), ("code_challenge", sampleToken 'v'),
          ("resource", "https://c/mcp")], none, none, none⟩ false, 30000, sampleRandoms '4'⟩,
    ⟨.completeUserLogin (sampleForm [("state", sampleToken '4'), ("email", "a@b"), ("code", "000000")]
      (some (sampleToken '4'))), 60000, sampleRandoms '5'⟩,
    ⟨.token [("client_id", sampleClient), ("grant_type", "authorization_code"),
      ("code", "code-" ++ sampleToken '5'),
      ("redirect_uri", "r"), ("resource", "https://c/mcp"), ("code_verifier", sampleToken 'v')],
      60000, sampleRandoms '6'⟩,
    ⟨.authenticate (some (.signed (sampleToken '6') sampleClaims)), 61000, sampleRandoms '7'⟩]

def sampleGranted : Moment :=
  (sampleEnrollment ++ sampleGrant).foldl (Moment.next sampleEnvironment) (.initial [])

theorem reached_sampleGranted : Reached sampleEnvironment [] sampleGranted :=
  reached_of_checkedRun .refl (by decide +kernel)

def sampleUser : UpdateControlUser := ⟨"usr_" ++ sampleUuid '2', "A", "a@b", .admin, .active⟩

theorem accepted_traces_back_sample :
    let before := sampleGranted.state.log.dropLast
    sampleGranted.state.log = before ++ [.authenticated (sampleToken '6') sampleClaims sampleUser] ∧
      (∃ request hash record codeHash code, Chain sampleEnvironment before request hash record
        (sampleToken '6') sampleClaims ∧
        Authorized before codeHash code request ∧ sampleClaims.userId = code.userId ∧
        sampleClaims.clientId = request.clientId) ∧
      (sampleGranted.state.log.filterMap grantUsed).Nodup := by
  intro before
  have hlast : sampleGranted.state.log.getLast? =
      some (.authenticated (sampleToken '6') sampleClaims sampleUser) := by
    decide +kernel
  have hlog : sampleGranted.state.log = before ++
      [.authenticated (sampleToken '6') sampleClaims sampleUser] :=
    (List.dropLast_append_getLast? _ hlast).symm
  obtain ⟨hback, hnodup⟩ := accepted_traces_back reached_sampleGranted
  obtain ⟨request, hash, record, codeHash, code, hchain, hauthorized, huser, hclient, -⟩ :=
    hback _ _ _ _ _ hlog
  exact ⟨hlog, ⟨request, hash, record, codeHash, code, hchain, hauthorized, huser, hclient⟩, hnodup⟩

end Samples

end AccessStack.Identity
