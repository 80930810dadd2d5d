import AccessStack.Identity.Service

/-!
# What a request may do

`Allowed` says of each event what has been checked where it is emitted. Every
event of a request is allowed, whatever the request and the storage are.
-/

set_option autoImplicit false

namespace AccessStack.Identity
open AccessStack.Text AccessStack.OAuth AccessStack.Emits AccessStack.Runs

section Views

variable (z : Environment)

/-- The user under a key, as `getUser` returns it. -/
def userAt (s : Store) (userId : String) : Option UpdateControlUser :=
  (s.users userId).bind fun value => (normalizeRole value.role).map fun storedRole =>
    withRole value (roleOf z value storedRole)

/-- The user of an email, as `findUserByEmail` returns it. -/
def userOfEmail (s : Store) (email : String) : Option UpdateControlUser :=
  ((s.emails (z.sha256Base64Url (normalizeEmail z email))).filter (· ≠ "")).bind (userAt z s)

def UserOf.isActiveAdmin (user : UpdateControlUser) : Bool := user.status = .active && user.role = .admin

def adminCount (s : Store) : ℕ := ((s.userIds.filterMap (userAt z s)).filter UserOf.isActiveAdmin).length

/-- A user is being created: the record is there and the list of users is not
written yet. -/
def Creating (log : List Event) : Prop :=
  (∃ user origin, log.getLast? = some (.created user origin)) ∨
    ∃ emailHash userId, log.getLast? = some (.indexed emailHash userId)

def TotpCredential.unlocked (credential : TotpCredential) (now : ℕ) : Prop :=
  ∀ lock, credential.lockedUntilMs = some lock → lock ≤ now

/-- The factor has not been used with the credential. -/
def TotpCredential.unused (credential : TotpCredential) : Factor → Prop
  | .counter n => ∀ last, credential.lastAcceptedCounter = some last → last < n
  | .recovery hash => hash ∈ credential.recoveryCodeHashes

end Views

section Allowed

structure Turn where
  call : Call
  now : ℕ
  random : Randoms

variable (z : Environment) (t : Turn)

/-- The record under the key is that of the active user. -/
def ActiveAt (s : Store) (place : String) (user : UpdateControlUser) : Prop :=
  s.users place = some user.stored ∧ userAt z s place = some user ∧ user.status = .active

def Originated (s : Store) (email : String) : Origin → Prop
  | .bootstrap => s.userIds = [] ∧ email = normalizeEmail z z.config.bootstrapAdminEmail
  | .invitation hash => ∃ invitation, s.invitations hash = some invitation

/-- A person has just given a factor or presented a session. -/
def Attested (w : State) (userId : String) : Completion → Prop
  | .login => ∃ factor credential, w.log.getLast? = some (.accepted factor credential t.now) ∧
      credential.userId = userId
  | .session key =>
    ∃ session user, w.log.getLast? = some (.presented key session user t.now) ∧ user.id = userId

/-- The grant that new tokens come from has just been used. -/
def Granted (w : State) (record : RefreshTokenRecord) : GrantKey → Prop
  | .code hash => ∃ code user redirectUri verifier, .exchanged hash code user redirectUri verifier ∈ w.log ∧
      record.clientId = code.clientId ∧ record.scopes = code.scopes ∧ record.resource = code.resource ∧
      record.userId = user.id
  | .refresh hash => ∃ old user, .refreshed hash old user ∈ w.log ∧ record.clientId = old.clientId ∧
      (∀ scope ∈ record.scopes, scope ∈ old.scopes) ∧ record.resource = old.resource ∧ record.userId = user.id

def bearerOf : Call → Option Bearer
  | .authenticate token => token
  | .revoke token => token
  | _ => none

/-- No refresh token of the hash has been issued. -/
def Unissued (hash : String) (log : List Event) : Prop :=
  ∀ origin record key claims, .issued origin hash record key claims ∉ log

/-- No user with the id has been created. -/
def Uncreated (userId : String) (log : List Event) : Prop := ∀ user origin, .created user origin ∈
    log → user.id ≠ userId

def Turn.userId : String := "usr_" ++ t.random.uuid

def Turn.refreshHash : String := z.sha256Base64Url ("refresh-" ++ t.random.refresh)

def Call.isEnrollment : Call → Bool
  | .completeEnrollment _ => true
  | _ => false

def Call.isToken : Call → Bool
  | .token _ => true
  | _ => false

/-- What is drawn for a turn has not been drawn before. -/
structure Turn.Fresh (log : List Event) : Prop where
  refresh : Unissued (t.refreshHash z) log
  user : Uncreated t.userId log

/-- What has been checked where an event is emitted. `quiet` says that no
creation of a user was left unfinished before the request and `fresh` that
what is drawn for it is new. -/
def Allowed (quiet fresh : Prop) (w : State) : Event → Prop
  | .created user origin => t.call.isEnrollment = true ∧ (quiet → ¬ Creating w.log) ∧
      (fresh → Uncreated t.userId w.log) ∧ user.id = t.userId ∧ user.status = .active ∧
        isBootstrapAdminEmail user.email = true ∧
      (∃ field, user.email = normalizeEmail z field) ∧ (∃ role, normalizeRole user.role = some role) ∧
      userOfEmail z w.store user.email = none ∧ Originated z w.store user.email origin
  | .indexed emailHash userId =>
    t.call.isEnrollment = true ∧ ∃ user origin, w.log.getLast? = some (.created user origin) ∧
      userId = user.id ∧ emailHash = z.sha256Base64Url user.email
  | .listed userIds =>
    t.call.isEnrollment = true ∧ ∃ emailHash userId, w.log.getLast? = some (.indexed emailHash userId) ∧
      userIds = w.store.userIds ++ [userId]
  | .enrolled credential counter => t.call.isEnrollment = true ∧ ∃ before secret,
      w.log.getLast? = some (.listed (before ++ [credential.userId])) ∧
        credential = newCredential z t.random credential.userId secret counter
  | .userStored userId user =>
    ∃ place old, userAt z w.store place = some old ∧ (userId = place ∨ userId = old.id) ∧
      user.id = old.id ∧ user.email = old.email ∧ (∃ role, normalizeRole user.role = some role) ∧
      (user.status = old.status ∨ (old.role = .admin → 2 ≤ adminCount z w.store))
  | .failed credential now => now = t.now ∧ ∃ old, w.store.credentials credential.userId = some old ∧
      old.userId = credential.userId ∧ old.unlocked now ∧ credential = old.afterFailure now
  | .accepted factor credential now => now = t.now ∧ (∃ place user, ActiveAt z w.store place user ∧
      user.id = credential.userId) ∧ ∃ old, w.store.credentials credential.userId = some old ∧
      old.userId = credential.userId ∧ old.unlocked now ∧ old.unused factor ∧
        credential = old.afterFactor factor
  | .invited hash invitation => invitation.role = .user ∧
      ((∃ old, w.store.invitations hash = some old) ∨
        (hash = z.sha256Base64Url t.random.invite ∧
          ∃ key session user, .presented key session user t.now ∈ w.log ∧ user.role = .admin))
  | .enrollmentStored pending => pending.state = t.random.state ∧
      (pending.kind = .join → ∃ hash invitation, pending.inviteHash = some hash ∧
        w.store.invitations hash = some invitation)
  | .sessionOpened key session => key = .human (z.sha256Base64Url t.random.session) ∧
      ∃ factor credential, .accepted factor credential t.now ∈ w.log ∧ credential.userId = session.userId
  | .presented key session user now => now = t.now ∧ w.store.sessions key = some session ∧
      now < session.expiresAt ∧ ActiveAt z w.store session.userId user
  | .loginStored pending => pending.state = t.random.state
  | .completed state completion hash record =>
    t.call.isToken = false ∧ hash = z.sha256Base64Url ("code-" ++ t.random.code) ∧
      Attested t w record.userId completion ∧ ∃ pending request, w.store.logins state = some pending ∧
        t.now < pending.expiresAtMs ∧ pending.kind.request = some request ∧
        record = codeRecord t.now request record.userId
  | .exchanged hash record user redirectUri verifier =>
    t.call.isToken = true ∧ w.store.codes hash = some record ∧
      t.now ≤ record.expiresAtMs ∧ redirectUri = record.redirectUri ∧
      z.sha256Base64Url verifier = record.codeChallenge ∧ ActiveAt z w.store record.userId user
  | .refreshed hash record user =>
    t.call.isToken = true ∧ w.store.refresh hash = some record ∧ nowSeconds t.now < record.expiresAt ∧
      ActiveAt z w.store record.userId user
  | .signingStored _ => t.call.isToken = true ∧ w.store.signing = none
  | .issued origin hash record key claims => t.call.isToken = true ∧ hash = t.refreshHash z ∧
      (fresh → Unissued hash w.log) ∧ w.store.signing = some ⟨key, record.signingVersion⟩ ∧
        Granted w record origin ∧
      claims = accessClaims z t.now t.random record.clientId record.scopes record.resource record.userId
  | .authenticated key claims user => bearerOf t.call = some (.signed key claims) ∧
      (∃ signing, w.store.signing = some signing ∧ signing.key = key) ∧ nowSeconds t.now < claims.exp ∧
      (∀ expiry, w.store.revoked claims.jti = some expiry → expiry ≤ nowSeconds t.now) ∧
      z.config.requiredScope ∈ parseScopes claims.scope ∧ ActiveAt z w.store claims.userId user
  | _ => True

end Allowed

variable {z : Environment} {t : Turn} {quiet fresh : Prop}

section Users

/-- Only records of users have been written again, and none is read another
way than before. -/
structure Browsed (z : Environment) (w w' : State) : Prop where
  store : w'.store = { w.store with users := w'.store.users }
  users : ∀ userId, userAt z w'.store userId = userAt z w.store userId
  log : ∃ stored : List (String × StoredUpdateControlUser),
    w'.log = w.log ++ stored.map fun entry => .userStored entry.1 entry.2

theorem Browsed.refl (w : State) : Browsed z w w := ⟨rfl, fun _ => rfl, [], by simp⟩

theorem Browsed.trans {w w' w'' : State} (h : Browsed z w w') (h' : Browsed z w' w'') : Browsed z w w'' := by
  obtain ⟨stored, hlog⟩ := h.log
  obtain ⟨stored', hlog'⟩ := h'.log
  refine ⟨?_, fun userId => (h'.users userId).trans (h.users userId), stored ++ stored', ?_⟩
  · rw [h'.store, h.store]
  · rw [hlog', hlog, List.map_append, List.append_assoc]

theorem roleOf_eq (value : StoredUpdateControlUser) (role : UpdateControlRole) : roleOf z value role =
    if normalizeEmail z value.email =
      normalizeEmail z z.config.bootstrapAdminEmail then .admin else .user := by
  cases role <;> rfl

theorem normalizeRole_stored (role : UpdateControlRole) : normalizeRole role.stored = some role := by
  cases role <;> rfl

theorem userAt_eq_some {s : Store} {userId : String} {user : UpdateControlUser} :
    userAt z s userId = some user ↔
    ∃ value role, s.users userId = some value ∧ normalizeRole value.role = some role ∧
      user = withRole value (roleOf z value role) := by
  rw [userAt, Option.bind_eq_some_iff]
  constructor
  · rintro ⟨value, hvalue, hmap⟩
    obtain ⟨role, hrole, rfl⟩ := Option.map_eq_some_iff.mp hmap
    exact ⟨value, role, hvalue, hrole, rfl⟩
  · rintro ⟨value, role, hvalue, hrole, rfl⟩
    exact ⟨value, hvalue, Option.map_eq_some_iff.mpr ⟨role, hrole, rfl⟩⟩

/-- A user who is read is read the same way once written. -/
theorem userAt_update {s : Store} {place : String} {user : UpdateControlUser}
    (h : userAt z s place = some user) (userId : String) :
    userAt z { s with users := Function.update s.users place (some user.stored) } userId =
      userAt z s userId := by
  by_cases hid : userId = place
  · subst hid
    obtain ⟨value, role, -, -, rfl⟩ := userAt_eq_some.mp h
    rw [h, userAt_eq_some]
    refine ⟨_, _, Function.update_self _ _ _, normalizeRole_stored _, ?_⟩
    rw [roleOf_eq]
    simp only [withRole, UserOf.stored]
    rw [roleOf_eq]
  · simp only [userAt]
    rw [Function.update_of_ne hid]

theorem stored_withRole {value : StoredUpdateControlUser} {role : UpdateControlRole}
    (h : value.role = role.stored) :
    (withRole value role).stored = value := by
  rcases value with ⟨id, displayName, email, storedRole, status⟩
  cases h
  rfl

theorem browsed_stored {w : State} {place : String} {user : UpdateControlUser}
    (h : userAt z w.store place = some user) : Browsed z w (w.after (.userStored place user.stored)) :=
  ⟨rfl, userAt_update h, [(place, user.stored)], rfl⟩

theorem allowed_stored {w : State} {place : String} {user : UpdateControlUser}
    (h : userAt z w.store place = some user) : Allowed z t quiet fresh w (.userStored place user.stored) :=
  ⟨place, user, h, .inl rfl, rfl, rfl, ⟨user.role, normalizeRole_stored user.role⟩, .inl rfl⟩

/-- What is known after a user has been read. -/
structure Read (z : Environment) (w : State) (place : String) (user : Option UpdateControlUser)
    (w' : State) : Prop where
  eq : user = userAt z w.store place
  browsed : Browsed z w w'
  stored : ∀ found, user = some found → w'.store.users place = some found.stored
  absent : user = none → w' = w

theorem getUser_meets (w : State) (place : String) :
    Meets (Allowed z t quiet fresh) (getUser z place) w (Read z w place) := by
  unfold getUser
  simp only [meets_bind, meets_look]
  cases hvalue : w.store.users place with
  | none =>
    simp only [meets_pure]
    have hnone : none = userAt z w.store place := by
      rw [userAt, hvalue]
      rfl
    exact ⟨hnone, .refl w, nofun, fun _ => rfl⟩
  | some value =>
    cases hrole : normalizeRole value.role with
    | none =>
      simp only [hrole, meets_pure]
      have hnone : none = userAt z w.store place := by
        rw [userAt, hvalue, Option.bind_some, hrole]
        rfl
      exact ⟨hnone, .refl w, nofun, fun _ => rfl⟩
    | some role =>
      have huser : userAt z w.store place = some (withRole value (roleOf z value role)) :=
        userAt_eq_some.mpr ⟨value, role, hvalue, hrole, rfl⟩
      simp only [hrole]
      split_ifs with hchanged
      · rw [meets_bind, meets_emit, meets_pure]
        refine ⟨allowed_stored huser, huser.symm, browsed_stored huser, ?_, nofun⟩
        intro found hfound
        cases hfound
        exact Function.update_self _ _ _
      · rw [meets_pure]
        refine ⟨huser.symm, .refl w, ?_, nofun⟩
        intro found hfound
        cases hfound
        have hsame : value.role = (roleOf z value role).stored := not_not.mp hchanged
        rw [hvalue, stored_withRole hsame]

theorem Read.active {w w' : State} {place : String} {user : Option UpdateControlUser}
    {found : UpdateControlUser} (h : Read z w place user w') (hfound : user = some found)
    (hactive : found.status = .active) :
    ActiveAt z w'.store place found := by
  refine ⟨h.stored found hfound, ?_, hactive⟩
  rw [h.browsed.users, ← h.eq, hfound]

theorem activeUser_meets (w : State) (place : String) :
    Meets (Allowed z t quiet fresh) (activeUser z place) w fun user w' => Browsed z w w' ∧
      ∀ found, user = some found → ActiveAt z w'.store place found := by
  unfold activeUser
  rw [meets_bind]
  apply (getUser_meets w place).mono
  intro user w' h
  rw [meets_pure]
  refine ⟨h.browsed, ?_⟩
  intro found hfound
  obtain ⟨huser, hactive⟩ := Option.filter_eq_some_iff.mp hfound
  exact h.active huser (of_decide_eq_true hactive)

theorem findUserByEmail_meets (w : State) (email : String) :
    Meets (Allowed z t quiet fresh) (findUserByEmail z email) w fun user w' => Browsed z w w' ∧
      user = userOfEmail z w.store email ∧ (user = none → w' = w) ∧
      ∀ found, user = some found → ∃ place, w'.store.users place = some found.stored ∧
        userAt z w'.store place = some found := by
  unfold findUserByEmail
  simp only [meets_bind, meets_look]
  cases hindex : w.store.emails (z.sha256Base64Url (normalizeEmail z email)) with
  | none =>
    rw [meets_pure]
    refine ⟨.refl w, ?_, fun _ => rfl, nofun⟩
    rw [userOfEmail, hindex]
    rfl
  | some place =>
    by_cases hplace : place = ""
    · simp only [hplace, if_true, meets_pure]
      refine ⟨.refl w, ?_, fun _ => trivial, nofun⟩
      rw [userOfEmail, hindex, hplace]
      rfl
    · simp only [hplace, if_false]
      apply (getUser_meets w place).mono
      intro user w' h
      refine ⟨h.browsed, ?_, h.absent, ?_⟩
      · rw [h.eq, userOfEmail, hindex]
        rw [Option.filter_some, if_pos (by simpa using hplace), Option.bind_some]
      · intro found hfound
        refine ⟨place, h.stored found hfound, ?_⟩
        rw [h.browsed.users, ← h.eq, hfound]

theorem getUsers_meets (w : State) (ids : List String) :
    Meets (Allowed z t quiet fresh) (getUsers z ids) w fun users w' => Browsed z w w' ∧
      users = ids.filterMap (userAt z w.store) := by
  induction ids generalizing w with
  | nil => exact meets_pure.mpr ⟨.refl w, rfl⟩
  | cons id ids ih =>
    rw [getUsers, meets_bind]
    apply (getUser_meets w id).mono
    intro user w' h
    rw [meets_bind]
    apply (ih w').mono
    rintro users w'' ⟨hbrowsed, rfl⟩
    refine meets_pure.mpr ⟨h.browsed.trans hbrowsed, ?_⟩
    have hsame : ids.filterMap (userAt z w'.store) = ids.filterMap (userAt z w.store) :=
      List.filterMap_congr fun place _ => h.browsed.users place
    rw [hsame, h.eq]
    cases hid : userAt z w.store id with
    | none => rw [List.filterMap_cons_none hid, Option.toList_none, List.nil_append]
    | some user => rw [List.filterMap_cons_some hid, Option.toList_some, List.singleton_append]

theorem listUsers_meets (w : State) :
    Meets (Allowed z t quiet fresh) (listUsers z) w fun users w' => Browsed z w w' ∧
      users = w.store.userIds.filterMap (userAt z w.store) := by
  rw [listUsers, meets_bind, meets_look]
  exact getUsers_meets w w.store.userIds

theorem activeAdminCount_meets (w : State) :
    Meets (Allowed z t quiet fresh) (activeAdminCount z) w fun count w' => Browsed z w w' ∧
      count = adminCount z w'.store := by
  rw [activeAdminCount, meets_bind]
  apply (listUsers_meets w).mono
  rintro users w' ⟨hbrowsed, rfl⟩
  refine meets_pure.mpr ⟨hbrowsed, ?_⟩
  have hids : w'.store.userIds = w.store.userIds := by rw [hbrowsed.store]
  have hsame : w.store.userIds.filterMap (userAt z w'.store) = w.store.userIds.filterMap (userAt z w.store) :=
    List.filterMap_congr fun place _ => hbrowsed.users place
  rw [adminCount, hids, hsame]
  rfl

end Users

section Sessions

theorem log_foldl (events : List Event) (w : State) : (events.foldl State.after w).log = w.log ++ events := by
  induction events generalizing w with
  | nil => exact (List.append_nil w.log).symm
  | cons e events ih => rw [List.foldl_cons, ih, State.after, List.append_assoc, List.singleton_append]

theorem log_final {α : Type} (x : Serve α) (w : State) : (x.final w).log = w.log ++ (x w).2 :=
  log_foldl _ _

/-- What is in the log stays there. -/
theorem meets_log {α : Type} {ok : State → Event → Prop} {x : Serve α} {w : State} {post : α → State → Prop}
    (h : Meets ok x w post) : Meets ok x w fun a w' => post a w' ∧ ∀ e ∈ w.log, e ∈ w'.log := by
  refine ⟨h.1, h.2, ?_⟩
  intro e he
  rw [log_final]
  exact List.mem_append_left _ he

def Presented (t : Turn) (context : HumanSessionContext) (w : State) : Prop :=
  w.log.getLast? = some (.presented context.key context.session context.user t.now)

theorem mem_of_getLast {e : Event} {log : List Event} (h : log.getLast? = some e) : e ∈ log :=
  List.mem_of_getLast? h

theorem readHumanSession_meets (w : State) (request : Request) :
    Meets (Allowed z t quiet fresh) (readHumanSession z t.now request) w fun context w' =>
      ∀ found, context = some found → Presented t found w' := by
  unfold readHumanSession
  cases sessionKey z request with
  | none =>
    rw [meets_pure]
    exact nofun
  | some key =>
    simp only [meets_bind, meets_look]
    cases hsession : w.store.sessions key with
    | none =>
      simp only [meets_bind, meets_emit, meets_pure]
      exact ⟨trivial, nofun⟩
    | some session =>
      simp only
      split_ifs with hexpired
      · simp only [meets_bind, meets_emit, meets_pure]
        exact ⟨trivial, nofun⟩
      · rw [meets_bind]
        apply (getUser_meets w session.userId).mono
        intro user w' h
        cases user with
        | none =>
          simp only [meets_bind, meets_emit, meets_pure]
          exact ⟨trivial, nofun⟩
        | some user =>
          simp only
          split_ifs with hrefused
          · simp only [meets_bind, meets_emit, meets_pure]
            exact ⟨trivial, nofun⟩
          · simp only [meets_bind, meets_emit, meets_pure]
            have hactive : user.status = .active := by
              by_contra hne
              exact hrefused (.inl hne)
            refine ⟨⟨rfl, ?_, Nat.lt_of_not_le hexpired, h.active rfl hactive⟩, ?_⟩
            · rw [h.browsed.store]
              exact hsession
            · intro found hfound
              cases hfound
              exact List.getLast?_concat

theorem requireAdminPost_meets (w : State) (request : Request) :
    Meets (Allowed z t quiet fresh) (requireAdminPost z t.now request) w fun result w' =>
      ∀ context fields, result = .ok (context, fields) → Presented t context w' ∧
      context.user.role = .admin := by
  unfold requireAdminPost
  split_ifs
  · rw [meets_pure]
    exact nofun
  · rw [meets_bind]
    apply (readHumanSession_meets w request).mono
    intro context w' h
    cases context with
    | none =>
      simp only [meets_pure]
      exact nofun
    | some context =>
      simp only
      split_ifs with hrole
      · rw [meets_pure]
        exact nofun
      · rw [meets_pure]
        intro found fields hfound
        cases hform : sessionForm request context.session with
        | error refusal =>
          rw [hform] at hfound
          cases hfound
        | ok form =>
          rw [hform] at hfound
          cases hfound
          exact ⟨h context rfl, not_not.mp hrole⟩

theorem createHumanSession_meets {w : State} {user : UpdateControlUser} (response : Response)
    (h : ∃ factor credential, .accepted factor credential t.now ∈ w.log ∧ credential.userId = user.id) :
    Meets (Allowed z t quiet fresh) (createHumanSession z t.now t.random user response) w fun _ _ =>
    True := by
  unfold createHumanSession
  simp only [meets_bind, meets_emit, meets_pure]
  exact ⟨⟨rfl, h⟩, trivial⟩

end Sessions

section Logins

theorem livePending_eq_some {w : State} {state : String} {pending : PendingLogin} :
    (w.store.logins state).filter (fun pending => t.now < pending.expiresAtMs) = some pending ↔
      w.store.logins state = some pending ∧ t.now < pending.expiresAtMs := by
  rw [Option.filter_eq_some_iff, decide_eq_true_eq]

theorem completeAuthorization_meets {w : State} (state : String) {user : UpdateControlUser}
    {completion : Completion} (hcall : t.call.isToken = false) (h : Attested t w user.id completion) :
    Meets (Allowed z t quiet fresh)
    (completeAuthorization z t.now t.random state user completion) w fun _ _ => True := by
  unfold completeAuthorization livePending
  simp only [meets_bind, meets_look, meets_pure]
  cases hpending : (((w.store.logins state).filter fun pending => t.now < pending.expiresAtMs).filter
      fun pending => pending.state = state).bind fun pending => pending.kind.request with
  | none =>
    simp only [meets_bind, meets_emit, meets_pure]
    exact ⟨trivial, trivial⟩
  | some request =>
    simp only
    split_ifs
    · simp only [meets_bind, meets_emit, meets_pure]
      exact ⟨trivial, trivial⟩
    · simp only [meets_bind, meets_emit, meets_pure]
      obtain ⟨pending, hfilter, hrequest⟩ := Option.bind_eq_some_iff.mp hpending
      obtain ⟨hlive, -⟩ := Option.filter_eq_some_iff.mp hfilter
      obtain ⟨hstored, hexpiry⟩ := livePending_eq_some.mp hlive
      exact ⟨⟨hcall, rfl, h, pending, request, hstored, hexpiry, hrequest, rfl⟩, trivial, trivial⟩

theorem factorOf_unused {credential : TotpCredential} {now : ℕ} {userId code : String} {factor : Factor}
    (h : factorOf z now credential userId code = some (some factor)) : credential.unused factor := by
  unfold factorOf at h
  split_ifs at h with htotp hrecovery
  · obtain ⟨secret, -, hverify⟩ := Option.map_eq_some_iff.mp h
    obtain ⟨counter, hcounter, rfl⟩ := Option.map_eq_some_iff.mp hverify
    intro last hlast
    unfold verifyTotp at hcounter
    split_ifs at hcounter
    have hfound := List.find?_some hcounter
    rw [hlast] at hfound
    simp only [Option.all_some, Bool.and_eq_true, decide_eq_true_eq] at hfound
    exact hfound.1
  · rw [Option.some.injEq] at h
    split_ifs at h with hmem
    cases h
    exact hmem
  · cases h

/-- A user who has just given a factor. -/
def JustAccepted (t : Turn) (user : UpdateControlUser) (w : State) : Prop :=
  ∃ factor credential, w.log.getLast? = some (.accepted factor credential t.now) ∧ credential.userId = user.id

theorem afterFactor_userId (credential : TotpCredential) (factor : Factor) :
    (credential.afterFactor factor).userId = credential.userId := by
  cases factor <;> rfl

theorem afterFailure_userId (credential : TotpCredential) (now : ℕ) :
    (credential.afterFailure now).userId = credential.userId := by
  simp only [TotpCredential.afterFailure]
  split_ifs <;> rfl

theorem authenticateLocalUser_meets (w : State) (email code : String) :
    Meets (Allowed z t quiet fresh) (authenticateLocalUser z t.now email code) w fun user w' =>
      ∀ found, user = some found → JustAccepted t found w' := by
  unfold authenticateLocalUser
  rw [meets_bind]
  apply (findUserByEmail_meets w email).mono
  rintro found w' ⟨-, -, -, hfound⟩
  cases huser : found.filter fun user => user.status = .active with
  | none =>
    simp only [meets_pure]
    exact nofun
  | some user =>
    obtain ⟨hsome, hactive⟩ := Option.filter_eq_some_iff.mp huser
    obtain ⟨place, hstored, hat⟩ := hfound user hsome
    simp only [meets_bind, meets_look]
    cases hcredential : w'.store.credentials user.id with
    | none =>
      rw [meets_pure]
      exact nofun
    | some credential =>
      simp only
      split_ifs with howner hlocked
      · rw [meets_pure]
        exact nofun
      · rw [meets_pure]
        exact nofun
      · have hid : credential.userId = user.id := not_not.mp howner
        have hunlocked : credential.unlocked t.now := by
          intro lock hlock
          by_contra hlt
          apply hlocked
          rw [hlock, Option.any_some, decide_eq_true_eq]
          omega
        cases hfactor : factorOf z t.now credential user.id code with
        | none =>
          simp only [meets_pure]
          exact nofun
        | some outcome =>
          cases outcome with
          | none =>
            simp only [meets_bind, meets_emit, meets_pure]
            refine ⟨⟨rfl, credential, ?_, (afterFailure_userId _ _).symm, hunlocked, rfl⟩, nofun⟩
            rw [afterFailure_userId, hid]
            exact hcredential
          | some factor =>
            simp only [meets_bind, meets_emit, meets_pure]
            have huserId : (credential.afterFactor factor).userId = user.id :=
              (afterFactor_userId _ _).trans hid
            refine ⟨⟨rfl, ⟨place, user, ⟨hstored, hat, of_decide_eq_true hactive⟩, huserId.symm⟩,
              credential, ?_,
              (afterFactor_userId _ _).symm, hunlocked, factorOf_unused hfactor, rfl⟩, ?_⟩
            · rw [huserId]
              exact hcredential
            · intro found hfound
              cases hfound
              exact ⟨factor, _, List.getLast?_concat, huserId⟩

theorem JustAccepted.attested {user : UpdateControlUser} {w : State} (h : JustAccepted t user w) :
    Attested t w user.id .login := h

theorem Presented.attested {context : HumanSessionContext} {w : State} (h : Presented t context w) :
    Attested t w context.user.id (.session context.key) :=
  ⟨context.session, context.user, h, rfl⟩

theorem beginLogin_meets (w : State) (state : Option String) :
    Meets (Allowed z t quiet fresh) (beginLogin t.now t.random state) w fun _ _ => True := by
  cases state with
  | none =>
    unfold beginLogin
    simp only [meets_bind, meets_emit, meets_pure]
    exact ⟨rfl, trivial⟩
  | some state =>
    unfold beginLogin livePending
    simp only [meets_bind, meets_look, meets_pure]
    cases (w.store.logins state).filter fun pending => t.now < pending.expiresAtMs with
    | none =>
      simp only [meets_bind, meets_emit, meets_pure]
      exact ⟨trivial, rfl, trivial⟩
    | some pending =>
      simp only [meets_pure]

theorem beginUserLogin_meets (w : State) (request : Request) (hcall : t.call.isToken = false) :
    Meets (Allowed z t quiet fresh) (beginUserLogin z t.now t.random request) w fun _ _ => True := by
  unfold beginUserLogin
  rw [meets_bind]
  apply (readHumanSession_meets w request).mono
  intro human w₁ hpresented
  cases human with
  | none => exact beginLogin_meets w₁ _
  | some human =>
    cases request.loginCookie.filter isOpaqueToken with
    | none => exact meets_pure.mpr trivial
    | some state =>
      unfold livePending
      simp only [meets_bind, meets_look, meets_pure]
      cases ((w₁.store.logins state).filter fun pending => t.now < pending.expiresAtMs).bind
          fun pending => pending.kind.request with
      | none => exact meets_pure.mpr trivial
      | some _ =>
        simp only [meets_bind, meets_pure]
        exact completeAuthorization_meets state hcall (hpresented human rfl).attested

theorem completeLogin_meets {w : State} {state : String} {pending : PendingLogin} {user : UpdateControlUser}
    (hcall : t.call.isToken = false) (h : JustAccepted t user w) :
    Meets (Allowed z t quiet fresh) (completeLogin z t.now t.random state pending user) w fun _ _ =>
    True := by
  unfold completeLogin
  cases pending.kind with
  | oauth request => exact completeAuthorization_meets state hcall h.attested
  | mcp request => exact completeAuthorization_meets state hcall h.attested
  | admin =>
    simp only [meets_bind, meets_emit, meets_pure]
    exact ⟨trivial, trivial⟩
  | user =>
    simp only [meets_bind, meets_emit, meets_pure]
    exact ⟨trivial, trivial⟩

/-- The session that a login ends with. -/
theorem createHumanSession_accepted {w w' : State} {user : UpdateControlUser} (response : Response)
    (h : JustAccepted t user w) (hlog : ∀ e ∈ w.log, e ∈ w'.log) :
    Meets (Allowed z t quiet fresh)
    (createHumanSession z t.now t.random user response) w' fun _ _ => True := by
  obtain ⟨factor, credential, hlast, hid⟩ := h
  exact createHumanSession_meets response ⟨factor, credential, hlog _ (mem_of_getLast hlast), hid⟩

theorem completeUserLogin_meets (w : State) (request : Request) (hcall : t.call.isToken = false) :
    Meets (Allowed z t quiet fresh) (completeUserLogin z t.now t.random request) w fun _ _ => True := by
  unfold completeUserLogin
  split_ifs
  · exact meets_pure.mpr trivial
  · exact meets_pure.mpr trivial
  cases request.body with
  | none => exact meets_pure.mpr trivial
  | some fields =>
    refine meets_ite.mpr ⟨fun _ => meets_pure.mpr trivial, fun _ => ?_⟩
    unfold livePending
    simp only [meets_bind, meets_look, meets_pure]
    cases ((w.store.logins (fields.text "state")).filter fun pending => t.now < pending.expiresAtMs).filter
        fun pending => pending.state = fields.text "state" with
    | none =>
      simp only [meets_bind, meets_emit, meets_pure]
      exact ⟨trivial, trivial⟩
    | some pending =>
      refine meets_ite.mpr ⟨fun _ => meets_pure.mpr trivial, fun _ => ?_⟩
      rw [meets_bind]
      apply (authenticateLocalUser_meets w _ _).mono
      intro user w₁ haccepted
      cases user with
      | none => exact meets_pure.mpr trivial
      | some user =>
        simp only
        split_ifs
        · simp only [meets_bind, meets_emit, meets_pure]
          exact ⟨trivial, trivial⟩
        · rw [meets_bind]
          apply (meets_log (completeLogin_meets hcall (haccepted user rfl))).mono
          rintro response w₂ ⟨-, hlog⟩
          exact createHumanSession_accepted response (haccepted user rfl) hlog

theorem logoutUser_meets (w : State) (request : Request) :
    Meets (Allowed z t quiet fresh) (logoutUser z t.now request) w fun _ _ => True := by
  unfold logoutUser
  split_ifs
  · exact meets_pure.mpr trivial
  rw [meets_bind]
  apply (readHumanSession_meets w request).mono
  intro context w₁ _
  cases context with
  | none => exact meets_pure.mpr trivial
  | some context =>
    simp only
    cases sessionForm request context.session with
    | error refusal => exact meets_pure.mpr trivial
    | ok fields =>
      simp only [meets_bind, meets_emit, meets_pure]
      exact ⟨trivial, trivial⟩

end Logins

section Authorization

theorem completeLegacyMcpLogin_meets (w : State) (fields : Fields) (hcall : t.call.isToken = false) :
    Meets (Allowed z t quiet fresh) (completeLegacyMcpLogin z t.now t.random fields) w fun _ _ => True := by
  unfold completeLegacyMcpLogin
  refine meets_ite.mpr ⟨fun _ => meets_pure.mpr trivial, fun _ => ?_⟩
  unfold livePending
  simp only [meets_bind, meets_look, meets_pure]
  cases ((w.store.logins (fields.text "state")).filter fun pending => t.now < pending.expiresAtMs).filter
      fun pending => pending.state = fields.text "state" && pending.kind.isMcp with
  | none => exact meets_pure.mpr trivial
  | some pending =>
    refine meets_ite.mpr ⟨fun _ => meets_pure.mpr trivial, fun _ => ?_⟩
    rw [meets_bind]
    apply (authenticateLocalUser_meets w _ _).mono
    intro user w₁ haccepted
    cases user with
    | none => exact meets_pure.mpr trivial
    | some user =>
      simp only [meets_bind]
      apply (meets_log (completeAuthorization_meets _ hcall (haccepted user rfl).attested)).mono
      rintro response w₂ ⟨-, hlog⟩
      apply (createHumanSession_accepted response (haccepted user rfl) hlog).mono
      intro answer w₃ _
      exact meets_pure.mpr trivial

theorem authorizeFields_meets (w : State) (fields : Fields) (request : Request)
    (hcall : t.call.isToken = false) :
    Meets (Allowed z t quiet fresh) (authorizeFields z t.now t.random fields request) w fun _ _ => True := by
  have hvalidate : Meets (Allowed z t quiet fresh)
      (validateAuthorizationRequest z fields) w fun _ _ => True := by
    unfold validateAuthorizationRequest
    simp only [meets_bind, meets_look]
    cases w.store.clients (fields.text "client_id") with
    | none => exact meets_pure.mpr trivial
    | some client =>
      simp only
      split_ifs <;> exact meets_pure.mpr trivial
  unfold authorizeFields
  rw [meets_bind]
  apply hvalidate.mono
  intro validated w₁ _
  cases validated with
  | none => exact meets_pure.mpr trivial
  | some validated =>
    simp only [meets_bind, meets_emit]
    refine ⟨rfl, ?_⟩
    apply (readHumanSession_meets _ request).mono
    intro human w₂ hpresented
    cases human with
    | none => exact meets_pure.mpr trivial
    | some human => exact completeAuthorization_meets _ hcall (hpresented human rfl).attested

theorem handleAuthorization_meets (w : State) (request : Request) (isAuthorizePath : Bool)
    (hcall : t.call.isToken = false) :
    Meets (Allowed z t quiet fresh)
    (handleAuthorization z t.now t.random request isAuthorizePath) w fun _ _ => True := by
  unfold handleAuthorization
  refine meets_ite.mpr ⟨fun _ => authorizeFields_meets w _ request hcall, fun _ => ?_⟩
  refine meets_ite.mpr ⟨fun _ => meets_pure.mpr trivial, fun _ => ?_⟩
  cases request.body with
  | none => exact meets_pure.mpr trivial
  | some fields =>
    refine meets_ite.mpr ⟨fun _ => ?_, fun _ => authorizeFields_meets w fields request hcall⟩
    rw [meets_bind]
    apply (completeLegacyMcpLogin_meets w fields hcall).mono
    intro response w₁ _
    cases response with
    | none => exact authorizeFields_meets w₁ fields request hcall
    | some response => exact meets_pure.mpr trivial

theorem register_meets (w : State) (input : RegisterInput) :
    Meets (Allowed z t quiet fresh) (register z t.random input) w fun _ _ => True := by
  unfold register
  refine meets_ite.mpr ⟨fun _ => meets_pure.mpr trivial, fun _ => ?_⟩
  rw [meets_bind, meets_look]
  refine meets_ite.mpr ⟨fun _ => meets_pure.mpr trivial, fun _ => ?_⟩
  refine meets_ite.mpr ⟨fun _ => meets_pure.mpr trivial, fun _ => ?_⟩
  simp only [meets_bind, meets_emit, meets_pure]
  exact ⟨trivial, trivial, trivial⟩

end Authorization

section Tokens

theorem Unissued.append {hash : String} {log : List Event} {e : Event} (h : Unissued hash log)
    (he : ∀ origin record key claims, .issued origin hash record key claims ≠ e) :
    Unissued hash (log ++ [e]) := by
  intro origin record key claims hmem
  rcases List.mem_append.mp hmem with hmem | hmem
  · exact h origin record key claims hmem
  · exact he origin record key claims (List.mem_singleton.mp hmem)

theorem Browsed.unissued {w w' : State} {hash : String} (h : Browsed z w w')
    (hash_fresh : Unissued hash w.log) :
    Unissued hash w'.log := by
  obtain ⟨stored, hlog⟩ := h.log
  intro origin record key claims hmem
  rw [hlog, List.mem_append] at hmem
  rcases hmem with hmem | hmem
  · exact hash_fresh origin record key claims hmem
  · obtain ⟨entry, -, hentry⟩ := List.mem_map.mp hmem
    cases hentry

theorem getSigningMaterial_meets (w : State) (hcall : t.call.isToken = true) :
    Meets (Allowed z t quiet fresh) (getSigningMaterial t.random) w fun signing w' =>
      w'.store.signing = some signing ∧ (∀ e ∈ w.log, e ∈ w'.log) ∧ ∀ hash, Unissued hash w.log →
      Unissued hash w'.log := by
  unfold getSigningMaterial
  rw [meets_bind, meets_look]
  cases hsigning : w.store.signing with
  | none =>
    simp only [meets_bind, meets_emit, meets_pure]
    exact ⟨⟨hcall, hsigning⟩, rfl, fun e he => List.mem_append_left _ he, fun hash h => h.append nofun⟩
  | some signing => exact meets_pure.mpr ⟨hsigning, fun e he => he, fun hash h => h⟩

theorem issueTokens_meets {w : State} {origin : GrantKey} {clientId resource userId : String}
    {scopes : List String} (hcall : t.call.isToken = true) (hfresh : fresh → Unissued (t.refreshHash z) w.log)
    (h : ∀ record : RefreshTokenRecord, record.clientId = clientId → record.scopes = scopes →
      record.resource = resource → record.userId = userId → Granted w record origin) :
    Meets (Allowed z t quiet fresh) (issueTokens z t.now t.random origin clientId scopes resource userId) w
      fun _ _ => True := by
  unfold issueTokens
  rw [meets_bind]
  apply (getSigningMaterial_meets w hcall).mono
  rintro signing w₁ ⟨hsigning, hlog, hunissued⟩
  simp only [meets_bind, meets_emit, meets_pure]
  refine ⟨⟨hcall, rfl, fun hf => hunissued _ (hfresh hf), hsigning, ?_, rfl⟩, trivial⟩
  have hgranted :=
    h ⟨clientId, scopes, resource, nowSeconds t.now+z.config.refreshTokenTtlSeconds, signing.version,
    userId⟩ rfl rfl rfl rfl
  cases origin with
  | code hash =>
    obtain ⟨code, user, redirectUri, verifier, hmem, hrest⟩ := hgranted
    exact ⟨code, user, redirectUri, verifier, hlog _ hmem, hrest⟩
  | refresh hash =>
    obtain ⟨old, user, hmem, hrest⟩ := hgranted
    exact ⟨old, user, hlog _ hmem, hrest⟩

theorem get_text {fields : Fields} {name value : String} (h : fields.get name = some value) :
    fields.text name = value := by
  rw [Fields.text, h, Option.getD_some]

theorem exchangeCode_meets (w : State) (fields : Fields) (hcall : t.call.isToken = true)
    (hfresh : fresh → Unissued (t.refreshHash z) w.log) :
    Meets (Allowed z t quiet fresh) (exchangeCode z t.now t.random fields) w fun _ _ => True := by
  unfold exchangeCode
  rw [meets_bind, meets_look]
  cases hrecord : (w.store.codes (z.sha256Base64Url (fields.text "code"))).filter
    (codeAccepted z t.now fields) with
  | none => exact meets_pure.mpr trivial
  | some record =>
    obtain ⟨hstored, haccepted⟩ := Option.filter_eq_some_iff.mp hrecord
    simp only [codeAccepted, Bool.and_eq_true, decide_eq_true_eq] at haccepted
    obtain ⟨⟨⟨⟨hclient, hexpiry⟩, hredirect⟩, -⟩, hchallenge⟩ := haccepted
    simp only
    rw [meets_bind]
    apply (activeUser_meets w record.userId).mono
    rintro user w₁ ⟨hbrowsed, hactive⟩
    cases user with
    | none => exact meets_pure.mpr trivial
    | some user =>
      simp only [meets_bind, meets_emit]
      refine ⟨⟨hcall, ?_, hexpiry, get_text hredirect, hchallenge, hactive user rfl⟩, ?_⟩
      · rw [hbrowsed.store]
        exact hstored
      · apply issueTokens_meets hcall
          (fun hf => (hbrowsed.unissued (hfresh hf)).append fun _ _ _ _ h => by cases h)
        rintro issued hclientId hscopes hresource huserId
        exact ⟨record, user, _, _, List.mem_append_right _ List.mem_cons_self,
          hclientId.trans hclient.symm, hscopes, hresource, huserId⟩

theorem refreshTokens_meets (w : State) (fields : Fields) (hcall : t.call.isToken = true)
    (hfresh : fresh → Unissued (t.refreshHash z) w.log) :
    Meets (Allowed z t quiet fresh) (refreshTokens z t.now t.random fields) w fun _ _ => True := by
  unfold refreshTokens
  simp only [meets_bind, meets_look]
  cases hrecord : (w.store.refresh (z.sha256Base64Url (fields.text "refresh_token"))).filter
      (refreshAccepted t.now fields w.store.signing) with
  | none => exact meets_pure.mpr trivial
  | some record =>
    obtain ⟨hstored, haccepted⟩ := Option.filter_eq_some_iff.mp hrecord
    simp only [refreshAccepted, Bool.and_eq_true, decide_eq_true_eq] at haccepted
    obtain ⟨⟨hclient, hexpiry⟩, -⟩ := haccepted
    simp only
    rw [meets_bind]
    apply (activeUser_meets w record.userId).mono
    rintro user w₁ ⟨hbrowsed, hactive⟩
    cases user with
    | none => exact meets_pure.mpr trivial
    | some user =>
      refine meets_ite.mpr ⟨fun _ => meets_pure.mpr trivial, fun _ => ?_⟩
      refine meets_ite.mpr ⟨fun _ => meets_pure.mpr trivial, fun hsubset => ?_⟩
      simp only [meets_bind, meets_emit]
      refine ⟨⟨hcall, ?_, hexpiry, hactive user rfl⟩, ?_⟩
      · rw [hbrowsed.store]
        exact hstored
      · apply issueTokens_meets hcall
          (fun hf => (hbrowsed.unissued (hfresh hf)).append fun _ _ _ _ h => by cases h)
        rintro issued hclientId hscopes hresource huserId
        refine ⟨record, user, List.mem_append_right _ List.mem_cons_self,
          hclientId.trans hclient.symm, ?_, hresource, huserId⟩
        rw [hscopes]
        intro scope hscope
        simp only [Bool.not_eq_true', Bool.not_eq_false] at hsubset
        exact List.contains_iff_mem.mp (List.all_eq_true.mp hsubset scope hscope)

theorem token_meets (w : State) (fields : Fields) (hcall : t.call.isToken = true)
    (hfresh : fresh → Unissued (t.refreshHash z) w.log) :
    Meets (Allowed z t quiet fresh) (token z t.now t.random fields) w fun _ _ => True := by
  unfold token
  rw [meets_bind, meets_look]
  cases w.store.clients (fields.text "client_id") with
  | none => exact meets_pure.mpr trivial
  | some client =>
    refine meets_ite.mpr ⟨fun _ => exchangeCode_meets w fields hcall hfresh, fun _ => ?_⟩
    exact meets_ite.mpr ⟨fun _ => refreshTokens_meets w fields hcall hfresh, fun _ => meets_pure.mpr trivial⟩

theorem revoke_meets (w : State) (bearer : Option Bearer) :
    Meets (Allowed z t quiet fresh) (revoke z bearer) w fun _ _ => True := by
  unfold revoke
  cases bearer with
  | none => exact meets_pure.mpr trivial
  | some bearer =>
    simp only [meets_bind, meets_look]
    cases verifyAccessToken z w.store.signing bearer with
    | none =>
      simp only [meets_bind, meets_emit, meets_pure]
      exact ⟨trivial, trivial⟩
    | some claims =>
      simp only [meets_bind, meets_emit, meets_pure]
      exact ⟨trivial, trivial⟩

theorem verifyAccessToken_eq_some {signing : Option SigningMaterial} {bearer : Bearer} {claims : AccessClaims}
    (h : verifyAccessToken z signing bearer = some claims) :
    bearer = .signed (keyOf bearer) claims ∧ ∃ material, signing = some material ∧
    material.key = keyOf bearer := by
  cases bearer with
  | text value => cases h
  | signed key signedClaims =>
    simp only [verifyAccessToken] at h
    split_ifs at h with hvalid
    cases h
    simp only [Bool.and_eq_true] at hvalid
    cases signing with
    | none => simp at hvalid
    | some material => exact ⟨rfl, material, rfl, by simpa [keyOf] using hvalid.1.1.2⟩

theorem authenticate_meets (w : State) (bearer : Option Bearer) (hcall : t.call = .authenticate bearer) :
    Meets (Allowed z t quiet fresh) (authenticate z t.now bearer) w fun _ _ => True := by
  unfold authenticate
  cases bearer with
  | none => exact meets_pure.mpr trivial
  | some bearer =>
    simp only [meets_bind, meets_look]
    cases hverify : verifyAccessToken z w.store.signing bearer with
    | none => exact meets_pure.mpr trivial
    | some claims =>
      obtain ⟨hbearer, material, hsigning, hkey⟩ := verifyAccessToken_eq_some hverify
      refine meets_ite.mpr ⟨fun _ => meets_pure.mpr trivial, fun hexpired => ?_⟩
      simp only [meets_bind, meets_look]
      refine meets_ite.mpr ⟨fun _ => meets_pure.mpr trivial, fun hrevoked => ?_⟩
      rw [meets_bind]
      apply (activeUser_meets w claims.userId).mono
      rintro user w₁ ⟨hbrowsed, hactive⟩
      cases user with
      | none => exact meets_pure.mpr trivial
      | some user =>
        refine meets_ite.mpr ⟨fun _ => meets_pure.mpr trivial, fun hscope => ?_⟩
        simp only [meets_bind, meets_emit, meets_pure]
        refine ⟨⟨?_, ⟨material, ?_, hkey⟩, Nat.lt_of_not_le hexpired, ?_, not_not.mp hscope,
          hactive user rfl⟩, trivial⟩
        · rw [hcall, bearerOf, ← hbearer]
        · rw [hbrowsed.store]
          exact hsigning
        · intro expiry hexpiry
          rw [hbrowsed.store] at hexpiry
          by_contra hlt
          apply hrevoked
          rw [hexpiry, Option.any_some, decide_eq_true_eq]
          omega

theorem deleteOAuthState_meets (w : State) (keys : List OAuthKey) :
    Meets (Allowed z t quiet fresh) (deleteOAuthState keys) w fun _ _ => True := by
  induction keys generalizing w with
  | nil => exact meets_pure.mpr trivial
  | cons key keys ih =>
    rw [deleteOAuthState, meets_bind, meets_emit]
    exact ⟨trivial, ih _⟩

end Tokens

section Administration

theorem beginBootstrap_meets (w : State) (operationId : String) :
    Meets (Allowed z t quiet fresh) (beginBootstrap t.now operationId) w fun _ _ => True := by
  unfold beginBootstrap
  rw [meets_bind, meets_look]
  cases w.store.bootstraps operationId with
  | none =>
    simp only [meets_bind, meets_look]
    refine meets_ite.mpr ⟨fun _ => meets_pure.mpr trivial, fun _ => ?_⟩
    simp only [meets_bind, meets_look]
    refine meets_ite.mpr ⟨fun _ => meets_pure.mpr trivial, fun _ => ?_⟩
    simp only [meets_bind, meets_emit, meets_pure]
    exact ⟨trivial, trivial, trivial⟩
  | some existing =>
    refine meets_ite.mpr ⟨fun _ => ?_, fun _ => meets_pure.mpr trivial⟩
    simp only [meets_bind, meets_emit, meets_look]
    refine ⟨trivial, meets_ite.mpr ⟨fun _ => ?_, fun _ => meets_pure.mpr trivial⟩⟩
    simp only [meets_bind, meets_emit, meets_pure]
    exact ⟨trivial, trivial⟩

theorem readBootstrap_meets (w : State) (operationId : String) :
    Meets (Allowed z t quiet fresh) (readBootstrap t.now operationId) w fun _ _ => True := by
  unfold readBootstrap
  rw [meets_bind, meets_look]
  cases w.store.bootstraps operationId with
  | none => exact meets_pure.mpr trivial
  | some existing =>
    refine meets_ite.mpr ⟨fun _ => ?_, fun _ => meets_pure.mpr trivial⟩
    simp only [meets_bind, meets_emit, meets_look]
    refine ⟨trivial, meets_ite.mpr ⟨fun _ => ?_, fun _ => meets_pure.mpr trivial⟩⟩
    simp only [meets_bind, meets_emit, meets_pure]
    exact ⟨trivial, trivial⟩

theorem beginBootstrapEnrollment_meets (w : State) :
    Meets (Allowed z t quiet fresh) (beginBootstrapEnrollment t.now t.random) w fun _ _ => True := by
  unfold beginBootstrapEnrollment beginEnrollment
  simp only [meets_bind, meets_look]
  refine meets_ite.mpr ⟨fun _ => meets_pure.mpr trivial, fun _ => ?_⟩
  simp only [meets_bind, meets_look]
  refine meets_ite.mpr ⟨fun _ => meets_pure.mpr trivial, fun _ => ?_⟩
  simp only [meets_bind, meets_emit, meets_pure]
  exact ⟨⟨rfl, nofun⟩, trivial⟩

theorem beginInviteJoin_meets (w : State) (inviteToken : String) :
    Meets (Allowed z t quiet fresh) (beginInviteJoin z t.now t.random inviteToken) w fun _ _ => True := by
  unfold beginInviteJoin beginEnrollment
  refine meets_ite.mpr ⟨fun _ => meets_pure.mpr trivial, fun _ => ?_⟩
  simp only [meets_bind, meets_look]
  cases hinvitation : w.store.invitations (z.sha256Base64Url inviteToken) with
  | none => exact meets_pure.mpr trivial
  | some invitation =>
    refine meets_ite.mpr ⟨fun _ => meets_pure.mpr trivial, fun _ => ?_⟩
    refine meets_ite.mpr ⟨fun _ => meets_pure.mpr trivial, fun _ => ?_⟩
    refine meets_ite.mpr ⟨fun _ => ?_, fun _ => ?_⟩
    · simp only [meets_bind, meets_emit, meets_pure]
      exact ⟨⟨rfl, .inl ⟨invitation, hinvitation⟩⟩,
        ⟨rfl, fun _ => ⟨_, _, rfl, Function.update_self _ _ _⟩⟩, trivial⟩
    · simp only [meets_bind, meets_emit, meets_pure]
      exact ⟨⟨rfl, fun _ => ⟨_, invitation, rfl, hinvitation⟩⟩, trivial⟩

theorem renderAdmin_meets (w : State) (request : Request) :
    Meets (Allowed z t quiet fresh) (renderAdmin z t.now request) w fun _ _ => True := by
  unfold renderAdmin
  rw [meets_bind]
  apply (readHumanSession_meets w request).mono
  intro context w₁ _
  cases context with
  | none => exact meets_pure.mpr trivial
  | some context =>
    refine meets_ite.mpr ⟨fun _ => meets_pure.mpr trivial, fun _ => ?_⟩
    rw [meets_bind]
    apply (listUsers_meets w₁).mono
    intro users w₂ _
    exact meets_pure.mpr trivial

theorem createInvite_meets (w : State) (request : Request) :
    Meets (Allowed z t quiet fresh) (createInvite z t.now t.random request) w fun _ _ => True := by
  unfold createInvite
  rw [meets_bind]
  apply (requireAdminPost_meets w request).mono
  intro result w₁ hadmin
  rcases result with refusal | ⟨context, fields⟩
  · exact meets_pure.mpr trivial
  · obtain ⟨hpresented, hrole⟩ := hadmin context fields rfl
    refine meets_ite.mpr ⟨fun _ => meets_pure.mpr trivial, fun _ => ?_⟩
    simp only [meets_bind, meets_emit, meets_pure]
    exact ⟨⟨rfl, .inr ⟨rfl, _, _, context.user, mem_of_getLast hpresented, hrole⟩⟩, trivial⟩

/-- The administrators are counted where it matters. -/
theorem lastAdmin_meets (w : State) (target : UpdateControlUser) :
    Meets (Allowed z t quiet fresh) (lastAdmin z target) w fun last w' =>
      Browsed z w w' ∧ (last = false → target.role = .admin → 2 ≤ adminCount z w'.store) := by
  unfold lastAdmin
  refine meets_ite.mpr ⟨fun hrole => meets_pure.mpr ⟨.refl w, fun _ h => absurd h hrole⟩, fun _ => ?_⟩
  rw [meets_bind]
  apply (activeAdminCount_meets w).mono
  rintro count w₁ ⟨hbrowsed, hcount⟩
  refine meets_pure.mpr ⟨hbrowsed, fun hlast _ => ?_⟩
  have := of_decide_eq_false hlast
  omega

/-- A target that is read and active, with the state in which it is. -/
theorem target_meets (w : State) (userId : String) :
    Meets (Allowed z t quiet fresh) (getUser z userId) w fun user w' =>
      ∀ target, user.filter (fun target => target.status = .active) = some target →
        userAt z w'.store userId = some target := by
  apply (getUser_meets w userId).mono
  intro user w₁ h target htarget
  obtain ⟨huser, -⟩ := Option.filter_eq_some_iff.mp htarget
  rw [h.browsed.users, ← h.eq, huser]

theorem revokeUser_meets (w : State) (request : Request) (userId : String) :
    Meets (Allowed z t quiet fresh) (revokeUser z t.now request userId) w fun _ _ => True := by
  unfold revokeUser
  rw [meets_bind]
  apply (requireAdminPost_meets w request).mono
  intro result w₁ _
  rcases result with refusal | ⟨context, fields⟩
  · exact meets_pure.mpr trivial
  · simp only
    rw [meets_bind]
    apply (target_meets w₁ userId).mono
    intro user w₂ htarget
    cases hfilter : user.filter fun target => target.status = .active with
    | none => exact meets_pure.mpr trivial
    | some target =>
      simp only
      rw [meets_bind]
      apply (lastAdmin_meets w₂ target).mono
      rintro last w₃ ⟨hbrowsed, hmany⟩
      refine meets_ite.mpr ⟨fun _ => meets_pure.mpr trivial, fun hlast => ?_⟩
      simp only [meets_bind, meets_emit, meets_pure]
      refine ⟨⟨userId, target, ?_, .inr rfl, rfl, rfl,
        ⟨target.role, normalizeRole_stored _⟩, .inr ?_⟩, trivial⟩
      · rw [hbrowsed.users]
        exact htarget target hfilter
      · exact hmany (Bool.eq_false_iff.mpr hlast)

theorem changeUserRole_meets (w : State) (request : Request) (userId : String) :
    Meets (Allowed z t quiet fresh) (changeUserRole z t.now request userId) w fun _ _ => True := by
  unfold changeUserRole
  rw [meets_bind]
  apply (requireAdminPost_meets w request).mono
  intro result w₁ _
  rcases result with refusal | ⟨context, fields⟩
  · exact meets_pure.mpr trivial
  · refine meets_ite.mpr ⟨fun _ => meets_pure.mpr trivial, fun _ => ?_⟩
    rw [meets_bind]
    apply (target_meets w₁ userId).mono
    intro user w₂ htarget
    cases hfilter : user.filter fun target => target.status = .active with
    | none => exact meets_pure.mpr trivial
    | some target =>
      refine meets_ite.mpr ⟨fun _ => meets_pure.mpr trivial, fun _ => ?_⟩
      rw [meets_bind]
      apply (lastAdmin_meets w₂ target).mono
      rintro last w₃ ⟨hbrowsed, -⟩
      refine meets_ite.mpr ⟨fun _ => meets_pure.mpr trivial, fun _ => ?_⟩
      simp only [meets_bind, meets_emit, meets_pure]
      refine ⟨⟨userId, target, ?_, .inr rfl, rfl, rfl, ⟨.user, rfl⟩, .inl rfl⟩, trivial⟩
      rw [hbrowsed.users]
      exact htarget target hfilter

end Administration

section Enrollment

theorem not_creating {log : List Event} {e : Event} (hcreated : ∀ user origin, e ≠ .created user origin)
    (hindexed : ∀ emailHash userId, e ≠ .indexed emailHash userId) : ¬ Creating (log ++ [e]) := by
  rintro (⟨user, origin, hlast⟩ | ⟨emailHash, userId, hlast⟩)
  · rw [List.getLast?_concat, Option.some.injEq] at hlast
    exact hcreated user origin hlast
  · rw [List.getLast?_concat, Option.some.injEq] at hlast
    exact hindexed emailHash userId hlast

theorem browsed_quiet {w w' : State} (h : Browsed z w w') (hquiet : ¬ Creating w.log) :
    ¬ Creating w'.log := by
  obtain ⟨stored, hlog⟩ := h.log
  rw [hlog]
  cases stored using List.reverseRecOn with
  | nil => simpa using hquiet
  | append_singleton stored entry =>
    rw [List.map_append, ← List.append_assoc]
    exact not_creating nofun nofun

/-- What an enrollment writes once its code has been accepted. -/
def enrollEvents (z : Environment) (random : Randoms) (s : Store) (pending : PendingEnrollment)
    (state email displayName secret : String) (counter : ℕ) : List Event :=
  let user : UpdateControlUser :=
    ⟨"usr_" ++ random.uuid, displayName, email, enrollmentRole pending.kind, .active⟩
  ([.created user.stored (enrollmentOrigin pending), .indexed (z.sha256Base64Url email) user.id,
    .listed (s.userIds ++ [user.id]), .enrolled (newCredential z random user.id secret counter) counter,
    .enrollmentClosed state] : List Event) ++
  match pending.kind with
  | .join => [.invitationClosed (pending.inviteHash.getD "")]
  | .bootstrap => s.bootstrapActive.elim []
      fun bootstrap => [.bootstrapStored { bootstrap with status := .completed }, .bootstrapCleared]

section Enrolled

variable {random : Randoms} {pending : PendingEnrollment} {state email displayName secret : String}
  {counter : ℕ} (w : State)

theorem enrolled_userIds :
    ((enrollEvents z random w.store pending state email displayName secret counter).foldl
    State.after w).store.userIds = w.store.userIds ++ ["usr_" ++ random.uuid] := by
  unfold enrollEvents
  cases pending.kind with
  | join => rfl
  | bootstrap => cases w.store.bootstrapActive <;> rfl

theorem enrolled_invitations :
    ((enrollEvents z random w.store pending state email displayName secret counter).foldl
    State.after w).store.invitations = match enrollmentOrigin pending with
      | .bootstrap => w.store.invitations
      | .invitation hash => Function.update w.store.invitations hash none := by
  unfold enrollEvents enrollmentOrigin
  cases pending.kind with
  | join => rfl
  | bootstrap => cases w.store.bootstrapActive <;> rfl

theorem enrolled_users : ((enrollEvents z random w.store pending state email displayName secret counter).foldl
    State.after w).store.users = Function.update w.store.users ("usr_" ++ random.uuid) (some
      ⟨"usr_" ++ random.uuid, displayName, email, (enrollmentRole pending.kind).stored, .active⟩) := by
  unfold enrollEvents
  cases pending.kind with
  | join => rfl
  | bootstrap => cases w.store.bootstrapActive <;> rfl

theorem enrolled_emails :
    ((enrollEvents z random w.store pending state email displayName secret counter).foldl
    State.after w).store.emails =
      Function.update w.store.emails (z.sha256Base64Url email) (some ("usr_" ++ random.uuid)) := by
  unfold enrollEvents
  cases pending.kind with
  | join => rfl
  | bootstrap => cases w.store.bootstrapActive <;> rfl

theorem enrolled_credentials :
    ((enrollEvents z random w.store pending state email displayName secret counter).foldl
    State.after w).store.credentials = Function.update w.store.credentials ("usr_" ++ random.uuid)
      (some (newCredential z random ("usr_" ++ random.uuid) secret counter)) := by
  unfold enrollEvents
  cases pending.kind with
  | join => rfl
  | bootstrap => cases w.store.bootstrapActive <;> rfl

end Enrolled

/-- How an enrollment ends. -/
inductive Enrolls (z : Environment) (t : Turn) (w : State) : State → Prop
  | browsed {w' : State} (h : Browsed z w w') : Enrolls z t w w'
  | closed (state : String) : Enrolls z t w (w.after (.enrollmentClosed state))
  | enrolled (pending : PendingEnrollment) (state email displayName secret : String) (counter : ℕ)
      (hvalid : isBootstrapAdminEmail email = true) (habsent : userOfEmail z w.store email = none)
      (horigin : Originated z w.store email (enrollmentOrigin pending)) :
      Enrolls z t w
        ((enrollEvents z t.random w.store pending state email displayName secret counter).foldl State.after w)

theorem enroll_events (w : State) (pending : PendingEnrollment) (state email displayName secret : String)
    (counter : ℕ) : (enroll z t.random pending state email displayName secret counter w).2 =
      enrollEvents z t.random w.store pending state email displayName secret counter := by
  unfold enroll createLocalUser enrollEvents
  cases pending.kind with
  | join => rfl
  | bootstrap =>
    simp only [bind, pure, look, emit, List.nil_append, List.append_nil, List.cons_append, List.foldl_cons,
      List.foldl_nil, State.after, Store.after]
    cases w.store.bootstrapActive <;> rfl

theorem enroll_meets {w : State} {pending : PendingEnrollment}
    {state email displayName secret : String} {counter : ℕ} (hcall : t.call.isEnrollment = true)
    (hquiet : quiet → ¬ Creating w.log) (hfresh : fresh → Uncreated t.userId w.log)
    (hvalid : isBootstrapAdminEmail email = true) (hemail : ∃ field, email = normalizeEmail z field)
    (habsent : userOfEmail z w.store email = none)
    (horigin : Originated z w.store email (enrollmentOrigin pending)) :
    Meets (Allowed z t quiet fresh) (enroll z t.random pending state email displayName secret counter) w
      fun _ w' => ¬ Creating w'.log := by
  unfold enroll createLocalUser
  simp only [meets_bind, meets_look, meets_emit, meets_pure]
  refine ⟨⟨hcall, hquiet, hfresh, rfl, rfl, hvalid, hemail, ⟨_, normalizeRole_stored _⟩, habsent, horigin⟩,
    ⟨hcall, _, _, List.getLast?_concat, rfl, rfl⟩, ⟨hcall, _, _, List.getLast?_concat, rfl⟩,
    ⟨hcall, _, secret, List.getLast?_concat, rfl⟩, trivial, ?_⟩
  cases pending.kind with
  | join =>
    simp only [meets_bind, meets_emit, meets_pure]
    exact ⟨trivial, not_creating nofun nofun⟩
  | bootstrap =>
    rw [meets_bind, meets_look]
    split
    · exact meets_pure.mpr (not_creating nofun nofun)
    · simp only [meets_bind, meets_emit, meets_pure]
      exact ⟨trivial, trivial, not_creating nofun nofun⟩

theorem enrollmentAllowed_meets (w : State) (pending : PendingEnrollment) (email : String) :
    Meets (Allowed z t quiet fresh) (enrollmentAllowed z t.now pending email) w fun refusal w' => w' = w ∧
      (refusal = none → Originated z w.store email (enrollmentOrigin pending)) := by
  unfold enrollmentAllowed
  cases hkind : pending.kind with
  | bootstrap =>
    simp only [meets_bind, meets_look]
    refine meets_ite.mpr ⟨fun _ => meets_pure.mpr ⟨rfl, nofun⟩, fun hready => ?_⟩
    refine meets_ite.mpr ⟨fun _ => meets_pure.mpr ⟨rfl, nofun⟩, fun hemail =>
      meets_pure.mpr ⟨rfl, fun _ => ?_⟩⟩
    rw [enrollmentOrigin, hkind]
    refine ⟨?_, not_not.mp hemail⟩
    by_contra hids
    exact hready (by simp [hids])
  | join =>
    simp only
    cases hhash : pending.inviteHash with
    | none => exact meets_pure.mpr ⟨rfl, nofun⟩
    | some inviteHash =>
      refine meets_ite.mpr ⟨fun _ => meets_pure.mpr ⟨rfl, nofun⟩, fun _ => ?_⟩
      rw [meets_bind, meets_look]
      cases hinvitation : w.store.invitations inviteHash with
      | none => exact meets_pure.mpr ⟨rfl, nofun⟩
      | some invitation =>
        refine meets_ite.mpr
          ⟨fun _ => meets_pure.mpr ⟨rfl, nofun⟩, fun _ => meets_pure.mpr ⟨rfl, fun _ => ?_⟩⟩
        rw [enrollmentOrigin, hkind, hhash]
        exact ⟨invitation, hinvitation⟩

theorem completeEnrollment_meets (w : State) (request : Request)
    (hcall : t.call = .completeEnrollment request) (hquiet : quiet → ¬ Creating w.log)
    (hfresh : fresh → Uncreated t.userId w.log) :
    Meets (Allowed z t quiet fresh) (completeEnrollment z t.now t.random request) w
      fun _ w' => (quiet → ¬ Creating w'.log) ∧ Enrolls z t w w' := by
  unfold completeEnrollment
  have hsame : (quiet → ¬ Creating w.log) ∧ Enrolls z t w w := ⟨hquiet, .browsed (.refl w)⟩
  cases request.body with
  | none => exact meets_pure.mpr hsame
  | some fields =>
    refine meets_ite.mpr ⟨fun _ => meets_pure.mpr hsame, fun hvalid => ?_⟩
    rw [meets_bind, meets_look]
    cases (w.store.enrollments (fields.text "state")).filter fun pending => t.now < pending.expiresAtMs with
    | none =>
      simp only [meets_bind, meets_emit, meets_pure]
      exact ⟨trivial, fun _ => not_creating nofun nofun, .closed _⟩
    | some pending =>
      refine meets_ite.mpr ⟨fun _ => meets_pure.mpr hsame, fun _ => ?_⟩
      rw [meets_bind]
      apply (findUserByEmail_meets w _).mono
      rintro found w₁ ⟨hbrowsed, hfound, hunchanged, -⟩
      refine meets_ite.mpr ⟨fun _ => meets_pure.mpr ⟨fun hq => ?_, .browsed hbrowsed⟩, fun hnone => ?_⟩
      · exact browsed_quiet hbrowsed (hquiet hq)
      have habsent : found = none := by simpa using hnone
      obtain rfl := hunchanged habsent
      rw [habsent] at hfound
      rw [meets_bind]
      apply (enrollmentAllowed_meets w₁ pending _).mono
      rintro refusal w₂ ⟨rfl, horigin⟩
      cases refusal with
      | some refusal => exact meets_pure.mpr hsame
      | none =>
        simp only
        cases decryptSecret pending.encryptedSecret ("enrollment:" ++ fields.text "state") with
        | none => exact meets_pure.mpr hsame
        | some secret =>
          simp only
          cases verifyTotp z secret (normalizeVerificationCode z (fields.text "code")) none t.now with
          | none => exact meets_pure.mpr hsame
          | some counter =>
            simp only [Bool.or_eq_true, Bool.not_eq_true', not_or, Bool.not_eq_false] at hvalid
            have hmeets : Meets (Allowed z t quiet fresh) (enroll z t.random pending (fields.text "state")
                (normalizeEmail z (fields.text "email"))
                  (trim (fields.text "display_name")) secret counter) w₂
                fun _ w' => ¬ Creating w'.log :=
              enroll_meets (by rw [hcall]; rfl) hquiet hfresh hvalid.1.1.2 ⟨_, rfl⟩ hfound.symm (horigin rfl)
            refine ⟨hmeets.1, fun _ => hmeets.2, ?_⟩
            rw [final, enroll_events]
            exact .enrolled pending _ _ _ secret counter hvalid.1.1.2 hfound.symm (horigin rfl)

/-- How an enrollment ends, whatever was left unfinished before it. -/
theorem completeEnrollment_enrolls (w : State) (request : Request)
    (hcall : t.call = .completeEnrollment request) :
    Enrolls z t w ((completeEnrollment z t.now t.random request).final w) := by
  have hmeets : Meets (Allowed z t False False) (completeEnrollment z t.now t.random request) w
      fun _ w' => (False → ¬ Creating w'.log) ∧ Enrolls z t w w' :=
    completeEnrollment_meets w request hcall False.elim False.elim
  exact hmeets.2.2

end Enrollment

section Requests

/-- Where no user is created, no creation is begun. -/
theorem admitted_quiet {w : State} {events : List Event} (hcall : t.call.isEnrollment = false)
    (h : Admitted State.after (Allowed z t quiet fresh) w events) (hquiet : ¬ Creating w.log) :
    ¬ Creating (events.foldl State.after w).log := by
  apply h.invariant (I := fun w => ¬ Creating w.log) hquiet ?_ events List.prefix_rfl
  intro w e hw he
  apply not_creating
  · rintro user origin rfl
    exact absurd he.1 (by simp [hcall])
  · rintro emailHash userId rfl
    exact absurd he.1 (by simp [hcall])

theorem meets_quiet {x : Serve Response} {w : State} (hcall : t.call.isEnrollment = false)
    (h : Meets (Allowed z t quiet fresh) x w fun _ _ => True) (hquiet : quiet → ¬ Creating w.log) :
    Meets (Allowed z t quiet fresh) x w fun _ w' => quiet → ¬ Creating w'.log :=
  ⟨h.1, fun hq => admitted_quiet hcall h.1 (hquiet hq)⟩

/-- Every event of a request is allowed, and no creation is left unfinished. -/
theorem serve_meets (w : State) (hquiet : quiet → ¬ Creating w.log)
    (hfresh : fresh → t.Fresh z w.log) :
    Meets (Allowed z t quiet fresh) (serve z t.now t.random t.call) w fun _ w' => quiet →
    ¬ Creating w'.log := by
  rcases t with ⟨call, now, random⟩
  cases call with
  | completeEnrollment request =>
    exact (completeEnrollment_meets w request rfl hquiet fun hf => (hfresh hf).user).mono fun _ _ h => h.1
  | beginBootstrap operationId => exact meets_quiet rfl (beginBootstrap_meets w operationId) hquiet
  | readBootstrap operationId => exact meets_quiet rfl (readBootstrap_meets w operationId) hquiet
  | beginBootstrapEnrollment => exact meets_quiet rfl (beginBootstrapEnrollment_meets w) hquiet
  | beginInviteJoin inviteToken => exact meets_quiet rfl (beginInviteJoin_meets w inviteToken) hquiet
  | renderAdmin request => exact meets_quiet rfl (renderAdmin_meets w request) hquiet
  | createInvite request => exact meets_quiet rfl (createInvite_meets w request) hquiet
  | changeUserRole request userId => exact meets_quiet rfl (changeUserRole_meets w request userId) hquiet
  | revokeUser request userId => exact meets_quiet rfl (revokeUser_meets w request userId) hquiet
  | beginUserLogin request => exact meets_quiet rfl (beginUserLogin_meets w request rfl) hquiet
  | completeUserLogin request => exact meets_quiet rfl (completeUserLogin_meets w request rfl) hquiet
  | logoutUser request => exact meets_quiet rfl (logoutUser_meets w request) hquiet
  | handleAuthorization request isAuthorizePath =>
    exact meets_quiet rfl (handleAuthorization_meets w request isAuthorizePath rfl) hquiet
  | register input => exact meets_quiet rfl (register_meets w input) hquiet
  | token fields => exact meets_quiet rfl (token_meets w fields rfl fun hf => (hfresh hf).refresh) hquiet
  | revoke bearer => exact meets_quiet rfl (revoke_meets w bearer) hquiet
  | authenticate bearer => exact meets_quiet rfl (authenticate_meets w bearer rfl) hquiet
  | deleteOAuthState keys => exact meets_quiet rfl (deleteOAuthState_meets w keys) hquiet

end Requests

end AccessStack.Identity
