import AccessStack.Identity.Enrollment

/-!
# When an enrollment can be tried again

While no administrator has been enrolled, the enrollment can be completed
exactly when no user is listed, the index does not lead to a record for the
configured email, and the email is one that the form accepts. The steps that
complete it are a new bootstrap operation, its enrollment and a login.
-/

set_option autoImplicit false

namespace AccessStack.Identity
open AccessStack.Text AccessStack.OAuth AccessStack.Emits AccessStack.Runs

section Codes

variable {z : Environment}

theorem isTotpCode_totpCode (z : Environment) (secret : String) (counter : ℕ) :
    isTotpCode (totpCode z secret counter) = true := by
  have hpad : ∀ n < 1000000, isTotpCode (padStart 6 n) = true := by
    intro n hn
    have hlength : (Nat.toDigits 10 n).length ≤ 6 :=
      (Nat.length_toDigits_le_iff (by decide) (by decide)).mpr hn
    rw [isTotpCode, padStart, String.toList_ofList, Bool.and_eq_true, decide_eq_true_eq]
    constructor
    · rw [List.length_append, List.length_replicate]
      omega
    · rw [List.all_append, Bool.and_eq_true, List.all_eq_true, List.all_eq_true]
      constructor
      · intro c hc
        rw [List.eq_of_mem_replicate hc]
        rfl
      · exact fun c hc => Nat.isDigit_of_mem_toDigits (by decide) (by decide) hc
  exact hpad _ (Nat.mod_lt _ (by decide))

theorem not_isSpace_of_isDigit {c : Char} (h : c.isDigit = true) : isSpace c = false := by
  have hrange : 48 ≤ c.toNat ∧ c.toNat ≤ 57 := by
    rw [Char.isDigit, Bool.and_eq_true, decide_eq_true_eq, decide_eq_true_eq] at h
    exact ⟨h.1, h.2⟩
  rw [isSpace, Bool.or_eq_false_iff]
  constructor
  · rw [List.contains_eq_mem, decide_eq_false_iff_not]
    intro hmem
    simp only [List.mem_cons, List.not_mem_nil, or_false] at hmem
    omega
  · rw [Bool.and_eq_false_iff]
    exact .inl (decide_eq_false (by omega))

theorem normalizeVerificationCode_totp {code : String} (h : isTotpCode code = true) :
    normalizeVerificationCode z code = code := by
  have hdigits : code.toList.all Char.isDigit = true := by
    rw [isTotpCode, Bool.and_eq_true] at h
    exact h.2
  have htrim : trim code = code :=
    trim_eq_self fun c hc => not_isSpace_of_isDigit (List.all_eq_true.mp hdigits c hc)
  rw [normalizeVerificationCode]
  simp only [htrim, z.toUpperCase_digits code hdigits, h, if_true]

theorem totpCode_ne_empty (z : Environment) (secret : String) (counter : ℕ) :
    totpCode z secret counter ≠ "" := by
  intro heq
  have hcode := isTotpCode_totpCode z secret counter
  rw [heq] at hcode
  exact absurd hcode (by decide)

/-- The code of the counter of the moment is accepted. -/
theorem verifyTotp_current {secret : String} {last : Option ℕ} {now : ℕ}
    (h : ∀ counter, last = some counter → counter < now/1000/30) :
    verifyTotp z secret (totpCode z secret (now/1000/30)) last now = some (now/1000/30) := by
  have hlast : last.all (· < now/1000/30) = true := by
    cases last with
    | none => rfl
    | some counter => exact decide_eq_true (h counter rfl)
  rw [verifyTotp, isTotpCode_totpCode]
  simp [totpCounters, hlast]

end Codes

section Steps

variable {z : Environment} {w : State} {now : ℕ} {random : Randoms}

theorem beginBootstrap_events {operationId : String} (hnew : w.store.bootstraps operationId = none)
    (hids : w.store.userIds = []) (hexpired : bootstrapReady now w.store.bootstrapActive = false) :
    (beginBootstrap now operationId w).2 = [.bootstrapStored ⟨operationId, .ready, now+bootstrapTtlMs⟩,
      .bootstrapActivated ⟨operationId, .ready, now+bootstrapTtlMs⟩] := by
  rw [bootstrapReady] at hexpired
  rw [beginBootstrap, look_bind, hnew]
  simp only [look_bind, hids, ne_eq, not_true_eq_false, if_false, hexpired, Bool.false_eq_true]
  rfl

theorem beginBootstrapEnrollment_events (hids : w.store.userIds = [])
    (hready : bootstrapReady now w.store.bootstrapActive = true) :
    (beginBootstrapEnrollment now random w).2 = [.enrollmentStored ⟨random.state, .bootstrap, .admin,
      ⟨random.secret, "enrollment:" ++ random.state⟩, now+enrollmentPendingTtlMs, none⟩] := by
  rw [beginBootstrapEnrollment, look_bind]
  simp only [look_bind, hids, ne_eq, not_true_eq_false, if_false, hready, Bool.not_true, Bool.false_eq_true]
  rfl

/-- An email that leads to no record is not found, and nothing is written. -/
theorem findUserByEmail_absent {email : String} (h : userOfEmail z w.store email = none) :
    findUserByEmail z email w = (none, []) := by
  have hmeets : Meets (Allowed z ⟨.beginBootstrapEnrollment, 0, sampleRandoms '0'⟩ False False)
      (findUserByEmail z email) w
      fun user w' => Browsed z w w' ∧ user = userOfEmail z w.store email ∧ (user = none → w' = w) ∧
        ∀ found, user = some found → ∃ place, w'.store.users place = some found.stored ∧
          userAt z w'.store place = some found := findUserByEmail_meets w email
  obtain ⟨-, -, hresult, hsame, -⟩ := hmeets
  rw [h] at hresult
  have hlog := log_final (findUserByEmail z email) w
  rw [hsame hresult] at hlog
  exact Prod.ext hresult (List.self_eq_append_right.mp hlog)

/-- The form that completes the enrollment of the administrator. -/
def enrollmentForm (state email code : String) : Request :=
  sampleForm [("state", state), ("email", email), ("display_name", "A"), ("code", code)] none

theorem completeEnrollment_events {pending : PendingEnrollment} {state email secret : String}
    (hstate : isOpaqueToken state = true) (hvalid : isBootstrapAdminEmail (normalizeEmail z email) = true)
    (hadmin : normalizeEmail z email = normalizeEmail z z.config.bootstrapAdminEmail)
    (hpending : w.store.enrollments state = some pending) (hlive : now < pending.expiresAtMs)
    (hrole : pending.role = .admin) (hkind : pending.kind = .bootstrap)
    (hsecret : pending.encryptedSecret = ⟨secret, "enrollment:" ++ state⟩)
    (habsent : userOfEmail z w.store (normalizeEmail z email) = none)
    (hready : bootstrapReady now w.store.bootstrapActive = true) (hids : w.store.userIds = []) :
    (completeEnrollment z now random (enrollmentForm state email (totpCode z secret (now/1000/30))) w).2 =
      enrollEvents z random w.store pending state (normalizeEmail z email) "A" secret (now/1000/30) := by
  have hcode := normalizeVerificationCode_totp (z := z) (isTotpCode_totpCode z secret (now/1000/30))
  have hempty := totpCode_ne_empty z secret (now/1000/30)
  have hname : trim "A" = "A" := by decide
  have hdisplay : validBoundedText "A" 1 200 = true := by decide
  have hverify : verifyTotp z secret (totpCode z secret (now/1000/30)) none now = some (now/1000/30) := by
    refine verifyTotp_current ?_
    intro counter hcounter
    cases hcounter
  have hallowed : enrollmentAllowed z now pending (normalizeEmail z email) w = (none, []) := by
    rw [enrollmentAllowed, hkind]
    simp only [look_bind, hready, hids, hadmin, Bool.not_true, ne_eq, not_true_eq_false,
      decide_false, Bool.or_false, Bool.false_eq_true, if_false]
    rfl
  have hdecrypt : decryptSecret pending.encryptedSecret ("enrollment:" ++ state) = some secret := by
    rw [hsecret]
    exact if_pos rfl
  have hnormal :
      ¬ (normalizeRole .admin = none ∨ True ∧ normalizeRole .admin ≠ some UpdateControlRole.admin) := by
    decide
  unfold completeEnrollment
  simp only [enrollmentForm, sampleForm, Fields.text, Fields.get, List.find?_cons, String.reduceEq,
    decide_false, decide_true, Option.map_some, Option.getD_some]
  simp only [hstate, hvalid, hname, hdisplay, hcode, hempty, Bool.not_true, Bool.or_false, decide_false,
    Bool.false_eq_true, if_false, look_bind, hpending, Option.filter_some, hlive, decide_true,
      if_true, hrole, hkind]
  rw [if_neg hnormal, bind_of_silent (findUserByEmail_absent habsent)]
  simp only [Option.isSome_none, Bool.false_eq_true, if_false]
  rw [bind_of_silent hallowed]
  simp only [hdecrypt, hverify]
  exact enroll_events (t := ⟨.beginBootstrapEnrollment, now, random⟩) w pending _ _ _ _ _

end Steps

section Logins

variable {z : Environment} {w : State} {now : ℕ} {random : Randoms}

theorem beginUserLogin_events : (beginUserLogin z now random (sampleForm [] none) w).2 =
    [.loginStored ⟨random.state, .user, now+loginPendingTtlMs⟩] := rfl

/-- The administrator as the records have it. -/
structure Enrolled (z : Environment) (s : Store) (email : String) (user : StoredUpdateControlUser)
    (credential : TotpCredential) (secret : String) : Prop where
  named : user.id ≠ ""
  index : s.emails (z.sha256Base64Url (normalizeEmail z email)) = some user.id
  stored : s.users user.id = some user
  role : user.role = .admin
  admin : normalizeEmail z user.email = normalizeEmail z z.config.bootstrapAdminEmail
  active : user.status = .active
  held : s.credentials user.id = some credential
  owned : credential.userId = user.id
  unlocked : credential.lockedUntilMs = none
  sealed : credential.encryptedSecret = ⟨secret, "user:" ++ user.id⟩

variable {email : String} {user : StoredUpdateControlUser} {credential : TotpCredential} {secret : String}

theorem Enrolled.getUser (h : Enrolled z w.store email user credential secret) :
    getUser z user.id w = (some (withRole user .admin), []) := by
  have hrole : roleOf z user .admin = .admin := by rw [roleOf_eq, if_pos h.admin]
  have hsame : ¬ user.role ≠ (withRole user (roleOf z user .admin)).role.stored := by
    rw [hrole, h.role]
    exact not_not.mpr rfl
  rw [AccessStack.Identity.getUser, look_bind, h.stored]
  simp only [h.role, normalizeRole]
  rw [h.role] at hsame
  rw [if_neg hsame, hrole]
  rfl

theorem Enrolled.findUserByEmail (h : Enrolled z w.store email user credential secret) :
    findUserByEmail z email w = (some (withRole user .admin), []) := by
  rw [AccessStack.Identity.findUserByEmail, look_bind, h.index]
  simp only [h.named, if_false]
  exact h.getUser

theorem Enrolled.authenticate (h : Enrolled z w.store email user credential secret)
    (hlast : ∀ counter, credential.lastAcceptedCounter = some counter → counter < now/1000/30) :
    authenticateLocalUser z now email (totpCode z secret (now/1000/30)) w =
      (some (withRole user .admin), [.accepted (.counter (now/1000/30))
        (credential.afterFactor (.counter (now/1000/30))) now]) := by
  have hactive : (withRole user .admin).status = .active := h.active
  have hid : (withRole user .admin).id = user.id := rfl
  have hfactor : factorOf z now credential user.id (totpCode z secret (now/1000/30)) =
      some (some (.counter (now/1000/30))) := by
    have hdecrypt : decryptSecret credential.encryptedSecret ("user:" ++ user.id) = some secret := by
      rw [h.sealed]
      exact if_pos rfl
    rw [factorOf, if_pos (isTotpCode_totpCode z secret _), hdecrypt, Option.map_some,
      verifyTotp_current hlast]
    rfl
  rw [authenticateLocalUser, bind_of_silent h.findUserByEmail]
  simp only [Option.filter_some, hactive, decide_true, if_true, hid, look_bind, h.held, h.owned, ne_eq,
    not_true_eq_false, if_false, h.unlocked, Option.any_none, Bool.false_eq_true, hfactor]
  rfl

/-- The form of a login. -/
def loginForm (state email code : String) : Request :=
  sampleForm [("state", state), ("email", email), ("code", code)] (some state)

theorem completeUserLogin_events {state : String} {pending : PendingLogin}
    (htoken : isOpaqueToken state = true) (hpending : w.store.logins state = some pending)
    (hstate : pending.state = state) (hlive : now < pending.expiresAtMs) (hkind : pending.kind = .user)
    (hvalid : isBootstrapAdminEmail (normalizeEmail z email) = true)
    (h : Enrolled z w.store (normalizeEmail z email) user credential secret)
    (hlast : ∀ counter, credential.lastAcceptedCounter = some counter → counter < now/1000/30) :
    (completeUserLogin z now random (loginForm state email (totpCode z secret (now/1000/30))) w).2 =
      [.accepted (.counter (now/1000/30)) (credential.afterFactor (.counter (now/1000/30)))
        now, .loginClosed state,
        .sessionOpened (.human (z.sha256Base64Url random.session))
          ⟨user.id, random.csrf, now+humanSessionTtlMs⟩] := by
  have hcode := normalizeVerificationCode_totp (z := z) (isTotpCode_totpCode z secret (now/1000/30))
  have hempty := totpCode_ne_empty z secret (now/1000/30)
  have hpendingLive : livePending now state w = (some pending, []) := by
    rw [livePending, look_bind, hpending, Option.filter_some, if_pos (decide_eq_true hlive)]
    rfl
  unfold completeUserLogin
  simp only [loginForm, sampleForm, Fields.text, Fields.get, List.find?_cons, String.reduceEq, decide_false,
    decide_true, Option.map_some, Option.getD_some, htoken, Bool.not_true, Bool.false_or, ne_eq,
      not_true_eq_false, Bool.false_eq_true, if_false]
  rw [bind_of_silent hpendingLive]
  simp only [Option.filter_some, hstate, decide_true, if_true, hvalid, hcode, hempty, Bool.not_true,
    decide_false, Bool.or_false, Bool.false_eq_true, if_false]
  rw [bind_of_eq (h.authenticate hlast)]
  have hadmin : ¬ (pending.kind = .admin ∧ (withRole user .admin).role ≠ .admin) := fun hboth => hboth.2 rfl
  simp only [hadmin, if_false]
  rw [completeLogin, hkind]
  rfl

end Logins

section Retries

variable (z : Environment)

/-- An administrator is logged in, with a credential of its own. -/
def LoggedIn (m : Moment) : Prop :=
  ∃ userId ∈ m.state.store.userIds, AdminAt z m.state.store userId ∧
    (∃ credential, m.state.store.credentials userId = some credential) ∧
    ∃ key session, m.state.store.sessions key = some session ∧ session.userId = userId ∧
      m.now < session.expiresAt

/-- Later requests, none of them cut, end with an administrator logged in. -/
def Recoverable (m : Moment) : Prop :=
  ∃ turns, Admitted (Moment.next z) Timely m turns ∧ LoggedIn z (turns.foldl (Moment.next z) m)

/-- No user is listed, the configured email leads to no record, and the form
accepts it. -/
def Enrollable (s : Store) : Prop :=
  s.userIds = [] ∧ userOfEmail z s z.config.bootstrapAdminEmail = none ∧
    isBootstrapAdminEmail (normalizeEmail z z.config.bootstrapAdminEmail) = true

variable {z} {m : Moment} {t : Turn} {w : State} {e : Event} {quiet fresh : Prop}

theorem exists_fresh (used : List String) (label : String) : ∃ text, label ++ text ∉ used := by
  refine ⟨String.ofList (List.replicate ((used.map String.length).sum+1) 'a'), ?_⟩
  intro hmem
  have hle := List.single_le_sum (by simp) _ (List.mem_map_of_mem (f := String.length) hmem)
  rw [String.length_append, String.length_ofList, List.length_replicate] at hle
  omega

/-- The identifier of the user that an event creates. -/
def Event.createdId : Event → Option String
  | .created user _ => some user.id
  | _ => none

theorem exists_uncreated (log : List Event) : ∃ uuid, Uncreated ("usr_" ++ uuid) log := by
  obtain ⟨uuid, hfresh⟩ := exists_fresh (log.filterMap Event.createdId) "usr_"
  refine ⟨uuid, ?_⟩
  intro user origin hmem heq
  exact hfresh (heq ▸ List.mem_filterMap.mpr ⟨_, hmem, rfl⟩)

/-- What events other than the creation of a user leave new. -/
theorem Uncreated.foldl {userId : String} {events : List Event} (h : Uncreated userId w.log)
    (hevents : ∀ user origin, .created user origin ∉ events) :
    Uncreated userId (events.foldl State.after w).log := by
  rw [log_foldl]
  intro user origin hmem
  rcases List.mem_append.mp hmem with hbefore | hlater
  · exact h user origin hbefore
  · exact absurd hlater (hevents user origin)

theorem next_of_events {events : List Event} (h : (serve z t.now t.random t.call m.state).2 = events) :
    m.next z t = ⟨events.foldl State.after m.state, t.now⟩ := by
  rw [Moment.next, final, h]

/-- Every operation that is stored has been logged. -/
def Logged (w : State) : Prop :=
  ∀ operationId operation, w.store.bootstraps operationId = some operation →
    ∃ found, .bootstrapStored found ∈ w.log ∧ found.operationId = operationId

theorem logged_after (h : Logged w) : Logged (w.after e) := by
  intro operationId operation hstored
  have hold : w.store.bootstraps operationId = some operation →
      ∃ found, .bootstrapStored found ∈ (w.after e).log ∧ found.operationId = operationId := by
    intro hold
    obtain ⟨found, hmem, hid⟩ := h operationId operation hold
    exact ⟨found, List.mem_append_left _ hmem, hid⟩
  cases e with
  | bootstrapStored stored =>
    rcases update_some_eq hstored with ⟨heq, -⟩ | hbefore
    · exact ⟨stored, List.mem_append_right _ List.mem_cons_self, heq.symm⟩
    · exact hold hbefore
  | forgotten key => cases key <;> exact hold hstored
  | _ => exact hold hstored

theorem logged_reached {legacy : List PendingLogin} (h : CutReached z legacy m) : Logged m.state := by
  apply h.invariant
  · exact foldl_invariant nofun fun _ _ hw _ => logged_after hw
  · intro m c hm htimely
    exact cut_invariant htimely hm fun _ _ _ hw _ _ => logged_after hw

theorem exists_operation (h : Logged w) : ∃ operationId, w.store.bootstraps operationId = none := by
  obtain ⟨operationId, hfresh⟩ := exists_fresh (w.log.filterMap fun e => match e with
    | .bootstrapStored operation => some operation.operationId
    | _ => none) ""
  refine ⟨"" ++ operationId, ?_⟩
  cases hstored : w.store.bootstraps ("" ++ operationId) with
  | none => rfl
  | some operation =>
    obtain ⟨found, hmem, hid⟩ := h _ operation hstored
    exact absurd (hid ▸ List.mem_filterMap.mpr ⟨_, hmem, rfl⟩) hfresh

end Retries

section Recovery

variable {z : Environment} {m : Moment} {random : Randoms} {now : ℕ}

/-- The bootstrap enrollment is begun. -/
structure Begun (z : Environment) (m : Moment) (random : Randoms) : Prop where
  ids : m.state.store.userIds = []
  absent : userOfEmail z m.state.store z.config.bootstrapAdminEmail = none
  ready : bootstrapReady m.now m.state.store.bootstrapActive = true
  pending : m.state.store.enrollments random.state = some ⟨random.state, .bootstrap, .admin,
    ⟨random.secret, "enrollment:" ++ random.state⟩, m.now+enrollmentPendingTtlMs, none⟩

def beginTurns (operationId : String) (now : ℕ) (random : Randoms) : List Turn :=
  [⟨.beginBootstrap operationId, now, random⟩, ⟨.beginBootstrapEnrollment, now, random⟩]

theorem begun_of_enrollable {operationId : String} (h : Enrollable z m.state.store)
    (hnew : m.state.store.bootstraps operationId = none)
    (hexpired : bootstrapReady now m.state.store.bootstrapActive = false) (hclock : m.now ≤ now)
    (hfresh : Uncreated ("usr_" ++ random.uuid) m.state.log) :
    Admitted (Moment.next z) Timely m (beginTurns operationId now random) ∧
      Begun z ((beginTurns operationId now random).foldl (Moment.next z) m) random ∧
      Uncreated ("usr_" ++ random.uuid)
      ((beginTurns operationId now random).foldl (Moment.next z) m).state.log := by
  obtain ⟨hids, habsent, -⟩ := h
  have hfirst := next_of_events (z := z) (m := m) (t := ⟨.beginBootstrap operationId, now, random⟩)
    (beginBootstrap_events hnew hids hexpired)
  have hactive :
      bootstrapReady now (some (⟨operationId, .ready, now+bootstrapTtlMs⟩ : BootstrapOperation)) = true := by
    have hlive : now < now+bootstrapTtlMs := Nat.lt_add_of_pos_right (by decide)
    rw [bootstrapReady, Option.any_some, decide_eq_true hlive]
    rfl
  have hlog : ∀ user origin,
    Event.created user origin ∉ [Event.bootstrapStored ⟨operationId, .ready, now+bootstrapTtlMs⟩,
      .bootstrapActivated ⟨operationId, .ready, now+bootstrapTtlMs⟩] := by
    intro user origin hmem
    simp at hmem
  have hfirstFresh := hfresh.foldl hlog
  rw [beginTurns, List.foldl_cons, List.foldl_cons, List.foldl_nil, hfirst]
  have hsecond := next_of_events (z := z)
    (m := ⟨[Event.bootstrapStored ⟨operationId, .ready, now+bootstrapTtlMs⟩,
      .bootstrapActivated ⟨operationId, .ready, now+bootstrapTtlMs⟩].foldl State.after m.state, now⟩)
    (t := ⟨.beginBootstrapEnrollment, now, random⟩) (beginBootstrapEnrollment_events hids hactive)
  rw [hsecond]
  refine ⟨⟨⟨hclock, hfresh⟩, ?_⟩, ⟨hids, habsent, hactive, Function.update_self _ _ _⟩, ?_⟩
  · rw [hfirst]
    exact ⟨⟨le_rfl, hfirstFresh⟩, trivial⟩
  · apply hfirstFresh.foldl
    intro user origin hmem
    simp at hmem

/-- The turn that completes the enrollment. -/
def enrollTurn (z : Environment) (now : ℕ) (random : Randoms) : Turn :=
  ⟨.completeEnrollment (enrollmentForm random.state z.config.bootstrapAdminEmail
    (totpCode z random.secret (now/1000/30))), now, random⟩

theorem enrolled_of_begun (h : Begun z m random) (htoken : isOpaqueToken random.state = true)
    (hvalid : isBootstrapAdminEmail (normalizeEmail z z.config.bootstrapAdminEmail) = true) :
    ∃ user credential, (m.next z (enrollTurn z m.now random)).state.store.userIds = [user.id] ∧
      credential.lastAcceptedCounter = some (m.now/1000/30) ∧
      Enrolled z (m.next z (enrollTurn z m.now random)).state.store
        (normalizeEmail z z.config.bootstrapAdminEmail)
        user credential random.secret := by
  have habsent : userOfEmail z m.state.store (normalizeEmail z z.config.bootstrapAdminEmail) = none := by
    rw [← h.absent, userOfEmail, userOfEmail, normalizeEmail_normalizeEmail]
  have hevents := next_of_events (z := z) (m := m) (t := enrollTurn z m.now random)
    (completeEnrollment_events htoken hvalid rfl h.pending
      (by simp [enrollmentPendingTtlMs]) rfl rfl rfl habsent
      h.ready h.ids)
  rw [hevents]
  refine ⟨⟨"usr_" ++ random.uuid, "A", normalizeEmail z z.config.bootstrapAdminEmail, .admin, .active⟩,
    newCredential z random ("usr_" ++ random.uuid) random.secret (m.now/1000/30), ?_, rfl, ?_⟩
  · rw [enrolled_userIds, h.ids]
    rfl
  · constructor
    · exact userId_ne_empty ⟨.beginBootstrapEnrollment, 0, random⟩
    · rw [enrolled_emails, normalizeEmail_normalizeEmail]
      exact Function.update_self _ _ _
    · rw [enrolled_users]
      exact Function.update_self _ _ _
    · rfl
    · exact normalizeEmail_normalizeEmail z _
    · rfl
    · rw [enrolled_credentials]
      exact Function.update_self _ _ _
    · rfl
    · rfl
    · rfl

def loginTurns (z : Environment) (now : ℕ) (random : Randoms) (secret : String) : List Turn :=
  [⟨.beginUserLogin (sampleForm [] none), now, random⟩,
    ⟨.completeUserLogin
      (loginForm random.state z.config.bootstrapAdminEmail (totpCode z secret (now/1000/30))), now,
      random⟩]

theorem loggedIn_of_enrolled {user : StoredUpdateControlUser} {credential : TotpCredential} {secret : String}
    (h : Enrolled z m.state.store (normalizeEmail z z.config.bootstrapAdminEmail) user credential secret)
    (hids : m.state.store.userIds = [user.id]) (htoken : isOpaqueToken random.state = true)
    (hvalid : isBootstrapAdminEmail (normalizeEmail z z.config.bootstrapAdminEmail) = true)
    (hclock : m.now ≤ now)
    (hlast : ∀ counter, credential.lastAcceptedCounter = some counter → counter < now/1000/30)
    (hfresh : Uncreated ("usr_" ++ random.uuid) m.state.log) :
    Admitted (Moment.next z) Timely m (loginTurns z now random secret) ∧
      LoggedIn z ((loginTurns z now random secret).foldl (Moment.next z) m) := by
  have hfirst := next_of_events (z := z) (m := m) (t := ⟨.beginUserLogin (sampleForm [] none), now, random⟩)
    beginUserLogin_events
  have hkept : Enrolled z (m.next z ⟨.beginUserLogin (sampleForm [] none), now, random⟩).state.store
      (normalizeEmail z z.config.bootstrapAdminEmail) user credential secret := by
    rw [hfirst]
    exact ⟨h.named, h.index, h.stored, h.role, h.admin, h.active, h.held, h.owned, h.unlocked, h.sealed⟩
  have hpending : (m.next z ⟨.beginUserLogin (sampleForm [] none), now, random⟩).state.store.logins
    random.state =
      some ⟨random.state, .user, now+loginPendingTtlMs⟩ := by
    rw [hfirst]
    exact Function.update_self _ _ _
  have hsecond := next_of_events (z := z) (m := m.next z ⟨.beginUserLogin (sampleForm [] none), now, random⟩)
    (t := ⟨.completeUserLogin (loginForm random.state z.config.bootstrapAdminEmail
      (totpCode z secret (now/1000/30))), now, random⟩)
    (completeUserLogin_events htoken hpending rfl (by simp [loginPendingTtlMs]) rfl hvalid hkept hlast)
  have hlater : Uncreated ("usr_" ++ random.uuid)
      (m.next z ⟨.beginUserLogin (sampleForm [] none), now, random⟩).state.log := by
    rw [hfirst]
    apply hfresh.foldl
    intro created origin hmem
    simp at hmem
  have hnow : (m.next z ⟨.beginUserLogin (sampleForm [] none), now, random⟩).now ≤ now := le_rfl
  refine ⟨⟨⟨hclock, hfresh⟩, ⟨hnow, hlater⟩, trivial⟩, user.id, ?_⟩
  rw [loginTurns, List.foldl_cons, List.foldl_cons, List.foldl_nil, hsecond, hfirst]
  refine ⟨?_, ?_, ⟨credential.afterFactor (.counter (now/1000/30)), ?_⟩, .human
    (z.sha256Base64Url random.session), ⟨user.id, random.csrf, now+humanSessionTtlMs⟩, ?_, rfl, ?_⟩
  · show user.id ∈ m.state.store.userIds
    rw [hids]
    exact List.mem_singleton.mpr rfl
  · refine ⟨withRole user .admin, userAt_eq_some.mpr ⟨user, .admin, h.stored, ?_, ?_⟩, ?_⟩
    · rw [h.role]
      rfl
    · rw [roleOf_eq, if_pos h.admin]
    · rw [UserOf.isActiveAdmin, Bool.and_eq_true]
      exact ⟨decide_eq_true h.active, rfl⟩
  · show Function.update m.state.store.credentials credential.userId _ user.id = _
    rw [h.owned]
    exact Function.update_self _ _ _
  · exact Function.update_self _ _ _
  · simp [humanSessionTtlMs]

theorem isOpaqueToken_sampleToken (c : Char) (h : c.isAlphanum = true) :
    isOpaqueToken (sampleToken c) = true := by
  rw [isOpaqueToken, sampleToken, String.toList_ofList, Bool.and_eq_true, decide_eq_true_eq, List.all_eq_true]
  refine ⟨List.length_replicate, fun d hd => ?_⟩
  rw [List.eq_of_mem_replicate hd, h]
  rfl

/-- What later requests lead to is led to by more. -/
theorem Recoverable.earlier {turns : List Turn} (hadmitted : Admitted (Moment.next z) Timely m turns)
    (h : Recoverable z (turns.foldl (Moment.next z) m)) : Recoverable z m := by
  obtain ⟨rest, hrest, hlogged⟩ := h
  refine ⟨turns ++ rest, Emits.admitted_append.mpr ⟨hadmitted, hrest⟩, ?_⟩
  rw [List.foldl_append]
  exact hlogged

theorem recoverable_of_begun (h : Begun z m random) (htoken : isOpaqueToken random.state = true)
    (hvalid : isBootstrapAdminEmail (normalizeEmail z z.config.bootstrapAdminEmail) = true)
    (hfresh : Uncreated ("usr_" ++ random.uuid) m.state.log) : Recoverable z m := by
  obtain ⟨user, credential, hids, hcounter, henrolled⟩ := enrolled_of_begun h htoken hvalid
  obtain ⟨uuid, hnew⟩ := exists_uncreated (m.next z (enrollTurn z m.now random)).state.log
  have hclock : (m.next z (enrollTurn z m.now random)).now ≤ m.now+30000 := Nat.le_add_right _ _
  have hlast : ∀ counter, credential.lastAcceptedCounter = some counter →
      counter < (m.now+30000)/1000/30 := by
    intro counter hc
    rw [hcounter, Option.some.injEq] at hc
    omega
  have hlogin : Admitted (Moment.next z) Timely (m.next z (enrollTurn z m.now random))
      (loginTurns z (m.now+30000) { sampleRandoms '2' with uuid } random.secret) ∧
      LoggedIn z ((loginTurns z (m.now+30000) { sampleRandoms '2' with uuid } random.secret).foldl
        (Moment.next z)
        (m.next z (enrollTurn z m.now random))) :=
    loggedIn_of_enrolled henrolled hids (isOpaqueToken_sampleToken '2' rfl) hvalid hclock hlast hnew
  have henroll : Admitted (Moment.next z) Timely m [enrollTurn z m.now random] := ⟨⟨le_rfl, hfresh⟩, trivial⟩
  exact Recoverable.earlier henroll ⟨_, hlogin.1, hlogin.2⟩

theorem recoverable_of_enrollable (h : Enrollable z m.state.store) (hlogged : Logged m.state) :
    Recoverable z m := by
  obtain ⟨operationId, hnew⟩ := exists_operation hlogged
  obtain ⟨uuid, hfresh⟩ := exists_uncreated m.state.log
  -- the operation that is ready, if any, is waited out
  have htime : ∃ now, m.now ≤ now ∧ bootstrapReady now m.state.store.bootstrapActive = false := by
    cases hactive : m.state.store.bootstrapActive with
    | none => exact ⟨m.now, le_rfl, rfl⟩
    | some active =>
      refine ⟨max m.now active.expiresAt, le_max_left _ _, ?_⟩
      simp [bootstrapReady]
  obtain ⟨now, hclock, hexpired⟩ := htime
  have hbegin : Admitted (Moment.next z) Timely m
    (beginTurns operationId now { sampleRandoms '1' with uuid }) ∧
      Begun z ((beginTurns operationId now { sampleRandoms '1' with uuid }).foldl (Moment.next z) m)
        { sampleRandoms '1' with uuid } ∧
      Uncreated ("usr_" ++ uuid)
        ((beginTurns operationId now { sampleRandoms '1' with uuid }).foldl (Moment.next z) m).state.log :=
    begun_of_enrollable h hnew hexpired hclock hfresh
  exact (recoverable_of_begun hbegin.2.1
    (isOpaqueToken_sampleToken '1' rfl) h.2.2 hbegin.2.2).earlier hbegin.1

end Recovery

section Stuck

variable {z : Environment} {m : Moment} {t : Turn} {w w' : State} {e : Event} {quiet fresh : Prop}

theorem Progressed.unattended (h : Progressed z w) (hnone : ∀ userId, w.store.credentials userId = none) :
    Unattended z w := by
  rcases h.progress with hnobody | ⟨userId, -, -, credential, hcredential⟩
  · exact hnobody
  · rw [hnone] at hcredential
    cases hcredential

/-- A record that is written again still is one that is read. -/
theorem userAt_userStored {place userId : String} {user : StoredUpdateControlUser} (hindexed : Indexed z w)
    (he : Allowed z t quiet fresh w (.userStored place user))
    (hnone : userAt z (w.after (.userStored place user)).store userId = none) :
    userAt z w.store userId = none := by
  obtain ⟨value, old, hvalue, -, -, -, ⟨role, hrole⟩, -⟩ := userStored_place hindexed he
  by_cases heq : userId = place
  · subst heq
    have hread : userAt z (w.after (.userStored userId user)).store userId =
        some (withRole user (roleOf z user role)) :=
      userAt_eq_some.mpr ⟨user, role, Function.update_self _ _ _, hrole, rfl⟩
    rw [hread] at hnone
    cases hnone
  · rw [← hnone]
    simp only [userAt, State.after, Store.after]
    rw [Function.update_of_ne heq]

theorem userOfEmail_userStored {place email : String} {user : StoredUpdateControlUser}
    (hindexed : Indexed z w) (he : Allowed z t quiet fresh w (.userStored place user))
    (hnone : userOfEmail z (w.after (.userStored place user)).store email = none) :
    userOfEmail z w.store email = none := by
  rw [userOfEmail, Option.bind_eq_none_iff] at hnone ⊢
  exact fun userId hid => userAt_userStored hindexed he (hnone userId hid)

theorem enrollable_of_after (hindexed : Indexed z w) (hcall : t.call.isEnrollment = false)
    (he : Allowed z t quiet fresh w e) (h : Enrollable z (w.after e).store) : Enrollable z w.store := by
  cases e with
  | created user origin => exact absurd he.1 (by simp [hcall])
  | indexed hash userId => exact absurd he.1 (by simp [hcall])
  | listed ids => exact absurd he.1 (by simp [hcall])
  | userStored place user => exact ⟨h.1, userOfEmail_userStored hindexed he h.2.1, h.2.2⟩
  | forgotten key => cases key <;> exact h
  | _ => exact h

/-- Nobody is enrolled, and nobody can be. -/
structure Stuck (z : Environment) (w : State) : Prop where
  progressed : Progressed z w
  credentials : ∀ userId, w.store.credentials userId = none
  closed : ¬ Enrollable z w.store

theorem stuck_step (h : Stuck z w) (hcall : t.call.isEnrollment = false) (he : Allowed z t quiet False w e) :
    Stuck z (w.after e) := by
  have hprogressed := progressed_step h.progressed (fun hc => by simp [hcall] at hc) he
  have hnobody : Unattended z (w.after e) := by
    apply unattended_step (h.progressed.unattended h.credentials) h.progressed.indexed he
    rintro credential counter rfl
    exact absurd he.1 (by simp [hcall])
  exact ⟨hprogressed, hnobody.credentials, fun hopen =>
    h.closed (enrollable_of_after h.progressed.indexed hcall he hopen)⟩

theorem enrollable_of_browsed (h : Browsed z w w') (hopen : Enrollable z w'.store) :
    Enrollable z w.store := by
  obtain ⟨hids, habsent, hvalid⟩ := hopen
  have hemails : w'.store.emails = w.store.emails := by rw [h.store]
  have husers : userAt z w'.store = userAt z w.store := funext h.users
  refine ⟨?_, ?_, hvalid⟩
  · rw [← hids, h.store]
  · rw [userOfEmail, hemails, husers] at habsent
    exact habsent

theorem stuck_enrolls (h : Stuck z w) (henrolls : Enrolls z t w w')
    (hprogressed : Progressed z w') : Stuck z w' := by
  cases henrolls with
  | browsed hbrowsed =>
    refine ⟨hprogressed, ?_, fun hopen => h.closed (enrollable_of_browsed hbrowsed hopen)⟩
    rw [hbrowsed.store]
    exact h.credentials
  | closed state => exact ⟨hprogressed, h.credentials, h.closed⟩
  | enrolled pending state email displayName secret counter hvalid habsent horigin =>
    cases hkind : enrollmentOrigin pending with
    | invitation hash =>
      rw [hkind] at horigin
      obtain ⟨invitation, hstored⟩ := horigin
      rw [(h.progressed.unattended h.credentials).invitations] at hstored
      cases hstored
    | bootstrap =>
      rw [hkind] at horigin
      obtain ⟨hids, rfl⟩ := horigin
      refine absurd ⟨hids, ?_, hvalid⟩ h.closed
      rw [← habsent, userOfEmail, userOfEmail, normalizeEmail_normalizeEmail]

theorem stuck_next (h : Stuck z m.state) (htimely : Timely m t) : Stuck z (m.next z t).state := by
  have hprogressed : Progressed z (m.next z t).state :=
    next_invariant htimely h.progressed fun _ _ _ hw hfresh he => progressed_step hw hfresh he
  by_cases hcall : t.call.isEnrollment = true
  · exact stuck_enrolls h (serve_enrolls hcall) hprogressed
  · have hother : t.call.isEnrollment = false := Bool.eq_false_iff.mpr hcall
    have hstep : ∀ w e, Stuck z w → Allowed z t False False w e → Stuck z (w.after e) :=
      fun w e hw he => stuck_step hw hother he
    exact serve_invariant False.elim False.elim h hstep

theorem stuck_turns {turns : List Turn} (h : Stuck z m.state)
    (hadmitted : Admitted (Moment.next z) Timely m turns) :
    Stuck z (turns.foldl (Moment.next z) m).state := by
  induction turns generalizing m with
  | nil => exact h
  | cons t turns ih => exact ih (stuck_next h hadmitted.1) hadmitted.2

theorem enrollable_of_recoverable (h : Progressed z m.state) (hnone : ¬ Completed z m.state.store)
    (hrecoverable : Recoverable z m) : Enrollable z m.state.store := by
  by_contra hclosed
  obtain ⟨turns, hadmitted, userId, -, -, ⟨credential, hcredential⟩, -⟩ := hrecoverable
  have hnobody : Unattended z m.state := h.progress.resolve_right hnone
  rw [(stuck_turns ⟨h, hnobody.credentials, hclosed⟩ hadmitted).credentials] at hcredential
  cases hcredential

/-- Where no administrator has been enrolled, whatever was cut short before,
later requests end with one logged in exactly when the configured email is
free and no user is listed. -/
theorem retry_succeeds_iff {legacy : List PendingLogin} (h : CutReached z legacy m)
    (hnone : ¬ Completed z m.state.store) : Recoverable z m ↔ Enrollable z m.state.store := by
  constructor
  · exact enrollable_of_recoverable (progressed_reached h) hnone
  · exact fun hopen => recoverable_of_enrollable hopen (logged_reached h)

theorem timely_of_checks (h : m.checks z t = true) :
    Timely m t := ⟨(served_of_checks h).clock, (served_of_checks h).uuid⟩

def checkedCuts (z : Environment) (m : Moment) : List Cut → Bool
  | [] => true
  | c::cuts => m.checks z c.turn && checkedCuts z (m.cut z c) cuts

theorem cutReached_of_checkedCuts {legacy : List PendingLogin} {cuts : List Cut} (hm : CutReached z legacy m)
    (h : checkedCuts z m cuts = true) : CutReached z legacy (cuts.foldl (Moment.cut z) m) := by
  induction cuts generalizing m with
  | nil => exact hm
  | cons c cuts ih =>
    rw [checkedCuts, Bool.and_eq_true] at h
    exact ih (.next c hm (timely_of_checks h.1)) h.2

/-- The enrollment is cut after the record of the user and before the index of emails. -/
def earlyCuts : List Cut := (sampleEnrollment.zip [2, 1, 1]).map fun cut => ⟨cut.1, cut.2⟩

def sampleEarly : Moment := earlyCuts.foldl (Moment.cut sampleEnvironment) (.initial [])

theorem retry_succeeds_sample :
    sampleEarly.state.log.length = 4 ∧ Recoverable sampleEnvironment sampleEarly := by
  have hreached : CutReached sampleEnvironment [] sampleEarly :=
    cutReached_of_checkedCuts .refl (by decide +kernel)
  have hrun : sampleEarly.state.log.length = 4 ∧ sampleEarly.state.store.userIds = [] ∧
      userOfEmail sampleEnvironment sampleEarly.state.store
          sampleEnvironment.config.bootstrapAdminEmail = none := by
    decide +kernel
  obtain ⟨hlog, hids, habsent⟩ := hrun
  have hnone : ¬ Completed sampleEnvironment sampleEarly.state.store := by
    rintro ⟨userId, hmem, -⟩
    rw [hids] at hmem
    cases hmem
  exact ⟨hlog, (retry_succeeds_iff hreached hnone).mpr ⟨hids, habsent, by decide +kernel⟩⟩

/-- The enrollment is cut after the index of emails and before the list. -/
def sampleCuts : List Cut := (sampleEnrollment.zip [2, 1, 2]).map fun cut => ⟨cut.1, cut.2⟩

def sampleCut : Moment := sampleCuts.foldl (Moment.cut sampleEnvironment) (.initial [])

theorem not_recoverable_after_index : CutReached sampleEnvironment [] sampleCut ∧
    ¬ Completed sampleEnvironment sampleCut.state.store ∧ ¬ Recoverable sampleEnvironment sampleCut := by
  have hreached : CutReached sampleEnvironment [] sampleCut :=
    cutReached_of_checkedCuts .refl (by decide +kernel)
  have hids : sampleCut.state.store.userIds = [] := by decide +kernel
  have hcompleted : ¬ Completed sampleEnvironment sampleCut.state.store := by
    rintro ⟨userId, hmem, -⟩
    rw [hids] at hmem
    cases hmem
  refine ⟨hreached, hcompleted, fun hrecoverable => ?_⟩
  have habsent := (enrollable_of_recoverable (progressed_reached hreached) hcompleted hrecoverable).2.1
  have hfound : (userOfEmail sampleEnvironment sampleCut.state.store "a@b").isSome = true := by decide +kernel
  rw [show sampleEnvironment.config.bootstrapAdminEmail = "a@b" from rfl] at habsent
  rw [habsent] at hfound
  cases hfound

end Stuck

end AccessStack.Identity
