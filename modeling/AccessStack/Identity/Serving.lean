import AccessStack.Identity.Events

/-!
# Requests served one at a time

A turn is a request with the time at which it is served and the values that
are drawn for it. What is drawn has not been drawn before, the clock does not
go back, and a token under a key of the server is one that the server has
signed.
-/

set_option autoImplicit false

namespace AccessStack.Identity
open AccessStack.Text AccessStack.OAuth AccessStack.Emits AccessStack.Runs

section Turns

structure Moment where
  state : State
  now : ℕ

variable (z : Environment)

def Moment.next (m : Moment) (t : Turn) : Moment := ⟨(serve z t.now t.random t.call).final m.state, t.now⟩

/-- The hashes of the recovery codes of an enrollment. -/
def recoveryHashes (random : Randoms) : List String :=
  random.recoveryCodes.map fun code => z.sha256Base64Url (normalizeRecoveryCode z code)

structure Served (m : Moment) (t : Turn) : Prop where
  clock : m.now ≤ t.now
  code : ∀ state completion hash record, .completed state completion hash record ∈ m.state.log →
    hash ≠ z.sha256Base64Url ("code-" ++ t.random.code)
  refresh : Unissued (t.refreshHash z) m.state.log
  invite : ∀ hash invitation, .invited hash invitation ∈ m.state.log →
    hash ≠ z.sha256Base64Url t.random.invite
  uuid : Uncreated t.userId m.state.log
  recovery : (recoveryHashes z t.random).Nodup
  unforged : ∀ key claims, bearerOf t.call = some (.signed key claims) →
    (∃ signing, .signingStored signing ∈ m.state.log ∧ signing.key = key) →
      ∃ origin hash record, .issued origin hash record key claims ∈ m.state.log

/-- The server, with the logins that were pending under the version before. -/
def Moment.initial (legacy : List PendingLogin) : Moment :=
  ⟨(legacy.map Event.loginStored).foldl State.after .empty, 0⟩

abbrev Reached (legacy : List PendingLogin) (m : Moment) : Prop :=
  Reaches (Moment.next z) (Served z) (.initial legacy) m

end Turns

variable {z : Environment} {m : Moment} {t : Turn}

theorem Served.fresh (h : Served z m t) : t.Fresh z m.state.log := ⟨h.refresh, h.uuid⟩

/-- An invariant of the events that a turn may emit is one of the turn. -/
theorem serve_invariant {I : State → Prop} {quiet fresh : Prop} (hquiet : quiet → ¬ Creating m.state.log)
    (hfresh : fresh → t.Fresh z m.state.log) (hstart : I m.state)
    (hstep : ∀ w e, I w → Allowed z t quiet fresh w e → I (w.after e)) : I (m.next z t).state :=
  (serve_meets m.state hquiet hfresh).1.invariant hstart hstep _ List.prefix_rfl

theorem serve_enrolls (hcall : t.call.isEnrollment = true) : Enrolls z t m.state (m.next z t).state := by
  rcases t with ⟨call, now, random⟩
  cases call with
  | completeEnrollment request => exact completeEnrollment_enrolls m.state request rfl
  | _ => cases hcall

/-- A list of events is a run whose events are all admitted. -/
theorem foldl_invariant {I : State → Prop} {events : List Event} {w : State} (hstart : I w)
    (hstep : ∀ w e, I w → e ∈ events → I (w.after e)) : I (events.foldl State.after w) := by
  induction events generalizing w with
  | nil => exact hstart
  | cons e events ih =>
    apply ih (hstep w e hstart List.mem_cons_self)
    intro w e hw he
    exact hstep w e hw (List.mem_cons_of_mem _ he)

section Tables

variable {α β : Type} [DecidableEq α] {f : α → Option β} {a x : α} {b y : β}

theorem update_some_eq (h : Function.update f a (some b) x = some y) : (x = a ∧ b = y) ∨ f x = some y := by
  by_cases hx : x = a
  · subst hx
    rw [Function.update_self, Option.some.injEq] at h
    exact .inl ⟨rfl, h⟩
  · rw [Function.update_of_ne hx] at h
    exact .inr h

theorem update_none_eq (h : Function.update f a none x = some y) : f x = some y := by
  by_cases hx : x = a
  · subst hx
    rw [Function.update_self] at h
    cases h
  · rwa [Function.update_of_ne hx] at h

end Tables

section Deciding

/-- An event that has drawn what the turn draws. -/
def Event.drawn (z : Environment) (t : Turn) : Event → Bool
  | .completed _ _ hash _ => hash = z.sha256Base64Url ("code-" ++ t.random.code)
  | .issued _ hash _ _ _ => hash = t.refreshHash z
  | .invited hash _ => hash = z.sha256Base64Url t.random.invite
  | .created user _ => user.id = t.userId
  | _ => false

def Event.stores (key : String) : Event → Bool
  | .signingStored material => material.key = key
  | _ => false

def Event.issues (key : String) (claims : AccessClaims) : Event → Bool
  | .issued _ _ _ signingKey signed => signingKey = key && signed = claims
  | _ => false

/-- The token of the call is one that the server has signed, or is under
another key. -/
def unforged (log : List Event) : Option Bearer → Bool
  | some (.signed key claims) => !log.any (Event.stores key) || log.any (Event.issues key claims)
  | _ => true

theorem not_drawn {p : Bool} {e : Event} {log : List Event} (h : ∀ e ∈ log, e.drawn z t = false)
    (he : e ∈ log) (hp : e.drawn z t = p) : p = false := by
  rw [← hp]
  exact h e he

theorem served_of_checked (hclock : m.now ≤ t.now) (hdrawn : ∀ e ∈ m.state.log, e.drawn z t = false)
    (hrecovery : (recoveryHashes z t.random).Nodup)
    (hunforged : unforged m.state.log (bearerOf t.call) = true) :
    Served z m t where
  clock := hclock
  code := fun _ _ _ _ hmem => of_decide_eq_false (not_drawn hdrawn hmem rfl)
  refresh := fun _ _ _ _ hmem => of_decide_eq_false (not_drawn hdrawn hmem rfl) rfl
  invite := fun _ _ hmem => of_decide_eq_false (not_drawn hdrawn hmem rfl)
  uuid := fun _ _ hmem => of_decide_eq_false (not_drawn hdrawn hmem rfl)
  recovery := hrecovery
  unforged := by
    intro key claims hbearer hstored
    obtain ⟨signing, hsigning, hkey⟩ := hstored
    have hstores : m.state.log.any (Event.stores key) = true :=
      List.any_eq_true.mpr ⟨_, hsigning, decide_eq_true hkey⟩
    rw [hbearer] at hunforged
    simp only [AccessStack.Identity.unforged, hstores, Bool.not_true, Bool.false_or] at hunforged
    obtain ⟨e, he, hissues⟩ := List.any_eq_true.mp hunforged
    cases e with
    | issued origin hash record signingKey issued =>
      simp only [Event.issues, Bool.and_eq_true, decide_eq_true_eq] at hissues
      obtain ⟨rfl, rfl⟩ := hissues
      exact ⟨origin, hash, record, he⟩
    | _ => cases hissues

/-- What a turn is checked for before it is served. -/
def Moment.checks (z : Environment) (m : Moment) (t : Turn) : Bool :=
  m.now ≤ t.now && m.state.log.all (fun e => !e.drawn z t) && (recoveryHashes z t.random).Nodup &&
    unforged m.state.log (bearerOf t.call)

theorem served_of_checks (h : m.checks z t = true) : Served z m t := by
  simp only [Moment.checks, Bool.and_eq_true, decide_eq_true_eq, List.all_eq_true, Bool.not_eq_true'] at h
  exact served_of_checked h.1.1.1 h.1.1.2 h.1.2 h.2

def checkedRun (z : Environment) (m : Moment) : List Turn → Bool
  | [] => true
  | t::turns => m.checks z t && checkedRun z (m.next z t) turns

theorem reached_of_checkedRun {legacy : List PendingLogin} {turns : List Turn} (hm : Reached z legacy m)
    (h : checkedRun z m turns = true) : Reached z legacy (turns.foldl (Moment.next z) m) := by
  induction turns generalizing m with
  | nil => exact hm
  | cons t turns ih =>
    rw [checkedRun, Bool.and_eq_true] at h
    exact ih (.next t hm (served_of_checks h.1)) h.2

end Deciding

section Samples

/-- A server on which every text is its own hash and every code is `000000`. -/
def sampleEnvironment : Environment where
  config := { publicBaseUrl := "https://c", mcpUrl := "https://c/mcp", bootstrapAdminEmail := "a@b"
              scopes := ["update:read"], accessTokenTtlSeconds := 3600, refreshTokenTtlSeconds := 86400
              redirectAllowed := fun _ => true }
  sha256Base64Url := id
  hmacSha1 := fun _ _ => []
  toLowerCase := id
  toLowerCase_trim := trim_trim
  toUpperCase := id
  toUpperCase_digits := fun _ _ => rfl
  encode := fun key claims => key ++ claims.jti

def sampleToken (c : Char) : String := String.ofList (List.replicate 43 c)

def sampleUuid (c : Char) : String := String.ofList (List.replicate 36 c)

def sampleRandoms (c : Char) : Randoms :=
  { uuid := sampleUuid c, state := sampleToken c, secret := sampleToken c, invite := sampleToken c
    code := sampleToken c, session := sampleToken c, csrf := sampleToken c, refresh := sampleToken c
    jti := sampleToken c, signingKey := sampleToken c, signingVersion := sampleToken c, recoveryCodes := [] }

def sampleForm (fields : Fields) (loginCookie : Option String) : Request :=
  ⟨true, true, some fields, [], none, none, loginCookie⟩

/-- The first administrator enrolls. -/
def sampleEnrollment : List Turn :=
  [⟨.beginBootstrap "bootstrap", 0, sampleRandoms '0'⟩, ⟨.beginBootstrapEnrollment, 0, sampleRandoms '1'⟩,
    ⟨.completeEnrollment (sampleForm
      [("state", sampleToken '1'), ("email", "a@b"), ("display_name", "A"), ("code", "000000")] none),
      0, sampleRandoms '2'⟩]

end Samples

end AccessStack.Identity
