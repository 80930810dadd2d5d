import AccessStack.Identity.Isolation
import AccessStack.Identity.Service

/-!
# What holds of a reprovision at every moment

A moment is a state that a prefix of the writes of a request leaves. The log
of a moment is a sequence of allowed events, and what the claims say about
operations is read off it.
-/

set_option autoImplicit false

namespace AccessStack.Reprovision
open AccessStack.Text AccessStack.JsonText AccessStack.Fallible AccessStack.Identity AccessStack.Runs

section Histories

def replay (events : List Event) : State := events.foldl State.after .initial

structure Sound (w : State) : Prop where
  replayed : replay w.log = w
  admitted : Admitted State.after Allowed .initial w.log

variable {w : State} {e : Event} {before rest : List Event}

theorem replay_append : replay (before ++ rest) = rest.foldl State.after (replay before) := by
  rw [replay, List.foldl_append, replay]

theorem sound_initial : Sound .initial := ⟨rfl, trivial⟩

theorem sound_after (h : Sound w) (he : Allowed w e) : Sound (w.after e) where
  replayed := by
    show replay (w.log ++ [e]) = w.after e
    rw [replay_append, h.replayed]
    rfl
  admitted := by
    refine Emits.admitted_append.mpr ⟨h.admitted, ?_, trivial⟩
    rw [show w.log.foldl State.after .initial = w from h.replayed]
    exact he

theorem Sound.holds (h : Sound w) {I : State → Prop} (hinitial : I .initial)
    (hstep : ∀ s e, I s → Allowed s e → I (s.after e)) : I w := by
  rw [← h.replayed]
  exact h.admitted.invariant hinitial hstep _ List.prefix_rfl

/-- The log up to an event is a history of its own. -/
theorem Sound.upto (h : Sound w) (hlog : w.log = before ++ e :: rest) :
    Sound (replay before) ∧ (replay before).log = before ∧ Allowed (replay before) e := by
  have hadmitted := h.admitted
  rw [hlog, Emits.admitted_append] at hadmitted
  have hkept : ∀ (events : List Event) (s : State), (events.foldl State.after s).log = s.log ++ events := by
    intro events
    induction events with
    | nil => exact fun s => (List.append_nil _).symm
    | cons first events ih => exact fun s => (ih _).trans (List.append_assoc _ _ _)
  have hbefore : (replay before).log = before := (hkept before .initial).trans (List.nil_append before)
  refine ⟨⟨?_, ?_⟩, hbefore, hadmitted.2.1⟩
  · rw [hbefore]
  · rw [hbefore]
    exact hadmitted.1

theorem known_of_sound (h : Sound w) : Known w := by
  apply h.holds
  · exact ⟨nofun, nofun⟩
  · intro s e hs he
    have hlog : ∀ found ∈ s.log, found ∈ (s.after e).log := fun found hmem => List.mem_append_left _ hmem
    have hold : ∀ id, Completed id s.log → Completed id (s.after e).log := by
      rintro id ⟨attempt, hmem⟩
      exact ⟨attempt, hlog _ hmem⟩
    constructor
    · intro id operation hfound
      cases e with
      | recorded other stored =>
        by_cases hsame : id = other
        · subst hsame
          have hequal : some stored = some operation := (Function.update_self id _ _).symm.trans hfound
          cases hequal
          exact List.mem_append_right _ List.mem_cons_self
        · exact hlog _ (hs.records id operation ((Function.update_of_ne hsame _ _).symm.trans hfound))
      | _ => exact hlog _ (hs.records id operation hfound)
    · intro id hmarker
      cases e with
      | activated other status =>
        cases hmarker
        exact hold id (he.2 rfl)
      | _ => exact hold id (hs.marker id hmarker)

/-- The last mark of the operation is not its completion. -/
def Unfinished (operationId : String) (log : List Event) : Prop :=
  ∃ before status rest, log = before ++ .activated operationId status :: rest ∧ status ≠ .completed ∧
    ∀ later, .activated operationId later ∉ rest

theorem unfinished_concat {operationId : String} {log : List Event} : Unfinished operationId (log ++ [e]) ↔
    (∃ status, e = .activated operationId status ∧ status ≠ .completed) ∨
    Unfinished operationId log ∧ ∀ status, e ≠ .activated operationId status := by
  constructor
  · rintro ⟨before, status, rest, hlog, hstatus, hlast⟩
    cases rest using List.reverseRecOn with
    | nil =>
      obtain ⟨-, heq⟩ := List.append_inj' hlog rfl
      cases heq
      exact Or.inl ⟨status, rfl, hstatus⟩
    | append_singleton rest last =>
      rw [← List.cons_append, ← List.append_assoc] at hlog
      obtain ⟨hbefore, heq⟩ := List.append_inj' hlog rfl
      cases heq
      refine Or.inr ⟨⟨before, status, rest, hbefore, hstatus, fun later hmem => ?_⟩, fun later heq => ?_⟩
      · exact hlast later (List.mem_append_left _ hmem)
      · exact hlast later (List.mem_append_right _ (List.mem_singleton.mpr heq.symm))
  · rintro (⟨status, rfl, hstatus⟩ | ⟨⟨before, status, rest, rfl, hstatus, hlast⟩, hother⟩)
    · exact ⟨log, status, [], rfl, hstatus, fun _ => List.not_mem_nil⟩
    · refine ⟨before, status, rest ++ [e], ?_, hstatus, fun later hmem => ?_⟩
      · rw [List.append_assoc, List.cons_append]
      · rcases List.mem_append.mp hmem with hrest | hend
        · exact hlast later hrest
        · exact hother later (List.mem_singleton.mp hend).symm

/-- The log and the marker of the storage say the same. -/
theorem unfinished_iff (h : Sound w) : ∀ operationId, Unfinished operationId w.log ↔
    unresolved w = some operationId := by
  apply h.holds
  · intro operationId
    refine ⟨?_, nofun⟩
    rintro ⟨before, status, rest, hlog, -⟩
    cases before <;> cases hlog
  · intro s e hs he operationId
    show Unfinished operationId (s.log ++ [e]) ↔ _
    rw [unfinished_concat]
    cases e with
    | activated other status =>
      have hafter : unresolved (s.after (.activated other status)) =
          if status ≠ .completed then some other else none := by
        show ((some ⟨other, status⟩ : Option OAuthReprovisionActiveState).filter _).map _ = _
        by_cases hstatus : status = .completed <;> simp [hstatus]
      rw [hafter]
      constructor
      · rintro (⟨found, heq, hne⟩ | ⟨hold, hother⟩)
        · cases heq
          exact if_pos hne
        · have hsame : operationId = other := he.1 operationId ((hs operationId).mp hold)
          exact absurd (by rw [hsame]) (hother status)
      · intro hsome
        split_ifs at hsome with hne
        · cases hsome
          exact Or.inl ⟨status, rfl, hne⟩
    | _ =>
      have hsame := hs operationId
      simpa [unresolved, State.after, State.apply] using hsame

/-- Where no entry is left, what is there later has been stored later. -/
theorem entries_stored (hempty : (replay before).entries = []) :
    ∀ entry ∈ (replay (before ++ rest)).entries, .stored entry ∈ rest := by
  induction rest using List.reverseRecOn with
  | nil =>
    intro entry hmem
    rw [List.append_nil, hempty] at hmem
    cases hmem
  | append_singleton rest last ih =>
    intro entry hmem
    rw [← List.append_assoc, replay_append] at hmem
    have hold : entry ∈ (replay (before ++ rest)).entries → .stored entry ∈ rest ++ [last] :=
      fun hbefore => List.mem_append_left _ (ih entry hbefore)
    cases last with
    | stored added =>
      rcases List.mem_append.mp hmem with hbefore | hlast
      · exact hold (List.mem_of_mem_filter hbefore)
      · rw [List.mem_singleton.mp hlast]
        exact List.mem_append_right _ List.mem_cons_self
    | removed operationId key => exact hold (List.mem_of_mem_filter hmem)
    | deleted key => exact hold (List.mem_of_mem_filter hmem)
    | _ => exact hold hmem

end Histories

section Moments

variable (env : Environment) (faults : ℕ → Fault)

abbrev Reached (s : State) : Prop := Reaches (step env faults) (fun _ _ => True) .initial s

/-- A state between two writes, or between two requests. -/
def Moment (s : State) : Prop :=
  ∃ start request done, Reached env faults start ∧ done <+: (fetch env faults request start).2 ∧
    s = done.foldl State.after start

variable {env faults} {s : State}

theorem sound_events {events : List Event} (h : Sound s) (hadmitted : Admitted State.after Allowed s events) :
    ∀ done, done <+: events → Sound (done.foldl State.after s) :=
  hadmitted.invariant h fun _ _ => sound_after

theorem sound_step (h : Sound s) (request : Request) : Sound (step env faults s request) :=
  sound_events h (fetch_ensures request (known_of_sound h)).1 _ List.prefix_rfl

theorem sound_reached (h : Reached env faults s) : Sound s :=
  h.invariant sound_initial fun _ request hs _ => sound_step hs request

theorem sound_moment (h : Moment env faults s) : Sound s := by
  obtain ⟨start, request, done, hstart, hprefix, rfl⟩ := h
  have hsound := sound_reached hstart
  exact sound_events hsound (fetch_ensures request (known_of_sound hsound)).1 done hprefix

/-- A request that no operation is behind and that no guard before the marker
refuses. -/
def IsGuarded (request : Request) : Prop :=
  request.isBounded = true ∧ ∃ url, request.url = some url ∧ url.pathname ≠ oauthReprovisionPath ∧
    url.pathname ≠ adminBootstrapPath ∧ isReserved url.pathname = false

theorem guarded_refused {request : Request} (h : unresolved s ≠ none) (hrequest : IsGuarded request) :
    ∃ response, fetch env faults request s = (.ok response, []) ∧ response.status = 503 := by
  obtain ⟨hbounded, url, hurl, hreprovision, hbootstrap, hreserved⟩ := hrequest
  have hserialized : fetchSerialized env faults request =
      if !env.configured then pure { status := 503, error := "update_control_not_configured" }
      else rescue (serveOrdinary env request) (pure unavailable) := by
    simp [fetchSerialized, hbounded, hurl, hreprovision, hbootstrap, hreserved]
  have hordinary : serveOrdinary env request s =
      (.ok { status := 503, error := "oauth_reprovision_required" }, []) := by
    have hsome : (unresolved s).isSome = true := Option.isSome_iff_ne_none.mpr h
    unfold serveOrdinary
    show (if (unresolved s).isSome = true then _ else _ : Program Response) s = _
    rw [if_pos hsome]
    rfl
  have hquiet : ∀ (x y : Program Response) response, x s = (.ok response, []) →
      rescue x y s = (.ok response, []) := fun x y response hx => Emits.bind_of_silent hx
  have hserved : ∃ response, fetchSerialized env faults request s = (.ok response, []) ∧
      response.status = 503 := by
    rw [hserialized]
    split_ifs
    · exact ⟨_, rfl, rfl⟩
    · exact ⟨_, hquiet _ _ _ hordinary, rfl⟩
  obtain ⟨response, hserved, hstatus⟩ := hserved
  exact ⟨response, hquiet _ _ _ hserved, hstatus⟩

def quiet : ℕ → Fault := fun _ => .none

def reprovisionRequest (operationId : String) : Request where
  isBounded := true
  url := some ⟨oauthReprovisionPath, true, [], false⟩
  method := "POST"
  reprovisionMarker := some "v1"
  adminOperationMarker := none
  body := some (.obj [("operationId", .str operationId)])

def repost (env : Environment) (operationId : String) (s : State) : State :=
  step env quiet s (reprovisionRequest operationId)

theorem repost_progress {operationId : String} (hs : Sound s) (hid : isOperationId operationId = true)
    (hconfigured : env.configured = true) (hfree : Free operationId s) :
    ∃ response, (fetch env quiet (reprovisionRequest operationId) s).1 = .ok response ∧
      Progress operationId s response (repost env operationId s) := by
  have hvalid : env.configurationValid = true := (Bool.and_eq_true _ _ ▸ hconfigured).1
  have hserialized : fetchSerialized env quiet (reprovisionRequest operationId) =
      runOAuthReprovision quiet env.configured operationId := by
    simp [fetchSerialized, reprovisionRequest, handleOAuthReprovision, parseFixedOperationId,
      operationIdOf, hid, hvalid]
  have ht : Tolerated quiet operationId fun _ _ => False := Or.inr fun _ => rfl
  have hrun : Ensures Allowed (fetch env quiet (reprovisionRequest operationId)) s
      (fun response w' => Progress operationId s response w') fun _ _ => False := by
    unfold fetch
    apply ensures_rescue
    rw [hserialized, runOAuthReprovision, hconfigured]
    apply Ensures.mono (ensures_rescue ?_) (fun _ _ h => h) (fun _ _ => False.elim)
    apply (tryReprovision_ensures (known_of_sound hs) ht).mono
    · exact fun _ _ hpost => hpost.2 hfree
    · exact fun _ _ => False.elim
  have hsettled := hrun.2
  cases hresult : (fetch env quiet (reprovisionRequest operationId) s).1 with
  | error stop =>
    rw [hresult] at hsettled
    exact hsettled.elim
  | ok response =>
    rw [hresult] at hsettled
    exact ⟨response, rfl, hsettled⟩

theorem reposting_completes {operationId : String} (hid : isOperationId operationId = true)
    (hconfigured : env.configured = true) (hs : Sound s) (hfree : Free operationId s) :
    ∃ n response,
      (fetch env quiet (reprovisionRequest operationId) ((repost env operationId)^[n] s)).1 = .ok response ∧
      Reports response operationId := by
  induction hlength : s.entries.length using Nat.strong_induction_on generalizing s with
  | _ length ih =>
    obtain ⟨response, hresponse, hdone | ⟨hfewer, hfree'⟩⟩ := repost_progress hs hid hconfigured hfree
    · exact ⟨0, response, hresponse, hdone⟩
    · rw [hlength] at hfewer
      obtain ⟨n, later, hlater, hreports⟩ := ih _ hfewer (sound_step hs _) hfree' rfl
      exact ⟨n+1, later, hlater, hreports⟩

/-- What a client can show; an access token is signed with the key of the
storage. -/
inductive Credential where
  | client (clientId : String)
  | code (hash : String)
  | refresh (hash : String)
  | access (signing : String)
  deriving DecidableEq

/-- The entry lets the credential be accepted. -/
def Backs (entry : OAuthKey × String) : Credential → Prop
  | .client clientId => entry.1 = .client clientId
  | .code hash => entry.1 = .code hash
  | .refresh hash => entry.1 = .refresh hash
  | .access signing => entry = (.signing, signing)

def Accepted (s : State) (credential : Credential) : Prop := ∃ entry ∈ s.entries, Backs entry credential

/-- The server reads nothing that is not among the entries. The signing
material is read from the text of its entry. -/
structure Reads (text : SigningMaterial → String) (s : State) (store : Store) : Prop where
  clients : ∀ id, store.clients id ≠ none → ∃ value, (.client id, value) ∈ s.entries
  codes : ∀ hash, store.codes hash ≠ none → ∃ value, (.code hash, value) ∈ s.entries
  refresh : ∀ hash, store.refresh hash ≠ none → ∃ value, (.refresh hash, value) ∈ s.entries
  signing : ∀ material, store.signing = some material → (.signing, text material) ∈ s.entries

section Endpoints

variable {text : SigningMaterial → String} {s : State} {w : Identity.State}
  {z : Identity.Environment} {now : ℕ} {random : Randoms} {fields : Fields}

/-- A client that the token endpoint knows is accepted. -/
theorem token_accepts (h : Reads text s w.store)
    (hanswer : (token z now random fields w).1 ≠ oauthError "invalid_client" 400) :
    Accepted s (.client (fields.text "client_id")) := by
  by_contra hnot
  have hnone : w.store.clients (fields.text "client_id") = none := by
    by_contra hsome
    obtain ⟨value, hmem⟩ := h.clients _ hsome
    exact hnot ⟨_, hmem, rfl⟩
  apply hanswer
  unfold token
  rw [Emits.look_bind, hnone]
  rfl

theorem exchangeCode_accepts (h : Reads text s w.store)
    (hanswer : (exchangeCode z now random fields w).1 ≠ oauthError "invalid_grant" 400) :
    Accepted s (.code (z.sha256Base64Url (fields.text "code"))) := by
  by_contra hnot
  have hnone : w.store.codes (z.sha256Base64Url (fields.text "code")) = none := by
    by_contra hsome
    obtain ⟨value, hmem⟩ := h.codes _ hsome
    exact hnot ⟨_, hmem, rfl⟩
  apply hanswer
  unfold exchangeCode
  rw [Emits.look_bind, hnone]
  rfl

theorem refreshTokens_accepts (h : Reads text s w.store)
    (hanswer : (refreshTokens z now random fields w).1 ≠ oauthError "invalid_grant" 400) :
    Accepted s (.refresh (z.sha256Base64Url (fields.text "refresh_token"))) := by
  by_contra hnot
  have hnone : w.store.refresh (z.sha256Base64Url (fields.text "refresh_token")) = none := by
    by_contra hsome
    obtain ⟨value, hmem⟩ := h.refresh _ hsome
    exact hnot ⟨_, hmem, rfl⟩
  apply hanswer
  unfold refreshTokens
  rw [Emits.look_bind, Emits.look_bind, hnone]
  rfl

/-- An access token that is verified was signed with the key of an entry. -/
theorem authenticate_accepts {key : String} {claims : AccessClaims} (h : Reads text s w.store)
    (hanswer : (authenticate z now (some (.signed key claims)) w).1 ≠ .unauthorized "invalid_token" 401) :
    ∃ material, material.key = key ∧ Accepted s (.access (text material)) := by
  by_contra hnot
  have hnone : verifyAccessToken z w.store.signing (.signed key claims) = none := by
    refine if_neg fun hchecks => ?_
    simp only [Bool.and_eq_true] at hchecks
    obtain ⟨material, hmaterial, hsame⟩ := (Option.any_eq_true _ _).mp hchecks.1.1.2
    exact hnot ⟨material, of_decide_eq_true hsame, _, h.signing material hmaterial, rfl⟩
  apply hanswer
  unfold authenticate
  dsimp only
  rw [Emits.look_bind, hnone]
  rfl

end Endpoints

def Issued (events : List Event) (credential : Credential) : Prop :=
  ∃ entry, .stored entry ∈ events ∧ Backs entry credential

/-- At every moment: one operation is unfinished, keys are removed by an
unfinished operation, and while there is one the other requests are refused;
a completion that is reported comes after a moment, later than the start,
where no entry was left, so that what is accepted has been issued since; and
where no other operation is unfinished, re-posting reaches the completion. -/
theorem reprovision_isolated {env : Environment} {faults : ℕ → Fault} {s : State} (h : Moment env faults s) :
    (∀ one other, Unfinished one s.log → Unfinished other s.log → one = other) ∧
    (∀ before operationId key rest, s.log = before ++ .removed operationId key :: rest →
      Unfinished operationId before) ∧
    (∀ operationId request, Unfinished operationId s.log → IsGuarded request →
      ∃ response, fetch env faults request s = (.ok response, []) ∧ response.status = 503) ∧
    (∀ request operationId response, (fetch env faults request s).1 = .ok response →
      Reports response operationId →
      Completed operationId (step env faults s request).log) ∧
    (∀ operationId, Completed operationId s.log → ∃ before rest, s.log = before ++ rest ∧
      Started operationId before ∧
      (replay before).entries = [] ∧ ∀ credential, Accepted s credential → Issued rest credential) ∧
    (∀ operationId, isOperationId operationId = true → env.configured = true →
      (∀ other, Unfinished other s.log → other = operationId) →
      ∃ n response,
        (fetch env quiet (reprovisionRequest operationId) ((repost env operationId)^[n] s)).1 = .ok response ∧
        Reports response operationId) := by
  have hs := sound_moment h
  refine ⟨?_, ?_, ?_, ?_, ?_, ?_⟩
  · intro one other hone hother
    rw [unfinished_iff hs] at hone hother
    exact Option.some.inj (hone.symm.trans hother)
  · intro before operationId key rest hlog
    obtain ⟨hsound, hbefore, hactive⟩ := hs.upto hlog
    rw [← hbefore, unfinished_iff hsound, unresolved, hactive]
    rfl
  · intro operationId request hunfinished hrequest
    rw [unfinished_iff hs] at hunfinished
    exact guarded_refused (fun hnone => by rw [hnone] at hunfinished; cases hunfinished) hrequest
  · intro request operationId response hresponse hreports
    have hensured : Ensures Allowed (fetch env faults request) s
        (fun response w => Truthful response w) fun _ _ => True :=
      fetch_ensures request (known_of_sound hs)
    have hsettled := hensured.2
    rw [hresponse] at hsettled
    exact hsettled operationId hreports
  · rintro operationId ⟨attempt, hmem⟩
    obtain ⟨before, rest, hlog⟩ := List.append_of_mem hmem
    obtain ⟨-, hbefore, hallowed⟩ := hs.upto hlog
    obtain ⟨hempty, hstarted⟩ := hallowed rfl
    rw [hbefore] at hstarted
    refine ⟨before, .recorded operationId ⟨.completed, attempt⟩ :: rest, hlog, hstarted, hempty, ?_⟩
    rintro credential ⟨entry, hentry, hbacks⟩
    have hreplayed : s = replay (before ++ .recorded operationId ⟨.completed, attempt⟩ :: rest) := by
      rw [← hlog, hs.replayed]
    rw [hreplayed] at hentry
    exact ⟨entry, entries_stored hempty entry hentry, hbacks⟩
  · intro operationId hid hconfigured hother
    apply reposting_completes hid hconfigured hs
    intro other hunresolved
    exact hother other ((unfinished_iff hs other).mpr hunresolved)

end Moments

section Samples

/-- Every ordinary request registers two clients. -/
def sampleEnvironment : Environment where
  configurationValid := true
  identityOAuth := true
  ordinary := fun _ _ => ([.stored (.client "one", "1"), .stored (.client "two", "2")], .ok 201)
  bootstrap := fun _ _ _ => (0, .ok 200)

def sampleRegistration : Request := ⟨true, some ⟨"/register", true, [], false⟩, "POST", none, none, none⟩

/-- The first operation crashes before its mark, the second within its deletion. -/
def sampleFaults : ℕ → Fault := fun n => if n = 3 ∨ n = 7 then .crashes true else .none

def sampleCrash : State :=
  [sampleRegistration, reprovisionRequest (countedUuid 1), reprovisionRequest (countedUuid 2)].foldl
    (step sampleEnvironment sampleFaults) .initial

theorem sampleCrash_run : .removed (countedUuid 2) (.client "one") ∈ sampleCrash.log ∧
    sampleCrash.entries = [(.client "two", "2")] ∧ unresolved sampleCrash = some (countedUuid 2) ∧
    (fetch sampleEnvironment sampleFaults { sampleRegistration with isBounded := false } sampleCrash).1 =
      .ok { status := 431 } ∧
    .recorded (countedUuid 1) ⟨.inProgress, 1⟩ ∈ sampleCrash.log ∧
    fetch sampleEnvironment quiet (reprovisionRequest (countedUuid 1)) sampleCrash =
      (.ok { status := 409, operationId := countedUuid 1, report := some (.status .inProgress)
             error := "another_operation_active" }, []) := by
  decide +kernel

/-- A request beyond the bounds is answered 431 while a deletion is unfinished,
and the operation that has not been marked is refused however often it is
posted. -/
theorem not_refused_not_completed : Reached sampleEnvironment sampleFaults sampleCrash ∧
    .removed (countedUuid 2) (.client "one") ∈ sampleCrash.log ∧ sampleCrash.entries =
      [(.client "two", "2")] ∧
    unresolved sampleCrash = some (countedUuid 2) ∧
    (fetch sampleEnvironment sampleFaults { sampleRegistration with isBounded := false } sampleCrash).1 =
      .ok { status := 431 } ∧
    isOperationId (countedUuid 1) = true ∧ Started (countedUuid 1) sampleCrash.log ∧
    ∀ n response, (fetch sampleEnvironment quiet (reprovisionRequest (countedUuid 1))
      ((repost sampleEnvironment (countedUuid 1))^[n] sampleCrash)).1 = .ok response →
      ¬ Reports response (countedUuid 1) := by
  obtain ⟨hremoved, hentries, hunresolved, hbounds, hstarted, hreply⟩ := sampleCrash_run
  have hsame : ∀ n, (repost sampleEnvironment (countedUuid 1))^[n] sampleCrash = sampleCrash := by
    intro n
    induction n with
    | zero => rfl
    | succ n ih =>
      rw [Function.iterate_succ_apply', ih]
      show (fetch sampleEnvironment quiet (reprovisionRequest (countedUuid 1)) sampleCrash).2.foldl
        State.after
        sampleCrash = sampleCrash
      rw [hreply, List.foldl_nil]
  have hrun : Admitted (step sampleEnvironment sampleFaults) (fun _ _ => True) .initial
      [sampleRegistration, reprovisionRequest (countedUuid 1), reprovisionRequest (countedUuid 2)] :=
    ⟨trivial, trivial, trivial, trivial⟩
  refine ⟨Reaches.refl.events hrun rfl, hremoved, hentries, hunresolved,
    hbounds, by decide +kernel, ⟨1, hstarted⟩, ?_⟩
  intro n response hresponse hreports
  rw [hsame, hreply] at hresponse
  cases hresponse
  cases hreports.2

theorem reprovision_isolated_sample :
    Unfinished (countedUuid 2) sampleCrash.log ∧
    (∃ response, fetch sampleEnvironment sampleFaults sampleRegistration sampleCrash = (.ok response, []) ∧
      response.status = 503) ∧
    ∃ n response, (fetch sampleEnvironment quiet (reprovisionRequest (countedUuid 2))
      ((repost sampleEnvironment (countedUuid 2))^[n] sampleCrash)).1 = .ok response ∧
      Reports response (countedUuid 2) := by
  have hrun : Admitted (step sampleEnvironment sampleFaults) (fun _ _ => True) .initial
      [sampleRegistration, reprovisionRequest (countedUuid 1), reprovisionRequest (countedUuid 2)] :=
    ⟨trivial, trivial, trivial, trivial⟩
  have hreached : Reached sampleEnvironment sampleFaults sampleCrash := Reaches.refl.events hrun rfl
  have hmoment : Moment sampleEnvironment sampleFaults sampleCrash :=
    ⟨sampleCrash, sampleRegistration, [], hreached, List.nil_prefix, List.foldl_nil.symm⟩
  have hunfinished : Unfinished (countedUuid 2) sampleCrash.log :=
    (unfinished_iff (sound_reached hreached) _).mpr sampleCrash_run.2.2.1
  obtain ⟨hone, -, hrefused, -, -, hcompletes⟩ := reprovision_isolated hmoment
  refine ⟨hunfinished, hrefused _ _ hunfinished ?_, hcompletes _ (by decide +kernel) rfl ?_⟩
  · exact ⟨rfl, _, rfl, by decide, by decide, by decide +kernel⟩
  · exact fun other hother => hone other _ hother hunfinished

end Samples

end AccessStack.Reprovision
