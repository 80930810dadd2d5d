import AccessStack.Runs

/-!
# Relayed requests

The pending requests of a session. A request is sent over one socket and is
settled by a response from that socket, its timeout, the abort of its client,
a send that fails or the end of the socket; each of these runs without an
await. A response is taken off the map, with its timer and its listener,
before the answer is built from it, and building it may throw: `new Response`
refuses a status below 200 and `Headers.set` a value that is no header value,
while the parser of the messages accepts both.
-/

set_option autoImplicit false

namespace AccessStack.Relay
open AccessStack.Runs

section Machine

inductive Role where
  | connector | companion
  deriving DecidableEq

/-- The status is one the parser of a message accepts. -/
structure HttpResponseMessage where
  requestId : String
  status : ℕ
  headers : List (String × String)
  body : String
  accepted : 100 ≤ status ∧ status ≤ 599
  deriving DecidableEq

structure PendingRelay where
  connector : ℕ
  unavailableResponse : Option String
  deriving DecidableEq

inductive Answer where
  | peer (socket : ℕ) (message : HttpResponseMessage)
  | error (error : String) (status : ℕ)
  | unavailable (response : String)
  | clientDisconnected
  deriving DecidableEq

structure Session where
  pending : List (String × PendingRelay)
  /-- The timers that have not fired or been cleared. -/
  timers : List String
  /-- Every request that has been relayed, with its socket. -/
  relayed : List (String × ℕ)
  /-- The answers, in the order of the calls of `settle`. -/
  settled : List (String × Answer)
  deriving DecidableEq

def Session.initial : Session := ⟨[], [], [], []⟩

inductive Event where
  | relay (requestId : String) (socket : ℕ) (unavailableResponse : Option String) (sendFails : Bool)
  | message (socket : ℕ) (message : HttpResponseMessage)
  | timeout (requestId : String)
  | abort (requestId : String)
  | close (socket : ℕ)
  | error (socket : ℕ)
  deriving DecidableEq

def maxEdgeResponseBodyBytes : ℕ := 8*1024*1024

def responseHeaderAllowlist : List String :=
  ["allow", "cache-control", "content-type", "location", "mcp-protocol-version", "mcp-session-id", "origin",
    "retry-after", "www-authenticate"]

variable (role : ℕ → Role) (headerValue : String → Bool)

def roleName : Role → String
  | .connector => "connector"
  | .companion => "companion"

/-- Whether `collectAllowedResponseHeaders` and `new Response` return. -/
def constructible (message : HttpResponseMessage) : Bool :=
  200 ≤ message.status && message.headers.all fun header =>
    !responseHeaderAllowlist.contains header.1.toLower || headerValue header.2

def Session.take (s : Session) (requestId : String) : Session :=
  { s with
    pending := s.pending.filter (·.1 ≠ requestId)
    timers := s.timers.filter (· ≠ requestId) }

def Session.settle (s : Session) (requestId : String) (answer : Answer) : Session :=
  { s.take requestId with settled := s.settled ++ [(requestId, answer)] }

def Session.lookup (s : Session) (requestId : String) : Option PendingRelay :=
  (s.pending.find? (·.1 = requestId)).map (·.2)

def unavailableOr (relay : PendingRelay) (error : String) : Answer :=
  match relay.unavailableResponse with
  | some response => .unavailable response
  | none => .error error 503

/-- A response of a connector or a companion. -/
def receive (s : Session) (socket : ℕ) (message : HttpResponseMessage) : Session :=
  match s.lookup message.requestId with
  | none => s
  | some relay =>
    if relay.connector ≠ socket then s
    else if maxEdgeResponseBodyBytes < message.body.utf8ByteSize then
      s.settle message.requestId (.error (roleName (role socket) ++ "_response_too_large") 502)
    else if constructible headerValue message then
      s.settle message.requestId (.peer socket message)
    else s.take message.requestId

/-- `finishWithCancellation` -/
def cancel (s : Session) (requestId : String) (answer : Role → Answer) : Session :=
  match s.lookup requestId with
  | none => s
  | some relay => s.settle requestId (answer (role relay.connector))

def failPendingRequestsForConnector (s : Session) (socket : ℕ) (reason : String) : Session :=
  (s.pending.filter (·.2.connector = socket)).foldl
    (fun s entry => s.settle entry.1 (unavailableOr entry.2 reason)) s

def step (s : Session) : Event → Session
  | .relay requestId socket unavailableResponse sendFails =>
    let relay : PendingRelay := ⟨socket, unavailableResponse⟩
    let s := { s with
      pending := s.pending ++ [(requestId, relay)]
      timers := s.timers ++ [requestId]
      relayed := s.relayed ++ [(requestId, socket)] }
    if sendFails then s.settle requestId
      (unavailableOr relay (roleName (role socket) ++ "_send_failed")) else s
  | .message socket message => receive role headerValue s socket message
  | .timeout requestId =>
    if requestId ∈ s.timers then
      cancel role s requestId fun role => .error (roleName role ++ "_timeout") 504
    else s
  | .abort requestId => cancel role s requestId fun _ => .clientDisconnected
  | .close socket => failPendingRequestsForConnector s socket "connector_disconnected"
  | .error socket => failPendingRequestsForConnector s socket "connector_error"

/-- The id of a request is new. -/
def Fresh (s : Session) : Event → Prop
  | .relay requestId _ _ _ => requestId ∉ s.relayed.map (·.1)
  | _ => True

/-- An answer to a pending request can be built. -/
def Answerable (s : Session) : Event → Prop
  | .message socket message =>
    (s.lookup message.requestId).any (·.connector = socket) = true →
      maxEdgeResponseBodyBytes < message.body.utf8ByteSize ∨ constructible headerValue message = true
  | _ => True

instance (s : Session) (e : Event) : Decidable (Fresh s e) := by
  cases e <;> unfold Fresh <;> infer_instance

instance (s : Session) (e : Event) : Decidable (Answerable headerValue s e) := by
  cases e <;> unfold Answerable <;> infer_instance

end Machine

section Invariant

/-- What holds whether or not an answer can be built. -/
structure Inv (s : Session) : Prop where
  relayedOnce : (s.relayed.map (·.1)).Nodup
  pendingOnce : (s.pending.map (·.1)).Nodup
  pendingRelayed : ∀ entry ∈ s.pending, (entry.1, entry.2.connector) ∈ s.relayed
  settledOnce : (s.settled.map (·.1)).Nodup
  settledRelayed : ∀ requestId ∈ s.settled.map (·.1), requestId ∈ s.relayed.map (·.1)
  apart : ∀ requestId ∈ s.settled.map (·.1), requestId ∉ s.pending.map (·.1)
  peers : ∀ requestId socket message, (requestId, Answer.peer socket message) ∈ s.settled →
    message.requestId = requestId ∧ (requestId, socket) ∈ s.relayed
  timed : ∀ requestId ∈ s.timers, requestId ∈ s.pending.map (·.1)

/-- No request has been lost. -/
def Complete (s : Session) : Prop :=
  ∀ entry ∈ s.relayed, entry.1 ∈ s.pending.map (·.1) ∨ entry.1 ∈ s.settled.map (·.1)

variable {s : Session}

theorem inv_initial : Inv Session.initial := by
  constructor <;> simp [Session.initial]

theorem lookup_mem {requestId : String} {relay : PendingRelay} (h : s.lookup requestId = some relay) :
    (requestId, relay) ∈ s.pending := by
  obtain ⟨entry, hfind, rfl⟩ := Option.map_eq_some_iff.mp h
  have hid : entry.1 = requestId := by simpa using List.find?_some hfind
  rw [← hid]
  exact List.mem_of_find?_eq_some hfind

theorem lookup_none {requestId : String} (h : s.lookup requestId = none) :
    requestId ∉ s.pending.map (·.1) := by
  intro hmem
  obtain ⟨entry, hentry, rfl⟩ := List.mem_map.mp hmem
  have hnone := Option.map_eq_none_iff.mp h
  simpa using List.find?_eq_none.mp hnone entry hentry

theorem inv_take (h : Inv s) (requestId : String) : Inv (s.take requestId) where
  relayedOnce := h.relayedOnce
  pendingOnce := h.pendingOnce.sublist ((List.filter_sublist).map _)
  pendingRelayed entry he := h.pendingRelayed entry (List.mem_of_mem_filter he)
  settledOnce := h.settledOnce
  settledRelayed := h.settledRelayed
  apart id hid := by
    intro hmem
    obtain ⟨entry, hentry, rfl⟩ := List.mem_map.mp hmem
    exact h.apart entry.1 hid (List.mem_map_of_mem (List.mem_of_mem_filter hentry))
  peers := h.peers
  timed id hid := by
    obtain ⟨hid, hne⟩ := List.mem_filter.mp hid
    obtain ⟨entry, hentry, rfl⟩ := List.mem_map.mp (h.timed id hid)
    exact List.mem_map.mpr ⟨entry, List.mem_filter.mpr ⟨hentry, hne⟩, rfl⟩

/-- A pending request is settled. -/
theorem inv_settle (h : Inv s) {requestId : String} {relay : PendingRelay} {answer : Answer}
    (hpending : (requestId, relay) ∈ s.pending)
    (hpeer : ∀ socket message, answer = .peer socket message →
      message.requestId = requestId ∧ relay.connector = socket) :
    Inv (s.settle requestId answer) := by
  have htake := inv_take h requestId
  have hrelayed := h.pendingRelayed _ hpending
  refine ⟨htake.relayedOnce, htake.pendingOnce, htake.pendingRelayed, ?_, ?_, ?_, ?_, htake.timed⟩
  · simp only [Session.settle, List.map_append, List.map_cons, List.map_nil]
    apply List.Nodup.append h.settledOnce (List.nodup_singleton _)
    intro id hid hnew
    rw [List.mem_singleton.mp hnew] at hid
    exact h.apart requestId hid (List.mem_map_of_mem hpending)
  · intro id hid
    simp only [Session.settle, List.map_append, List.mem_append, List.map_cons, List.map_nil,
      List.mem_singleton] at hid
    rcases hid with hid | rfl
    · exact h.settledRelayed id hid
    · exact List.mem_map_of_mem hrelayed
  · intro id hid
    simp only [Session.settle, List.map_append, List.mem_append, List.map_cons, List.map_nil,
      List.mem_singleton] at hid
    rcases hid with hid | rfl
    · exact htake.apart id hid
    · simp [Session.settle, Session.take]
  · intro id socket message hmem
    rcases List.mem_append.mp hmem with hmem | hmem
    · exact h.peers id socket message hmem
    · have heq := List.mem_singleton.mp hmem
      obtain ⟨hid, hanswer⟩ := Prod.mk.inj heq
      obtain ⟨hmessage, hsocket⟩ := hpeer socket message hanswer.symm
      rw [hid]
      exact ⟨hmessage, hsocket ▸ hrelayed⟩

theorem complete_settle (h : Complete s) (requestId : String) (answer : Answer) :
    Complete (s.settle requestId answer) := by
  intro entry hentry
  by_cases hid : entry.1 = requestId
  · right
    simp [Session.settle, hid]
  · rcases h entry hentry with hpending | hsettled
    · left
      obtain ⟨other, hother, heq⟩ := List.mem_map.mp hpending
      exact List.mem_map.mpr ⟨other, List.mem_filter.mpr ⟨hother, by simpa [heq] using hid⟩, heq⟩
    · right
      simp only [Session.settle, List.map_append, List.mem_append]
      exact .inl hsettled

/-- A request that is sent. -/
theorem inv_relay (h : Inv s) {requestId : String} (relay : PendingRelay)
    (hnew : requestId ∉ s.relayed.map (·.1)) :
    Inv { s with
      pending := s.pending ++ [(requestId, relay)]
      timers := s.timers ++ [requestId]
      relayed := s.relayed ++ [(requestId, relay.connector)] } := by
  have hpending : requestId ∉ s.pending.map (·.1) := by
    intro hmem
    obtain ⟨entry, hentry, rfl⟩ := List.mem_map.mp hmem
    exact hnew (List.mem_map_of_mem (h.pendingRelayed entry hentry))
  refine ⟨?_, ?_, ?_, h.settledOnce, ?_, ?_, ?_, ?_⟩
  · rw [List.map_append, List.map_singleton, ← List.concat_eq_append]
    exact h.relayedOnce.concat hnew
  · rw [List.map_append, List.map_singleton, ← List.concat_eq_append]
    exact h.pendingOnce.concat hpending
  · intro entry hentry
    rcases List.mem_append.mp hentry with hentry | hentry
    · exact List.mem_append_left _ (h.pendingRelayed entry hentry)
    · rw [List.mem_singleton.mp hentry]
      exact List.mem_append_right _ (List.mem_singleton.mpr rfl)
  · intro id hid
    rw [List.map_append]
    exact List.mem_append_left _ (h.settledRelayed id hid)
  · intro id hid hmem
    rw [List.map_append] at hmem
    rcases List.mem_append.mp hmem with hmem | hmem
    · exact h.apart id hid hmem
    · have hsame : id = requestId := by simpa using hmem
      exact hnew (hsame ▸ h.settledRelayed id hid)
  · intro id socket message hmem
    obtain ⟨hid, hsocket⟩ := h.peers id socket message hmem
    exact ⟨hid, List.mem_append_left _ hsocket⟩
  · intro id hid
    rw [List.map_append]
    rcases List.mem_append.mp hid with hid | hid
    · exact List.mem_append_left _ (h.timed id hid)
    · rw [List.mem_singleton.mp hid]
      exact List.mem_append_right _ (List.mem_singleton.mpr rfl)

theorem complete_relay (h : Complete s) (requestId : String) (relay : PendingRelay) :
    Complete { s with
      pending := s.pending ++ [(requestId, relay)]
      timers := s.timers ++ [requestId]
      relayed := s.relayed ++ [(requestId, relay.connector)] } := by
  intro entry hentry
  rw [List.map_append]
  rcases List.mem_append.mp hentry with hentry | hentry
  · exact (h entry hentry).imp_left (List.mem_append_left _)
  · rw [List.mem_singleton.mp hentry]
    exact .inl (List.mem_append_right _ (List.mem_singleton.mpr rfl))

theorem settled_settle {requestId id : String} {answer : Answer} (h : id ∈ s.settled.map (·.1)) :
    id ∈ (s.settle requestId answer).settled.map (·.1) := by
  simp only [Session.settle, List.map_append]
  exact List.mem_append_left _ h

/-- The loop over the pending requests of a socket. -/
theorem fail_entries (reason : String) (entries : List (String × PendingRelay)) (h : Inv s)
    (honce : (entries.map (·.1)).Nodup) (hpending : ∀ entry ∈ entries, entry ∈ s.pending) :
    let t := entries.foldl (fun s entry => s.settle entry.1 (unavailableOr entry.2 reason)) s
    Inv t ∧ (Complete s → Complete t) ∧ t.relayed = s.relayed ∧
      (∀ entry ∈ entries, entry.1 ∈ t.settled.map (·.1)) ∧
      ∀ id ∈ s.settled.map (·.1), id ∈ t.settled.map (·.1) := by
  induction entries generalizing s with
  | nil => exact ⟨h, fun hc => hc, rfl, by simp, fun _ hid => hid⟩
  | cons entry entries ih =>
    rw [List.map_cons, List.nodup_cons] at honce
    have hpeer : ∀ socket message, unavailableOr entry.2 reason = .peer socket message →
        message.requestId = entry.1 ∧ entry.2.connector = socket := by
      intro socket message heq
      unfold unavailableOr at heq
      split at heq <;> cases heq
    have hsettled := inv_settle h (hpending entry (by simp)) hpeer
    have hrest : ∀ other ∈ entries, other ∈ (s.settle entry.1 (unavailableOr entry.2 reason)).pending := by
      intro other hother
      refine List.mem_filter.mpr ⟨hpending other (by simp [hother]), ?_⟩
      have hne : other.1 ≠ entry.1 := fun heq => honce.1 (heq ▸ List.mem_map_of_mem hother)
      simpa using hne
    obtain ⟨hinv, hcomplete, hrelayed, hall, hmono⟩ := ih hsettled honce.2 hrest
    refine ⟨hinv, fun hc => hcomplete (complete_settle hc _ _), hrelayed, ?_, ?_⟩
    · intro other hother
      rcases List.mem_cons.mp hother with rfl | hother
      · exact hmono _ (by simp [Session.settle])
      · exact hall other hother
    · intro id hid
      exact hmono id (settled_settle hid)

theorem fail_pending (h : Inv s) (socket : ℕ) (reason : String) :
    let t := failPendingRequestsForConnector s socket reason
    Inv t ∧ (Complete s → Complete t) ∧ t.relayed = s.relayed ∧
      (∀ entry ∈ s.pending, entry.2.connector = socket → entry.1 ∈ t.settled.map (·.1)) ∧
      ∀ id ∈ s.settled.map (·.1), id ∈ t.settled.map (·.1) := by
  obtain ⟨hinv, hcomplete, hrelayed, hall, hmono⟩ := fail_entries reason
    (s.pending.filter (·.2.connector = socket)) h (h.pendingOnce.sublist ((List.filter_sublist).map _))
    (fun entry hentry => List.mem_of_mem_filter hentry)
  refine ⟨hinv, hcomplete, hrelayed, ?_, hmono⟩
  intro entry hentry hsocket
  exact hall entry (List.mem_filter.mpr ⟨hentry, by simpa using hsocket⟩)

end Invariant

section Steps

variable {role : ℕ → Role} {headerValue : String → Bool} {s : Session}

theorem cancel_step (role : ℕ → Role) (h : Inv s) (requestId : String) (answer : Role → Answer)
    (hanswer : ∀ r socket message, answer r ≠ .peer socket message) :
    Inv (cancel role s requestId answer) ∧ (Complete s → Complete (cancel role s requestId answer)) := by
  unfold cancel
  cases hlookup : s.lookup requestId with
  | none => exact ⟨h, fun hc => hc⟩
  | some relay =>
    exact ⟨inv_settle h (lookup_mem hlookup) fun socket message heq => absurd heq (hanswer _ socket message),
      fun hc => complete_settle hc _ _⟩

theorem receive_step (h : Inv s) (socket : ℕ) (message : HttpResponseMessage) :
    Inv (receive role headerValue s socket message) ∧
      (Answerable headerValue s (.message socket message) → Complete s →
        Complete (receive role headerValue s socket message)) := by
  unfold receive Answerable
  cases hlookup : s.lookup message.requestId with
  | none => exact ⟨h, fun _ hc => hc⟩
  | some relay =>
    have hpending := lookup_mem hlookup
    simp only
    split
    · exact ⟨h, fun _ hc => hc⟩
    rename_i hsocket
    have hsocket : relay.connector = socket := by simpa using hsocket
    split
    · exact ⟨inv_settle h hpending (fun _ _ heq => by cases heq), fun _ hc => complete_settle hc _ _⟩
    rename_i hsmall
    split
    · refine ⟨inv_settle h hpending ?_, fun _ hc => complete_settle hc _ _⟩
      intro socket' message' heq
      cases heq
      exact ⟨rfl, hsocket⟩
    · rename_i hbad
      refine ⟨inv_take h _, ?_⟩
      intro hanswerable _
      rcases hanswerable (by simp [hlookup, hsocket]) with hlarge | hgood
      · exact absurd hlarge hsmall
      · exact absurd hgood hbad

attribute [local simp] step in
theorem inv_step {e : Event} (h : Inv s) (hfresh : Fresh s e) :
    Inv (step role headerValue s e) ∧
      (Answerable headerValue s e → Complete s → Complete (step role headerValue s e)) := by
  cases e with
  | relay requestId socket unavailableResponse sendFails =>
    have hrelay := inv_relay h ⟨socket, unavailableResponse⟩ hfresh
    simp only [step]
    split
    · refine ⟨inv_settle hrelay (List.mem_append_right _ (List.mem_singleton.mpr rfl)) ?_, ?_⟩
      · intro socket' message heq
        unfold unavailableOr at heq
        split at heq <;> cases heq
      · exact fun _ hc => complete_settle (complete_relay hc requestId ⟨socket, unavailableResponse⟩) _ _
    · exact ⟨hrelay, fun _ hc => complete_relay hc requestId ⟨socket, unavailableResponse⟩⟩
  | message socket message => exact receive_step h socket message
  | timeout requestId =>
    simp only [step]
    split
    · obtain ⟨hinv, hc⟩ := cancel_step role h requestId
        (fun role => .error (roleName role ++ "_timeout") 504) (fun _ _ _ heq => by cases heq)
      exact ⟨hinv, fun _ => hc⟩
    · exact ⟨h, fun _ hc => hc⟩
  | abort requestId =>
    obtain ⟨hinv, hc⟩ := cancel_step role h requestId (fun _ => .clientDisconnected)
      (fun _ _ _ heq => by cases heq)
    exact ⟨hinv, fun _ => hc⟩
  | close socket =>
    obtain ⟨hinv, hc, _⟩ := fail_pending h socket "connector_disconnected"
    exact ⟨hinv, fun _ => hc⟩
  | error socket =>
    obtain ⟨hinv, hc, _⟩ := fail_pending h socket "connector_error"
    exact ⟨hinv, fun _ => hc⟩

/-- The end of a socket settles what was relayed over it. -/
theorem fail_settles (h : Inv s) (hcomplete : Complete s) {requestId : String} {socket : ℕ}
    (hrelayed : (requestId, socket) ∈ s.relayed) (reason : String) :
    requestId ∈ (failPendingRequestsForConnector s socket reason).settled.map (·.1) := by
  obtain ⟨_, _, _, hall, hmono⟩ := fail_pending h socket reason
  rcases hcomplete _ hrelayed with hpending | hsettled
  · obtain ⟨entry, hentry, hid⟩ := List.mem_map.mp hpending
    have hsame := List.inj_on_of_nodup_map h.relayedOnce (h.pendingRelayed entry hentry) hrelayed hid
    have := hall entry hentry (congrArg Prod.snd hsame)
    rw [show entry.1 = requestId from hid] at this
    exact this
  · exact hmono requestId hsettled

theorem cancel_settles (role : ℕ → Role) {requestId : String} (answer : Role → Answer)
    (hpending : requestId ∈ s.pending.map (·.1)) :
    requestId ∈ (cancel role s requestId answer).settled.map (·.1) := by
  unfold cancel
  cases hlookup : s.lookup requestId with
  | none => exact absurd hpending (lookup_none hlookup)
  | some relay => simp [Session.settle]

end Steps

/-- Whatever messages arrive, a request is settled at most once, by its own
peer if by a peer, and is not pending afterwards. If every response to a
pending request can be made an answer, the end of its socket and its timeout
settle it. -/
theorem relayed_settled (role : ℕ → Role) (headerValue : String → Bool) (s : Session)
    (h : Reaches (step role headerValue) (fun s e => Fresh s e ∧ Answerable headerValue s e)
      Session.initial s) :
    (∀ requestId, (s.settled.map (·.1)).count requestId ≤ 1) ∧
    (∀ requestId socket message, (requestId, Answer.peer socket message) ∈ s.settled →
      message.requestId = requestId ∧ (requestId, socket) ∈ s.relayed) ∧
    (∀ requestId ∈ s.settled.map (·.1), requestId ∉ s.pending.map (·.1)) ∧
    (∀ requestId socket, (requestId, socket) ∈ s.relayed →
      requestId ∈ (step role headerValue s (.close socket)).settled.map (·.1) ∧
      requestId ∈ (step role headerValue s (.error socket)).settled.map (·.1)) ∧
    ∀ requestId ∈ s.timers,
      requestId ∈ (step role headerValue s (.timeout requestId)).settled.map (·.1) := by
  have hstart : Inv Session.initial ∧ Complete Session.initial :=
    ⟨inv_initial, by simp [Complete, Session.initial]⟩
  have hboth : ∀ s e, Inv s ∧ Complete s → Fresh s e ∧ Answerable headerValue s e →
      Inv (step role headerValue s e) ∧ Complete (step role headerValue s e) := by
    intro s e hs he
    obtain ⟨hinv, hcomplete⟩ := inv_step hs.1 he.1
    exact ⟨hinv, hcomplete he.2 hs.2⟩
  obtain ⟨hinv, hcomplete⟩ := h.invariant (I := fun s => Inv s ∧ Complete s) hstart hboth
  refine ⟨fun id => List.nodup_iff_count_le_one.mp hinv.settledOnce id, hinv.peers, hinv.apart, ?_, ?_⟩
  · intro requestId socket hrelayed
    exact ⟨fail_settles hinv hcomplete hrelayed _, fail_settles hinv hcomplete hrelayed _⟩
  · intro requestId htimer
    simp only [step, if_pos htimer]
    exact cancel_settles role _ (hinv.timed requestId htimer)

section Samples

/-- A response the parser accepts. -/
def continueMessage : HttpResponseMessage := ⟨"r1", 100, [], "", by decide⟩

/-- A response with status 100 leaves its request without an answer, also
when the socket ends. -/
theorem unanswerable_request_lost :
    ∃ s, Reaches (step (fun _ => .connector) (fun _ => true)) Fresh Session.initial s ∧
      ("r1", 0) ∈ s.relayed ∧ "r1" ∉ s.timers ∧
      (step (fun _ => .connector) (fun _ => true) s (.close 0)).settled = [] := by
  let events := [Event.relay "r1" 0 none false, .message 0 continueMessage]
  let s := events.foldl (step (fun _ => .connector) (fun _ => true)) Session.initial
  have hrun : Admitted (step (fun _ => .connector) (fun _ => true)) Fresh Session.initial events ∧
      ("r1", 0) ∈ s.relayed ∧ "r1" ∉ s.timers ∧
      (step (fun _ => .connector) (fun _ => true) s (.close 0)).settled = [] := by decide +kernel
  exact ⟨s, Reaches.events .refl hrun.1 rfl, hrun.2⟩

def okMessage : HttpResponseMessage := ⟨"r1", 200, [("content-type", "text/plain")], "done", by decide⟩

theorem relayed_settled_sample :
    ∃ s, Reaches (step (fun _ => .connector) (fun _ => true))
        (fun s e => Fresh s e ∧ Answerable (fun _ => true) s e) Session.initial s ∧
      s.settled = [("r1", .peer 0 okMessage)] ∧
      "r2" ∈ (step (fun _ => .connector) (fun _ => true) s (.close 1)).settled.map (·.1) := by
  let events := [Event.relay "r1" 0 none false, .relay "r2" 1 none false, .message 1 okMessage,
    .message 0 okMessage, .message 0 okMessage]
  let s := events.foldl (step (fun _ => .connector) (fun _ => true)) Session.initial
  have hrun : Admitted (step (fun _ => .connector) (fun _ => true))
        (fun s e => Fresh s e ∧ Answerable (fun _ => true) s e) Session.initial events ∧
      s.settled = [("r1", .peer 0 okMessage)] ∧ ("r2", 1) ∈ s.relayed := by decide +kernel
  have h : Reaches (step (fun _ => .connector) (fun _ => true))
      (fun s e => Fresh s e ∧ Answerable (fun _ => true) s e) Session.initial s :=
        Reaches.events .refl hrun.1 rfl
  exact ⟨s, h, hrun.2.1, ((relayed_settled _ _ _ h).2.2.2.1 "r2" 1 hrun.2.2).1⟩

end Samples

end AccessStack.Relay
