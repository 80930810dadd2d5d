import AccessStack.Oracle.Channel

/-!
# Every request is answered once

A request waits until it is answered, and the answer with a result is the
response that has just arrived on its socket under its id. A response that
arrives after its request has been answered ends the connection, so that an
honest peer is not punished exactly where its responses arrive in time.
-/

set_option autoImplicit false

namespace AccessStack.Oracle
open AccessStack.Text AccessStack.JsonText AccessStack.Emits AccessStack.Runs

section Allowed

def Allowed (inTime : Prop) (w : State) : Event → Prop
  | .opened scope => ∀ socket ∈ w.sockets, socket.scope = scope → socket.isOpen = false
  | .violated _ _ _ => ¬ inTime
  | .refused call response => call = w.calls ∧ ∀ result, response ≠ .result result
  | .sent pending => pending.call = w.calls ∧ ∀ other ∈ w.pending, other.requestId ≠ pending.requestId
  | .resolved call response =>
    ∃ pending ∈ w.pending, pending.call = call ∧ ∀ result, response = .result result →
      w.log.getLast? = some (.received pending.socket pending.requestId (.success result))
  | _ => True

/-- No scope has two sockets that are open. -/
def Single (w : State) : Prop := ∀ scope, (openSockets w scope).length ≤ 1

/-- The requests that wait have different ids. -/
def Unique (w : State) : Prop := w.pending.Pairwise fun one other => one.requestId ≠ other.requestId

/-- A message is a response of the size limit to a request that is expected. -/
def Responds (expected : ℕ → String → Bool) (w : State) : Input → Prop
  | .message socket (.text bytes value) => bytes ≤ oracleChannelMaxFrameBytes ∧ (scopeOf w socket).isSome ∧
      ((value.bind parseOracleRpcResponse).any fun frame => expected socket frame.requestId) = true
  | .message _ .binary => False
  | _ => True

instance (expected : ℕ → String → Bool) (w : State)
    (input : Input) : Decidable (Responds expected w input) := by
  unfold Responds
  split <;> infer_instance

def waitsOn (w : State) (socket : ℕ) (requestId : String) : Bool :=
  w.pending.any fun pending => pending.socket = socket && pending.requestId = requestId

/-- A message is a response to a request that still waits on its socket. -/
abbrev InTime (w : State) (input : Input) : Prop := Responds (waitsOn w) w input

variable {inTime : Prop} {w w' : State} {e : Event}

theorem finish_meets {pending : PendingRpc} {response : Response}
    (h : ∀ result, response = .result result →
      w.log.getLast? = some (.received pending.socket pending.requestId (.success result))) :
    Meets (Allowed inTime) (finish pending response) w fun _ w' => w'.sockets = w.sockets := by
  unfold finish
  rw [meets_bind, meets_look]
  refine meets_ite.mpr ⟨fun hmem => ?_, fun _ => ?_⟩
  · rw [meets_emit]
    exact ⟨⟨pending, hmem, rfl, h⟩, rfl⟩
  · exact meets_pure.mpr rfl

theorem failEach_meets (entries : List PendingRpc) (w : State) :
    Meets (Allowed inTime) (failEach entries) w fun _ w' => w'.sockets = w.sockets := by
  induction entries generalizing w with
  | nil => exact meets_pure.mpr rfl
  | cons pending rest ih =>
    rw [failEach, meets_bind]
    apply (finish_meets (fun result hresult => by rw [oracleUnavailable] at hresult; cases hresult)).mono
    intro _ w₁ hkept
    exact (ih w₁).mono fun _ _ hrest => hrest.trans hkept

theorem failPendingForSocket_meets (socket : ℕ) (w : State) :
    Meets (Allowed inTime) (failPendingForSocket socket) w fun _ w' => w'.sockets = w.sockets := by
  unfold failPendingForSocket
  rw [meets_bind, meets_look]
  exact failEach_meets _ w

theorem protocolViolation_meets (socket code : ℕ) (reason : String) (w : State) (h : ¬ inTime) :
    Meets (Allowed inTime) (protocolViolation socket code reason) w fun _ _ => True := by
  unfold protocolViolation
  rw [meets_bind, meets_emit]
  exact ⟨h, (failPendingForSocket_meets socket _).mono fun _ _ _ => trivial⟩

theorem violateEach_meets (sockets : List Socket) (w : State) (h : ¬ inTime) :
    Meets (Allowed inTime) (violateEach sockets) w fun _ _ => True := by
  induction sockets generalizing w with
  | nil => exact meets_pure.mpr trivial
  | cons socket rest ih =>
    rw [violateEach, meets_bind]
    exact (protocolViolation_meets socket.id 1008 _ w h).mono fun _ w₁ _ => ih w₁

end Allowed

section Connections

variable {inTime : Prop} {w w' : State}

/-- The sockets of the ids are closed. -/
def Shut (ids : List ℕ) (w : State) : Prop := ∀ socket ∈ w.sockets, socket.id ∈ ids → socket.isOpen = false

theorem shut_shut {ids : List ℕ} (h : Shut ids w) (id : ℕ) : Shut (id :: ids) (w.shut id) := by
  intro socket hmem hid
  obtain ⟨before, hbefore, rfl⟩ := List.mem_map.mp hmem
  split_ifs with heq
  · rfl
  · rw [if_neg heq] at hid
    exact h before hbefore ((List.mem_cons.mp hid).resolve_left heq)

/-- The sockets are the same but for those that have been closed. -/
def Labels (w : State) : List (ℕ × Scope) := w.sockets.map fun socket => (socket.id, socket.scope)

theorem labels_shut (w : State) (id : ℕ) : Labels (w.shut id) = Labels w := by
  rw [Labels, State.shut, List.map_map, Labels]
  apply List.map_congr_left
  intro socket _
  simp only [Function.comp]
  split_ifs <;> rfl

theorem replaceEach_meets (sockets : List Socket) (failing : Option ℕ) (done : List ℕ) (w : State)
    (h : Shut done w) :
    Meets (Allowed inTime) (replaceEach sockets failing) w fun replaced w' => Labels w' = Labels w ∧
      (replaced = true → Shut (sockets.map (·.id) ++ done) w') := by
  induction sockets generalizing failing done w with
  | nil => exact meets_pure.mpr ⟨rfl, fun _ => h⟩
  | cons previous rest ih =>
    rw [replaceEach, meets_bind]
    apply (failPendingForSocket_meets previous.id w).mono
    intro _ w₁ hkept
    have hlabels : Labels w₁ = Labels w := by rw [Labels, hkept, Labels]
    refine meets_ite.mpr ⟨fun _ => meets_pure.mpr ⟨hlabels, nofun⟩, fun _ => ?_⟩
    rw [meets_bind, meets_emit]
    refine ⟨trivial, ?_⟩
    have hshut : Shut done w₁ := by
      intro socket hmem
      rw [hkept] at hmem
      exact h socket hmem
    have hafter : Shut (previous.id :: done) (w₁.after (.closed previous.id 1012)) :=
      shut_shut hshut previous.id
    apply (ih (failing.map (· - 1)) (previous.id :: done) _ hafter).mono
    rintro replaced w₂ ⟨hlater, hdone⟩
    refine ⟨hlater.trans ((labels_shut w₁ previous.id).trans hlabels), fun hreplaced => ?_⟩
    intro socket hmem hid
    apply hdone hreplaced socket hmem
    simp only [List.map_cons, List.cons_append, List.mem_cons, List.mem_append] at hid ⊢
    tauto

theorem connectOracle_meets (scope : Scope) (failing : Option ℕ) (w : State) :
    Meets (Allowed inTime) (connectOracle scope failing) w fun _ _ => True := by
  unfold connectOracle
  rw [meets_bind, meets_look, meets_bind]
  have hnone : Shut [] w := fun _ _ hid => by cases hid
  apply (replaceEach_meets (w.sockets.filter (·.scope = scope)) failing [] w hnone).mono
  rintro replaced w₁ ⟨hlabels, hshut⟩
  refine meets_ite.mpr ⟨fun hreplaced => ?_, fun _ => meets_pure.mpr trivial⟩
  rw [meets_emit]
  refine ⟨fun socket hmem hscope => ?_, trivial⟩
  apply hshut hreplaced socket hmem
  rw [List.append_nil]
  have hlabel : (socket.id, socket.scope) ∈ Labels w₁ := List.mem_map_of_mem hmem
  rw [hlabels] at hlabel
  obtain ⟨before, hbefore, heq⟩ := List.mem_map.mp hlabel
  obtain ⟨hid, hsame⟩ := Prod.mk.inj heq
  rw [← hid]
  exact List.mem_map_of_mem (List.mem_filter.mpr ⟨hbefore, decide_eq_true (hsame.trans hscope)⟩)

end Connections

section Handlers

variable {contract : Contract} {inTime : Prop}

theorem find_pending {entries : List PendingRpc} {p : PendingRpc → Bool} {pending : PendingRpc}
    (h : entries.find? p = some pending) : pending ∈ entries ∧ p pending = true :=
  ⟨List.mem_of_find?_eq_some h, List.find?_some h⟩

theorem find_unique {entries : List PendingRpc} {pending : PendingRpc} (hmem : pending ∈ entries)
    (h : entries.Pairwise fun one other => one.requestId ≠ other.requestId) :
    entries.find? (·.requestId = pending.requestId) = some pending := by
  induction entries with
  | nil => cases hmem
  | cons first rest ih =>
    obtain ⟨hfirst, hrest⟩ := List.pairwise_cons.mp h
    rcases List.mem_cons.mp hmem with rfl | hlater
    · exact List.find?_cons_of_pos (decide_eq_true rfl)
    · rw [List.find?_cons_of_neg (by simpa using hfirst pending hlater)]
      exact ih hlater hrest

/-- A result is the one that has just been received. -/
theorem responseTo_result {scope : Scope} {pending : PendingRpc} {outcome : Outcome} {result : Json}
    (h : responseTo contract scope pending outcome = .result result) : outcome = .success result := by
  cases outcome with
  | error errorCode => cases h
  | success found =>
    rw [responseTo] at h
    split_ifs at h
    cases h
    rfl

theorem webSocketMessage_meets (socket : ℕ) (message : Message) (w : State)
    (htime : inTime → InTime w (.message socket message)) (hunique : inTime → Unique w) :
    Meets (Allowed inTime) (webSocketMessage contract socket message) w fun _ _ => True := by
  unfold webSocketMessage
  cases message with
  | binary => exact protocolViolation_meets socket 1003 _ w htime
  | text bytes value =>
    refine meets_ite.mpr ⟨fun hlarge => ?_, fun hsmall => ?_⟩
    · apply protocolViolation_meets
      intro h
      exact absurd (htime h).1 (Nat.not_le.mpr hlarge)
    · rw [meets_bind, meets_look]
      cases hscope : scopeOf w socket with
      | none =>
        apply protocolViolation_meets
        intro h
        have hattached := (htime h).2.1
        rw [hscope] at hattached
        cases hattached
      | some scope =>
        simp only
        cases hframe : value.bind parseOracleRpcResponse with
        | none =>
          apply protocolViolation_meets
          intro h
          have hexpected := (htime h).2.2
          rw [hframe] at hexpected
          cases hexpected
        | some frame =>
          simp only
          rw [meets_bind, meets_emit]
          refine ⟨trivial, ?_⟩
          rw [meets_bind, meets_look]
          cases hfound : ((w.after (.received socket frame.requestId frame.outcome)).pending.find?
              (·.requestId = frame.requestId)).filter (·.socket = socket) with
          | none =>
            apply protocolViolation_meets
            intro h
            have hexpected := (htime h).2.2
            rw [hframe, Option.any_some, waitsOn, List.any_eq_true] at hexpected
            obtain ⟨pending, hpending, hboth⟩ := hexpected
            rw [Bool.and_eq_true, decide_eq_true_eq, decide_eq_true_eq] at hboth
            have hfirst := find_unique hpending (hunique h)
            rw [hboth.2] at hfirst
            rw [show (w.after (.received socket frame.requestId frame.outcome)).pending = w.pending from rfl,
              hfirst, Option.filter_some, if_pos (decide_eq_true hboth.1)] at hfound
            cases hfound
          | some pending =>
            obtain ⟨hpending, hsocket⟩ := Option.filter_eq_some_iff.mp hfound
            obtain ⟨-, hid⟩ := find_pending hpending
            apply (finish_meets ?_).mono
            · exact fun _ _ _ => trivial
            · intro result hresult
              rw [State.after, List.getLast?_concat, of_decide_eq_true hsocket, of_decide_eq_true hid,
                responseTo_result hresult]

theorem refuse_meets {error : String} {status : ℕ} (w : State) :
    Meets (Allowed inTime) (refuse (.error error status)) w fun _ _ => True := by
  unfold refuse
  rw [meets_bind, meets_look, meets_emit]
  exact ⟨⟨rfl, nofun⟩, trivial⟩

theorem dispatchRpc_meets (scope : Scope) (command : Command) (socket : Socket) (requestId : String)
    (sendFails : Bool) (w : State) :
    Meets (Allowed inTime) (dispatchRpc contract scope command socket requestId sendFails) w
      fun _ _ => True := by
  unfold dispatchRpc
  rw [meets_bind, meets_look]
  refine meets_ite.mpr ⟨fun _ => refuse_meets w, fun _ => ?_⟩
  rw [meets_bind, meets_look]
  refine meets_ite.mpr ⟨fun _ => refuse_meets w, fun hnew => ?_⟩
  refine meets_ite.mpr ⟨fun _ => refuse_meets w, fun _ => ?_⟩
  simp only [Bool.or_eq_true, Bool.not_eq_true', List.any_eq_true, decide_eq_true_eq, not_or,
    not_exists, not_and] at hnew
  rw [meets_bind, meets_look, meets_bind, meets_emit]
  refine ⟨⟨rfl, fun other hother => hnew.2 other hother⟩, ?_⟩
  refine meets_ite.mpr ⟨fun _ => ?_, fun _ => meets_pure.mpr trivial⟩
  apply (finish_meets ?_).mono fun _ _ _ => trivial
  intro result hresult
  rw [oracleUnavailable] at hresult
  cases hresult

theorem handleRpc_meets (scope : Scope) (request : RpcRequest) (requestId : String)
    (sendFails : Bool) (w : State) (hsingle : inTime → Single w) :
    Meets (Allowed inTime) (handleRpc contract scope request requestId sendFails) w fun _ _ => True := by
  unfold handleRpc
  cases hparse : parseRpc contract scope request with
  | error response =>
    have herror : ∃ error status, response = .error error status := by
      unfold parseRpc at hparse
      split_ifs at hparse <;> try exact ⟨_, _, (Except.error.inj hparse).symm⟩
      cases hbody : request.body with
      | tooLarge =>
        rw [hbody] at hparse
        exact ⟨_, _, (Except.error.inj hparse).symm⟩
      | unreadable =>
        rw [hbody] at hparse
        exact ⟨_, _, (Except.error.inj hparse).symm⟩
      | text value =>
        simp only [hbody] at hparse
        cases hcommand : value.bind (contract.parseCommand scope) with
        | none =>
          rw [hcommand] at hparse
          exact ⟨_, _, (Except.error.inj hparse).symm⟩
        | some command =>
          rw [hcommand] at hparse
          cases hparse
    obtain ⟨error, status, rfl⟩ := herror
    exact refuse_meets w
  | ok command =>
    simp only
    rw [meets_bind]
    have hactive : Meets (Allowed inTime) (getActiveOracleSocket scope) w fun _ _ => True := by
      unfold getActiveOracleSocket
      rw [meets_bind, meets_look]
      split
      · exact meets_pure.mpr trivial
      · exact meets_pure.mpr trivial
      · rename_i hnotOne hnotNone
        rw [meets_bind]
        apply (violateEach_meets _ w ?_).mono
        · exact fun _ _ _ => meets_pure.mpr trivial
        · intro h
          have hle := hsingle h scope
          cases hopen : openSockets w scope with
          | nil => exact hnotNone hopen
          | cons first rest =>
            cases rest with
            | nil => exact hnotOne first hopen
            | cons second rest =>
              rw [hopen, List.length_cons, List.length_cons] at hle
              omega
    apply hactive.mono
    intro active w₁ _
    cases active with
    | none => exact refuse_meets w₁
    | some socket => exact dispatchRpc_meets scope command socket requestId sendFails w₁

theorem fireTimer_meets (call : ℕ) (w : State) :
    Meets (Allowed inTime) (fireTimer call) w fun _ _ => True := by
  unfold fireTimer
  rw [meets_bind, meets_look]
  cases w.pending.find? (·.call = call) with
  | none => exact meets_pure.mpr trivial
  | some pending => exact (finish_meets fun _ hresult => by cases hresult).mono fun _ _ _ => trivial

/-- Every event of a handler is allowed. -/
theorem handle_meets (w : State) (input : Input) (htime : inTime → InTime w input)
    (hsingle : inTime → Single w) (hunique : inTime → Unique w) :
    Meets (Allowed inTime) (handle contract input) w fun _ _ => True := by
  cases input with
  | connect scope failing => exact connectOracle_meets scope failing w
  | rpc scope request requestId sendFails => exact handleRpc_meets scope request requestId sendFails w hsingle
  | message socket message => exact webSocketMessage_meets socket message w htime hunique
  | timeout call => exact fireTimer_meets call w
  | ended socket => exact (failPendingForSocket_meets socket w).mono fun _ _ _ => trivial
  | lost socket => exact meets_emit.mpr ⟨trivial, trivial⟩
  | detached socket => exact meets_emit.mpr ⟨trivial, trivial⟩

end Handlers

section Calls

variable {contract : Contract} {α : Type}

/-- A program takes a number of calls, each of which it answers or sends. -/
def Takes (n : ℕ) (x : Handler α) : Prop := ∀ w, Meets (fun _ _ => True) x w fun _ w' =>
    w'.calls = w.calls + n

theorem takes_finish (pending : PendingRpc) (response : Response) : Takes 0 (finish pending response) := by
  intro w
  unfold finish
  rw [meets_bind, meets_look]
  exact meets_ite.mpr ⟨fun _ => meets_emit.mpr ⟨trivial, rfl⟩, fun _ => meets_pure.mpr rfl⟩

theorem takes_failEach (entries : List PendingRpc) : Takes 0 (failEach entries) := by
  induction entries with
  | nil => exact fun w => meets_pure.mpr rfl
  | cons pending rest ih =>
    intro w
    rw [failEach, meets_bind]
    apply (takes_finish pending _ w).mono
    intro _ w₁ hfirst
    exact (ih w₁).mono fun _ _ hrest => hrest.trans hfirst

theorem takes_failPending (socket : ℕ) : Takes 0 (failPendingForSocket socket) := by
  intro w
  unfold failPendingForSocket
  rw [meets_bind, meets_look]
  exact takes_failEach _ w

theorem takes_violation (socket code : ℕ) (reason : String) :
    Takes 0 (protocolViolation socket code reason) := by
  intro w
  unfold protocolViolation
  rw [meets_bind, meets_emit]
  exact ⟨trivial, takes_failPending socket _⟩

theorem takes_violateEach (sockets : List Socket) : Takes 0 (violateEach sockets) := by
  induction sockets with
  | nil => exact fun w => meets_pure.mpr rfl
  | cons socket rest ih =>
    intro w
    rw [violateEach, meets_bind]
    apply (takes_violation socket.id 1008 _ w).mono
    intro _ w₁ hfirst
    exact (ih w₁).mono fun _ _ hrest => hrest.trans hfirst

theorem takes_replaceEach (sockets : List Socket) (failing : Option ℕ) :
    Takes 0 (replaceEach sockets failing) := by
  induction sockets generalizing failing with
  | nil => exact fun w => meets_pure.mpr rfl
  | cons previous rest ih =>
    intro w
    rw [replaceEach, meets_bind]
    apply (takes_failPending previous.id w).mono
    intro _ w₁ hfirst
    refine meets_ite.mpr ⟨fun _ => meets_pure.mpr hfirst, fun _ => ?_⟩
    rw [meets_bind, meets_emit]
    exact ⟨trivial, (ih _ _).mono fun _ _ hrest => hrest.trans hfirst⟩

theorem takes_connect (scope : Scope) (failing : Option ℕ) : Takes 0 (connectOracle scope failing) := by
  intro w
  unfold connectOracle
  rw [meets_bind, meets_look, meets_bind]
  apply (takes_replaceEach _ failing w).mono
  intro replaced w₁ hreplaced
  exact meets_ite.mpr ⟨fun _ => meets_emit.mpr ⟨trivial, hreplaced⟩, fun _ => meets_pure.mpr hreplaced⟩

theorem takes_message (socket : ℕ) (message : Message) :
    Takes 0 (webSocketMessage contract socket message) := by
  intro w
  unfold webSocketMessage
  cases message with
  | binary => exact takes_violation socket 1003 _ w
  | text bytes value =>
    refine meets_ite.mpr ⟨fun _ => takes_violation socket 1009 _ w, fun _ => ?_⟩
    rw [meets_bind, meets_look]
    cases scopeOf w socket with
    | none => exact takes_violation socket 1008 _ w
    | some scope =>
      cases value.bind parseOracleRpcResponse with
      | none => exact takes_violation socket 1008 _ w
      | some frame =>
        simp only
        rw [meets_bind, meets_emit]
        refine ⟨trivial, ?_⟩
        rw [meets_bind, meets_look]
        split
        · exact takes_violation socket 1008 _ _
        · exact takes_finish _ _ _

theorem takes_timer (call : ℕ) : Takes 0 (fireTimer call) := by
  intro w
  unfold fireTimer
  rw [meets_bind, meets_look]
  split
  · exact meets_pure.mpr rfl
  · exact takes_finish _ _ w

theorem takes_refuse (response : Response) : Takes 1 (refuse response) := by
  intro w
  unfold refuse
  rw [meets_bind, meets_look, meets_emit]
  exact ⟨trivial, rfl⟩

theorem takes_dispatch (scope : Scope) (command : Command) (socket : Socket) (requestId : String)
    (sendFails : Bool) :
    Takes 1 (dispatchRpc contract scope command socket requestId sendFails) := by
  intro w
  unfold dispatchRpc
  rw [meets_bind, meets_look]
  refine meets_ite.mpr ⟨fun _ => takes_refuse _ w, fun _ => ?_⟩
  rw [meets_bind, meets_look]
  refine meets_ite.mpr ⟨fun _ => takes_refuse _ w, fun _ => ?_⟩
  refine meets_ite.mpr ⟨fun _ => takes_refuse _ w, fun _ => ?_⟩
  rw [meets_bind, meets_look, meets_bind, meets_emit]
  refine ⟨trivial, ?_⟩
  exact meets_ite.mpr ⟨fun _ => takes_finish _ _ _, fun _ => meets_pure.mpr rfl⟩

theorem takes_rpc (scope : Scope) (request : RpcRequest) (requestId : String) (sendFails : Bool) :
    Takes 1 (handleRpc contract scope request requestId sendFails) := by
  intro w
  unfold handleRpc
  cases parseRpc contract scope request with
  | error response => exact takes_refuse response w
  | ok command =>
    simp only
    rw [meets_bind]
    have hactive : Takes 0 (getActiveOracleSocket scope) := by
      intro w
      unfold getActiveOracleSocket
      rw [meets_bind, meets_look]
      split
      · exact meets_pure.mpr rfl
      · exact meets_pure.mpr rfl
      · rw [meets_bind]
        exact (takes_violateEach _ w).mono fun _ _ hkept => meets_pure.mpr hkept
    apply (hactive w).mono
    intro active w₁ hkept
    cases active with
    | none => exact (takes_refuse _ w₁).mono fun _ _ htaken => by rw [htaken, hkept, Nat.add_zero]
    | some socket =>
      exact (takes_dispatch scope command socket requestId sendFails w₁).mono fun _ _ htaken => by
        rw [htaken, hkept, Nat.add_zero]

def isRpc : Input → Bool
  | .rpc _ _ _ _ => true
  | _ => false

/-- A call begins with each request and with nothing else. -/
theorem calls_step (w : State) (input : Input) :
    (step contract w input).calls = w.calls + if isRpc input then 1 else 0 := by
  cases input with
  | connect scope failing => exact (takes_connect scope failing w).2
  | rpc scope request requestId sendFails => exact (takes_rpc scope request requestId sendFails w).2
  | message socket message => exact (takes_message socket message w).2
  | timeout call => exact (takes_timer call w).2
  | ended socket => exact (takes_failPending socket w).2
  | lost socket => rfl
  | detached socket => rfl

end Calls

section Accounts

variable {contract : Contract} {inTime : Prop} {w w' : State} {e : Event}

/-- The call that an event answers. -/
def callOf : Event → Option ℕ
  | .refused call _ => some call
  | .resolved call _ => some call
  | _ => none

def answered (log : List Event) : List ℕ := log.filterMap callOf

def waiting (s : State) : List ℕ := s.pending.map (·.call)

structure Sound (w : State) : Prop where
  accounted : (answered w.log ++ waiting w).Perm (List.range w.calls)
  sent : ∀ pending ∈ w.pending, .sent pending ∈ w.log
  unrefused : ∀ call result, .refused call (.result result) ∉ w.log
  results : ∀ before call result rest, w.log = before ++ .resolved call (.result result) :: rest →
    ∃ pending, .sent pending ∈ before ∧ pending.call = call ∧
      before.getLast? = some (.received pending.socket pending.requestId (.success result))
  single : Single w
  unique : Unique w

theorem answered_after : answered (w.after e).log = answered w.log ++ (callOf e).toList := by
  rw [answered, State.after, List.filterMap_append]
  cases h : callOf e <;> simp [answered, h]

theorem openSockets_shut (w : State) (id : ℕ) (scope : Scope) :
    (openSockets (w.shut id) scope).length ≤ (openSockets w scope).length := by
  rw [openSockets, openSockets, State.shut]
  induction w.sockets with
  | nil => exact le_rfl
  | cons socket rest ih =>
    rw [List.map_cons, List.filter_cons, List.filter_cons]
    by_cases hid : socket.id = id
    · rw [if_pos hid]
      simp only [Bool.and_false, Bool.false_eq_true, if_false]
      split_ifs
      · exact ih.trans (Nat.le_succ _)
      · exact ih
    · rw [if_neg hid]
      split_ifs
      · exact Nat.succ_le_succ ih
      · exact ih

attribute [local simp] State.apply in
theorem single_step (h : Single w) (he : Allowed inTime w e) : Single (w.after e) := by
  intro scope
  have hshut : ∀ id, (openSockets (w.shut id) scope).length ≤ 1 := fun id =>
    (openSockets_shut w id scope).trans (h scope)
  cases e with
  | opened added =>
    show (openSockets (w.apply (.opened added)) scope).length ≤ 1
    rw [openSockets, State.apply, List.filter_append]
    by_cases hscope : added = scope
    · have hnone : w.sockets.filter (fun socket => socket.scope = scope && socket.isOpen) = [] := by
        rw [List.filter_eq_nil_iff]
        intro socket hmem hboth
        rw [Bool.and_eq_true, decide_eq_true_eq] at hboth
        rw [he socket hmem (hboth.1.trans hscope.symm)] at hboth
        cases hboth.2
      rw [hnone, List.nil_append]
      exact List.length_filter_le _ _
    · rw [List.filter_cons_of_neg (by simp [hscope]), List.filter_nil, List.append_nil]
      exact h scope
  | closed socket code => exact hshut socket
  | violated socket code reason => exact hshut socket
  | lost socket => exact hshut socket
  | detached socket =>
    show (openSockets (w.apply (.detached socket)) scope).length ≤ 1
    rw [openSockets, State.apply, List.filter_comm]
    exact (List.length_filter_le _ _).trans (h scope)
  | _ => exact h scope

theorem waiting_filter (pendings : List PendingRpc) (call : ℕ) :
    (pendings.filter fun pending => pending.call ≠ call).map (·.call) =
      (pendings.map (·.call)).filter (· ≠ call) := by
  rw [List.filter_map]
  rfl

theorem accounted_step (h : Sound w) (he : Allowed inTime w e) :
    (answered (w.after e).log ++ waiting (w.after e)).Perm (List.range (w.after e).calls) := by
  have hnodup : (waiting w).Nodup := (h.accounted.nodup_iff.mpr List.nodup_range).of_append_right
  rw [answered_after]
  cases e with
  | refused call response =>
    obtain ⟨rfl, -⟩ := he
    show (answered w.log ++ [w.calls] ++ waiting w).Perm (List.range (w.calls+1))
    rw [List.range_succ, List.append_assoc]
    have hswap : (answered w.log ++ ([w.calls] ++ waiting w)).Perm
        (answered w.log ++ (waiting w ++ [w.calls])) :=
      List.perm_append_comm.append_left _
    refine hswap.trans ?_
    rw [← List.append_assoc]
    exact h.accounted.append_right _
  | sent pending =>
    obtain ⟨hcall, -⟩ := he
    show (answered w.log ++ [] ++ (w.pending ++ [pending]).map PendingRpc.call).Perm (List.range (w.calls+1))
    rw [List.append_nil, List.map_append, ← List.append_assoc, List.range_succ, List.map_singleton, hcall]
    exact h.accounted.append_right _
  | resolved call response =>
    obtain ⟨pending, hmem, rfl, -⟩ := he
    show (answered w.log ++ [pending.call] ++
      (w.pending.filter fun found => found.call ≠ pending.call).map (·.call)).Perm (List.range w.calls)
    rw [waiting_filter, List.append_assoc, List.singleton_append]
    have hwaiting : pending.call ∈ waiting w := List.mem_map_of_mem hmem
    have herase : (waiting w).Perm (pending.call :: (waiting w).filter (· ≠ pending.call)) := by
      have hfilter : (waiting w).erase pending.call = (waiting w).filter (· ≠ pending.call) := by
        rw [hnodup.erase_eq_filter]
        apply List.filter_congr
        intro call _
        by_cases heq : call = pending.call <;> simp [heq]
      rw [← hfilter]
      exact List.perm_cons_erase hwaiting
    exact (herase.symm.append_left _).trans h.accounted
  | _ =>
    show (answered w.log ++ [] ++ waiting w).Perm (List.range w.calls)
    rw [List.append_nil]
    exact h.accounted

theorem sound_step (h : Sound w) (he : Allowed inTime w e) : Sound (w.after e) where
  accounted := accounted_step h he
  sent := by
    have hold : ∀ pending ∈ w.pending, .sent pending ∈ (w.after e).log :=
      fun pending hmem => List.mem_append_left _ (h.sent pending hmem)
    cases e with
    | sent added =>
      intro pending hmem
      rcases List.mem_append.mp hmem with hbefore | hlast
      · exact hold pending hbefore
      · rw [List.mem_singleton.mp hlast]
        exact List.mem_append_right _ List.mem_cons_self
    | resolved call response => exact fun pending hmem => hold pending (List.mem_of_mem_filter hmem)
    | _ => exact hold
  unrefused := by
    intro call result hmem
    rcases List.mem_append.mp hmem with hbefore | hlast
    · exact h.unrefused call result hbefore
    · rw [← List.mem_singleton.mp hlast] at he
      exact he.2 result rfl
  results := by
    intro before call result rest hlog
    cases rest using List.reverseRecOn with
    | nil =>
      obtain ⟨rfl, heq⟩ := List.append_inj' hlog rfl
      cases heq
      obtain ⟨pending, hmem, rfl, hlast⟩ := he
      exact ⟨pending, h.sent pending hmem, rfl, hlast result rfl⟩
    | append_singleton rest last =>
      rw [← List.cons_append, ← List.append_assoc] at hlog
      obtain ⟨hbefore, -⟩ := List.append_inj' hlog rfl
      exact h.results before call result rest hbefore
  single := single_step h.single he
  unique := by
    cases e with
    | sent added =>
      apply List.pairwise_append.mpr
      refine ⟨h.unique, List.pairwise_singleton _ _, fun other hother found hfound => ?_⟩
      rw [List.mem_singleton.mp hfound]
      exact he.2 other hother
    | resolved call response => exact h.unique.filter _
    | _ => exact h.unique

theorem sound_initial : Sound .initial where
  accounted := List.Perm.refl _
  sent := nofun
  unrefused := nofun
  results := by
    intro before call result rest hlog
    cases before <;> cases hlog
  single := fun _ => Nat.zero_le 1
  unique := List.Pairwise.nil

variable (contract)

abbrev Reached (ok : State → Input → Prop) (s : State) : Prop := Reaches (step contract) ok .initial s

variable {contract} {ok : State → Input → Prop} {s : State}

theorem sound_next {input : Input} (h : Sound w) : Sound (step contract w input) := by
  have hmeets : Meets (Allowed False) (handle contract input) w fun _ _ => True :=
    handle_meets w input False.elim False.elim False.elim
  exact hmeets.1.invariant h (fun w e hw he => sound_step hw he) _ List.prefix_rfl

theorem sound_reached (h : Reached contract ok s) : Sound s := by
  apply h.invariant
  · exact sound_initial
  · exact fun s input hs _ => sound_next hs

attribute [local simp] step in
/-- The timer of a call that waits answers it. -/
theorem timer_answers {pending : PendingRpc} (hmem : pending ∈ s.pending) :
    pending.call ∈ answered (step contract s (.timeout pending.call)).log := by
  obtain ⟨found, hfound⟩ : ∃ found, s.pending.find? (·.call = pending.call) = some found :=
    Option.isSome_iff_exists.mp (List.find?_isSome.mpr ⟨pending, hmem, decide_eq_true rfl⟩)
  obtain ⟨hin, hcall⟩ := find_pending hfound
  have hrun : fireTimer pending.call s = ((), [.resolved pending.call (.error "transport_timeout" 504)]) := by
    rw [fireTimer, look_bind, hfound]
    show finish found _ s = _
    rw [finish, look_bind, if_pos hin, of_decide_eq_true hcall]
    rfl
  rw [step, handle, final, hrun]
  show pending.call ∈ answered (s.log ++ [.resolved pending.call _])
  rw [answered, List.filterMap_append]
  exact List.mem_append_right _ List.mem_cons_self

theorem unviolated_next {input : Input} (h : Sound w) (htime : InTime w input)
    (hnone : ∀ socket code reason, .violated socket code reason ∉ w.log) :
    ∀ socket code reason, .violated socket code reason ∉ (step contract w input).log := by
  have hmeets : Meets (Allowed True) (handle contract input) w fun _ _ => True :=
    handle_meets w input (fun _ => htime) (fun _ => h.single) (fun _ => h.unique)
  refine hmeets.1.invariant
    (I := fun w => ∀ socket code reason, Event.violated socket code reason ∉ w.log) hnone ?_ _
    List.prefix_rfl
  intro w e hw he socket code reason hmem
  rcases List.mem_append.mp hmem with hbefore | hlast
  · exact hw socket code reason hbefore
  · rw [← List.mem_singleton.mp hlast] at he
    exact he trivial

/-- Each request begins a call; every call has been answered once, or it waits
and its timer answers it; a result is what has just been received from the
socket and under the id that the request was sent with; and no connection is
ended for a violation while each message is a response to a request that still
waits on its socket, which the runtime still returns. -/
theorem rpcs_answered_once {contract : Contract} {s : State} (h : Reached contract (fun _ _ => True) s) :
    (∀ input, (step contract s input).calls = s.calls + if isRpc input then 1 else 0) ∧
    (answered s.log ++ waiting s).Perm (List.range s.calls) ∧
    (∀ pending ∈ s.pending, pending.call ∈ answered (step contract s (.timeout pending.call)).log) ∧
    (∀ call result, .refused call (.result result) ∉ s.log) ∧
    (∀ before call result rest, s.log = before ++ .resolved call (.result result) :: rest →
      ∃ pending, .sent pending ∈ before ∧ pending.call = call ∧
        before.getLast? = some (.received pending.socket pending.requestId (.success result))) ∧
    (Reached contract InTime s → ∀ socket code reason, .violated socket code reason ∉ s.log) := by
  have hsound := sound_reached h
  refine ⟨calls_step s, hsound.accounted, fun _ hmem => timer_answers hmem, hsound.unrefused,
    hsound.results, fun htime => ?_⟩
  have hboth : Sound s ∧ ∀ socket code reason, Event.violated socket code reason ∉ s.log := by
    apply htime.invariant
    · exact ⟨sound_initial, nofun⟩
    · exact fun s input hs hin => ⟨sound_next hs.1, unviolated_next hs.1 hin hs.2⟩
  exact hboth.2

end Accounts

section Samples

/-- A request was sent to a socket under an id. -/
def sentOn (w : State) (socket : ℕ) (requestId : String) : Bool :=
  w.log.any fun
    | .sent pending => pending.socket = socket && pending.requestId = requestId
    | _ => false

def respondedOn (w : State) (socket : ℕ) (requestId : String) : Bool :=
  w.log.any fun
    | .received found id _ => found = socket && id = requestId
    | _ => false

/-- A message is the first response to a request that was sent to its socket. -/
abbrev Honest (w : State) (input : Input) : Prop :=
  Responds (fun socket requestId => sentOn w socket requestId && !respondedOn w socket requestId) w input

def sampleContract : Contract where
  parseCommand := fun _ _ => some ⟨"list_runs", .obj [], .null⟩
  validResult := fun _ _ _ => true
  utf8ByteLength := fun _ => 100

def sampleRpc (n : ℕ) : Input := .rpc .read ⟨true, true, true, .text (some (.obj []))⟩ (countedUuid n) false

def sampleResponse (n : ℕ) : Json :=
  .obj [("version", .num 1), ("type", .str "response"), ("requestId", .str (countedUuid n)),
    ("outcome", .str "success"), ("result", .null)]

def sampleAnswer (n : ℕ) : Input := .message 0 (.text 200 (some (sampleResponse n)))

def violates : Event → Bool
  | .violated _ _ _ => true
  | _ => false

def failsAs (call : ℕ) (error : String) : Event → Bool
  | .resolved found (.error code _) => found = call && code = error
  | _ => false

/-- Of two requests one is slow: its only response arrives after its timer,
the connection is ended, and the other request fails with it. -/
theorem not_unpunished_after_timeout : ∃ s, Reached sampleContract Honest s ∧ s.log.any violates = true ∧
    s.log.any (failsAs 1 "oracle_unavailable") = true := by
  let inputs : List Input := [.connect .read none, sampleRpc 0, sampleRpc 1, .timeout 0, sampleAnswer 0]
  have hrun : Admitted (step sampleContract) Honest .initial inputs := by decide +kernel
  refine ⟨inputs.foldl (step sampleContract) .initial, Reaches.refl.events hrun rfl, ?_, ?_⟩
    <;> decide +kernel

/-- Two requests are answered in the other order. -/
theorem rpcs_answered_once_sample :
    let s := [.connect .read none, sampleRpc 0, sampleRpc 1, sampleAnswer 1, sampleAnswer 0].foldl
      (step sampleContract) .initial
    s.calls = 2 ∧ (answered s.log ++ waiting s).Perm (List.range s.calls) ∧ answered s.log = [1, 0] ∧
      ∀ socket code reason, .violated socket code reason ∉ s.log := by
  intro s
  have hrun : Admitted (step sampleContract) InTime .initial
      [.connect .read none, sampleRpc 0, sampleRpc 1, sampleAnswer 1, sampleAnswer 0] := by
    decide +kernel
  have htime : Reached sampleContract InTime s := Reaches.refl.events hrun rfl
  have hlaw := rpcs_answered_once (htime.mono fun _ _ _ => trivial)
  have hrun' : s.calls = 2 ∧ answered s.log = [1, 0] := by decide +kernel
  exact ⟨hrun'.1, hlaw.2.1, hrun'.2, hlaw.2.2.2.2.2 htime⟩

end Samples

end AccessStack.Oracle
