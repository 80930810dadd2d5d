import AccessStack.Runs

/-!
# Command confirmations

`CommandConfirmationRegistry` and the part of `ShellService.prepareCommand`
that uses it. What the checks before it find is an argument of the call. The
clock is read twice in a call. A world keeps the confirmations that have been
created and the executions that a confirmation has allowed.
-/

set_option autoImplicit false

namespace AccessStack.Shell
open AccessStack.Runs

section Registry

inductive ShellName where
  | powershell | pwsh | cmd | sh | bash | wsl | gitBash
  deriving DecidableEq

inductive ExecutionContext where
  | foreground | background
  deriving DecidableEq

structure CommandConfirmationBinding where
  workspaceId : String
  shell : ShellName
  cwd : String
  command : String
  executionContext : ExecutionContext
  operation : String
  elevated : Bool
  interactive : Bool
  deriving DecidableEq

structure PendingConfirmation where
  binding : CommandConfirmationBinding
  expiresAtMs : ℕ
  deriving DecidableEq

abbrev Registry := String → Option PendingConfirmation

def pruneExpired (pending : Registry) (now : ℕ) : Registry :=
  fun id => (pending id).filter (now < ·.expiresAtMs)

/-- The two readings of the clock in a call. -/
structure Clock where
  first : ℕ
  second : ℕ
  ordered : first ≤ second

def create (ttlMs : ℕ) (pending : Registry) (clock : Clock) (confirmationId : String)
    (binding : CommandConfirmationBinding) : Registry :=
  Function.update (pruneExpired pending clock.first) confirmationId (some ⟨binding, clock.second+ttlMs⟩)

def sameBinding (left right : CommandConfirmationBinding) : Bool := left = right

def consume (pending : Registry) (clock : Clock) (confirmationId : String)
    (binding : CommandConfirmationBinding) : Except String Unit × Registry :=
  let pending := pruneExpired pending clock.first
  match pending confirmationId with
  | none =>
    (.error "Command confirmation is missing or expired.", Function.update pending confirmationId none)
  | some confirmation =>
    if confirmation.expiresAtMs ≤ clock.second then
      (.error "Command confirmation is missing or expired.", Function.update pending confirmationId none)
    else if !sameBinding confirmation.binding binding then
      (.error "Command confirmation does not match this command.", pending)
    else (.ok (), Function.update pending confirmationId none)

end Registry

section Service

inductive Decision where
  | execute
  | confirmationRequired (reasons : List String)
  | blocked (code reason : String)
  deriving DecidableEq

/-- What a call finds out before it comes to the registry: the first check
that refuses it, the risk of its command, and for a trusted workspace the
critical reason and the delegated decision. -/
structure Checks where
  refusal : Option String
  destructive : Bool
  reasons : List String
  trusted : Bool
  criticalReason : Option String
  delegated : Decision
  deriving DecidableEq

def decideCommandAuthorization (checks : Checks) (confirmationId : Option String) : Decision :=
  if !checks.trusted then
    if checks.destructive then .confirmationRequired checks.reasons else .execute
  else
    match checks.criticalReason with
    | some reason =>
      if confirmationId ≠ none then .confirmationRequired [reason]
      else .blocked "PERMISSION_DENIED"
        "Trusted-workspace automation requires a typed MCP capability for privileged, external, nested-shell or otherwise unbounded effects."
    | none =>
      if !checks.destructive then .execute
      else match checks.delegated with
        | .confirmationRequired reasons =>
          if confirmationId ≠ none then .confirmationRequired reasons
          else .blocked "PERMISSION_DENIED"
            "Trusted-workspace automation could not prove this shell mutation is bounded by the workspace policy. Use a typed MCP capability or a more explicit workspace-local command."
        | decision => decision

structure Call where
  binding : CommandConfirmationBinding
  confirmationId : Option String
  checks : Checks
  clock : Clock
  /-- The id a confirmation would get. -/
  random : String

inductive Outcome where
  | thrown (message : String)
  | confirmationRequired (confirmationId : String) (expiresAtMs : ℕ) (reasons : List String)
  | executes (confirmed : Option String)
  deriving DecidableEq

def confirm (ttlMs : ℕ) (pending : Registry) (call : Call) (reasons : List String) : Outcome × Registry :=
  match call.confirmationId.filter (· ≠ "") with
  | none =>
    (.confirmationRequired call.random (call.clock.second+ttlMs) reasons,
      create ttlMs pending call.clock call.random call.binding)
  | some confirmationId =>
    match consume pending call.clock confirmationId call.binding with
    | (.error message, pending) => (.thrown message, pending)
    | (.ok _, pending) => (.executes (some confirmationId), pending)

def interactiveReason : String := "interactive process grants persistent stdin access"

def prepareCommand (ttlMs : ℕ) (pending : Registry) (call : Call) : Outcome × Registry :=
  match call.checks.refusal with
  | some message => (.thrown message, pending)
  | none =>
    match decideCommandAuthorization call.checks call.confirmationId with
    | .blocked _ reason => (.thrown reason, pending)
    | .execute =>
      if call.binding.interactive then confirm ttlMs pending call [interactiveReason]
      else (.executes none, pending)
    | .confirmationRequired reasons =>
      if call.binding.interactive then confirm ttlMs pending call (reasons ++ [interactiveReason]).eraseDups
      else confirm ttlMs pending call reasons

end Service

section Worlds

structure Creation where
  confirmationId : String
  binding : CommandConfirmationBinding
  expiresAtMs : ℕ
  deriving DecidableEq

structure Execution where
  confirmationId : String
  binding : CommandConfirmationBinding
  atMs : ℕ
  deriving DecidableEq

structure World where
  pending : Registry
  clock : ℕ
  created : List Creation
  executed : List Execution

def World.initial : World := ⟨fun _ => none, 0, [], []⟩

def Outcome.creation (call : Call) : Outcome → List Creation
  | .confirmationRequired confirmationId expiresAtMs _ => [⟨confirmationId, call.binding, expiresAtMs⟩]
  | _ => []

def Outcome.execution (call : Call) : Outcome → List Execution
  | .executes (some confirmationId) => [⟨confirmationId, call.binding, call.clock.second⟩]
  | _ => []

def step (ttlMs : ℕ) (w : World) (call : Call) : World :=
  let done := prepareCommand ttlMs w.pending call
  ⟨done.2, call.clock.second, w.created ++ done.1.creation call, w.executed ++ done.1.execution call⟩

/-- The clock does not go back, and a new id has not been given before. -/
def Timely (w : World) (call : Call) : Prop :=
  w.clock ≤ call.clock.first ∧ call.random ∉ w.created.map (·.confirmationId)

instance (w : World) (call : Call) : Decidable (Timely w call) := by
  unfold Timely
  infer_instance

end Worlds

section Consumption

variable {pending : Registry} {clock : Clock} {confirmationId : String} {binding : CommandConfirmationBinding}

theorem prune_some {now : ℕ} {id : String} {c : PendingConfirmation} :
    pruneExpired pending now id = some c ↔ pending id = some c ∧ now < c.expiresAtMs := by
  simp [pruneExpired, Option.filter_eq_some_iff]

/-- A confirmation is usable for a binding at a time. -/
def Usable (pending : Registry) (clock : Clock) (confirmationId : String)
    (binding : CommandConfirmationBinding) : Prop :=
  ∃ expiresAtMs, pending confirmationId = some ⟨binding, expiresAtMs⟩ ∧ clock.second < expiresAtMs

theorem consume_usable (h : Usable pending clock confirmationId binding) :
    consume pending clock confirmationId binding =
      (.ok (), Function.update (pruneExpired pending clock.first) confirmationId none) := by
  obtain ⟨expiresAtMs, hpending, hlive⟩ := h
  have hfirst : clock.first < expiresAtMs := Nat.lt_of_le_of_lt clock.ordered hlive
  have hpruned : pruneExpired pending clock.first confirmationId = some ⟨binding, expiresAtMs⟩ :=
    prune_some.mpr ⟨hpending, hfirst⟩
  simp only [consume, hpruned, sameBinding, decide_true, Bool.not_true, Bool.false_eq_true, if_false]
  rw [if_neg (by omega)]

/-- An attempt that is refused uses up nothing that has not expired. -/
theorem consume_refused (h : ¬ Usable pending clock confirmationId binding) :
    ∃ message rest, consume pending clock confirmationId binding = (.error message, rest) ∧
      (∀ id c, rest id = some c → pending id = some c) ∧
      ∀ id c, pending id = some c → clock.second < c.expiresAtMs → rest id = some c := by
  have hsub : ∀ id c, pruneExpired pending clock.first id = some c → pending id = some c :=
    fun id c hc => (prune_some.mp hc).1
  have hkeep : ∀ id c, pending id = some c → clock.second < c.expiresAtMs →
      pruneExpired pending clock.first id = some c :=
    fun id c hc hlive => prune_some.mpr ⟨hc, Nat.lt_of_le_of_lt clock.ordered hlive⟩
  have hforget : (∀ c, pending confirmationId = some c → ¬ clock.second < c.expiresAtMs) →
      (∀ id c, Function.update (pruneExpired pending clock.first) confirmationId none id = some c →
        pending id = some c) ∧
      ∀ id c, pending id = some c → clock.second < c.expiresAtMs →
        Function.update (pruneExpired pending clock.first) confirmationId none id = some c := by
    intro hexpired
    constructor
    · intro id c hc
      by_cases hid : id = confirmationId
      · subst hid
        simp at hc
      · rw [Function.update_of_ne hid] at hc
        exact hsub id c hc
    · intro id c hc hlive
      by_cases hid : id = confirmationId
      · subst hid
        exact absurd hlive (hexpired c hc)
      · rw [Function.update_of_ne hid]
        exact hkeep id c hc hlive
  simp only [consume]
  split
  · rename_i hnone
    refine ⟨_, _, rfl, hforget ?_⟩
    intro c hc hlive
    rw [hkeep _ c hc hlive] at hnone
    cases hnone
  · rename_i confirmation hsome
    have hpending := hsub _ _ hsome
    split
    · rename_i hexpired
      refine ⟨_, _, rfl, hforget ?_⟩
      intro c hc hlive
      rw [hpending] at hc
      cases hc
      omega
    · rename_i hlive
      have hother : confirmation.binding ≠ binding := by
        intro heq
        apply h
        refine ⟨confirmation.expiresAtMs, ?_, by omega⟩
        rw [hpending, ← heq]
      simp only [sameBinding, hother, decide_false, Bool.not_false, if_true]
      exact ⟨_, _, rfl, hsub, hkeep⟩

end Consumption

section Invariant

variable {ttlMs : ℕ} {w : World} {call : Call}

/-- Everything a call can do to the registry. -/
inductive Moves (ttlMs : ℕ) (pending : Registry) (call : Call) : Outcome × Registry → Prop
  | none (outcome : Outcome) (hcreation : outcome.creation call = [])
    (hexecution : outcome.execution call = []) :
      Moves ttlMs pending call (outcome, pending)
  | create (reasons : List String) : Moves ttlMs pending call
      (.confirmationRequired call.random (call.clock.second+ttlMs) reasons,
        create ttlMs pending call.clock call.random call.binding)
  | refused (confirmationId message : String) (rest : Registry)
      (hsub : ∀ id c, rest id = some c → pending id = some c)
      (hkeep : ∀ id c, pending id = some c → call.clock.second < c.expiresAtMs → rest id = some c) :
      Moves ttlMs pending call (.thrown message, rest)
  | confirmed (confirmationId : String) (hid : call.confirmationId = some confirmationId)
      (husable : Usable pending call.clock confirmationId call.binding) :
      Moves ttlMs pending call (.executes (some confirmationId),
        Function.update (pruneExpired pending call.clock.first) confirmationId none)

theorem confirm_moves (pending : Registry) (call : Call) (reasons : List String) :
    Moves ttlMs pending call (confirm ttlMs pending call reasons) := by
  unfold confirm
  split
  · exact .create reasons
  · rename_i confirmationId hid
    have hid := (Option.filter_eq_some_iff.mp hid).1
    by_cases husable : Usable pending call.clock confirmationId call.binding
    · rw [consume_usable husable]
      exact .confirmed confirmationId hid husable
    · obtain ⟨message, rest, heq, hsub, hkeep⟩ := consume_refused husable
      rw [heq]
      exact .refused confirmationId message rest hsub hkeep

theorem prepare_moves (pending : Registry) (call : Call) :
    Moves ttlMs pending call (prepareCommand ttlMs pending call) := by
  unfold prepareCommand
  split
  · exact .none _ rfl rfl
  split
  · exact .none _ rfl rfl
  · split
    · exact confirm_moves pending call _
    · exact .none _ rfl rfl
  · split
    · exact confirm_moves pending call _
    · exact confirm_moves pending call _

structure Inv (w : World) : Prop where
  known : ∀ id c, w.pending id = some c → ⟨id, c.binding, c.expiresAtMs⟩ ∈ w.created ∧
    id ∉ w.executed.map (·.confirmationId)
  live : ∀ c ∈ w.created, w.clock < c.expiresAtMs → c.confirmationId ∉ w.executed.map (·.confirmationId) →
    w.pending c.confirmationId = some ⟨c.binding, c.expiresAtMs⟩
  createdOnce : (w.created.map (·.confirmationId)).Nodup
  executedOnce : (w.executed.map (·.confirmationId)).Nodup
  granted : ∀ x ∈ w.executed, ∃ c ∈ w.created, c.confirmationId = x.confirmationId ∧
    c.binding = x.binding ∧ x.atMs < c.expiresAtMs

theorem inv_initial : Inv World.initial := by
  constructor <;> simp [World.initial]

/-- The registry has lost nothing that has not expired and got nothing new. -/
theorem inv_kept {rest : Registry} {now : ℕ} (h : Inv w) (hclock : w.clock ≤ now)
    (hsub : ∀ id c, rest id = some c → w.pending id = some c)
    (hkeep : ∀ id c, w.pending id = some c → now < c.expiresAtMs → rest id = some c) :
    Inv ⟨rest, now, w.created, w.executed⟩ where
  known id c hc := h.known id c (hsub id c hc)
  live c hc hlive hunused :=
    hkeep _ _ (h.live c hc (Nat.lt_of_le_of_lt hclock hlive) hunused) hlive
  createdOnce := h.createdOnce
  executedOnce := h.executedOnce
  granted := h.granted

theorem executed_created (h : Inv w) {id : String} (hid : id ∈ w.executed.map (·.confirmationId)) :
    id ∈ w.created.map (·.confirmationId) := by
  obtain ⟨x, hx, rfl⟩ := List.mem_map.mp hid
  obtain ⟨c, hc, heq, _⟩ := h.granted x hx
  exact heq ▸ List.mem_map_of_mem hc

theorem inv_create (h : Inv w) (htimely : Timely w call) :
    Inv ⟨create ttlMs w.pending call.clock call.random call.binding, call.clock.second,
      w.created ++ [⟨call.random, call.binding, call.clock.second+ttlMs⟩], w.executed⟩ := by
  obtain ⟨hclock, hnew⟩ := htimely
  have hunused : call.random ∉ w.executed.map (·.confirmationId) := fun hid => hnew (executed_created h hid)
  refine ⟨?_, ?_, ?_, h.executedOnce, ?_⟩
  · intro id c hc
    by_cases hid : id = call.random
    · subst hid
      simp only [create, Function.update_self, Option.some.injEq] at hc
      rw [← hc]
      exact ⟨by simp, hunused⟩
    · simp only [create, Function.update_of_ne hid] at hc
      obtain ⟨hcreated, hexecuted⟩ := h.known id c (prune_some.mp hc).1
      exact ⟨List.mem_append_left _ hcreated, hexecuted⟩
  · intro c hc hlive hfree
    rcases List.mem_append.mp hc with hc | hc
    · have hid : c.confirmationId ≠ call.random := fun heq => hnew (heq ▸ List.mem_map_of_mem hc)
      have hlater : w.clock < c.expiresAtMs :=
        Nat.lt_of_le_of_lt (hclock.trans call.clock.ordered) hlive
      simp only [create, Function.update_of_ne hid]
      exact prune_some.mpr ⟨h.live c hc hlater hfree, Nat.lt_of_le_of_lt call.clock.ordered hlive⟩
    · rw [List.mem_singleton.mp hc]
      simp [create]
  · rw [List.map_append, List.map_singleton, ← List.concat_eq_append]
    exact h.createdOnce.concat hnew
  · intro x hx
    obtain ⟨c, hc, hrest⟩ := h.granted x hx
    exact ⟨c, List.mem_append_left _ hc, hrest⟩

theorem inv_confirmed {confirmationId : String} (h : Inv w) (hclock : w.clock ≤ call.clock.first)
    (husable : Usable w.pending call.clock confirmationId call.binding) :
    Inv ⟨Function.update (pruneExpired w.pending call.clock.first) confirmationId none, call.clock.second,
      w.created, w.executed ++ [⟨confirmationId, call.binding, call.clock.second⟩]⟩ := by
  obtain ⟨expiresAtMs, hpending, hlive⟩ := husable
  obtain ⟨hcreated, hunused⟩ := h.known _ _ hpending
  refine ⟨?_, ?_, h.createdOnce, ?_, ?_⟩
  · intro id c hc
    by_cases hid : id = confirmationId
    · subst hid
      simp at hc
    · simp only [Function.update_of_ne hid] at hc
      obtain ⟨hmem, hfree⟩ := h.known id c (prune_some.mp hc).1
      refine ⟨hmem, ?_⟩
      simp only [List.map_append, List.map_singleton, List.mem_append, List.mem_singleton, not_or]
      exact ⟨hfree, hid⟩
  · intro c hc hlater hfree
    simp only [List.map_append, List.map_singleton, List.mem_append, List.mem_singleton, not_or] at hfree
    simp only [Function.update_of_ne hfree.2]
    have hbefore : w.clock < c.expiresAtMs :=
      Nat.lt_of_le_of_lt (hclock.trans call.clock.ordered) hlater
    exact prune_some.mpr ⟨h.live c hc hbefore hfree.1, Nat.lt_of_le_of_lt call.clock.ordered hlater⟩
  · rw [List.map_append, List.map_singleton, ← List.concat_eq_append]
    exact h.executedOnce.concat hunused
  · intro x hx
    rcases List.mem_append.mp hx with hx | hx
    · exact h.granted x hx
    · rw [List.mem_singleton.mp hx]
      exact ⟨_, hcreated, rfl, rfl, hlive⟩

attribute [local simp] step in
theorem inv_step (h : Inv w) (htimely : Timely w call) : Inv (step ttlMs w call) := by
  have hclock := htimely.1
  have hmoves : Moves ttlMs w.pending call (prepareCommand ttlMs w.pending call) :=
    prepare_moves w.pending call
  simp only [step]
  generalize prepareCommand ttlMs w.pending call = done at hmoves ⊢
  cases hmoves with
  | none outcome hcreation hexecution =>
    simp only [hcreation, hexecution, List.append_nil]
    exact inv_kept h (hclock.trans call.clock.ordered) (fun _ _ hc => hc) (fun _ _ hc _ => hc)
  | create reasons =>
    simp only [Outcome.creation, Outcome.execution, List.append_nil]
    exact inv_create h htimely
  | refused confirmationId message rest hsub hkeep =>
    simp only [Outcome.creation, Outcome.execution, List.append_nil]
    exact inv_kept h (hclock.trans call.clock.ordered) hsub hkeep
  | confirmed confirmationId hid husable =>
    simp only [Outcome.creation, Outcome.execution, List.append_nil]
    exact inv_confirmed h hclock husable

/-- A call that executes on a confirmation has used a creation of its own. -/
theorem confirmed_created (h : Inv w) {confirmationId : String}
    (hdone : (prepareCommand ttlMs w.pending call).1 = .executes (some confirmationId)) :
    call.confirmationId = some confirmationId ∧ confirmationId ∉ w.executed.map (·.confirmationId) ∧
      ∃ c ∈ w.created, c.confirmationId = confirmationId ∧ c.binding = call.binding ∧
        call.clock.second < c.expiresAtMs := by
  have hmoves : Moves ttlMs w.pending call (prepareCommand ttlMs w.pending call) :=
    prepare_moves w.pending call
  generalize prepareCommand ttlMs w.pending call = done at hmoves hdone
  cases hmoves with
  | none outcome _ hexecution =>
    rw [show outcome = _ from hdone] at hexecution
    cases hexecution
  | create reasons => cases hdone
  | refused id message rest hsub hkeep => cases hdone
  | confirmed id hid husable =>
    cases hdone
    obtain ⟨expiresAtMs, hpending, hlive⟩ := husable
    obtain ⟨hcreated, hunused⟩ := h.known _ _ hpending
    exact ⟨hid, hunused, _, hcreated, rfl, rfl, hlive⟩

/-- A confirmation of another binding is not used up. -/
theorem other_binding_kept (h : Inv w) (htimely : Timely w call) {c : Creation} (hc : c ∈ w.created)
    (hlive : call.clock.second < c.expiresAtMs)
    (hunused : c.confirmationId ∉ w.executed.map (·.confirmationId)) (hother : c.binding ≠ call.binding) :
    (step ttlMs w call).pending c.confirmationId = some ⟨c.binding, c.expiresAtMs⟩ := by
  have hnext : Inv (step ttlMs w call) := inv_step h htimely
  refine hnext.live c (List.mem_append_left _ hc) hlive ?_
  intro hmem
  simp only [step, List.map_append] at hmem
  rcases List.mem_append.mp hmem with hmem | hmem
  · exact hunused hmem
  · obtain ⟨x, hx, hid⟩ := List.mem_map.mp hmem
    unfold Outcome.execution at hx
    split at hx
    · rename_i confirmationId hdone
      rw [List.mem_singleton.mp hx] at hid
      obtain ⟨_, _, d, hd, hsame, hbinding, _⟩ := confirmed_created h hdone
      have heq : d = c := List.inj_on_of_nodup_map h.createdOnce hd hc (hsame.trans hid)
      exact hother (heq ▸ hbinding)
    · cases hx

end Invariant

/-- Every execution on a confirmation has a creation of its own, made before
with the same binding and not expired. An attempt with another binding leaves
a confirmation as it was. -/
theorem confirmations_one_shot (ttlMs : ℕ) (w : World) (h : Reaches (step ttlMs) Timely World.initial w) :
    (w.executed.map (·.confirmationId)).Nodup ∧
    (∀ x ∈ w.executed, ∃ c ∈ w.created, c.confirmationId = x.confirmationId ∧ c.binding = x.binding ∧
      x.atMs < c.expiresAtMs) ∧
    ∀ call, Timely w call →
      (∀ confirmationId, (prepareCommand ttlMs w.pending call).1 = .executes (some confirmationId) →
        call.confirmationId = some confirmationId ∧ confirmationId ∉ w.executed.map (·.confirmationId) ∧
          ∃ c ∈ w.created, c.confirmationId = confirmationId ∧ c.binding = call.binding ∧
            call.clock.second < c.expiresAtMs) ∧
      ∀ c ∈ w.created, call.clock.second < c.expiresAtMs →
        c.confirmationId ∉ w.executed.map (·.confirmationId) → c.binding ≠ call.binding →
        (step ttlMs w call).pending c.confirmationId = some ⟨c.binding, c.expiresAtMs⟩ := by
  have hinv : Inv w := h.invariant inv_initial fun w call hw hcall => inv_step hw hcall
  refine ⟨hinv.executedOnce, hinv.granted, ?_⟩
  intro call htimely
  exact ⟨fun id hdone => confirmed_created hinv hdone,
    fun c hc hlive hunused hother => other_binding_kept hinv htimely hc hlive hunused hother⟩

section Samples

def sampleBinding : CommandConfirmationBinding :=
  ⟨"w", .bash, ".", "rm -r out", .foreground, "run_command", false, false⟩

def sampleChecks : Checks :=
  ⟨none, true, ["delete, remove or force-clean operation"], false, none, .execute⟩

def sampleCall (binding : CommandConfirmationBinding) (confirmationId : Option String) (now : ℕ)
    (random : String) : Call :=
  ⟨binding, confirmationId, sampleChecks, ⟨now, now, Nat.le_refl _⟩, random⟩

/-- A confirmation is tried with another command, used, and tried again. -/
def sampleCalls : List Call :=
  [sampleCall sampleBinding none 0 "a", sampleCall { sampleBinding with command := "rm -r /" }
    (some "a") 10 "b",
    sampleCall sampleBinding (some "a") 20 "c", sampleCall sampleBinding (some "a") 30 "d"]

theorem confirmations_one_shot_sample :
    ∃ w, Reaches (step 1000) Timely World.initial w ∧ w.executed = [⟨"a", sampleBinding, 20⟩] ∧
      (w.executed.map (·.confirmationId)).Nodup := by
  have h : Reaches (step 1000) Timely World.initial (sampleCalls.foldl (step 1000) World.initial) :=
    Reaches.events .refl (by decide +kernel) rfl
  exact ⟨_, h, by decide +kernel, (confirmations_one_shot 1000 _ h).1⟩

end Samples

end AccessStack.Shell
