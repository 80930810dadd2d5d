import AccessStack.Release.Prune

/-!
# What pruning promises

A call that deletes holds the lock, has no receipt yet, and was checked
against the lifecycle state. Receipts list what has been deleted. Both are
told of the operations of one call, and the others rely on it.
-/

set_option autoImplicit false

namespace AccessStack.Prune
open AccessStack.Runs

section Promises

/-- The release is none of the lifecycle state. -/
def Unprotected (env : Env) (d : Disk) (t : Target) : Prop :=
  ∀ state, env.parseState d.stateFile = some state →
    state.active ≠ some t.releaseId ∧ state.previous ≠ some t.releaseId ∧ state.candidate ≠ some t.releaseId

/-- A completed receipt lists what its operation has deleted. -/
def Truthful (d : Disk) (operationId : String) (receipt : Receipt) : Prop :=
  receipt.result.status = .completed → receipt.result.operationId = operationId ∧
    ∀ item ∈ receipt.result.items, item.status = .deleted ∧ (operationId, item.target) ∈ d.deleted

structure Honest (d : Disk) : Prop where
  receipts : ∀ operationId receipt, d.receipts operationId = some receipt → Truthful d operationId receipt
  temps : ∀ operationId receipt, d.temps operationId = some receipt → Truthful d operationId receipt

/-- The call has the lock, and its operation no receipt. -/
structure Holds (party : ℕ) (input : Input) (d : Disk) : Prop where
  lock : d.lock = some ⟨party, input.operationId⟩
  receipt : d.receipts input.operationId = none

/-- What has to be so when a target is renamed or removed. -/
structure Permitted (env : Env) (party : ℕ) (input : Input) (d : Disk) (operationId : String)
    (t : Target) : Prop where
  own : operationId = input.operationId
  holds : Holds party input d
  dryRun : input.dryRun = false
  reconcile : input.reconcile = false
  generated : t.isGenerated = true
  plain : includesDots t.name = false
  unprotected : Unprotected env d t

def Op.deletes : Op → Option (String × Target)
  | .rename operationId t _ => some (operationId, t)
  | .rm operationId t _ => some (operationId, t)
  | _ => none

structure Promises (env : Env) (party : ℕ) (input : Input) (e : Op) (d d' : Disk) : Prop where
  stateFile : d'.stateFile = d.stateFile
  lock : d'.lock = d.lock ∨ d.lock = none ∨ d.lock = some ⟨party, input.operationId⟩
  receipts : ∀ operationId, d'.receipts operationId = d.receipts operationId ∨
    ∀ l, d.lock = some l → l.operationId = operationId → l.party = party
  deleted : ∀ x ∈ d.deleted, x ∈ d'.deleted
  permitted : ∀ operationId t, e.deletes = some (operationId, t) → Permitted env party input d operationId t

/-- What a call may rely on. -/
structure Relies (party : ℕ) (input : Input) (d d' : Disk) : Prop where
  stateFile : d'.stateFile = d.stateFile
  holds : Holds party input d → Holds party input d'
  lock : d.lock = some ⟨party, input.operationId⟩ → d'.lock = d.lock
  deleted : ∀ x ∈ d.deleted, x ∈ d'.deleted

/-- The lock is opened while the operation has no receipt, and an empty
completion is written while no lock is of its operation. -/
def Careful (e : Op) (d : Disk) : Prop :=
  match e with
  | .openLock operationId => d.receipts operationId = none
  | .createReceipt operationId _ => ∀ l, d.lock = some l → l.operationId ≠ operationId
  | _ => True

instance : (e : Op) → (d : Disk) → Decidable (Careful e d) := by
  intro e d
  unfold Careful
  split <;> infer_instance

variable {env : Env} {party other : ℕ} {input input' : Input} {e : Op} {d d' : Disk}

theorem promises_relies (hne : party ≠ other) (h : Promises env party input e d d') :
    Relies other input' d d' := by
  have hlock : d.lock = some ⟨other, input'.operationId⟩ → d'.lock = d.lock := by
    intro hheld
    rcases h.lock with hsame | hnone | hown
    · exact hsame
    · exact absurd (hnone.symm.trans hheld) nofun
    · exact absurd (congrArg Lock.party (Option.some.inj (hown.symm.trans hheld))) hne
  refine ⟨h.stateFile, ?_, hlock, h.deleted⟩
  intro hheld
  refine ⟨(hlock hheld.lock).trans hheld.lock, ?_⟩
  rcases h.receipts input'.operationId with hsame | hown
  · exact hsame.trans hheld.receipt
  · exact absurd (hown _ hheld.lock rfl).symm hne

theorem Truthful.grow {operationId : String} {receipt : Receipt} (h : Truthful d operationId receipt)
    (hdeleted : ∀ x ∈ d.deleted, x ∈ d'.deleted) : Truthful d' operationId receipt := by
  intro hcompleted
  obtain ⟨hown, hitems⟩ := h hcompleted
  exact ⟨hown, fun item hitem => ⟨(hitems item hitem).1, hdeleted _ (hitems item hitem).2⟩⟩

/-- Receipts and temporary files are as before, or hold what is truthful. -/
theorem Honest.grow (h : Honest d) (hdeleted : ∀ x ∈ d.deleted, x ∈ d'.deleted)
    (hreceipts : ∀ operationId receipt, d'.receipts operationId = some receipt →
      d.receipts operationId = some receipt ∨ Truthful d operationId receipt)
    (htemps : ∀ operationId receipt, d'.temps operationId = some receipt →
      d.temps operationId = some receipt ∨ Truthful d operationId receipt) : Honest d' where
  receipts := by
    intro operationId receipt hreceipt
    rcases hreceipts operationId receipt hreceipt with hold | hnew
    · exact (h.receipts operationId receipt hold).grow hdeleted
    · exact hnew.grow hdeleted
  temps := by
    intro operationId receipt hreceipt
    rcases htemps operationId receipt hreceipt with hold | hnew
    · exact (h.temps operationId receipt hold).grow hdeleted
    · exact hnew.grow hdeleted

end Promises

section Calls

def rules : Machine.Rules Disk Host Change Input (fun e => Option (Answer e)) Failure Result where
  possible := fun _ _ e d _ => Careful e d
  allowed := Allowed

/-- What the routine of a call is checked against. -/
abbrev asked (env : Env) (party : ℕ)
    (input : Input) : Routine.Terms Op Disk Host (fun e => Option (Answer e)) :=
  Machine.terms (machine env) rules Honest Relies (Promises env) party input

variable {env : Env} {party : ℕ} {input : Input} {e : Op} {d d' : Disk} {α : Type} {fact : Disk → Prop}

def Stable (party : ℕ) (input : Input) (fact : Disk → Prop) : Prop := ∀ d d', fact d →
    Relies party input d d' → fact d'

theorem promises_same (h : e.deletes = none) : Promises env party input e d d where
  stateFile := rfl
  lock := .inl rfl
  receipts := fun _ => .inl rfl
  deleted := fun _ => id
  permitted := fun _ _ hdeletes => absurd (h.symm.trans hdeletes) nofun

/-- An operation that is permitted, if it deletes, and that may throw. -/
theorem guards_call {post : Answer e → Disk → Prop} {failed : Failure → Disk → Prop} (hfact : fact d)
    (hstable : Stable party input fact)
    (hpermitted : ∀ d operationId t, fact d → e.deletes = some (operationId, t) →
      Permitted env party input d operationId t)
    (hfail : ∀ d, fact d → failed .thrown d)
    (h : ∀ d host, fact d → Honest d → Careful e d →
      Honest (perform party e d host).1 ∧ Promises env party input e d (perform party e d host).1 ∧
      match (perform party e d host).2 with
      | some answer => post answer (perform party e d host).1
      | none => failed .thrown (perform party e d host).1) :
    Routine.Guards (asked env party input) post failed (call e) d := by
  refine Routine.guards_act hfact hstable ?_
  intro t ht hhonest host hcareful
  show Honest (effect party e t host).1 ∧ Promises env party input e t (effect party e t host).1 ∧
    Routine.Guards (asked env party input) post failed (match (effect party e t host).2 with
      | some answer => .ret answer
      | none => .fail .thrown) (effect party e t host).1
  unfold effect
  split_ifs with hfails
  · exact ⟨hhonest, ⟨rfl, .inl rfl, fun _ => .inl rfl, fun _ => id,
      fun operationId target => hpermitted t operationId target ht⟩, hfail t ht⟩
  · obtain ⟨hkept, hpromised, hnext⟩ := h t host ht hhonest hcareful
    refine ⟨hkept, hpromised, ?_⟩
    cases hanswer : (perform party e t host).2 with
    | none =>
      rw [hanswer] at hnext
      exact hnext
    | some answer =>
      rw [hanswer] at hnext
      exact hnext

end Calls

section Quiet

variable {env : Env} {party : ℕ} {input : Input} {e : Op} {d d' : Disk} {α β : Type} {fact : Disk → Prop}

/-- The operation only looks. -/
def Op.isRead : Op → Bool
  | .mkdirReceiptRoot | .createReceipt _ _ | .openLock _ | .rename _ _ _ | .rm _ _ _ | .writeTemp _
    _ | .publish _
  | .removeLock => false
  | _ => true

theorem perform_read (h : e.isRead = true) (host : Host) : (perform party e d host).1 = d := by
  cases e <;> first | rfl | exact absurd h nofun

theorem read_deletes (h : e.isRead = true) : e.deletes = none := by
  cases e <;> first | rfl | exact absurd h nofun

theorem effect_read (h : e.isRead = true) (host : Host) : (effect party e d host).1 = d := by
  unfold effect
  split_ifs
  · rfl
  · exact perform_read h host

/-- The routine only looks, and a result is as said. -/
def Quiet (result : α → Prop) : Pruning α → Prop
  | .ret a => result a
  | .fail _ => True
  | .act e next => e.isRead = true ∧ ∀ r, Quiet result (next r)

theorem Quiet.guards {result : α → Prop} {p : Pruning α} (h : Quiet result p) (hfact : fact d)
    (hstable : Stable party input fact) :
    Routine.Guards (asked env party input) (fun a d => result a ∧ fact d) (fun _ d => fact d) p d := by
  induction p generalizing d with
  | ret a => exact ⟨h, hfact⟩
  | fail x => exact hfact
  | act e next ih =>
    refine Routine.guards_act hfact hstable ?_
    intro t ht hhonest host _
    show Honest (effect party e t host).1 ∧ Promises env party input e t (effect party e t host).1 ∧
      Routine.Guards (asked env party input) _ _ (next (effect party e t host).2) (effect party e t host).1
    rw [effect_read h.1 host]
    exact ⟨hhonest, promises_same (read_deletes h.1), ih _ (h.2 _) ht⟩

theorem quiet_call (h : e.isRead = true) : Quiet (fun _ => True) (call e) := by
  refine ⟨h, ?_⟩
  intro r
  cases r <;> exact trivial

theorem quiet_pure {result : α → Prop} {a : α} (h : result a) : Quiet result (pure a) := h

theorem quiet_fail {result : α → Prop} (x : Failure) : Quiet result (fail x : Pruning α) := trivial

theorem quiet_require {ok : Bool} (x : Failure) : Quiet (fun _ => ok = true) (require ok x) := by
  cases ok with
  | false => exact trivial
  | true => exact rfl

theorem Quiet.bind {result : α → Prop} {result' : β → Prop} {p : Pruning α} {f : α → Pruning β}
    (h : Quiet result p) (hf : ∀ a, result a → Quiet result' (f a)) : Quiet result' (p >>= f) := by
  show Quiet result' (p.bind f)
  induction p with
  | ret a => exact hf a h
  | fail x => exact trivial
  | act e next ih => exact ⟨h.1, fun r => ih r (h.2 r)⟩

theorem Quiet.mono {result result' : α → Prop} {p : Pruning α} (h : Quiet result p)
    (hresult : ∀ a, result a → result' a) : Quiet result' p := by
  induction p with
  | ret a => exact hresult a h
  | fail x => exact trivial
  | act e next ih => exact ⟨h.1, fun r => ih r (h.2 r)⟩

/-- An answer is looked at. -/
theorem quiet_look {result : β → Prop} {f : Answer e → Pruning β} (h : e.isRead = true)
    (hf : ∀ a, Quiet result (f a)) : Quiet result (call e >>= f) :=
  (quiet_call h).bind fun a _ => hf a

theorem quiet_if {result : β → Prop} {ok : Bool} {x : Failure} {f : Unit → Pruning β}
    (hf : ok = true → Quiet result (f ())) : Quiet result (require ok x >>= f) :=
  (quiet_require x).bind fun _ hok => hf hok

theorem checkSignal_quiet : Quiet (fun _ => True) checkSignal :=
  quiet_look rfl fun _ => (quiet_require _).mono fun _ _ => trivial

theorem reconcile_quiet (env : Env) (input : Input) : Quiet (fun _ => True) (reconcile env input) := by
  apply quiet_look rfl
  intro present
  apply quiet_if
  intro _
  apply quiet_look rfl
  intro physical
  apply quiet_if
  intro _
  apply quiet_look rfl
  intro isFile
  apply quiet_if
  intro _
  apply quiet_look rfl
  intro record
  cases record with
  | none => exact quiet_fail _
  | some record =>
    apply quiet_if
    intro _
    apply quiet_if
    intro _
    apply quiet_if
    intro _
    exact quiet_pure trivial

theorem existing_quiet (env : Env) (input : Input) : Quiet (fun _ => True) (existing env input) := by
  refine checkSignal_quiet.bind fun _ _ => ?_
  apply quiet_look rfl
  intro present
  dsimp only
  split
  case' isTrue =>
    apply quiet_look rfl
    intro physical
    apply quiet_if
    intro _
  all_goals
    apply quiet_look rfl
    intro receipt
    cases receipt with
    | none => exact quiet_pure trivial
    | some parsed =>
      apply quiet_if
      intro _
      apply quiet_if
      intro _
      exact quiet_pure trivial

theorem priorReceipt_quiet (env : Env) (input : Input) : Quiet (fun _ => True) (priorReceipt env input) := by
  apply quiet_look rfl
  intro isFile
  apply quiet_if
  intro _
  apply quiet_look rfl
  intro prior
  cases prior with
  | none => exact quiet_fail _
  | some prior =>
    apply quiet_if
    intro _
    apply quiet_if
    intro _
    exact quiet_pure trivial

theorem selectEligible_quiet (env : Env) (protectedIds : List String) :
    Quiet (fun _ => True) (selectEligible env protectedIds) :=
  quiet_look rfl fun _ => quiet_look rfl fun _ => quiet_pure trivial

theorem stateUnchanged_quiet (env : Env) (plan : Plan) (x : Failure) :
    Quiet (fun _ => True) (stateUnchanged env plan x) := by
  apply quiet_look rfl
  intro rawState
  cases rawState with
  | none => exact quiet_fail _
  | some rawState => exact (quiet_require _).mono fun _ _ => trivial

/-- The target has passed the checks that do not look at the disk. -/
structure Chosen (plan : Plan) (t : Target) : Prop where
  generated : t.isGenerated = true
  plain : includesDots t.name = false
  unprotected : t.releaseId ∉ plan.protectedIds

theorem checkTarget_quiet (env : Env) (plan : Plan) (survey : Survey) (t : Target) :
    Quiet (fun _ => Chosen plan t) (checkTarget env plan survey t) := by
  apply quiet_if
  intro hname
  apply quiet_if
  intro hprotected
  have hchosen : Chosen plan t := by
    rw [Bool.and_eq_true, Bool.and_eq_true, Bool.not_eq_true'] at hname
    exact ⟨hname.1.1, hname.1.2, by simpa using hprotected⟩
  apply quiet_look rfl
  intro canonical
  apply quiet_if
  intro _
  apply quiet_look rfl
  intro node
  apply quiet_if
  intro _
  apply quiet_look rfl
  intro sameDevice
  apply quiet_if
  intro _
  apply quiet_if
  intro _
  apply quiet_if
  intro _
  apply quiet_look rfl
  intro plain
  apply quiet_if
  intro _
  apply quiet_if
  intro _
  exact (quiet_require _).mono fun _ _ => hchosen

theorem checkTargets_quiet (env : Env) (plan : Plan) (survey : Survey) (targets : List Target) :
    Quiet (fun _ => ∀ t ∈ targets, Chosen plan t) (checkTargets env plan survey targets) := by
  induction targets with
  | nil => exact quiet_pure nofun
  | cons t rest ih =>
    refine (checkTarget_quiet env plan survey t).bind fun _ hfirst => ih.mono fun _ hrest => ?_
    exact List.forall_mem_cons.mpr ⟨hfirst, hrest⟩

end Quiet

end AccessStack.Prune
