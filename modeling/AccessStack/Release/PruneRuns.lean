import AccessStack.Release.PruneLaws

/-!
# Pruning in any interleaving

Every call keeps the receipts truthful and deletes only with the lock, without
a receipt of its operation and outside of the lifecycle state.
-/

set_option autoImplicit false

namespace AccessStack.Prune
open AccessStack.Runs

section Deletion

variable {env : Env} {party : ℕ} {input : Input} {plan : Plan} {d d' : Disk} {t : Target} {α β : Type}

/-- The plan protects the releases of the lifecycle state. -/
def Planned (env : Env) (plan : Plan) (d : Disk) : Prop :=
  ∃ state, env.parseState d.stateFile = some state ∧ ∀ releaseId,
    state.active = some releaseId ∨ state.previous = some releaseId ∨ state.candidate = some releaseId →
      releaseId ∈ plan.protectedIds

theorem Planned.stable (env : Env) (plan : Plan) : Stable party input (Planned env plan) := by
  intro d d' h hrelies
  unfold Planned
  rw [hrelies.stateFile]
  exact h

theorem Chosen.unprotected_of (h : Chosen plan t) (hplanned : Planned env plan d) : Unprotected env d t := by
  obtain ⟨state, hstate, hprotected⟩ := hplanned
  intro state' hstate'
  cases hstate.symm.trans hstate'
  refine ⟨fun hactive => ?_, fun hprevious => ?_, fun hcandidate => ?_⟩
  · exact h.unprotected (hprotected _ (.inl hactive))
  · exact h.unprotected (hprotected _ (.inr (.inl hprevious)))
  · exact h.unprotected (hprotected _ (.inr (.inr hcandidate)))

/-- A call that deletes, and what it has deleted. -/
structure Deleting (env : Env) (party : ℕ) (input : Input) (plan : Plan) (done : List Target)
    (d : Disk) : Prop where
  planned : Planned env plan d
  holds : Holds party input d
  done : ∀ t ∈ done, (input.operationId, t) ∈ d.deleted

theorem Deleting.stable (env : Env) (plan : Plan) (done : List Target) :
    Stable party input (Deleting env party input plan done) := by
  intro d d' h hrelies
  exact ⟨Planned.stable env plan d d' h.planned hrelies, hrelies.holds h.holds,
    fun t ht => hrelies.deleted _ (h.done t ht)⟩

/-- The input is one that may delete. -/
def Mutates (input : Input) : Prop := input.dryRun = false ∧ input.reconcile = false

theorem permitted_of {done : List Target} (hmutates : Mutates input) (hchosen : Chosen plan t)
    (h : Deleting env party input plan done d) : Permitted env party input d input.operationId t :=
  ⟨rfl, h.holds, hmutates.1, hmutates.2, hchosen.generated, hchosen.plain, hchosen.unprotected_of h.planned⟩

attribute [local simp] perform in
theorem rename_guards {done : List Target} (hmutates : Mutates input) (hchosen : Chosen plan t) (i : ℕ)
    (h : Deleting env party input plan done d) :
    Routine.Guards (asked env party input) (fun _ d => Deleting env party input plan done d) (fun _ _ => True)
      (call (.rename input.operationId t i)) d := by
  apply guards_call h (Deleting.stable env plan done) _ (fun _ _ => trivial)
  · intro d host hd hhonest _
    have hpermitted : ∀ operationId target, Op.deletes (.rename input.operationId t i) =
      some (operationId, target) →
        Permitted env party input d operationId target := by
      intro operationId target heq
      cases heq
      exact permitted_of hmutates hchosen hd
    simp only [perform]
    unfold Disk.rename
    split
    · exact ⟨hhonest, ⟨rfl, .inl rfl, fun _ => .inl rfl, fun _ => id, hpermitted⟩, trivial⟩
    · split_ifs
      · exact ⟨⟨hhonest.receipts, hhonest.temps⟩, ⟨rfl, .inl rfl, fun _ => .inl rfl, fun _ => id, hpermitted⟩,
          ⟨hd.planned, ⟨hd.holds.lock, hd.holds.receipt⟩, hd.done⟩⟩
      · exact ⟨hhonest, ⟨rfl, .inl rfl, fun _ => .inl rfl, fun _ => id, hpermitted⟩, trivial⟩
  · intro d operationId target hd heq
    cases heq
    exact permitted_of hmutates hchosen hd

theorem rm_guards {done : List Target} (hmutates : Mutates input) (hchosen : Chosen plan t) (i : ℕ)
    (h : Deleting env party input plan done d) :
    Routine.Guards (asked env party input) (fun _ d => Deleting env party input plan (t::done) d)
    (fun _ _ => True)
      (call (.rm input.operationId t i)) d := by
  apply guards_call h (Deleting.stable env plan done) _ (fun _ _ => trivial)
  · intro d host hd hhonest _
    have hpermitted : ∀ operationId target, Op.deletes (.rm input.operationId t i) =
      some (operationId, target) →
        Permitted env party input d operationId target := by
      intro operationId target heq
      cases heq
      exact permitted_of hmutates hchosen hd
    have hgrow : ∀ x ∈ d.deleted, x ∈ d.deleted ++ [(input.operationId, t)] := fun x => List.mem_append_left _
    simp only [perform]
    unfold Disk.rm
    split
    · exact ⟨hhonest, ⟨rfl, .inl rfl, fun _ => .inl rfl, fun _ => id, hpermitted⟩, trivial⟩
    · refine ⟨hhonest.grow hgrow (fun _ _ => .inl) (fun _ _ => .inl),
        ⟨rfl, .inl rfl, fun _ => .inl rfl, hgrow, hpermitted⟩,
        ⟨hd.planned, ⟨hd.holds.lock, hd.holds.receipt⟩, ?_⟩⟩
      intro target htarget
      rcases List.mem_cons.mp htarget with rfl | hold
      · exact List.mem_append_right _ List.mem_cons_self
      · exact hgrow _ (hd.done target hold)
  · intro d operationId target hd heq
    cases heq
    exact permitted_of hmutates hchosen hd

/-- A quiet part of the routine. -/
theorem Quiet.first {result : α → Prop} {p : Pruning α} {f : α → Pruning β} {fact : Disk → Prop}
    {post : β → Disk → Prop} (hquiet : Quiet result p) (hfact : fact d) (hstable : Stable party input fact)
    (hf : ∀ a d, result a → fact d → Routine.Guards (asked env party input) post (fun _ _ => True) (f a) d) :
    Routine.Guards (asked env party input) post (fun _ _ => True) (p >>= f) d :=
  ((hquiet.guards hfact hstable).mono (fun _ _ => id) fun _ _ _ => trivial).bind fun a d had =>
    hf a d had.1 had.2

theorem deleteTarget_guards {done : List Target} (hmutates : Mutates input) (hchosen : Chosen plan t) (i : ℕ)
    (h : Deleting env party input plan done d) :
    Routine.Guards (asked env party input)
      (fun item d => item = ⟨t, .deleted⟩ ∧ Deleting env party input plan (t::done) d) (fun _ _ => True)
      (deleteTarget env input plan i t) d := by
  have hstable : Stable party input (Deleting env party input plan done) := Deleting.stable env plan done
  refine checkSignal_quiet.first h hstable fun _ d _ h => ?_
  refine (quiet_call rfl).first h hstable fun _ d _ h => ?_
  refine (quiet_require _).first h hstable fun _ d _ h => ?_
  refine (stateUnchanged_quiet env plan _).first h hstable fun _ d _ h => ?_
  refine (quiet_call rfl).first h hstable fun _ d _ h => ?_
  refine (quiet_require _).first h hstable fun _ d _ h => ?_
  refine (quiet_call rfl).first h hstable fun _ d _ h => ?_
  refine (quiet_require _).first h hstable fun _ d _ h => ?_
  refine (quiet_call rfl).first h hstable fun _ d _ h => ?_
  refine (quiet_require _).first h hstable fun _ d _ h => ?_
  refine (quiet_require _).first h hstable fun _ d _ h => ?_
  refine (quiet_call rfl).first h hstable fun _ d _ h => ?_
  refine (quiet_require _).first h hstable fun _ d _ h => ?_
  refine (quiet_call rfl).first h hstable fun _ d _ h => ?_
  refine (quiet_require _).first h hstable fun _ d _ h => ?_
  refine (rename_guards hmutates hchosen i h).bind fun _ d h => ?_
  refine (rm_guards hmutates hchosen i h).bind fun _ d h => ?_
  exact ⟨rfl, h⟩

/-- The items are of targets that have been deleted. -/
structure Finished (env : Env) (party : ℕ) (input : Input) (plan : Plan) (items : List Item)
    (d : Disk) : Prop where
  planned : Planned env plan d
  holds : Holds party input d
  items : ∀ item ∈ items, item.status = .deleted ∧ (input.operationId, item.target) ∈ d.deleted

theorem Finished.stable (env : Env) (plan : Plan) (items : List Item) :
    Stable party input (Finished env party input plan items) := by
  intro d d' h hrelies
  exact ⟨Planned.stable env plan d d' h.planned hrelies, hrelies.holds h.holds,
    fun item hitem => ⟨(h.items item hitem).1, hrelies.deleted _ (h.items item hitem).2⟩⟩

theorem deleteTargets_guards (hmutates : Mutates input) (targets : List Target)
    (hchosen : ∀ t ∈ targets, Chosen plan t) (i : ℕ) {done : List Target}
    (h : Deleting env party input plan done d) :
    Routine.Guards (asked env party input) (fun items d => Finished env party input plan items d ∧
      Deleting env party input plan done d) (fun _ _ => True) (deleteTargets env input plan i targets) d := by
  induction targets generalizing i done d with
  | nil => exact ⟨⟨h.planned, h.holds, nofun⟩, h⟩
  | cons t rest ih =>
    obtain ⟨hfirst, hrest⟩ := List.forall_mem_cons.mp hchosen
    refine (deleteTarget_guards hmutates hfirst i h).bind fun item d ⟨hitem, h⟩ => ?_
    refine (ih hrest (i+1) h).bind fun items d ⟨hfinished, h⟩ => ?_
    subst hitem
    refine ⟨⟨h.planned, h.holds, ?_⟩,
      ⟨h.planned, h.holds, fun t' ht' => h.done t' (List.mem_cons_of_mem _ ht')⟩⟩
    exact List.forall_mem_cons.mpr ⟨⟨rfl, h.done t List.mem_cons_self⟩, hfinished.items⟩

theorem writeTemp_guards {items : List Item} {receipt : Receipt} (h : Finished env party input plan items d)
    (hown : receipt.result.operationId = input.operationId) (hitems : receipt.result.items = items) :
    Routine.Guards (asked env party input) (fun _ d => Finished env party input plan items d)
    (fun _ _ => True)
      (call (.writeTemp input.operationId receipt)) d := by
  apply guards_call h (Finished.stable env plan items) _ (fun _ _ => trivial)
  · intro d host hd hhonest _
    have hpromises : ∀ temps,
        Promises env party input (.writeTemp input.operationId receipt) d { d with temps } :=
      fun temps => ⟨rfl, .inl rfl, fun _ => .inl rfl, fun _ => id, fun _ _ heq => absurd heq nofun⟩
    simp only [perform]
    unfold Disk.writeTemp
    split_ifs
    · exact ⟨hhonest, hpromises d.temps, hd⟩
    · refine ⟨hhonest.grow (fun _ => id) (fun _ _ => .inl) ?_, hpromises _,
        ⟨hd.planned, ⟨hd.holds.lock, hd.holds.receipt⟩, hd.items⟩⟩
      intro operationId found hfound
      have hupdate : Function.update d.temps input.operationId (some receipt) operationId =
        some found := hfound
      rw [Function.update_apply] at hupdate
      split_ifs at hupdate with heq
      · cases hupdate
        subst heq
        refine .inr fun _ => ⟨hown, ?_⟩
        rw [hitems]
        exact hd.items
      · exact .inl hupdate
  · intro d operationId t _ heq
    exact absurd heq nofun

/-- The lock is of the call. -/
def Locked (party : ℕ) (input : Input) (d : Disk) : Prop := d.lock = some ⟨party, input.operationId⟩

theorem Locked.stable : Stable party input (Locked party input) :=
  fun _ _ h hrelies => (hrelies.lock h).trans h

theorem publish_guards {items : List Item} (h : Finished env party input plan items d) :
    Routine.Guards (asked env party input) (fun _ d => Locked party input d) (fun _ _ => True)
      (call (.publish input.operationId)) d := by
  apply guards_call h (Finished.stable env plan items) _ (fun _ _ => trivial)
  · intro d host hd hhonest _
    simp only [perform]
    unfold Disk.publish
    split
    · exact ⟨hhonest, promises_same rfl, trivial⟩
    · rename_i receipt htemp
      refine ⟨hhonest.grow (fun _ => id) ?_ ?_,
        ⟨rfl, .inl rfl, ?_, fun _ => id, fun _ _ heq => absurd heq nofun⟩, hd.holds.lock⟩
      · intro operationId found hfound
        have hupdate : Function.update d.receipts input.operationId (some receipt) operationId =
          some found := hfound
        rw [Function.update_apply] at hupdate
        split_ifs at hupdate with heq
        · cases hupdate
          subst heq
          exact .inr (hhonest.temps _ _ htemp)
        · exact .inl hupdate
      · intro operationId found hfound
        have hupdate : Function.update d.temps input.operationId none operationId = some found := hfound
        rw [Function.update_apply] at hupdate
        split_ifs at hupdate
        exact .inl hupdate
      · intro operationId
        by_cases heq : operationId = input.operationId
        · right
          intro l hl _
          cases hd.holds.lock.symm.trans hl
          rfl
        · exact .inl (Function.update_of_ne heq _ _)
  · intro d operationId t _ heq
    exact absurd heq nofun

theorem underLock_guards (hmutates : Mutates input) {planned : Result}
    (hown : planned.operationId = input.operationId) {first : Target} {rest : List Target}
    (hchosen : ∀ t ∈ first::rest, Chosen plan t) (h : Deleting env party input plan [] d) :
    Routine.Guards (asked env party input) (fun _ d => Locked party input d) (fun _ _ => True)
      (underLock env input plan planned first rest) d := by
  have hstable : Stable party input (Deleting env party input plan []) := Deleting.stable env plan []
  refine (quiet_call rfl).first h hstable fun _ d _ h => ?_
  refine checkSignal_quiet.first h hstable fun _ d _ h => ?_
  refine (quiet_call rfl).first h hstable fun _ d _ h => ?_
  refine (stateUnchanged_quiet env plan _).first h hstable fun _ d _ h => ?_
  refine (quiet_call rfl).first h hstable fun _ d _ h => ?_
  refine (quiet_require _).first h hstable fun _ d _ h => ?_
  refine (quiet_call rfl).first h hstable fun _ d _ h => ?_
  refine (quiet_require _).first h hstable fun _ d _ h => ?_
  refine (deleteTargets_guards hmutates _ hchosen 0 h).bind fun items d ⟨hfinished, _⟩ => ?_
  have hstable' : Stable party input (Finished env party input plan items) := Finished.stable env plan items
  refine (quiet_require _).first hfinished hstable' fun _ d _ hfinished => ?_
  refine (writeTemp_guards hfinished hown rfl).bind fun _ d hfinished => ?_
  refine (quiet_require _).first hfinished hstable' fun _ d _ hfinished => ?_
  refine (publish_guards hfinished).bind fun _ d hlocked => ?_
  exact hlocked

theorem removeLock_guards (h : Locked party input d) :
    Routine.Guards (asked env party input) (fun _ _ => True) (fun _ _ => True) (call .removeLock) d := by
  apply guards_call h Locked.stable _ (fun _ _ => trivial)
  · intro d host hd hhonest _
    simp only [perform]
    exact ⟨⟨hhonest.receipts, hhonest.temps⟩,
      ⟨rfl, .inr (.inr hd), fun _ => .inl rfl, fun _ => id, fun _ _ heq => absurd heq nofun⟩, trivial⟩
  · intro d operationId t _ heq
    exact absurd heq nofun

theorem conclude_guards {outcome : Except Failure Result}
    (h : ∀ completed, outcome = .ok completed → Locked party input d) :
    Routine.Guards (asked env party input) (fun _ _ => True) (fun _ _ => True) (conclude outcome) d := by
  cases outcome with
  | error x =>
    refine Routine.Guards.bind (m := fun _ _ => True) ?_ fun _ _ _ => trivial
    apply Routine.guards_rescue.mpr
    have hstable : Stable party input fun _ => True := fun _ _ _ _ => trivial
    exact ((quiet_call rfl).guards trivial hstable).mono (fun _ _ _ => trivial) fun _ _ _ => trivial
  | ok completed =>
    refine Routine.Guards.bind (m := fun _ d => Locked party input d) ?_ fun _ d hlocked => ?_
    · apply Routine.guards_rescue.mpr
      exact ((quiet_call rfl).guards (h completed rfl) Locked.stable).mono (fun _ _ h => h.2) fun _ _ h => h
    · exact (removeLock_guards hlocked).bind fun _ _ _ => trivial

theorem openLock_guards (h : Planned env plan d) :
    Routine.Guards (asked env party input)
      (fun opened d => Planned env plan d ∧ (opened = true → Holds party input d)) (fun _ _ => True)
      (call (.openLock input.operationId)) d := by
  apply guards_call h (Planned.stable env plan) _ (fun _ _ => trivial)
  · intro d host hd hhonest hcareful
    simp only [perform]
    unfold Disk.openLock
    split_ifs with hlock
    · exact ⟨hhonest, promises_same rfl, hd, nofun⟩
    · have hnone : d.lock = none := by simpa using hlock
      exact ⟨⟨hhonest.receipts, hhonest.temps⟩,
        ⟨rfl, .inr (.inl hnone), fun _ => .inl rfl, fun _ => id, fun _ _ heq => absurd heq nofun⟩, hd,
        fun _ => ⟨rfl, hcareful⟩⟩
  · intro d operationId t _ heq
    exact absurd heq nofun

theorem mkdirReceiptRoot_guards {fact : Disk → Prop} (h : fact d) (hstable : Stable party input fact)
    (hfact : ∀ d, fact d → fact { d with receiptRoot := true }) :
    Routine.Guards (asked env party input) (fun _ d => fact d) (fun _ _ => True)
        (call .mkdirReceiptRoot) d := by
  apply guards_call h hstable _ (fun _ _ => trivial)
  · intro d host hd hhonest _
    simp only [perform]
    exact ⟨⟨hhonest.receipts, hhonest.temps⟩,
      ⟨rfl, .inl rfl, fun _ => .inl rfl, fun _ => id, fun _ _ heq => absurd heq nofun⟩, hfact d hd⟩
  · intro d operationId t _ heq
    exact absurd heq nofun

theorem deleteSelected_guards (hmutates : Mutates input) {planned : Result}
    (hown : planned.operationId = input.operationId) {first : Target} {rest : List Target}
    (hchosen : ∀ t ∈ first::rest, Chosen plan t) (h : Planned env plan d) :
    Routine.Guards (asked env party input) (fun _ _ => True) (fun _ _ => True)
      (deleteSelected env input plan planned first rest) d := by
  have hstable : Stable party input (Planned env plan) := Planned.stable env plan
  refine (mkdirReceiptRoot_guards h hstable fun _ => id).bind fun _ d h => ?_
  refine (quiet_call rfl).first h hstable fun _ d _ h => ?_
  refine (quiet_require _).first h hstable fun _ d _ h => ?_
  refine (openLock_guards h).bind fun opened d h => ?_
  cases hopened : (opened : Bool) with
  | false => exact trivial
  | true =>
    have hdeleting : Deleting env party input plan [] d := ⟨h.1, h.2 hopened, nofun⟩
    apply Routine.guards_ensuing.mpr
    apply (underLock_guards hmutates hown hchosen hdeleting).mono
    · intro completed d hlocked
      exact conclude_guards fun _ _ => hlocked
    · intro x d _
      exact conclude_guards nofun

end Deletion

section Runs

variable {env : Env} {party : ℕ} {input : Input} {plan : Plan} {d d' : Disk}

theorem createReceipt_guards {receipt : Receipt} (htruthful : ∀ d, Truthful d input.operationId receipt) :
    Routine.Guards (asked env party input) (fun _ _ => True) (fun _ _ => True)
      (call (.createReceipt input.operationId receipt)) d := by
  have hstable : Stable party input fun _ => True := fun _ _ _ _ => trivial
  apply guards_call trivial hstable _ (fun _ _ => trivial)
  · intro d host _ hhonest hcareful
    simp only [perform]
    unfold Disk.createReceipt
    split_ifs
    · exact ⟨hhonest, promises_same rfl, trivial⟩
    · refine ⟨hhonest.grow (fun _ => id) ?_ (fun _ _ => .inl), ⟨rfl, .inl rfl, ?_, fun _ => id,
        fun _ _ heq => absurd heq nofun⟩, trivial⟩
      · intro operationId found hfound
        have hupdate : Function.update d.receipts input.operationId (some receipt) operationId =
          some found := hfound
        rw [Function.update_apply] at hupdate
        split_ifs at hupdate with heq
        · cases hupdate
          subst heq
          exact .inr (htruthful d)
        · exact .inl hupdate
      · intro operationId
        by_cases heq : operationId = input.operationId
        · right
          intro l hl hid
          exact absurd (hid.trans heq) (hcareful l hl)
        · exact .inl (Function.update_of_ne heq _ _)
  · intro d operationId t _ heq
    exact absurd heq nofun

theorem completeEmpty_guards {planned : Result} (hown : planned.operationId = input.operationId)
    (hempty : planned.items = []) :
    Routine.Guards (asked env party input) (fun _ _ => True) (fun _ _ => True)
    (completeEmpty env input planned) d := by
  have hstable : Stable party input fun _ => True := fun _ _ _ _ => trivial
  refine (quiet_call rfl).first trivial hstable fun _ d _ h => ?_
  refine (quiet_require _).first h hstable fun _ d _ h => ?_
  refine (mkdirReceiptRoot_guards h hstable fun _ => id).bind fun _ d h => ?_
  refine (quiet_call rfl).first h hstable fun _ d _ h => ?_
  refine (quiet_require _).first h hstable fun _ d _ h => ?_
  refine (quiet_require _).first h hstable fun _ d _ h => ?_
  refine (createReceipt_guards fun d _ => ⟨hown, ?_⟩).bind fun created d _ => ?_
  · show ∀ item ∈ planned.items, _
    rw [hempty]
    nofun
  · split
    · exact trivial
    · exact ((priorReceipt_quiet env input).guards trivial hstable).mono
        (fun _ _ _ => trivial) fun _ _ _ => trivial

theorem readLifecycle_guards :
    Routine.Guards (asked env party input) (fun plan d => Planned env plan d) (fun _ _ => True)
      (readLifecycle env input) d := by
  refine Routine.Guards.bind (m := fun rawState d => ∀ raw, rawState = some raw → raw = d.stateFile) ?_ ?_
  · have hstable : Stable party input fun _ => True := fun _ _ _ _ => trivial
    apply guards_call trivial hstable _ (fun _ _ => trivial)
    · intro d host _ hhonest _
      simp only [perform]
      refine ⟨hhonest, promises_same rfl, ?_⟩
      intro raw hraw
      cases hphysical : host.physical <;> simp only [hphysical] at hraw
      · exact absurd hraw nofun
      · exact (Option.some.inj hraw).symm
    · intro d operationId t _ heq
      exact absurd heq nofun
  · intro rawState d hraw
    cases rawState with
    | none => exact trivial
    | some raw =>
      cases hraw raw rfl
      dsimp only
      cases hstate : env.parseState d.stateFile with
      | none => exact trivial
      | some state =>
        dsimp only
        apply Routine.guards_bind.mpr
        apply Routine.guards_require.mpr
        refine ⟨fun _ => ?_, fun _ => trivial⟩
        cases hactive : state.active with
        | none => exact trivial
        | some active =>
          cases hprevious : state.previous with
          | none => exact trivial
          | some previous =>
            refine ⟨state, hstate, ?_⟩
            intro releaseId hor
            rw [hactive, hprevious] at hor
            rcases hor with hor | hor | hor
            · cases hor
              simp
            · cases hor
              simp
            · simp [hor]

theorem carryOut_guards (hreconcile : input.reconcile = false) (h : Planned env plan d) :
    Routine.Guards (asked env party input) (fun _ _ => True) (fun _ _ => True)
    (carryOut env input plan) d := by
  have hstable : Stable party input (Planned env plan) := Planned.stable env plan
  refine (quiet_call rfl).first h hstable fun _ d _ h => ?_
  refine (quiet_require _).first h hstable fun _ d _ h => ?_
  refine (quiet_call rfl).first h hstable fun processes d _ h => ?_
  refine (quiet_call rfl).first h hstable fun mountPoints d _ h => ?_
  refine (quiet_call rfl).first h hstable fun topLevel d _ h => ?_
  refine (quiet_call rfl).first h hstable fun current d _ h => ?_
  refine (quiet_require _).first h hstable fun _ d _ h => ?_
  have hselected : Quiet (fun _ => True) (selectTargets env input plan) := by
    unfold selectTargets
    split
    · exact selectEligible_quiet env plan.protectedIds
    · exact quiet_pure trivial
  refine hselected.first h hstable fun selected d _ h => ?_
  refine (quiet_require _).first h hstable fun _ d _ h => ?_
  refine (checkTargets_quiet env plan _ selected).first h hstable fun _ d hchosen h => ?_
  refine (quiet_require _).first h hstable fun _ d _ h => ?_
  split
  · exact trivial
  · rename_i hdryRun
    cases selected with
    | nil => exact completeEmpty_guards rfl rfl
    | cons first rest => exact deleteSelected_guards ⟨by simpa using hdryRun, hreconcile⟩ rfl hchosen h

theorem prune_guards :
    Routine.Guards (asked env party input) (fun _ _ => True) (fun _ _ => True) (prune env input) d := by
  have hstable : Stable party input fun _ => True := fun _ _ _ _ => trivial
  refine (quiet_require _).first trivial hstable fun _ d _ h => ?_
  refine checkSignal_quiet.first h hstable fun _ d _ h => ?_
  refine (quiet_call rfl).first h hstable fun _ d _ h => ?_
  refine (quiet_require _).first h hstable fun _ d _ h => ?_
  split
  · exact ((reconcile_quiet env input).guards trivial hstable).mono
      (fun _ _ _ => trivial) fun _ _ _ => trivial
  · rename_i hreconcile
    refine readLifecycle_guards.bind fun plan d hplanned => ?_
    have hexisting : Quiet (fun _ => True) (unlessDryRun env input) := by
      unfold unlessDryRun
      split
      · exact quiet_pure trivial
      · exact existing_quiet env input
    refine hexisting.first hplanned (Planned.stable env plan) fun found d _ hplanned => ?_
    cases found with
    | some result => exact trivial
    | none => exact carryOut_guards (by simpa using hreconcile) hplanned

theorem prune_checked (env : Env) : Machine.Checked (machine env) rules Honest Relies (Promises env) where
  guarded := fun _ _ _ _ => prune_guards
  compatible := fun _ _ _ _ _ _ _ hne hpromises => promises_relies hne hpromises
  stable := by
    intro s change hhonest hallowed
    cases change with
    | lifecycle stateFile current =>
      refine ⟨⟨hhonest.receipts, hhonest.temps⟩, ?_⟩
      intro party input e hat
      exact absurd (Together.at_iff.mp hat) (by simp [hallowed party])
    | entries kind entries =>
      refine ⟨⟨hhonest.receipts, hhonest.temps⟩, ?_⟩
      intro party input e _
      exact ⟨rfl, fun h => ⟨h.lock, h.receipt⟩, fun _ => rfl, fun _ => id⟩

end Runs

section Laws

variable {env : Env} {party other : ℕ} {input input' : Input} {e e' : Op} {d : Disk} {s : State}

/-- Only what renames or removes a target changes an entry, and it changes the
target's or the quarantine's. -/
theorem perform_entries (host : Host) (hnone : e.deletes = none) :
    (perform party e d host).1.entries = d.entries := by
  cases e <;> try rfl
  case createReceipt operationId receipt =>
    simp only [perform, Disk.createReceipt]
    split_ifs <;> rfl
  case openLock operationId =>
    simp only [perform, Disk.openLock]
    split_ifs <;> rfl
  case rename => exact absurd hnone nofun
  case rm => exact absurd hnone nofun
  case writeTemp operationId receipt =>
    simp only [perform, Disk.writeTemp]
    split_ifs <;> rfl
  case publish operationId =>
    simp only [perform, Disk.publish]
    split <;> rfl

theorem find_filter {entries : List (String × Node)} {name other : String} (hne : name ≠ other) :
    (entries.filter (·.1 ≠ other)).find? (·.1 = name) = entries.find? (·.1 = name) := by
  rw [List.find?_filter]
  congr 1
  funext entry
  by_cases heq : entry.1 = name
  · simp [heq, hne]
  · simp [heq]

/-- An entry that is neither the target nor the quarantine stays as it is. -/
theorem perform_frame (host : Host) {operationId : String} {t : Target} {i : ℕ}
    (he : e = .rename operationId t i ∨ e = .rm operationId t i) {kind : Kind} {name : String}
    (hother : kind ≠ t.kind ∨ name ≠ t.name ∧ name ≠ quarantine operationId i) :
    (perform party e d host).1.node kind name = d.node kind name := by
  rcases he with rfl | rfl
  · simp only [perform, Disk.rename]
    split
    · rfl
    · split_ifs
      · unfold Disk.node
        by_cases hkind : kind = t.kind
        · subst hkind
          obtain ⟨hname, hquarantine⟩ := hother.resolve_left (not_not.mpr rfl)
          dsimp only
          rw [Function.update_self, List.find?_append, find_filter hquarantine, Disk.without,
            find_filter hname]
          simp [Ne.symm hquarantine]
        · dsimp only
          rw [Function.update_of_ne hkind]
      · rfl
  · simp only [perform, Disk.rm]
    split
    · rfl
    · unfold Disk.node
      by_cases hkind : kind = t.kind
      · subst hkind
        obtain ⟨-, hquarantine⟩ := hother.resolve_left (not_not.mpr rfl)
        dsimp only
        rw [Function.update_self, Disk.without, find_filter hquarantine]
      · dsimp only
        rw [Function.update_of_ne hkind]

theorem effect_entries (host : Host) :
    (effect party e d host).1 = d ∨ (effect party e d host).1 = (perform party e d host).1 := by
  unfold effect
  split_ifs
  · exact .inl rfl
  · exact .inr rfl

theorem deletes_cases {operationId : String} {t : Target} (h : e.deletes = some (operationId, t)) :
    ∃ i, e = .rename operationId t i ∨ e = .rm operationId t i := by
  cases e with
  | rename id found i =>
    cases h
    exact ⟨i, .inl rfl⟩
  | rm id found i =>
    cases h
    exact ⟨i, .inr rfl⟩
  | _ => exact absurd h nofun

def quietHost : Host := ⟨false, false, true, false, fun _ => false, []⟩

theorem at_permitted (h : Machine.Guarded (machine env) rules Honest Relies (Promises env) s)
    (hat : s.At party input e) {operationId : String} {t : Target}
    (hdeletes : e.deletes = some (operationId, t)) :
    Permitted env party input s.shared operationId t := by
  have hcareful : Careful e s.shared := by
    obtain ⟨i, rfl | rfl⟩ := deletes_cases hdeletes <;> exact trivial
  have hpromised : Promises env party input e s.shared ((machine env).step s (.act party quietHost)).shared :=
    h.promised hat hcareful
  exact hpromised.permitted operationId t hdeletes

theorem prune_exclusive (hhonest : Honest d)
    (h : Reaches (machine env).step (Machine.Admits rules) (Machine.start d) s) :
    (∀ operationId receipt, s.shared.receipts operationId = some receipt →
      receipt.result.status = .completed →
      ∀ item ∈ receipt.result.items, item.status = .deleted ∧ (operationId, item.target) ∈ s.shared.deleted) ∧
    (∀ party other input input' e e', s.At party input e → s.At other input' e' → e.deletes ≠ none →
      e'.deletes ≠ none → party = other) ∧
    ∀ party input e host, s.At party input e → Careful e s.shared →
      (∀ kind name, ((machine env).step s (.act party host)).shared.node kind name =
        s.shared.node kind name) ∨
      ∃ t i, input.dryRun = false ∧ input.reconcile = false ∧
      s.shared.lock = some ⟨party, input.operationId⟩ ∧
        s.shared.receipts input.operationId = none ∧ t.isGenerated = true ∧ includesDots t.name = false ∧
        Unprotected env s.shared t ∧ ∀ kind name,
          kind ≠ t.kind ∨ name ≠ t.name ∧ name ≠ quarantine input.operationId i →
            ((machine env).step s (.act party host)).shared.node kind name = s.shared.node kind name := by
  have hguarded := Machine.reached_guarded (prune_checked env) hhonest h
  refine ⟨?_, ?_, ?_⟩
  · intro operationId receipt hreceipt hcompleted
    exact (hguarded.kept.receipts operationId receipt hreceipt hcompleted).2
  · intro party other input input' e e' hat hat' hdeletes hdeletes'
    obtain ⟨⟨operationId, t⟩, hsome⟩ := Option.ne_none_iff_exists'.mp hdeletes
    obtain ⟨⟨operationId', t'⟩, hsome'⟩ := Option.ne_none_iff_exists'.mp hdeletes'
    have hlock := (at_permitted hguarded hat hsome).holds.lock
    have hlock' := (at_permitted hguarded hat' hsome').holds.lock
    exact congrArg Lock.party (Option.some.inj (hlock.symm.trans hlock'))
  · intro party input e host hat hcareful
    have hstep : ((machine env).step s (.act party host)).shared = (effect party e s.shared host).1 := by
      obtain ⟨next, hparty⟩ := hat
      show ((machine env).resume s party host).shared = _
      rw [Machine.resume_act hparty]
      rfl
    rw [hstep]
    cases hdeletes : e.deletes with
    | none =>
      left
      intro kind name
      have hentries : (effect party e s.shared host).1 = s.shared ∨
          (effect party e s.shared host).1 = (perform party e s.shared host).1 := effect_entries host
      rcases hentries with hsame | hperformed
      · rw [hsame]
      · rw [hperformed]
        unfold Disk.node
        rw [perform_entries host hdeletes]
    | some found =>
      obtain ⟨operationId, t⟩ := found
      right
      have hpermitted := at_permitted hguarded hat hdeletes
      obtain ⟨i, he⟩ := deletes_cases hdeletes
      refine ⟨t, i, hpermitted.dryRun, hpermitted.reconcile, hpermitted.holds.lock, hpermitted.holds.receipt,
        hpermitted.generated, hpermitted.plain, hpermitted.unprotected, ?_⟩
      intro kind name hother
      have hentries : (effect party e s.shared host).1 = s.shared ∨
          (effect party e s.shared host).1 = (perform party e s.shared host).1 := effect_entries host
      rcases hentries with hsame | hperformed
      · rw [hsame]
      · rw [hperformed]
        rw [← hpermitted.own] at hother
        exact perform_frame host he hother

end Laws

section Samples

def sampleEnv : Env where
  root := "/opt"
  sha256 := fun text => String.ofList (List.replicate 64 (if text.toList.contains '7' then 'a' else 'b'))
  uuid := fun operationId => operationId = "op-1"
  parseState := fun _ => some ⟨some "1.1.0-beta.82", some "1.1.0-beta.81", none⟩
  before := fun t t' => t.name ≤ t'.name

def sampleInput (name : String) : Input :=
  ⟨"op-1", false, false, some (sampleEnv.sha256 "state"), false, some [⟨.release, name⟩], none⟩

def sampleDisk : Disk where
  stateFile := "state"
  current := "/opt/releases/1.1.0-beta.82"
  entries := fun
    | .release =>
      [("1.1.0-beta.82", .directory), ("1.1.0-beta.81", .directory), ("1.1.0-beta.69", .directory),
        ("1.1.0-beta.70", .directory)]
    | .staging => []
  lock := none
  receiptRoot := false
  receipts := fun _ => none
  temps := fun _ => none
  deleted := []

abbrev SampleMove := Move Input Host Change

def acts (n : ℕ) (party : ℕ) : List SampleMove := List.replicate n (.act party quietHost)

def arrive (moves : List SampleMove) : State :=
  moves.foldl (machine sampleEnv).step (Machine.start sampleDisk)

theorem sampleDisk_honest : Honest sampleDisk := ⟨nofun, nofun⟩

instance (party : ℕ) (input : Input) (e : Op) (d : Disk)
    (host : Host) : Decidable (rules.possible party input e d host) :=
  inferInstanceAs (Decidable (Careful e d))

instance (s : State) (change : Change) : Decidable (rules.allowed s change) :=
  inferInstanceAs (Decidable (Allowed s change))

def completed : List SampleMove := .call (sampleInput "1.1.0-beta.69") :: acts 38 0

theorem prune_exclusive_sample :
    (arrive completed).shared.receipts "op-1" ≠ none ∧
    ∀ operationId receipt, (arrive completed).shared.receipts operationId = some receipt →
      receipt.result.status = .completed →
      ∀ item ∈ receipt.result.items, item.status = .deleted ∧ (operationId, item.target) ∈
        (arrive completed).shared.deleted := by
  have hrun : Admitted (machine sampleEnv).step (Machine.Admits rules) (Machine.start sampleDisk) completed ∧
      (arrive completed).shared.receipts "op-1" ≠ none := by
    decide +kernel
  have hreached : Reaches (machine sampleEnv).step (Machine.Admits rules) (Machine.start sampleDisk)
      (arrive completed) :=
    Reaches.refl.events hrun.1 rfl
  have hexclusive := prune_exclusive sampleDisk_honest hreached
  exact ⟨hrun.2, hexclusive.1⟩

/-- Answers come as they may, and the lifecycle state stays while calls run. -/
def anyRules : Machine.Rules Disk Host Change Input (fun e => Option (Answer e)) Failure Result where
  possible := fun _ _ _ _ _ => True
  allowed := Allowed

instance (party : ℕ) (input : Input) (e : Op) (d : Disk) (host : Host) :
    Decidable (anyRules.possible party input e d host) := inferInstanceAs (Decidable True)

instance (s : State) (change : Change) : Decidable (anyRules.allowed s change) :=
  inferInstanceAs (Decidable (Allowed s change))

/-- The second call has looked for a receipt before the first one writes it. -/
def overtaken : List SampleMove :=
  [.call (sampleInput "1.1.0-beta.69"), .call (sampleInput "1.1.0-beta.70")] ++ acts 8 1 ++
    acts 38 0 ++ acts 25 1

theorem receipted_operation_deletes : ¬ ∀ (s : State) party input e host,
    Reaches (machine sampleEnv).step (Machine.Admits anyRules) (Machine.start sampleDisk) s →
    s.At party input e →
    s.shared.receipts input.operationId ≠ none →
    ((machine sampleEnv).step s (.act party host)).shared.deleted = s.shared.deleted := by
  intro h
  have hrun : Admitted (machine sampleEnv).step (Machine.Admits anyRules)
    (Machine.start sampleDisk) overtaken ∧
      (arrive overtaken).at? 1 =
        some (sampleInput "1.1.0-beta.70", .rm "op-1" ⟨.release, "1.1.0-beta.70"⟩ 0) ∧
      (arrive overtaken).shared.receipts (sampleInput "1.1.0-beta.70").operationId ≠ none ∧
      ((machine sampleEnv).step (arrive overtaken) (.act 1 quietHost)).shared.deleted ≠
        (arrive overtaken).shared.deleted := by
    decide +kernel
  obtain ⟨hadmitted, hat, hreceipt, hdeleted⟩ := hrun
  have hparty : (arrive overtaken).At 1 (sampleInput "1.1.0-beta.70")
      (.rm "op-1" ⟨.release, "1.1.0-beta.70"⟩ 0) :=
    Together.at_iff.mpr hat
  exact absurd
    (h (arrive overtaken) 1 (sampleInput "1.1.0-beta.70") _ quietHost (Reaches.refl.events hadmitted rfl)
    hparty hreceipt) hdeleted

end Samples

end AccessStack.Prune
