import AccessStack.Release.Attempts
import AccessStack.Release.Enabled
import AccessStack.Release.Requests

/-!
# Requests submitted again

The digest stored under the key of an accepted request stays in the ledger
for ever. A second request with the key is checked, then compared with the
stored digest: it repeats the first answer, or it is a conflict.
-/

set_option autoImplicit false

namespace AccessStack.Release
open AccessStack.Text AccessStack.Rows AccessStack.JsonText

def Request.op (now : String) : Request → Op
  | .create request => .createRun request now
  | .record operationId input actorId => .recordStepOutcome operationId input actorId now
  | .reconcile operationId input => .reconcileOperation operationId input now
  | .resolve runId gateId input => .resolveHealthGate runId gateId input now

def Request.digest (h : Host) (q : Request) : String := h.sha256 (q.text h)

/-- What an operation checks of its arguments before it looks at the key. -/
def Request.check (o : Orchestrator) : Request → Fallible Unit
  | .create request => do
    validateRunRequest request
    let _ ← requireBlueprint o request.blueprintId request.blueprintVersion
  | .record operationId input actorId => do
    validateIdentifier operationId "operationId"
    validateActor actorId
    validateOutcomeCode input.outcomeCode
  | .reconcile operationId input => do
    validateIdentifier operationId "operationId"
    validateIdempotencyKey input.idempotencyKey
    validateActor input.actorId
    failIf (input.outcome != .stillUnknown && (input.evidence.getD []).isEmpty) .invalidArgument
      "A conclusive reconciliation requires evidence proving the external state."
  | .resolve runId gateId input => do
    validateRunId runId
    validateIdentifier gateId "gateId"
    validateIdempotencyKey input.idempotencyKey
    validateActor input.actorId
    failIf (input.outcome == .passed && input.evidence.isEmpty) .invalidArgument
      "A passing health gate requires evidence."

def Ledger.latestOf (L : Ledger) (operationId : String) : Option AttemptRow :=
  Ledger.latestAttempt (L.stepAttempts.filter (·.operationId == operationId))

/-- The digest in the ledger under the key of a request. An operation that a
reconciliation has closed has no digest of a result. -/
def Request.stored (L : Ledger) : Request → Option (Option String)
  | .create request =>
    (L.releaseRuns.find? (·.createIdempotencyKey == request.idempotencyKey)).map
      fun r => some r.createRequestSha256
  | .record operationId _ _ =>
    ((L.latestOf operationId).filter fun a => a.status == .succeeded || a.status == .failed).map
      fun a => a.resultRequestSha256
  | .reconcile operationId input =>
    (L.latestOf operationId).bind fun a =>
      (L.operationReconciliations.find? fun row =>
        row.runId == a.runId && row.idempotencyKey == input.idempotencyKey).map
          fun row => some row.requestSha256
  | .resolve runId _ input =>
    (L.healthGateDecisions.find? fun row =>
      row.runId == runId && row.idempotencyKey == input.idempotencyKey).map
        fun row => some row.requestSha256

section Calls
variable {o : Orchestrator} {L : Ledger} {now : String}

theorem respond_error {α : Type} {f : α → Response} {x : Fallible (α × Ledger)}
    {e : OrchestratorError} : respond f x = .error e ↔ x = .error e := by
  cases x <;> simp [respond, Except.map]

/-- The checks come first, so their errors are those of the call. -/
theorem call_unchecked {q : Request} {e : OrchestratorError} (h : q.check o = .error e) :
    call o L (q.op now) = .error e := by
  cases q with
  | create request =>
    refine respond_error.mpr (fails_mono h fun _ h => fails_first ?_)
    exact (bind_error.mp h).resolve_right fun ⟨_, _, h⟩ => by cases h
  | record operationId input actorId =>
    exact respond_error.mpr (fails_mono h fun _ h => fails_mono h fun _ h => fails_first h)
  | reconcile operationId input =>
    exact respond_error.mpr (fails_mono h fun _ h => fails_mono h fun _ h =>
      fails_mono h fun _ h => fails_first h)
  | resolve runId gateId input =>
    exact respond_error.mpr (fails_mono h fun _ h => fails_mono h fun _ h =>
      fails_mono h fun _ h => fails_mono h fun _ h => fails_first h)

/-- Every error of the computation has one of the codes. -/
def Refuses {α : Type} (codes : List ErrorCode) (x : Fallible α) : Prop :=
  ∀ e, x = .error e → e.code ∈ codes

theorem refuses_bind {α β : Type} {codes : List ErrorCode} {x : Fallible α} {f : α → Fallible β}
    (hx : Refuses codes x) (hf : ∀ a, Refuses codes (f a)) : Refuses codes (x >>= f) := by
  intro e h
  rcases bind_error.mp h with h | ⟨a, _, h⟩
  · exact hx e h
  · exact hf a e h

theorem refuses_failIf {codes : List ErrorCode} {c : Bool} {code : ErrorCode} {message : String}
    (h : code ∈ codes) : Refuses codes (failIf c code message) := by
  intro e he
  cases c with
  | true =>
    obtain rfl : ⟨code, message⟩ = e := by simpa [failIf, fail] using he
    exact h
  | false => cases he

theorem requireBlueprint_refuses (id : String) (version : ℤ) :
    Refuses [.invalidArgument, .blueprintNotFound] (requireBlueprint o id version) := by
  intro e h
  unfold requireBlueprint at h
  split at h
  · cases h
  · obtain rfl : _ = e := by simpa [fail] using h
    simp

/-- A check never reports a conflict. -/
theorem check_refuses (q : Request) : Refuses [.invalidArgument, .blueprintNotFound] (q.check o) := by
  have hfail : ∀ (c : Bool) (message : String), Refuses [.invalidArgument, .blueprintNotFound]
      (failIf c .invalidArgument message) := fun c message => refuses_failIf (by simp)
  cases q with
  | create request =>
    refine refuses_bind ?_ fun _ => refuses_bind (requireBlueprint_refuses _ _) fun _ e h => by cases h
    refine refuses_bind (hfail _ _) fun _ => refuses_bind (hfail _ _) fun _ => ?_
    refine refuses_bind (hfail _ _) fun _ => refuses_bind (hfail _ _) fun _ => ?_
    exact refuses_bind (hfail _ _) fun _ => hfail _ _
  | record operationId input actorId =>
    exact refuses_bind (hfail _ _) fun _ => refuses_bind (hfail _ _) fun _ => hfail _ _
  | reconcile operationId input =>
    refine refuses_bind (hfail _ _) fun _ => refuses_bind (hfail _ _) fun _ => ?_
    exact refuses_bind (hfail _ _) fun _ => hfail _ _
  | resolve runId gateId input =>
    refine refuses_bind (hfail _ _) fun _ => refuses_bind (hfail _ _) fun _ => ?_
    refine refuses_bind (hfail _ _) fun _ => refuses_bind (hfail _ _) fun _ => ?_
    exact hfail _ _

/-- After the checks the stored digest decides: the call answers with the run
it belongs to, or it is a conflict. -/
theorem call_stored {q : Request} (hL : Written o L) (hc : q.check o = .ok ())
    {stored : Option String} (hs : q.stored L = some stored) :
    ((∀ sha ∈ stored, sha = q.digest o.host) → ∃ r, call o L (q.op now) = .ok (r, L)) ∧
      ((∃ sha ∈ stored, sha ≠ q.digest o.host) →
        ∃ e, call o L (q.op now) = .error e ∧ e.code = .idempotencyKeyConflict) := by
  cases q with
  | create request =>
    obtain ⟨_, hv, hc⟩ := bind_ok.mp hc
    obtain ⟨b, hb, _⟩ := bind_ok.mp hc
    obtain ⟨run, hrun, rfl⟩ := Option.map_eq_some_iff.mp hs
    obtain ⟨snapshot, hget⟩ := getRun_accepted
      (hL.hasRun (List.mem_map_of_mem (List.mem_of_find?_eq_some hrun)))
    constructor
    · intro heq
      have hsha : run.createRequestSha256 = createRequestDigest o.host request := heq _ rfl
      exact ⟨.created ⟨snapshot, false⟩, by simp [Request.op, call, createRun, hv, hb, hrun, hsha, hget,
        respond, bind, Except.bind, failIf, pure, Except.pure, Except.map]⟩
    · rintro ⟨sha, ⟨⟩, hne⟩
      have hsha : run.createRequestSha256 ≠ createRequestDigest o.host request := hne
      simp [Request.op, call, createRun, hv, hb, hrun, hsha, respond, bind, Except.bind, failIf,
        fail, Except.map]
  | record operationId input actorId =>
    obtain ⟨_, h1, hc⟩ := bind_ok.mp hc
    obtain ⟨_, h2, h3⟩ := bind_ok.mp hc
    obtain ⟨a, ha, rfl⟩ := Option.map_eq_some_iff.mp hs
    obtain ⟨ha, hst⟩ : L.latestOf operationId = some a ∧ (a.status = .succeeded ∨ a.status = .failed) := by
      simpa [Option.filter_eq_some_iff] using ha
    obtain ⟨hmem, _⟩ := latest_operation ha
    have hattempt : requireLatestAttempt L operationId = .ok a := requireLatestAttempt_ok.mpr ha
    obtain ⟨step, hstep⟩ : ∃ step, requireStep L a.runId a.stepId = .ok step := by
      obtain ⟨s, hs, e1, e2⟩ := hL.keyed.attemptStep a hmem
      exact ⟨s, requireStep_ok.mpr (e1 ▸ e2 ▸ hL.keyed.find_step hs)⟩
    obtain ⟨snapshot, hget⟩ := getRun_accepted (hL.hasRun (attempt_run hL.keyed hmem))
    constructor
    · intro heq
      have hsha : (a.resultRequestSha256.any (· != resultDigest o.host input actorId)) = false := by
        cases hr : a.resultRequestSha256 with
        | none => rfl
        | some sha =>
          have : sha = resultDigest o.host input actorId := heq sha hr
          simp [this]
      exact ⟨.run snapshot, by simp [Request.op, call, recordStepOutcome, h1, h2, h3, hattempt, hstep,
        hst, hsha, hget, respond, bind, Except.bind, failIf, pure, Except.pure, Except.map]⟩
    · rintro ⟨sha, hr, hne⟩
      have hsha : (a.resultRequestSha256.any (· != resultDigest o.host input actorId)) = true := by
        have hne : sha ≠ resultDigest o.host input actorId := hne
        rw [Option.mem_def.mp hr]
        simpa using hne
      simp [Request.op, call, recordStepOutcome, h1, h2, h3, hattempt, hstep, hst, hsha, respond,
        bind, Except.bind, failIf, fail, Except.map]
  | reconcile operationId input =>
    obtain ⟨_, h1, hc⟩ := bind_ok.mp hc
    obtain ⟨_, h2, hc⟩ := bind_ok.mp hc
    obtain ⟨_, h3, h4⟩ := bind_ok.mp hc
    obtain ⟨a, ha, hfound⟩ := Option.bind_eq_some_iff.mp hs
    obtain ⟨row, hrow, rfl⟩ := Option.map_eq_some_iff.mp hfound
    rw [failIf_ok] at h4
    have hattempt : requireLatestAttempt L operationId = .ok a := requireLatestAttempt_ok.mpr ha
    obtain ⟨snapshot, hget⟩ := getRun_accepted
      (hL.hasRun (attempt_run hL.keyed (latest_operation ha).1))
    constructor
    · intro heq
      have hsha : row.requestSha256 = reconciliationDigest o.host operationId input := heq _ rfl
      refine ⟨.run snapshot, ?_⟩
      simp only [Request.op, call, reconcileOperation, h1, h2, h3, failIf, h4, hattempt, hrow, bind,
        Except.bind]
      simp [hsha, hget, respond, pure, Except.pure, Except.map]
    · rintro ⟨sha, ⟨⟩, hne⟩
      have hsha : row.requestSha256 ≠ reconciliationDigest o.host operationId input := hne
      simp only [Request.op, call, reconcileOperation, h1, h2, h3, failIf, h4, hattempt, hrow, bind,
        Except.bind]
      simp [hsha, respond, fail, Except.map]
  | resolve runId gateId input =>
    obtain ⟨_, h1, hc⟩ := bind_ok.mp hc
    obtain ⟨_, h2, hc⟩ := bind_ok.mp hc
    obtain ⟨_, h3, hc⟩ := bind_ok.mp hc
    obtain ⟨_, h4, h5⟩ := bind_ok.mp hc
    rw [failIf_ok] at h5
    obtain ⟨row, hrow, rfl⟩ := Option.map_eq_some_iff.mp hs
    have hknown : runId ∈ L.releaseRuns.map (·.runId) := by
      have hid : row.runId = runId ∧ row.idempotencyKey = input.idempotencyKey := by
        simpa using List.find?_some hrow
      exact hid.1 ▸ hL.keyed.decisionRun row (List.mem_of_find?_eq_some hrow)
    obtain ⟨run, hrun⟩ := hasRun_iff.mpr hknown
    have hrequire : requireRun L runId = .ok run := requireRun_ok.mpr hrun
    obtain ⟨snapshot, hget⟩ := getRun_accepted (hL.hasRun hknown)
    constructor
    · intro heq
      have hsha : row.requestSha256 = decisionDigest o.host runId gateId input := heq _ rfl
      refine ⟨.run snapshot, ?_⟩
      simp only [Request.op, call, resolveHealthGate, h1, h2, h3, h4, failIf, h5, hrequire, hrow, bind,
        Except.bind]
      simp [hsha, hget, respond, pure, Except.pure, Except.map]
    · rintro ⟨sha, ⟨⟩, hne⟩
      have hsha : row.requestSha256 ≠ decisionDigest o.host runId gateId input := hne
      simp only [Request.op, call, resolveHealthGate, h1, h2, h3, h4, failIf, h5, hrequire, hrow, bind,
        Except.bind]
      simp [hsha, respond, fail, Except.map]

end Calls

section Kept
variable {o : Orchestrator} {L L' : Ledger} {w : Write}

theorem find_extended {α : Type} {p : α → Bool} {l m : List α} (h : l <+: m) {x : α}
    (hx : l.find? p = some x) : m.find? p = some x := by
  obtain ⟨rest, rfl⟩ := h
  rw [List.find?_append, hx]
  rfl

/-- Reconciliations and decisions are never rewritten. -/
theorem keyed_rows_kept (h : Host) (L : Ledger) (w : Write) :
    L.operationReconciliations <+: (perform h L w).operationReconciliations ∧
      L.healthGateDecisions <+: (perform h L w).healthGateDecisions := by
  cases w with
  | note a op input sha now => exact ⟨List.prefix_append _ _, List.prefix_rfl⟩
  | decide r g input sha ids now =>
    have hd : L.operationReconciliations <+:
        (insertDecision h L r g input sha ids now).operationReconciliations ∧
        L.healthGateDecisions <+: (insertDecision h L r g input sha ids now).healthGateDecisions :=
      ⟨List.prefix_rfl, List.prefix_append _ _⟩
    simp only [perform]
    split <;> exact hd
  | begin row key now =>
    simp only [perform, insertAttempt, afterOperation]
    split <;> exact ⟨List.prefix_rfl, List.prefix_rfl⟩
  | finish a input sha now =>
    simp only [perform]
    split <;> exact ⟨List.prefix_rfl, List.prefix_rfl⟩
  | settle a d outcome now => cases outcome <;> exact ⟨List.prefix_rfl, List.prefix_rfl⟩
  | resume r now =>
    simp only [perform, resumeIfNoUnknownOperations]
    split <;> exact ⟨List.prefix_rfl, List.prefix_rfl⟩
  | _ => exact ⟨List.prefix_rfl, List.prefix_rfl⟩

theorem stored_create (L : Ledger) (request : RunRequest) :
    (Request.create request).stored L = ((L.releaseRuns.map RunRow.ident).find?
      (·.2.1 == request.idempotencyKey)).map fun i => some i.2.2.2.2 := by
  rw [List.find?_map, Option.map_map]
  rfl

/-- The attempts of a finished operation are final. -/
theorem latest_final (hL : Written o L) (hg : Guard o L w)
    (hn : NoCollision o.host (perform o.host L w)) {operationId : String} {a : AttemptRow}
    (ha : L.latestOf operationId = some a) (hst : a.status = .succeeded ∨ a.status = .failed) :
    (perform o.host L w).latestOf operationId = some a := by
  obtain ⟨hmem, rfl⟩ := latest_operation ha
  obtain ⟨s, hs, hof, hop, _⟩ := hL.attempt_step hmem
  have hfinal : s.status = .succeeded ∨ s.status = .failed := by
    rw [hL.open_step hmem (by rcases hst with h | h <;> simp [h]) hs hof]
    rcases hst with h | h <;> simp [h, stepStatusOf]
  obtain ⟨hs', hattempts⟩ := frozen_perform hL hg hs hfinal
  rw [Ledger.latestOf, (hL.write w hg hn).operation_attempts hs' hop, hattempts,
    ← hL.operation_attempts hs hop]
  exact ha

/-- An operation stays an operation of its run. -/
theorem latest_run (hL : Written o L) (hg : Guard o L w)
    (hn : NoCollision o.host (perform o.host L w)) {operationId : String} {a : AttemptRow}
    (ha : L.latestOf operationId = some a) :
    ∃ a', (perform o.host L w).latestOf operationId = some a' ∧ a'.runId = a.runId := by
  have hL' := hL.write w hg hn
  obtain ⟨hmem, rfl⟩ := latest_operation ha
  obtain ⟨b, hb, hrun, hop⟩ : ∃ b ∈ (perform o.host L w).stepAttempts, b.runId = a.runId ∧
      b.operationId = a.operationId := by
    by_cases hw : ∃ row key t, w = .begin row key t
    · obtain ⟨row, key, t, rfl⟩ := hw
      exact ⟨a, by rw [begin_attempts]; exact List.mem_append_left _ hmem, rfl, rfl⟩
    · push Not at hw
      obtain ⟨b, hb, hid⟩ := mem_of_map_eq (attempts_ident hg hw).symm hmem
      exact ⟨b, hb, congrArg (·.2.1) hid, congrArg (·.2.2.2.2.1) hid⟩
  obtain ⟨s, hs, hof, hsop, _⟩ := hL'.attempt_step hb
  rw [hop] at hsop
  obtain ⟨a', ha', hlatest, hof', _⟩ := hL'.latest_attempt hs hsop
  simp only [ofStep, Bool.and_eq_true, beq_iff_eq] at hof hof'
  exact ⟨a', hlatest, hof'.1.trans (hof.1.symm.trans hrun)⟩

theorem stored_perform (hL : Written o L) (hg : Guard o L w)
    (hn : NoCollision o.host (perform o.host L w)) {q : Request} {stored : Option String}
    (hs : q.stored L = some stored) : q.stored (perform o.host L w) = some stored := by
  cases q with
  | create request =>
    rw [stored_create] at hs ⊢
    by_cases hw : ∃ b r t, w = .insertRun b r t
    · obtain ⟨b, r, t, rfl⟩ := hw
      obtain ⟨i, hi, hsha⟩ := Option.map_eq_some_iff.mp hs
      have hruns : (perform o.host L (.insertRun b r t)).releaseRuns.map RunRow.ident =
          L.releaseRuns.map RunRow.ident ++ [_] := List.map_append
      rw [hruns, find_extended (List.prefix_append _ _) hi, Option.map_some, hsha]
    · push Not at hw
      rw [runs_ident hw]
      exact hs
  | record operationId input actorId =>
    obtain ⟨a, ha, rfl⟩ := Option.map_eq_some_iff.mp hs
    obtain ⟨ha, hst⟩ : L.latestOf operationId = some a ∧
        (a.status = .succeeded ∨ a.status = .failed) := by
      simpa [Option.filter_eq_some_iff] using ha
    rw [Request.stored, latest_final hL hg hn ha hst, Option.filter_some, if_pos (by simpa using hst),
      Option.map_some]
  | reconcile operationId input =>
    obtain ⟨a, ha, hrow⟩ := Option.bind_eq_some_iff.mp hs
    obtain ⟨row, hfind, hsha⟩ := Option.map_eq_some_iff.mp hrow
    obtain ⟨a', ha', hrun⟩ := latest_run hL hg hn ha
    have hfind' := find_extended (keyed_rows_kept o.host L w).1 hfind
    rw [← hrun] at hfind'
    rw [Request.stored, ha', Option.bind_some, hfind', Option.map_some, hsha]
  | resolve runId gateId input =>
    obtain ⟨row, hfind, hsha⟩ := Option.map_eq_some_iff.mp hs
    rw [Request.stored, find_extended (keyed_rows_kept o.host L w).2 hfind, Option.map_some, hsha]

theorem stored_commits {ws : List Write} (hL : Written o L) (h : Commits o L ws L')
    (hn : NoCollision o.host L') {q : Request} {stored : Option String}
    (hs : q.stored L = some stored) : q.stored L' = some stored :=
  (hL.along (P := fun L1 => q.stored L1 = some stored)
    (fun _ _ _ hL1 hg hn1 hs1 => stored_perform hL1 hg hn1 hs1) h hn hs).2

theorem stored_exec {ops : List Op} (hL : Reached o L) (hn : NoCollision o.host (exec o L ops))
    {q : Request} {stored : Option String} (hs : q.stored L = some stored) :
    q.stored (exec o L ops) = some stored :=
  hL.along (P := fun L1 => q.stored L1 = some stored)
    (fun _ _ hL1 hg hn1 hs1 => stored_perform hL1 hg hn1 hs1) hn hs

end Kept

section Accepted
variable {o : Orchestrator} {L L' : Ledger}

theorem accepted_checked {q : Request} {now : String} {r : Response}
    (h : call o L (q.op now) = .ok (r, L')) : q.check o = .ok () := by
  cases hc : q.check o with
  | ok u => rfl
  | error e =>
    rw [call_unchecked hc] at h
    cases h

/-- The result that has just been recorded is that of the latest attempt. -/
theorem finish_stored {a : AttemptRow} {input : RecordStepOutcomeInput} {sha now operationId : String}
    (hL : Written o L) (ha : L.latestOf operationId = some a)
    (hg : Guard o L (.finish a input sha now))
    (hn : NoCollision o.host (perform o.host L (.finish a input sha now))) (actorId : String) :
    (Request.record operationId input actorId).stored (perform o.host L (.finish a input sha now)) =
      some (some sha) := by
  have hL' := hL.write _ hg hn
  obtain ⟨hmem, rfl⟩ := latest_operation ha
  obtain ⟨s, hs, hof, hop, _⟩ := hL.attempt_step hmem
  have hattempts : (perform o.host L (.finish a input sha now)).stepAttempts =
      (finishAttempt L a input sha now).stepAttempts := by
    simp only [perform]
    split <;> rfl
  have hsteps : (perform o.host L (.finish a input sha now)).runSteps =
      (finishAttempt L a input sha now).runSteps := by
    simp only [perform]
    split <;> rfl
  simp only [ofStep, Bool.and_eq_true, beq_iff_eq] at hof
  obtain ⟨s', hs', hof', hop', hst'⟩ : ∃ s' ∈ (perform o.host L (.finish a input sha now)).runSteps,
      (s'.runId = a.runId ∧ s'.stepId = a.stepId) ∧ s'.operationId = some a.operationId ∧
        (s'.status = .succeeded ∨ s'.status = .failed) := by
    rw [hsteps]
    refine ⟨_, mem_update.mpr ⟨s, hs, rfl⟩, ?_⟩
    rw [if_pos (by simp [hof])]
    refine ⟨⟨hof.1.symm, hof.2.symm⟩, hop, ?_⟩
    dsimp only
    split <;> simp
  obtain ⟨b, hb, hlatest, hbof, hbst⟩ := hL'.latest_attempt hs' hop'
  have hbfinal : b.status = .succeeded ∨ b.status = .failed := by
    rcases hst' with h | h <;> rw [h] at hbst <;> cases hc : b.status <;>
      simp [hc, stepStatusOf] at hbst ⊢
  have hbsha : b.resultRequestSha256 = some sha := by
    rw [hattempts] at hb
    obtain ⟨c, hc, rfl⟩ := mem_update.mp hb
    split
    · rfl
    · rename_i hne
      rw [if_neg hne] at hbof hbfinal
      exfalso
      -- Before the write an attempt with a result would have been the last one.
      have hcof : ofStep s c = true := by
        simp only [ofStep, Bool.and_eq_true, beq_iff_eq] at hbof ⊢
        exact ⟨hbof.1.trans (hof'.1.trans hof.1), hbof.2.trans (hof'.2.trans hof.2)⟩
      have h1 := hL.open_step hc (by rcases hbfinal with h | h <;> simp [h]) hs hcof
      have h2 := hL.open_step hmem (by simp [hg.2.1]) hs (by simp [ofStep, hof])
      rw [h1, hg.2.1] at h2
      rcases hbfinal with h | h <;> simp [h, stepStatusOf] at h2
  rw [Request.stored, Ledger.latestOf, hlatest, Option.filter_some,
    if_pos (by simpa using hbfinal), Option.map_some, hbsha]

theorem accepted_stored {q : Request} {now : String} {r : Response} (hL : Written o L)
    (h : call o L (q.op now) = .ok (r, L')) (hn : NoCollision o.host L') :
    ∃ stored, q.stored L' = some stored ∧ ∀ sha ∈ stored, sha = q.digest o.host := by
  cases q with
  | create request =>
    obtain ⟨result, hok, _⟩ := respond_ok h
    obtain ⟨rfl, run, hrun, hsha⟩ | ⟨b, log, hl, hw⟩ := createRun_writes hok
    · exact ⟨some run.createRequestSha256, by rw [Request.stored, hrun]; rfl, by rintro _ ⟨⟩; exact hsha⟩
    · obtain ⟨L1, hinsert, hlog⟩ := commits_split [_] hw
      have hn1 := hn.mono (draws_commits hlog)
      refine ⟨some (createRequestDigest o.host request),
        stored_commits (hL.commits hinsert hn1) hlog hn ?_, by rintro _ ⟨⟩; rfl⟩
      obtain ⟨⟨hg, _⟩, rfl⟩ := hinsert
      have hnone : L.releaseRuns.find? (·.createIdempotencyKey == request.idempotencyKey) = none :=
        List.find?_eq_none.mpr fun r hr => by simpa using hg.2 r hr
      simp only [Request.stored, performAll_cons, performAll_nil, perform, insertRun,
        List.find?_append, hnone, Option.none_or]
      simp
  | record operationId input actorId =>
    obtain ⟨result, hok, _⟩ := respond_ok h
    obtain ⟨a, ha, ⟨rfl, hst, hsha⟩ | ⟨rows, L1, tail, log, hl, _, hw, ht, _⟩⟩ :=
      recordStepOutcome_writes hok
    · refine ⟨a.resultRequestSha256, ?_, hsha⟩
      have ha : L'.latestOf operationId = some a := ha
      rw [Request.stored, ha, Option.filter_some, if_pos (by simpa using hst), Option.map_some]
    · refine ⟨some (resultDigest o.host input actorId), ?_, by rintro _ ⟨⟩; rfl⟩
      have hall := commits_append hw ht
      obtain ⟨L2, hfinish, hrest⟩ := commits_split [_, _] hall
      have hn2 := hn.mono (draws_commits hrest)
      refine stored_commits (hL.commits hfinish hn2) hrest hn ?_
      obtain ⟨L3, hev, hfin⟩ := commits_split [_] hfinish
      have hL3 := hL.commits hev (hn2.mono (draws_commits hfin))
      obtain ⟨_, rfl⟩ := hev
      obtain ⟨⟨hg, _⟩, rfl⟩ := hfin
      exact finish_stored hL3 ha hg hn2 actorId
  | reconcile operationId input =>
    obtain ⟨result, hok, _⟩ := respond_ok h
    obtain ⟨a, ha, ⟨rfl, row, hrow, hsha⟩ | ⟨rows, s, L1, tail, log, hl, _, _, _, hw, ht, _⟩⟩ :=
      reconcileOperation_writes hok
    · refine ⟨some row.requestSha256, ?_, by rintro _ ⟨⟩; exact hsha⟩
      have ha : L'.latestOf operationId = some a := ha
      rw [Request.stored, ha, Option.bind_some, hrow, Option.map_some]
    · refine ⟨some (reconciliationDigest o.host operationId input), ?_, by rintro _ ⟨⟩; rfl⟩
      have hall := commits_append hw ht
      obtain ⟨L2, hnote, hrest⟩ := commits_split [_, _] hall
      refine stored_commits (hL.commits hnote (hn.mono (draws_commits hrest))) hrest hn ?_
      obtain ⟨⟨_, hg, _⟩, rfl⟩ := hnote
      have ha : (perform o.host (perform o.host L (.evidence rows)) (.note a operationId input
          (reconciliationDigest o.host operationId input) now)).latestOf operationId = some a := ha
      have hnone : L.operationReconciliations.find? (fun row =>
          row.runId == a.runId && row.idempotencyKey == input.idempotencyKey) = none := by
        refine List.find?_eq_none.mpr fun row hr hm => ?_
        simp only [Bool.and_eq_true, beq_iff_eq] at hm
        exact hg.2.2.2 row hr hm.1 hm.2
      rw [performAll_cons, performAll_cons, performAll_nil, Request.stored, ha, Option.bind_some]
      simp only [perform, insertReconciliation, List.find?_append, hnone, Option.none_or]
      simp
  | resolve runId gateId input =>
    obtain ⟨result, hok, _⟩ := respond_ok h
    obtain ⟨rfl, row, hrow, hsha⟩ | ⟨rows, ids, L1, tail, log, hl, _, hw, ht, _⟩ :=
      resolveHealthGate_writes hok
    · exact ⟨some row.requestSha256, by rw [Request.stored, hrow]; rfl, by rintro _ ⟨⟩; exact hsha⟩
    · refine ⟨some (decisionDigest o.host runId gateId input), ?_, by rintro _ ⟨⟩; rfl⟩
      have hall := commits_append hw ht
      obtain ⟨L2, hdecide, hrest⟩ := commits_split [_, _] hall
      refine stored_commits (hL.commits hdecide (hn.mono (draws_commits hrest))) hrest hn ?_
      obtain ⟨⟨_, hg, _⟩, rfl⟩ := hdecide
      have hnone : L.healthGateDecisions.find? (fun row =>
          row.runId == runId && row.idempotencyKey == input.idempotencyKey) = none := by
        refine List.find?_eq_none.mpr fun row hr hm => ?_
        simp only [Bool.and_eq_true, beq_iff_eq] at hm
        exact (hg.2.2.2.1 row hr hm.1).2 hm.2
      have hdecisions : ∀ L : Ledger, (perform o.host L (.decide runId gateId input
          (decisionDigest o.host runId gateId input) ids now)).healthGateDecisions =
          (insertDecision o.host L runId gateId input (decisionDigest o.host runId gateId input) ids
            now).healthGateDecisions := by
        intro L
        simp only [perform]
        split <;> rfl
      rw [performAll_cons, performAll_cons, performAll_nil, Request.stored, hdecisions]
      simp only [insertDecision, perform, Ledger.setGate, List.find?_append, hnone, Option.none_or]
      simp

end Accepted

/-- Two requests of one kind with the same key: create keys are global, results
are keyed by their operation, reconciliations and decisions by their run. -/
def SameKey (L : Ledger) : Request → Request → Prop
  | .create q, .create q' => q.idempotencyKey = q'.idempotencyKey
  | .record operationId _ _, .record operationId' _ _ => operationId = operationId'
  | .reconcile operationId input, .reconcile operationId' input' =>
    input.idempotencyKey = input'.idempotencyKey ∧ ∃ a a', L.latestOf operationId = some a ∧
      L.latestOf operationId' = some a' ∧ a.runId = a'.runId
  | .resolve runId _ input, .resolve runId' _ input' =>
    runId = runId' ∧ input.idempotencyKey = input'.idempotencyKey
  | _, _ => False

theorem sameKey_stored {L : Ledger} {q q' : Request} (h : SameKey L q q') :
    q'.stored L = q.stored L := by
  cases q <;> cases q' <;> simp only [SameKey] at h
  · simp only [Request.stored, h]
  · simp only [Request.stored, h]
  · obtain ⟨hkey, a, a', ha, ha', hrun⟩ := h
    simp only [Request.stored, ha, ha', Option.bind_some, hkey, hrun]
  · simp only [Request.stored, h]

/-- The digests of the two requests are different if their texts are. -/
def Distinguished (h : Host) (q q' : Request) : Prop :=
  h.sha256 (q.text h) = h.sha256 (q'.text h) → q.text h = q'.text h

/-- What makes the second request different is in a digest that was stored: the
operation was not closed by a reconciliation, and a decision differs in more
than the actor. -/
def Request.differs (L : Ledger) : Request → Request → Prop
  | .record operationId _ _, .record _ _ _ =>
    ∃ a, L.latestOf operationId = some a ∧ a.resultRequestSha256 ≠ none
  | .resolve _ gateId input, .resolve _ gateId' input' =>
    ¬(gateId = gateId' ∧ input.outcome = input'.outcome ∧ input.evidence = input'.evidence)
  | _, _ => True

/-- The second request also passes the checks of its arguments. -/
def Covered (o : Orchestrator) (L : Ledger) (q q' : Request) : Prop :=
  q'.check o = .ok () ∧ q.differs L q'

theorem covered_iff {o : Orchestrator} {L : Ledger} {q q' : Request} {stored : Option String}
    (hs : q.stored L = some stored) (heq : ∀ sha ∈ stored, sha = q.digest o.host)
    (hkey : SameKey L q q') (hargs : q'.arguments ≠ q.arguments) (hd : Distinguished o.host q q') :
    Covered o L q q' ↔ q'.check o = .ok () ∧ ∃ sha ∈ stored, sha ≠ q'.digest o.host := by
  have htext : q.digest o.host ≠ q'.digest o.host ↔ q.text o.host ≠ q'.text o.host :=
    not_congr ⟨hd, congrArg o.host.sha256⟩
  have hstored : (∃ sha ∈ stored, sha ≠ q'.digest o.host) ↔
      stored ≠ none ∧ q.text o.host ≠ q'.text o.host := by
    cases stored with
    | none => simp
    | some sha =>
      obtain rfl := heq sha rfl
      simpa using htext
  rw [hstored, Covered]
  refine and_congr_right fun _ => ?_
  cases q <;> cases q' <;> simp only [SameKey] at hkey
  · obtain ⟨run, _, rfl⟩ := Option.map_eq_some_iff.mp hs
    have hne : (Request.create _).text o.host ≠ (Request.create _).text o.host :=
      fun htext => hargs (congrArg Request.create (create_text hkey htext)).symm
    simpa [Request.differs] using hne
  · obtain ⟨a, ha, rfl⟩ := Option.map_eq_some_iff.mp hs
    obtain ⟨ha, _⟩ := Option.filter_eq_some_iff.mp ha
    subst hkey
    have hne : (Request.record _ _ _).text o.host ≠ (Request.record _ _ _).text o.host :=
      fun htext => hargs (record_text htext).symm
    simp only [Request.differs, ha, Option.some.injEq, exists_eq_left']
    exact ⟨fun h => ⟨h, hne⟩, fun h => h.1⟩
  · obtain ⟨a, _, hrow⟩ := Option.bind_eq_some_iff.mp hs
    obtain ⟨row, _, rfl⟩ := Option.map_eq_some_iff.mp hrow
    have hne : (Request.reconcile _ _).text o.host ≠ (Request.reconcile _ _).text o.host :=
      fun htext => hargs (reconcile_text hkey.1 htext).symm
    simpa [Request.differs] using hne
  · obtain ⟨row, _, rfl⟩ := Option.map_eq_some_iff.mp hs
    obtain ⟨rfl, _⟩ := hkey
    rw [Request.differs, Ne, Ne, resolve_text]
    simp

/-- A request that was accepted once is answered again at any later time and
changes nothing. Another request with its key is a conflict exactly when its
difference is covered. -/
theorem resubmission {o : Orchestrator} {L : Ledger} (hO : Opened o L) (before later : List Op)
    (q : Request) (now : String) {r : Response} {L1 : Ledger}
    (haccepted : call o (exec o L before) (q.op now) = .ok (r, L1))
    (hn : NoCollision o.host (exec o L1 later)) :
    (∀ now', ∃ r', call o (exec o L1 later) (q.op now') = .ok (r', exec o L1 later)) ∧
    ∀ q' now', SameKey (exec o L1 later) q q' → q'.arguments ≠ q.arguments →
      Distinguished o.host q q' →
        ((∃ e, call o (exec o L1 later) (q'.op now') = .error e ∧
          e.code = .idempotencyKeyConflict ∧
          step o (exec o L1 later) (q'.op now') = exec o L1 later) ↔
            Covered o (exec o L1 later) q q') := by
  have hstep : step o (exec o L before) (q.op now) = L1 := step_ok haccepted
  have hn1 := hn.mono (draws_exec o L1 later)
  have hL : Reached o (exec o L before) := by
    refine (Reached.opened hO).exec (hn1.mono ?_)
    exact hstep ▸ draws_step o _ (q.op now)
  have hL1 : Reached o L1 := by
    rw [← hstep] at hn1 ⊢
    exact hL.step _ hn1
  have hL2 := (hL1.exec hn).written
  obtain ⟨stored, hs, heq⟩ := accepted_stored hL.written haccepted hn1
  have hs2 := stored_exec hL1 hn hs
  refine ⟨fun now' => (call_stored hL2 (accepted_checked haccepted) hs2).1 heq, ?_⟩
  intro q' now' hkey hargs hd
  rw [covered_iff hs2 heq hkey hargs hd]
  have hs' : q'.stored (exec o L1 later) = some stored := (sameKey_stored hkey).trans hs2
  constructor
  · rintro ⟨e, hcall, hcode, _⟩
    have hc : q'.check o = .ok () := by
      cases hc : q'.check o with
      | ok u => rfl
      | error e' =>
        rw [call_unchecked hc] at hcall
        obtain rfl := Except.error.inj hcall
        have := check_refuses q' e' hc
        simp [hcode] at this
    refine ⟨hc, ?_⟩
    by_contra hsame
    push Not at hsame
    obtain ⟨r', hok⟩ := (call_stored hL2 hc hs').1 hsame
    rw [hok] at hcall
    cases hcall
  · rintro ⟨hc, hne⟩
    obtain ⟨e, hcall, hcode⟩ := (call_stored hL2 hc hs').2 hne
    exact ⟨e, hcall, hcode, step_error hcall⟩

def accepts {α : Type} : Fallible α → Bool
  | .ok _ => true
  | .error _ => false

/-- One measurement of one gate. -/
def decidedBlueprint : Blueprint :=
  sampleBlueprint [sampleGate "health"] [sampleStep "measure" [] [] (some "health")]

def decidedOps : List Op :=
  [.createRun sampleRequest sampleTime, .startRun (sampleId 0) "operator" sampleTime,
    .beginStepAttempt (sampleId 0) "measure" "measure-key" "operator" sampleTime,
    .recordStepOutcome (sampleId 5) ⟨.succeeded, none, some [sampleEvidence]⟩ "operator" sampleTime]

/-- The run is created again by another actor after the decision of its gate. -/
theorem resubmission_created :
    let o := sampleOrchestrator decidedBlueprint
    let L := exec o (sampleLedger decidedBlueprint) decidedOps
    (∃ r, call o L (.createRun sampleRequest sampleTime) = .ok (r, L)) ∧
      ∃ e, call o L (.createRun { sampleRequest with actorId := "auditor" } sampleTime) = .error e ∧
        e.code = .idempotencyKeyConflict := by
  intro o L
  have hv : validateWorkflowBlueprint decidedBlueprint = .ok () := by decide +kernel
  obtain ⟨r, hok⟩ := sample_call (b := decidedBlueprint) rfl rfl
  have hL : exec o (sampleCreated decidedBlueprint) decidedOps.tail = L :=
    (sample_created rfl rfl decidedOps.tail).symm
  have hdraws : (exec o (sampleCreated decidedBlueprint) decidedOps.tail).draws < 16^12 := by
    decide +kernel
  have hrun : sampleHost.sha256 ((Request.create sampleRequest).text sampleHost) ≠ sampleHost.sha256
        ((Request.create { sampleRequest with actorId := "auditor" }).text sampleHost) ∧
      validateRunRequest { sampleRequest with actorId := "auditor" } = .ok () ∧
      requireBlueprint o "sample" 1 = .ok decidedBlueprint ∧
      sampleRequest.actorId ≠ "auditor" := by decide +kernel
  obtain ⟨hsha, hvalid, hblueprint, hactor⟩ := hrun
  have hcheck : (Request.create { sampleRequest with actorId := "auditor" }).check o = .ok () := by
    exact bind_ok.mpr ⟨(), hvalid, bind_ok.mpr ⟨decidedBlueprint, hblueprint, rfl⟩⟩
  obtain ⟨hrepeat, hconflict⟩ := resubmission (sample_opened hv) [] decidedOps.tail
    (.create sampleRequest) sampleTime hok (sample_distinct hdraws)
  rw [hL] at hrepeat hconflict
  refine ⟨hrepeat sampleTime, ?_⟩
  obtain ⟨e, hcall, hcode, _⟩ := (hconflict (.create { sampleRequest with actorId := "auditor" })
    sampleTime rfl (fun h => hactor (congrArg RunRequest.actorId (Request.create.inj h)).symm)
    (fun h => absurd h hsha)).mpr ⟨hcheck, trivial⟩
  exact ⟨e, hcall, hcode⟩

theorem decision_actor_ignored :
    let o := sampleOrchestrator decidedBlueprint
    let L := exec o (sampleLedger decidedBlueprint) decidedOps
    let q := fun actorId => Request.resolve (sampleId 0) "health"
      ⟨"decision", .passed, [sampleEvidence], actorId⟩
    let L1 := step o L ((q "operator").op sampleTime)
    Reached o L1 ∧ accepts (call o L ((q "operator").op sampleTime)) = true ∧
      SameKey L1 (q "operator") (q "auditor") ∧ (q "auditor").arguments ≠ (q "operator").arguments ∧
      accepts (call o L1 ((q "auditor").op sampleTime)) = true := by
  intro o L q L1
  have hv : validateWorkflowBlueprint decidedBlueprint = .ok () := by decide +kernel
  have hrun : L.draws < 16^12 ∧ L1.draws < 16^12 ∧
      accepts (call o L ((q "operator").op sampleTime)) = true ∧
      accepts (call o L1 ((q "auditor").op sampleTime)) = true := by
    have hL : L = exec o (sampleCreated decidedBlueprint) decidedOps.tail := sample_created rfl rfl _
    have hL1 : L1 = step o (exec o (sampleCreated decidedBlueprint) decidedOps.tail)
        ((q "operator").op sampleTime) := congrArg (step o · ((q "operator").op sampleTime)) hL
    rw [hL1, hL]
    decide +kernel
  refine ⟨?_, hrun.2.2.1, ⟨rfl, rfl⟩, by simp [q, Request.arguments], hrun.2.2.2⟩
  have hreached : Reached o L := (Reached.opened (sample_opened hv)).exec
    (sample_distinct (L := L) hrun.1)
  exact hreached.step _ (sample_distinct (L := L1) hrun.2.1)

end AccessStack.Release
