import AccessStack.Release.Attempts

/-!
# When a call is accepted

The inversions of the other modules say what an accepted call has done. Here
are the sufficient conditions for a call to be accepted at all: the checks of
its arguments pass and the ledger is in the state the operation asks for.
-/

set_option autoImplicit false

namespace AccessStack.Release
open AccessStack.Text AccessStack.Rows AccessStack.JsonText

section Checks

theorem hex_alphanum {c : Char} (h : isHexLower c = true) : c.isAlphanum = true := by
  simp only [isHexLower, Bool.or_eq_true, Bool.and_eq_true, decide_eq_true_eq] at h
  rcases h with h | ⟨h1, h2⟩
  · simp [Char.isAlphanum, h]
  · have hlower : c.isLower = true := by
      simp only [Char.isLower, Bool.and_eq_true, decide_eq_true_eq]
      exact ⟨h1, le_trans h2 (by decide)⟩
    simp [Char.isAlphanum, Char.isAlpha, hlower]

theorem drawn_identifier (h : Host) (n : ℕ) : identifierPattern (h.randomUUID n) = true :=
  uuid_bounded (h.randomUUID_format n) (fun _ hc => hex_alphanum hc)
    (fun c hc => by rcases hc with hc | rfl <;> simp [*, hex_alphanum]) (by decide)

theorem drawn_runId (h : Host) (n : ℕ) : isRunId (h.randomUUID n) = true :=
  uuid_exactly (h.randomUUID_format n)

theorem lower_identifier {value : String} (h : isIdentifier value = true) :
    identifierPattern value = true :=
  bounded_mono (fun c hc => by simp [Char.isAlphanum, Char.isAlpha, hc])
    (fun c hc => by
      simp only [Bool.or_eq_true, decide_eq_true_eq] at hc ⊢
      rcases hc with ((hc | hc) | hc) | hc <;>
        simp [Char.isAlphanum, Char.isAlpha, hc]) (by decide) h

/-- The operator every call of a completing history names. -/
theorem operator_valid : actorPattern "operator" = true := by decide +kernel

end Checks

theorem succeeds_bind {α β : Type} {x : Fallible α} {f : α → Fallible β} {a : α} (hx : x = .ok a)
    (hf : ∃ b, f a = .ok b) : ∃ b, (x >>= f) = .ok b := by
  obtain ⟨b, hb⟩ := hf
  exact ⟨b, bind_ok.mpr ⟨a, hx, hb⟩⟩

theorem forM_accepted {α : Type} {xs : List α} {f : α → Fallible Unit}
    (h : ∀ x ∈ xs, f x = .ok ()) : xs.forM f = .ok () := by
  induction xs with
  | nil => rfl
  | cons x xs ih =>
    simp only [List.forM, h x List.mem_cons_self, bind, Except.bind]
    exact ih fun y hy => h y (List.mem_cons_of_mem x hy)

theorem hasRun_iff {L : Ledger} {runId : String} :
    (∃ run, L.run? runId = some run) ↔ runId ∈ L.releaseRuns.map (·.runId) := by
  constructor
  · rintro ⟨run, h⟩
    exact reference_mem h
  · intro h
    obtain ⟨r, hr, he⟩ := List.mem_map.mp h
    have hsome : (L.releaseRuns.find? (·.runId == runId)).isSome = true := by
      rw [List.find?_isSome]
      exact ⟨r, hr, by simpa using he⟩
    exact Option.isSome_iff_exists.mp hsome

/-- The ledger has a run under an identifier that `getRun` accepts. -/
def HasRun (L : Ledger) (runId : String) : Prop :=
  isRunId runId = true ∧ runId ∈ L.releaseRuns.map (·.runId)

theorem Written.hasRun {o : Orchestrator} {L : Ledger} (hL : Written o L) {runId : String}
    (h : runId ∈ L.releaseRuns.map (·.runId)) : HasRun L runId := by
  refine ⟨?_, h⟩
  obtain ⟨r, hr, rfl⟩ := List.mem_map.mp h
  obtain ⟨n, _, he⟩ := hL.keyed.runDrawn r hr
  exact he ▸ drawn_runId o.host n

theorem getRun_accepted {L : Ledger} {runId : String} (h : HasRun L runId) :
    ∃ snapshot, getRun L runId = .ok snapshot := by
  obtain ⟨run, hrun⟩ := hasRun_iff.mpr h.2
  refine succeeds_bind (a := ()) (by simp [validateRunId, h.1]) ?_
  exact succeeds_bind (requireRun_ok.mpr hrun) ⟨_, rfl⟩

theorem answer_accepted {L : Ledger} {runId : String} (h : HasRun L runId) :
    ∃ r, (getRun L runId >>= fun s => (pure (s, L) : Fallible (RunSnapshot × Ledger))) = .ok r := by
  obtain ⟨s, hs⟩ := getRun_accepted h
  exact succeeds_bind hs ⟨_, rfl⟩

theorem hasRun_logEvent {h : Host} {L : Ledger} {run : RunRow} {t : EventType} {payload : Json}
    {actorId now runId : String} (hr : HasRun L runId) :
    HasRun (L.logEvent h run t payload actorId now) runId := by
  refine ⟨hr.1, ?_⟩
  simp only [Ledger.logEvent, Ledger.setRun]
  rw [map_update _ _ _ _ (by intro r; rfl)]
  exact hr.2

theorem appendEvent_accepted (h : Host) {L : Ledger} {runId : String} (t : EventType)
    (payload : Json) (actorId now : String) (hr : HasRun L runId) :
    ∃ L', appendEvent h L runId t payload actorId now = .ok L' ∧ HasRun L' runId := by
  obtain ⟨run, hrun⟩ := hasRun_iff.mpr hr.2
  exact ⟨_, appendEvent_ok.mpr ⟨run, hrun, rfl⟩, hasRun_logEvent hr⟩

theorem hasRun_setRun {L : Ledger} {runId : String} (other : String) {f : RunRow → RunRow}
    (hf : ∀ r, (f r).runId = r.runId) (hr : HasRun L runId) : HasRun (L.setRun other f) runId := by
  refine ⟨hr.1, ?_⟩
  rw [Ledger.setRun, map_update _ _ _ _ hf]
  exact hr.2

theorem maybeComplete_accepted (h : Host) {L : Ledger} {runId : String} (actorId now : String)
    (hr : HasRun L runId) :
    ∃ L', maybeCompleteRun h L runId actorId now = .ok L' ∧ HasRun L' runId := by
  obtain ⟨run, hrun⟩ := hasRun_iff.mpr hr.2
  have hset : HasRun (L.setRun runId fun r => { r with status := .succeeded, updatedAt := now })
      runId := hasRun_setRun runId (fun _ => rfl) hr
  obtain ⟨L', he, hr'⟩ := appendEvent_accepted h .runSucceeded (.obj []) actorId now hset
  by_cases h1 : run.status = .failed ∨ run.status = .pausedOutcomeUnknown
  · exact ⟨L, by simp [maybeCompleteRun, requireRun, hrun, h1, bind, Except.bind, pure, Except.pure],
      hr⟩
  · by_cases h2 : (L.runSteps.any (fun s => s.runId == runId && s.status != .succeeded) ||
        L.runHealthGates.any (fun g => g.runId == runId && g.status != .passed)) = true
    · refine ⟨L, ?_, hr⟩
      simp only [maybeCompleteRun, requireRun, hrun, bind, Except.bind, if_neg h1, if_pos h2]
      rfl
    · refine ⟨L', ?_, hr'⟩
      simp only [maybeCompleteRun, requireRun, hrun, bind, Except.bind, if_neg h1, if_neg h2]
      exact he

theorem persistEvidence_accepted {h : Host} (runId stepId now : String)
    {items : List EvidenceInput} (hv : ∀ item ∈ items, validateEvidence h item = .ok ())
    (L : Ledger) : ∃ ids L', persistEvidence h L runId stepId now items = .ok (ids, L') ∧
      ids.length = items.length ∧ L'.releaseRuns = L.releaseRuns := by
  induction items generalizing L with
  | nil => exact ⟨[], L, rfl, rfl, rfl⟩
  | cons item items ih =>
    obtain ⟨ids, L', hp, hlen, hruns⟩ := ih (fun i hi => hv i (List.mem_cons_of_mem item hi))
      { L with
        evidenceRecords := L.evidenceRecords ++
          [evidenceRow runId stepId now (h.randomUUID L.draws) item]
        draws := L.draws+1 }
    refine ⟨h.randomUUID L.draws::ids, L', ?_, by simp [hlen], hruns⟩
    simp only [persistEvidence, hv item List.mem_cons_self, bind, Except.bind, hp]
    rfl

theorem startRun_accepted {o : Orchestrator} {L : Ledger} {runId actorId : String} (now : String)
    {run : RunRow} (hrun : L.run? runId = some run) (hst : run.status = .planned)
    (hr : HasRun L runId) (ha : actorPattern actorId = true) :
    ∃ r, startRun o L runId actorId now = .ok r := by
  refine succeeds_bind (a := ()) (by simp [validateRunId, hr.1]) ?_
  refine succeeds_bind (a := ()) (by simp [validateActor, ha]) ?_
  refine succeeds_bind (requireRun_ok.mpr hrun) ?_
  rw [if_neg (by simp [hst])]
  refine succeeds_bind (a := ()) (by simp [hst]) ?_
  obtain ⟨L', he, hr'⟩ := appendEvent_accepted o.host .runStarted (.obj []) actorId now
    (hasRun_setRun runId (f := fun r => { r with status := .running, updatedAt := now }) (fun _ => rfl) hr)
  exact succeeds_bind he (answer_accepted hr')

theorem beginStepAttempt_accepted {o : Orchestrator} {L : Ledger}
    {runId stepId key actorId : String} (now : String) {run : RunRow} {row : StepRow}
    (hrun : L.run? runId = some run) (hst : run.status = .running) (hr : HasRun L runId)
    (hs : L.step? runId stepId = some row) (hp : row.status = .pending)
    (hop : row.operationId = none) (hid : identifierPattern stepId = true)
    (hk : identifierPattern key = true) (ha : actorPattern actorId = true)
    (howner : ∀ s ∈ L.runSteps, s.runId = runId → s.idempotencyKey = some key → s.stepId = stepId)
    (hdeps : ∀ d ∈ row.definition.dependsOn, ∃ s, L.step? runId d = some s ∧ s.status = .succeeded)
    (hgates : ∀ g ∈ row.definition.requiredGates, ∃ r, L.gate? runId g = some r ∧
      r.status = .passed) :
    ∃ r, beginStepAttempt o L runId stepId key actorId now = .ok r := by
  refine succeeds_bind (a := ()) (by simp [validateRunId, hr.1]) ?_
  refine succeeds_bind (a := ()) (by simp [validateIdentifier, hid]) ?_
  refine succeeds_bind (a := ()) (by simp [validateIdempotencyKey, validateIdentifier, hk]) ?_
  refine succeeds_bind (a := ()) (by simp [validateActor, ha]) ?_
  refine succeeds_bind (requireRun_ok.mpr hrun) ?_
  refine succeeds_bind (a := ()) (by simp [hst]) ?_
  refine succeeds_bind (requireStep_ok.mpr hs) ?_
  refine succeeds_bind (a := ()) ?_ ?_
  · simp only [failIf_ok]
    cases hf : L.runSteps.find? fun s => s.runId == runId && s.idempotencyKey == some key with
    | none => rfl
    | some s =>
      have hsome := List.find?_some hf
      simp only [Bool.and_eq_true, beq_iff_eq] at hsome
      simp [howner s (List.mem_of_find?_eq_some hf) hsome.1 hsome.2]
  · rw [hp, hop]
    refine succeeds_bind (a := ()) (by simp) ?_
    refine succeeds_bind (a := ()) (by simp) ?_
    refine succeeds_bind (a := ()) (forM_accepted fun d hd => ?_) ?_
    · obtain ⟨s, hs, hst⟩ := hdeps d hd
      exact bind_ok.mpr ⟨s, requireStep_ok.mpr hs, by simp [hst]⟩
    refine succeeds_bind (a := ()) (forM_accepted fun g hg => ?_) ?_
    · obtain ⟨r, hr, hst⟩ := hgates g hg
      simp [hr, hst]
    refine succeeds_bind (a := (o.host.randomUUID L.draws, { L with draws := L.draws+1 })) ?_ ?_
    · simp [nextOperation, hop, pure, Except.pure]
    obtain ⟨L', he, _⟩ := appendEvent_accepted o.host
      (L := insertAttempt o.host { L with draws := L.draws+1 } row (o.host.randomUUID L.draws) key now)
      .stepIntentRecorded (.obj [
        ("stepId", .str stepId), ("action", .str (actionName row.definition.action)),
        ("operationId", .str (o.host.randomUUID L.draws)),
        ("attemptNumber", .num ((row.attemptCount+1 : ℕ) : ℤ)),
        ("executionClass", .str (executionClassName row.definition.executionClass))])
      actorId now hr
    exact succeeds_bind he ⟨_, rfl⟩

theorem recordStepOutcome_accepted {o : Orchestrator} {L : Ledger} {operationId : String}
    (input : RecordStepOutcomeInput) (actorId now : String) {a : AttemptRow} {s : StepRow}
    (ha : Ledger.latestAttempt (L.stepAttempts.filter (·.operationId == operationId)) = some a)
    (hst : a.status = .intentRecorded) (hs : L.step? a.runId a.stepId = some s)
    (hr : HasRun L a.runId) (hid : identifierPattern operationId = true)
    (hactor : actorPattern actorId = true) (hcode : input.outcomeCode = none)
    (hv : ∀ item ∈ input.evidence.getD [], validateEvidence o.host item = .ok ())
    (hne : input.evidence.getD [] ≠ []) (hout : input.outcome = .succeeded) :
    ∃ r, recordStepOutcome o L operationId input actorId now = .ok r := by
  refine succeeds_bind (a := ()) (by simp [validateIdentifier, hid]) ?_
  refine succeeds_bind (a := ()) (by simp [validateActor, hactor]) ?_
  refine succeeds_bind (a := ()) (by simp [validateOutcomeCode, hcode]) ?_
  refine succeeds_bind (requireLatestAttempt_ok.mpr ha) ?_
  refine succeeds_bind (requireStep_ok.mpr hs) ?_
  rw [if_neg (by simp [hst])]
  refine succeeds_bind (a := ()) (by simp [hst]) ?_
  obtain ⟨ids, L1, hp, hlen, hruns⟩ := persistEvidence_accepted a.runId a.stepId now hv L
  refine succeeds_bind hp ?_
  refine succeeds_bind (a := ()) ?_ ?_
  · have hids : ids.isEmpty = false := by
      rw [List.isEmpty_eq_false_iff]
      intro hnil
      rw [hnil] at hlen
      exact hne (List.length_eq_zero_iff.mp hlen.symm)
    simp [hids]
  have hr1 : HasRun (finishAttempt L1 a input (resultDigest o.host input actorId) now) a.runId :=
    ⟨hr.1, by
      change a.runId ∈ L1.releaseRuns.map (·.runId)
      rw [hruns]
      exact hr.2⟩
  simp only [hout, beq_self_eq_true, if_true]
  obtain ⟨L2, he, hr2⟩ := appendEvent_accepted o.host .stepSucceeded
    (.obj [("stepId", .str a.stepId), ("operationId", .str operationId),
      ("attemptNumber", .num (a.attemptNumber : ℤ)), ("outcomeCode", optional input.outcomeCode),
      ("evidenceIds", strings ids)]) actorId now hr1
  refine succeeds_bind he ?_
  obtain ⟨L3, hm, hr3⟩ := maybeComplete_accepted o.host actorId now hr2
  exact succeeds_bind hm (answer_accepted hr3)

theorem resolveHealthGate_accepted {o : Orchestrator} {L : Ledger} {runId gateId : String}
    (input : ResolveHealthGateInput) (now : String) {run : RunRow} {g : GateRow} {s : StepRow}
    (hrun : L.run? runId = some run) (hst : run.status = .running) (hr : HasRun L runId)
    (hg : L.gate? runId gateId = some g) (hp : g.status = .pending)
    (hm : measuringStep L runId gateId = some s) (hs : s.status = .succeeded)
    (hdec : ∀ d ∈ L.healthGateDecisions, d.runId = runId →
      d.gateId ≠ gateId ∧ d.idempotencyKey ≠ input.idempotencyKey)
    (hid : identifierPattern gateId = true) (hk : identifierPattern input.idempotencyKey = true)
    (hactor : actorPattern input.actorId = true)
    (hv : ∀ item ∈ input.evidence, validateEvidence o.host item = .ok ())
    (hne : input.evidence ≠ []) (hout : input.outcome = .passed)
    (hkinds : ∀ kind ∈ g.requiredEvidenceKinds, kind ∈ input.evidence.map (·.kind)) :
    ∃ r, resolveHealthGate o L runId gateId input now = .ok r := by
  refine succeeds_bind (a := ()) (by simp [validateRunId, hr.1]) ?_
  refine succeeds_bind (a := ()) (by simp [validateIdentifier, hid]) ?_
  refine succeeds_bind (a := ()) (by simp [validateIdempotencyKey, validateIdentifier, hk]) ?_
  refine succeeds_bind (a := ()) (by simp [validateActor, hactor]) ?_
  refine succeeds_bind (a := ()) (by simp [hout, hne]) ?_
  refine succeeds_bind (requireRun_ok.mpr hrun) ?_
  have hnone : (L.healthGateDecisions.find? fun row =>
      row.runId == runId && row.idempotencyKey == input.idempotencyKey) = none := by
    refine List.find?_eq_none.mpr fun d hd hm => ?_
    simp only [Bool.and_eq_true, beq_iff_eq] at hm
    exact (hdec d hd hm.1).2 hm.2
  rw [hnone]
  refine succeeds_bind (a := ()) ?_ ?_
  · simp only [failIf_ok, List.any_eq_false, Bool.and_eq_true, beq_iff_eq, not_and]
    exact fun d hd he => (hdec d hd he).1
  refine succeeds_bind (a := ()) (by simp [hst]) ?_
  refine succeeds_bind (requireGate_ok.mpr hg) ?_
  refine succeeds_bind (a := ()) (by simp [hp]) ?_
  refine succeeds_bind (requireMeasurement_ok.mpr ⟨hm, hs⟩) ?_
  refine succeeds_bind (a := ()) ?_ ?_
  · have hmissing : (g.requiredEvidenceKinds.filter fun kind =>
        !(input.evidence.map (·.kind)).contains kind) = [] := by
      refine List.filter_eq_nil_iff.mpr fun kind hkind => ?_
      simpa using hkinds kind hkind
    rw [hmissing]
    simp
  obtain ⟨ids, L1, hpe, _, hruns⟩ := persistEvidence_accepted runId s.stepId now hv L
  refine succeeds_bind hpe ?_
  have hr1 : HasRun (insertDecision o.host L1 runId gateId input
      (decisionDigest o.host runId gateId input) ids now) runId :=
    ⟨hr.1, by
      change runId ∈ L1.releaseRuns.map (·.runId)
      rw [hruns]
      exact hr.2⟩
  simp only [hout, reduceCtorEq, if_false, if_true]
  obtain ⟨L2, he, hr2⟩ := appendEvent_accepted o.host (.healthGate .passed)
    (.obj [("gateId", .str gateId), ("evidenceIds", strings ids)]) input.actorId now hr1
  refine succeeds_bind he ?_
  obtain ⟨L3, hmc, hr3⟩ := maybeComplete_accepted o.host input.actorId now hr2
  exact succeeds_bind hmc (answer_accepted hr3)

theorem createRun_accepted {o : Orchestrator} {L : Ledger} {request : RunRequest} (now : String)
    {b : Blueprint} (hv : validateRunRequest request = .ok ())
    (hb : requireBlueprint o request.blueprintId request.blueprintVersion = .ok b)
    (hnew : ∀ r ∈ L.releaseRuns, r.createIdempotencyKey ≠ request.idempotencyKey)
    (hreg : ∃ row, (L.workflowBlueprints.find? fun row =>
      row.blueprintId == b.id && row.version == b.version) = some row ∧
      row.sha256 = o.host.sha256 (canonicalJson o.host b.toJson)) :
    ∃ r, createRun o L request now = .ok r := by
  refine succeeds_bind hv ?_
  refine succeeds_bind hb ?_
  have hnone : L.releaseRuns.find? (·.createIdempotencyKey == request.idempotencyKey) = none := by
    refine List.find?_eq_none.mpr fun r hr => ?_
    simpa using hnew r hr
  rw [hnone]
  refine succeeds_bind (a := ()) ?_ ?_
  · obtain ⟨row, hrow, hsha⟩ := hreg
    simp [hrow, hsha]
  have hr : HasRun (insertRun o.host L b request now) (o.host.randomUUID L.draws) :=
    ⟨drawn_runId o.host L.draws, by simp [insertRun]⟩
  obtain ⟨L', he, hr'⟩ := appendEvent_accepted o.host .runCreated (.obj [
      ("blueprintId", .str b.id), ("blueprintVersion", .num b.version),
      ("blueprintSha256", .str (o.host.sha256 (canonicalJson o.host b.toJson))),
      ("targetRelease", .str request.targetRelease),
      ("sourceCommitSha", .str request.sourceCommitSha)])
    request.actorId now hr
  refine succeeds_bind he ?_
  obtain ⟨snapshot, hs⟩ := getRun_accepted hr'
  exact succeeds_bind hs ⟨_, rfl⟩

end AccessStack.Release
