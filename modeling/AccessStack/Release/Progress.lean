import AccessStack.Release.Completion
import AccessStack.Release.Enabled
import AccessStack.Release.Tables

/-!
# A history that completes a run

For a blueprint without deadlock the steps are taken in the order of their
ranks. Each is begun and recorded as succeeded, and the gates it is the first
to measure are passed before the next step begins. The last of these calls
completes the run.
-/

set_option autoImplicit false

namespace AccessStack.Release
open AccessStack.Text AccessStack.Rows AccessStack.JsonText

def DistinctDraws (h : Host) (n : ℕ) : Prop :=
  ∀ m < n, ∀ k < n, h.randomUUID m = h.randomUUID k → m = k

theorem DistinctDraws.noCollision {h : Host} {n : ℕ} (hd : DistinctDraws h n) {L : Ledger}
    (hle : L.draws ≤ n) : NoCollision h L :=
  fun m hm k hk => hd m (hm.trans_le hle) k (hk.trans_le hle)

/-- A call that records successes only. -/
def Op.favourable : Op → Bool
  | .recordStepOutcome _ input _ _ => input.outcome == .succeeded
  | .resolveHealthGate _ _ input _ => input.outcome == .passed
  | _ => true

/-- The run has done the steps `done` and passed the gates `passed`, has not
touched the others, and is complete or still running. -/
structure Progress (o : Orchestrator) (b : Blueprint) (runId : String) (done passed : List String)
    (L : Ledger) : Prop where
  reached : Reached o L
  known : runId ∈ L.releaseRuns.map (·.runId)
  complete : AllDone L runId → L.status? runId = some .succeeded
  running : ¬AllDone L runId → L.status? runId = some .running
  instantiates : Instantiates L runId b
  stepsDone : ∀ s ∈ L.runSteps, s.runId = runId → s.stepId ∈ done → s.status = .succeeded
  stepsTodo : ∀ s ∈ L.runSteps, s.runId = runId → s.stepId ∉ done →
    s.status = .pending ∧ s.operationId = none
  keys : ∀ s ∈ L.runSteps, s.runId = runId → ∀ k, s.idempotencyKey = some k → k = s.stepId
  gatesPassed : ∀ g ∈ L.runHealthGates, g.runId = runId → g.gateId ∈ passed → g.status = .passed
  gatesOpen : ∀ g ∈ L.runHealthGates, g.runId = runId → g.gateId ∉ passed → g.status = .pending
  decisions : ∀ d ∈ L.healthGateDecisions, d.runId = runId → d.gateId ∈ passed ∧
    d.idempotencyKey = d.gateId

/-- The evidence a completing history submits. -/
def healthEvidence (kind : String) : EvidenceInput where
  kind := kind
  source := "probe"
  sha256 := String.ofList (List.replicate 64 'a')
  observedAt := sampleTime

theorem healthEvidence_valid (h : Host) {kind : String} (hk : identifierPattern kind = true) :
    validateEvidence h (healthEvidence kind) = .ok () := by
  have hsource : identifierPattern "probe" = true := by decide +kernel
  have hhash : hashPattern (healthEvidence kind).sha256 = true := by
    change hashPattern (String.ofList (List.replicate 64 'a')) = true
    decide +kernel
  have hdate : h.dateParses (healthEvidence kind).observedAt = true := h.dateParses_iso
  refine bind_ok.mpr ⟨(), failIf_ok.mpr ?_, bind_ok.mpr ⟨(), failIf_ok.mpr ?_,
    bind_ok.mpr ⟨(), failIf_ok.mpr ?_, failIf_ok.mpr ?_⟩⟩⟩
  · simpa [healthEvidence] using hk
  · simpa [healthEvidence] using hsource
  · simpa using hhash
  · simpa using hdate

section Steps
variable {h : Host} {b : Blueprint} {runId : String} {done passed : List String} {L : Ledger}

/-- The state between the two calls of a step. -/
theorem progress_begin (hb : Wellformed b) (hp : Progress ⟨h, [b]⟩ b runId done passed L)
    {s : StepDefinition} (hs : s ∈ b.steps) (hnew : s.id ∉ done) (hdeps : ∀ d ∈ s.dependsOn, d ∈ done)
    (hgates : ∀ g ∈ s.requiredGates, g ∈ passed) :
    ∃ row L1 log, Write.isLog log runId = true ∧ L.step? runId s.id = some row ∧ row.definition = s ∧
      row.operationId = none ∧
      step ⟨h, [b]⟩ L (.beginStepAttempt runId s.id s.id "operator" sampleTime) = L1 ∧
      Commits ⟨h, [b]⟩ L [.begin row s.id sampleTime, log] L1 := by
  have hL := hp.reached.written
  have hk := hL.keyed
  obtain ⟨row, hrow, hrun, hid, hdef⟩ := hp.instantiates.step_of hs
  have hfind : L.step? runId s.id = some row := by
    rw [← hrun, ← hid]
    exact hk.find_step hrow
  obtain ⟨hpending, hop⟩ := hp.stepsTodo row hrow hrun (hid ▸ hnew)
  have hnotdone : ¬AllDone L runId := by
    intro hd
    have := hd.1 row hrow hrun
    rw [hpending] at this
    cases this
  obtain ⟨run, hrunrow, hstatus⟩ := status_some (hp.running hnotdone)
  have hident : identifierPattern s.id = true := lower_identifier (hb.steps s hs).1
  have hstepsOf : ∀ d ∈ row.definition.dependsOn, ∃ t, L.step? runId d = some t ∧
      t.status = .succeeded := by
    intro d hd
    rw [hdef] at hd
    obtain ⟨e, he, rfl⟩ := List.mem_map.mp (hb.dependencies s hs d hd).1
    obtain ⟨t, ht, htrun, htid, _⟩ := hp.instantiates.step_of he
    refine ⟨t, ?_, hp.stepsDone t ht htrun (htid ▸ hdeps _ hd)⟩
    rw [← htrun, ← htid]
    exact hk.find_step ht
  have hgatesOf : ∀ g ∈ row.definition.requiredGates, ∃ r, L.gate? runId g = some r ∧
      r.status = .passed := by
    intro g hg
    rw [hdef] at hg
    obtain ⟨e, he, rfl⟩ := List.mem_map.mp ((hb.steps s hs).2.2 g hg)
    obtain ⟨r, hr, hrrun, hrid, _⟩ := hp.instantiates.gate_of he
    refine ⟨r, ?_, hp.gatesPassed r hr hrrun (hrid ▸ hgates _ hg)⟩
    rw [← hrrun, ← hrid]
    exact hk.find_gate hr
  have howner : ∀ t ∈ L.runSteps, t.runId = runId → t.idempotencyKey = some s.id →
      t.stepId = s.id := fun t ht htr hkey => (hp.keys t ht htr s.id hkey).symm
  obtain ⟨⟨result, L1⟩, hok⟩ := beginStepAttempt_accepted (o := ⟨h, [b]⟩) sampleTime
    hrunrow hstatus (hL.hasRun hp.known) hfind hpending hop hident hident operator_valid howner
    hstepsOf hgatesOf
  have hcall : call ⟨h, [b]⟩ L (.beginStepAttempt runId s.id s.id "operator" sampleTime) =
      .ok (.begun result, L1) := by
    simp [call, respond, hok, Except.map]
  obtain ⟨op, rfl, rfl, row', hrow', hsucceeded⟩ | ⟨row', log, hl, hw, hrun', hid', _⟩ :=
    beginStepAttempt_writes hok
  · rw [hfind] at hrow'
    obtain rfl := Option.some.inj hrow'
    rw [hpending] at hsucceeded
    cases hsucceeded
  · have hrow' : row' = row := by
      have := hw.1.1.2.1
      rw [hrun', hid', hfind] at this
      exact (Option.some.inj this).symm
    subst hrow'
    exact ⟨row', L1, log, hl, hfind, hdef, hop, step_ok hcall, hw⟩

theorem allDone_congr {L L' : Ledger} (hs : L'.runSteps = L.runSteps)
    (hg : L'.runHealthGates = L.runHealthGates) (runId : String) :
    AllDone L' runId ↔ AllDone L runId := by
  rw [AllDone, AllDone, hs, hg]

theorem known_of_status {L : Ledger} {runId : String} {status : RunStatus}
    (h : L.status? runId = some status) : runId ∈ L.releaseRuns.map (·.runId) := by
  obtain ⟨run, hrun, _⟩ := status_some h
  exact reference_mem hrun

/-- A step whose waits are over is begun and recorded as succeeded. -/
theorem progress_step (hb : Wellformed b) (hp : Progress ⟨h, [b]⟩ b runId done passed L)
    {n : ℕ} (hd : DistinctDraws h n) (hn : L.draws+9 ≤ n) {s : StepDefinition} (hs : s ∈ b.steps)
    (hnew : s.id ∉ done) (hdeps : ∀ d ∈ s.dependsOn, d ∈ done)
    (hgates : ∀ g ∈ s.requiredGates, g ∈ passed) :
    ∃ ops, (∀ op ∈ ops, op.favourable = true) ∧
      Progress ⟨h, [b]⟩ b runId (s.id::done) passed (exec ⟨h, [b]⟩ L ops) ∧
      (exec ⟨h, [b]⟩ L ops).draws ≤ L.draws+9 := by
  obtain ⟨row, L1, log, hl, hfind, hdef, hop, hstep, hw⟩ := progress_begin hb hp hs hnew hdeps hgates
  obtain ⟨hsteps1, hattempts1, hgates1, hdec1, hdraws1, hstatus1⟩ := begin_tables hl hw
  obtain ⟨hrun, hid⟩ := step_key hfind
  have hd1 : L1.draws = L.draws+4 := by
    rw [hdraws1]
    simp [hop]
  have hL1 : Reached ⟨h, [b]⟩ L1 := by
    rw [← hstep]
    refine hp.reached.step _ ?_
    rw [hstep]
    exact hd.noCollision (by omega)
  -- The step now carries a fresh operation with one attempt in flight.
  obtain ⟨row1, hrow1, hrun1, hid1, hop1, hstatus⟩ : ∃ row1 ∈ L1.runSteps, row1.runId = runId ∧
      row1.stepId = s.id ∧ row1.operationId = some (operationOf h L row) ∧
      row1.status = .inProgress := by
    rw [hsteps1, begin_steps]
    exact ⟨_, mem_update.mpr ⟨row, step_mem hfind, rfl⟩, by simp [hrun, hid]⟩
  obtain ⟨a, ham, ha, hof, hastatus⟩ := hL1.written.latest_attempt hrow1 hop1
  have hintent : a.status = .intentRecorded := by
    rw [hstatus] at hastatus
    cases hst : a.status <;> simp [hst, stepStatusOf] at hastatus
    rfl
  simp only [ofStep, Bool.and_eq_true, beq_iff_eq, hrun1, hid1] at hof
  obtain ⟨harun, haid⟩ := hof
  have ht : L1.step? a.runId a.stepId = some row1 := by
    rw [harun, haid, ← hrun1, ← hid1]
    exact hL1.written.keyed.find_step hrow1
  have hnotdone : ¬AllDone L runId := by
    intro hall
    have := hall.1 row (step_mem hfind) hrun
    rw [(hp.stepsTodo row (step_mem hfind) hrun (hid ▸ hnew)).1] at this
    cases this
  have hrunning1 : L1.status? runId = some .running := (hstatus1 runId).trans (hp.running hnotdone)
  have hhealth : identifierPattern "health" = true := by decide +kernel
  obtain ⟨⟨snapshot, L3⟩, hok⟩ := recordStepOutcome_accepted (o := ⟨h, [b]⟩)
    ⟨.succeeded, none, some [healthEvidence "health"]⟩ "operator" sampleTime ha hintent ht
    (hL1.written.hasRun (harun ▸ known_of_status hrunning1))
    (by
      have hopen : operationOf h L row = h.randomUUID L.draws := by simp [operationOf, hop]
      rw [hopen]
      exact drawn_identifier h L.draws)
    operator_valid rfl
    (by simpa using healthEvidence_valid h hhealth) (by simp) rfl
  have hcall : call ⟨h, [b]⟩ L1 (.recordStepOutcome (operationOf h L row)
      ⟨.succeeded, none, some [healthEvidence "health"]⟩ "operator" sampleTime) =
      .ok (.run snapshot, L3) := by
    simp [call, respond, hok, Except.map]
  obtain ⟨a', ha', ⟨_, hfinal, _⟩ | ⟨rows, L2, tail, log2, hl2, hlen, hw2, ht2, hend⟩⟩ :=
    recordStepOutcome_writes hok
  · rw [ha] at ha'
    obtain rfl := Option.some.inj ha'
    simp [hintent] at hfinal
  rw [ha] at ha'
  obtain rfl := Option.some.inj ha'
  obtain ⟨hbad, _⟩ | ⟨_, hcompletion⟩ := hend
  · cases hbad
  obtain ⟨hsteps2, hgates2, hdec2, hdraws2, hstatus2⟩ := record_tables hl2 rfl hw2
  rw [harun] at hcompletion
  obtain ⟨hsteps3, hgates3, hdec3, hdraws3, hdone3, hrun3⟩ := completion_tables hcompletion ht2
    ((hstatus2 runId).trans hrunning1)
  have hdraws : L3.draws ≤ L.draws+9 := by
    simp only [Option.getD_some, List.length_singleton] at hlen
    omega
  let ops : List Op := [.beginStepAttempt runId s.id s.id "operator" sampleTime,
    .recordStepOutcome (operationOf h L row) ⟨.succeeded, none, some [healthEvidence "health"]⟩
      "operator" sampleTime]
  have hexec : exec ⟨h, [b]⟩ L ops = L3 := by
    simp [ops, hstep, step_ok hcall]
  have hn3 : NoCollision h (exec ⟨h, [b]⟩ L ops) := hd.noCollision (by rw [hexec]; omega)
  have hstepsL3 : ∀ s' ∈ L3.runSteps, ∃ s0 ∈ L.runSteps, s0.runId = s'.runId ∧
      s0.stepId = s'.stepId ∧ ((s0.runId = runId ∧ s0.stepId = s.id ∧ s'.status = .succeeded ∧
        s'.idempotencyKey = some s.id) ∨ (¬(s0.runId = runId ∧ s0.stepId = s.id) ∧ s' = s0)) := by
    intro s' hs'
    rw [hsteps3, hsteps2, mem_update] at hs'
    obtain ⟨s1, hs1, rfl⟩ := hs'
    rw [hsteps1, begin_steps, mem_update] at hs1
    obtain ⟨s0, hs0, rfl⟩ := hs1
    refine ⟨s0, hs0, ?_⟩
    by_cases hm : s0.runId = runId ∧ s0.stepId = s.id
    · simp [hrun, hid, harun, haid, hm]
    · have hm' : ¬(s0.runId = row.runId ∧ s0.stepId = row.stepId) := by rwa [hrun, hid]
      have hm'' : ¬(s0.runId = a.runId ∧ s0.stepId = a.stepId) := by rwa [harun, haid]
      simp [hm, hm', hm'']
  refine ⟨ops, by simp [ops, Op.favourable], ?_, by rw [hexec]; exact hdraws⟩
  have hall3 := allDone_congr hsteps3 hgates3 runId
  have hinst := instantiates_exec hp.reached hn3 hp.known hp.instantiates
  have hreached := hp.reached.exec hn3
  rw [hexec] at hreached hinst ⊢
  have hknown : runId ∈ L3.releaseRuns.map (·.runId) := by
    by_cases hall : AllDone L2 runId
    · exact known_of_status (hdone3 hall)
    · exact known_of_status (hrun3 hall)
  refine { reached := hreached, known := hknown, complete := fun hall => hdone3 (hall3.mp hall),
           running := fun hall => hrun3 fun h2 => hall (hall3.mpr h2), instantiates := hinst,
           stepsDone := ?_, stepsTodo := ?_, keys := ?_, gatesPassed := ?_, gatesOpen := ?_,
           decisions := ?_ }
  · intro s' hs' hr' hmem
    obtain ⟨s0, hs0, h1, h2, ⟨_, _, hst, _⟩ | ⟨hne, rfl⟩⟩ := hstepsL3 s' hs'
    · exact hst
    · rcases List.mem_cons.mp hmem with heq | hmem
      · exact absurd ⟨hr', heq⟩ hne
      · exact hp.stepsDone s' hs0 hr' hmem
  · intro s' hs' hr' hmem
    obtain ⟨s0, hs0, h1, h2, ⟨_, h3, _⟩ | ⟨_, rfl⟩⟩ := hstepsL3 s' hs'
    · exact absurd (h2 ▸ h3 ▸ List.mem_cons_self) hmem
    · exact hp.stepsTodo s' hs0 hr' fun hm => hmem (List.mem_cons_of_mem _ hm)
  · intro s' hs' hr' k hk
    obtain ⟨s0, hs0, h1, h2, ⟨_, h3, _, hkey⟩ | ⟨_, rfl⟩⟩ := hstepsL3 s' hs'
    · rw [hkey] at hk
      exact (Option.some.inj hk).symm.trans (h3.symm.trans h2)
    · exact hp.keys s' hs0 hr' k hk
  · rw [hgates3, hgates2, hgates1]
    exact hp.gatesPassed
  · rw [hgates3, hgates2, hgates1]
    exact hp.gatesOpen
  · rw [hdec3, hdec2, hdec1]
    exact hp.decisions

/-- A gate whose measurement has succeeded is passed. -/
theorem progress_gate (hb : Wellformed b) (hp : Progress ⟨h, [b]⟩ b runId done passed L)
    {n : ℕ} (hd : DistinctDraws h n) {g : HealthGateDefinition} {m : StepDefinition}
    (hn : L.draws+g.requiredEvidenceKinds.length+5 ≤ n) (hg : g ∈ b.gates) (hnew : g.id ∉ passed)
    (hm : b.steps.find? (·.healthGateId == some g.id) = some m) (hdone : m.id ∈ done) :
    ∃ op : Op, op.favourable = true ∧
      Progress ⟨h, [b]⟩ b runId done (g.id::passed) (step ⟨h, [b]⟩ L op) ∧
      (step ⟨h, [b]⟩ L op).draws ≤ L.draws+g.requiredEvidenceKinds.length+5 := by
  have hL := hp.reached.written
  obtain ⟨row, hrow, hrun, hid, hkinds⟩ := hp.instantiates.gate_of hg
  have hfind : L.gate? runId g.id = some row := by
    rw [← hrun, ← hid]
    exact hL.keyed.find_gate hrow
  have hpending := hp.gatesOpen row hrow hrun (hid ▸ hnew)
  have hnotdone : ¬AllDone L runId := by
    intro hall
    have := hall.2 row hrow hrun
    rw [hpending] at this
    cases this
  have hrunning := hp.running hnotdone
  obtain ⟨run, hrunrow, hstatus⟩ := status_some hrunning
  obtain ⟨t, ht, htkey⟩ : ∃ t, measuringStep L runId g.id = some t ∧ t.stepId = m.id := by
    have := hp.instantiates.measuring g.id
    rw [hm, Option.map_some] at this
    obtain ⟨t, ht, he⟩ := Option.map_eq_some_iff.mp this
    exact ⟨t, ht, congrArg (·.1) he⟩
  obtain ⟨htm, htrun⟩ := measuring_mem ht
  have htst := hp.stepsDone t htm htrun (htkey ▸ hdone)
  obtain ⟨hgid, hne, hvalid⟩ := hb.gates g hg
  let input : ResolveHealthGateInput :=
    ⟨g.id, .passed, g.requiredEvidenceKinds.map healthEvidence, "operator"⟩
  obtain ⟨⟨snapshot, L2⟩, hok⟩ :=
    resolveHealthGate_accepted (o := ⟨h, [b]⟩) input sampleTime hrunrow hstatus
    (hL.hasRun hp.known) hfind hpending ht htst
    (fun d hdm hdr => by
      obtain ⟨h1, h2⟩ := hp.decisions d hdm hdr
      refine ⟨fun he => hnew (he ▸ h1), fun he => hnew ?_⟩
      have he : d.idempotencyKey = g.id := he
      rw [← he, h2]
      exact h1)
    (lower_identifier hgid) (lower_identifier hgid) operator_valid
    (fun item hi => by
      obtain ⟨kind, hk, rfl⟩ := List.mem_map.mp hi
      exact healthEvidence_valid h (lower_identifier (hvalid kind hk)))
    (by simpa [input] using hne) rfl
    (fun kind hk => by
      rw [hkinds] at hk
      exact List.mem_map.mpr ⟨healthEvidence kind, List.mem_map_of_mem hk, rfl⟩)
  have hcall : call ⟨h, [b]⟩ L (.resolveHealthGate runId g.id input sampleTime) =
      .ok (.run snapshot, L2) := by
    simp [call, respond, hok, Except.map]
  obtain ⟨_, prior, hprior, _⟩ | ⟨rows, ids, L1, tail, log, hl, hlen, hw, ht1, hend⟩ :=
    resolveHealthGate_writes hok
  · obtain ⟨h1, h2⟩ : prior.runId = runId ∧ prior.idempotencyKey = g.id := by
      simpa using List.find?_some hprior
    obtain ⟨h3, h4⟩ := hp.decisions prior (List.mem_of_find?_eq_some hprior) h1
    exact absurd (h2 ▸ h4 ▸ h3) hnew
  obtain ⟨hbad, _⟩ | ⟨_, hcompletion⟩ := hend
  · cases hbad
  obtain ⟨hsteps1, hgates1, hdec1, hdraws1, hstatus1⟩ := decide_tables hl rfl hw
  obtain ⟨hsteps2, hgates2, hdec2, hdraws2, hdone2, hrun2⟩ := completion_tables hcompletion ht1
    ((hstatus1 runId).trans hrunning)
  have hdraws : L2.draws ≤ L.draws+g.requiredEvidenceKinds.length+5 := by
    simp only [input, List.length_map] at hlen
    omega
  refine ⟨.resolveHealthGate runId g.id input sampleTime, rfl, ?_, by rw [step_ok hcall]; exact hdraws⟩
  have hexec : exec ⟨h, [b]⟩ L [.resolveHealthGate runId g.id input sampleTime] = L2 := step_ok hcall
  have hn2 : NoCollision h (exec ⟨h, [b]⟩ L [.resolveHealthGate runId g.id input sampleTime]) :=
    hd.noCollision (by rw [hexec]; omega)
  have hinst := instantiates_exec hp.reached hn2 hp.known hp.instantiates
  have hreached := hp.reached.exec hn2
  rw [hexec] at hreached hinst
  rw [step_ok hcall]
  have hall2 := allDone_congr hsteps2 hgates2 runId
  have hknown : runId ∈ L2.releaseRuns.map (·.runId) := by
    by_cases hall : AllDone L1 runId
    · exact known_of_status (hdone2 hall)
    · exact known_of_status (hrun2 hall)
  have hgatesL2 : ∀ g' ∈ L2.runHealthGates, ∃ g0 ∈ L.runHealthGates, g0.runId = g'.runId ∧
      g0.gateId = g'.gateId ∧ ((g0.runId = runId ∧ g0.gateId = g.id ∧ g'.status = .passed) ∨
        (¬(g0.runId = runId ∧ g0.gateId = g.id) ∧ g' = g0)) := by
    intro g' hg'
    rw [hgates2, hgates1, mem_update] at hg'
    obtain ⟨g0, hg0, rfl⟩ := hg'
    refine ⟨g0, hg0, ?_⟩
    by_cases hmatch : g0.runId = runId ∧ g0.gateId = g.id
    · simp [hmatch]
    · simp [hmatch]
  refine { reached := hreached, known := hknown, complete := fun hall => hdone2 (hall2.mp hall),
           running := fun hall => hrun2 fun h2 => hall (hall2.mpr h2), instantiates := hinst,
           stepsDone := ?_, stepsTodo := ?_, keys := ?_, gatesPassed := ?_, gatesOpen := ?_,
           decisions := ?_ }
  · rw [hsteps2, hsteps1]
    exact hp.stepsDone
  · rw [hsteps2, hsteps1]
    exact hp.stepsTodo
  · rw [hsteps2, hsteps1]
    exact hp.keys
  · intro g' hg' hr' hmem
    obtain ⟨g0, hg0, h1, h2, ⟨_, _, hst⟩ | ⟨hne', rfl⟩⟩ := hgatesL2 g' hg'
    · exact hst
    · rcases List.mem_cons.mp hmem with heq | hmem
      · exact absurd ⟨hr', heq⟩ hne'
      · exact hp.gatesPassed g' hg0 hr' hmem
  · intro g' hg' hr' hmem
    obtain ⟨g0, hg0, h1, h2, ⟨_, h3, _⟩ | ⟨_, rfl⟩⟩ := hgatesL2 g' hg'
    · exact absurd (h2 ▸ h3 ▸ List.mem_cons_self) hmem
    · exact hp.gatesOpen g' hg0 hr' fun hm => hmem (List.mem_cons_of_mem _ hm)
  · intro d hdm hdr
    rw [hdec2] at hdm
    rcases hdec1 d hdm with hold | ⟨h1, h2⟩
    · obtain ⟨h3, h4⟩ := hp.decisions d hold hdr
      exact ⟨List.mem_cons_of_mem _ h3, h4⟩
    · exact ⟨h1 ▸ List.mem_cons_self, h2.trans h1.symm⟩

end Steps

end AccessStack.Release
