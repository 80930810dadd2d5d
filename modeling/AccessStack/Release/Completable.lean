import AccessStack.Release.Progress

/-!
# Completing a blueprint

The steps are sorted by their ranks and taken one after the other, each with
the gates it is the first to measure. A valid blueprint is completable exactly
when its waits have no cycle, every gate is measured and it has a step.
-/

set_option autoImplicit false

namespace AccessStack.Release
open AccessStack.Text AccessStack.Rows AccessStack.JsonText

/-- The step whose success `resolveHealthGate` waits for. -/
def Blueprint.measurer? (b : Blueprint) (gateId : String) : Option StepDefinition :=
  b.steps.find? (·.healthGateId == some gateId)

def measuredBy (b : Blueprint) (s : StepDefinition) : List HealthGateDefinition :=
  b.gates.filter fun g => (b.measurer? g.id).map (·.id) == some s.id

def gateCost (g : HealthGateDefinition) : ℕ := g.requiredEvidenceKinds.length+5

def stepCost (b : Blueprint) (s : StepDefinition) : ℕ := 9+((measuredBy b s).map gateCost).sum

/-- The identifiers drawn by a history that completes a run. -/
def identifiersNeeded (b : Blueprint) : ℕ := 5+(b.steps.map (stepCost b)).sum

/-- The request that creates the run of a completing history. -/
def requestFor (b : Blueprint) : RunRequest :=
  { sampleRequest with blueprintId := b.id, blueprintVersion := b.version }

section Sufficiency
variable {h : Host} {b : Blueprint} {runId : String} {n : ℕ}

theorem requestFor_valid (hb : Wellformed b) : validateRunRequest (requestFor b) = .ok () := by
  have hid : identifierPattern b.id = true := lower_identifier hb.identity.1
  have hversion : ¬b.version < 1 := not_lt.mpr hb.identity.2
  have hrest : identifierPattern sampleRequest.targetRelease = true ∧
      commitPattern sampleRequest.sourceCommitSha = true ∧
      identifierPattern sampleRequest.idempotencyKey = true ∧
      actorPattern sampleRequest.actorId = true := by
    decide +kernel
  simp [validateRunRequest, requestFor, validateIdentifier, validateIdempotencyKey, validateActor,
    hid, hversion, hrest, bind, Except.bind, failIf]

/-- The ledger after the run has been created. -/
theorem created (hb : Wellformed b) (hv : validateWorkflowBlueprint b = .ok ()) :
    ∃ L log, Write.isLog log (h.randomUUID 0) = true ∧
      step ⟨h, [b]⟩ (freshLedger h b) (.createRun (requestFor b) sampleTime) = L ∧
      Commits ⟨h, [b]⟩ (freshLedger h b) [.insertRun b (requestFor b) sampleTime, log] L := by
  obtain ⟨⟨result, L⟩, hok⟩ := createRun_accepted (o := ⟨h, [b]⟩) (L := freshLedger h b)
    sampleTime (requestFor_valid hb) (b := b) (by simp [requireBlueprint, requestFor])
    (by simp [freshLedger]) (by simp [freshLedger])
  have hcall : call ⟨h, [b]⟩ (freshLedger h b) (.createRun (requestFor b) sampleTime) =
      .ok (.created result, L) := by
    simp [call, respond, hok, Except.map]
  obtain ⟨_, r, hr, _⟩ | ⟨b', log, hl, hw⟩ := createRun_writes hok
  · cases hr
  · obtain rfl : b' = b := by simpa using hw.1.1.1
    exact ⟨L, log, hl, step_ok hcall, hw⟩

theorem started {L : Ledger} (hL : Reached ⟨h, [b]⟩ L) (hst : L.status? runId = some .planned) :
    ∃ L' log, Write.isLog log runId = true ∧
      step ⟨h, [b]⟩ L (.startRun runId "operator" sampleTime) = L' ∧
      Commits ⟨h, [b]⟩ L [.start runId sampleTime, log] L' := by
  obtain ⟨run, hrun, hplanned⟩ := status_some hst
  obtain ⟨⟨result, L'⟩, hok⟩ := startRun_accepted (o := ⟨h, [b]⟩) sampleTime hrun hplanned
    (hL.written.hasRun (known_of_status hst)) operator_valid
  have hcall : call ⟨h, [b]⟩ L (.startRun runId "operator" sampleTime) = .ok (.run result, L') := by
    simp [call, respond, hok, Except.map]
  obtain ⟨_, run', hrun', hrunning⟩ | ⟨log, hl, hw⟩ := startRun_writes hok
  · rw [hrun] at hrun'
    obtain rfl := Option.some.inj hrun'
    rw [hplanned] at hrunning
    cases hrunning
  · exact ⟨L', log, hl, step_ok hcall, hw⟩

theorem status_created {L : Ledger} {log : Write} (hl : log.isLog runId = true) {q : RunRequest}
    (hw : Commits ⟨h, [b]⟩ (freshLedger h b) [.insertRun b q sampleTime, log] L) :
    L.status? (h.randomUUID 0) = some .planned := by
  obtain ⟨run, t, payload, actorId, now, rfl, _⟩ := isLog_log hl
  obtain ⟨_, rfl⟩ := hw
  rw [performAll_cons, performAll_cons, performAll_nil, status_perform (by simp)]
  simp [perform, insertRun, freshLedger, Ledger.run?, Write.runStatus]

/-- The run is created and started: nothing is done yet. -/
theorem progress_initial (hv : validateWorkflowBlueprint b = .ok ()) (hne : b.steps ≠ [])
    (hd : DistinctDraws h n) (hn : 5 ≤ n) :
    ∃ ops, (∀ op ∈ ops, Op.favourable op = true) ∧
      Progress ⟨h, [b]⟩ b (h.randomUUID 0) [] [] (exec ⟨h, [b]⟩ (freshLedger h b) ops) ∧
      (exec ⟨h, [b]⟩ (freshLedger h b) ops).draws ≤ 5 := by
  have hb := accepted_wellformed hv
  have h0 : Reached ⟨h, [b]⟩ (freshLedger h b) := .opened (fresh_opened hv)
  obtain ⟨L1, log1, hl1, hstep1, hw1⟩ := created (h := h) hb hv
  have hst1 := status_created hl1 hw1
  obtain ⟨run1, t1, payload1, actor1, now1, rfl, _⟩ := isLog_log hl1
  obtain ⟨_, he1⟩ := hw1
  have hdraws1 : L1.draws = 3 := he1 ▸ rfl
  have hn1 : NoCollision h L1 := hd.noCollision (by omega)
  have hL1 : Reached ⟨h, [b]⟩ L1 := by
    rw [← hstep1]
    exact h0.step _ (hstep1.symm ▸ hn1)
  obtain ⟨L2, log2, hl2, hstep2, hw2⟩ := started hL1 hst1
  obtain ⟨run2, t2, payload2, actor2, now2, rfl, _⟩ := isLog_log hl2
  obtain ⟨_, he2⟩ := hw2
  have hdraws2 : L2.draws = 5 := by
    rw [← he2]
    exact congrArg (·+2) hdraws1
  have hn2 : NoCollision h L2 := hd.noCollision (by omega)
  have hL2 : Reached ⟨h, [b]⟩ L2 := by
    rw [← hstep2]
    exact hL1.step _ (hstep2.symm ▸ hn2)
  have hst2 : L2.status? (h.randomUUID 0) = some .running := by
    obtain ⟨run, hrun, _⟩ := status_some hst1
    rw [← he2, performAll_cons, performAll_cons, performAll_nil, status_perform (by simp)]
    refine (status_perform (w := .start (h.randomUUID 0) sampleTime) (by simp) _).trans ?_
    rw [hrun]
    simp [Write.runStatus, run_id hrun]
  have hsteps : L2.runSteps = b.steps.mapIdx (stepRow (h.randomUUID 0)) := by
    rw [← he2]
    exact (congrArg Ledger.runSteps he1.symm).trans (by rfl)
  have hgates : L2.runHealthGates = b.gates.map (gateRow (h.randomUUID 0)) := by
    rw [← he2]
    exact (congrArg Ledger.runHealthGates he1.symm).trans (by rfl)
  have hdecisions : L2.healthGateDecisions = [] := by
    rw [← he2]
    exact (congrArg Ledger.healthGateDecisions he1.symm).trans (by rfl)
  have hnew : ∀ s ∈ L2.runSteps, s.status = .pending ∧ s.operationId = none ∧
      s.idempotencyKey = none := by
    rw [hsteps]
    intro s hs
    obtain ⟨i, d, _, rfl⟩ := newSteps_mem hs
    exact ⟨rfl, rfl, rfl⟩
  have hnotdone : ¬AllDone L2 (h.randomUUID 0) := by
    intro hall
    obtain ⟨d, hd⟩ := List.exists_mem_of_ne_nil _ hne
    obtain ⟨i, hi, rfl⟩ := List.getElem_of_mem hd
    have hm : stepRow (h.randomUUID 0) i b.steps[i] ∈ L2.runSteps := by
      rw [hsteps]
      exact List.mem_mapIdx.mpr ⟨i, hi, rfl⟩
    have := hall.1 _ hm rfl
    cases this
  refine ⟨[.createRun (requestFor b) sampleTime, .startRun (h.randomUUID 0) "operator" sampleTime],
    by simp [Op.favourable], ?_⟩
  have hexec : exec ⟨h, [b]⟩ (freshLedger h b) [.createRun (requestFor b) sampleTime,
      .startRun (h.randomUUID 0) "operator" sampleTime] = L2 := by
    simp [hstep1, hstep2]
  rw [hexec]
  refine ⟨?_, hdraws2.le⟩
  exact {
    reached := hL2
    known := known_of_status hst2
    complete := fun hall => absurd hall hnotdone
    running := fun _ => hst2
    instantiates := by
      rw [Instantiates, hsteps, hgates, newSteps_filter, newGates_filter, if_pos rfl, if_pos rfl]
      exact ⟨rfl, rfl⟩
    stepsDone := by simp
    stepsTodo := fun s hs _ _ => ⟨(hnew s hs).1, (hnew s hs).2.1⟩
    keys := by
      intro s hs _ k hk
      rw [(hnew s hs).2.2] at hk
      cases hk
    gatesPassed := by simp
    gatesOpen := by
      rw [hgates]
      intro g hg _ _
      obtain ⟨d, _, rfl⟩ := List.mem_map.mp hg
      rfl
    decisions := by simp [hdecisions] }

/-- The gates of one step are passed one after the other. -/
theorem progress_gates (hb : Wellformed b) {done : List String} (hd : DistinctDraws h n)
    (gates : List HealthGateDefinition) {passed : List String} {L : Ledger}
    (hp : Progress ⟨h, [b]⟩ b runId done passed L) (hg : ∀ g ∈ gates, g ∈ b.gates)
    (hids : (gates.map (·.id)).Nodup) (hnew : ∀ g ∈ gates, g.id ∉ passed)
    (hm : ∀ g ∈ gates, ∃ m, b.measurer? g.id = some m ∧ m.id ∈ done)
    (hn : L.draws+(gates.map gateCost).sum ≤ n) :
    ∃ ops, (∀ op ∈ ops, Op.favourable op = true) ∧ ∃ passed',
      (∀ id, id ∈ passed' ↔ id ∈ gates.map (·.id) ∨ id ∈ passed) ∧
      Progress ⟨h, [b]⟩ b runId done passed' (exec ⟨h, [b]⟩ L ops) ∧
      (exec ⟨h, [b]⟩ L ops).draws ≤ L.draws+(gates.map gateCost).sum := by
  induction gates generalizing passed L with
  | nil => exact ⟨[], by simp, passed, by simp, hp, by simp⟩
  | cons g gates ih =>
    simp only [List.map_cons, List.sum_cons, gateCost] at hn
    obtain ⟨m, hmeasured, hdone⟩ := hm g List.mem_cons_self
    obtain ⟨op, hfav, hp1, hdraws1⟩ := progress_gate hb hp hd (by omega) (hg g List.mem_cons_self)
      (hnew g List.mem_cons_self) hmeasured hdone
    rw [List.map_cons, List.nodup_cons] at hids
    have hnew1 : ∀ g' ∈ gates, g'.id ∉ g.id::passed := by
      intro g' hg' hmem
      rcases List.mem_cons.mp hmem with heq | hmem
      · exact hids.1 (heq ▸ List.mem_map_of_mem hg')
      · exact hnew g' (List.mem_cons_of_mem g hg') hmem
    obtain ⟨ops, hall, passed', hiff, hp2, hdraws2⟩ := ih hp1
      (fun g' h => hg g' (List.mem_cons_of_mem g h)) hids.2 hnew1
      (fun g' h => hm g' (List.mem_cons_of_mem g h)) (by omega)
    refine ⟨op::ops, List.forall_mem_cons.mpr ⟨hfav, hall⟩, passed', fun id => ?_, hp2, ?_⟩
    · rw [hiff, List.map_cons, List.mem_cons, List.mem_cons]
      tauto
    · refine hdraws2.trans ?_
      simp only [List.map_cons, List.sum_cons, gateCost]
      omega

theorem measuredBy_spec {s : StepDefinition} {g : HealthGateDefinition}
    (hg : g ∈ measuredBy b s) : g ∈ b.gates ∧ ∃ m, b.measurer? g.id = some m ∧ m.id = s.id := by
  obtain ⟨hgm, hm⟩ := List.mem_filter.mp hg
  exact ⟨hgm, Option.map_eq_some_iff.mp (beq_iff_eq.mp hm)⟩

/-- The gates passed are those measured by the steps that are done. -/
def PassedBy (b : Blueprint) (done passed : List String) : Prop :=
  ∀ g ∈ b.gates, g.id ∈ passed ↔ ∃ m, b.measurer? g.id = some m ∧ m.id ∈ done

/-- The steps are taken in the order of their ranks: those that a step waits
for come before it. -/
theorem progress_all (hb : Wellformed b) (hd : DistinctDraws h n)
    (hmeasured : ∀ g ∈ b.gates, ∃ s ∈ b.steps, s.healthGateId = some g.id) {rank : String → ℕ}
    (hrank : ∀ s ∈ b.steps, (∀ d ∈ s.dependsOn, rank d < rank s.id) ∧
      ∀ g ∈ s.requiredGates, ∀ m, b.measurer? g = some m → rank m.id < rank s.id)
    (todo : List StepDefinition) {done passed : List String} {L : Ledger}
    (hp : Progress ⟨h, [b]⟩ b runId done passed L) (hpassed : PassedBy b done passed)
    (hsub : ∀ s ∈ todo, s ∈ b.steps) (hids : (todo.map (·.id)).Nodup)
    (hnew : ∀ s ∈ todo, s.id ∉ done) (hcover : ∀ s ∈ b.steps, s ∈ todo ∨ s.id ∈ done)
    (hsorted : todo.Pairwise fun s t => rank s.id ≤ rank t.id)
    (hn : L.draws+(todo.map (stepCost b)).sum ≤ n) :
    ∃ ops, (∀ op ∈ ops, Op.favourable op = true) ∧ ∃ done' passed', PassedBy b done' passed' ∧
      (∀ s ∈ b.steps, s.id ∈ done') ∧
      Progress ⟨h, [b]⟩ b runId done' passed' (exec ⟨h, [b]⟩ L ops) ∧
      (exec ⟨h, [b]⟩ L ops).draws ≤ n := by
  induction todo generalizing done passed L with
  | nil =>
    refine ⟨[], by simp, done, passed, hpassed, fun s hs => ?_, hp, by simpa using hn⟩
    exact (hcover s hs).resolve_left (List.not_mem_nil)
  | cons s todo ih =>
    have hs := hsub s List.mem_cons_self
    have hbefore : ∀ t ∈ b.steps, rank t.id < rank s.id → t.id ∈ done := by
      intro t ht hlt
      refine (hcover t ht).resolve_left fun hmem => ?_
      rcases List.mem_cons.mp hmem with rfl | hmem
      · exact lt_irrefl _ hlt
      · exact absurd hlt (not_lt.mpr ((List.pairwise_cons.mp hsorted).1 t hmem))
    have hdeps : ∀ d ∈ s.dependsOn, d ∈ done := by
      intro d hdm
      obtain ⟨t, ht, rfl⟩ := List.mem_map.mp (hb.dependencies s hs d hdm).1
      exact hbefore t ht ((hrank s hs).1 _ hdm)
    have hgates : ∀ g ∈ s.requiredGates, g ∈ passed := by
      intro g hg
      obtain ⟨e, he, rfl⟩ := List.mem_map.mp ((hb.steps s hs).2.2 g hg)
      obtain ⟨m, hm⟩ : ∃ m, b.measurer? e.id = some m := by
        obtain ⟨t, ht, hte⟩ := hmeasured e he
        exact Option.isSome_iff_exists.mp (List.find?_isSome.mpr ⟨t, ht, by simp [hte]⟩)
      exact (hpassed e he).mpr ⟨m, hm, hbefore m (List.mem_of_find?_eq_some hm)
        ((hrank s hs).2 _ hg m hm)⟩
    simp only [List.map_cons, List.sum_cons, stepCost] at hn
    obtain ⟨ops1, hfav1, hp1, hdraws1⟩ := progress_step hb hp hd (by omega) hs
      (hnew s List.mem_cons_self) hdeps hgates
    obtain ⟨ops2, hfav2, passed', hiff, hp2, hdraws2⟩ := progress_gates hb hd (measuredBy b s) hp1
      (fun g hg => (measuredBy_spec hg).1) (List.Nodup.sublist (List.filter_sublist.map _) hb.gateIds)
      (fun g hg hmem => by
        obtain ⟨hgm, m, hm, hid⟩ := measuredBy_spec hg
        obtain ⟨m', hm', hdone⟩ := (hpassed g hgm).mp hmem
        rw [hm] at hm'
        obtain rfl := Option.some.inj hm'
        exact hnew s List.mem_cons_self (hid ▸ hdone))
      (fun g hg => by
        obtain ⟨_, m, hm, hid⟩ := measuredBy_spec hg
        exact ⟨m, hm, hid ▸ List.mem_cons_self⟩)
      (by omega)
    rw [List.map_cons, List.nodup_cons] at hids
    have hpassed' : PassedBy b (s.id::done) passed' := by
      intro g hg
      rw [hiff]
      constructor
      · rintro (hmem | hmem)
        · obtain ⟨g', hg', he⟩ := List.mem_map.mp hmem
          obtain ⟨_, m, hm, hid⟩ := measuredBy_spec hg'
          rw [he] at hm
          exact ⟨m, hm, hid ▸ List.mem_cons_self⟩
        · obtain ⟨m, hm, hdone⟩ := (hpassed g hg).mp hmem
          exact ⟨m, hm, List.mem_cons_of_mem _ hdone⟩
      · rintro ⟨m, hm, hmem⟩
        rcases List.mem_cons.mp hmem with hid | hdone
        · refine .inl (List.mem_map_of_mem (List.mem_filter.mpr ⟨hg, ?_⟩))
          simp [hm, hid]
        · exact .inr ((hpassed g hg).mpr ⟨m, hm, hdone⟩)
    obtain ⟨ops3, hfav3, done', passed'', h1, h2, h3, h4⟩ := ih hp2 hpassed'
      (fun t ht => hsub t (List.mem_cons_of_mem s ht)) hids.2
      (fun t ht hmem => by
        rcases List.mem_cons.mp hmem with heq | hmem
        · exact hids.1 (heq ▸ List.mem_map_of_mem ht)
        · exact hnew t (List.mem_cons_of_mem s ht) hmem)
      (fun t ht => by
        rcases hcover t ht with hmem | hmem
        · rcases List.mem_cons.mp hmem with rfl | hmem
          · exact .inr List.mem_cons_self
          · exact .inl hmem
        · exact .inr (List.mem_cons_of_mem _ hmem))
      (List.pairwise_cons.mp hsorted).2 (by omega)
    refine ⟨ops1++(ops2++ops3), ?_, done', passed'', h1, h2, ?_⟩
    · intro op hop
      rcases List.mem_append.mp hop with hop | hop
      · exact hfav1 op hop
      · rcases List.mem_append.mp hop with hop | hop
        · exact hfav2 op hop
        · exact hfav3 op hop
    · rw [exec_append, exec_append]
      exact ⟨h3, h4⟩

end Sufficiency

/-- Some history that records successes only takes a new run of the blueprint
to `succeeded`. -/
def Completable (h : Host) (b : Blueprint) : Prop :=
  ∃ L ops, Opened ⟨h, [b]⟩ L ∧ NoCollision h (exec ⟨h, [b]⟩ L ops) ∧
    (∀ op ∈ ops, Op.favourable op = true) ∧
    ∃ r ∈ (exec ⟨h, [b]⟩ L ops).releaseRuns, r.status = .succeeded

theorem soundly_exec {o : Orchestrator} {L : Ledger} {ops : List Op} (hL : Reached o L)
    (hn : NoCollision o.host (exec o L ops)) (h : SucceedsSoundly o L) :
    SucceedsSoundly o (exec o L ops) := by
  induction ops generalizing L with
  | nil => exact h
  | cons op ops ih =>
    have hn1 := hn.mono (draws_exec o (step o L op) ops)
    exact ih (hL.step op hn1) hn (soundly_step op hL hn1 h)

theorem completes_of_completable {h : Host} {b : Blueprint} (hc : Completable h b) :
    Completes b := by
  obtain ⟨L, ops, ho, hn, _, r, hr, hst⟩ := hc
  have hstart : SucceedsSoundly ⟨h, [b]⟩ L := by
    rw [opened_ledger ho]
    intro r hr
    cases hr
  obtain ⟨b', hb', _, hc⟩ := soundly_exec (.opened ho) hn hstart r hr hst
  obtain rfl := List.mem_singleton.mp hb'
  exact hc

theorem completable_of_completes {h : Host} {b : Blueprint}
    (hv : validateWorkflowBlueprint b = .ok ()) (hd : DistinctDraws h (identifiersNeeded b))
    (hc : Completes b) : Completable h b := by
  have hb := accepted_wellformed hv
  obtain ⟨rank, hrank⟩ := hc.ranked
  obtain ⟨ops1, hfav1, hp1, hdraws1⟩ := progress_initial (h := h) hv hc.nonempty hd
    (Nat.le_add_right 5 _)
  let order := b.steps.insertionSort fun s t => rank s.id ≤ rank t.id
  have hperm : order.Perm b.steps := List.perm_insertionSort _ _
  have hsorted : order.Pairwise fun s t => rank s.id ≤ rank t.id := by
    have : IsTrans StepDefinition fun s t => rank s.id ≤ rank t.id := ⟨fun _ _ _ => le_trans⟩
    have : Std.Total fun s t : StepDefinition => rank s.id ≤ rank t.id := ⟨fun _ _ => le_total _ _⟩
    exact List.pairwise_insertionSort _ _
  obtain ⟨ops2, hfav2, done, passed, hpassed, hall, hp2, hdraws2⟩ := progress_all hb hd hc.measured
    hrank order hp1 (fun g _ => by simp) (fun s hs => hperm.mem_iff.mp hs)
    ((hperm.map _).nodup_iff.mpr hb.stepIds) (fun _ _ => List.not_mem_nil)
    (fun s hs => .inl (hperm.mem_iff.mpr hs)) hsorted
    (by rw [(hperm.map _).sum_eq]; exact Nat.add_le_add_right hdraws1 _)
  have hdone : AllDone (exec ⟨h, [b]⟩ (exec ⟨h, [b]⟩ (freshLedger h b) ops1) ops2)
      (h.randomUUID 0) := by
    constructor
    · intro s hs hrun
      obtain ⟨hm, hid⟩ := hp2.instantiates.definition_of hs hrun
      exact hp2.stepsDone s hs hrun (hid ▸ hall _ hm)
    · intro g hg hrun
      obtain ⟨d, hdm, hid, _⟩ := hp2.instantiates.gate_definition hg hrun
      obtain ⟨t, ht, hte⟩ := hc.measured d hdm
      obtain ⟨m, hm⟩ : ∃ m, b.measurer? d.id = some m :=
        Option.isSome_iff_exists.mp (List.find?_isSome.mpr ⟨t, ht, by simp [hte]⟩)
      refine hp2.gatesPassed g hg hrun (hid ▸ (hpassed d hdm).mpr ?_)
      exact ⟨m, hm, hall m (List.mem_of_find?_eq_some hm)⟩
  obtain ⟨run, hrun, hst⟩ := status_some (hp2.complete hdone)
  refine ⟨freshLedger h b, ops1++ops2, fresh_opened hv, ?_, ?_, run, ?_, hst⟩
  · rw [exec_append]
    exact hd.noCollision hdraws2
  · intro op hop
    rcases List.mem_append.mp hop with hop | hop
    · exact hfav1 op hop
    · exact hfav2 op hop
  · rw [exec_append]
    exact run_mem hrun

/-- A valid blueprint can be completed exactly when it has a step, every gate
is measured, and no wait for dependencies and measurements is circular. -/
theorem completable_iff {h : Host} {b : Blueprint} (hv : validateWorkflowBlueprint b = .ok ())
    (hd : DistinctDraws h (identifiersNeeded b)) : Completable h b ↔ Completes b :=
  ⟨completes_of_completable, completable_of_completes hv hd⟩

/-- A measurement, and a deployment that waits for the measured gate. -/
def measuredBlueprint : Blueprint :=
  sampleBlueprint [sampleGate "health"]
    [sampleStep "measure" [] [] (some "health"), sampleStep "deploy" ["measure"] ["health"] none]

theorem completable_iff_measured : Completable sampleHost measuredBlueprint := by
  have hd : DistinctDraws sampleHost (identifiersNeeded measuredBlueprint) := by
    have hlt : identifiersNeeded measuredBlueprint < 16^12 := by decide +kernel
    exact fun m hm k hk he => sampleHost_distinct (hm.trans hlt) (hk.trans hlt) he
  refine (completable_iff (by decide +kernel) hd).mpr ⟨by decide, by decide +kernel, ?_⟩
  exact ⟨fun id => if id = "measure" then 0 else 1, by decide +kernel⟩

/-- A deployment that waits for the gate it measures itself. -/
def selfGatedBlueprint : Blueprint :=
  sampleBlueprint [sampleGate "health"] [sampleStep "deploy" [] ["health"] (some "health")]

theorem accepted_deadlock : validateWorkflowBlueprint selfGatedBlueprint = .ok () ∧
    ∀ h, ¬Completable h selfGatedBlueprint := by
  refine ⟨by decide +kernel, fun h hc => ?_⟩
  obtain ⟨rank, hrank⟩ := (completes_of_completable hc).ranked
  have hself := (hrank (sampleStep "deploy" [] ["health"] (some "health")) List.mem_cons_self).2
    "health" List.mem_cons_self (sampleStep "deploy" [] ["health"] (some "health"))
    (by decide +kernel)
  exact lt_irrefl _ hself

end AccessStack.Release
