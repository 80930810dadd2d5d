import AccessStack.Release.Gates

/-!
# Runs as instances of their blueprint

The steps and gates of a run are those of one blueprint, in its order, and
keep their definitions for ever. The health measurement of a gate is thereby
the first declared step that names the gate, and a passed gate has a measured
success behind it.
-/

set_option autoImplicit false

namespace AccessStack.Release
open AccessStack.Rows

def Instantiates (L : Ledger) (runId : String) (b : Blueprint) : Prop :=
  (L.runSteps.filter (·.runId == runId)).map StepRow.ident =
      (b.steps.mapIdx (stepRow runId)).map StepRow.ident ∧
    (L.runHealthGates.filter (·.runId == runId)).map GateRow.ident =
      (b.gates.map (gateRow runId)).map GateRow.ident

theorem steps_of_ident {steps steps' : List StepRow}
    (h : steps'.map StepRow.ident = steps.map StepRow.ident) (runId : String) :
    (steps'.filter (·.runId == runId)).map StepRow.ident =
      (steps.filter (·.runId == runId)).map StepRow.ident := by
  have hfilter : ∀ l : List StepRow, (l.filter (·.runId == runId)).map StepRow.ident =
      (l.map StepRow.ident).filter (·.1 == runId) := by
    intro l
    rw [List.filter_map]
    rfl
  rw [hfilter, hfilter, h]

theorem gates_of_ident {gates gates' : List GateRow}
    (h : gates'.map GateRow.ident = gates.map GateRow.ident) (runId : String) :
    (gates'.filter (·.runId == runId)).map GateRow.ident =
      (gates.filter (·.runId == runId)).map GateRow.ident := by
  have hfilter : ∀ l : List GateRow, (l.filter (·.runId == runId)).map GateRow.ident =
      (l.map GateRow.ident).filter (·.1 == runId) := by
    intro l
    rw [List.filter_map]
    rfl
  rw [hfilter, hfilter, h]

theorem newSteps_filter (runId other : String) (steps : List StepDefinition) :
    (steps.mapIdx (stepRow runId)).filter (·.runId == other) =
      if runId = other then steps.mapIdx (stepRow runId) else [] := by
  split
  · rename_i he
    refine List.filter_eq_self.mpr fun s hs => ?_
    obtain ⟨i, d, _, rfl⟩ := newSteps_mem hs
    simpa [stepRow] using he
  · rename_i he
    refine List.filter_eq_nil_iff.mpr fun s hs => ?_
    obtain ⟨i, d, _, rfl⟩ := newSteps_mem hs
    simpa [stepRow] using he

theorem newGates_filter (runId other : String) (gates : List HealthGateDefinition) :
    (gates.map (gateRow runId)).filter (·.runId == other) =
      if runId = other then gates.map (gateRow runId) else [] := by
  split
  · rename_i he
    simp [List.filter_map, Function.comp_def, gateRow, he]
  · rename_i he
    simp [List.filter_map, Function.comp_def, gateRow, he]

theorem instantiates_perform {o : Orchestrator} {L : Ledger} {w : Write} (hL : Written o L)
    (hn : NoCollision o.host (perform o.host L w)) {runId : String} {b : Blueprint}
    (hr : runId ∈ L.releaseRuns.map (·.runId)) (h : Instantiates L runId b) :
    Instantiates (perform o.host L w) runId b := by
  by_cases hw : ∃ b' q t, w = .insertRun b' q t
  · obtain ⟨b', q, t, rfl⟩ := hw
    have hne : o.host.randomUUID L.draws ≠ runId := by
      rintro rfl
      obtain ⟨r, hm, he⟩ := List.mem_map.mp hr
      exact fresh_not_drawn hn (Nat.lt_succ_self L.draws) (he ▸ hL.keyed.runDrawn r hm)
    simp only [Instantiates, perform, insertRun, List.filter_append, newSteps_filter,
      newGates_filter, if_neg hne, List.append_nil]
    exact h
  · push Not at hw
    exact ⟨(steps_of_ident (steps_ident hw) runId).trans h.1,
      (gates_of_ident (gates_ident hw) runId).trans h.2⟩

theorem instantiates_exec {o : Orchestrator} {L : Ledger} {ops : List Op} (hL : Reached o L)
    (hn : NoCollision o.host (exec o L ops)) {runId : String} {b : Blueprint}
    (hr : runId ∈ L.releaseRuns.map (·.runId)) (h : Instantiates L runId b) :
    Instantiates (exec o L ops) runId b := by
  refine (hL.along (P := fun L' => runId ∈ L'.releaseRuns.map (·.runId) ∧ Instantiates L' runId b)
    ?_ hn ⟨hr, h⟩).2
  intro L1 w hL1 _ hn1 ⟨hr1, h1⟩
  refine ⟨?_, instantiates_perform hL1 hn1 hr1 h1⟩
  obtain ⟨r, hm, he⟩ := List.mem_map.mp hr1
  obtain ⟨r', hr', hid, _⟩ := run_after (h := o.host) (w := w) hm
  exact List.mem_map.mpr ⟨r', hr', hid.trans he⟩

theorem instantiates_insertRun {o : Orchestrator} {L : Ledger} (hL : Written o L) {b : Blueprint}
    {q : RunRequest} {now : String} (hn : NoCollision o.host (perform o.host L (.insertRun b q now))) :
    Instantiates (perform o.host L (.insertRun b q now)) (o.host.randomUUID L.draws) b := by
  have hk := hL.keyed
  have hfresh : ∀ runId ∈ L.releaseRuns.map (·.runId), runId ≠ o.host.randomUUID L.draws := by
    rintro runId hr rfl
    obtain ⟨r, hm, he⟩ := List.mem_map.mp hr
    exact fresh_not_drawn hn (Nat.lt_succ_self L.draws) (he ▸ hk.runDrawn r hm)
  have hsteps : L.runSteps.filter (·.runId == o.host.randomUUID L.draws) = [] := by
    refine List.filter_eq_nil_iff.mpr fun s hs => ?_
    simpa using hfresh _ (hk.stepRun s hs)
  have hgates : L.runHealthGates.filter (·.runId == o.host.randomUUID L.draws) = [] := by
    refine List.filter_eq_nil_iff.mpr fun g hg => ?_
    simpa using hfresh _ (hk.gateRun g hg)
  simp only [Instantiates, perform, insertRun, List.filter_append, newSteps_filter,
    newGates_filter, if_true, hsteps, hgates, List.nil_append, and_self]

/-- Every run is an instance of the blueprint it names. -/
theorem Written.instantiates {o : Orchestrator} {L : Ledger} (h : Written o L) :
    ∀ r ∈ L.releaseRuns, ∃ b ∈ o.blueprints, r.blueprintId = b.id ∧
      r.blueprintVersion = b.version ∧ Instantiates L r.runId b := by
  induction h with
  | opened h =>
    rw [opened_ledger h]
    intro r hr
    cases hr
  | @write L w hL hg hn ih =>
    intro r' hr'
    by_cases hw : ∃ b q t, w = .insertRun b q t
    · obtain ⟨b, q, t, rfl⟩ := hw
      rcases List.mem_append.mp hr' with hr | hr
      · obtain ⟨b', hb', h1, h2, h3⟩ := ih r' hr
        exact ⟨b', hb', h1, h2, instantiates_perform hL hn (List.mem_map_of_mem hr) h3⟩
      · obtain rfl := List.mem_singleton.mp hr
        exact ⟨b, hg.1, rfl, rfl, instantiates_insertRun hL hn⟩
    · push Not at hw
      obtain ⟨r, hr, hid⟩ := mem_of_map_eq (runs_ident (o := o) hw) hr'
      have h0 : r.runId = r'.runId := congrArg (·.1) hid
      have h1 : r.blueprintId = r'.blueprintId := congrArg (·.2.2.1) hid
      have h2 : r.blueprintVersion = r'.blueprintVersion := congrArg (·.2.2.2.1) hid
      obtain ⟨b, hb, h3, h4, h5⟩ := ih r hr
      refine ⟨b, hb, h1 ▸ h3, h2 ▸ h4, ?_⟩
      exact h0 ▸ instantiates_perform hL hn (List.mem_map_of_mem hr) h5

section Instance
variable {L : Ledger} {runId : String} {b : Blueprint}

theorem Instantiates.definitions (h : Instantiates L runId b) :
    (L.runSteps.filter (·.runId == runId)).map (fun s => (s.stepId, s.definition)) =
      b.steps.map fun d => (d.id, d) := by
  have hmap := congrArg (List.map fun i : String × String × ℕ × StepDefinition => (i.2.1, i.2.2.2)) h.1
  rw [List.map_map, List.map_map] at hmap
  refine hmap.trans ?_
  exact newSteps_map _ _ _ _ fun _ _ => rfl

theorem Instantiates.step_of (h : Instantiates L runId b) {d : StepDefinition} (hd : d ∈ b.steps) :
    ∃ s ∈ L.runSteps, s.runId = runId ∧ s.stepId = d.id ∧ s.definition = d := by
  have hm : (d.id, d) ∈ b.steps.map fun d => (d.id, d) := List.mem_map_of_mem hd
  rw [← h.definitions] at hm
  obtain ⟨s, hs, he⟩ := List.mem_map.mp hm
  obtain ⟨hs, hrun⟩ := List.mem_filter.mp hs
  exact ⟨s, hs, by simpa using hrun, congrArg (·.1) he, congrArg (·.2) he⟩

theorem Instantiates.definition_of (h : Instantiates L runId b) {s : StepRow} (hs : s ∈ L.runSteps)
    (hrun : s.runId = runId) : s.definition ∈ b.steps ∧ s.stepId = s.definition.id := by
  have hm : (s.stepId, s.definition) ∈ b.steps.map fun d => (d.id, d) := by
    rw [← h.definitions]
    exact List.mem_map.mpr ⟨s, List.mem_filter.mpr ⟨hs, by simpa using hrun⟩, rfl⟩
  obtain ⟨d, hd, he⟩ := List.mem_map.mp hm
  have h1 : d.id = s.stepId := congrArg (·.1) he
  have h2 : d = s.definition := congrArg (·.2) he
  exact ⟨h2 ▸ hd, h2 ▸ h1.symm⟩

theorem Instantiates.gate_of (h : Instantiates L runId b) {d : HealthGateDefinition}
    (hd : d ∈ b.gates) : ∃ g ∈ L.runHealthGates, g.runId = runId ∧ g.gateId = d.id ∧
      g.requiredEvidenceKinds = d.requiredEvidenceKinds := by
  have hm : (gateRow runId d).ident ∈ (b.gates.map (gateRow runId)).map GateRow.ident :=
    List.mem_map_of_mem (List.mem_map_of_mem hd)
  rw [← h.2] at hm
  obtain ⟨g, hg, he⟩ := List.mem_map.mp hm
  obtain ⟨hg, hrun⟩ := List.mem_filter.mp hg
  exact ⟨g, hg, by simpa using hrun, congrArg (·.2.1) he, congrArg (·.2.2) he⟩

theorem Instantiates.gate_definition (h : Instantiates L runId b) {g : GateRow}
    (hg : g ∈ L.runHealthGates) (hrun : g.runId = runId) :
    ∃ d ∈ b.gates, g.gateId = d.id ∧ g.requiredEvidenceKinds = d.requiredEvidenceKinds := by
  have hm : g.ident ∈ (b.gates.map (gateRow runId)).map GateRow.ident := by
    rw [← h.2]
    exact List.mem_map_of_mem (List.mem_filter.mpr ⟨hg, by simpa using hrun⟩)
  rw [List.map_map] at hm
  obtain ⟨d, hd, he⟩ := List.mem_map.mp hm
  exact ⟨d, hd, (congrArg (·.2.1) he : d.id = g.gateId).symm, (congrArg (·.2.2) he).symm⟩

/-- The steps of a run are stored in the order of their ordinals. -/
theorem Instantiates.stepsOf (h : Instantiates L runId b) :
    L.stepsOf runId = L.runSteps.filter (·.runId == runId) := by
  have hord : (L.runSteps.filter (·.runId == runId)).map (·.ordinal) = List.range b.steps.length := by
    have hmap := congrArg (List.map fun i : String × String × ℕ × StepDefinition => i.2.2.1) h.1
    rw [List.map_map, List.map_map] at hmap
    refine hmap.trans ?_
    apply List.ext_getElem
    · simp
    · intro i _ _
      simp [stepRow, StepRow.ident]
  refine List.Pairwise.insertionSort_eq ?_
  have hpair : ((L.runSteps.filter (·.runId == runId)).map (·.ordinal)).Pairwise (· < ·) := by
    rw [hord]
    exact List.pairwise_lt_range
  exact (List.pairwise_map.mp hpair).imp le_of_lt

/-- The health measurement of a gate is the first declared step naming it. -/
theorem Instantiates.measuring (h : Instantiates L runId b) (gateId : String) :
    (measuringStep L runId gateId).map (fun s => (s.stepId, s.definition)) =
      (b.steps.find? (·.healthGateId == some gateId)).map fun d => (d.id, d) := by
  have hfind := congrArg
    (List.find? fun p : String × StepDefinition => p.2.healthGateId == some gateId) h.definitions
  rw [List.find?_map, List.find?_map] at hfind
  rw [measuringStep, h.stepsOf]
  exact hfind

end Instance

/-- A passed gate has a measurement that succeeded. -/
def MeasuredPasses (L : Ledger) : Prop :=
  ∀ g ∈ L.runHealthGates, g.status = .passed →
    ∃ s, measuringStep L g.runId g.gateId = some s ∧ s.status = .succeeded

/-- A measurement that has succeeded stays the measurement of its gate. -/
theorem measuring_kept {o : Orchestrator} {L : Ledger} {w : Write} (hL : Written o L)
    (hg : Guard o L w) (hn : NoCollision o.host (perform o.host L w)) {runId gateId : String}
    {s : StepRow} (hm : measuringStep L runId gateId = some s) (hst : s.status = .succeeded) :
    measuringStep (perform o.host L w) runId gateId = some s := by
  obtain ⟨hs, hrun⟩ := measuring_mem hm
  have hr : runId ∈ L.releaseRuns.map (·.runId) := hrun ▸ hL.keyed.stepRun s hs
  obtain ⟨r, hrm, he⟩ := List.mem_map.mp hr
  obtain ⟨b, _, _, _, hi⟩ := hL.instantiates r hrm
  rw [he] at hi
  have hi' := instantiates_perform hL hn hr hi
  have hsame := (hi'.measuring gateId).trans (hi.measuring gateId).symm
  rw [hm, Option.map_some] at hsame
  obtain ⟨s', hs', hkey⟩ := Option.map_eq_some_iff.mp hsame
  have hk' := (hL.write w hg hn).keyed
  obtain ⟨hsm', hrun'⟩ := measuring_mem hs'
  have hid : s'.stepId = s.stepId := congrArg (·.1) hkey
  have heq : s' = s := List.inj_on_of_nodup_map hk'.steps hsm'
    (frozen_perform hL hg hs (.inl hst)).1 (by simp [hrun', hrun, hid])
  rw [hs', heq]

theorem Written.measuredPasses {o : Orchestrator} {L : Ledger} (h : Written o L) :
    MeasuredPasses L := by
  induction h with
  | opened h =>
    rw [opened_ledger h]
    intro g hg
    cases hg
  | @write L w hL hg hn ih =>
    intro g' hg' hpassed
    obtain ⟨g, hgm, hid, hst⟩ | ⟨b, q, t, d, rfl, _, rfl⟩ := gate_before hg'
    · have hrun : g.runId = g'.runId := congrArg (·.1) hid
      have hgid : g.gateId = g'.gateId := congrArg (·.2.1) hid
      rw [← hrun, ← hgid]
      obtain hold | ⟨runId, gateId, input, sha, ids, now, rfl, rfl, rfl, _⟩ :=
        gateStatus_passed (hst ▸ hpassed)
      · obtain ⟨s, hm, hs⟩ := ih g hgm hold
        exact ⟨s, measuring_kept hL hg hn hm hs, hs⟩
      · obtain ⟨s, hm, hs⟩ := hg.2.2.1
        exact ⟨s, measuring_kept hL hg hn hm hs, hs⟩
    · cases hpassed

end AccessStack.Release
