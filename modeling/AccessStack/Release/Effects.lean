import AccessStack.Release.Attempts

/-!
# The status columns after a write

One equation for each table says which status a write gives to a row that
exists. Runs, steps and gates are added by `createRun` alone, attempts by
`beginStepAttempt` alone. Later invariants about statuses read these equations
and never a definition of the orchestrator.
-/

set_option autoImplicit false

namespace AccessStack.Release
open AccessStack.Rows

/-- Some operation of the run is in flight or unknown. -/
def Busy (L : Ledger) (runId : String) : Prop :=
  ∃ a ∈ L.stepAttempts, a.runId = runId ∧
    (a.status = .intentRecorded ∨ a.status = .outcomeUnknown)

def StepFailed (L : Ledger) (runId : String) : Prop :=
  ∃ s ∈ L.runSteps, s.runId = runId ∧ s.status = .failed

def GateDecidedFailed (L : Ledger) (runId : String) : Prop :=
  ∃ d ∈ L.healthGateDecisions, d.runId = runId ∧ d.outcome = .failed

instance (L : Ledger) (runId : String) : Decidable (Busy L runId) :=
  inferInstanceAs (Decidable (∃ a ∈ L.stepAttempts, a.runId = runId ∧
    (a.status = .intentRecorded ∨ a.status = .outcomeUnknown)))

instance (L : Ledger) (runId : String) : Decidable (StepFailed L runId) :=
  inferInstanceAs (Decidable (∃ s ∈ L.runSteps, s.runId = runId ∧ s.status = .failed))

instance (L : Ledger) (runId : String) : Decidable (GateDecidedFailed L runId) :=
  inferInstanceAs (Decidable (∃ d ∈ L.healthGateDecisions, d.runId = runId ∧ d.outcome = .failed))

def Write.runStatus (L : Ledger) (r : RunRow) : Write → RunStatus
  | .start runId _ => if r.runId = runId then .running else r.status
  | .finish a input _ _ =>
    if r.runId = a.runId ∧ input.outcome ≠ .succeeded then .failed else r.status
  | .lose a _ _ _ => if r.runId = a.runId then .pausedOutcomeUnknown else r.status
  | .resume runId _ =>
    if r.runId = runId ∧ r.status = .pausedOutcomeUnknown ∧ ¬Busy L runId then
      if StepFailed L runId then .failed else .running
    else r.status
  | .complete run _ _ => if r.runId = run.runId then .succeeded else r.status
  | .decide runId _ input _ _ _ =>
    if r.runId = runId ∧ input.outcome = .failed then .failed else r.status
  | _ => r.status

def Write.stepStatus (s : StepRow) : Write → StepStatus
  | .begin row _ _ =>
    if s.runId = row.runId ∧ s.stepId = row.stepId then .inProgress else s.status
  | .finish a input _ _ =>
    if s.runId = a.runId ∧ s.stepId = a.stepId then
      if input.outcome = .succeeded then .succeeded else .failed
    else s.status
  | .lose a _ _ _ =>
    if s.runId = a.runId ∧ s.stepId = a.stepId then .outcomeUnknown else s.status
  | .settle a _ .applied _ =>
    if s.runId = a.runId ∧ s.stepId = a.stepId then .succeeded else s.status
  | .settle a _ .notApplied _ =>
    if s.runId = a.runId ∧ s.stepId = a.stepId then .pending else s.status
  | _ => s.status

def Write.gateStatus (g : GateRow) : Write → GateStatus
  | .lose a _ d _ =>
    if g.runId = a.runId ∧ d.measuredGate = some g.gateId then .outcomeUnknown else g.status
  | .settle a d outcome _ =>
    if (g.runId = a.runId ∧ d.measuredGate = some g.gateId) ∧ outcome ≠ .stillUnknown then .pending
    else g.status
  | .decide runId gateId input _ _ _ =>
    if g.runId = runId ∧ g.gateId = gateId then
      if input.outcome = .passed then .passed else .failed
    else g.status
  | _ => g.status

def Write.attemptStatus (b : AttemptRow) : Write → AttemptStatus
  | .finish a input _ _ =>
    if b.attemptId = a.attemptId then
      if input.outcome = .succeeded then .succeeded else .failed
    else b.status
  | .lose a mark _ _ => if b.attemptId = a.attemptId then (mark b).status else b.status
  | .settle a _ .applied _ => if b.attemptId = a.attemptId then .succeeded else b.status
  | .settle a _ .notApplied _ =>
    if b.attemptId = a.attemptId then .resolvedNotApplied else b.status
  | _ => b.status

section Changes
variable {L : Ledger} {r : RunRow} {w : Write}

attribute [local simp] Write.runStatus in
theorem runStatus_planned (h : w.runStatus L r = .planned) : r.status = .planned := by
  cases w <;> simp only [Write.runStatus] at h <;> grind

/-- A run starts running when it is started or resumed. -/
theorem runStatus_running (h : w.runStatus L r = .running) :
    r.status = .running ∨ (∃ now, w = .start r.runId now) ∨
      ∃ now, w = .resume r.runId now ∧ r.status = .pausedOutcomeUnknown ∧ ¬Busy L r.runId ∧
        ¬StepFailed L r.runId := by
  cases w with
  | start runId now =>
    simp only [Write.runStatus] at h
    split at h
    · rename_i he
      exact .inr (.inl ⟨now, he ▸ rfl⟩)
    · exact .inl h
  | resume runId now =>
    simp only [Write.runStatus] at h
    split at h
    · rename_i hc
      obtain ⟨rfl, hp, hb⟩ := hc
      split at h
      · cases h
      · exact .inr (.inr ⟨now, rfl, hp, hb, ‹_›⟩)
    · exact .inl h
  | _ =>
    simp only [Write.runStatus] at h
    grind

/-- A run succeeds by completion alone. -/
theorem runStatus_succeeded (h : w.runStatus L r = .succeeded) :
    r.status = .succeeded ∨ ∃ run actorId now, w = .complete run actorId now ∧
      run.runId = r.runId := by
  cases w with
  | complete run actorId now =>
    simp only [Write.runStatus] at h
    split at h
    · rename_i he
      exact .inr ⟨run, actorId, now, rfl, he.symm⟩
    · exact .inl h
  | _ =>
    simp only [Write.runStatus] at h
    grind

attribute [local simp] Write.stepStatus in
/-- A step fails when its operation ends so. -/
theorem stepStatus_failed {s : StepRow} (h : w.stepStatus s = .failed) :
    s.status = .failed ∨ ∃ a input sha now, w = .finish a input sha now ∧ s.runId = a.runId ∧
      input.outcome ≠ .succeeded := by
  cases w with
  | finish a input sha now =>
    simp only [Write.stepStatus] at h
    grind
  | settle a d outcome now =>
    cases outcome <;> simp only [Write.stepStatus] at h <;> grind
  | _ =>
    simp only [Write.stepStatus] at h
    grind

attribute [local simp] Write.gateStatus in
/-- A gate passes by a decision alone. -/
theorem gateStatus_passed {g : GateRow} (h : w.gateStatus g = .passed) :
    g.status = .passed ∨ ∃ runId gateId input sha ids now,
      w = .decide runId gateId input sha ids now ∧ g.runId = runId ∧ g.gateId = gateId ∧
        input.outcome = .passed := by
  cases w with
  | decide runId gateId input sha ids now =>
    simp only [Write.gateStatus] at h
    grind
  | _ =>
    simp only [Write.gateStatus] at h
    grind

theorem gateStatus_failed {g : GateRow} (h : w.gateStatus g = .failed) :
    g.status = .failed ∨ ∃ runId gateId input sha ids now,
      w = .decide runId gateId input sha ids now ∧ g.runId = runId ∧ g.gateId = gateId ∧
        input.outcome = .failed := by
  cases w with
  | decide runId gateId input sha ids now =>
    simp only [Write.gateStatus] at h
    cases ho : input.outcome <;> grind
  | _ =>
    simp only [Write.gateStatus] at h
    grind

end Changes

theorem map_update_eq {α β : Type} {p : α → Bool} {f : α → α} {rows : List α} {k q : α → β}
    (h : ∀ r, q r = if p r then k (f r) else k r) :
    (update p f rows).map k = rows.map q := by
  rw [update, List.map_map]
  refine List.map_congr_left fun r _ => ?_
  rw [h, Function.comp_apply]
  split <;> rfl

theorem runs_status {h : Host} {L : Ledger} {w : Write} (hw : ∀ b q t, w ≠ .insertRun b q t) :
    (perform h L w).releaseRuns.map (fun r => (r.runId, r.status)) =
      L.releaseRuns.map (fun r => (r.runId, w.runStatus L r)) := by
  cases w with
  | insertRun b q t => exact absurd rfl (hw b q t)
  | log run t payload actorId now => exact map_update_eq fun r => by simp [Write.runStatus]
  | start runId now =>
    refine map_update_eq fun r => ?_
    by_cases hr : r.runId = runId <;> simp [Write.runStatus, hr]
  | finish a input sha now =>
    simp only [perform]
    split
    · rename_i ho
      refine List.map_congr_left fun r _ => ?_
      simp [Write.runStatus, ho]
    · rename_i ho
      refine map_update_eq fun r => ?_
      by_cases hr : r.runId = a.runId <;> simp [Write.runStatus, hr, ho]
  | begin row key now =>
    simp only [perform, insertAttempt, afterOperation]
    split <;> rfl
  | lose a mark d now =>
    refine map_update_eq fun r => ?_
    by_cases hr : r.runId = a.runId <;> simp [Write.runStatus, hr]
  | settle a d outcome now => cases outcome <;> rfl
  | resume runId now =>
    have hbusy : (L.stepAttempts.any fun a => a.runId == runId &&
        (a.status == .intentRecorded || a.status == .outcomeUnknown)) = decide (Busy L runId) := by
      rw [Bool.eq_iff_iff, decide_eq_true_iff]
      simp [Busy]
    have hfailed : (L.runSteps.any fun s => s.runId == runId && s.status == .failed) =
        decide (StepFailed L runId) := by
      rw [Bool.eq_iff_iff, decide_eq_true_iff]
      simp [StepFailed]
    simp only [perform, resumeIfNoUnknownOperations, hbusy, hfailed, decide_eq_true_eq]
    split
    · rename_i hb
      refine List.map_congr_left fun r _ => ?_
      simp [Write.runStatus, hb]
    · rename_i hb
      refine map_update_eq fun r => ?_
      by_cases hr : r.runId = runId
      · by_cases hp : r.status = .pausedOutcomeUnknown <;> simp [Write.runStatus, hr, hb, hp]
      · simp [Write.runStatus, hr]
  | complete run actorId now =>
    simp only [perform, Ledger.logEvent, succeedRun, Ledger.setRun]
    rw [map_update_eq (q := fun r => (r.runId, r.status)) (fun r => by simp)]
    refine map_update_eq fun r => ?_
    by_cases hr : r.runId = run.runId <;> simp [Write.runStatus, hr]
  | decide runId gateId input sha ids now =>
    simp only [perform]
    split
    · rename_i ho
      refine map_update_eq fun r => ?_
      by_cases hr : r.runId = runId <;> simp [Write.runStatus, hr, ho]
    · rename_i ho
      refine List.map_congr_left fun r _ => ?_
      simp [Write.runStatus, ho]
  | evidence rows => rfl
  | note a op input sha now => rfl

theorem steps_status {h : Host} {L : Ledger} {w : Write} (hw : ∀ b q t, w ≠ .insertRun b q t) :
    (perform h L w).runSteps.map (fun s => (s.ident, s.status)) =
      L.runSteps.map (fun s => (s.ident, w.stepStatus s)) := by
  have hmatch : ∀ (s : StepRow) (r t : String),
      (s.runId == r && s.stepId == t) = decide (s.runId = r ∧ s.stepId = t) := by
    intro s r t
    rw [Bool.eq_iff_iff]
    simp
  cases w with
  | insertRun b q t => exact absurd rfl (hw b q t)
  | begin row key now =>
    rw [begin_steps]
    refine map_update_eq fun s => ?_
    by_cases hs : s.runId = row.runId ∧ s.stepId = row.stepId <;>
      simp [hmatch, Write.stepStatus, hs, StepRow.ident]
  | finish a input sha now =>
    have heq : (finishAttempt L a input sha now).runSteps.map (fun s => (s.ident, s.status)) =
        L.runSteps.map (fun s => (s.ident, (Write.finish a input sha now).stepStatus s)) := by
      refine map_update_eq fun s => ?_
      by_cases hs : s.runId = a.runId ∧ s.stepId = a.stepId <;>
        simp [hmatch, Write.stepStatus, hs, StepRow.ident]
    simp only [perform]
    split <;> exact heq
  | lose a mark d now =>
    refine map_update_eq fun s => ?_
    by_cases hs : s.runId = a.runId ∧ s.stepId = a.stepId <;>
      simp [hmatch, Write.stepStatus, hs, StepRow.ident]
  | settle a d outcome now =>
    cases outcome with
    | applied =>
      refine map_update_eq fun s => ?_
      by_cases hs : s.runId = a.runId ∧ s.stepId = a.stepId <;>
        simp [hmatch, Write.stepStatus, hs, StepRow.ident]
    | notApplied =>
      refine map_update_eq fun s => ?_
      by_cases hs : s.runId = a.runId ∧ s.stepId = a.stepId <;>
        simp [hmatch, Write.stepStatus, hs, StepRow.ident]
    | stillUnknown => rfl
  | resume r now =>
    simp only [perform, resumeIfNoUnknownOperations]
    split <;> rfl
  | decide r g input sha ids now =>
    simp only [perform]
    split <;> rfl
  | _ => rfl

theorem gates_status {h : Host} {L : Ledger} {w : Write} (hw : ∀ b q t, w ≠ .insertRun b q t) :
    (perform h L w).runHealthGates.map (fun g => (g.ident, g.status)) =
      L.runHealthGates.map (fun g => (g.ident, w.gateStatus g)) := by
  cases w with
  | insertRun b q t => exact absurd rfl (hw b q t)
  | finish a input sha now =>
    simp only [perform]
    split <;> rfl
  | begin row key now =>
    simp only [perform, insertAttempt, afterOperation]
    split <;> rfl
  | lose a mark d now =>
    refine map_update_eq fun g => ?_
    by_cases hg : g.runId = a.runId ∧ d.measuredGate = some g.gateId <;>
      simp [Write.gateStatus, hg, GateRow.ident]
  | settle a d outcome now =>
    cases outcome with
    | applied =>
      refine map_update_eq fun g => ?_
      by_cases hg : g.runId = a.runId ∧ d.measuredGate = some g.gateId <;>
        simp [Write.gateStatus, hg, GateRow.ident]
    | notApplied =>
      refine map_update_eq fun g => ?_
      by_cases hg : g.runId = a.runId ∧ d.measuredGate = some g.gateId <;>
        simp [Write.gateStatus, hg, GateRow.ident]
    | stillUnknown =>
      refine List.map_congr_left fun g _ => ?_
      simp [Write.gateStatus]
  | resume r now =>
    simp only [perform, resumeIfNoUnknownOperations]
    split <;> rfl
  | decide r gateId input sha ids now =>
    have heq : (insertDecision h L r gateId input sha ids now).runHealthGates.map
        (fun g => (g.ident, g.status)) = L.runHealthGates.map
        (fun g => (g.ident, (Write.decide r gateId input sha ids now).gateStatus g)) := by
      refine map_update_eq fun g => ?_
      by_cases hg : g.runId = r ∧ g.gateId = gateId <;> simp [Write.gateStatus, hg, GateRow.ident]
    simp only [perform]
    split <;> exact heq
  | _ => rfl

attribute [local simp] Write.attemptStatus in
theorem attempts_status {o : Orchestrator} {L : Ledger} {w : Write} (hg : Guard o L w)
    (hb : ∀ row key t, w ≠ .begin row key t) :
    (perform o.host L w).stepAttempts.map (fun a => (a.ident, a.status)) =
      L.stepAttempts.map (fun a => (a.ident, w.attemptStatus a)) := by
  cases w with
  | begin row key now => exact absurd rfl (hb row key now)
  | finish a input sha now =>
    have heq : (finishAttempt L a input sha now).stepAttempts.map (fun a => (a.ident, a.status)) =
        L.stepAttempts.map (fun b => (b.ident, (Write.finish a input sha now).attemptStatus b)) := by
      refine map_update_eq fun b => ?_
      by_cases hid : b.attemptId = a.attemptId <;> simp [Write.attemptStatus, hid, AttemptRow.ident]
    simp only [perform]
    split <;> exact heq
  | lose a mark d now =>
    have hident := marked_ident hg
    refine map_update_eq fun b => ?_
    by_cases hid : b.attemptId = a.attemptId <;> simp [Write.attemptStatus, hid, hident]
  | settle a d outcome now =>
    cases outcome with
    | applied =>
      refine map_update_eq fun b => ?_
      by_cases hid : b.attemptId = a.attemptId <;>
        simp [Write.attemptStatus, hid, AttemptRow.ident]
    | notApplied =>
      refine map_update_eq fun b => ?_
      by_cases hid : b.attemptId = a.attemptId <;>
        simp [Write.attemptStatus, hid, AttemptRow.ident]
    | stillUnknown => rfl
  | resume r now =>
    simp only [perform, resumeIfNoUnknownOperations]
    split <;> rfl
  | decide r g input sha ids now =>
    simp only [perform]
    split <;> rfl
  | _ => rfl

section Rows
variable {o : Orchestrator} {L : Ledger} {w : Write}

/-- A run after a write is a run before it, or the run just created. -/
theorem run_before {h : Host} {r' : RunRow} (hr : r' ∈ (perform h L w).releaseRuns) :
    (∃ r ∈ L.releaseRuns, r.runId = r'.runId ∧ r'.status = w.runStatus L r) ∨
      ∃ b q t, w = .insertRun b q t ∧ r'.status = .planned ∧ r'.runId = h.randomUUID L.draws := by
  by_cases hw : ∃ b q t, w = .insertRun b q t
  · obtain ⟨b, q, t, rfl⟩ := hw
    rcases List.mem_append.mp hr with hr | hr
    · exact .inl ⟨r', hr, rfl, rfl⟩
    · obtain rfl := List.mem_singleton.mp hr
      exact .inr ⟨b, q, t, rfl, rfl, rfl⟩
  · push Not at hw
    have hm : (r'.runId, r'.status) ∈ L.releaseRuns.map fun r => (r.runId, w.runStatus L r) :=
      runs_status hw ▸ List.mem_map_of_mem hr
    obtain ⟨r, hm, he⟩ := List.mem_map.mp hm
    exact .inl ⟨r, hm, congrArg (·.1) he, (congrArg (·.2) he).symm⟩

theorem run_after {h : Host} {r : RunRow} (hr : r ∈ L.releaseRuns) :
    ∃ r' ∈ (perform h L w).releaseRuns, r'.runId = r.runId ∧ r'.status = w.runStatus L r := by
  by_cases hw : ∃ b q t, w = .insertRun b q t
  · obtain ⟨b, q, t, rfl⟩ := hw
    exact ⟨r, List.mem_append_left _ hr, rfl, rfl⟩
  · push Not at hw
    have hm : (r.runId, w.runStatus L r) ∈
        (perform h L w).releaseRuns.map fun r => (r.runId, r.status) :=
      runs_status hw ▸ List.mem_map.mpr ⟨r, hr, rfl⟩
    simpa using hm

theorem step_before {h : Host} {s' : StepRow} (hs : s' ∈ (perform h L w).runSteps) :
    (∃ s ∈ L.runSteps, s.ident = s'.ident ∧ s'.status = w.stepStatus s) ∨
      ∃ b q t i d, w = .insertRun b q t ∧ d ∈ b.steps ∧ s' = stepRow (h.randomUUID L.draws) i d := by
  by_cases hw : ∃ b q t, w = .insertRun b q t
  · obtain ⟨b, q, t, rfl⟩ := hw
    rcases List.mem_append.mp hs with hs | hs
    · exact .inl ⟨s', hs, rfl, rfl⟩
    · obtain ⟨i, d, hd, rfl⟩ := newSteps_mem hs
      exact .inr ⟨b, q, t, i, d, rfl, hd, rfl⟩
  · push Not at hw
    have hm : (s'.ident, s'.status) ∈ L.runSteps.map fun s => (s.ident, w.stepStatus s) :=
      steps_status hw ▸ List.mem_map_of_mem hs
    obtain ⟨s, hm, he⟩ := List.mem_map.mp hm
    exact .inl ⟨s, hm, congrArg (·.1) he, (congrArg (·.2) he).symm⟩

theorem step_after {h : Host} {s : StepRow} (hs : s ∈ L.runSteps) :
    ∃ s' ∈ (perform h L w).runSteps, s'.ident = s.ident ∧ s'.status = w.stepStatus s := by
  by_cases hw : ∃ b q t, w = .insertRun b q t
  · obtain ⟨b, q, t, rfl⟩ := hw
    exact ⟨s, List.mem_append_left _ hs, rfl, rfl⟩
  · push Not at hw
    have hm : (s.ident, w.stepStatus s) ∈
        (perform h L w).runSteps.map fun s => (s.ident, s.status) :=
      steps_status hw ▸ List.mem_map.mpr ⟨s, hs, rfl⟩
    obtain ⟨s', hm, he⟩ := List.mem_map.mp hm
    exact ⟨s', hm, congrArg (·.1) he, congrArg (·.2) he⟩

theorem gate_before {h : Host} {g' : GateRow} (hg : g' ∈ (perform h L w).runHealthGates) :
    (∃ g ∈ L.runHealthGates, g.ident = g'.ident ∧ g'.status = w.gateStatus g) ∨
      ∃ b q t d, w = .insertRun b q t ∧ d ∈ b.gates ∧ g' = gateRow (h.randomUUID L.draws) d := by
  by_cases hw : ∃ b q t, w = .insertRun b q t
  · obtain ⟨b, q, t, rfl⟩ := hw
    rcases List.mem_append.mp hg with hg | hg
    · exact .inl ⟨g', hg, rfl, rfl⟩
    · obtain ⟨d, hd, rfl⟩ := List.mem_map.mp hg
      exact .inr ⟨b, q, t, d, rfl, hd, rfl⟩
  · push Not at hw
    have hm : (g'.ident, g'.status) ∈ L.runHealthGates.map fun g => (g.ident, w.gateStatus g) :=
      gates_status hw ▸ List.mem_map_of_mem hg
    obtain ⟨g, hm, he⟩ := List.mem_map.mp hm
    exact .inl ⟨g, hm, congrArg (·.1) he, (congrArg (·.2) he).symm⟩

theorem gate_after {h : Host} {g : GateRow} (hg : g ∈ L.runHealthGates) :
    ∃ g' ∈ (perform h L w).runHealthGates, g'.ident = g.ident ∧ g'.status = w.gateStatus g := by
  by_cases hw : ∃ b q t, w = .insertRun b q t
  · obtain ⟨b, q, t, rfl⟩ := hw
    exact ⟨g, List.mem_append_left _ hg, rfl, rfl⟩
  · push Not at hw
    have hm : (g.ident, w.gateStatus g) ∈
        (perform h L w).runHealthGates.map fun g => (g.ident, g.status) :=
      gates_status hw ▸ List.mem_map.mpr ⟨g, hg, rfl⟩
    obtain ⟨g', hm, he⟩ := List.mem_map.mp hm
    exact ⟨g', hm, congrArg (·.1) he, congrArg (·.2) he⟩

theorem attempt_before (hg : Guard o L w) {a' : AttemptRow}
    (ha : a' ∈ (perform o.host L w).stepAttempts) :
    (∃ a ∈ L.stepAttempts, a.ident = a'.ident ∧ a'.status = w.attemptStatus a) ∨
      ∃ row key t, w = .begin row key t ∧ a'.runId = row.runId ∧ a'.stepId = row.stepId ∧
        a'.status = .intentRecorded ∧ a'.attemptNumber = row.attemptCount+1 := by
  by_cases hw : ∃ row key t, w = .begin row key t
  · obtain ⟨row, key, t, rfl⟩ := hw
    rw [begin_attempts, List.mem_append, List.mem_singleton] at ha
    rcases ha with ha | rfl
    · exact .inl ⟨a', ha, rfl, rfl⟩
    · exact .inr ⟨row, key, t, rfl, rfl, rfl, rfl, rfl⟩
  · push Not at hw
    have hm : (a'.ident, a'.status) ∈ L.stepAttempts.map fun a => (a.ident, w.attemptStatus a) :=
      attempts_status hg hw ▸ List.mem_map_of_mem ha
    obtain ⟨a, hm, he⟩ := List.mem_map.mp hm
    exact .inl ⟨a, hm, congrArg (·.1) he, (congrArg (·.2) he).symm⟩

theorem decision_before {h : Host} {d : DecisionRow}
    (hd : d ∈ (perform h L w).healthGateDecisions) :
    d ∈ L.healthGateDecisions ∨ ∃ runId gateId input sha ids now,
      w = .decide runId gateId input sha ids now ∧ d.runId = runId ∧ d.gateId = gateId ∧
        d.outcome = input.outcome ∧ d.idempotencyKey = input.idempotencyKey := by
  cases w with
  | decide runId gateId input sha ids now =>
    have hm : d ∈ (insertDecision h L runId gateId input sha ids now).healthGateDecisions := by
      simp only [perform] at hd
      split at hd <;> exact hd
    rcases List.mem_append.mp hm with hm | hm
    · exact .inl hm
    · obtain rfl := List.mem_singleton.mp hm
      exact .inr ⟨runId, gateId, input, sha, ids, now, rfl, rfl, rfl, rfl, rfl⟩
  | finish a input sha now =>
    simp only [perform] at hd
    split at hd <;> exact .inl hd
  | begin row key now =>
    simp only [perform, insertAttempt, afterOperation] at hd
    split at hd <;> exact .inl hd
  | settle a d outcome now => cases outcome <;> exact .inl hd
  | resume r now =>
    simp only [perform, resumeIfNoUnknownOperations] at hd
    split at hd <;> exact .inl hd
  | _ => exact .inl hd

theorem decision_new (h : Host) (L : Ledger) (runId gateId : String) (input : ResolveHealthGateInput)
    (sha : String) (ids : List String) (now : String) :
    ∃ d ∈ (perform h L (.decide runId gateId input sha ids now)).healthGateDecisions,
      d.runId = runId ∧ d.gateId = gateId ∧ d.outcome = input.outcome := by
  have hm : ∃ d ∈ (insertDecision h L runId gateId input sha ids now).healthGateDecisions,
      d.runId = runId ∧ d.gateId = gateId ∧ d.outcome = input.outcome :=
    ⟨_, List.mem_append_right _ (List.mem_singleton.mpr rfl), rfl, rfl, rfl⟩
  simp only [perform]
  split <;> exact hm

theorem decision_after {h : Host} {d : DecisionRow} (hd : d ∈ L.healthGateDecisions) :
    d ∈ (perform h L w).healthGateDecisions := by
  cases w with
  | decide runId gateId input sha ids now =>
    have hm : d ∈ (insertDecision h L runId gateId input sha ids now).healthGateDecisions :=
      List.mem_append_left _ hd
    simp only [perform]
    split <;> exact hm
  | finish a input sha now =>
    simp only [perform]
    split <;> exact hd
  | begin row key now =>
    simp only [perform, insertAttempt, afterOperation]
    split <;> exact hd
  | settle a d outcome now => cases outcome <;> exact hd
  | resume r now =>
    simp only [perform, resumeIfNoUnknownOperations]
    split <;> exact hd
  | _ => exact hd

end Rows

end AccessStack.Release
