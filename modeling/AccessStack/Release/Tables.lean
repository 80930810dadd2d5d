import AccessStack.Release.Effects

/-!
# The tables after the writes of a call

An accepted call writes a fixed sequence of rows. The lemmas here say what is
left in the tables of steps, gates and decisions and in the status of a run
when such a sequence is over.
-/

set_option autoImplicit false

namespace AccessStack.Release
open AccessStack.Text AccessStack.Rows AccessStack.JsonText

def Ledger.status? (L : Ledger) (runId : String) : Option RunStatus :=
  (L.run? runId).map (·.status)

theorem status_map (L : Ledger) (runId : String) : L.status? runId =
    ((L.releaseRuns.map fun r => (r.runId, r.status)).find? (·.1 == runId)).map (·.2) := by
  rw [List.find?_map, Option.map_map]
  rfl

theorem status_perform {h : Host} {L : Ledger} {w : Write} (hw : ∀ b q t, w ≠ .insertRun b q t)
    (runId : String) : (perform h L w).status? runId = (L.run? runId).map (w.runStatus L) := by
  rw [status_map, runs_status hw, List.find?_map, Option.map_map]
  rfl

theorem status_some {L : Ledger} {runId : String} {status : RunStatus}
    (h : L.status? runId = some status) : ∃ run, L.run? runId = some run ∧ run.status = status :=
  Option.map_eq_some_iff.mp h

section Tables
variable {o : Orchestrator} {L L' : Ledger}

theorem begin_tables {row : StepRow} {key now : String} {log : Write}
    {runId : String} (hl : log.isLog runId = true)
    (h : Commits o L [.begin row key now, log] L') :
    L'.runSteps = (perform o.host L (.begin row key now)).runSteps ∧
      L'.stepAttempts = (perform o.host L (.begin row key now)).stepAttempts ∧
      L'.runHealthGates = L.runHealthGates ∧ L'.healthGateDecisions = L.healthGateDecisions ∧
      L'.draws = (afterOperation L row).draws+3 ∧ (∀ r, L'.status? r = L.status? r) := by
  obtain ⟨run, t, payload, actorId, at', rfl, _⟩ := isLog_log hl
  obtain ⟨_, rfl⟩ := h
  have hstatus : ∀ r, (perform o.host (perform o.host L (.begin row key now))
      (.log run t payload actorId at')).status? r = L.status? r := by
    intro r
    rw [status_perform (by simp)]
    exact status_perform (w := .begin row key now) (by simp) r
  have hgates : (perform o.host L (.begin row key now)).runHealthGates = L.runHealthGates ∧
      (perform o.host L (.begin row key now)).healthGateDecisions = L.healthGateDecisions := by
    simp only [perform, insertAttempt, afterOperation]
    split <;> exact ⟨rfl, rfl⟩
  exact ⟨rfl, rfl, hgates.1, hgates.2, rfl, hstatus⟩

theorem record_tables {rows : List EvidenceRow} {a : AttemptRow} {input : RecordStepOutcomeInput}
    {sha now : String} {log : Write}
    {runId : String} (hl : log.isLog runId = true) (hout : input.outcome = .succeeded)
    (h : Commits o L [.evidence rows, .finish a input sha now, log] L') :
    L'.runSteps = update (fun s => s.runId == a.runId && s.stepId == a.stepId)
        (fun s => { s with status := .succeeded }) L.runSteps ∧
      L'.runHealthGates = L.runHealthGates ∧ L'.healthGateDecisions = L.healthGateDecisions ∧
      L'.draws = L.draws+rows.length+2 ∧ (∀ r, L'.status? r = L.status? r) := by
  obtain ⟨run, t, payload, actorId, at', rfl, _⟩ := isLog_log hl
  obtain ⟨_, rfl⟩ := h
  simp only [performAll_cons, performAll_nil]
  have hfinish : ∀ L : Ledger, perform o.host L (.finish a input sha now) =
      finishAttempt L a input sha now := fun L => by simp [perform, hout]
  rw [hfinish]
  refine ⟨?_, rfl, rfl, rfl, fun r => ?_⟩
  · simp only [perform, Ledger.logEvent, Ledger.setRun, finishAttempt, Ledger.setStep,
      Ledger.setAttempt, hout, if_true]
  · exact status_perform (w := .log run t payload actorId at') (by simp) r

theorem decide_tables {rows : List EvidenceRow} {runId gateId : String}
    {input : ResolveHealthGateInput} {sha now : String} {ids : List String} {log : Write}
    {logged : String} (hl : log.isLog logged = true) (hout : input.outcome = .passed)
    (h : Commits o L [.evidence rows, .decide runId gateId input sha ids now, log] L') :
    L'.runSteps = L.runSteps ∧
      L'.runHealthGates = update (fun g => g.runId == runId && g.gateId == gateId)
        (fun g => { g with status := .passed, evidenceIds := ids }) L.runHealthGates ∧
      (∀ d ∈ L'.healthGateDecisions, d ∈ L.healthGateDecisions ∨
        d.gateId = gateId ∧ d.idempotencyKey = input.idempotencyKey) ∧
      L'.draws = L.draws+rows.length+3 ∧ (∀ r, L'.status? r = L.status? r) := by
  obtain ⟨run, t, payload, actorId, at', rfl, _⟩ := isLog_log hl
  obtain ⟨_, rfl⟩ := h
  simp only [performAll_cons, performAll_nil]
  have hdecide : ∀ L : Ledger, perform o.host L (.decide runId gateId input sha ids now) =
      insertDecision o.host L runId gateId input sha ids now := fun L => by simp [perform, hout]
  rw [hdecide]
  refine ⟨rfl, ?_, fun d hd => ?_, rfl, fun r => ?_⟩
  · simp only [perform, Ledger.logEvent, Ledger.setRun, insertDecision, Ledger.setGate, hout,
      if_true]
  · simp only [perform, Ledger.logEvent, Ledger.setRun, insertDecision, Ledger.setGate,
      List.mem_append, List.mem_singleton] at hd
    exact hd.imp id (by rintro rfl; exact ⟨rfl, rfl⟩)
  · exact status_perform (w := .log run t payload actorId at') (by simp) r

/-- A running run succeeds at the end of a call exactly when all is done. -/
theorem completion_tables {runId actorId now : String} {tail : List Write}
    (hc : Completion L runId actorId now tail) (h : Commits o L tail L')
    (hst : L.status? runId = some .running) :
    L'.runSteps = L.runSteps ∧ L'.runHealthGates = L.runHealthGates ∧
      L'.healthGateDecisions = L.healthGateDecisions ∧ L'.draws ≤ L.draws+2 ∧
      (AllDone L runId → L'.status? runId = some .succeeded) ∧
      (¬AllDone L runId → L'.status? runId = some .running) := by
  obtain ⟨run, hrun, ⟨rfl, hwhy⟩ | rfl⟩ := hc
  · obtain ⟨_, rfl⟩ := h
    have hrunning : run.status = .running := by
      simpa [Ledger.status?, hrun] using hst
    refine ⟨rfl, rfl, rfl, by simp, fun hd => ?_, fun _ => hst⟩
    rcases hwhy with h | h | h
    · simp [h] at hrunning
    · simp [h] at hrunning
    · exact absurd hd h
  · obtain ⟨⟨hg, _⟩, rfl⟩ := h
    obtain rfl := run_id hrun
    refine ⟨rfl, rfl, rfl, le_rfl, fun _ => ?_, fun hd => absurd hg.2.2.2 hd⟩
    rw [performAll_cons, performAll_nil, status_perform (by simp), hrun]
    simp [Write.runStatus]

end Tables

end AccessStack.Release
