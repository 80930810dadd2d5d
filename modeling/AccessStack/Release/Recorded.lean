import AccessStack.Release.Conclusion

/-!
# The record of a run

The log, the audit, the status and the tables of a run tell one story. The
event `run.succeeded` is the last one of its run, and it is there exactly when
the status is `succeeded`, which is exactly when all steps have succeeded and
all gates have passed.
-/

set_option autoImplicit false

namespace AccessStack.Release
open AccessStack.Text AccessStack.Rows AccessStack.JsonText

/-- What the log, the audit, the status and the tables say of one run. -/
structure Recorded (L : Ledger) (r : RunRow) : Prop where
  numbers : (L.eventsOf r.runId).map (·.seq) = List.range' 1 r.lastSeq
  audited : (L.auditOf r.runId).map AuditRow.record = (L.eventsOf r.runId).map EventRow.record
  payloads : ∀ e ∈ L.eventsOf r.runId, parse e.payloadJson = some (runEvent e).payload
  once : ((L.eventsOf r.runId).filter (·.eventType == .runSucceeded)).length ≤ 1
  last : ∀ before e after, L.eventsOf r.runId = before++e::after → e.eventType = .runSucceeded →
    after = []
  logged : (∃ e ∈ L.eventsOf r.runId, e.eventType = .runSucceeded) ↔ r.status = .succeeded
  concluded : r.status = .succeeded ↔ AllDone L r.runId
  paged : ∀ limits : List ℤ, (∀ limit ∈ limits, 1 ≤ limit ∧ limit ≤ 1000) →
    r.lastSeq ≤ (limits.map Int.toNat).sum →
      replayPages L r.runId 0 limits = .ok ((L.eventsOf r.runId).map runEvent)

theorem eventsOf_mem {L : Ledger} {runId : String} {e : EventRow} :
    e ∈ L.eventsOf runId ↔ e ∈ L.runEvents ∧ e.runId = runId := by
  simp [Ledger.eventsOf]

/-- Among numbered rows at most one has the last number. -/
theorem numbered_once {events : List EventRow} {n : ℕ} {p : EventRow → Bool}
    (h : events.map (·.seq) = List.range' 1 n) (hlast : ∀ e ∈ events.filter p, e.seq = n) :
    (events.filter p).length ≤ 1 := by
  have hdistinct : ((events.filter p).map (·.seq)).Nodup := by
    refine (List.filter_sublist.map EventRow.seq).nodup ?_
    rw [h]
    exact List.nodup_range'
  generalize events.filter p = rows at hdistinct hlast
  rcases rows with _ | ⟨e, _ | ⟨f, rows⟩⟩
  · exact Nat.zero_le 1
  · exact le_rfl
  · have hne : e.seq ≠ f.seq := by
      simp only [List.map_cons, List.nodup_cons, List.mem_cons] at hdistinct
      exact fun h => hdistinct.1 (.inl h)
    exact absurd ((hlast e (by simp)).trans (hlast f (by simp)).symm) hne

/-- No numbered row follows the one with the last number. -/
theorem numbered_tail {before after : List EventRow} {e : EventRow} {n : ℕ}
    (h : (before++e::after).map (·.seq) = List.range' 1 n) (hlast : e.seq = n) : after = [] := by
  have hlen := congrArg List.length h
  simp only [List.length_map, List.length_append, List.length_cons, List.length_range'] at hlen
  have hseq : e.seq = 1+before.length := by
    have hget := congrArg (fun l : List ℕ => l[before.length]?) h
    have hlt : before.length < n := by omega
    simp [hlt] at hget
    omega
  exact List.length_eq_zero_iff.mp (by omega)

theorem recorded_of {o : Orchestrator} {L : Ledger} (hL : Written o L)
    (hc : Closed L ∧ Concluded L) {r : RunRow} (hr : r ∈ L.releaseRuns) (hw : HasWork L r.runId) :
    Recorded L r := by
  have hs := hL.sequenced
  have hnum := hs.numbers r hr
  have hfinal : ∀ e ∈ L.eventsOf r.runId, e.eventType = .runSucceeded → e.seq = r.lastSeq := by
    intro e he ht
    obtain ⟨he, hrun⟩ := eventsOf_mem.mp he
    exact ((hc.1 r hr).1 e he hrun ht).2
  constructor
  · exact hnum
  · have hfilter : ∀ l : List AuditRow, (l.filter (·.runId == r.runId)).map AuditRow.record =
        (l.map AuditRow.record).filter (·.1 == r.runId) := fun l => by rw [List.filter_map]; rfl
    have hfilter' : ∀ l : List EventRow, (l.filter (·.runId == r.runId)).map EventRow.record =
        (l.map EventRow.record).filter (·.1 == r.runId) := fun l => by rw [List.filter_map]; rfl
    rw [Ledger.auditOf, Ledger.eventsOf, hfilter, hfilter', hs.audited]
  · intro e he
    obtain ⟨v, hv⟩ := hs.texts e (eventsOf_mem.mp he).1
    simp [runEvent, hv, parse_stringify]
  · refine numbered_once hnum fun e he => ?_
    obtain ⟨he, ht⟩ := List.mem_filter.mp he
    exact hfinal e he (beq_iff_eq.mp ht)
  · intro before e after hsplit ht
    exact numbered_tail (hsplit ▸ hnum) (hfinal e (by simp [hsplit]) ht)
  · constructor
    · rintro ⟨e, he, ht⟩
      obtain ⟨he, hrun⟩ := eventsOf_mem.mp he
      exact ((hc.1 r hr).1 e he hrun ht).1
    · intro hst
      obtain ⟨e, he, hrun, ht⟩ := (hc.1 r hr).2 hst
      exact ⟨e, eventsOf_mem.mpr ⟨he, hrun⟩, ht⟩
  · exact ⟨hL.finished r hr, hc.2 r hr hw⟩
  · intro limits hlim hsum
    have hlength : (L.eventsOf r.runId).length = r.lastSeq := by
      simpa using congrArg List.length hnum
    have hpages := replay_pages (hL.hasRun (List.mem_map_of_mem hr)) hnum limits 0 hlim
    rw [List.drop_zero, List.take_of_length_le (by omega)] at hpages
    exact hpages

/-- Along every history that never ends the last step of a paused run, every
run that has work is recorded, a call that throws changes nothing, and a call
that succeeds only appends events. -/
theorem runs_recorded {o : Orchestrator} {L : Ledger} (hO : Opened o L) (ops : List Op)
    (hn : NoCollision o.host (exec o L ops))
    (hsafe : Along o (fun L op => ¬StrandsRun L op) L ops) :
    (∀ r ∈ (exec o L ops).releaseRuns, HasWork (exec o L ops) r.runId →
      Recorded (exec o L ops) r) ∧
    ∀ op, (∀ e, call o (exec o L ops) op = .error e → step o (exec o L ops) op = exec o L ops) ∧
      (exec o L ops).runEvents <+: (step o (exec o L ops) op).runEvents := by
  have hL := (Reached.opened hO).exec hn
  have hstart : Closed L ∧ Concluded L := by
    rw [opened_ledger hO]
    exact ⟨fun r hr => (List.not_mem_nil hr).elim, fun r hr => (List.not_mem_nil hr).elim⟩
  have hc := recorded_exec (.opened hO) hn hsafe hstart
  refine ⟨fun r hr hw => recorded_of hL.written hc hr hw, fun op => ⟨fun e he => step_error he, ?_⟩⟩
  exact events_step hL.written op

theorem runs_recorded_reconciled :
    let ops : List Op := [.createRun sampleRequest sampleTime,
      .startRun (sampleId 0) "operator" sampleTime,
      .beginStepAttempt (sampleId 0) "build" "build-key" "operator" sampleTime,
      .markOutcomeUnknown (sampleId 5) "timeout" "operator" sampleTime,
      .reconcileOperation (sampleId 5) ⟨"found", .applied, some [sampleEvidence], "operator"⟩
        sampleTime]
    let L := exec (sampleOrchestrator retriedBlueprint) (sampleLedger retriedBlueprint) ops
    ∃ r ∈ L.releaseRuns, r.status = .succeeded ∧ r.lastSeq = 6 ∧ Recorded L r := by
  intro ops L
  have hrun : L.draws < 16^12 ∧ ∃ r ∈ L.releaseRuns, r.status = .succeeded ∧ r.lastSeq = 6 ∧
      ∃ s ∈ L.runSteps, s.runId = r.runId := by
    have hL : L = exec (sampleOrchestrator retriedBlueprint) (sampleCreated retriedBlueprint) ops.tail :=
      sample_created rfl rfl _
    rw [hL]
    decide +kernel
  obtain ⟨hdraws, r, hr, hst, hseq, hwork⟩ := hrun
  have hrecorded := (runs_recorded (sample_opened (b := retriedBlueprint) (by decide +kernel)) ops
    (sample_distinct (L := L) hdraws) (by simp [ops, Along, StrandsRun])).1
  exact ⟨r, hr, hst, hseq, hrecorded r hr (.inl hwork)⟩

/-- Two independent steps. -/
def parallelBlueprint : Blueprint :=
  sampleBlueprint [] [sampleStep "first" [] [] none, sampleStep "second" [] [] none]

/-- Both steps are in flight. The first is lost and found to be applied, then
the second succeeds. -/
def parallelOps : List Op :=
  [.createRun sampleRequest sampleTime, .startRun (sampleId 0) "operator" sampleTime,
    .beginStepAttempt (sampleId 0) "first" "first-key" "operator" sampleTime,
    .beginStepAttempt (sampleId 0) "second" "second-key" "operator" sampleTime,
    .markOutcomeUnknown (sampleId 5) "timeout" "operator" sampleTime,
    .reconcileOperation (sampleId 5) ⟨"found", .applied, some [sampleEvidence], "operator"⟩
      sampleTime,
    .recordStepOutcome (sampleId 9) ⟨.succeeded, none, none⟩ "operator" sampleTime]

theorem paused_run_stranded :
    let L := exec (sampleOrchestrator parallelBlueprint) (sampleLedger parallelBlueprint) parallelOps
    Reached (sampleOrchestrator parallelBlueprint) L ∧ HasWork L (sampleId 0) ∧
      AllDone L (sampleId 0) ∧ L.status? (sampleId 0) = some .pausedOutcomeUnknown := by
  intro L
  have hv : validateWorkflowBlueprint parallelBlueprint = .ok () := by decide +kernel
  have hrun : L.draws < 16^12 ∧ (∃ s ∈ L.runSteps, s.runId = sampleId 0) ∧
      ((∀ s ∈ L.runSteps, s.runId = sampleId 0 → s.status = .succeeded) ∧
        ∀ g ∈ L.runHealthGates, g.runId = sampleId 0 → g.status = .passed) ∧
      L.status? (sampleId 0) = some .pausedOutcomeUnknown := by
    have hL : L = exec (sampleOrchestrator parallelBlueprint) (sampleCreated parallelBlueprint)
        parallelOps.tail := sample_created rfl rfl _
    rw [hL]
    decide +kernel
  have hreached : Reached (sampleOrchestrator parallelBlueprint) L :=
    (Reached.opened (sample_opened hv)).exec (sample_distinct (L := L) hrun.1)
  exact ⟨hreached, .inl hrun.2.1, hrun.2.2⟩

end AccessStack.Release
