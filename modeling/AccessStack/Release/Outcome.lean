import AccessStack.Release.EventLog
import AccessStack.Release.Failure

/-!
# Success in the log, the status and the tables

The completion of a run is recorded three times: by the event `run.succeeded`,
by the status of the run and by the statuses of its steps and gates. The first
two always agree. The third agrees with them as long as no operation of a
paused run ends it: `recordStepOutcome` does not resume the run, so a run whose
last step succeeds while it is paused stays paused for ever.
-/

set_option autoImplicit false

namespace AccessStack.Release
open AccessStack.Text AccessStack.Rows AccessStack.JsonText

section Writes
variable {o : Orchestrator} {L : Ledger} {w : Write}

theorem not_busy_of_done (hL : Written o L) {runId : String} (hd : AllDone L runId) :
    ¬Busy L runId := by
  rintro ⟨a, ha, rfl, hopen⟩
  obtain ⟨s, hs, hof, _⟩ := hL.attempt_step ha
  have hst := hL.open_step ha (by rcases hopen with h | h <;> simp [h]) hs hof
  simp only [ofStep, Bool.and_eq_true, beq_iff_eq] at hof
  rw [hd.1 s hs hof.1.symm] at hst
  rcases hopen with h | h <;> simp [h, stepStatusOf] at hst

/-- The attempt a write rewrites is open. -/
theorem busy_of_rewrite (hg : Guard o L w) {a : AttemptRow}
    (hw : (∃ input sha now, w = .finish a input sha now) ∨ (∃ mark d now, w = .lose a mark d now) ∨
      ∃ d outcome now, w = .settle a d outcome now) : Busy L a.runId := by
  obtain ⟨_, _, _, rfl⟩ | ⟨_, _, _, rfl⟩ | ⟨_, _, _, rfl⟩ := hw
  · exact ⟨a, hg.1, rfl, .inl hg.2.1⟩
  · exact ⟨a, hg.1, rfl, .inl hg.2.1⟩
  · exact ⟨a, hg.1, rfl, .inr hg.2.1⟩

/-- What is done stays done. -/
theorem allDone_perform (hL : Written o L) (hg : Guard o L w)
    (hn : NoCollision o.host (perform o.host L w)) {r : RunRow} (hr : r ∈ L.releaseRuns)
    (hd : AllDone L r.runId) : AllDone (perform o.host L w) r.runId := by
  have hbusy := not_busy_of_done hL hd
  have hfresh : o.host.randomUUID L.draws ≠ r.runId ∨ ∀ b q t, w ≠ .insertRun b q t := by
    by_cases hw : ∃ b q t, w = .insertRun b q t
    · obtain ⟨b, q, t, rfl⟩ := hw
      refine .inl fun he => ?_
      exact fresh_not_drawn hn (Nat.lt_succ_self L.draws) (he ▸ hL.keyed.runDrawn r hr)
    · push Not at hw
      exact .inr hw
  constructor
  · intro s' hs' hrun
    obtain ⟨s, hs, hid, _⟩ | ⟨b, q, t, i, d, rfl, _, rfl⟩ := step_before hs'
    · have h1 : s.runId = s'.runId := congrArg (·.1) hid
      have h2 : s.stepId = s'.stepId := congrArg (·.2.1) hid
      have hst := hd.1 s hs (h1.trans hrun)
      have hkept := (frozen_perform hL hg hs (.inl hst)).1
      obtain rfl : s' = s := List.inj_on_of_nodup_map (hL.write w hg hn).keyed.steps hs' hkept
        (by simp [h1, h2])
      exact hst
    · rcases hfresh with h | h
      · exact absurd hrun h
      · exact absurd rfl (h b q t)
  · intro g' hg' hrun
    obtain ⟨g, hgm, hid, hst⟩ | ⟨b, q, t, d, rfl, _, rfl⟩ := gate_before hg'
    · have h1 : g.runId = r.runId := (congrArg (·.1) hid : g.runId = g'.runId).trans hrun
      have hpassed := hd.2 g hgm h1
      rw [hst]
      cases w with
      | lose a mark d now =>
        simp only [Write.gateStatus]
        split
        · rename_i hm
          exact absurd (h1 ▸ hm.1 ▸ busy_of_rewrite hg (.inr (.inl ⟨_, _, _, rfl⟩))) hbusy
        · exact hpassed
      | settle a d outcome now =>
        simp only [Write.gateStatus]
        split
        · rename_i hm
          exact absurd (h1 ▸ hm.1.1 ▸ busy_of_rewrite hg (.inr (.inr ⟨_, _, _, rfl⟩))) hbusy
        · exact hpassed
      | decide runId gateId input sha ids now =>
        simp only [Write.gateStatus]
        split
        · rename_i hm
          obtain ⟨q, hq, hpending⟩ := hg.2.1
          rw [← hm.1, ← hm.2, hL.keyed.find_gate hgm] at hq
          obtain rfl := Option.some.inj hq
          rw [hpassed] at hpending
          cases hpending
        · exact hpassed
      | _ => exact hpassed
    · rcases hfresh with h | h
      · exact absurd hrun h
      · exact absurd rfl (h b q t)

/-- A run that has succeeded keeps its status. -/
theorem succeeded_perform (hL : Written o L) (hg : Guard o L w) {r : RunRow}
    (hr : r ∈ L.releaseRuns) (hst : r.status = .succeeded) (hd : AllDone L r.runId) :
    w.runStatus L r = .succeeded := by
  have hk := hL.keyed
  have hbusy := not_busy_of_done hL hd
  have hself : ∀ {runId : String} {run : RunRow}, r.runId = runId → L.run? runId = some run →
      run = r := by
    intro runId run he hrun
    rw [← he, hk.find_run hr] at hrun
    exact (Option.some.inj hrun).symm
  cases w with
  | start runId now =>
    obtain ⟨run, hrun, hp⟩ := hg
    simp only [Write.runStatus]
    split
    · rename_i he
      rw [hself he hrun, hst] at hp
      cases hp
    · exact hst
  | finish a input sha now =>
    simp only [Write.runStatus]
    split
    · rename_i he
      exact absurd (he.1 ▸ busy_of_rewrite hg (.inl ⟨_, _, _, rfl⟩)) hbusy
    · exact hst
  | lose a mark d now =>
    simp only [Write.runStatus]
    split
    · rename_i he
      exact absurd (he ▸ busy_of_rewrite hg (.inr (.inl ⟨_, _, _, rfl⟩))) hbusy
    · exact hst
  | resume runId now =>
    simp only [Write.runStatus]
    split
    · rename_i he
      rw [hst] at he
      cases he.2.1
    · exact hst
  | complete run actorId now =>
    simp only [Write.runStatus]
    split <;> [rfl; exact hst]
  | decide runId gateId input sha ids now =>
    obtain ⟨run, hrun, hrunning⟩ := hg.1
    simp only [Write.runStatus]
    split
    · rename_i he
      rw [hself he.1 hrun, hst] at hrunning
      cases hrunning
    · exact hst
  | _ => exact hst

end Writes

/-- A run succeeds only when everything is done, and what is done stays done. -/
theorem Written.finished {o : Orchestrator} {L : Ledger} (h : Written o L) :
    ∀ r ∈ L.releaseRuns, r.status = .succeeded → AllDone L r.runId := by
  induction h with
  | opened h =>
    rw [opened_ledger h]
    intro r hr
    cases hr
  | @write L w hL hg hn ih =>
    intro r' hr' hst'
    obtain ⟨r, hr, hid, hst⟩ | ⟨b, q, t, rfl, hplanned, _⟩ := run_before hr'
    · rw [← hid]
      refine allDone_perform hL hg hn hr ?_
      obtain hold | ⟨run, actorId, now, rfl, hrun⟩ := runStatus_succeeded (hst ▸ hst')
      · exact ih r hr hold
      · exact hrun ▸ hg.2.2.2
    · rw [hplanned] at hst'
      cases hst'

section Failed

/-- Every gate is decided at most once, and decisions are about gates of the
run. -/
structure DecidedOnce (L : Ledger) : Prop where
  gate : ∀ d ∈ L.healthGateDecisions, ∃ g ∈ L.runHealthGates, g.runId = d.runId ∧ g.gateId = d.gateId
  once : ∀ d ∈ L.healthGateDecisions, ∀ e ∈ L.healthGateDecisions, d.runId = e.runId →
    d.gateId = e.gateId → d.outcome = e.outcome

theorem Written.decidedOnce {o : Orchestrator} {L : Ledger} (h : Written o L) : DecidedOnce L := by
  induction h with
  | opened h =>
    rw [opened_ledger h]
    constructor <;> simp
  | @write L w hL hg hn ih =>
    have hgate : ∀ runId gateId, (∃ g ∈ L.runHealthGates, g.runId = runId ∧ g.gateId = gateId) →
        ∃ g ∈ (perform o.host L w).runHealthGates, g.runId = runId ∧ g.gateId = gateId := by
      rintro runId gateId ⟨g, hgm, h1, h2⟩
      obtain ⟨g', hg', hid, _⟩ := gate_after (h := o.host) (w := w) hgm
      exact ⟨g', hg', (congrArg (·.1) hid : g'.runId = g.runId).trans h1,
        (congrArg (·.2.1) hid : g'.gateId = g.gateId).trans h2⟩
    -- A new decision is about a gate of which there was none.
    have hnew : ∀ runId gateId input sha ids now, w = .decide runId gateId input sha ids now →
        (∃ g ∈ L.runHealthGates, g.runId = runId ∧ g.gateId = gateId) ∧
          ∀ d ∈ L.healthGateDecisions, d.runId = runId → d.gateId ≠ gateId := by
      rintro runId gateId input sha ids now rfl
      obtain ⟨_, ⟨g, hgm, _⟩, _, hnone, _⟩ := hg
      exact ⟨⟨g, gate_mem hgm, gate_key hgm⟩, fun d hd he => (hnone d hd he).1⟩
    constructor
    · intro d hd
      obtain hold | ⟨runId, gateId, input, sha, ids, now, he, h1, h2, _⟩ := decision_before hd
      · exact hgate _ _ (ih.gate d hold)
      · rw [h1, h2]
        exact hgate _ _ (hnew _ _ _ _ _ _ he).1
    · intro d hd e he hrun hid
      obtain hd | ⟨runId, gateId, input, sha, ids, now, hwd, d1, d2, d3, _⟩ := decision_before hd
      · obtain he | ⟨runId, gateId, input, sha, ids, now, hwe, e1, e2, _⟩ := decision_before he
        · exact ih.once d hd e he hrun hid
        · exact absurd (hid.trans e2) ((hnew _ _ _ _ _ _ hwe).2 d hd (hrun.trans e1))
      · obtain he | ⟨runId', gateId', input', sha', ids', now', hwe, _, _, e3, _⟩ := decision_before he
        · exact absurd (hid.symm.trans d2) ((hnew _ _ _ _ _ _ hwd).2 e he (hrun.symm.trans d1))
        · rw [hwd] at hwe
          cases hwe
          exact d3.trans e3.symm

theorem Doomed.not_done {o : Orchestrator} {L : Ledger} {runId : String} (hL : Written o L)
    (hf : Doomed L runId) : ¬AllDone L runId := by
  intro hd
  rcases hf with ⟨s, hs, hrun, hst⟩ | ⟨d, hdm, hrun, hout⟩
  · rw [hd.1 s hs hrun] at hst
    cases hst
  · obtain ⟨g, hg, h1, h2⟩ := hL.decidedOnce.gate d hdm
    obtain ⟨e, he, e1, e2, e3⟩ := (hL.gatesDecided g hg).2 (hd.2 g hg (h1.trans hrun))
    have := hL.decidedOnce.once d hdm e he (h1.symm.trans e1.symm) (h2.symm.trans e2.symm)
    rw [hout, e3] at this
    cases this

/-- A run fails with a failed step or a gate decided failed. -/
theorem runStatus_failed {o : Orchestrator} {L : Ledger} {w : Write} (hg : Guard o L w) {r : RunRow}
    (h : w.runStatus L r = .failed) :
    r.status = .failed ∨ Doomed (perform o.host L w) r.runId := by
  cases w with
  | finish a input sha now =>
    simp only [Write.runStatus] at h
    split at h
    · rename_i hc
      right
      obtain ⟨s, hs⟩ := hg.2.2.1
      obtain ⟨h1, h2⟩ := step_key hs
      obtain ⟨s', hs', hid, hst⟩ := step_after (h := o.host) (w := .finish a input sha now)
        (step_mem hs)
      refine .inl ⟨s', hs', (congrArg (·.1) hid : s'.runId = s.runId).trans (h1.trans hc.1.symm), ?_⟩
      rw [hst]
      simp [Write.stepStatus, h1, h2, hc.2]
    · exact .inl h
  | resume runId now =>
    simp only [Write.runStatus] at h
    split at h
    · rename_i hc
      split at h
      · rename_i hf
        right
        left
        rw [hc.1]
        obtain ⟨s, hs, hrun, hst⟩ := hf
        have hsteps : (perform o.host L (.resume runId now)).runSteps = L.runSteps := by
          simp only [perform, resumeIfNoUnknownOperations]
          split <;> rfl
        exact ⟨s, hsteps ▸ hs, hrun, hst⟩
      · cases h
    · exact .inl h
  | decide runId gateId input sha ids now =>
    simp only [Write.runStatus] at h
    split at h
    · rename_i hc
      obtain ⟨d, hd, h1, _, h3⟩ := decision_new o.host L runId gateId input sha ids now
      exact .inr (.inr ⟨d, hd, h1.trans hc.1.symm, h3.trans hc.2⟩)
    · exact .inl h
  | _ =>
    simp only [Write.runStatus] at h
    left
    grind

theorem doomed_perform {o : Orchestrator} {L : Ledger} {w : Write} {runId : String}
    (hL : Written o L) (hg : Guard o L w) (hd : Doomed L runId) :
    Doomed (perform o.host L w) runId := by
  rcases hd with ⟨s, hs, hrun, hst⟩ | ⟨d, hd, hrun, hout⟩
  · exact .inl ⟨s, (frozen_perform hL hg hs (.inr hst)).1, hrun, hst⟩
  · exact .inr ⟨d, decision_after hd, hrun, hout⟩

theorem Written.failed_doomed {o : Orchestrator} {L : Ledger} (h : Written o L) :
    ∀ r ∈ L.releaseRuns, r.status = .failed → Doomed L r.runId := by
  induction h with
  | opened h =>
    rw [opened_ledger h]
    intro r hr
    cases hr
  | @write L w hL hg hn ih =>
    intro r' hr' hst'
    obtain ⟨r, hr, hid, hst⟩ | ⟨b, q, t, rfl, hplanned, _⟩ := run_before hr'
    · rw [← hid]
      rcases runStatus_failed hg (hst ▸ hst') with hold | hnow
      · exact doomed_perform hL hg (ih r hr hold)
      · exact hnow
    · rw [hplanned] at hst'
      cases hst'

end Failed

end AccessStack.Release
