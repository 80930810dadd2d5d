import AccessStack.Release.Instances

/-!
# Which blueprints can be completed

A step waits for its dependencies and its gates, and a gate waits for the
first step that measures it. A run succeeds on some history exactly when the
blueprint has a step, every gate is measured and these waits have no cycle.
The validation checks the dependencies alone.
-/

set_option autoImplicit false

namespace AccessStack.Release
open AccessStack.Text AccessStack.Rows AccessStack.JsonText

/-- No wait is for ever: the ranks decrease along dependencies and along the
measurements of required gates. -/
structure Completes (b : Blueprint) : Prop where
  nonempty : b.steps ≠ []
  measured : ∀ g ∈ b.gates, ∃ s ∈ b.steps, s.healthGateId = some g.id
  ranked : ∃ rank : String → ℕ, ∀ s ∈ b.steps, (∀ d ∈ s.dependsOn, rank d < rank s.id) ∧
    ∀ g ∈ s.requiredGates, ∀ m, b.steps.find? (·.healthGateId == some g) = some m →
      rank m.id < rank s.id

section Necessity

/-- The position of the first attempt of a step. -/
def firstAt (L : Ledger) (runId stepId : String) : ℕ :=
  L.stepAttempts.findIdx fun a => a.runId == runId && a.stepId == stepId

/-- What an attempted step waited for was attempted before it. -/
def Ordered (L : Ledger) : Prop :=
  ∀ s ∈ L.runSteps, (∃ a ∈ L.stepAttempts, ofStep s a = true) →
    (∀ d ∈ s.definition.dependsOn, firstAt L s.runId d < firstAt L s.runId s.stepId) ∧
    ∀ g ∈ s.definition.requiredGates, ∀ m, measuringStep L s.runId g = some m →
      firstAt L s.runId m.stepId < firstAt L s.runId s.stepId

theorem firstAt_lt {L : Ledger} {s : StepRow} (h : ∃ a ∈ L.stepAttempts, ofStep s a = true) :
    firstAt L s.runId s.stepId < L.stepAttempts.length :=
  List.findIdx_lt_length_of_exists h

theorem firstAt_ident {L L' : Ledger}
    (h : L'.stepAttempts.map AttemptRow.ident = L.stepAttempts.map AttemptRow.ident)
    (runId stepId : String) : firstAt L' runId stepId = firstAt L runId stepId := by
  have hmap : ∀ l : List AttemptRow,
      (l.findIdx fun a => a.runId == runId && a.stepId == stepId) =
        (l.map AttemptRow.ident).findIdx fun i => i.2.1 == runId && i.2.2.1 == stepId := by
    intro l
    rw [List.findIdx_map]
    rfl
  rw [firstAt, firstAt, hmap, hmap, h]

theorem firstAt_begin_old {h : Host} {L : Ledger} {row : StepRow} {key now runId stepId : String}
    (hlt : firstAt L runId stepId < L.stepAttempts.length) :
    firstAt (perform h L (.begin row key now)) runId stepId = firstAt L runId stepId := by
  rw [firstAt, begin_attempts, List.findIdx_append]
  exact if_pos hlt

theorem firstAt_begin_new {h : Host} {L : Ledger} {row : StepRow} {key now : String}
    (hnone : ¬∃ a ∈ L.stepAttempts, ofStep row a = true) :
    firstAt (perform h L (.begin row key now)) row.runId row.stepId = L.stepAttempts.length := by
  have hge : ¬(L.stepAttempts.findIdx fun a => a.runId == row.runId && a.stepId == row.stepId) <
      L.stepAttempts.length := by
    intro hlt
    exact hnone (List.findIdx_lt_length.mp hlt)
  rw [firstAt, begin_attempts, List.findIdx_append, if_neg hge]
  simp

theorem measuring_same {o : Orchestrator} {L : Ledger} {w : Write} (hL : Written o L)
    (hn : NoCollision o.host (perform o.host L w)) {runId gateId : String}
    (hr : runId ∈ L.releaseRuns.map (·.runId)) {m' : StepRow}
    (hm : measuringStep (perform o.host L w) runId gateId = some m') :
    ∃ m, measuringStep L runId gateId = some m ∧ m.stepId = m'.stepId := by
  obtain ⟨r, hrm, he⟩ := List.mem_map.mp hr
  obtain ⟨b, _, _, _, hi⟩ := hL.instantiates r hrm
  rw [he] at hi
  have hsame := ((instantiates_perform hL hn hr hi).measuring gateId).trans (hi.measuring gateId).symm
  rw [hm, Option.map_some] at hsame
  obtain ⟨m, hm, hkey⟩ := Option.map_eq_some_iff.mp hsame.symm
  exact ⟨m, hm, congrArg (·.1) hkey⟩

theorem succeeded_attempted {o : Orchestrator} {L : Ledger} (hL : Written o L) {s : StepRow}
    (hs : s ∈ L.runSteps) (hst : s.status = .succeeded) :
    ∃ a ∈ L.stepAttempts, ofStep s a = true := by
  by_contra hnone
  have hnil : L.stepAttempts.filter (ofStep s) = [] := by
    refine List.filter_eq_nil_iff.mpr fun a ha hof => hnone ⟨a, ha, hof⟩
  have := (hL.tracked s hs).latest
  rw [hnil, hst] at this
  cases this

/-- The run of an attempt exists, so the step it belongs to is not new. -/
theorem step_of_attempt {o : Orchestrator} {L : Ledger} {w : Write} (hL : Written o L)
    (hn : NoCollision o.host (perform o.host L w)) {s' : StepRow} {runId : String}
    (hs' : s' ∈ (perform o.host L w).runSteps) (hrun : s'.runId = runId)
    (hr : runId ∈ L.releaseRuns.map (·.runId)) : ∃ s ∈ L.runSteps, s.ident = s'.ident := by
  obtain ⟨s, hs, hid, _⟩ | ⟨b, q, t, i, d, rfl, _, rfl⟩ := step_before hs'
  · exact ⟨s, hs, hid⟩
  · obtain ⟨r, hrm, he⟩ := List.mem_map.mp hr
    have hfresh : o.host.randomUUID L.draws = r.runId := hrun.trans he.symm
    exact absurd (hfresh ▸ hL.keyed.runDrawn r hrm) (fresh_not_drawn hn (Nat.lt_succ_self L.draws))

theorem ordered_perform {o : Orchestrator} {L : Ledger} {w : Write} (hL : Written o L)
    (hg : Guard o L w) (hn : NoCollision o.host (perform o.host L w)) (ho : Ordered L) :
    Ordered (perform o.host L w) := by
  have hk := hL.keyed
  by_cases hb : ∃ row key now, w = .begin row key now
  · obtain ⟨row, key, now, rfl⟩ := hb
    have hrow := step_mem hg.2.1
    rintro s' hs' ⟨a', ha', hof'⟩
    obtain ⟨s, hs, hid, _⟩ | ⟨_, _, _, _, _, he, _⟩ := step_before hs'
    · have hrun : s.runId = s'.runId := congrArg (·.1) hid
      have hstep : s.stepId = s'.stepId := congrArg (·.2.1) hid
      have hdef : s.definition = s'.definition := congrArg (·.2.2.2) hid
      have hr := hk.stepRun s hs
      rw [← hrun, ← hstep, ← hdef]
      by_cases hold : ∃ a ∈ L.stepAttempts, ofStep s a = true
      · have hlt := firstAt_lt hold
        rw [firstAt_begin_old hlt]
        obtain ⟨hdeps, hgates⟩ := ho s hs hold
        refine ⟨fun d hd => ?_, fun g hgm m' hm' => ?_⟩
        · rw [firstAt_begin_old ((hdeps d hd).trans hlt)]
          exact hdeps d hd
        · obtain ⟨m, hm, he⟩ := measuring_same hL hn hr hm'
          rw [← he, firstAt_begin_old ((hgates g hgm m hm).trans hlt)]
          exact hgates g hgm m hm
      · have hsr : s = row := by
          rw [begin_attempts, List.mem_append, List.mem_singleton] at ha'
          simp only [ofStep, Bool.and_eq_true, beq_iff_eq, ← hrun, ← hstep] at hof'
          rcases ha' with ha' | rfl
          · exact absurd ⟨a', ha', by simp [ofStep, hof']⟩ hold
          · have hkey : row.runId = s.runId ∧ row.stepId = s.stepId := hof'
            exact List.inj_on_of_nodup_map hk.steps hs hrow (by simp [hkey])
        subst hsr
        rw [firstAt_begin_new hold]
        refine ⟨fun d hd => ?_, fun g hgm m' hm' => ?_⟩
        · obtain ⟨t, ht, hst⟩ := hg.2.2.2.2.1 d hd
          obtain ⟨h1, h2⟩ := step_key ht
          have hlt := firstAt_lt (succeeded_attempted hL (step_mem ht) hst)
          rw [h1, h2] at hlt
          rwa [firstAt_begin_old hlt]
        · obtain ⟨r, hrm, hpassed⟩ := hg.2.2.2.2.2.1 g hgm
          obtain ⟨h1, h2⟩ := gate_key hrm
          obtain ⟨m0, hm0, hst⟩ := hL.measuredPasses r (gate_mem hrm) hpassed
          obtain ⟨m, hm, he⟩ := measuring_same hL hn hr hm'
          rw [h1, h2, hm] at hm0
          obtain rfl := Option.some.inj hm0
          obtain ⟨hmem, hmrun⟩ := measuring_mem hm
          have hlt := firstAt_lt (succeeded_attempted hL hmem hst)
          rw [hmrun] at hlt
          rw [← he]
          rwa [firstAt_begin_old hlt]
    · cases he
  · push Not at hb
    have hattempts := attempts_ident hg hb
    rintro s' hs' ⟨a', ha', hof'⟩
    obtain ⟨a, ha, hid⟩ := mem_of_map_eq hattempts ha'
    have h1 : a.runId = a'.runId := congrArg (·.2.1) hid
    have h2 : a.stepId = a'.stepId := congrArg (·.2.2.1) hid
    simp only [ofStep, Bool.and_eq_true, beq_iff_eq] at hof'
    have hr : s'.runId ∈ L.releaseRuns.map (·.runId) := hof'.1 ▸ h1 ▸ attempt_run hk ha
    obtain ⟨s, hs, hsid⟩ := step_of_attempt hL hn hs' rfl hr
    have hrun : s.runId = s'.runId := congrArg (·.1) hsid
    have hstep : s.stepId = s'.stepId := congrArg (·.2.1) hsid
    have hdef : s.definition = s'.definition := congrArg (·.2.2.2) hsid
    obtain ⟨hdeps, hgates⟩ := ho s hs ⟨a, ha, by simp [ofStep, h1, h2, hof', hrun, hstep]⟩
    rw [← hrun, ← hstep, ← hdef]
    refine ⟨fun d hd => ?_, fun g hgm m' hm' => ?_⟩
    · rw [firstAt_ident hattempts, firstAt_ident hattempts]
      exact hdeps d hd
    · obtain ⟨m, hm, he⟩ := measuring_same hL hn (hrun ▸ hr) hm'
      rw [← he, firstAt_ident hattempts, firstAt_ident hattempts]
      exact hgates g hgm m hm

theorem Written.ordered {o : Orchestrator} {L : Ledger} (h : Written o L) : Ordered L := by
  induction h with
  | opened h =>
    rw [opened_ledger h]
    intro s hs
    cases hs
  | write w hL hg hn ih => exact ordered_perform hL hg hn ih

/-- When everything is done, the order of the first attempts is the rank. -/
theorem allDone_completes {o : Orchestrator} {L : Ledger} (hL : Written o L) {runId : String}
    {b : Blueprint} (hi : Instantiates L runId b) (hd : AllDone L runId)
    (hs : ∃ s ∈ L.runSteps, s.runId = runId) : Completes b := by
  constructor
  · obtain ⟨s, hs, hrun⟩ := hs
    exact List.ne_nil_of_mem (hi.definition_of hs hrun).1
  · intro g hg
    obtain ⟨r, hr, hrun, hgid, _⟩ := hi.gate_of hg
    obtain ⟨m, hm, _⟩ := hL.measuredPasses r hr (hd.2 r hr hrun)
    have hfind := hi.measuring g.id
    rw [← hrun, ← hgid, hm, Option.map_some] at hfind
    obtain ⟨d, hd, _⟩ := Option.map_eq_some_iff.mp hfind.symm
    exact ⟨d, List.mem_of_find?_eq_some hd, by simpa [hgid] using List.find?_some hd⟩
  · refine ⟨firstAt L runId, fun d hdm => ?_⟩
    obtain ⟨s, hsm, hrun, hid, rfl⟩ := hi.step_of hdm
    subst hrun
    obtain ⟨hdeps, hgates⟩ := hL.ordered s hsm (succeeded_attempted hL hsm (hd.1 s hsm rfl))
    rw [← hid]
    refine ⟨hdeps, fun g hg m hm => ?_⟩
    have hfind := hi.measuring g
    rw [hm, Option.map_some] at hfind
    obtain ⟨t, ht, he⟩ := Option.map_eq_some_iff.mp hfind
    have : t.stepId = m.id := congrArg (·.1) he
    exact this ▸ hgates g hg t ht

/-- A run that has succeeded is an instance of a blueprint without deadlock. -/
def SucceedsSoundly (o : Orchestrator) (L : Ledger) : Prop :=
  ∀ r ∈ L.releaseRuns, r.status = .succeeded →
    ∃ b ∈ o.blueprints, Instantiates L r.runId b ∧ Completes b

theorem soundly_step {o : Orchestrator} {L : Ledger} (op : Op) (hL : Reached o L)
    (hn : NoCollision o.host (step o L op)) (h : SucceedsSoundly o L) :
    SucceedsSoundly o (step o L op) := by
  obtain ⟨ws, hw, hkinds⟩ := step_commits hL.written.keyed op
  refine (hL.written.along (P := fun L1 => SucceedsSoundly o L1 ∧
    ∀ s ∈ L.runSteps, ∃ s1 ∈ L1.runSteps, s1.runId = s.runId) ?_ hw hn
    ⟨h, fun s hs => ⟨s, hs, rfl⟩⟩).2.1
  intro L1 w hwm hL1 hg hn1 ⟨hsound, hsteps⟩
  constructor
  · intro r' hr' hst'
    obtain ⟨r, hr, hid, hst⟩ | ⟨b, q, t, rfl, hplanned, _⟩ := run_before hr'
    · have hkeep : ∀ b, Instantiates L1 r.runId b → Instantiates (perform o.host L1 w) r'.runId b :=
        fun b hi => hid ▸ instantiates_perform hL1 hn1 (List.mem_map_of_mem hr) hi
      obtain hold | ⟨run, actorId, now, rfl, hrun⟩ := runStatus_succeeded (hst ▸ hst')
      · obtain ⟨b, hb, hi, hc⟩ := hsound r hr hold
        exact ⟨b, hb, hkeep b hi, hc⟩
      · obtain ⟨b, hb, _, _, hi⟩ := hL1.instantiates r hr
        obtain ⟨s, hs, he⟩ := (hkinds _ hwm).2
        obtain ⟨s1, hs1, he1⟩ := hsteps s hs
        have hstep : ∃ s ∈ L1.runSteps, s.runId = r.runId :=
          ⟨s1, hs1, he1.trans (he.trans hrun)⟩
        exact ⟨b, hb, hkeep b hi, allDone_completes hL1 hi (hrun ▸ hg.2.2.2) hstep⟩
    · rw [hplanned] at hst'
      cases hst'
  · intro s hs
    obtain ⟨s1, hs1, he1⟩ := hsteps s hs
    obtain ⟨s2, hs2, hid, _⟩ := step_after (h := o.host) (w := w) hs1
    exact ⟨s2, hs2, (congrArg (·.1) hid : s2.runId = s1.runId).trans he1⟩

end Necessity

end AccessStack.Release
