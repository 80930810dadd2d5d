import AccessStack.Release.Failure

/-!
# Prerequisites of attempted steps

A step is attempted only after its dependencies have succeeded and its gates
have passed. Steps that have succeeded stay so. A gate stays passed unless an
operation whose step measures the same gate is lost afterwards: the
validation lets several steps name one gate, the decision waits for the first
of them only, and losing any other resets the gate.
-/

set_option autoImplicit false

namespace AccessStack.Release
open AccessStack.Rows

/-- A planned run has no attempts and a running one has no unknown ones. -/
def Quiet (L : Ledger) : Prop :=
  ∀ r ∈ L.releaseRuns,
    (r.status = .planned → ∀ a ∈ L.stepAttempts, a.runId ≠ r.runId) ∧
    (r.status = .running → ∀ a ∈ L.stepAttempts, a.runId = r.runId → a.status ≠ .outcomeUnknown)

/-- Only losing an operation makes an attempt unknown. -/
theorem attempt_unknown {o : Orchestrator} {L : Ledger} {w : Write} (hL : Written o L)
    (hg : Guard o L w) {a' : AttemptRow} (ha : a' ∈ (perform o.host L w).stepAttempts)
    (hst : a'.status = .outcomeUnknown) :
    (∃ a ∈ L.stepAttempts, a.ident = a'.ident ∧ a.status = .outcomeUnknown) ∨
      ∃ a mark d now, w = .lose a mark d now ∧ a.ident = a'.ident := by
  obtain ⟨a, ham, hid, hstatus⟩ | ⟨_, _, _, _, _, _, hi, _⟩ := attempt_before hg ha
  · rw [hst] at hstatus
    cases w with
    | finish b input sha now =>
      simp only [Write.attemptStatus] at hstatus
      split at hstatus
      · split at hstatus <;> cases hstatus
      · exact .inl ⟨a, ham, hid, hstatus.symm⟩
    | lose b mark d now =>
      simp only [Write.attemptStatus] at hstatus
      split at hstatus
      · rename_i he
        have hab : a = b := List.inj_on_of_nodup_map hL.keyed.attempts ham hg.1 he
        exact .inr ⟨b, mark, d, now, rfl, hab ▸ hid⟩
      · exact .inl ⟨a, ham, hid, hstatus.symm⟩
    | settle b d outcome now =>
      cases outcome with
      | applied =>
        simp only [Write.attemptStatus] at hstatus
        split at hstatus
        · cases hstatus
        · exact .inl ⟨a, ham, hid, hstatus.symm⟩
      | notApplied =>
        simp only [Write.attemptStatus] at hstatus
        split at hstatus
        · cases hstatus
        · exact .inl ⟨a, ham, hid, hstatus.symm⟩
      | stillUnknown => exact .inl ⟨a, ham, hid, hstatus.symm⟩
    | _ => exact .inl ⟨a, ham, hid, hstatus.symm⟩
  · rw [hst] at hi
    cases hi

theorem quiet_perform {o : Orchestrator} {L : Ledger} {w : Write} (hL : Written o L)
    (hg : Guard o L w) (hn : NoCollision o.host (perform o.host L w)) (hq : Quiet L) :
    Quiet (perform o.host L w) := by
  have hk := hL.keyed
  intro r' hr'
  obtain ⟨r, hr, hid, hst⟩ | ⟨b, q, t, rfl, hst, hid⟩ := run_before hr'
  · constructor
    · intro hplanned a' ha' hrun
      have hp := runStatus_planned (hst ▸ hplanned)
      obtain ⟨a, ha, hai, _⟩ | ⟨row, key, t, rfl, hrow, _⟩ := attempt_before hg ha'
      · have har : a.runId = a'.runId := congrArg (·.2.1) hai
        exact (hq r hr).1 hp a ha (har.trans (hrun.trans hid.symm))
      · obtain ⟨⟨run, hf, hrunning⟩, _⟩ := hg
        rw [← hrow, hrun, ← hid, hk.find_run hr] at hf
        obtain rfl := Option.some.inj hf
        simp [hp] at hrunning
    · intro hrunning a' ha' hrun hunknown
      rw [hst] at hrunning
      obtain ⟨a, ha, hai, hau⟩ | ⟨a, mark, d, now, rfl, hai⟩ := attempt_unknown hL hg ha' hunknown
      · have har : a.runId = r.runId :=
          (congrArg (·.2.1) hai : a.runId = a'.runId).trans (hrun.trans hid.symm)
        obtain hold | ⟨now, rfl⟩ | ⟨now, rfl, _, hidle, _⟩ := runStatus_running hrunning
        · exact (hq r hr).2 hold a ha har hau
        · obtain ⟨run, hf, hp⟩ := hg
          rw [hk.find_run hr] at hf
          obtain rfl := Option.some.inj hf
          exact (hq r hr).1 hp a ha har
        · exact hidle ⟨a, ha, har, .inr hau⟩
      · have har : r.runId = a.runId :=
          (hid.trans hrun.symm).trans (congrArg (·.2.1) hai : a.runId = a'.runId).symm
        simp [Write.runStatus, har] at hrunning
  · refine ⟨fun _ a ha hrun => ?_, fun h => by rw [hst] at h; cases h⟩
    obtain ⟨r, hr, he⟩ := List.mem_map.mp (attempt_run hk ha)
    exact fresh_not_drawn hn (Nat.lt_succ_self L.draws)
      (hid ▸ hrun ▸ he ▸ hk.runDrawn r hr)

theorem Written.quiet {o : Orchestrator} {L : Ledger} (h : Written o L) : Quiet L := by
  induction h with
  | opened h =>
    rw [opened_ledger h]
    intro r hr
    cases hr
  | write w h hg hn ih => exact quiet_perform h hg hn ih

/-- The step of the attempt measures the gate. -/
def Measures (L : Ledger) (a : AttemptRow) (g : GateRow) : Prop :=
  ∃ s ∈ L.runSteps, ofStep s a = true ∧ g.runId = a.runId ∧
    s.definition.measuredGate = some g.gateId

structure Prepared (L : Ledger) : Prop where
  measured : ∀ g ∈ L.runHealthGates, g.status = .passed → ∀ a ∈ L.stepAttempts,
    a.status = .outcomeUnknown → ¬Measures L a g
  attempted : ∀ s ∈ L.runSteps, 0 < s.attemptCount →
    (∀ d ∈ s.definition.dependsOn, ∃ t ∈ L.runSteps, t.runId = s.runId ∧ t.stepId = d ∧
      t.status = .succeeded) ∧
    ∀ g ∈ s.definition.requiredGates, ∃ r ∈ L.runHealthGates, r.runId = s.runId ∧ r.gateId = g ∧
      r.status = .passed

/-- The write loses no operation that measures a passed gate. -/
def SparesPassed (L : Ledger) (w : Write) : Prop :=
  ∀ a mark d now, w = .lose a mark d now → ∀ g ∈ L.runHealthGates, g.status = .passed →
    ¬Measures L a g

theorem measures_of_step {L : Ledger} {a : AttemptRow} {g : GateRow} {s : StepRow}
    (hs : L.step? a.runId a.stepId = some s) (hrun : g.runId = a.runId)
    (hm : s.definition.measuredGate = some g.gateId) : Measures L a g := by
  obtain ⟨h1, h2⟩ := step_key hs
  exact ⟨s, step_mem hs, by simp [ofStep, h1, h2], hrun, hm⟩

/-- A passed gate stays passed. -/
theorem passed_perform {o : Orchestrator} {L : Ledger} {w : Write} (hL : Written o L)
    (hg : Guard o L w) (hp : Prepared L) (hsafe : SparesPassed L w) {g : GateRow}
    (hgm : g ∈ L.runHealthGates) (hst : g.status = .passed) :
    ∃ g' ∈ (perform o.host L w).runHealthGates, g'.ident = g.ident ∧ g'.status = .passed := by
  obtain ⟨g', hg', hid, hstatus⟩ := gate_after (h := o.host) (w := w) hgm
  refine ⟨g', hg', hid, hstatus.trans ?_⟩
  cases w with
  | lose a mark d now =>
    simp only [Write.gateStatus]
    split
    · rename_i hm
      obtain ⟨_, _, _, s, hs, rfl⟩ := hg
      exact absurd (measures_of_step hs hm.1 hm.2) (hsafe a mark _ now rfl g hgm hst)
    · exact hst
  | settle a d outcome now =>
    simp only [Write.gateStatus]
    split
    · rename_i hm
      obtain ⟨ha, hunknown, s, hs, rfl⟩ := hg
      exact absurd (measures_of_step hs hm.1.1 hm.1.2) (hp.measured g hgm hst a ha hunknown)
    · exact hst
  | decide runId gateId input sha ids now =>
    simp only [Write.gateStatus]
    split
    · rename_i hm
      obtain ⟨_, ⟨g0, hg0, hpending⟩, _⟩ := hg
      rw [← hm.1, ← hm.2, hL.keyed.find_gate hgm] at hg0
      obtain rfl := Option.some.inj hg0
      simp [hst] at hpending
    · exact hst
  | _ => exact hst

/-- An attempted step was attempted before the write or is begun by it. -/
theorem attempted_before {o : Orchestrator} {L : Ledger} {w : Write} (hL : Written o L)
    (hg : Guard o L w) {s' : StepRow} (hs' : s' ∈ (perform o.host L w).runSteps)
    (hc : 0 < s'.attemptCount) :
    (∃ s ∈ L.runSteps, s.ident = s'.ident ∧ 0 < s.attemptCount) ∨
      ∃ row key now, w = .begin row key now ∧ row.ident = s'.ident := by
  by_cases hb : ∃ row key now, w = .begin row key now
  · obtain ⟨row, key, now, rfl⟩ := hb
    rw [begin_steps, mem_update] at hs'
    obtain ⟨s, hs, rfl⟩ := hs'
    split at hc
    · rename_i hm
      simp only [Bool.and_eq_true, beq_iff_eq] at hm
      have hsr : s = row := List.inj_on_of_nodup_map hL.keyed.steps hs (step_mem hg.2.1)
        (by simp [hm])
      subst hsr
      exact .inr ⟨s, key, now, rfl, by simp [StepRow.ident]⟩
    · rename_i hm
      exact .inl ⟨s, hs, by rw [if_neg hm], hc⟩
  · by_cases hi : ∃ b q t, w = .insertRun b q t
    · obtain ⟨b, q, t, rfl⟩ := hi
      rcases List.mem_append.mp hs' with hs' | hs'
      · exact .inl ⟨s', hs', rfl, hc⟩
      · obtain ⟨i, d, _, rfl⟩ := newSteps_mem hs'
        simp [stepRow] at hc
    · push Not at hb hi
      obtain ⟨s, hs, hid⟩ := mem_of_map_eq (steps_ident (o := o) hi) hs'
      obtain ⟨t, ht, hclaim⟩ := mem_of_map_eq (steps_claim (o := o) hi hb) hs'
      have h1 : s.runId = s'.runId ∧ s.stepId = s'.stepId :=
        ⟨congrArg (·.1) hid, congrArg (·.2.1) hid⟩
      have h2 : t.runId = s'.runId ∧ t.stepId = s'.stepId :=
        ⟨congrArg (·.1) hclaim, congrArg (·.2.1) hclaim⟩
      have hst : s = t := List.inj_on_of_nodup_map hL.keyed.steps hs ht (by simp [h1, h2])
      have h3 : t.attemptCount = s'.attemptCount := congrArg (·.2.2.1) hclaim
      exact .inl ⟨s, hs, hid, by rw [hst, h3]; exact hc⟩

theorem measures_before {o : Orchestrator} {L : Ledger} {w : Write} (hL : Written o L)
    (hn : NoCollision o.host (perform o.host L w)) {a a' : AttemptRow} {g' : GateRow}
    (ha : a ∈ L.stepAttempts) (hid : a.ident = a'.ident) (hg' : g' ∈ (perform o.host L w).runHealthGates)
    (hm : Measures (perform o.host L w) a' g') :
    ∃ g ∈ L.runHealthGates, g.ident = g'.ident ∧ g'.status = w.gateStatus g ∧ Measures L a g := by
  have hk := hL.keyed
  have h1 : a.runId = a'.runId := congrArg (·.2.1) hid
  have h2 : a.stepId = a'.stepId := congrArg (·.2.2.1) hid
  obtain ⟨s', hs', hof, hrun, hgate⟩ := hm
  simp only [ofStep, Bool.and_eq_true, beq_iff_eq] at hof
  -- The run of an attempt exists, so neither its steps nor its gates are new.
  have hold : ∀ b q t, w = .insertRun b q t → a.runId ≠ o.host.randomUUID L.draws := by
    rintro b q t rfl he
    obtain ⟨r, hr, hra⟩ := List.mem_map.mp (attempt_run hk ha)
    exact fresh_not_drawn hn (Nat.lt_succ_self L.draws) (he ▸ hra ▸ hk.runDrawn r hr)
  obtain ⟨s, hs, hsid, _⟩ | ⟨b, q, t, i, d, rfl, _, rfl⟩ := step_before hs'
  · obtain ⟨g, hg, hgid, hgst⟩ | ⟨b, q, t, d, rfl, _, rfl⟩ := gate_before hg'
    · have h3 : s.runId = s'.runId := congrArg (·.1) hsid
      have h4 : s.stepId = s'.stepId := congrArg (·.2.1) hsid
      have h5 : s.definition = s'.definition := congrArg (·.2.2.2) hsid
      have h6 : g.runId = g'.runId := congrArg (·.1) hgid
      have h7 : g.gateId = g'.gateId := congrArg (·.2.1) hgid
      refine ⟨g, hg, hgid, hgst, s, hs, ?_, ?_, ?_⟩
      · simp [ofStep, h1, h2, hof, h3, h4]
      · rw [h6, hrun, h1]
      · rw [h5, hgate, h7]
    · exact absurd (h1.trans hrun.symm) (hold b q t rfl)
  · exact absurd (h1.trans hof.1) (hold b q t rfl)

theorem prepared_perform {o : Orchestrator} {L : Ledger} {w : Write} (hL : Written o L)
    (hg : Guard o L w) (hn : NoCollision o.host (perform o.host L w)) (hsafe : SparesPassed L w)
    (hp : Prepared L) : Prepared (perform o.host L w) := by
  constructor
  · intro g' hg' hpassed a' ha' hunknown hm
    obtain ⟨a, ha, hid, hau⟩ | ⟨a, mark, d, now, rfl, hid⟩ := attempt_unknown hL hg ha' hunknown
    · obtain ⟨g, hgm, _, hgst, hmeasures⟩ := measures_before hL hn ha hid hg' hm
      obtain hold | ⟨runId, gateId, input, sha, ids, now, rfl, hrun, _⟩ :=
        gateStatus_passed (hgst ▸ hpassed)
      · exact hp.measured g hgm hold a ha hau hmeasures
      · obtain ⟨⟨run, hf, hrunning⟩, _⟩ := hg
        obtain ⟨_, _, _, hsame, _⟩ := hmeasures
        exact (hL.quiet run (run_mem hf)).2 hrunning a ha
          (hsame.symm.trans (hrun.trans (run_id hf).symm)) hau
    · obtain ⟨g, hgm, _, hgst, hmeasures⟩ := measures_before hL hn hg.1 hid hg' hm
      obtain hold | ⟨_, _, _, _, _, _, he, _⟩ := gateStatus_passed (hgst ▸ hpassed)
      · exact hsafe a mark d now rfl g hgm hold hmeasures
      · cases he
  · intro s' hs' hc
    obtain ⟨s, hs, hid, hcount⟩ | ⟨row, key, now, rfl, hid⟩ := attempted_before hL hg hs' hc
    · have hrun : s.runId = s'.runId := congrArg (·.1) hid
      have hdef : s.definition = s'.definition := congrArg (·.2.2.2) hid
      rw [← hrun, ← hdef]
      refine ⟨fun d hd => ?_, fun g hgm => ?_⟩
      · obtain ⟨t, ht, h1, h2, h3⟩ := (hp.attempted s hs hcount).1 d hd
        exact ⟨t, (frozen_perform hL hg ht (.inl h3)).1, h1, h2, h3⟩
      · obtain ⟨r, hr, h1, h2, h3⟩ := (hp.attempted s hs hcount).2 g hgm
        obtain ⟨r', hr', hrid, hrst⟩ := passed_perform hL hg hp hsafe hr h3
        exact ⟨r', hr', (congrArg (·.1) hrid : r'.runId = r.runId).trans h1,
          (congrArg (·.2.1) hrid : r'.gateId = r.gateId).trans h2, hrst⟩
    · have hrun : row.runId = s'.runId := congrArg (·.1) hid
      have hdef : row.definition = s'.definition := congrArg (·.2.2.2) hid
      rw [← hrun, ← hdef]
      refine ⟨fun d hd => ?_, fun g hgm => ?_⟩
      · obtain ⟨t, ht, h3⟩ := hg.2.2.2.2.1 d hd
        obtain ⟨h1, h2⟩ := step_key ht
        exact ⟨t, (frozen_perform hL hg (step_mem ht) (.inl h3)).1, h1, h2, h3⟩
      · obtain ⟨r, hr, h3⟩ := hg.2.2.2.2.2.1 g hgm
        obtain ⟨h1, h2⟩ := gate_key hr
        obtain ⟨r', hr', hrid, hrst⟩ := passed_perform hL hg hp hsafe (gate_mem hr) h3
        exact ⟨r', hr', (congrArg (·.1) hrid : r'.runId = r.runId).trans h1,
          (congrArg (·.2.1) hrid : r'.gateId = r.gateId).trans h2, hrst⟩

/-- The attempt belongs to a step that measures a gate already passed. -/
def MeasuresPassed (L : Ledger) (a : AttemptRow) : Prop :=
  ∃ g ∈ L.runHealthGates, g.status = .passed ∧ Measures L a g

/-- The call marks as unknown an operation in flight whose gate has passed. -/
def LosesPassedGate (L : Ledger) : Op → Prop
  | .markOutcomeUnknown operationId _ _ _ =>
    ∃ a, Ledger.latestAttempt (L.stepAttempts.filter (·.operationId == operationId)) = some a ∧
      a.status = .intentRecorded ∧ MeasuresPassed L a
  | .recoverInterruptedOperations _ _ =>
    ∃ a ∈ L.stepAttempts, a.status = .intentRecorded ∧ MeasuresPassed L a
  | _ => False

def InFlightClear (L : Ledger) : Prop :=
  ∀ a ∈ L.stepAttempts, a.status = .intentRecorded → ¬MeasuresPassed L a

/-- What the call changes and what it keeps: the prerequisites hold, and every
gate that had passed is passed still. -/
def Keeps (L L' : Ledger) : Prop :=
  Prepared L' ∧ ∀ g ∈ L.runHealthGates, g.status = .passed →
    ∃ g' ∈ L'.runHealthGates, g'.ident = g.ident ∧ g'.status = .passed

theorem keeps_refl {L : Ledger} (hp : Prepared L) : Keeps L L :=
  ⟨hp, fun g hg hst => ⟨g, hg, rfl, hst⟩⟩

theorem Keeps.trans {L L1 L2 : Ledger} (h1 : Keeps L L1) (h2 : Keeps L1 L2) : Keeps L L2 := by
  refine ⟨h2.1, fun g hg hst => ?_⟩
  obtain ⟨g1, hg1, hid1, hst1⟩ := h1.2 g hg hst
  obtain ⟨g2, hg2, hid2, hst2⟩ := h2.2 g1 hg1 hst1
  exact ⟨g2, hg2, hid2.trans hid1, hst2⟩

theorem keeps_perform {o : Orchestrator} {L0 L : Ledger} {w : Write} (hL : Written o L)
    (hg : Guard o L w) (hn : NoCollision o.host (perform o.host L w)) (hsafe : SparesPassed L w)
    (hk : Keeps L0 L) : Keeps L0 (perform o.host L w) :=
  hk.trans ⟨prepared_perform hL hg hn hsafe hk.1,
    fun _ hgm hst => passed_perform hL hg hk.1 hsafe hgm hst⟩

theorem sparesPassed_of_ne {L : Ledger} {w : Write} (h : w.isLose = false) : SparesPassed L w := by
  rintro a mark d now rfl
  cases h

theorem sparesPassed_of_clear {L : Ledger} {a : AttemptRow} {mark : AttemptRow → AttemptRow}
    {d : StepDefinition} {now : String} (h : ¬MeasuresPassed L a) :
    SparesPassed L (.lose a mark d now) := by
  intro a' mark' d' now' he g hg hst hm
  obtain ⟨rfl, _⟩ : a = a' ∧ _ := by simpa using he
  exact h ⟨g, hg, hst, hm⟩

/-- The recovery loop keeps the operations it has not reached clear. -/
theorem clear_perform {o : Orchestrator} {L : Ledger} {w : Write} (hL : Written o L)
    (hg : Guard o L w) (hn : NoCollision o.host (perform o.host L w))
    (hw : w.isLose = true ∨ ∃ runId, w.isLog runId = true) (hc : InFlightClear L) :
    InFlightClear (perform o.host L w) := by
  rintro a' ha' hst ⟨g', hg', hpassed, hm⟩
  obtain ⟨a, ha, hid, hstatus⟩ | ⟨_, _, _, rfl, _⟩ := attempt_before hg ha'
  · have hintent : a.status = .intentRecorded := by
      rw [hst] at hstatus
      cases w with
      | lose b mark d now =>
        simp only [Write.attemptStatus] at hstatus
        split at hstatus
        · obtain ⟨_, _, rfl | rfl, _⟩ := hg
          · cases hstatus
          · unfold markInterrupted at hstatus
            split at hstatus
            · cases hstatus
            · exact hstatus.symm
        · exact hstatus.symm
      | log run t payload actorId now => exact hstatus.symm
      | _ => simp [Write.isLose, Write.isLog] at hw
    obtain ⟨g, hgm, _, hgst, hmeasures⟩ := measures_before hL hn ha hid hg' hm
    obtain hold | ⟨_, _, _, _, _, _, rfl, _⟩ := gateStatus_passed (hgst ▸ hpassed)
    · exact hc a ha hintent ⟨g, hgm, hold, hmeasures⟩
    · simp [Write.isLose, Write.isLog] at hw
  · simp [Write.isLose, Write.isLog] at hw

theorem keeps_commits {o : Orchestrator} {L L' : Ledger} {ws : List Write} (hL : Written o L)
    (h : Commits o L ws L') (hn : NoCollision o.host L') (hp : Prepared L)
    (hws : ∀ w ∈ ws, w.isLose = false) : Keeps L L' :=
  (hL.along (P := fun L1 => Keeps L L1)
    (fun _ w hw hL1 hg hn1 hk => keeps_perform hL1 hg hn1 (sparesPassed_of_ne (hws w hw)) hk)
    h hn (keeps_refl hp)).2

theorem keeps_step {o : Orchestrator} {L : Ledger} {op : Op} (hL : Reached o L)
    (hn : NoCollision o.host (step o L op)) (hp : Prepared L) (hsafe : ¬LosesPassedGate L op) :
    Keeps L (step o L op) := by
  have hW := hL.written
  cases hc : call o L op with
  | error e =>
    rw [step_error hc]
    exact keeps_refl hp
  | ok p =>
    obtain ⟨r, L'⟩ := p
    rw [step_ok hc] at hn ⊢
    by_cases hop : (∃ id code actorId now, op = .markOutcomeUnknown id code actorId now) ∨
        ∃ actorId now, op = .recoverInterruptedOperations actorId now
    · rcases hop with ⟨id, code, actorId, now, rfl⟩ | ⟨actorId, now, rfl⟩
      · obtain ⟨snapshot, hm, _⟩ := respond_ok hc
        obtain ⟨a, ha, ⟨rfl, _⟩ | ⟨s, log, _, hl, hw⟩⟩ := markOutcomeUnknown_writes hm
        · exact keeps_refl hp
        · obtain ⟨L1, hlose, hlog⟩ := commits_split [_] hw
          have hn1 := hn.mono (draws_commits hlog)
          have hL1 := hW.commits hlose hn1
          obtain ⟨⟨hg, _⟩, rfl⟩ := hlose
          have hclear : ¬MeasuresPassed L a := fun hm => hsafe ⟨a, ha, hg.2.1, hm⟩
          have h1 := keeps_perform hW hg hn1 (sparesPassed_of_clear hclear) (keeps_refl hp)
          obtain ⟨_, _, _, _, _, rfl, _⟩ := isLog_log hl
          exact h1.trans (keeps_commits hL1 hlog hn h1.1 (by simp [Write.isLose]))
      · obtain ⟨n, hr, _⟩ := respond_ok hc
        obtain ⟨ws, hw, hall⟩ := recover_writes hW.keyed.attempts hr
        have hclear : InFlightClear L := fun a ha hst hm => hsafe ⟨a, ha, hst, hm⟩
        refine (hW.along (P := fun L1 => InFlightClear L1 ∧ Keeps L L1) ?_ hw hn
          ⟨hclear, keeps_refl hp⟩).2.2
        intro L1 w hwm hL1 hg hn1 hk
        refine ⟨clear_perform hL1 hg hn1 (hall w hwm) hk.1, keeps_perform hL1 hg hn1 ?_ hk.2⟩
        rintro a mark d now rfl g hgm hst hm
        exact hk.1 a hg.1 hg.2.1 ⟨g, hgm, hst, hm⟩
    · obtain ⟨ws, hw, hkinds⟩ := call_commits (fun _ => hW.keyed.attempts) hc
      refine keeps_commits hW hw hn hp fun w hwm => ?_
      have hmay := (hkinds w hwm).1
      cases w with
      | lose a mark d now =>
        cases op with
        | markOutcomeUnknown id code actorId now => exact absurd (.inl ⟨_, _, _, _, rfl⟩) hop
        | recoverInterruptedOperations actorId now => exact absurd (.inr ⟨_, _, rfl⟩) hop
        | _ => cases hmay
      | _ => rfl

theorem keeps_exec {o : Orchestrator} {L : Ledger} {ops : List Op} (hL : Reached o L)
    (hn : NoCollision o.host (exec o L ops)) (hp : Prepared L)
    (hsafe : Along o (fun L op => ¬LosesPassedGate L op) L ops) : Keeps L (exec o L ops) := by
  induction ops generalizing L with
  | nil => exact keeps_refl hp
  | cons op ops ih =>
    have hn1 := hn.mono (draws_exec o (step o L op) ops)
    have h1 := keeps_step hL hn1 hp hsafe.1
    exact h1.trans (ih (hL.step op hn1) hn h1.1 hsafe.2)

theorem prepared_opened {o : Orchestrator} {L : Ledger} (h : Opened o L) : Prepared L := by
  rw [opened_ledger h]
  constructor <;> simp

/-- Along every history that never loses an operation whose gate has already
passed, the prerequisites of every attempted step hold now and ever after, and
a passed gate stays passed. -/
theorem prerequisites_kept {o : Orchestrator} {L : Ledger} (hO : Opened o L) (ops later : List Op)
    (hn : NoCollision o.host (exec o L (ops++later)))
    (hsafe : Along o (fun L op => ¬LosesPassedGate L op) L (ops++later)) :
    (∀ s ∈ (exec o L ops).runSteps, 0 < s.attemptCount →
      ∀ L' ∈ [exec o L ops, exec o L (ops++later)],
        (∀ d ∈ s.definition.dependsOn, ∃ t, L'.step? s.runId d = some t ∧ t.status = .succeeded) ∧
        ∀ g ∈ s.definition.requiredGates, ∃ r, L'.gate? s.runId g = some r ∧ r.status = .passed) ∧
    ∀ g ∈ (exec o L ops).runHealthGates, g.status = .passed →
      ∃ g', (exec o L (ops++later)).gate? g.runId g.gateId = some g' ∧ g'.status = .passed := by
  have hL := Reached.opened hO
  rw [exec_append] at hn ⊢
  have hn1 := hn.mono (draws_exec o _ later)
  have hL1 := hL.exec hn1
  have hk2 := (hL1.exec hn).written.keyed
  obtain ⟨hsafe1, hsafe2⟩ := along_append.mp hsafe
  have h1 := keeps_exec hL hn1 (prepared_opened hO) hsafe1
  have h2 := keeps_exec hL1 hn h1.1 hsafe2
  have hgate : ∀ g ∈ (exec o L ops).runHealthGates, g.status = .passed →
      ∃ g', (exec o (exec o L ops) later).gate? g.runId g.gateId = some g' ∧
        g'.status = .passed := by
    intro g hg hst
    obtain ⟨g', hg', hid, hst'⟩ := h2.2 g hg hst
    have hrun : g'.runId = g.runId := congrArg (·.1) hid
    have hgid : g'.gateId = g.gateId := congrArg (·.2.1) hid
    exact ⟨g', hrun ▸ hgid ▸ hk2.find_gate hg', hst'⟩
  refine ⟨?_, hgate⟩
  intro s hs hc L' hL'
  obtain ⟨hdeps, hgates⟩ := h1.1.attempted s hs hc
  simp only [List.mem_cons, List.not_mem_nil, or_false] at hL'
  rcases hL' with rfl | rfl
  · refine ⟨fun d hd => ?_, fun g hg => ?_⟩
    · obtain ⟨t, ht, hrun, rfl, hst⟩ := hdeps d hd
      exact ⟨t, hrun ▸ hL1.written.keyed.find_step ht, hst⟩
    · obtain ⟨r, hr, hrun, rfl, hst⟩ := hgates g hg
      exact ⟨r, hrun ▸ hL1.written.keyed.find_gate hr, hst⟩
  · refine ⟨fun d hd => ?_, fun g hg => ?_⟩
    · obtain ⟨t, ht, hrun, rfl, hst⟩ := hdeps d hd
      exact ⟨t, hrun ▸ hk2.find_step (frozen_exec hL1 hn ht (.inl hst)).1, hst⟩
    · obtain ⟨r, hr, hrun, rfl, hst⟩ := hgates g hg
      exact hrun ▸ hgate r hr hst

def gatedBlueprint (measuring : List String) : Blueprint :=
  sampleBlueprint [sampleGate "health"]
    (measuring.map (fun id => sampleStep id [] [] (some "health")) ++
      [sampleStep "deploy" ["first"] ["health"] none])

/-- The first measurement succeeds and the gate passes. -/
def gatePassedOps (between : List Op) : List Op :=
  [.createRun sampleRequest sampleTime, .startRun (sampleId 0) "operator" sampleTime,
    .beginStepAttempt (sampleId 0) "first" "first-key" "operator" sampleTime,
    .recordStepOutcome (sampleId 5) ⟨.succeeded, none, some [sampleEvidence]⟩ "operator"
      sampleTime] ++ between ++
  [.resolveHealthGate (sampleId 0) "health" ⟨"decision", .passed, [sampleEvidence], "operator"⟩
      sampleTime,
    .beginStepAttempt (sampleId 0) "deploy" "deploy-key" "operator" sampleTime]

theorem prerequisites_kept_single :
    let o := sampleOrchestrator (gatedBlueprint ["first"])
    let L := exec o (sampleLedger (gatedBlueprint ["first"])) (gatePassedOps [])
    L.runSteps.map (·.attemptCount) = [1, 1] ∧
      ∀ g ∈ L.runHealthGates, g.status = .passed →
        ∃ g', L.gate? g.runId g.gateId = some g' ∧ g'.status = .passed := by
  intro o L
  have hL : L = exec o (sampleCreated (gatedBlueprint ["first"])) (gatePassedOps []).tail :=
    sample_created rfl rfl _
  have hrun : L.draws < 16^12 ∧ L.runSteps.map (·.attemptCount) = [1, 1] := by
    rw [hL]
    decide +kernel
  have hv : validateWorkflowBlueprint (gatedBlueprint ["first"]) = .ok () := by decide +kernel
  have hkept := (prerequisites_kept (sample_opened hv) (gatePassedOps []) []
    (by rw [List.append_nil]; exact sample_distinct (L := L) hrun.1)
    (by simp [gatePassedOps, Along, LosesPassedGate])).2
  rw [List.append_nil] at hkept
  exact ⟨hrun.2, hkept⟩

/-- A second measurement of the gate is in flight when the gate passes. -/
def sharedGateOps : List Op :=
  gatePassedOps [.beginStepAttempt (sampleId 0) "second" "second-key" "operator" sampleTime]

theorem shared_gate_lost :
    let b := gatedBlueprint ["first", "second"]
    let L := exec (sampleOrchestrator b) (sampleLedger b) sharedGateOps
    let L' := step (sampleOrchestrator b) L
      (.markOutcomeUnknown (sampleId 12) "timeout" "operator" sampleTime)
    validateWorkflowBlueprint b = .ok () ∧ Reached (sampleOrchestrator b) L' ∧
      (L.gate? (sampleId 0) "health").map (·.status) = some .passed ∧
      (L'.gate? (sampleId 0) "health").map (·.status) = some .outcomeUnknown ∧
      (L'.step? (sampleId 0) "deploy").map (fun s => (s.attemptCount, s.definition.requiredGates)) =
        some (1, ["health"]) := by
  intro b L L'
  have hv : validateWorkflowBlueprint b = .ok () := by decide +kernel
  have hL : L = exec (sampleOrchestrator b) (sampleCreated b) sharedGateOps.tail :=
    sample_created rfl rfl _
  have hL' : L' = step (sampleOrchestrator b) (exec (sampleOrchestrator b) (sampleCreated b)
      sharedGateOps.tail) (.markOutcomeUnknown (sampleId 12) "timeout" "operator" sampleTime) :=
    congrArg (fun M => step (sampleOrchestrator b) M
      (.markOutcomeUnknown (sampleId 12) "timeout" "operator" sampleTime)) hL
  have hrun : L.draws < 16^12 ∧ L'.draws < 16^12 ∧
      (L.gate? (sampleId 0) "health").map (·.status) = some .passed ∧
      (L'.gate? (sampleId 0) "health").map (·.status) = some .outcomeUnknown ∧
      (L'.step? (sampleId 0) "deploy").map (fun s => (s.attemptCount, s.definition.requiredGates)) =
        some (1, ["health"]) := by
    rw [hL', hL]
    decide +kernel
  have hreached : Reached (sampleOrchestrator b) L := (Reached.opened (sample_opened hv)).exec
    (sample_distinct (L := L) hrun.1)
  exact ⟨hv, hreached.step _ (sample_distinct (L := L') hrun.2.1), hrun.2.2⟩

end AccessStack.Release
