import AccessStack.Release.History

/-!
# Identities in the ledger

Rows keep the columns that identify them. Only `createRun` adds runs, steps
and gates, only `beginStepAttempt` adds attempts, and both use identifiers
drawn for the purpose. The keys of the schema are therefore distinct in every
reachable ledger, provided no two draws of the history collide.
-/

set_option autoImplicit false

namespace AccessStack.Release
open AccessStack.Rows

def Drawn (h : Host) (L : Ledger) (id : String) : Prop := ∃ n < L.draws, h.randomUUID n = id

/-- No two identifiers drawn so far are equal. -/
def NoCollision (h : Host) (L : Ledger) : Prop :=
  ∀ m < L.draws, ∀ n < L.draws, h.randomUUID m = h.randomUUID n → m = n

def RunRow.ident (r : RunRow) : String × String × String × ℤ × String :=
  (r.runId, r.createIdempotencyKey, r.blueprintId, r.blueprintVersion, r.createRequestSha256)

def StepRow.ident (s : StepRow) : String × String × ℕ × StepDefinition :=
  (s.runId, s.stepId, s.ordinal, s.definition)

/-- The columns written by `beginStepAttempt` alone. -/
def StepRow.claim (s : StepRow) : String × String × ℕ × Option String × Option String :=
  (s.runId, s.stepId, s.attemptCount, s.operationId, s.idempotencyKey)

def GateRow.ident (g : GateRow) : String × String × List String :=
  (g.runId, g.gateId, g.requiredEvidenceKinds)

def AttemptRow.ident (a : AttemptRow) : String × String × String × ℕ × String × String :=
  (a.attemptId, a.runId, a.stepId, a.attemptNumber, a.operationId, a.idempotencyKey)

theorem marked_ident {o : Orchestrator} {L : Ledger} {a : AttemptRow}
    {mark : AttemptRow → AttemptRow} {d : StepDefinition} {now : String}
    (h : Guard o L (.lose a mark d now)) (b : AttemptRow) : (mark b).ident = b.ident := by
  obtain ⟨_, _, rfl | rfl, _⟩ := h
  · rfl
  · unfold markInterrupted
    split <;> rfl

theorem draws_mono (h : Host) (L : Ledger) (w : Write) : L.draws ≤ (perform h L w).draws := by
  cases w <;> simp only [perform, Ledger.logEvent, insertRun, insertAttempt, afterOperation,
    finishAttempt, failRun, loseOutcome, setMeasuredGate, insertReconciliation, settleOutcome,
    resumeIfNoUnknownOperations, succeedRun, insertDecision, Ledger.setRun, Ledger.setStep,
    Ledger.setGate, Ledger.setAttempt]
  all_goals try split
  all_goals simp
  all_goals omega

theorem gates_ident {o : Orchestrator} {L : Ledger} {w : Write}
    (hw : ∀ b q t, w ≠ .insertRun b q t) :
    (perform o.host L w).runHealthGates.map GateRow.ident = L.runHealthGates.map GateRow.ident := by
  cases w with
  | insertRun b q t => exact absurd rfl (hw b q t)
  | finish a input sha now => simp only [perform]; split <;> rfl
  | begin row key now => simp only [perform, insertAttempt, afterOperation]; split <;> rfl
  | lose a mark d now => exact map_update _ _ _ _ fun _ => rfl
  | settle a d outcome now =>
    cases outcome with
    | applied => exact map_update _ _ _ _ fun _ => rfl
    | notApplied => exact map_update _ _ _ _ fun _ => rfl
    | stillUnknown => rfl
  | resume r now => simp only [perform, resumeIfNoUnknownOperations]; split <;> rfl
  | decide r g input sha ids now =>
    simp only [perform]
    split <;> exact map_update _ _ _ _ fun _ => rfl
  | _ => rfl

theorem steps_ident {o : Orchestrator} {L : Ledger} {w : Write}
    (hw : ∀ b q t, w ≠ .insertRun b q t) :
    (perform o.host L w).runSteps.map StepRow.ident = L.runSteps.map StepRow.ident := by
  cases w with
  | insertRun b q t => exact absurd rfl (hw b q t)
  | finish a input sha now =>
    simp only [perform]
    split <;> exact map_update _ _ _ _ fun _ => rfl
  | begin row key now =>
    simp only [perform, insertAttempt, afterOperation]
    split <;> exact map_update _ _ _ _ fun _ => rfl
  | lose a mark d now => exact map_update _ _ _ _ fun _ => rfl
  | settle a d outcome now =>
    cases outcome with
    | applied => exact map_update _ _ _ _ fun _ => rfl
    | notApplied => exact map_update _ _ _ _ fun _ => rfl
    | stillUnknown => rfl
  | resume r now => simp only [perform, resumeIfNoUnknownOperations]; split <;> rfl
  | decide r g input sha ids now => simp only [perform]; split <;> rfl
  | _ => rfl

theorem steps_claim {o : Orchestrator} {L : Ledger} {w : Write}
    (hw : ∀ b q t, w ≠ .insertRun b q t) (hb : ∀ row key t, w ≠ .begin row key t) :
    (perform o.host L w).runSteps.map StepRow.claim = L.runSteps.map StepRow.claim := by
  cases w with
  | insertRun b q t => exact absurd rfl (hw b q t)
  | begin row key now => exact absurd rfl (hb row key now)
  | finish a input sha now =>
    simp only [perform]
    split <;> exact map_update _ _ _ _ fun _ => rfl
  | lose a mark d now => exact map_update _ _ _ _ fun _ => rfl
  | settle a d outcome now =>
    cases outcome with
    | applied => exact map_update _ _ _ _ fun _ => rfl
    | notApplied => exact map_update _ _ _ _ fun _ => rfl
    | stillUnknown => rfl
  | resume r now => simp only [perform, resumeIfNoUnknownOperations]; split <;> rfl
  | decide r g input sha ids now => simp only [perform]; split <;> rfl
  | _ => rfl

theorem attempts_ident {o : Orchestrator} {L : Ledger} {w : Write} (hg : Guard o L w)
    (hb : ∀ row key t, w ≠ .begin row key t) :
    (perform o.host L w).stepAttempts.map AttemptRow.ident =
      L.stepAttempts.map AttemptRow.ident := by
  cases w with
  | begin row key now => exact absurd rfl (hb row key now)
  | finish a input sha now =>
    simp only [perform]
    split <;> exact map_update _ _ _ _ fun _ => rfl
  | lose a mark d now => exact map_update _ _ _ _ (marked_ident hg)
  | settle a d outcome now =>
    cases outcome with
    | applied => exact map_update _ _ _ _ fun _ => rfl
    | notApplied => exact map_update _ _ _ _ fun _ => rfl
    | stillUnknown => rfl
  | resume r now => simp only [perform, resumeIfNoUnknownOperations]; split <;> rfl
  | decide r g input sha ids now => simp only [perform]; split <;> rfl
  | _ => rfl

theorem runs_ident {o : Orchestrator} {L : Ledger} {w : Write}
    (hw : ∀ b q t, w ≠ .insertRun b q t) :
    (perform o.host L w).releaseRuns.map RunRow.ident = L.releaseRuns.map RunRow.ident := by
  cases w with
  | insertRun b q t => exact absurd rfl (hw b q t)
  | log run t payload actorId now => exact map_update _ _ _ _ fun _ => rfl
  | start r now => exact map_update _ _ _ _ fun _ => rfl
  | finish a input sha now =>
    simp only [perform]
    split
    · rfl
    · exact map_update _ _ _ _ fun _ => rfl
  | begin row key now => simp only [perform, insertAttempt, afterOperation]; split <;> rfl
  | lose a mark d now => exact map_update _ _ _ _ fun _ => rfl
  | settle a d outcome now => cases outcome <;> rfl
  | resume r now =>
    simp only [perform, resumeIfNoUnknownOperations]
    split
    · rfl
    · exact map_update _ _ _ _ fun r => by split <;> rfl
  | complete run actorId now =>
    simp only [perform, Ledger.logEvent, succeedRun, Ledger.setRun]
    rw [map_update _ _ _ _ (by intro r; rfl), map_update _ _ _ _ (by intro r; rfl)]
  | decide r g input sha ids now =>
    simp only [perform]
    split
    · exact map_update _ _ _ _ fun _ => rfl
    · rfl
  | _ => rfl

theorem mem_of_map_eq {α β : Type} {f : α → β} {l l' : List α} (h : l'.map f = l.map f) {a : α}
    (ha : a ∈ l') : ∃ b ∈ l, f b = f a := by
  have hm : f a ∈ l.map f := h ▸ List.mem_map_of_mem ha
  simpa using hm

theorem map_of_map_eq {α β γ : Type} {f : α → β} {l l' : List α} (h : l'.map f = l.map f)
    (g : β → γ) : (l'.map fun a => g (f a)) = l.map fun a => g (f a) := by
  have := congrArg (List.map g) h
  simpa [List.map_map, Function.comp_def] using this

/-- The distinct keys and the references of the schema. -/
structure Keyed (h : Host) (L : Ledger) : Prop where
  runs : (L.releaseRuns.map (·.runId)).Nodup
  runDrawn : ∀ r ∈ L.releaseRuns, Drawn h L r.runId
  steps : (L.runSteps.map fun s => (s.runId, s.stepId)).Nodup
  stepRun : ∀ s ∈ L.runSteps, s.runId ∈ L.releaseRuns.map (·.runId)
  gates : (L.runHealthGates.map fun g => (g.runId, g.gateId)).Nodup
  gateRun : ∀ g ∈ L.runHealthGates, g.runId ∈ L.releaseRuns.map (·.runId)
  attempts : (L.stepAttempts.map (·.attemptId)).Nodup
  attemptDrawn : ∀ a ∈ L.stepAttempts, Drawn h L a.attemptId
  attemptStep : ∀ a ∈ L.stepAttempts, ∃ s ∈ L.runSteps, s.runId = a.runId ∧ s.stepId = a.stepId
  operationDrawn : ∀ s ∈ L.runSteps, ∀ op ∈ s.operationId, Drawn h L op
  operationOwner : ∀ s ∈ L.runSteps, ∀ t ∈ L.runSteps, ∀ op ∈ s.operationId, op ∈ t.operationId →
    s.runId = t.runId ∧ s.stepId = t.stepId
  decisionRun : ∀ d ∈ L.healthGateDecisions, d.runId ∈ L.releaseRuns.map (·.runId)
  reconciliationRun : ∀ c ∈ L.operationReconciliations, c.runId ∈ L.releaseRuns.map (·.runId)
  eventRun : ∀ e ∈ L.runEvents, e.runId ∈ L.releaseRuns.map (·.runId)
  auditRun : ∀ e ∈ L.auditLog, e.runId ∈ L.releaseRuns.map (·.runId)

theorem Drawn.mono {h : Host} {L L' : Ledger} {id : String} (hd : Drawn h L id)
    (hl : L.draws ≤ L'.draws) : Drawn h L' id := by
  obtain ⟨n, hn, rfl⟩ := hd
  exact ⟨n, by omega, rfl⟩

theorem NoCollision.mono {h : Host} {L L' : Ledger} (hn : NoCollision h L')
    (hl : L.draws ≤ L'.draws) : NoCollision h L :=
  fun m hm n hm' => hn m (by omega) n (by omega)

theorem fresh_not_drawn {h : Host} {L L' : Ledger} (hn : NoCollision h L')
    (hl : L.draws < L'.draws) : ¬Drawn h L (h.randomUUID L.draws) := by
  rintro ⟨n, hlt, he⟩
  have := hn n (by omega) L.draws hl he
  omega

/-- The rows an ordinary write adds belong to runs that exist. -/
theorem reference_mem {L : Ledger} {runId : String} {run : RunRow} (h : L.run? runId = some run) :
    runId ∈ L.releaseRuns.map (·.runId) :=
  List.mem_map.mpr ⟨run, run_mem h, run_id h⟩

theorem Keyed.find_step {h : Host} {L : Ledger} (hk : Keyed h L) {s : StepRow}
    (hs : s ∈ L.runSteps) : L.step? s.runId s.stepId = some s :=
  find_of_mem hk.steps hs (by simp) (by simp)

theorem Keyed.find_gate {h : Host} {L : Ledger} (hk : Keyed h L) {g : GateRow}
    (hg : g ∈ L.runHealthGates) : L.gate? g.runId g.gateId = some g :=
  find_of_mem hk.gates hg (by simp) (by simp)

theorem Keyed.find_run {h : Host} {L : Ledger} (hk : Keyed h L) {r : RunRow}
    (hr : r ∈ L.releaseRuns) : L.run? r.runId = some r :=
  find_of_mem hk.runs hr (by simp) (by simp)

/-- A write that adds no run, step, gate or attempt keeps every key. -/
theorem Keyed.of_ident {h : Host} {L L' : Ledger} (hk : Keyed h L) (hd : L.draws ≤ L'.draws)
    (hr : L'.releaseRuns.map RunRow.ident = L.releaseRuns.map RunRow.ident)
    (hs : L'.runSteps.map StepRow.ident = L.runSteps.map StepRow.ident)
    (hc : L'.runSteps.map StepRow.claim = L.runSteps.map StepRow.claim)
    (hg : L'.runHealthGates.map GateRow.ident = L.runHealthGates.map GateRow.ident)
    (ha : L'.stepAttempts.map AttemptRow.ident = L.stepAttempts.map AttemptRow.ident)
    (hdec : ∀ d ∈ L'.healthGateDecisions, d ∈ L.healthGateDecisions ∨
      d.runId ∈ L.releaseRuns.map (·.runId))
    (hrec : ∀ c ∈ L'.operationReconciliations, c ∈ L.operationReconciliations ∨
      c.runId ∈ L.releaseRuns.map (·.runId))
    (hev : ∀ e ∈ L'.runEvents, e ∈ L.runEvents ∨ e.runId ∈ L.releaseRuns.map (·.runId))
    (hau : ∀ e ∈ L'.auditLog, e ∈ L.auditLog ∨ e.runId ∈ L.releaseRuns.map (·.runId)) :
    Keyed h L' := by
  have hruns : L'.releaseRuns.map (·.runId) = L.releaseRuns.map (·.runId) :=
    map_of_map_eq hr (·.1)
  have hsteps : (L'.runSteps.map fun s => (s.runId, s.stepId)) =
      L.runSteps.map fun s => (s.runId, s.stepId) := map_of_map_eq hs fun i => (i.1, i.2.1)
  have hgates : (L'.runHealthGates.map fun g => (g.runId, g.gateId)) =
      L.runHealthGates.map fun g => (g.runId, g.gateId) := map_of_map_eq hg fun i => (i.1, i.2.1)
  have hattempts : L'.stepAttempts.map (·.attemptId) = L.stepAttempts.map (·.attemptId) :=
    map_of_map_eq ha (·.1)
  refine { runs := hruns ▸ hk.runs, steps := hsteps ▸ hk.steps, gates := hgates ▸ hk.gates,
           attempts := hattempts ▸ hk.attempts, runDrawn := ?_, stepRun := ?_, gateRun := ?_,
           attemptDrawn := ?_, attemptStep := ?_, operationDrawn := ?_, operationOwner := ?_,
           decisionRun := ?_, reconciliationRun := ?_, eventRun := ?_, auditRun := ?_ }
  · intro r' hr'
    obtain ⟨r, hm, he⟩ := mem_of_map_eq hr hr'
    have he : r.runId = r'.runId := congrArg (·.1) he
    exact he ▸ (hk.runDrawn r hm).mono hd
  · intro s' hs'
    obtain ⟨s, hm, he⟩ := mem_of_map_eq hs hs'
    have he : s.runId = s'.runId := congrArg (·.1) he
    exact hruns ▸ he ▸ hk.stepRun s hm
  · intro g' hg'
    obtain ⟨g, hm, he⟩ := mem_of_map_eq hg hg'
    have he : g.runId = g'.runId := congrArg (·.1) he
    exact hruns ▸ he ▸ hk.gateRun g hm
  · intro a' ha'
    obtain ⟨a, hm, he⟩ := mem_of_map_eq ha ha'
    have he : a.attemptId = a'.attemptId := congrArg (·.1) he
    exact he ▸ (hk.attemptDrawn a hm).mono hd
  · intro a' ha'
    obtain ⟨a, hm, he⟩ := mem_of_map_eq ha ha'
    have h1 : a.runId = a'.runId := congrArg (·.2.1) he
    have h2 : a.stepId = a'.stepId := congrArg (·.2.2.1) he
    obtain ⟨s, hsm, hs1, hs2⟩ := hk.attemptStep a hm
    obtain ⟨s', hsm', hse⟩ := mem_of_map_eq hs.symm hsm
    have h3 : s'.runId = s.runId := congrArg (·.1) hse
    have h4 : s'.stepId = s.stepId := congrArg (·.2.1) hse
    exact ⟨s', hsm', h3.trans (hs1.trans h1), h4.trans (hs2.trans h2)⟩
  · intro s' hs' op hop
    obtain ⟨s, hm, he⟩ := mem_of_map_eq hc hs'
    have he : s.operationId = s'.operationId := congrArg (·.2.2.2.1) he
    exact (hk.operationDrawn s hm op (he ▸ hop)).mono hd
  · intro s' hs' t' ht' op hop hot
    obtain ⟨s, hsm, hse⟩ := mem_of_map_eq hc hs'
    obtain ⟨t, htm, hte⟩ := mem_of_map_eq hc ht'
    have h1 : s.operationId = s'.operationId := congrArg (·.2.2.2.1) hse
    have h2 : t.operationId = t'.operationId := congrArg (·.2.2.2.1) hte
    have h3 : s.runId = s'.runId ∧ s.stepId = s'.stepId :=
      ⟨congrArg (·.1) hse, congrArg (·.2.1) hse⟩
    have h4 : t.runId = t'.runId ∧ t.stepId = t'.stepId :=
      ⟨congrArg (·.1) hte, congrArg (·.2.1) hte⟩
    have := hk.operationOwner s hsm t htm op (h1 ▸ hop) (h2 ▸ hot)
    exact ⟨h3.1 ▸ h4.1 ▸ this.1, h3.2 ▸ h4.2 ▸ this.2⟩
  · intro d hdm
    exact hruns ▸ (hdec d hdm).elim (hk.decisionRun d) id
  · intro c hcm
    exact hruns ▸ (hrec c hcm).elim (hk.reconciliationRun c) id
  · intro e hem
    exact hruns ▸ (hev e hem).elim (hk.eventRun e) id
  · intro e hem
    exact hruns ▸ (hau e hem).elim (hk.auditRun e) id

theorem newSteps_map {β : Type} (f : StepRow → β) (g : StepDefinition → β) (runId : String)
    (steps : List StepDefinition) (hf : ∀ i d, f (stepRow runId i d) = g d) :
    (steps.mapIdx (stepRow runId)).map f = steps.map g := by
  apply List.ext_getElem
  · simp
  · intro i _ _
    simp [hf]

theorem newSteps_mem {runId : String} {steps : List StepDefinition} {s : StepRow}
    (h : s ∈ steps.mapIdx (stepRow runId)) : ∃ i, ∃ d ∈ steps, stepRow runId i d = s := by
  obtain ⟨i, hi, rfl⟩ := List.mem_mapIdx.mp h
  exact ⟨i, steps[i], List.getElem_mem hi, rfl⟩

theorem nodup_append_keys {α : Type} {xs ys : List α} (hx : xs.Nodup) (hy : ys.Nodup)
    (h : ∀ a ∈ xs, a ∉ ys) : (xs++ys).Nodup :=
  List.nodup_append.mpr ⟨hx, hy, fun a ha _ hb he => h a ha (he ▸ hb)⟩

theorem Keyed.insertRun {h : Host} {L : Ledger} (hk : Keyed h L) {b : Blueprint}
    (hb : Wellformed b) (q : RunRequest) (now : String)
    (hn : NoCollision h (AccessStack.Release.insertRun h L b q now)) :
    Keyed h (AccessStack.Release.insertRun h L b q now) := by
  have hfresh := fresh_not_drawn hn (Nat.lt_succ_self L.draws)
  have hnew : h.randomUUID L.draws ∉ L.releaseRuns.map (·.runId) := by
    intro hm
    obtain ⟨r, hr, he⟩ := List.mem_map.mp hm
    exact hfresh (he ▸ hk.runDrawn r hr)
  have hmono : ∀ id, Drawn h L id → Drawn h (AccessStack.Release.insertRun h L b q now) id :=
    fun id hd => hd.mono (Nat.le_succ L.draws)
  have hrun : ∀ id ∈ L.releaseRuns.map (·.runId),
      id ∈ (AccessStack.Release.insertRun h L b q now).releaseRuns.map (·.runId) := by
    intro id hm
    simp only [AccessStack.Release.insertRun, List.map_append, List.mem_append]
    exact .inl hm
  have hself : h.randomUUID L.draws ∈
      (AccessStack.Release.insertRun h L b q now).releaseRuns.map (·.runId) := by
    simp [AccessStack.Release.insertRun]
  refine { runs := ?_, steps := ?_, gates := ?_, attempts := hk.attempts, runDrawn := ?_,
           stepRun := ?_, gateRun := ?_, attemptDrawn := fun a ha => hmono _ (hk.attemptDrawn a ha),
           attemptStep := ?_, operationDrawn := ?_, operationOwner := ?_,
           decisionRun := fun d hd => hrun _ (hk.decisionRun d hd),
           reconciliationRun := fun c hc => hrun _ (hk.reconciliationRun c hc),
           eventRun := fun e he => hrun _ (hk.eventRun e he),
           auditRun := fun e he => hrun _ (hk.auditRun e he) }
  · simp only [AccessStack.Release.insertRun, List.map_append]
    refine nodup_append_keys hk.runs (by simp) ?_
    rintro a ha hm
    obtain rfl : a = h.randomUUID L.draws := List.mem_singleton.mp hm
    exact hnew ha
  · intro r hr
    simp only [AccessStack.Release.insertRun, List.mem_append, List.mem_singleton] at hr
    rcases hr with hr | rfl
    · exact hmono _ (hk.runDrawn r hr)
    · exact ⟨L.draws, Nat.lt_succ_self _, rfl⟩
  · simp only [AccessStack.Release.insertRun, List.map_append]
    rw [newSteps_map _ (fun d => (h.randomUUID L.draws, d.id)) _ _ (by intro i d; rfl)]
    refine nodup_append_keys hk.steps ?_ ?_
    · refine List.Nodup.of_map Prod.snd ?_
      simpa [List.map_map, Function.comp_def] using hb.stepIds
    · rintro a ha hm
      obtain ⟨s, hs, rfl⟩ := List.mem_map.mp ha
      obtain ⟨d, _, he⟩ := List.mem_map.mp hm
      have he : h.randomUUID L.draws = s.runId := congrArg (·.1) he
      exact hnew (he ▸ hk.stepRun s hs)
  · intro s hs
    simp only [AccessStack.Release.insertRun, List.mem_append] at hs
    rcases hs with hs | hs
    · exact hrun _ (hk.stepRun s hs)
    · obtain ⟨i, d, _, rfl⟩ := newSteps_mem hs
      exact hself
  · simp only [AccessStack.Release.insertRun, List.map_append]
    refine nodup_append_keys hk.gates ?_ ?_
    · refine List.Nodup.of_map Prod.snd ?_
      simpa [List.map_map, Function.comp_def, gateRow] using hb.gateIds
    · rintro a ha hm
      obtain ⟨g, hg, rfl⟩ := List.mem_map.mp ha
      simp only [List.map_map, List.mem_map, Function.comp_apply, gateRow] at hm
      obtain ⟨d, _, he⟩ := hm
      have he : h.randomUUID L.draws = g.runId := congrArg (·.1) he
      exact hnew (he ▸ hk.gateRun g hg)
  · intro g hg
    simp only [AccessStack.Release.insertRun, List.mem_append, List.mem_map] at hg
    rcases hg with hg | ⟨d, _, rfl⟩
    · exact hrun _ (hk.gateRun g hg)
    · exact hself
  · intro a ha
    obtain ⟨s, hs, hkey⟩ := hk.attemptStep a ha
    exact ⟨s, List.mem_append_left _ hs, hkey⟩
  · intro s hs op hop
    simp only [AccessStack.Release.insertRun, List.mem_append] at hs
    rcases hs with hs | hs
    · exact hmono _ (hk.operationDrawn s hs op hop)
    · obtain ⟨i, d, _, rfl⟩ := newSteps_mem hs
      simp [stepRow] at hop
  · intro s hs t ht op hop hot
    simp only [AccessStack.Release.insertRun, List.mem_append] at hs ht
    rcases hs with hs | hs
    · rcases ht with ht | ht
      · exact hk.operationOwner s hs t ht op hop hot
      · obtain ⟨i, d, _, rfl⟩ := newSteps_mem ht
        simp [stepRow] at hot
    · obtain ⟨i, d, _, rfl⟩ := newSteps_mem hs
      simp [stepRow] at hop

@[simp] theorem afterOperation_draws (L : Ledger) (row : StepRow) :
    (afterOperation L row).draws = L.draws + (if row.operationId.isSome then 0 else 1) := by
  unfold afterOperation
  split <;> rfl

theorem begin_attempts (h : Host) (L : Ledger) (row : StepRow) (key now : String) :
    (perform h L (.begin row key now)).stepAttempts = L.stepAttempts ++ [{
      attemptId := h.randomUUID (afterOperation L row).draws, runId := row.runId
      stepId := row.stepId, attemptNumber := row.attemptCount+1
      operationId := operationOf h L row, idempotencyKey := key, status := .intentRecorded
      intentRecordedAt := now, completedAt := none, outcomeCode := none
      resultRequestSha256 := none }] := by
  simp only [perform, insertAttempt, Ledger.setStep, afterOperation]
  split <;> rfl

theorem begin_steps (h : Host) (L : Ledger) (row : StepRow) (key now : String) :
    (perform h L (.begin row key now)).runSteps =
      update (fun s => s.runId == row.runId && s.stepId == row.stepId) (fun s => { s with
        status := .inProgress, attemptCount := row.attemptCount+1
        operationId := some (operationOf h L row), idempotencyKey := some key }) L.runSteps := by
  simp only [perform, insertAttempt, Ledger.setStep, afterOperation]
  split <;> rfl

theorem begin_draws (h : Host) (L : Ledger) (row : StepRow) (key now : String) :
    (perform h L (.begin row key now)).draws = (afterOperation L row).draws+1 := rfl

/-- The operation of an attempt is the one the step has, or a fresh one. -/
theorem Keyed.operation_begin {h : Host} {L : Ledger} (hk : Keyed h L) {row : StepRow}
    (hrow : row ∈ L.runSteps) (key now : String)
    (hn : NoCollision h (perform h L (.begin row key now))) :
    Drawn h (perform h L (.begin row key now)) (operationOf h L row) ∧
      ∀ t ∈ L.runSteps, operationOf h L row ∈ t.operationId →
        t.runId = row.runId ∧ t.stepId = row.stepId := by
  cases ho : row.operationId with
  | some op =>
    have hop : operationOf h L row = op := by simp [operationOf, ho]
    rw [hop]
    refine ⟨(hk.operationDrawn row hrow op ho).mono (draws_mono h L _), ?_⟩
    intro t ht hot
    exact hk.operationOwner t ht row hrow op hot ho
  | none =>
    have hop : operationOf h L row = h.randomUUID L.draws := by simp [operationOf, ho]
    have hlt : L.draws < (perform h L (.begin row key now)).draws := by
      rw [begin_draws, afterOperation_draws]
      omega
    rw [hop]
    refine ⟨⟨L.draws, hlt, rfl⟩, ?_⟩
    intro t ht hot
    exact absurd (hk.operationDrawn t ht _ hot) (fresh_not_drawn hn hlt)

theorem Keyed.begin {h : Host} {L : Ledger} (hk : Keyed h L) {row : StepRow}
    (hrow : row ∈ L.runSteps) (key now : String)
    (hn : NoCollision h (perform h L (.begin row key now))) :
    Keyed h (perform h L (.begin row key now)) := by
  obtain ⟨hdrawn, howner⟩ := hk.operation_begin hrow key now hn
  have hmono := draws_mono h L (.begin row key now)
  have hsteps := begin_steps h L row key now
  have hrest : (perform h L (.begin row key now)).releaseRuns = L.releaseRuns ∧
      (perform h L (.begin row key now)).runHealthGates = L.runHealthGates ∧
      (perform h L (.begin row key now)).healthGateDecisions = L.healthGateDecisions ∧
      (perform h L (.begin row key now)).operationReconciliations = L.operationReconciliations ∧
      (perform h L (.begin row key now)).runEvents = L.runEvents ∧
      (perform h L (.begin row key now)).auditLog = L.auditLog := by
    simp only [perform, insertAttempt, Ledger.setStep, afterOperation]
    split <;> simp
  obtain ⟨hr, hg, hd, hc, he, ha⟩ := hrest
  have hfresh : h.randomUUID (afterOperation L row).draws ∉ L.stepAttempts.map (·.attemptId) := by
    intro hm
    obtain ⟨a, ham, hid⟩ := List.mem_map.mp hm
    have hle : L.draws ≤ (afterOperation L row).draws := by simp
    exact fresh_not_drawn hn (Nat.lt_succ_self (afterOperation L row).draws)
      (hid ▸ (hk.attemptDrawn a ham).mono hle)
  have hop : ∀ s' ∈ (perform h L (.begin row key now)).runSteps, ∃ s ∈ L.runSteps,
      s.runId = s'.runId ∧ s.stepId = s'.stepId ∧
        (s'.operationId = s.operationId ∨ (s'.operationId = some (operationOf h L row) ∧
          s.runId = row.runId ∧ s.stepId = row.stepId)) := by
    intro s' hs'
    rw [hsteps, mem_update] at hs'
    obtain ⟨s, hs, rfl⟩ := hs'
    refine ⟨s, hs, ?_⟩
    split
    · rename_i hkey
      exact ⟨rfl, rfl, .inr ⟨rfl, by simpa using hkey⟩⟩
    · exact ⟨rfl, rfl, .inl rfl⟩
  have hkeys := map_update (fun s => s.runId == row.runId && s.stepId == row.stepId)
    (fun s => { s with
      status := .inProgress, attemptCount := row.attemptCount+1
      operationId := some (operationOf h L row), idempotencyKey := some key })
    L.runSteps (fun s => (s.runId, s.stepId)) (fun _ => rfl)
  refine { runs := hr ▸ hk.runs, steps := ?_, gates := hg ▸ hk.gates, attempts := ?_,
           runDrawn := fun r hm => (hk.runDrawn r (hr ▸ hm)).mono hmono, stepRun := ?_,
           gateRun := fun g hm => hr ▸ hk.gateRun g (hg ▸ hm), attemptDrawn := ?_,
           attemptStep := ?_, operationDrawn := ?_, operationOwner := ?_,
           decisionRun := fun d hm => hr ▸ hk.decisionRun d (hd ▸ hm),
           reconciliationRun := fun c hm => hr ▸ hk.reconciliationRun c (hc ▸ hm),
           eventRun := fun e hm => hr ▸ hk.eventRun e (he ▸ hm),
           auditRun := fun e hm => hr ▸ hk.auditRun e (ha ▸ hm) }
  · rw [hsteps, hkeys]
    exact hk.steps
  · intro s' hs'
    obtain ⟨s, hs, h1, _⟩ := hop s' hs'
    rw [hr, ← h1]
    exact hk.stepRun s hs
  · rw [begin_attempts, List.map_append]
    refine nodup_append_keys hk.attempts (by simp) ?_
    rintro a hm hs
    obtain rfl : a = h.randomUUID (afterOperation L row).draws := List.mem_singleton.mp hs
    exact hfresh hm
  · intro a hm
    rw [begin_attempts, List.mem_append, List.mem_singleton] at hm
    rcases hm with hm | rfl
    · exact (hk.attemptDrawn a hm).mono hmono
    · exact ⟨_, Nat.lt_succ_self _, rfl⟩
  · intro a hm
    have hstep : ∀ s ∈ L.runSteps, ∃ s' ∈ (perform h L (.begin row key now)).runSteps,
        s'.runId = s.runId ∧ s'.stepId = s.stepId := by
      intro s hs
      have hmem : (s.runId, s.stepId) ∈
          (perform h L (.begin row key now)).runSteps.map fun s => (s.runId, s.stepId) := by
        rw [hsteps, hkeys]
        exact List.mem_map.mpr ⟨s, hs, rfl⟩
      simpa using hmem
    rw [begin_attempts, List.mem_append, List.mem_singleton] at hm
    rcases hm with hm | rfl
    · obtain ⟨s, hs, h1, h2⟩ := hk.attemptStep a hm
      obtain ⟨s', hs', h3, h4⟩ := hstep s hs
      exact ⟨s', hs', h3.trans h1, h4.trans h2⟩
    · exact hstep row hrow
  · intro s' hs' op hm
    obtain ⟨s, hs, _, _, hold | ⟨hnew, _⟩⟩ := hop s' hs'
    · exact (hk.operationDrawn s hs op (hold ▸ hm)).mono hmono
    · obtain rfl : operationOf h L row = op := by simpa [hnew] using hm
      exact hdrawn
  · intro s' hs' t' ht' op hm hm'
    obtain ⟨s, hs, h1, h2, hso⟩ := hop s' hs'
    obtain ⟨t, ht, h3, h4, hto⟩ := hop t' ht'
    rw [← h1, ← h2, ← h3, ← h4]
    rcases hso with hso | ⟨hso, hsr⟩
    · rcases hto with hto | ⟨hto, htr⟩
      · exact hk.operationOwner s hs t ht op (hso ▸ hm) (hto ▸ hm')
      · obtain rfl : operationOf h L row = op := by simpa [hto] using hm'
        obtain ⟨h5, h6⟩ := howner s hs (hso ▸ hm)
        exact ⟨h5.trans htr.1.symm, h6.trans htr.2.symm⟩
    · rcases hto with hto | ⟨hto, htr⟩
      · obtain rfl : operationOf h L row = op := by simpa [hso] using hm
        obtain ⟨h5, h6⟩ := howner t ht (hto ▸ hm')
        exact ⟨hsr.1.trans h5.symm, hsr.2.trans h6.symm⟩
      · exact ⟨hsr.1.trans htr.1.symm, hsr.2.trans htr.2.symm⟩

theorem attempt_run {h : Host} {L : Ledger} (hk : Keyed h L) {a : AttemptRow}
    (ha : a ∈ L.stepAttempts) : a.runId ∈ L.releaseRuns.map (·.runId) := by
  obtain ⟨s, hs, h1, _⟩ := hk.attemptStep a ha
  exact h1 ▸ hk.stepRun s hs

/-- The rows a write appends to the tables without updates. -/
theorem appended_runs {o : Orchestrator} {L : Ledger} {w : Write} (hk : Keyed o.host L)
    (hg : Guard o L w) :
    (∀ d ∈ (perform o.host L w).healthGateDecisions, d ∈ L.healthGateDecisions ∨
      d.runId ∈ L.releaseRuns.map (·.runId)) ∧
    (∀ c ∈ (perform o.host L w).operationReconciliations, c ∈ L.operationReconciliations ∨
      c.runId ∈ L.releaseRuns.map (·.runId)) ∧
    (∀ e ∈ (perform o.host L w).runEvents, e ∈ L.runEvents ∨
      e.runId ∈ L.releaseRuns.map (·.runId)) ∧
    ∀ e ∈ (perform o.host L w).auditLog, e ∈ L.auditLog ∨
      e.runId ∈ L.releaseRuns.map (·.runId) := by
  cases w with
  | log run t payload actorId now =>
    have hm := reference_mem hg.1
    simp only [perform, Ledger.logEvent, Ledger.setRun, List.mem_append, List.mem_singleton]
    exact ⟨fun d => .inl, fun c => .inl, fun e he => he.imp id (by rintro rfl; exact hm),
      fun e he => he.imp id (by rintro rfl; exact hm)⟩
  | complete run actorId now =>
    have hm := reference_mem hg.1
    simp only [perform, Ledger.logEvent, succeedRun, Ledger.setRun, List.mem_append,
      List.mem_singleton]
    exact ⟨fun d => .inl, fun c => .inl, fun e he => he.imp id (by rintro rfl; exact hm),
      fun e he => he.imp id (by rintro rfl; exact hm)⟩
  | note a op input sha now =>
    have hm := attempt_run hk hg.1
    simp only [perform, insertReconciliation, List.mem_append, List.mem_singleton]
    exact ⟨fun d => .inl, fun c hc => hc.imp id (by rintro rfl; exact hm), fun e => .inl,
      fun e => .inl⟩
  | decide r g input sha ids now =>
    obtain ⟨⟨run, hrun, _⟩, _⟩ := hg
    have hm := reference_mem hrun
    have hadd : ∀ d ∈ (insertDecision o.host L r g input sha ids now).healthGateDecisions,
        d ∈ L.healthGateDecisions ∨ d.runId ∈ L.releaseRuns.map (·.runId) := by
      intro d hd
      simp only [insertDecision, Ledger.setGate, List.mem_append, List.mem_singleton] at hd
      exact hd.imp id (by rintro rfl; exact hm)
    simp only [perform]
    split
    · exact ⟨hadd, fun c => .inl, fun e => .inl, fun e => .inl⟩
    · exact ⟨hadd, fun c => .inl, fun e => .inl, fun e => .inl⟩
  | finish a input sha now =>
    simp only [perform]
    split <;> exact ⟨fun d => .inl, fun c => .inl, fun e => .inl, fun e => .inl⟩
  | begin row key now =>
    simp only [perform, insertAttempt, afterOperation]
    split <;> exact ⟨fun d => .inl, fun c => .inl, fun e => .inl, fun e => .inl⟩
  | settle a d outcome now =>
    cases outcome <;> exact ⟨fun d => .inl, fun c => .inl, fun e => .inl, fun e => .inl⟩
  | resume r now =>
    simp only [perform, resumeIfNoUnknownOperations]
    split <;> exact ⟨fun d => .inl, fun c => .inl, fun e => .inl, fun e => .inl⟩
  | _ => exact ⟨fun d => .inl, fun c => .inl, fun e => .inl, fun e => .inl⟩

theorem keyed_perform {o : Orchestrator} (ho : ∀ b ∈ o.blueprints, Wellformed b) {L : Ledger}
    {w : Write} (hk : Keyed o.host L) (hg : Guard o L w)
    (hn : NoCollision o.host (perform o.host L w)) : Keyed o.host (perform o.host L w) := by
  by_cases hr : ∃ b q t, w = .insertRun b q t
  · obtain ⟨b, q, t, rfl⟩ := hr
    exact hk.insertRun (ho b hg.1) q t hn
  · by_cases hb : ∃ row key t, w = .begin row key t
    · obtain ⟨row, key, t, rfl⟩ := hb
      exact hk.begin (step_mem hg.2.1) key t hn
    · push Not at hr hb
      obtain ⟨hdec, hrec, hev, hau⟩ := appended_runs hk hg
      exact hk.of_ident (draws_mono _ _ _) (runs_ident hr) (steps_ident hr) (steps_claim hr hb)
        (gates_ident hr) (attempts_ident hg hb) hdec hrec hev hau

end AccessStack.Release
