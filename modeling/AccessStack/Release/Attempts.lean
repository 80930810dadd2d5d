import AccessStack.Release.Reachable

/-!
# Attempts of a step

The steps and the attempts are separate tables, and five operations update
both. In every reachable ledger the attempts of a step are its whole record:
numbered from one, all for the operation of the step, all but the last proven
not applied, and the last one in the state of the step.
-/

set_option autoImplicit false

namespace AccessStack.Release
open AccessStack.Rows

/-- The status of a step whose latest attempt has the given status. -/
def stepStatusOf : Option AttemptStatus → StepStatus
  | none => .pending
  | some .resolvedNotApplied => .pending
  | some .intentRecorded => .inProgress
  | some .outcomeUnknown => .outcomeUnknown
  | some .failed => .failed
  | some .succeeded => .succeeded

structure Tracks (s : StepRow) (attempts : List AttemptRow) : Prop where
  numbers : attempts.map (·.attemptNumber) = List.range' 1 s.attemptCount
  identity : ∀ a ∈ attempts, s.operationId = some a.operationId ∧
    s.idempotencyKey = some a.idempotencyKey
  resolved : ∀ a ∈ attempts.dropLast, a.status = .resolvedNotApplied
  latest : s.status = stepStatusOf (attempts.getLast?.map (·.status))
  unclaimed : attempts = [] → s.operationId = none ∧ s.idempotencyKey = none

def ofStep (s : StepRow) (a : AttemptRow) : Bool := a.runId == s.runId && a.stepId == s.stepId

def Tracked (steps : List StepRow) (attempts : List AttemptRow) : Prop :=
  ∀ s ∈ steps, Tracks s (attempts.filter (ofStep s))

/-- An attempt that is not resolved is the last one. -/
theorem Tracks.open_last {s : StepRow} {attempts : List AttemptRow} (h : Tracks s attempts)
    {a : AttemptRow} (ha : a ∈ attempts) (hs : a.status ≠ .resolvedNotApplied) :
    attempts = attempts.dropLast ++ [a] ∧ s.status = stepStatusOf (some a.status) := by
  have hne : attempts ≠ [] := List.ne_nil_of_mem ha
  have hsplit := List.dropLast_append_getLast hne
  have hlast : attempts.getLast hne = a := by
    rw [← hsplit, List.mem_append, List.mem_singleton] at ha
    exact ha.elim (fun hm => absurd (h.resolved a hm) hs) Eq.symm
  rw [hlast] at hsplit
  refine ⟨hsplit.symm, ?_⟩
  rw [h.latest, List.getLast?_eq_some_getLast hne, hlast]
  rfl

theorem Tracks.pending_resolved {s : StepRow} {attempts : List AttemptRow} (h : Tracks s attempts)
    (hs : s.status = .pending) : ∀ a ∈ attempts, a.status = .resolvedNotApplied := by
  intro a ha
  by_contra hne
  have hst := (h.open_last ha hne).2
  rw [hs] at hst
  cases hc : a.status with
  | resolvedNotApplied => exact hne hc
  | intentRecorded => simp [hc, stepStatusOf] at hst
  | outcomeUnknown => simp [hc, stepStatusOf] at hst
  | failed => simp [hc, stepStatusOf] at hst
  | succeeded => simp [hc, stepStatusOf] at hst

/-- The last attempt is rewritten with its step. -/
theorem Tracks.rewrite {s s' : StepRow} {attempts : List AttemptRow} (h : Tracks s attempts)
    {a : AttemptRow} (ha : a ∈ attempts) (hs : a.status ≠ .resolvedNotApplied)
    (hn : (attempts.map (·.attemptId)).Nodup) {f : AttemptRow → AttemptRow}
    (hf : ∀ b, (f b).ident = b.ident) (hc : s'.claim = s.claim)
    (hst : s'.status = stepStatusOf (some (f a).status)) :
    Tracks s' (update (·.attemptId == a.attemptId) f attempts) := by
  obtain ⟨hsplit, _⟩ := h.open_last ha hs
  have hupdate : update (·.attemptId == a.attemptId) f attempts = attempts.dropLast ++ [f a] := by
    rw [hsplit, List.map_append, List.nodup_append] at hn
    have hinit : update (·.attemptId == a.attemptId) f attempts.dropLast = attempts.dropLast := by
      refine update_of_none f fun b hb => ?_
      simpa using hn.2.2 b.attemptId (List.mem_map_of_mem hb) a.attemptId (by simp)
    conv_lhs => rw [hsplit]
    rw [update, List.map_append]
    change update _ f attempts.dropLast ++ _ = _
    simp [hinit]
  have hcount : s'.attemptCount = s.attemptCount := congrArg (·.2.2.1) hc
  have hop : s'.operationId = s.operationId := congrArg (·.2.2.2.1) hc
  have hkey : s'.idempotencyKey = s.idempotencyKey := congrArg (·.2.2.2.2) hc
  constructor
  · rw [map_update _ _ _ _ (fun b => congrArg (·.2.2.2.1) (hf b)), hcount, h.numbers]
  · intro b hb
    obtain ⟨c, hm, rfl⟩ := mem_update.mp hb
    have hid : ∀ d : AttemptRow, (f d).operationId = d.operationId ∧
        (f d).idempotencyKey = d.idempotencyKey :=
      fun d => ⟨congrArg (·.2.2.2.2.1) (hf d), congrArg (·.2.2.2.2.2) (hf d)⟩
    rw [hop, hkey]
    split
    · rw [(hid c).1, (hid c).2]
      exact h.identity c hm
    · exact h.identity c hm
  · rw [hupdate, List.dropLast_concat]
    exact h.resolved
  · rw [hupdate, hst]
    simp
  · intro hnil
    simp [hupdate] at hnil

theorem Tracks.extend {s s' : StepRow} {attempts : List AttemptRow} (h : Tracks s attempts)
    {a : AttemptRow} (hp : s.status = .pending) (ha : a.status = .intentRecorded)
    (hnum : a.attemptNumber = s.attemptCount+1) (hcount : s'.attemptCount = s.attemptCount+1)
    (hst : s'.status = .inProgress) (hop : s'.operationId = some a.operationId)
    (hkey : s'.idempotencyKey = some a.idempotencyKey)
    (hold : s.operationId.isSome → s.operationId = some a.operationId ∧
      s.idempotencyKey = some a.idempotencyKey) :
    Tracks s' (attempts++[a]) := by
  constructor
  · rw [List.map_append, h.numbers, hcount, List.range'_concat, List.map_singleton, hnum]
    simp [Nat.add_comm]
  · intro b hb
    rw [List.mem_append, List.mem_singleton] at hb
    rcases hb with hb | rfl
    · obtain ⟨h1, h2⟩ := h.identity b hb
      obtain ⟨h3, h4⟩ := hold (by simp [h1])
      rw [hop, hkey, ← h3, ← h4]
      exact ⟨h1, h2⟩
    · exact ⟨hop, hkey⟩
  · rw [List.dropLast_concat]
    exact h.pending_resolved hp
  · simp [hst, ha, stepStatusOf]
  · simp

section Preservation
variable {h : Host} {L : Ledger}

/-- Rewriting one open attempt together with the step it belongs to. -/
theorem tracked_rewrite (hk : Keyed h L) (ht : Tracked L.runSteps L.stepAttempts)
    {a : AttemptRow} (ha : a ∈ L.stepAttempts) (hs : a.status ≠ .resolvedNotApplied)
    {f : AttemptRow → AttemptRow} (hf : ∀ b, (f b).ident = b.ident) {g : StepRow → StepRow}
    (hg : ∀ s, (g s).claim = s.claim) (hst : ∀ s, (g s).status = stepStatusOf (some (f a).status)) :
    Tracked (update (fun s => s.runId == a.runId && s.stepId == a.stepId) g L.runSteps)
      (update (·.attemptId == a.attemptId) f L.stepAttempts) := by
  intro s' hs'
  obtain ⟨s, hsm, rfl⟩ := mem_update.mp hs'
  have hkey : ∀ t : StepRow, (g t).runId = t.runId ∧ (g t).stepId = t.stepId :=
    fun t => ⟨congrArg (·.1) (hg t), congrArg (·.2.1) (hg t)⟩
  have hsel : ofStep (if s.runId == a.runId && s.stepId == a.stepId then g s else s) = ofStep s := by
    funext b
    split <;> simp [ofStep, hkey]
  have hcommute : ∀ b, ofStep s (f b) = ofStep s b := by
    intro b
    have h1 : (f b).runId = b.runId := congrArg (·.2.1) (hf b)
    have h2 : (f b).stepId = b.stepId := congrArg (·.2.2.1) (hf b)
    simp [ofStep, h1, h2]
  rw [hsel, filter_update _ _ _ _ hcommute]
  split
  · rename_i hmatch
    simp only [Bool.and_eq_true, beq_iff_eq] at hmatch
    refine (ht s hsm).rewrite (List.mem_filter.mpr ⟨ha, ?_⟩) hs ?_ hf (hg s) (hst s)
    · simp [ofStep, hmatch]
    · exact (List.filter_sublist.map _).nodup hk.attempts
  · rename_i hmatch
    rw [update_of_none f]
    · exact ht s hsm
    · intro b hb
      obtain ⟨hb, hof⟩ := List.mem_filter.mp hb
      simp only [beq_eq_false_iff_ne]
      intro hid
      have hba : b = a := List.inj_on_of_nodup_map hk.attempts hb ha hid
      subst hba
      simp only [ofStep, Bool.and_eq_true, beq_iff_eq] at hof
      simp [hof] at hmatch

theorem tracked_insertRun (hk : Keyed h L) (ht : Tracked L.runSteps L.stepAttempts) (b : Blueprint)
    {L' : Ledger} (hn : NoCollision h L') (hlt : L.draws < L'.draws) :
    Tracked (L.runSteps ++ b.steps.mapIdx (stepRow (h.randomUUID L.draws))) L.stepAttempts := by
  intro s hs
  rcases List.mem_append.mp hs with hs | hs
  · exact ht s hs
  · obtain ⟨i, d, _, rfl⟩ := newSteps_mem hs
    have hnone : L.stepAttempts.filter (ofStep (stepRow (h.randomUUID L.draws) i d)) = [] := by
      refine List.filter_eq_nil_iff.mpr fun a ha hof => ?_
      simp only [ofStep, stepRow, Bool.and_eq_true, beq_iff_eq] at hof
      obtain ⟨r, hr, he⟩ := List.mem_map.mp (attempt_run hk ha)
      exact fresh_not_drawn hn hlt (hof.1 ▸ he ▸ hk.runDrawn r hr)
    rw [hnone]
    constructor <;> simp [stepRow, stepStatusOf]

theorem tracked_begin (hk : Keyed h L) (ht : Tracked L.runSteps L.stepAttempts) {row : StepRow}
    {key now : String} (hrow : row ∈ L.runSteps) (hp : row.status = .pending)
    (hkey : row.operationId.isSome → row.idempotencyKey = some key) :
    Tracked (perform h L (.begin row key now)).runSteps
      (perform h L (.begin row key now)).stepAttempts := by
  rw [begin_steps, begin_attempts]
  intro s' hs'
  obtain ⟨s, hsm, rfl⟩ := mem_update.mp hs'
  split
  · rename_i hmatch
    have hsr : s = row := by
      simp only [Bool.and_eq_true, beq_iff_eq] at hmatch
      exact List.inj_on_of_nodup_map hk.steps hsm hrow (by simp [hmatch])
    subst hsr
    rw [List.filter_append]
    have hsel : ∀ (st : StepStatus) (n : ℕ) (x y : Option String),
        ofStep { s with status := st, attemptCount := n, operationId := x, idempotencyKey := y } =
          ofStep s := fun _ _ _ _ => rfl
    rw [hsel, List.filter_cons_of_pos (by simp [ofStep]), List.filter_nil]
    refine (ht s hsm).extend hp rfl rfl rfl rfl rfl rfl ?_
    intro hsome
    refine ⟨?_, hkey hsome⟩
    obtain ⟨op, hop⟩ := Option.isSome_iff_exists.mp hsome
    simp [operationOf, hop]
  · rename_i hmatch
    rw [List.filter_append, List.filter_cons_of_neg, List.filter_nil, List.append_nil]
    · exact ht s hsm
    · intro hof
      simp only [ofStep, Bool.and_eq_true, beq_iff_eq] at hof
      simp [hof] at hmatch

end Preservation

theorem tracked_perform {o : Orchestrator} {L : Ledger} {w : Write} (hL : Written o L)
    (ht : Tracked L.runSteps L.stepAttempts) (hg : Guard o L w)
    (hn : NoCollision o.host (perform o.host L w)) :
    Tracked (perform o.host L w).runSteps (perform o.host L w).stepAttempts := by
  have hk := hL.keyed
  cases w with
  | insertRun b q now => exact tracked_insertRun hk ht b hn (Nat.lt_succ_self _)
  | begin row key now => exact tracked_begin hk ht (step_mem hg.2.1) hg.2.2.1 hg.2.2.2.2.2.2
  | finish a input sha now =>
    obtain ⟨ha, hst, _⟩ := hg
    have hnew := tracked_rewrite hk ht ha (f := fun b => { b with
        status := if input.outcome = .succeeded then .succeeded else .failed
        completedAt := some now, outcomeCode := input.outcomeCode
        resultRequestSha256 := some sha })
      (g := fun s => { s with status := if input.outcome = .succeeded then .succeeded else .failed })
      (by simp [hst]) (fun _ => rfl) (fun _ => rfl) (by intro s; dsimp only; split <;> rfl)
    simp only [perform]
    split <;> exact hnew
  | lose a mark d now =>
    have hident := marked_ident hg
    obtain ⟨ha, hst, hmark, _⟩ := hg
    refine tracked_rewrite hk ht ha (by simp [hst]) hident (fun _ => rfl) ?_
    intro s
    rcases hmark with rfl | rfl
    · rfl
    · simp [markInterrupted, hst, markUnknown, stepStatusOf]
  | settle a d outcome now =>
    obtain ⟨ha, hst, _⟩ := hg
    cases outcome with
    | applied =>
      exact tracked_rewrite hk ht ha (by simp [hst]) (by intro b; rfl) (by intro s; rfl)
        (by intro s; rfl)
    | notApplied =>
      exact tracked_rewrite hk ht ha (by simp [hst]) (by intro b; rfl) (by intro s; rfl)
        (by intro s; rfl)
    | stillUnknown => exact ht
  | resume r now =>
    simp only [perform, resumeIfNoUnknownOperations]
    split <;> exact ht
  | decide r g input sha ids now =>
    simp only [perform]
    split <;> exact ht
  | _ => exact ht

theorem Written.tracked {o : Orchestrator} {L : Ledger} (h : Written o L) :
    Tracked L.runSteps L.stepAttempts := by
  induction h with
  | opened h =>
    rw [opened_ledger h]
    intro s hs
    cases hs
  | write w h hg hn ih => exact tracked_perform h ih hg hn

section Open
variable {o : Orchestrator} {L : Ledger} {a : AttemptRow} {s : StepRow}

/-- An unresolved attempt decides the status of its step. -/
theorem Written.open_step (hL : Written o L) (ha : a ∈ L.stepAttempts)
    (hst : a.status ≠ .resolvedNotApplied) (hs : s ∈ L.runSteps) (hof : ofStep s a = true) :
    s.status = stepStatusOf (some a.status) :=
  ((hL.tracked s hs).open_last (List.mem_filter.mpr ⟨ha, hof⟩) hst).2

theorem Written.attempt_step (hL : Written o L) (ha : a ∈ L.stepAttempts) :
    ∃ s ∈ L.runSteps, ofStep s a = true ∧ s.operationId = some a.operationId ∧
      s.idempotencyKey = some a.idempotencyKey := by
  obtain ⟨s, hs, h1, h2⟩ := hL.keyed.attemptStep a ha
  have hof : ofStep s a = true := by simp [ofStep, h1, h2]
  exact ⟨s, hs, hof, (hL.tracked s hs).identity a (List.mem_filter.mpr ⟨ha, hof⟩)⟩

/-- The attempts of an operation are the attempts of its step. -/
theorem Written.operation_attempts (hL : Written o L) (hs : s ∈ L.runSteps) {op : String}
    (hop : s.operationId = some op) :
    L.stepAttempts.filter (·.operationId == op) = L.stepAttempts.filter (ofStep s) := by
  refine List.filter_congr fun a ha => ?_
  obtain ⟨t, ht, hof, hta, _⟩ := hL.attempt_step ha
  rw [Bool.eq_iff_iff, beq_iff_eq]
  constructor
  · rintro rfl
    obtain ⟨h1, h2⟩ := hL.keyed.operationOwner t ht s hs a.operationId hta hop
    simpa [ofStep, h1, h2] using hof
  · intro hsa
    have := ((hL.tracked s hs).identity a (List.mem_filter.mpr ⟨ha, hsa⟩)).1
    rw [hop] at this
    exact (Option.some.inj this).symm

theorem Tracks.latest_last {attempts : List AttemptRow} (h : Tracks s attempts) :
    Ledger.latestAttempt attempts = attempts.getLast? := by
  have hsorted : (attempts.map (·.attemptNumber)).Pairwise (· < ·) := by
    rw [h.numbers]
    exact List.pairwise_lt_range'
  rcases List.eq_nil_or_concat' attempts with rfl | ⟨init, a, rfl⟩
  · rfl
  · rw [List.getLast?_concat, Ledger.latestAttempt, List.argmax_concat]
    cases hm : init.argmax (·.attemptNumber) with
    | none => rfl
    | some b =>
      rw [List.map_append, List.pairwise_append] at hsorted
      have hlt := hsorted.2.2 b.attemptNumber (List.mem_map_of_mem (List.argmax_mem hm))
        a.attemptNumber (by simp)
      simp [hlt]

/-- The latest attempt of an operation is that of its step. -/
theorem Written.latest_attempt (hL : Written o L) (hs : s ∈ L.runSteps) {op : String}
    (hop : s.operationId = some op) :
    ∃ a ∈ L.stepAttempts,
      Ledger.latestAttempt (L.stepAttempts.filter (·.operationId == op)) = some a ∧
      ofStep s a = true ∧ s.status = stepStatusOf (some a.status) := by
  have ht := hL.tracked s hs
  rw [hL.operation_attempts hs hop, ht.latest_last]
  cases hl : (L.stepAttempts.filter (ofStep s)).getLast? with
  | none =>
    have := (ht.unclaimed (List.getLast?_eq_none_iff.mp hl)).1
    rw [hop] at this
    cases this
  | some a =>
    obtain ⟨ha, hof⟩ := List.mem_filter.mp (List.mem_of_getLast? hl)
    exact ⟨a, ha, rfl, hof, by rw [ht.latest, hl]; rfl⟩

/-- A finished step is left alone by rewriting an open attempt. -/
theorem Written.frozen_rewrite (hL : Written o L) (ha : a ∈ L.stepAttempts)
    (hst : a.status = .intentRecorded ∨ a.status = .outcomeUnknown) (hs : s ∈ L.runSteps)
    (hf : s.status = .succeeded ∨ s.status = .failed) {f : AttemptRow → AttemptRow}
    (hi : ∀ b, (f b).ident = b.ident) (g : StepRow → StepRow) :
    s ∈ update (fun s => s.runId == a.runId && s.stepId == a.stepId) g L.runSteps ∧
      (update (·.attemptId == a.attemptId) f L.stepAttempts).filter (ofStep s) =
        L.stepAttempts.filter (ofStep s) := by
  have hother : ofStep s a = false := by
    by_contra hof
    have := hL.open_step ha (by rcases hst with h | h <;> simp [h]) hs (by simpa using hof)
    rcases hst with h | h <;> rcases hf with h' | h' <;> simp [h, h', stepStatusOf] at this
  constructor
  · refine mem_update.mpr ⟨s, hs, ?_⟩
    rw [if_neg]
    intro hmatch
    simp only [Bool.and_eq_true, beq_iff_eq] at hmatch
    simp [ofStep, hmatch] at hother
  · have hcommute : ∀ b, ofStep s (f b) = ofStep s b := by
      intro b
      have h1 : (f b).runId = b.runId := congrArg (·.2.1) (hi b)
      have h2 : (f b).stepId = b.stepId := congrArg (·.2.2.1) (hi b)
      simp [ofStep, h1, h2]
    rw [filter_update _ _ _ _ hcommute]
    refine update_of_none f fun b hb => ?_
    obtain ⟨hb, hof⟩ := List.mem_filter.mp hb
    simp only [beq_eq_false_iff_ne]
    intro hid
    have hba : b = a := List.inj_on_of_nodup_map hL.keyed.attempts hb ha hid
    rw [hba, hother] at hof
    cases hof

end Open

/-- What is left unchanged once a step has succeeded or failed. -/
def Frozen (s : StepRow) (L L' : Ledger) : Prop :=
  s ∈ L'.runSteps ∧ L'.stepAttempts.filter (ofStep s) = L.stepAttempts.filter (ofStep s)

theorem frozen_perform {o : Orchestrator} {L : Ledger} {w : Write} {s : StepRow}
    (hL : Written o L) (hg : Guard o L w) (hs : s ∈ L.runSteps)
    (hf : s.status = .succeeded ∨ s.status = .failed) : Frozen s L (perform o.host L w) := by
  cases w with
  | insertRun b q now => exact ⟨List.mem_append_left _ hs, rfl⟩
  | begin row key now =>
    have hne : ¬(s.runId = row.runId ∧ s.stepId = row.stepId) := by
      rintro ⟨h1, h2⟩
      have hsr : s = row := List.inj_on_of_nodup_map hL.keyed.steps hs (step_mem hg.2.1)
        (by simp [h1, h2])
      have hp := hg.2.2.1
      rcases hf with h | h <;> simp [← hsr, h] at hp
    rw [Frozen, begin_steps, begin_attempts]
    constructor
    · refine mem_update.mpr ⟨s, hs, ?_⟩
      rw [if_neg]
      simpa using hne
    · rw [List.filter_append, List.filter_cons_of_neg, List.filter_nil, List.append_nil]
      intro hof
      simp only [ofStep, Bool.and_eq_true, beq_iff_eq] at hof
      exact hne ⟨hof.1.symm, hof.2.symm⟩
  | finish a input sha now =>
    have hfrozen := hL.frozen_rewrite hg.1 (.inl hg.2.1) hs hf (f := fun b => { b with
        status := if input.outcome = .succeeded then .succeeded else .failed
        completedAt := some now, outcomeCode := input.outcomeCode
        resultRequestSha256 := some sha }) (fun _ => rfl)
      (fun s => { s with status := if input.outcome = .succeeded then .succeeded else .failed })
    simp only [perform]
    split <;> exact hfrozen
  | lose a mark d now =>
    exact hL.frozen_rewrite hg.1 (.inl hg.2.1) hs hf (marked_ident hg) _
  | settle a d outcome now =>
    cases outcome with
    | applied => exact hL.frozen_rewrite hg.1 (.inr hg.2.1) hs hf (by intro b; rfl) _
    | notApplied => exact hL.frozen_rewrite hg.1 (.inr hg.2.1) hs hf (by intro b; rfl) _
    | stillUnknown => exact ⟨hs, rfl⟩
  | resume r now =>
    simp only [perform, resumeIfNoUnknownOperations]
    split <;> exact ⟨hs, rfl⟩
  | decide r g input sha ids now =>
    simp only [perform]
    split <;> exact ⟨hs, rfl⟩
  | _ => exact ⟨hs, rfl⟩

theorem frozen_exec {o : Orchestrator} {L : Ledger} {ops : List Op} {s : StepRow}
    (hL : Reached o L) (hn : NoCollision o.host (exec o L ops)) (hs : s ∈ L.runSteps)
    (hf : s.status = .succeeded ∨ s.status = .failed) : Frozen s L (exec o L ops) := by
  refine hL.along (P := fun L' => Frozen s L L') ?_ hn ⟨hs, rfl⟩
  intro L1 w hL1 hg _ hfrozen
  have hnext := frozen_perform hL1 hg hfrozen.1 hf
  exact ⟨hnext.1, hnext.2.trans hfrozen.2⟩

/-- A new intent is issued only when every earlier attempt of the same
operation was proven not applied. -/
theorem intent_after_resolution {o : Orchestrator} {L L' : Ledger} (hL : Written o L)
    {runId stepId key actorId now : String} {intent : StepIntent}
    (h : beginStepAttempt o L runId stepId key actorId now = .ok (.intent intent, L'))
    (hn : NoCollision o.host L') {a : AttemptRow} (ha : a ∈ L.stepAttempts)
    (hop : a.operationId = intent.operationId) : a.status = .resolvedNotApplied := by
  obtain ⟨_, hr, _⟩ | ⟨row, log, _, hw, _, _, hr⟩ := beginStepAttempt_writes h
  · cases hr
  · obtain ⟨⟨hg, _⟩, hp⟩ := hw
    obtain rfl : intent = _ := BeginStepResult.intent.inj hr
    have hrow := step_mem hg.2.1
    have hn' : NoCollision o.host (perform o.host L (.begin row key now)) :=
      hn.mono (hp ▸ draws_mono _ _ _)
    have hop : a.operationId = operationOf o.host L row := hop
    obtain ⟨s, hs, hof, hsa, _⟩ := hL.attempt_step ha
    obtain ⟨h1, h2⟩ := (hL.keyed.operation_begin hrow key now hn').2 s hs (hop ▸ hsa)
    have hsr : s = row := List.inj_on_of_nodup_map hL.keyed.steps hs hrow (by simp [h1, h2])
    subst hsr
    exact (hL.tracked s hs).pending_resolved hg.2.2.1 a (List.mem_filter.mpr ⟨ha, hof⟩)

/-- The attempts of every step are its record, a second intent follows only a
proven non-application, and a finished step never changes again. -/
theorem attempts_record {o : Orchestrator} {L : Ledger} (hL : Reached o L) :
    (∀ s ∈ L.runSteps, Tracks s (attemptsOf L s.runId s.stepId)) ∧
    (∀ runId stepId key actorId now intent L',
      beginStepAttempt o L runId stepId key actorId now = .ok (.intent intent, L') →
      NoCollision o.host L' → ∀ a ∈ L.stepAttempts, a.operationId = intent.operationId →
        a.status = .resolvedNotApplied) ∧
    ∀ s ∈ L.runSteps, s.status = .succeeded ∨ s.status = .failed →
      ∀ ops, NoCollision o.host (exec o L ops) → s ∈ (exec o L ops).runSteps :=
  ⟨hL.written.tracked,
    fun _ _ _ _ _ _ _ h hn _ ha hop => intent_after_resolution hL.written h hn ha hop,
    fun _ hs hf _ hn => (frozen_exec hL hn hs hf).1⟩

/-- A first attempt is lost, proven not applied and repeated. -/
def retriedOps : List Op :=
  [.createRun sampleRequest sampleTime, .startRun (sampleId 0) "operator" sampleTime,
    .beginStepAttempt (sampleId 0) "build" "build-key" "operator" sampleTime,
    .markOutcomeUnknown (sampleId 5) "timeout" "operator" sampleTime,
    .reconcileOperation (sampleId 5) ⟨"observed", .notApplied, some [sampleEvidence], "operator"⟩
      sampleTime,
    .beginStepAttempt (sampleId 0) "build" "build-key" "operator" sampleTime]

def retriedBlueprint : Blueprint := sampleBlueprint [] [sampleStep "build" [] [] none]

def retriedLedger : Ledger :=
  exec (sampleOrchestrator retriedBlueprint) (sampleLedger retriedBlueprint) retriedOps

theorem attempts_record_retried :
    Reached (sampleOrchestrator retriedBlueprint) retriedLedger ∧
      (retriedLedger.runSteps.map (·.attemptCount) = [2]) ∧
      ∀ s ∈ retriedLedger.runSteps, Tracks s (attemptsOf retriedLedger s.runId s.stepId) := by
  have hrun : retriedLedger.draws < 16^12 ∧ retriedLedger.runSteps.map (·.attemptCount) = [2] := by
    have hL : retriedLedger = exec (sampleOrchestrator retriedBlueprint)
        (sampleCreated retriedBlueprint) retriedOps.tail := sample_created rfl rfl _
    rw [hL]
    decide +kernel
  have hreached : Reached (sampleOrchestrator retriedBlueprint) retriedLedger :=
    sample_reached (by decide +kernel) hrun.1
  exact ⟨hreached, hrun.2, (attempts_record hreached).1⟩

end AccessStack.Release
