import AccessStack.Tasks.Manager

/-!
# Terminal states of a background task

A record that ends a task is final when nothing is queued behind it. The
check `execute` makes before its last write finds a cancellation that was
queued before the check began. It does not help against a cancellation that
comes later, and the callback that reports a pid makes no check at all.
-/

set_option autoImplicit false

namespace AccessStack.Tasks

section Trails

/-- The stored record and the records behind it, in the order in which they
are stored. -/
def trail (m : Manager) : List BackgroundTaskRecord :=
  m.stored.toList ++ m.queue.map (·.2)

/-- No terminal record is stored or queued. -/
def Quiet (m : Manager) : Prop := ∀ r ∈ trail m, isActive r.state = true

def quiet (m : Manager) : Bool := (trail m).all fun r => isActive r.state

theorem quiet_iff {m : Manager} : quiet m = true ↔ Quiet m := List.all_eq_true

/-- Only the last record may be terminal. -/
def Ordered (m : Manager) : Prop := ∀ r ∈ (trail m).dropLast, isActive r.state = true

/-- The last record is a cancellation. -/
def EndsCancelled (m : Manager) : Prop :=
  ∃ r, (trail m).getLast? = some r ∧ r.state = .cancelled

theorem trail_persist (m : Manager) (w : Writer) (r : BackgroundTaskRecord) :
    trail (m.persist w r) = trail m ++ [r] := by
  simp [trail, Manager.persist]

theorem ordered_persist {m : Manager} (h : Quiet m) (w : Writer) (r : BackgroundTaskRecord) :
    Ordered (m.persist w r) := by
  intro x hx
  rw [trail_persist, List.dropLast_concat] at hx
  exact h x hx

theorem quiet_persist {m : Manager} (h : Quiet m) (w : Writer) {r : BackgroundTaskRecord}
    (hr : isActive r.state = true) : Quiet (m.persist w r) := by
  intro x hx
  rw [trail_persist] at hx
  rcases List.mem_append.mp hx with hx | hx
  · exact h x hx
  · rw [List.mem_singleton.mp hx]
    exact hr

theorem cancelled_persist (m : Manager) (w : Writer) {r : BackgroundTaskRecord}
    (hr : r.state = .cancelled) : EndsCancelled (m.persist w r) := by
  refine ⟨r, ?_, hr⟩
  rw [trail_persist, List.getLast?_concat]

attribute [local simp] drain in
theorem drain_queue {m : Manager} {w : Writer} {r : BackgroundTaskRecord}
    {rest : List (Writer × BackgroundTaskRecord)} (h : m.queue = (w, r)::rest) :
    (drain m).stored = some r ∧ (drain m).queue = rest ∧
      (drain m).execute = wakeExecute w m.execute ∧ (drain m).controller = m.controller := by
  simp [drain, h]

/-- A write that is done forgets the record before it. -/
theorem trail_drain {m : Manager} {w : Writer} {r : BackgroundTaskRecord}
    {rest : List (Writer × BackgroundTaskRecord)} (h : m.queue = (w, r)::rest) :
    trail (drain m) ≠ [] ∧ trail m = m.stored.toList ++ trail (drain m) := by
  simp [trail, drain, h]

theorem quiet_drain {m : Manager} (h : Quiet m) : Quiet (drain m) := by
  cases hq : m.queue with
  | nil => simpa [drain, hq] using h
  | cons e rest =>
    intro x hx
    apply h
    rw [(trail_drain hq).2]
    exact List.mem_append_right _ hx

theorem ordered_drain {m : Manager} (h : Ordered m) : Ordered (drain m) := by
  cases hq : m.queue with
  | nil => simpa [drain, hq] using h
  | cons e rest =>
    obtain ⟨hne, htrail⟩ := trail_drain hq
    intro x hx
    apply h
    rw [htrail, List.dropLast_append_of_ne_nil hne]
    exact List.mem_append_right _ hx

theorem cancelled_drain {m : Manager} (h : EndsCancelled m) : EndsCancelled (drain m) := by
  cases hq : m.queue with
  | nil => simpa [drain, hq] using h
  | cons e rest =>
    obtain ⟨hne, htrail⟩ := trail_drain hq
    obtain ⟨r, hlast, hr⟩ := h
    refine ⟨r, ?_, hr⟩
    rw [htrail, List.getLast?_append_of_ne_nil _ hne] at hlast
    exact hlast

end Trails

section Calm

/-- `execute` has begun its check and has not queued its last write. -/
def ExecutePhase.deciding : ExecutePhase → Bool
  | .checking _ _ | .looked _ _ | .resulting => true
  | _ => false

/-- A reader writes the task off. -/
def recovers (m : Manager) (record : BackgroundTaskRecord) (alive : Bool) : Bool :=
  isActive record.state && !m.executing && !m.controller && !(record.pid.isSome && alive)

/-- The steps that keep clear of the races: nothing is queued behind a
terminal record, and no cancellation after `execute` has begun its check. -/
def calm (m : Manager) : Event → Bool
  | .begin _ => m.start ≠ .created || quiet m
  | .pid _ => !m.execute.launched || (quiet m && isActive m.current.state)
  | .refresh n alive _ =>
    match m.readers n with
    | .looked _ record => !recovers m record alive || quiet m
    | _ => true
  | .proceed n _ =>
    match m.readers n with
    | .refreshed record => !isActive record.state || (quiet m && !m.execute.deciding)
    | _ => true
  | _ => true

def calmRun : Manager → List Event → Bool
  | _, [] => true
  | m, event::events => calm m event && calmRun (step m event) events

theorem calmRun_append (m : Manager) (events later : List Event) :
    calmRun m (events ++ later) = (calmRun m events && calmRun (run m events) later) := by
  induction events generalizing m with
  | nil => simp [calmRun, run]
  | cons event events ih =>
    simp only [List.cons_append, calmRun, ih, Bool.and_assoc]
    rfl

end Calm

section Invariant

/-- What the phase of `execute` says about the records. -/
def Guarded (m : Manager) : ExecutePhase → Prop
  | .absent | .finishing | .returning | .returned => True
  | .entering | .entered | .waiting | .sanitizing _ => Quiet m ∨ EndsCancelled m
  | .checking _ pending => Quiet m ∨ (EndsCancelled m ∧ m.queue.length ≤ pending)
  | .looked _ latest => Quiet m ∨ latest.any (·.state = .cancelled) = true
  | .resulting => Quiet m

/-- The reader has not found a record. -/
def ReaderPhase.early : ReaderPhase → Bool
  | .idle | .reading _ _ => true
  | _ => false

/-- Nothing has happened to a task that has not been created. -/
def Fresh (m : Manager) : Prop :=
  m.start = .idle → m.stored = none ∧ m.queue = [] ∧ m.execute = .absent ∧
    ∀ n, (m.readers n).early = true

structure Invariant (m : Manager) : Prop where
  ordered : Ordered m
  guarded : Guarded m m.execute
  owned : m.execute = .absent ∨ m.execute = .returned ∨ m.controller = true

theorem guarded_quiet {m : Manager} (h : Quiet m) (phase : ExecutePhase) : Guarded m phase := by
  cases phase with
  | absent | finishing | returning | returned => trivial
  | resulting => exact h
  | entering | entered | waiting | sanitizing | checking | looked => exact .inl h

theorem invariant_drain {m : Manager} (h : Invariant m) : Invariant (drain m) := by
  cases hq : m.queue with
  | nil => simpa [drain, hq] using h
  | cons e rest =>
    obtain ⟨w, r⟩ := e
    obtain ⟨_, hqueue, hexecute, hcontroller⟩ := drain_queue hq
    have hfollow : Quiet m ∨ EndsCancelled m → Quiet (drain m) ∨ EndsCancelled (drain m) :=
      Or.imp quiet_drain cancelled_drain
    have hg := h.guarded
    have ho := h.owned
    refine ⟨ordered_drain h.ordered, ?_, ?_⟩
    · rw [hexecute]
      cases hp : m.execute with
      | absent | returning | returned => trivial
      | entering =>
        rw [hp] at hg
        simp only [wakeExecute]
        split <;> exact hfollow hg
      | entered | waiting | sanitizing =>
        rw [hp] at hg
        exact hfollow hg
      | checking outcome pending =>
        rw [hp] at hg
        rcases hg with hquiet | ⟨hcancelled, hlength⟩
        · exact .inl (quiet_drain hquiet)
        · refine .inr ⟨cancelled_drain hcancelled, ?_⟩
          rw [hq, List.length_cons] at hlength
          rw [hqueue]
          omega
      | looked outcome latest =>
        rw [hp] at hg
        exact hg.imp_left quiet_drain
      | resulting =>
        rw [hp] at hg
        exact quiet_drain hg
      | finishing =>
        simp only [wakeExecute]
        split <;> trivial
    · rw [hexecute, hcontroller]
      rcases ho with hp | hp | hp
      · left
        rw [hp, wakeExecute]
        all_goals simp
      · right
        left
        rw [hp, wakeExecute]
        all_goals simp
      · exact .inr (.inr hp)

/-- A step of `execute` that queues nothing. -/
theorem invariant_phase {m : Manager} (h : Invariant m) (hbusy : m.controller = true)
    {phase : ExecutePhase} (hguarded : Guarded m phase) : Invariant { m with execute := phase } :=
  ⟨h.ordered, by cases phase <;> exact hguarded, .inr (.inr hbusy)⟩

theorem Invariant.busy {m : Manager} (h : Invariant m) (habsent : m.execute ≠ .absent)
    (hreturned : m.execute ≠ .returned) : m.controller = true := by
  rcases h.owned with hp | hp | hp
  · exact absurd hp habsent
  · exact absurd hp hreturned
  · exact hp

/-- The record is looked at when all writes that were queued have been done. -/
theorem look_guarded {m : Manager} {outcome : Outcome} (h : Guarded m (.checking outcome 0)) :
    Guarded m (.looked outcome m.stored) := by
  rcases h with hquiet | ⟨⟨r, hlast, hr⟩, hlength⟩
  · exact .inl hquiet
  · right
    have hqueue : m.queue = [] := List.length_eq_zero_iff.mp (Nat.le_zero.mp hlength)
    cases hs : m.stored with
    | none => simp [trail, hs, hqueue] at hlast
    | some x =>
      obtain rfl : x = r := by simpa [trail, hs, hqueue] using hlast
      simp [hr]

theorem invariant_decide {m : Manager} (h : Invariant m) {outcome : Outcome}
    {latest : Option BackgroundTaskRecord} (hp : m.execute = .looked outcome latest) (now : String) :
    Invariant (decideOutcome m outcome latest now) := by
  have hbusy := h.busy (by simp [hp]) (by simp [hp])
  have hg := h.guarded
  rw [hp] at hg
  unfold decideOutcome
  split
  · exact invariant_phase h hbusy trivial
  · rename_i hactive
    have hquiet : Quiet m := hg.resolve_right hactive
    cases outcome with
    | executed exitCode timedOut => exact ⟨h.ordered, hquiet, .inr (.inr hbusy)⟩
    | unexpected => exact invariant_phase h hbusy (.inl hquiet)
    | error message => exact ⟨ordered_persist hquiet _ _, trivial, .inr (.inr hbusy)⟩

attribute [local simp] step in
theorem invariant_sanitized {m : Manager} (h : Invariant m) (fault : Option String) :
    Invariant (step m (.sanitized fault)) := by
  have hg := h.guarded
  simp only [step]
  split
  · rename_i outcome hp
    have hbusy := h.busy (by simp [hp]) (by simp [hp])
    rw [hp] at hg
    exact invariant_phase h hbusy (hg.imp_right fun hc => ⟨hc, le_refl _⟩)
  · rename_i hp
    exact invariant_phase h (h.busy (by simp [hp]) (by simp [hp])) trivial
  · rename_i hp
    rw [hp] at hg
    exact invariant_phase h (h.busy (by simp [hp]) (by simp [hp])) hg
  · exact h

theorem invariant_refresh {m : Manager} (h : Invariant m) (n : ℕ) (cancels : Bool)
    (record : BackgroundTaskRecord) (alive : Bool) (now : String)
    (hcalm : (!recovers m record alive || quiet m) = true) :
    Invariant (refresh m n cancels record alive now) := by
  unfold refresh
  split
  · exact ⟨h.ordered, h.guarded, h.owned⟩
  · rename_i hfree
    simp only [Bool.or_eq_true, Bool.not_eq_true', not_or, Bool.not_eq_false, Bool.not_eq_true] at hfree
    obtain ⟨⟨⟨hactive, hexecuting⟩, hcontroller⟩, halive⟩ := hfree
    have hrecovers : recovers m record alive = true := by
      simp only [recovers, hactive, hexecuting, hcontroller, halive]
      rfl
    have hquiet : Quiet m := by
      rw [hrecovers] at hcalm
      exact quiet_iff.mp hcalm
    refine ⟨ordered_persist hquiet _ _, ?_, h.owned⟩
    rcases h.owned with hp | hp | hp
    · show Guarded _ m.execute
      rw [hp]
      trivial
    · show Guarded _ m.execute
      rw [hp]
      trivial
    · rw [hcontroller] at hp
      cases hp

theorem start_step {m : Manager} {event : Event} (h : (step m event).start = .idle) :
    m.start = .idle := by
  by_contra hne
  cases event with
  | drain =>
    cases hq : m.queue with
    | nil => simp [step, drain, hq, hne] at h
    | cons e rest =>
      simp only [step, drain, hq] at h
      split at h
      · cases h
      · exact hne h
  | decide now =>
    simp only [step, decideOutcome] at h
    repeat' split at h
    all_goals exact hne h
  | refresh n alive now =>
    simp only [step, refresh] at h
    repeat' split at h
    all_goals exact hne h
  | create | begin | launch | pid | settle | sanitized | look | resulted | leave | forget | call
  | readerLook | proceed | rejoin =>
    simp only [step] at h
    repeat' split at h
    all_goals first | exact hne h | cases h

theorem fresh_step {m : Manager} (h : Fresh m) (event : Event) : Fresh (step m event) := by
  intro hidle'
  have hidle := start_step hidle'
  obtain ⟨hstored, hqueue, hexecute, hreaders⟩ := h hidle
  have hset : ∀ (n : ℕ) (phase : ReaderPhase), phase.early = true →
      ∀ k, (Function.update m.readers n phase k).early = true := by
    intro n phase hphase k
    by_cases hk : k = n
    · simp [hk, hphase]
    · simp [hk, hreaders k]
  have hlate : ∀ n phase, m.readers n = phase → phase.early = true := fun n phase hn => hn ▸ hreaders n
  cases event with
  | create => simp [step, hidle] at hidle'
  | call n cancels =>
    simp only [step]
    split
    · exact ⟨hstored, hqueue, hexecute, hset n _ rfl⟩
    · exact ⟨hstored, hqueue, hexecute, hreaders⟩
  | readerLook n =>
    simp only [step]
    split
    · rename_i hs
      rw [hstored] at hs
      cases hs
    · exact ⟨hstored, hqueue, hexecute, hset n _ rfl⟩
    · exact ⟨hstored, hqueue, hexecute, hreaders⟩
  | refresh n alive now =>
    simp only [step]
    split
    · rename_i hn
      cases hlate n _ hn
    · exact ⟨hstored, hqueue, hexecute, hreaders⟩
  | proceed n now =>
    simp only [step]
    split
    · rename_i hn
      cases hlate n _ hn
    · exact ⟨hstored, hqueue, hexecute, hreaders⟩
  | rejoin n =>
    simp only [step]
    split
    · rename_i hn
      cases hlate n _ hn.1
    · exact ⟨hstored, hqueue, hexecute, hreaders⟩
  | drain | begin | launch | pid | settle | sanitized | look | decide | resulted | leave | forget =>
    simp [step, drain, hidle, hqueue, hexecute, hstored, hreaders, ExecutePhase.launched]

/-- A cancellation queued before the check of `execute` will be seen by it. -/
theorem invariant_cancel {m : Manager} (h : Invariant m) (hquiet : Quiet m)
    (hphase : m.execute.deciding = false) (n : ℕ) (record : BackgroundTaskRecord) (now : String) :
    Invariant ((m.persist (.cancel n) (cancelledRecord record now)).setReader n .cancelling) := by
  have hends : EndsCancelled (m.persist (.cancel n) (cancelledRecord record now)) :=
    cancelled_persist m _ rfl
  refine ⟨ordered_persist hquiet _ _, ?_, h.owned⟩
  show Guarded _ m.execute
  cases hp : m.execute with
  | absent | finishing | returning | returned => trivial
  | entering | entered | waiting | sanitizing => exact .inr hends
  | checking | looked | resulting =>
    rw [hp] at hphase
    cases hphase

theorem invariant_step {m : Manager} (h : Invariant m) (hfresh : Fresh m) (event : Event)
    (hcalm : calm m event = true) : Invariant (step m event) := by
  have hg := h.guarded
  cases event with
  | drain => exact invariant_drain h
  | sanitized fault => exact invariant_sanitized h fault
  | create =>
    simp only [step]
    split
    · rename_i hidle
      obtain ⟨hstored, hqueue, hexecute, _⟩ := hfresh hidle
      have hquiet : Quiet m := by
        intro r hr
        simp [trail, hstored, hqueue] at hr
      refine ⟨ordered_persist hquiet _ _, ?_, h.owned⟩
      show Guarded _ m.execute
      rw [hexecute]
      trivial
    · exact h
  | begin now =>
    simp only [step]
    split
    · rename_i hstart
      have hquiet : Quiet m := by simpa [calm, hstart, quiet_iff] using hcalm
      have hnext : Quiet (m.persist .running (runningRecord newTask now)) := quiet_persist hquiet _ rfl
      exact ⟨ordered_persist hquiet _ _, .inl hnext, .inr (.inr rfl)⟩
    · exact h
  | launch =>
    simp only [step]
    split
    · rename_i hp
      rw [hp] at hg
      exact invariant_phase h (h.busy (by simp [hp]) (by simp [hp])) hg
    · exact h
  | pid pid =>
    simp only [step]
    split
    · rename_i hlaunched
      obtain ⟨hquiet, hactive⟩ : Quiet m ∧ isActive m.current.state = true := by
        simpa [calm, hlaunched, quiet_iff] using hcalm
      have hnext : Quiet (m.persist .pid { m.current with pid := some pid }) :=
        quiet_persist hquiet _ hactive
      exact ⟨ordered_persist hquiet _ _, guarded_quiet hnext m.execute, h.owned⟩
    · exact h
  | settle outcome =>
    simp only [step]
    split
    · rename_i hp
      rw [hp] at hg
      exact invariant_phase h (h.busy (by simp [hp]) (by simp [hp])) hg
    · exact h
  | look =>
    simp only [step]
    split
    · rename_i outcome hp
      rw [hp] at hg
      exact invariant_phase h (h.busy (by simp [hp]) (by simp [hp])) (look_guarded hg)
    · exact h
  | decide now =>
    simp only [step]
    split
    · rename_i hp
      exact invariant_decide h hp now
    · exact h
  | resulted fault =>
    simp only [step]
    split
    · rename_i hp
      rw [hp] at hg
      exact ⟨ordered_persist hg _ _, trivial, .inr (.inr (h.busy (by simp [hp]) (by simp [hp])))⟩
    · rename_i hp
      rw [hp] at hg
      exact invariant_phase h (h.busy (by simp [hp]) (by simp [hp])) (.inl hg)
    · exact h
  | leave =>
    simp only [step]
    split
    · exact ⟨h.ordered, trivial, .inr (.inl rfl)⟩
    · exact h
  | forget =>
    simp only [step]
    split
    · exact ⟨h.ordered, h.guarded, h.owned⟩
    · exact h
  | call n cancels =>
    simp only [step]
    split
    · exact ⟨h.ordered, h.guarded, h.owned⟩
    · exact h
  | readerLook n =>
    simp only [step]
    split
    · exact ⟨h.ordered, h.guarded, h.owned⟩
    · exact ⟨h.ordered, h.guarded, h.owned⟩
    · exact h
  | refresh n alive now =>
    simp only [step]
    split
    · rename_i cancels record hp
      simp only [calm, hp] at hcalm
      exact invariant_refresh h n cancels record alive now hcalm
    · exact h
  | proceed n now =>
    simp only [step]
    split
    · rename_i record hp
      split
      · rename_i hactive
        obtain ⟨hquiet, hphase⟩ : Quiet m ∧ m.execute.deciding = false := by
          simpa [calm, hp, hactive, quiet_iff] using hcalm
        exact invariant_cancel h hquiet hphase n record now
      · exact ⟨h.ordered, h.guarded, h.owned⟩
    · exact h
  | rejoin n =>
    simp only [step]
    split
    · exact ⟨h.ordered, h.guarded, h.owned⟩
    · exact h

end Invariant

section Absorbing

/-- Nothing is queued behind a terminal record that is stored. -/
theorem terminal_queue {m : Manager} (h : Ordered m) {r : BackgroundTaskRecord}
    (hr : m.stored = some r) (hterminal : isActive r.state = false) : m.queue = [] := by
  cases hq : m.queue with
  | nil => rfl
  | cons e rest =>
    have hactive : isActive r.state = true := by
      apply h
      simp [trail, hr, hq]
    rw [hterminal] at hactive
    cases hactive

/-- Only a write that is done changes the stored record. -/
theorem step_stored {m : Manager} (event : Event) (hqueue : m.queue = []) :
    (step m event).stored = m.stored := by
  cases event with
  | drain => simp [step, drain, hqueue]
  | decide now =>
    simp only [step, decideOutcome]
    repeat' split
    all_goals rfl
  | refresh n alive now =>
    simp only [step, refresh]
    repeat' split
    all_goals rfl
  | create | begin | launch | pid | settle | sanitized | look | resulted | leave | forget | call
  | readerLook | proceed | rejoin =>
    simp only [step]
    repeat' split
    all_goals rfl

theorem invariant_run {m : Manager} (h : Invariant m) (hfresh : Fresh m) {events : List Event}
    (hcalm : calmRun m events = true) : Invariant (run m events) ∧ Fresh (run m events) := by
  induction events generalizing m with
  | nil => exact ⟨h, hfresh⟩
  | cons event events ih =>
    obtain ⟨hhead, htail⟩ := Bool.and_eq_true _ _ ▸ hcalm
    exact ih (invariant_step h hfresh event hhead) (fresh_step hfresh event) htail

theorem terminal_run {m : Manager} (h : Invariant m) (hfresh : Fresh m) {events : List Event}
    (hcalm : calmRun m events = true) {r : BackgroundTaskRecord} (hr : m.stored = some r)
    (hterminal : isActive r.state = false) : (run m events).stored = some r := by
  induction events generalizing m with
  | nil => exact hr
  | cons event events ih =>
    obtain ⟨hhead, htail⟩ := Bool.and_eq_true _ _ ▸ hcalm
    have hstep := step_stored event (terminal_queue h.ordered hr hterminal)
    exact ih (invariant_step h hfresh event hhead) (fresh_step hfresh event) htail (hstep.trans hr)

theorem invariant_initial (found : Option BackgroundTaskRecord) :
    Invariant (Manager.initial found) ∧ Fresh (Manager.initial found) := by
  refine ⟨⟨?_, trivial, .inl rfl⟩, ?_⟩
  · intro r hr
    cases found <;> simp [trail, Manager.initial] at hr
  · intro hidle
    cases found with
    | none => exact ⟨rfl, rfl, rfl, fun _ => rfl⟩
    | some r => simp [Manager.initial] at hidle

/-- In a run that keeps clear of the races a terminal record is stored for
good. -/
theorem terminal_absorbing (found : Option BackgroundTaskRecord) (events later : List Event)
    (hcalm : calmRun (Manager.initial found) (events ++ later) = true) (r : BackgroundTaskRecord)
    (hr : (run (Manager.initial found) events).stored = some r)
    (hterminal : isActive r.state = false) :
    (run (Manager.initial found) (events ++ later)).stored = some r := by
  rw [calmRun_append, Bool.and_eq_true] at hcalm
  obtain ⟨hbefore, hafter⟩ := hcalm
  obtain ⟨hinit, hfresh⟩ := invariant_initial found
  obtain ⟨h, hf⟩ := invariant_run hinit hfresh hbefore
  have hrun : run (Manager.initial found) (events ++ later) =
      run (run (Manager.initial found) events) later := List.foldl_append
  rw [hrun]
  exact terminal_run h hf hafter hr hterminal

/-- A task is started and cancelled. -/
def cancelledEvents : List Event :=
  [.create, .drain, .begin "10:00", .drain, .launch, .call 0 true, .readerLook 0,
    .refresh 0 true "10:01", .proceed 0 "10:01", .drain]

/-- The runner then fails, and `execute` sees the cancellation. -/
theorem terminal_absorbing_cancelled :
    calmRun (Manager.initial none) (cancelledEvents ++ [.settle (.error "aborted"), .sanitized none,
      .look, .decide "10:02", .leave, .forget]) = true ∧
    (run (Manager.initial none) (cancelledEvents ++ [.settle (.error "aborted"), .sanitized none,
      .look, .decide "10:02", .leave, .forget])).stored =
        some (cancelledRecord (runningRecord newTask "10:00") "10:01") :=
  ⟨by decide, terminal_absorbing none cancelledEvents _ (by decide) _ (by decide) (by decide)⟩

/-- The pid of the process is reported after the cancellation, and the task
runs again. -/
theorem cancelled_task_revived :
    (run (Manager.initial none) cancelledEvents).stored.map (·.state) = some .cancelled ∧
    (run (Manager.initial none) (cancelledEvents ++ [.pid 7, .drain])).stored.map (·.state) =
      some .running ∧
    (run (Manager.initial none) [.create, .drain, .begin "10:00", .drain, .launch, .call 0 true,
      .readerLook 0, .refresh 0 true "10:01", .settle (.executed (some 0) false), .sanitized none,
      .look, .decide "10:01", .proceed 0 "10:01", .drain, .resulted none]).stored.map (·.state) =
        some .cancelled ∧
    (run (Manager.initial none) [.create, .drain, .begin "10:00", .drain, .launch, .call 0 true,
      .readerLook 0, .refresh 0 true "10:01", .settle (.executed (some 0) false), .sanitized none,
      .look, .decide "10:01", .proceed 0 "10:01", .drain, .resulted none, .drain]).stored.map (·.state) =
        some .succeeded := by
  decide

end Absorbing

end AccessStack.Tasks
