import AccessStack.Campaign.Coordinator

/-!
# At most one execution of a task

A task is executed after the claim that gave it its operation, and a claimed
task is never claimed again. Neither the answers of the capabilities nor the
places where runs are lost matter: an execution is recorded by the claim
before it is called.
-/

set_option autoImplicit false

namespace AccessStack.Coordinator
open AccessStack.Text AccessStack.Rows AccessStack.JsonText AccessStack.Campaign

variable {ledger : DelegatedCampaignLedger} {w i : String}

def Settled (state : CampaignTaskState) : Prop :=
  state = .completed ∨ state = .failed ∨ state = .blocked

/-- The record holds the task of the call under the operation of the call,
and its dependencies are completed with a verified proof. -/
def Launched (r : CampaignRecord) (call : CampaignInvocation) : Prop :=
  ∃ t ∈ r.tasks, t.operationId = some call.operationId ∧ call = invocation r t call.operationId ∧
    ∀ dep ∈ t.dependsOn, ∃ u ∈ r.tasks, u.id = dep ∧ u.state = .completed ∧
      u.proof.any validProof = true

/-- The campaign's file records the launch. -/
def Recorded (ledger : DelegatedCampaignLedger) (w i : String) (s : State)
    (call : CampaignInvocation) : Prop :=
  ∃ r : CampaignRecord, s.files (path ledger w i) = some r.text ∧ Launched r call

section Advances

/-- A claim or a settlement leaves a task alone that has ended. -/
theorem settled_advance {r r' : CampaignRecord} (h : Sound ledger r) (ha : Advance r r')
    {t : CampaignTask} (ht : t ∈ r.tasks) (hend : Settled t.state) : t ∈ r'.tasks := by
  cases ha with
  | @claim u operationId now hu hrun hidle huuid =>
    refine mem_update.mpr ⟨t, ht, if_neg ?_⟩
    intro he
    have hsame := h.same_task ht hu (by simpa using he)
    have hpending := (runnable_claimable hrun).pending
    rw [← hsame] at hpending
    simp [hpending, Settled] at hend
  | @settle u next proof operationId now hu hop hstate hnext hproof =>
    refine mem_update.mpr ⟨t, ht, if_neg ?_⟩
    intro he
    have hsame := h.same_task ht hu (by simpa using he)
    rw [← hsame] at hstate
    rcases hstate with hs | hs <;> simp [hs, Settled] at hend

theorem invocation_step {r r' : CampaignRecord} {t t' : CampaignTask} (id : String)
    (hnames : r'.workspaceId = r.workspaceId ∧ r'.campaignId = r.campaignId)
    (hstep : t'.toCampaignStep = t.toCampaignStep) : invocation r' t' id = invocation r t id := by
  simp only [invocation, hnames.1, hnames.2, hstep]

theorem launched_advance {r r' : CampaignRecord} (h : Sound ledger r) (ha : Advance r r')
    {call : CampaignInvocation} (hcall : Launched r call) : Launched r' call := by
  obtain ⟨t, ht, hid, hrequest, hdeps⟩ := hcall
  obtain ⟨t', ht', hstep, hid'⟩ := advance_operation h ha ht hid
  refine ⟨t', ht', hid', ?_, ?_⟩
  · rw [invocation_step _ (advance_names ha) hstep]
    exact hrequest
  · intro dep hdep
    rw [hstep] at hdep
    obtain ⟨u, hu, hname, hstate, hproof⟩ := hdeps dep hdep
    exact ⟨u, settled_advance h ha hu (.inl hstate), hname, hstate, hproof⟩

end Advances

section Ledger

variable {s : State} (hs : Stored ledger s)
include hs

theorem recorded_step (op : Op) {call : CampaignInvocation} (h : Recorded ledger w i s call) :
    Recorded ledger w i (step ledger s op) call := by
  obtain ⟨r, hr, hcall⟩ := h
  obtain ⟨r', hr', rfl | ha⟩ := step_record hs op hr
  · exact ⟨r', hr', hcall⟩
  · exact ⟨r', hr', launched_advance (stored_record hs hr).2 ha hcall⟩

theorem settled_step (op : Op) {r : CampaignRecord} (hr : s.files (path ledger w i) = some r.text)
    {t : CampaignTask} (ht : t ∈ r.tasks) (hend : Settled t.state) :
    ∃ r' : CampaignRecord, (step ledger s op).files (path ledger w i) = some r'.text ∧ t ∈ r'.tasks := by
  obtain ⟨r', hr', rfl | ha⟩ := step_record hs op hr
  · exact ⟨r', hr', ht⟩
  · exact ⟨r', hr', settled_advance (stored_record hs hr).2 ha ht hend⟩

/-- A claim launches the task it takes, and nothing had launched it before. -/
theorem claim_launches {now taskId operationId : String} {campaign : CampaignRecord} {s' : State}
    (h : claimNext ledger w i now s = (.ok (.claimed taskId operationId campaign), s'))
    {task : CampaignTask} (htask : campaign.tasks.find? (·.id == taskId) = some task) :
    Recorded ledger w i s' (invocation campaign task operationId) ∧
      ∀ other, Recorded ledger w i s other → other.taskId ≠ task.id := by
  obtain ⟨r, hheld, ⟨hno, _⟩ | ⟨t, ht, hrun, hidle, r', hr', hclaim, rfl⟩⟩ := claimNext_ok hs h
  · cases hno
  cases hclaim
  have hname : task.id = t.id := by simpa using List.find?_some htask
  have hmem := List.mem_of_find?_eq_some htask
  have hready := runnable_claimable hrun
  have hcase := hmem
  rw [hr'] at hcase
  have hclaimed : task = claimTask (ledger.host.randomUUID s.draws) t := by
    rcases setTask_mem hheld.sound ht hcase with heq | ⟨_, hne⟩
    · exact heq
    · exact absurd hname hne
  constructor
  · refine ⟨campaign, put_self _ _ _, task, hmem, ?_, rfl, ?_⟩
    · rw [hclaimed]
      rfl
    · intro dep hdep
      have hdep' : dep ∈ t.dependsOn := by simpa [hclaimed, claimTask] using hdep
      obtain ⟨u, hu, hid, hstate⟩ := hready.dependencies dep hdep'
      have hadvance : Advance r campaign := by
        rw [hr']
        exact .claim ht hrun hidle (ledger.host.randomUUID_format _)
      exact ⟨u, settled_advance hheld.sound hadvance hu (.inl hstate), hid, hstate,
        hheld.sound.proven u hu hstate⟩
  · intro other hother he
    obtain ⟨x, hx, v, hv, hid, hrequest, _⟩ := hother
    obtain rfl : x = r := record_text_injective (Option.some.inj (hx.symm.trans hheld.file))
    have hv' : v.id = t.id := by
      have := congrArg CampaignInvocation.taskId hrequest
      exact this.symm.trans (he.trans hname)
    rw [hheld.sound.same_task hv ht hv', (hheld.sound.unclaimed t ht).mp hready.pending] at hid
    cases hid

end Ledger

section Awaits

theorem await_state {α : Type} (x : Campaign.Effect α) (fault : Fault) (s : State) :
    (await x fault s).2 = s ∨ (await x fault s).2 = (x s).2 := by
  cases fault with
  | none => exact .inr rfl
  | before message => exact .inl rfl
  | after message => exact .inr rfl

theorem await_ok {α : Type} {x : Campaign.Effect α} {fault : Fault} {s s' : State} {a : α}
    (h : await x fault s = (.ok a, s')) : x s = (.ok a, s') := by
  cases fault with
  | none => exact h
  | before message => cases h
  | after message => cases h

theorem requireCampaign_state (s : State) : (requireCampaign ledger w i s).2 = s := by
  show ((Campaign.get ledger w i >>= _) s).2 = s
  simp only [bind, Campaign.get]
  cases read ledger s w i with
  | error e => rfl
  | ok found => cases found <;> rfl

theorem claimNext_state (now : String) (s : State) :
    (claimNext ledger w i now s).2 = step ledger s (.claimNext w i now) := by
  show _ = ((claimNext ledger w i now >>= _) s).2
  simp only [bind]
  cases claimNext ledger w i now s with
  | mk r s' => cases r <;> rfl

/-- Leaving an await does at most one operation on the ledger. -/
theorem advance_state (ledger : DelegatedCampaignLedger) (w i : String) (e : Event) (s : State)
    (phase : Phase) :
    (advance ledger w i e s phase).2 = s ∨
      ∃ op, (advance ledger w i e s phase).2 = step ledger s op := by
  have hread : ∀ x : Except String CampaignRecord × State,
      x = await (requireCampaign ledger w i) e.fault s → x.2 = s := by
    rintro x rfl
    rcases await_state (requireCampaign ledger w i) e.fault s with h | h
    · exact h
    · rw [h, requireCampaign_state]
  cases phase with
  | idle => exact .inl rfl
  | finished result => exact .inl rfl
  | opening bindings maxSteps => exact .inl (hread _ rfl)
  | looping f => exact .inl (hread _ rfl)
  | calling f call => exact .inl rfl
  | waiting f call => exact .inl rfl
  | verifying f call output => exact .inl rfl
  | claiming f =>
    rcases await_state (claimNext ledger w i e.now) e.fault s with h | h
    · exact .inl h
    · exact .inr ⟨_, h.trans (claimNext_state _ _)⟩
  | applying f call output =>
    simp only [advance]
    cases call.task.operationId with
    | none => exact .inl rfl
    | some operationId =>
      cases observed call.task output with
      | none => exact .inl rfl
      | some move =>
        rcases await_state (transition ledger call.campaign.workspaceId call.campaign.campaignId
          call.task.id operationId move.1 move.2 e.now) e.fault s with h | h
        · exact .inl h
        · exact .inr ⟨.transition _ _ _ _ _ _ _, h⟩
  | failing f call =>
    simp only [advance]
    cases call.kind with
    | execute =>
      rcases await_state (transition ledger w i call.task.id call.operationId .outcomeUnknown none
        e.now) e.fault s with h | h
      · exact .inl h
      · exact .inr ⟨.transition _ _ _ _ _ _ _, h⟩
    | reconcile =>
      rcases await_state (transition ledger call.campaign.workspaceId call.campaign.campaignId
        call.task.id call.operationId .outcomeUnknown none e.now) e.fault s with h | h
      · exact .inl h
      · exact .inr ⟨.transition _ _ _ _ _ _ _, h⟩

end Awaits

section Phases

theorem thrownOr_executes {α : Type} {next : α → Phase} (h : ∀ a, (next a).executes = [])
    (r : Except String α) : (thrownOr next r).executes = [] := by
  cases r with
  | error e => rfl
  | ok a => exact h a

theorem caught_executes (f : Frame) (call : Call) : (caught f call).executes = [] := by
  unfold caught
  cases call.kind with
  | execute => rfl
  | reconcile =>
    simp only
    split <;> rfl

theorem caughtOr_executes {α : Type} {f : Frame} {call : Call} {next : α → Phase}
    (h : ∀ a, (next a).executes = []) (r : Except String α) :
    (caughtOr f call next r).executes = [] := by
  cases r with
  | error e => exact caught_executes f call
  | ok a => exact h a

theorem body_executes (f : Frame) (current : CampaignRecord) : (body f current).executes = [] := by
  unfold body
  split
  · rfl
  · split
    · rfl
    · split
      · split <;> rfl
      · split <;> rfl

theorem answered_executes (f : Frame) (call : Call) (output : Json) :
    (answered f call output).executes = [] := by
  unfold answered
  split
  · exact caught_executes f call
  · split <;> rfl

/-- Only a claim leads to an execution. -/
theorem advance_executes (e : Event) (s : State) (phase : Phase)
    (hphase : ∀ f, phase ≠ .claiming f) : (advance ledger w i e s phase).1.executes = [] := by
  cases phase with
  | idle => rfl
  | finished result => rfl
  | opening bindings maxSteps => exact thrownOr_executes (fun _ => rfl) _
  | looping f => exact thrownOr_executes (body_executes f) _
  | claiming f => exact absurd rfl (hphase f)
  | calling f call => rfl
  | waiting f call => exact caughtOr_executes (answered_executes f call) _
  | verifying f call output =>
    refine caughtOr_executes (fun ok => ?_) _
    split
    · rfl
    · exact caught_executes f call
  | applying f call output =>
    simp only [advance]
    split
    · exact caught_executes f call
    · rfl
    · exact caughtOr_executes (fun _ => rfl) _
  | failing f call => exact thrownOr_executes (fun _ => rfl) _

/-- What a run is about to execute after an await has been launched, and was
not before. -/
theorem advance_launches {s : State} (hs : Stored ledger s) (e : Event) (phase : Phase)
    {call : CampaignInvocation} (h : call ∈ (advance ledger w i e s phase).1.executes) :
    Recorded ledger w i (advance ledger w i e s phase).2 call ∧
      ∀ other, Recorded ledger w i s other → other.taskId ≠ call.taskId := by
  by_cases hphase : ∃ f, phase = .claiming f
  · obtain ⟨f, rfl⟩ := hphase
    simp only [advance] at h ⊢
    cases hclaim : await (claimNext ledger w i e.now) e.fault s with
    | mk r s' =>
      rw [hclaim] at h
      cases r with
      | error m => simp [thrownOr, Phase.executes] at h
      | ok claim =>
        have hok := await_ok hclaim
        cases claim with
        | noRunnableStep campaign => simp [thrownOr, claimed, Frame.result, Phase.executes] at h
        | claimed taskId operationId campaign =>
          simp only [thrownOr, claimed] at h
          split at h
          · simp [Phase.executes] at h
          · rename_i task htask
            split at h
            · simp [Phase.executes] at h
            · obtain rfl : call = invocation campaign task operationId := by
                simpa [Phase.executes, Call.request] using h
              exact claim_launches hs hok htask
  · rw [advance_executes e s phase (fun f hf => hphase ⟨f, hf⟩)] at h
    cases h

end Phases

section Histories

structure Invariant (ledger : DelegatedCampaignLedger) (w i : String) (c : Config) : Prop where
  stored : Stored ledger c.state
  once : (c.executions.map (·.taskId)).Nodup
  launched : ∀ call ∈ c.executions, Recorded ledger w i c.state call
  due : ∀ n, ∀ call ∈ (c.runs n).executes, Recorded ledger w i c.state call ∧
    ∀ done ∈ c.executions, done.taskId ≠ call.taskId
  apart : ∀ n m, n ≠ m → ∀ call ∈ (c.runs n).executes, ∀ other ∈ (c.runs m).executes,
    call.taskId ≠ other.taskId

theorem invariant_ledger {c : Config} (h : Invariant ledger w i c) (op : Op) :
    Invariant ledger w i { c with state := step ledger c.state op } := by
  refine ⟨stored_step h.stored op, h.once, ?_, ?_, h.apart⟩
  · intro call hcall
    exact recorded_step h.stored op (h.launched call hcall)
  · intro n call hcall
    exact ⟨recorded_step h.stored op (h.due n call hcall).1, (h.due n call hcall).2⟩

/-- A run that goes to another place. -/
theorem invariant_run {c : Config} (h : Invariant ledger w i c) (n : ℕ) (phase : Phase)
    (hphase : ∀ call ∈ phase.executes, Recorded ledger w i c.state call ∧
      (∀ done ∈ c.executions, done.taskId ≠ call.taskId) ∧
      ∀ m, m ≠ n → ∀ other ∈ (c.runs m).executes, other.taskId ≠ call.taskId) :
    Invariant ledger w i { c with runs := Function.update c.runs n phase } := by
  refine ⟨h.stored, h.once, h.launched, ?_, ?_⟩
  · intro m call hcall
    by_cases hm : m = n
    · subst hm
      have hnew := hphase call (by simpa using hcall)
      exact ⟨hnew.1, hnew.2.1⟩
    · exact h.due m call (by simpa [hm] using hcall)
  · intro m k hne call hcall other hother
    by_cases hm : m = n
    · subst hm
      have hk : k ≠ m := Ne.symm hne
      have hnew := hphase call (by simpa using hcall)
      exact (hnew.2.2 k hk other (by simpa [hk] using hother)).symm
    · by_cases hk : k = n
      · subst hk
        have hnew := hphase other (by simpa using hother)
        exact hnew.2.2 m hm call (by simpa [hm] using hcall)
      · exact h.apart m k hne call (by simpa [hm] using hcall) other (by simpa [hk] using hother)

/-- A run that goes to a place where it executes nothing. -/
theorem invariant_quiet {c : Config} (h : Invariant ledger w i c) (n : ℕ) {phase : Phase}
    (hquiet : phase.executes = []) :
    Invariant ledger w i { c with runs := Function.update c.runs n phase } := by
  apply invariant_run h n phase
  intro call hcall
  rw [hquiet] at hcall
  cases hcall

/-- A run that makes the call it was about to make. -/
theorem invariant_executed {c : Config} (h : Invariant ledger w i c) (n : ℕ) (phase : Phase)
    (hquiet : phase.executes = []) :
    Invariant ledger w i { c with
      runs := Function.update c.runs n phase
      executions := c.executions ++ (c.runs n).executes } := by
  have hq := invariant_quiet h n hquiet
  have hlen : (c.runs n).executes = [] ∨ ∃ call, (c.runs n).executes = [call] := by
    cases c.runs n <;> simp only [Phase.executes, true_or]
    split <;> simp
  rcases hlen with hnone | ⟨call, hone⟩
  · simpa [hnone] using hq
  have hdue := h.due n call (by simp [hone])
  refine ⟨h.stored, ?_, ?_, ?_, hq.apart⟩
  · simp only [hone, List.map_append, List.map_cons, List.map_nil]
    refine List.nodup_append.mpr ⟨h.once, by simp, ?_⟩
    intro a ha b hb
    obtain ⟨done, hdone, rfl⟩ := List.mem_map.mp ha
    obtain rfl : b = call.taskId := by simpa using hb
    exact hdue.2 done hdone
  · intro x hx
    rcases List.mem_append.mp hx with hx | hx
    · exact h.launched x hx
    · exact (h.due n x hx).1
  · intro m x hx
    refine ⟨(hq.due m x hx).1, ?_⟩
    intro done hdone
    rcases List.mem_append.mp hdone with hdone | hdone
    · exact (hq.due m x hx).2 done hdone
    · have hm : m ≠ n := by
        rintro rfl
        simp [hquiet] at hx
      exact h.apart n m (Ne.symm hm) done hdone x (by simpa [hm] using hx)

theorem invariant_advance {c : Config} (h : Invariant ledger w i c) (n : ℕ) (e : Event) :
    Invariant ledger w i (act ledger w i c (.advance n e)) := by
  have hstate : Invariant ledger w i { c with state := (advance ledger w i e c.state (c.runs n)).2 } := by
    rcases advance_state ledger w i e c.state (c.runs n) with hs | ⟨op, hs⟩
    · rw [hs]
      exact h
    · rw [hs]
      exact invariant_ledger h op
  have hcalled := invariant_executed hstate n .idle rfl
  have hnext := invariant_run hcalled n (advance ledger w i e c.state (c.runs n)).1 ?_
  · simpa [act] using hnext
  · intro call hcall
    obtain ⟨hrecorded, hfresh⟩ := advance_launches h.stored e (c.runs n) hcall
    refine ⟨hrecorded, ?_, ?_⟩
    · intro done hdone
      apply hfresh done
      rcases List.mem_append.mp hdone with hdone | hdone
      · exact h.launched done hdone
      · exact (h.due n done hdone).1
    · intro m hm other hother
      have hother' : other ∈ (c.runs m).executes := by simpa [hm] using hother
      exact hfresh other (h.due m other hother').1

theorem invariant_act {c : Config} (h : Invariant ledger w i c) (action : Action) :
    Invariant ledger w i (act ledger w i c action) := by
  cases action with
  | advance n e => exact invariant_advance h n e
  | crash n => exact invariant_quiet h n rfl
  | ledger op => exact invariant_ledger h op
  | start n bindings maxSteps =>
    simp only [act]
    split
    · exact invariant_quiet h n rfl
    · exact h

theorem invariant_history {c : Config} (h : Invariant ledger w i c) (actions : List Action) :
    Invariant ledger w i (history ledger w i c actions) := by
  induction actions generalizing c with
  | nil => exact h
  | cons action actions ih => exact ih (invariant_act h action)

theorem invariant_initial {s : State} (hs : Stored ledger s) :
    Invariant ledger w i (Config.initial s) := by
  refine ⟨hs, List.nodup_nil, ?_, ?_, ?_⟩
  · intro call hcall
    cases hcall
  · intro n call hcall
    cases hcall
  · intro n m _ call hcall
    cases hcall

theorem act_state (ledger : DelegatedCampaignLedger) (w i : String) (c : Config) (action : Action) :
    (act ledger w i c action).state = c.state ∨
      ∃ op, (act ledger w i c action).state = step ledger c.state op := by
  cases action with
  | advance n e => exact advance_state ledger w i e c.state (c.runs n)
  | crash n => exact .inl rfl
  | ledger op => exact .inr ⟨op, rfl⟩
  | start n bindings maxSteps =>
    left
    simp only [act]
    split <;> rfl

theorem settled_history {c : Config} (h : Invariant ledger w i c) (actions : List Action)
    {r : CampaignRecord} (hr : c.state.files (path ledger w i) = some r.text)
    {t : CampaignTask} (ht : t ∈ r.tasks) (hend : Settled t.state) :
    ∃ r' : CampaignRecord,
      (history ledger w i c actions).state.files (path ledger w i) = some r'.text ∧ t ∈ r'.tasks := by
  induction actions generalizing c r with
  | nil => exact ⟨r, hr, ht⟩
  | cons action actions ih =>
    have hnext : ∃ r' : CampaignRecord,
        (act ledger w i c action).state.files (path ledger w i) = some r'.text ∧ t ∈ r'.tasks := by
      rcases act_state ledger w i c action with hs | ⟨op, hs⟩
      · rw [hs]
        exact ⟨r, hr, ht⟩
      · rw [hs]
        exact settled_step h.stored op hr ht hend
    obtain ⟨r', hr', ht'⟩ := hnext
    exact ih (invariant_act h action) hr' ht'

end Histories

/-- What holds wherever the runs of a campaign have come to: no task has been
executed twice, every execution was recorded by its claim with its
dependencies done, and a task that has ended is found unchanged ever after. -/
structure Dispatched (ledger : DelegatedCampaignLedger) (w i : String) (c : Config) : Prop where
  once : (c.executions.map (·.taskId)).Nodup
  launched : ∀ call ∈ c.executions, Recorded ledger w i c.state call
  ended : ∀ later r t, c.state.files (path ledger w i) = some (CampaignRecord.text r) → t ∈ r.tasks →
    Settled t.state → ∃ r' : CampaignRecord,
      (history ledger w i c later).state.files (path ledger w i) = some r'.text ∧ t ∈ r'.tasks ∧
        (r'.tasks.map (·.id)).Nodup

/-- Every history of runs of a campaign, from any state of the ledger. -/
theorem execute_once (ledger : DelegatedCampaignLedger) (w i : String) (ops : List Op)
    (actions : List Action) :
    Dispatched ledger w i
      (history ledger w i (Config.initial (run ledger State.empty ops)) actions) := by
  have hstored : Stored ledger (run ledger State.empty ops) := stored_run stored_empty ops
  have hstart : Invariant ledger w i (Config.initial (run ledger State.empty ops)) :=
    invariant_initial hstored
  have h := invariant_history hstart actions
  refine ⟨h.once, h.launched, ?_⟩
  intro later r t hr ht hend
  obtain ⟨r', hr', ht'⟩ := settled_history h later hr ht hend
  have hsound := (stored_record (invariant_history h later).stored hr').2
  exact ⟨r', hr', ht', hsound.ids⟩

end AccessStack.Coordinator
