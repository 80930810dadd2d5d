import AccessStack.Campaign.History

/-!
# The laws of a campaign

What every sequence of operations keeps, seen in the persisted records: one
task in flight, claims only of tasks that are ready, operation identifiers
that stay, and a revision that counts claims and transitions.
-/

set_option autoImplicit false

namespace AccessStack.Campaign
open AccessStack.Text AccessStack.Rows AccessStack.JsonText

variable {ledger : DelegatedCampaignLedger}

def SingleFlight (r : CampaignRecord) : Prop :=
  ∀ t ∈ r.tasks, ∀ u ∈ r.tasks, t.state = .inFlight → u.state = .inFlight → t = u

def Authorized (r : CampaignRecord) : Prop := ∀ t ∈ r.tasks, t.action ∈ r.authorizedActions

/-- The task waits, its dependencies are completed, and no other task on its
resource is uncertain or blocked. -/
structure Claimable (r : CampaignRecord) (t : CampaignTask) : Prop where
  pending : t.state = .pending
  dependencies : ∀ dep ∈ t.dependsOn, ∃ u ∈ r.tasks, u.id = dep ∧ u.state = .completed
  resource : ∀ u ∈ r.tasks, u.id ≠ t.id → u.state = .outcomeUnknown ∨ u.state = .blocked →
    u.targetResource ≠ t.targetResource

/-- The second record is the first after a claim of the task under the
operation. -/
structure Claims (r r' : CampaignRecord) (taskId operationId : String) : Prop where
  task : ∃ t ∈ r.tasks, t.id = taskId ∧ t.operationId = none ∧ Claimable r t
  tasks : r'.tasks = update (·.id == taskId) (claimTask operationId) r.tasks
  authorization : r'.authorizedActions = r.authorizedActions
  revision : r'.revision = r.revision+1

/-- The second record is the first after a claimed task has been settled. -/
structure Settles (r r' : CampaignRecord) (taskId operationId : String) (next : TransitionTarget)
    (proof : Option Json) : Prop where
  task : ∃ t ∈ r.tasks, t.id = taskId ∧ t.operationId = some operationId ∧
    (t.state = .inFlight ∨ t.state = .outcomeUnknown)
  tasks : r'.tasks = update (·.id == taskId) (settleTask next proof) r.tasks
  authorization : r'.authorizedActions = r.authorizedActions
  revision : r'.revision = r.revision+1

theorem runnable_claimable {r : CampaignRecord} {t : CampaignTask} (h : runnable r t = true) :
    Claimable r t := by
  simp only [runnable, Bool.and_eq_true, beq_iff_eq, List.all_eq_true, Option.any_eq_true,
    Bool.not_eq_true', List.any_eq_false, bne_iff_ne, Bool.or_eq_true, not_and] at h
  obtain ⟨⟨hpending, hdeps⟩, hresource⟩ := h
  refine ⟨hpending, ?_, ?_⟩
  · intro dep hdep
    obtain ⟨u, hu, hstate⟩ := hdeps dep hdep
    exact ⟨u, List.mem_of_find?_eq_some hu, by simpa using List.find?_some hu, hstate⟩
  · intro u hu hne hstate
    exact hresource u hu ⟨hne, hstate⟩

theorem sound_authorized {r : CampaignRecord} (h : Sound ledger r) : Authorized r := by
  intro t ht
  exact (h.normalized.steps t.toCampaignStep (List.mem_map_of_mem ht)).authorized

theorem stored_record {s : State} (hs : Stored ledger s) {p : String} {r : CampaignRecord}
    (h : s.files p = some r.text) : p = path ledger r.workspaceId r.campaignId ∧ Sound ledger r := by
  obtain ⟨x, ht, hp, hx⟩ := hs p r.text h
  rw [record_text_injective ht]
  exact ⟨hp, hx⟩

/-- An advance of a sound record as a claim or a settlement. -/
theorem advance_lawful {r r' : CampaignRecord} (h : Sound ledger r) (ha : Advance r r') :
    (∃ taskId operationId, Claims r r' taskId operationId) ∨
      ∃ taskId operationId next proof, Settles r r' taskId operationId next proof := by
  cases ha with
  | @claim t operationId now ht hrun hidle hid =>
    have hclaim := runnable_claimable hrun
    left
    exact ⟨t.id, operationId, ⟨t, ht, rfl, (h.unclaimed t ht).mp hclaim.pending, hclaim⟩, rfl, rfl, rfl⟩
  | @settle t next proof operationId now ht hid hstate hnext hproof =>
    right
    exact ⟨t.id, operationId, next, proof, ⟨t, ht, rfl, hid, hstate⟩, rfl, rfl, rfl⟩

section OneStep

variable {s : State} (hs : Stored ledger s)
include hs

theorem step_record (op : Op) {p : String} {r : CampaignRecord} (hr : s.files p = some r.text) :
    ∃ r', (step ledger s op).files p = some r'.text ∧ (r' = r ∨ Advance r r') := by
  have hout := perform_outcome hs (Prod.eta (perform ledger op s)).symm
  show ∃ r', (perform ledger op s).2.files p = some r'.text ∧ (r' = r ∨ Advance r r')
  generalize (perform ledger op s).1 = res, (perform ledger op s).2 = s' at hout ⊢
  cases hout with
  | rejected draws => exact ⟨r, hr, .inl rfl⟩
  | kept h => exact ⟨r, hr, .inl rfl⟩
  | created hn hp hnone =>
    refine ⟨r, ?_, .inl rfl⟩
    rw [put_other]
    · exact hr
    · rintro rfl
      rw [hr] at hnone
      cases hnone
  | @advanced x x' draws h ha =>
    by_cases he : p = path ledger op.campaign.1 op.campaign.2
    · subst he
      have hx : x = r := record_text_injective (Option.some.inj (h.file.symm.trans hr))
      subst hx
      exact ⟨x', put_self _ _ _, .inr ha⟩
    · exact ⟨r, (put_other _ _ he).trans hr, .inl rfl⟩

theorem step_rejected (op : Op) {e : String} (he : (perform ledger op s).1 = .error e) :
    (step ledger s op).files = s.files := by
  exact perform_error hs (Prod.ext he rfl)

theorem claimNext_claims {w i now taskId operationId : String} {r' : CampaignRecord} {s' : State}
    (h : claimNext ledger w i now s = (.ok (.claimed taskId operationId r'), s')) :
    ∃ r, s.files (path ledger w i) = some r.text ∧ s'.files (path ledger w i) = some r'.text ∧
      Claims r r' taskId operationId := by
  obtain ⟨r, hheld, ⟨hno, _⟩ | ⟨t, ht, hrun, _, x, hx, hclaim, rfl⟩⟩ := claimNext_ok hs h
  · cases hno
  · cases hclaim
    have hc := runnable_claimable hrun
    refine ⟨r, hheld.file, put_self _ _ _, ⟨t, ht, rfl, ?_, hc⟩, ?_, ?_, ?_⟩
    · exact (hheld.sound.unclaimed t ht).mp hc.pending
    all_goals rw [hx]; rfl

theorem transition_settles {w i taskId operationId now : String} {next : TransitionTarget}
    {proof : Option Json} {r' : CampaignRecord} {s' : State}
    (h : transition ledger w i taskId operationId next proof now s = (.ok r', s')) :
    ∃ r, s.files (path ledger w i) = some r.text ∧ s'.files (path ledger w i) = some r'.text ∧
      Settles r r' taskId operationId next proof := by
  obtain ⟨r, hheld, hok, rfl, rfl⟩ := transition_ok hs h
  obtain ⟨t, ht, hid, hop, hstate, _⟩ := checkTransition_ok hok
  exact ⟨r, hheld.file, put_self _ _ _, ⟨t, ht, hid, hop, hstate⟩, rfl, rfl, rfl⟩

end OneStep

/-- A task that has an operation keeps its step and its operation. -/
theorem advance_operation {r r' : CampaignRecord} (h : Sound ledger r) (ha : Advance r r')
    {t : CampaignTask} (ht : t ∈ r.tasks) {id : String} (hid : t.operationId = some id) :
    ∃ t' ∈ r'.tasks, t'.toCampaignStep = t.toCampaignStep ∧ t'.operationId = some id := by
  cases ha with
  | @claim u operationId now hu hrun hidle huuid =>
    refine ⟨t, mem_update.mpr ⟨t, ht, if_neg ?_⟩, rfl, hid⟩
    intro he
    have hsame := h.same_task ht hu (by simpa using he)
    have hpending := (h.unclaimed u hu).mp (runnable_claimable hrun).pending
    rw [← hsame, hid] at hpending
    cases hpending
  | @settle u next proof operationId now hu hop hstate hnext hproof =>
    refine ⟨_, mem_update.mpr ⟨t, ht, rfl⟩, ?_, ?_⟩
    · split <;> rfl
    · split <;> exact hid

theorem run_operation {s : State} (hs : Stored ledger s) (ops : List Op) {p : String}
    {r : CampaignRecord} (hr : s.files p = some r.text) {t : CampaignTask} (ht : t ∈ r.tasks)
    {id : String} (hid : t.operationId = some id) :
    ∃ r' : CampaignRecord, (run ledger s ops).files p = some r'.text ∧
      ∃ t' ∈ r'.tasks, t'.id = t.id ∧ t'.operationId = some id := by
  induction ops generalizing s r t with
  | nil => exact ⟨r, hr, t, ht, rfl, hid⟩
  | cons op ops ih =>
    obtain ⟨r1, hr1, hcase⟩ := step_record hs op hr
    have hnext : ∃ t1 ∈ r1.tasks, t1.toCampaignStep = t.toCampaignStep ∧ t1.operationId = some id := by
      rcases hcase with rfl | ha
      · exact ⟨t, ht, rfl, hid⟩
      · exact advance_operation (stored_record hs hr).2 ha ht hid
    obtain ⟨t1, ht1, hstep, hid1⟩ := hnext
    obtain ⟨r', hr', t', ht', hname', hid'⟩ := ih (stored_step hs op) hr1 ht1 hid1
    rw [hstep] at hname'
    exact ⟨r', hr', t', ht', hname', hid'⟩

/-- The laws of a campaign ledger in one state: what its records satisfy, what
any next operation does to them, and what every later history keeps. -/
structure Laws (ledger : DelegatedCampaignLedger) (s : State) : Prop where
  records : ∀ p r, s.files p = some (CampaignRecord.text r) → SingleFlight r ∧ Authorized r
  rejected : ∀ op e, (perform ledger op s).1 = .error e → (step ledger s op).files = s.files
  steps : ∀ op p r, s.files p = some (CampaignRecord.text r) → ∃ r' : CampaignRecord,
    (step ledger s op).files p = some r'.text ∧
      (r' = r ∨ (∃ taskId operationId, Claims r r' taskId operationId) ∨
        ∃ taskId operationId next proof, Settles r r' taskId operationId next proof)
  claims : ∀ w i now taskId operationId r' s',
    claimNext ledger w i now s = (.ok (.claimed taskId operationId r'), s') →
    ∃ r : CampaignRecord, s.files (path ledger w i) = some r.text ∧
      s'.files (path ledger w i) = some r'.text ∧ Claims r r' taskId operationId
  transitions : ∀ w i taskId operationId next proof now r' s',
    transition ledger w i taskId operationId next proof now s = (.ok r', s') →
    ∃ r : CampaignRecord, s.files (path ledger w i) = some r.text ∧
      s'.files (path ledger w i) = some r'.text ∧ Settles r r' taskId operationId next proof
  operations : ∀ later p r t id, s.files p = some (CampaignRecord.text r) → t ∈ r.tasks →
    t.operationId = some id → ∃ r' : CampaignRecord, (run ledger s later).files p = some r'.text ∧
      ∃ t' ∈ r'.tasks, t'.id = t.id ∧ t'.operationId = some id

/-- Every sequence of operations obeys the laws. -/
theorem campaign_laws (ledger : DelegatedCampaignLedger) (ops : List Op) :
    Laws ledger (run ledger State.empty ops) := by
  have hs : Stored ledger (run ledger State.empty ops) := stored_run stored_empty ops
  constructor
  · intro p r hr
    have hsound := (stored_record hs hr).2
    exact ⟨hsound.flights, sound_authorized hsound⟩
  · intro op e he
    exact step_rejected hs op he
  · intro op p r hr
    obtain ⟨r', hr', hcase⟩ := step_record hs op hr
    exact ⟨r', hr', hcase.imp_right fun ha => advance_lawful (stored_record hs hr).2 ha⟩
  · intro w i now taskId operationId r' s' h
    exact claimNext_claims hs h
  · intro w i taskId operationId next proof now r' s' h
    exact transition_settles hs h
  · intro later p r t id hr ht hid
    exact run_operation hs later hr ht hid

end AccessStack.Campaign
