import AccessStack.Campaign.History

/-!
# Records stay readable

A record that `create` has written is read back when the input had its
fields in the order of the reader, and a transition keeps a record readable
when the proof it stores is one the reader accepts. In a history in which
both hold, `get` returns the record of the last successful call. The
revision stays a safe integer because every claim and every transition moves
one of at most 64 tasks one step further.
-/

set_option autoImplicit false

namespace AccessStack.Campaign
open AccessStack.Text AccessStack.Rows AccessStack.JsonText

variable {ledger : DelegatedCampaignLedger}

section Revision

/-- How far a task has come. -/
def CampaignTaskState.rank : CampaignTaskState → ℕ
  | .pending => 0
  | .inFlight => 1
  | .outcomeUnknown => 2
  | .completed | .blocked | .failed => 3

def progress (r : CampaignRecord) : ℕ := (r.tasks.map fun t => t.state.rank).sum

theorem rank_le (state : CampaignTaskState) : state.rank ≤ 3 := by
  cases state <;> decide

theorem progress_le (r : CampaignRecord) : progress r ≤ r.tasks.length*3 := by
  have h := List.sum_le_card_nsmul (r.tasks.map fun t => t.state.rank) 3 (by
    intro n hn
    obtain ⟨t, _, rfl⟩ := List.mem_map.mp hn
    exact rank_le t.state)
  simpa [progress] using h

theorem progress_setTask {r : CampaignRecord} (h : Sound ledger r) {t : CampaignTask}
    (ht : t ∈ r.tasks) {f : CampaignTask → CampaignTask} (now : String)
    (hf : t.state.rank < (f t).state.rank) : progress r < progress (setTask r t.id f now) := by
  have hmap : ((setTask r t.id f now).tasks.map fun u => u.state.rank) =
      r.tasks.map fun u => (if u.id == t.id then f u else u).state.rank := by
    simp [setTask, update]
  rw [progress, progress, hmap]
  apply List.sum_lt_sum
  · intro u hu
    by_cases he : u.id = t.id
    · rw [h.same_task hu ht he]
      simpa using hf.le
    · simp [he]
  · exact ⟨t, ht, by simpa using hf⟩

theorem progress_advance {r r' : CampaignRecord} (h : Sound ledger r) (ha : Advance r r') :
    progress r < progress r' ∧ r'.revision = r.revision+1 := by
  cases ha with
  | @claim t operationId now ht hrun hidle hid =>
    refine ⟨progress_setTask h ht now ?_, rfl⟩
    have hpending : t.state = .pending := by
      simp only [runnable, Bool.and_eq_true, beq_iff_eq] at hrun
      exact hrun.1.1
    simp [hpending, claimTask, CampaignTaskState.rank]
  | @settle t next proof operationId now ht hid hstate hnext hproof =>
    refine ⟨progress_setTask h ht now ?_, rfl⟩
    rcases hstate with hs | hs
    · cases next <;> simp [hs, settleTask, TransitionTarget.state, CampaignTaskState.rank]
    · have hne := hnext hs
      cases next <;> simp_all [settleTask, TransitionTarget.state, CampaignTaskState.rank]

theorem safe_revision {r : CampaignRecord} (h : Sound ledger r) (hr : r.revision ≤ progress r) :
    isSafeInteger r.revision = true := by
  have hcount : r.tasks.length ≤ 64 := by
    simpa [CampaignRecord.definition] using h.normalized.taskCount.2
  have hle := progress_le r
  simp only [isSafeInteger, Int.natAbs_natCast, decide_eq_true_eq]
  omega

end Revision

section Readable

theorem textField_str {fields : List (String × Json)} {name text : String} {v : Json}
    (hf : field fields name = some v) (h : textField fields name = some text) : v = .str text := by
  rw [textField, hf] at h
  cases v <;> simp_all

/-- With its fields in the order of the reader, an input has the digest the
reader computes. -/
theorem canonical_input {h : Host} {input : List (String × Json)} {n : DelegatedCampaignInput}
    (hn : normalize h input = .ok n) (hkeys : input.map (·.1) = definitionFields) :
    definitionJson input n = canonicalDefinition n := by
  obtain ⟨hnorm, hid, hws⟩ := normalize_ok hn
  have hidText : textField input "campaignId" = some n.campaignId := by
    cases ht : textField input "campaignId" with
    | some id => simp [hid, ht]
    | none =>
      have huuid := hnorm.campaignId
      rw [hid, ht] at huuid
      exact absurd huuid (by decide)
  have hwsText : textField input "workspaceId" = some n.workspaceId := by
    cases ht : textField input "workspaceId" with
    | some ws => simp [hws, ht]
    | none =>
      have hpattern := hnorm.workspaceId
      rw [hws, ht] at hpattern
      exact absurd hpattern (by decide)
  rcases input with _ | ⟨⟨k1, v1⟩, _ | ⟨⟨k2, v2⟩, _ | ⟨⟨k3, v3⟩, _ | ⟨⟨k4, v4⟩, _ |
    ⟨⟨k5, v5⟩, _ | ⟨f, rest⟩⟩⟩⟩⟩⟩ <;> simp [definitionFields] at hkeys
  obtain ⟨rfl, rfl, rfl, rfl, rfl⟩ := hkeys
  have hv1 : v1 = .str n.campaignId := textField_str (by simp [field]) hidText
  have hv2 : v2 = .str n.workspaceId := textField_str (by simp [field]) hwsText
  simp [definitionJson, canonicalDefinition, hv1, hv2]

theorem readable_newRecord {input : List (String × Json)} {n : DelegatedCampaignInput}
    (hn : normalize ledger.host input = .ok n) (hkeys : input.map (·.1) = definitionFields)
    (now : String) :
    Readable ledger.host ledger.ownerScopeHash (newRecord ledger input n now) := by
  have hdef : (newRecord ledger input n now).definition = n := by
    simp [newRecord, CampaignRecord.definition, Function.comp_def]
  refine ⟨rfl, ?_, by simp [newRecord, isSafeInteger], ?_⟩
  · rw [hdef, ← canonical_input hn hkeys]
    rfl
  · intro t ht
    obtain ⟨u, _, rfl⟩ := List.mem_map.mp ht
    constructor <;> simp

theorem valid_verified {p : Json} (h : validProof p = true) : verifiedKind p = true := by
  cases p <;> simp_all [validProof, verifiedKind]

theorem taskOk_settle {t : CampaignTask} {next : TransitionTarget} {proof : Option Json}
    (h : TaskOk t) (hstate : t.state = .inFlight ∨ t.state = .outcomeUnknown)
    (hproof : next = .completed ∨ t.state = .outcomeUnknown → proof.any validProof = true)
    (hstored : ∀ p ∈ proof, verifiedKind p = true → validProof p = true) :
    TaskOk (settleTask next proof t) := by
  have hnot : t.state ≠ .pending := by
    rcases hstate with hs | hs <;> simp [hs]
  have hnext : next.state ≠ .pending := by
    cases next <;> simp [TransitionTarget.state]
  refine ⟨fun _ => h.claimed hnot, fun hs => absurd hs hnext, ?_, ?_⟩
  · intro hs
    have hdone : next = .completed := by
      cases next <;> simp [settleTask, TransitionTarget.state] at hs ⊢
    obtain ⟨p, rfl, hp⟩ := Option.any_eq_true _ _ |>.mp (hproof (.inl hdone))
    simp [settleTask, valid_verified hp]
  · intro p hp
    simp only [settleTask] at hp
    split at hp
    case isTrue hkind =>
      obtain ⟨q, rfl, hq⟩ := Option.any_eq_true _ _ |>.mp hkind
      obtain rfl : q = p := by simpa using hp
      exact hstored q (by simp) hq
    case isFalse => exact h.proof p hp

theorem readable_setTask {r : CampaignRecord} (hs : Sound ledger r)
    (h : Readable ledger.host ledger.ownerScopeHash r) {t : CampaignTask} (ht : t ∈ r.tasks)
    {f : CampaignTask → CampaignTask} {now : String}
    (hdef : ∀ u, (f u).toCampaignStep = u.toCampaignStep)
    (hrev : isSafeInteger (setTask r t.id f now).revision = true) (hok : TaskOk (f t)) :
    Readable ledger.host ledger.ownerScopeHash (setTask r t.id f now) := by
  refine ⟨h.owner, ?_, hrev, ?_⟩
  · rw [setTask_definition r t.id now hdef]
    exact h.digest
  · intro u hu
    rcases setTask_mem hs ht hu with rfl | ⟨hu, _⟩
    · exact hok
    · exact h.tasks u hu

end Readable

section Calls

theorem write_fits (ledger : DelegatedCampaignLedger) {s : State} {r : CampaignRecord}
    (hw : workspaceIdPattern r.workspaceId = true) (hi : isVersionedUuid r.campaignId = true) :
    write ledger r s = (.ok (), s.put (path ledger r.workspaceId r.campaignId) r.text) := by
  simp only [write, file, hw, hi, Bool.and_self, ensure, if_true, bind, Except.bind, pure,
    Except.pure, Effect.lift, store, State.put]

theorem create_new {s : State} {input : List (String × Json)} {n : DelegatedCampaignInput}
    (hn : normalize ledger.host input = .ok n)
    (hnone : s.files (path ledger n.workspaceId n.campaignId) = none) (now : String) :
    create ledger input now s = (.ok (newRecord ledger input n now),
      s.put (path ledger n.workspaceId n.campaignId) (newRecord ledger input n now).text) := by
  have hnormalized := (sound_newRecord hn now).normalized
  have hread : read ledger s n.workspaceId n.campaignId = .ok none := by
    have hw : workspaceIdPattern n.workspaceId = true := hnormalized.workspaceId
    have hi : isVersionedUuid n.campaignId = true := hnormalized.campaignId
    simp only [read, file, hw, hi, Bool.and_self, ensure, if_true, bind, Except.bind, pure,
      Except.pure, hnone]
  have hwrite := write_fits ledger (s := s) (r := newRecord ledger input n now)
    hnormalized.workspaceId hnormalized.campaignId
  simp only [create, bind, Effect.lift, hn, get, hread, hwrite, pure]
  rfl

theorem requireCampaign_held {s : State} {w i : String} {r : CampaignRecord}
    (hw : workspaceIdPattern w = true) (hi : isVersionedUuid i = true)
    (h : Held ledger s (path ledger w i) r) : requireCampaign ledger w i s = (.ok r, s) := by
  simp only [requireCampaign, bind, get, read_held hw hi h, pure]

/-- A campaign without a task in flight has its first runnable task claimed. -/
theorem perform_runnable {s : State} {w i : String} {r : CampaignRecord} {t : CampaignTask}
    (hw : workspaceIdPattern w = true) (hi : isVersionedUuid i = true)
    (h : Held ledger s (path ledger w i) r) (hidle : r.tasks.any (·.state == .inFlight) = false)
    (hfind : r.tasks.find? (runnable r) = some t) {r' : CampaignRecord} {now : String}
    (hr : r' = setTask r t.id (claimTask (ledger.host.randomUUID s.draws)) now) :
    perform ledger (.claimNext w i now) s =
      (.ok r', State.put { s with draws := s.draws+1 } (path ledger w i) r'.text) := by
  subst hr
  have hwrite := write_fits ledger (s := { s with draws := s.draws+1 })
    (r := setTask r t.id (claimTask (ledger.host.randomUUID s.draws)) now)
    h.sound.normalized.workspaceId h.sound.normalized.campaignId
  have hpath : path ledger w i = path ledger r.workspaceId r.campaignId := h.named
  simp only [perform, claimNext, bind, requireCampaign_held hw hi h]
  rw [if_neg (by rw [hidle]; decide)]
  simp only [hfind, randomUUID, hwrite, hpath, pure]
  rfl

/-- A transition that passes its checks is stored. -/
theorem perform_checked {s : State} {w i taskId operationId : String} {next : TransitionTarget}
    {proof : Option Json} {r : CampaignRecord} (hw : workspaceIdPattern w = true)
    (hi : isVersionedUuid i = true) (h : Held ledger s (path ledger w i) r)
    (hok : checkTransition r taskId operationId next proof = .ok ()) {r' : CampaignRecord} {now : String}
    (hr : r' = setTask r taskId (settleTask next proof) now) :
    perform ledger (.transition w i taskId operationId next proof now) s =
      (.ok r', s.put (path ledger w i) r'.text) := by
  subst hr
  have hwrite := write_fits ledger (s := s) (r := setTask r taskId (settleTask next proof) now)
    h.sound.normalized.workspaceId h.sound.normalized.campaignId
  have hpath : path ledger w i = path ledger r.workspaceId r.campaignId := h.named
  simp only [perform, transition, bind, requireCampaign_held hw hi h, Effect.lift, hok, hwrite, hpath,
    pure]
  rfl

end Calls

section Histories

/-- What keeps the records of a history readable: a campaign is created from
an input with its fields in the reader's order, and a task in flight is not
given a proof that the reader refuses. -/
def Admissible (ledger : DelegatedCampaignLedger) (s : State) : Op → Prop
  | .create input now => input.map (·.1) = definitionFields ∨
    s.files (path ledger (Op.create input now).campaign.1 (Op.create input now).campaign.2) ≠ none
  | .claimNext .. => True
  | .transition w i taskId _ next proof _ =>
    next = .completed ∨ (∀ p ∈ proof, verifiedKind p = true → validProof p = true) ∨
      ∀ r : CampaignRecord, s.files (path ledger w i) = some r.text →
        ∀ t ∈ r.tasks, t.id = taskId → t.state ≠ .inFlight

def Admitted (ledger : DelegatedCampaignLedger) : State → List Op → Prop
  | _, [] => True
  | s, op::ops => Admissible ledger s op ∧ Admitted ledger (step ledger s op) ops

/-- No two of the campaigns share a file. -/
def Separate (ledger : DelegatedCampaignLedger) (campaigns : List (String × String)) : Prop :=
  ∀ a ∈ campaigns, ∀ b ∈ campaigns, path ledger a.1 a.2 = path ledger b.1 b.2 → a = b

/-- Every file can be read, and its campaign is one of the history's. -/
def Legible (ledger : DelegatedCampaignLedger) (campaigns : List (String × String)) (s : State) :
    Prop :=
  ∀ p r, s.files p = some (CampaignRecord.text r) →
    Readable ledger.host ledger.ownerScopeHash r ∧ r.revision ≤ progress r ∧
      (r.workspaceId, r.campaignId) ∈ campaigns

def answers (ledger : DelegatedCampaignLedger) :
    State → List Op → List (Op × Except String CampaignRecord)
  | _, [] => []
  | s, op::ops => (op, (perform ledger op s).1) :: answers ledger (step ledger s op) ops

/-- The record of the last successful call about the campaign. -/
def latest (campaign : String × String) (found : Option CampaignRecord)
    (calls : List (Op × Except String CampaignRecord)) : Option CampaignRecord :=
  calls.foldl (fun found call => match call.2 with
    | .ok r => if call.1.campaign = campaign then some r else found
    | .error _ => found) found

theorem latest_last (calls : List (Op × Except String CampaignRecord)) (op : Op) (r : CampaignRecord) :
    latest op.campaign none (calls ++ [(op, .ok r)]) = some r := by
  simp [latest]

theorem legible_put {campaigns : List (String × String)} {s : State} {p : String}
    {r : CampaignRecord} (draws : ℕ) (hl : Legible ledger campaigns s)
    (hr : Readable ledger.host ledger.ownerScopeHash r) (hrev : r.revision ≤ progress r)
    (hc : (r.workspaceId, r.campaignId) ∈ campaigns) :
    Legible ledger campaigns (State.put { s with draws } p r.text) := by
  intro q x hx
  by_cases he : q = p
  · rw [he, put_self, Option.some.injEq] at hx
    rw [← record_text_injective hx]
    exact ⟨hr, hrev, hc⟩
  · rw [put_other _ _ he] at hx
    exact hl q x hx

theorem legible_advance {campaigns : List (String × String)} {s : State} {p : String}
    {r r' : CampaignRecord} (draws : ℕ) (hl : Legible ledger campaigns s) (h : Held ledger s p r)
    (ha : Advance r r') (hr : isSafeInteger r'.revision = true →
      Readable ledger.host ledger.ownerScopeHash r') :
    Legible ledger campaigns (State.put { s with draws } p r'.text) := by
  obtain ⟨_, hrev, hc⟩ := hl p r h.file
  obtain ⟨hlt, hnext⟩ := progress_advance h.sound ha
  obtain ⟨hw, hi⟩ := advance_names ha
  have hrev' : r'.revision ≤ progress r' := by omega
  refine legible_put draws hl (hr (safe_revision (sound_advance h.sound ha) hrev')) hrev' ?_
  rw [hw, hi]
  exact hc

/-- Every admissible operation keeps the files readable. -/
theorem legible_step {campaigns : List (String × String)} {s : State} {op : Op}
    (hs : Stored ledger s) (hl : Legible ledger campaigns s) (ha : Admissible ledger s op)
    (hc : op.campaign ∈ campaigns) : Legible ledger campaigns (step ledger s op) := by
  cases hp : perform ledger op s with
  | mk res s' =>
    have hstep : step ledger s op = s' := congrArg Prod.snd hp
    rw [hstep]
    cases res with
    | error e =>
      intro p r hr
      rw [perform_error hs hp] at hr
      exact hl p r hr
    | ok r =>
      cases op with
      | create input now =>
        obtain ⟨n, hn, hnames, ⟨_, rfl⟩ | ⟨hnone, rfl, rfl⟩⟩ := create_ok hs hp
        · exact hl
        · have hkeys : input.map (·.1) = definitionFields := by
            rcases ha with hkeys | hsome
            · exact hkeys
            · rw [hnames] at hsome
              exact absurd hnone hsome
          rw [hnames] at hc
          exact legible_put s.draws hl (readable_newRecord hn hkeys now) (Nat.zero_le _) hc
      | claimNext w i now =>
        obtain ⟨claim, hclaim, _⟩ := perform_claim hp
        obtain ⟨x, hheld, ⟨_, rfl⟩ | ⟨t, ht, hrun, hidle, x', rfl, _, rfl⟩⟩ := claimNext_ok hs hclaim
        · exact hl
        · refine legible_advance _ hl hheld (.claim ht hrun hidle (ledger.host.randomUUID_format _)) ?_
          intro hrev
          have hok := hheld.readable.tasks t ht
          refine readable_setTask hheld.sound hheld.readable ht (fun _ => rfl) hrev ⟨?_, ?_, ?_, ?_⟩
          · exact fun _ => ⟨_, rfl, ledger.host.randomUUID_format _⟩
          · simp [claimTask]
          · simp [claimTask]
          · exact hok.proof
      | transition w i taskId operationId next proof now =>
        obtain ⟨x, hheld, hok, rfl, rfl⟩ := transition_ok hs hp
        obtain ⟨t, ht, rfl, hid, hstate, hnext, hproof⟩ := checkTransition_ok hok
        refine legible_advance s.draws hl hheld (.settle ht hid hstate hnext hproof) ?_
        intro hrev
        refine readable_setTask hheld.sound hheld.readable ht (fun _ => rfl) hrev
          (taskOk_settle (hheld.readable.tasks t ht) hstate hproof ?_)
        intro p hpm hkind
        -- a proof that has to be evidence is checked by the transition itself
        have hchecked : next = .completed ∨ t.state = .outcomeUnknown → validProof p = true := by
          intro hneeds
          obtain ⟨q, hq, hvalid⟩ := Option.any_eq_true _ _ |>.mp (hproof hneeds)
          obtain rfl : q = p := by simpa [hq] using hpm
          exact hvalid
        rcases ha with hdone | hall | hidle
        · exact hchecked (.inl hdone)
        · exact hall p hpm hkind
        · have hnot := hidle x hheld.file t ht rfl
          exact hchecked (.inr (hstate.resolve_left hnot))

/-- The file of the campaign carries the record. -/
def Carries (ledger : DelegatedCampaignLedger) (s : State) (c : String × String)
    (r : CampaignRecord) : Prop :=
  s.files (path ledger c.1 c.2) = some r.text ∧ (r.workspaceId, r.campaignId) = c

theorem carries_held {campaigns : List (String × String)} {s : State} {c : String × String}
    {r : CampaignRecord} (hl : Legible ledger campaigns s) (hsep : Separate ledger campaigns)
    (hc : c ∈ campaigns) (h : Held ledger s (path ledger c.1 c.2) r) : Carries ledger s c r := by
  obtain ⟨_, _, hr⟩ := hl _ r h.file
  exact ⟨h.file, hsep _ hr _ hc h.named.symm⟩

/-- The answer of an operation is what the file of its campaign carries. -/
theorem carries_answer {campaigns : List (String × String)} {s s' : State} {op : Op}
    {r : CampaignRecord} (hs : Stored ledger s) (hl : Legible ledger campaigns s)
    (hsep : Separate ledger campaigns) (hc : op.campaign ∈ campaigns)
    (hp : perform ledger op s = (.ok r, s')) : Carries ledger s' op.campaign r := by
  cases op with
  | create input now =>
    obtain ⟨n, _, hnames, ⟨hheld, rfl⟩ | ⟨_, rfl, rfl⟩⟩ := create_ok hs hp
    · rw [hnames] at hc ⊢
      exact carries_held hl hsep hc hheld
    · rw [hnames]
      exact ⟨put_self _ _ _, rfl⟩
  | claimNext w i now =>
    obtain ⟨claim, hclaim, rfl⟩ := perform_claim hp
    obtain ⟨x, hheld, ⟨rfl, rfl⟩ | ⟨t, _, _, _, x', rfl, rfl, rfl⟩⟩ := claimNext_ok hs hclaim
    · exact carries_held hl hsep hc hheld
    · exact ⟨put_self _ _ _, (carries_held hl hsep hc hheld).2⟩
  | transition w i taskId operationId next proof now =>
    obtain ⟨x, hheld, _, rfl, rfl⟩ := transition_ok hs hp
    exact ⟨put_self _ _ _, (carries_held hl hsep hc hheld).2⟩

/-- An operation on another campaign leaves the file alone. -/
theorem carries_other {campaigns : List (String × String)} {s s' : State} {op : Op}
    {res : Except String CampaignRecord} {c : String × String} {r : CampaignRecord}
    (hs : Stored ledger s) (hl : Legible ledger campaigns s) (hsep : Separate ledger campaigns)
    (hop : op.campaign ∈ campaigns) (hne : op.campaign ≠ c)
    (hp : perform ledger op s = (res, s')) (h : Carries ledger s c r) : Carries ledger s' c r := by
  obtain ⟨hfile, hnames⟩ := h
  have hc : c ∈ campaigns := hnames ▸ (hl _ r hfile).2.2
  have hpath : path ledger c.1 c.2 ≠ path ledger op.campaign.1 op.campaign.2 :=
    fun he => hne (hsep _ hop _ hc he.symm)
  refine ⟨?_, hnames⟩
  cases perform_outcome hs hp with
  | rejected draws => exact hfile
  | kept h => exact hfile
  | created hn hpn hnone => exact (put_other _ _ hpath).trans hfile
  | advanced draws h ha => exact (put_other _ _ hpath).trans hfile

theorem latest_carried {campaigns : List (String × String)} {s : State} {ops : List Op}
    {found : Option CampaignRecord} {c : String × String} {r : CampaignRecord}
    (hs : Stored ledger s) (hl : Legible ledger campaigns s) (hsep : Separate ledger campaigns)
    (hops : ∀ op ∈ ops, op.campaign ∈ campaigns) (hadm : Admitted ledger s ops)
    (hfound : ∀ x ∈ found, Carries ledger s c x)
    (h : latest c found (answers ledger s ops) = some r) :
    Carries ledger (run ledger s ops) c r ∧ Legible ledger campaigns (run ledger s ops) := by
  induction ops generalizing s found with
  | nil => exact ⟨hfound r h, hl⟩
  | cons op ops ih =>
    have hop := hops op List.mem_cons_self
    cases hp : perform ledger op s with
    | mk res s' =>
      have hstep : step ledger s op = s' := congrArg Prod.snd hp
      obtain ⟨ha, hrest⟩ := hadm
      have hnext : ∀ x ∈ (match res with
          | .ok r => if op.campaign = c then some r else found
          | .error _ => found), Carries ledger s' c x := by
        cases res with
        | error e =>
          intro x hx
          rw [Carries, perform_error hs hp]
          exact hfound x hx
        | ok y =>
          intro x hx
          by_cases he : op.campaign = c
          · obtain rfl : y = x := by simpa [he] using hx
            exact he ▸ carries_answer hs hl hsep hop hp
          · simp only [he, if_false] at hx
            exact carries_other hs hl hsep hop he hp (hfound x hx)
      refine ih (s := step ledger s op) (stored_step hs op) (legible_step hs hl ha hop)
        (fun o ho => hops o (List.mem_cons_of_mem op ho)) hrest (hstep ▸ hnext) ?_
      simpa [latest, answers, hp] using h

/-- A transition that stores a proof the reader refuses makes its campaign
unreadable. -/
theorem refused_proof {s s' : State} {w i taskId operationId now : String} {next : TransitionTarget}
    {p : Json} {r : CampaignRecord} (hs : Stored ledger s)
    (h : transition ledger w i taskId operationId next (some p) now s = (.ok r, s'))
    (hkind : verifiedKind p = true) (hp : validProof p = false) (x : CampaignRecord) :
    (get ledger w i s').1 ≠ .ok (some x) := by
  intro hx
  have hs' : Stored ledger s' := stored_outcome hs (transition_outcome hs h)
  have hheld := read_some hs' hx
  obtain ⟨y, _, hok, rfl, rfl⟩ := transition_ok hs h
  obtain ⟨t, ht, hid, _⟩ := checkTransition_ok hok
  have hfile := hheld.file
  rw [put_self, Option.some.injEq] at hfile
  rw [← record_text_injective hfile] at hheld
  have hmem : settleTask next (some p) t ∈ (setTask y taskId (settleTask next (some p)) now).tasks :=
    mem_update.mpr ⟨t, ht, by simp [hid]⟩
  have hvalid := (hheld.readable.tasks _ hmem).proof p (by simp [settleTask, hkind])
  rw [hp] at hvalid
  cases hvalid

theorem held_latest (ledger : DelegatedCampaignLedger) (ops : List Op)
    (hsep : Separate ledger (ops.map Op.campaign)) (hadm : Admitted ledger State.empty ops)
    {c : String × String} {r : CampaignRecord}
    (h : latest c none (answers ledger State.empty ops) = some r) :
    Held ledger (run ledger State.empty ops) (path ledger c.1 c.2) r ∧
      c = (r.workspaceId, r.campaignId) := by
  have hempty : Legible ledger (ops.map Op.campaign) State.empty := by
    intro p r hr
    cases hr
  obtain ⟨⟨hfile, rfl⟩, hl⟩ := latest_carried stored_empty hempty hsep
    (fun op hop => List.mem_map_of_mem hop) hadm (by simp) h
  have hs : Stored ledger (run ledger State.empty ops) := stored_run stored_empty ops
  obtain ⟨x, ht, hnamed, hsound⟩ := hs _ _ hfile
  obtain rfl := record_text_injective ht
  exact ⟨⟨hfile, hnamed, hsound, (hl _ r hfile).1⟩, rfl⟩

/-- `get` returns the record of the last successful call about the campaign. -/
theorem get_latest (ledger : DelegatedCampaignLedger) (ops : List Op)
    (hsep : Separate ledger (ops.map Op.campaign)) (hadm : Admitted ledger State.empty ops)
    (c : String × String) (r : CampaignRecord)
    (h : latest c none (answers ledger State.empty ops) = some r) :
    (get ledger c.1 c.2 (run ledger State.empty ops)).1 = .ok (some r) := by
  obtain ⟨hheld, rfl⟩ := held_latest ledger ops hsep hadm h
  exact read_held hheld.sound.normalized.workspaceId hheld.sound.normalized.campaignId hheld

end Histories

section Sample

def sampleLedger : DelegatedCampaignLedger where
  host := {
    sha256 := leadingDigest
    sha256_format := leadingDigest_format
    redactSensitiveText := id
    randomUUID := countedUuid
    randomUUID_format := countedUuid_versioned }
  ownerScopeHash := leadingDigest "owner"

def sampleTask : Json :=
  .obj [("id", .str "git"), ("action", .str "inspect"), ("dependsOn", .arr []),
    ("targetResource", .str "repository"), ("expectedState", .str "clean"),
    ("argumentsDigest", .str (leadingDigest ""))]

def sampleInput : List (String × Json) :=
  [("campaignId", .str (countedUuid 7)), ("workspaceId", .str "test"), ("objective", .str "Inspect"),
    ("authorizedActions", .arr [.str "inspect"]), ("tasks", .arr [sampleTask])]

def sampleDefinition : DelegatedCampaignInput :=
  ⟨countedUuid 7, "test", "Inspect", ["inspect"],
    [⟨"git", "inspect", [], "repository", "clean", leadingDigest ""⟩]⟩

def inspectTask : CampaignTask :=
  ⟨⟨"git", "inspect", [], "repository", "clean", leadingDigest ""⟩, .pending, none, none⟩

def sampleProof : Json := .obj [("kind", .str "verified"), ("reference", .str "status")]

def createOp : Op := .create sampleInput "2026-01-01T00:00:00.000Z"

def claimOp : Op := .claimNext "test" (countedUuid 7) "2026-01-01T00:00:01.000Z"

def completeOp : Op :=
  .transition "test" (countedUuid 7) "git" (countedUuid 0) .completed (some sampleProof)
    "2026-01-01T00:00:02.000Z"

def createdRecord : CampaignRecord :=
  newRecord sampleLedger sampleInput sampleDefinition "2026-01-01T00:00:00.000Z"

def claimedRecord : CampaignRecord :=
  setTask createdRecord "git" (claimTask (countedUuid 0)) "2026-01-01T00:00:01.000Z"

def completedRecord : CampaignRecord :=
  setTask claimedRecord "git" (settleTask .completed (some sampleProof)) "2026-01-01T00:00:02.000Z"

theorem sample_normalized : normalize sampleLedger.host sampleInput = .ok sampleDefinition := by
  decide +kernel

theorem sample_created (s : State)
    (hnone : s.files (path sampleLedger sampleDefinition.workspaceId sampleDefinition.campaignId) =
      none) :
    create sampleLedger sampleInput "2026-01-01T00:00:00.000Z" s = (.ok createdRecord,
      s.put (path sampleLedger sampleDefinition.workspaceId sampleDefinition.campaignId)
        createdRecord.text) := by
  unfold createdRecord
  exact create_new sample_normalized hnone _

/-- A campaign that has been created, claimed from and completed is read back
as it is. -/
theorem get_latest_completed :
    latest ("test", countedUuid 7) none
      (answers sampleLedger State.empty [createOp, claimOp, completeOp]) = some completedRecord ∧
    (get sampleLedger "test" (countedUuid 7)
      (run sampleLedger State.empty [createOp, claimOp, completeOp])).1 = .ok (some completedRecord) := by
  have hw : workspaceIdPattern "test" = true := by decide +kernel
  have hi : isVersionedUuid (countedUuid 7) = true := countedUuid_versioned 7
  have hkeys : sampleInput.map (·.1) = definitionFields := by decide
  have hone : createOp.campaign = ("test", countedUuid 7) := by decide +kernel
  have htwo : claimOp.campaign = ("test", countedUuid 7) := rfl
  have hthree : completeOp.campaign = ("test", countedUuid 7) := rfl
  obtain ⟨s₁, hcreate, hdraws⟩ :
      ∃ s, perform sampleLedger createOp State.empty = (.ok createdRecord, s) ∧ s.draws = 0 :=
    ⟨_, sample_created State.empty rfl, rfl⟩
  have hcreated : Held sampleLedger (run sampleLedger State.empty [createOp])
      (path sampleLedger "test" (countedUuid 7)) createdRecord :=
    (held_latest sampleLedger [createOp] (by simp [Separate]) ⟨.inl hkeys, trivial⟩
      (c := ("test", countedUuid 7)) (by simp [latest, answers, hcreate, hone])).1
  rw [show run sampleLedger State.empty [createOp] = s₁ by simp [run, step, hcreate]] at hcreated
  obtain ⟨s₂, hclaim⟩ : ∃ s, perform sampleLedger claimOp s₁ = (.ok claimedRecord, s) :=
    ⟨_, perform_runnable hw hi hcreated (t := inspectTask) rfl rfl (by rw [hdraws]; rfl)⟩
  have hclaimed : Held sampleLedger (run sampleLedger State.empty [createOp, claimOp])
      (path sampleLedger "test" (countedUuid 7)) claimedRecord :=
    (held_latest sampleLedger [createOp, claimOp] (by simp [Separate, hone, htwo])
      ⟨.inl hkeys, trivial, trivial⟩ (c := ("test", countedUuid 7))
      (by simp [latest, answers, step, hcreate, hclaim, htwo])).1
  rw [show run sampleLedger State.empty [createOp, claimOp] = s₂ by
    simp [run, step, hcreate, hclaim]] at hclaimed
  obtain ⟨s₃, hcomplete⟩ : ∃ s, perform sampleLedger completeOp s₂ = (.ok completedRecord, s) :=
    ⟨_, perform_checked hw hi hclaimed (by decide +kernel) rfl⟩
  have hstep₁ : step sampleLedger State.empty createOp = s₁ := congrArg Prod.snd hcreate
  have hstep₂ : step sampleLedger s₁ claimOp = s₂ := congrArg Prod.snd hclaim
  have hlatest : latest ("test", countedUuid 7) none
      (answers sampleLedger State.empty [createOp, claimOp, completeOp]) = some completedRecord := by
    have hanswers : answers sampleLedger State.empty [createOp, claimOp, completeOp] =
        [(createOp, .ok createdRecord), (claimOp, .ok claimedRecord)] ++
          [(completeOp, .ok completedRecord)] := by
      rw [answers, answers, answers, answers, hstep₁, hstep₂, hcreate, hclaim, hcomplete]
      rfl
    rw [hanswers, ← hthree]
    exact latest_last _ _ _
  exact ⟨hlatest, get_latest sampleLedger [createOp, claimOp, completeOp]
    (by simp [Separate, hone, htwo, hthree]) ⟨.inl hkeys, trivial, .inl rfl, trivial⟩
    ("test", countedUuid 7) completedRecord hlatest⟩

/-- The same input with the workspace named before the campaign. -/
def reorderedInput : List (String × Json) :=
  (sampleInput.drop 1).take 1 ++ sampleInput.take 1 ++ sampleInput.drop 2

/-- The reordered input is accepted, and the record it produces cannot be
read. -/
theorem reordered_unreadable : ∃ r s,
    create sampleLedger reorderedInput "2026-01-01T00:00:00.000Z" State.empty = (.ok r, s) ∧
    ∀ x, (get sampleLedger "test" (countedUuid 7) s).1 ≠ .ok (some x) := by
  have hdigest : ((create sampleLedger reorderedInput "2026-01-01T00:00:00.000Z"
      State.empty).1.toOption.any fun r => r.workspaceId == "test" && r.campaignId == countedUuid 7 &&
        r.definitionDigest !=
          sampleLedger.host.sha256 (stringify (canonicalDefinition r.definition))) = true := by
    decide +kernel
  cases hc : create sampleLedger reorderedInput "2026-01-01T00:00:00.000Z" State.empty with
  | mk res s =>
    rw [hc] at hdigest
    cases res with
    | error e => cases hdigest
    | ok r =>
      simp only [Except.toOption, Option.any_some, Bool.and_eq_true, beq_iff_eq, bne_iff_ne] at hdigest
      obtain ⟨⟨hw, hi⟩, hne⟩ := hdigest
      refine ⟨r, s, rfl, fun x hx => ?_⟩
      have hs : Stored sampleLedger s := stored_outcome stored_empty (create_outcome stored_empty hc)
      have hheld := read_some hs hx
      obtain ⟨n, _, _, ⟨hold, _⟩ | ⟨_, hr, hput⟩⟩ := create_ok stored_empty hc
      · cases hold.file
      · have hnames : path sampleLedger n.workspaceId n.campaignId =
            path sampleLedger "test" (countedUuid 7) := by
          rw [← hw, ← hi, hr]
          rfl
        rw [hnames] at hput
        have hfile := hheld.file
        rw [hput, put_self, Option.some.injEq] at hfile
        rw [← record_text_injective hfile] at hheld
        exact hne hheld.readable.digest

end Sample

end AccessStack.Campaign
