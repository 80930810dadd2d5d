import AccessStack.Campaign.Persisted

/-!
# Histories of the campaign ledger

Any sequence of `create`, `claimNext` and `transition` calls with any
arguments. Every file is the text of one record whose definition is in
normal form, and an operation leaves every record as it is, claims one of
its tasks or settles one.
-/

set_option autoImplicit false

namespace AccessStack.Campaign
open AccessStack.Text AccessStack.Rows AccessStack.JsonText

section Effects

theorem effect_ok {α β : Type} {x : Effect α} {f : α → Effect β} {s s' : State} {b : β} :
    (x >>= f) s = (.ok b, s') ↔ ∃ a s1, x s = (.ok a, s1) ∧ f a s1 = (.ok b, s') := by
  cases hx : x s with
  | mk r s1 => cases r <;> simp [bind, hx]

theorem effect_error {α β : Type} {x : Effect α} {f : α → Effect β} {s s' : State} {e : String} :
    (x >>= f) s = (.error e, s') ↔
      x s = (.error e, s') ∨ ∃ a s1, x s = (.ok a, s1) ∧ f a s1 = (.error e, s') := by
  cases hx : x s with
  | mk r s1 => cases r <;> simp [bind, hx]

@[simp] theorem lift_eq {α : Type} {x r : Except String α} {s s' : State} :
    Effect.lift x s = (r, s') ↔ x = r ∧ s = s' := by
  simp [Effect.lift]

@[simp] theorem pure_eq {α : Type} {a : α} {r : Except String α} {s s' : State} :
    (pure a : Effect α) s = (r, s') ↔ .ok a = r ∧ s = s' := by
  simp [pure]

@[simp] theorem get_eq {ledger : DelegatedCampaignLedger} {w i : String}
    {r : Except String (Option CampaignRecord)} {s s' : State} :
    get ledger w i s = (r, s') ↔ read ledger s w i = r ∧ s = s' := by
  simp [get]

/-- The files after `text` has been stored under a name. -/
def State.put (s : State) (target text : String) : State :=
  { s with files := Function.update s.files target (some text) }

@[simp] theorem put_self (s : State) (target text : String) :
    (s.put target text).files target = some text := by
  simp [State.put]

theorem put_other (s : State) {p target : String} (text : String) (h : p ≠ target) :
    (s.put target text).files p = s.files p := by
  simp [State.put, h]

theorem write_ok {ledger : DelegatedCampaignLedger} {r : CampaignRecord} {s s' : State} {u : Unit}
    (h : write ledger r s = (.ok u, s')) : s' = s.put (path ledger r.workspaceId r.campaignId) r.text := by
  obtain ⟨target, s1, hlift, hstore⟩ := effect_ok.mp h
  obtain ⟨hfile, rfl⟩ := lift_eq.mp hlift
  simp only [file, bind_ok, ensure_ok, pure, Except.pure, Except.ok.injEq] at hfile
  obtain ⟨_, _, rfl⟩ := hfile
  simp only [store, Prod.mk.injEq] at hstore
  exact hstore.2.symm

theorem write_error {ledger : DelegatedCampaignLedger} {r : CampaignRecord} {s s' : State}
    {e : String} (h : write ledger r s = (.error e, s')) : s' = s := by
  rcases effect_error.mp h with hlift | ⟨target, s1, _, hstore⟩
  · exact (lift_eq.mp hlift).2.symm
  · simp [store] at hstore

theorem randomUUID_ok {ledger : DelegatedCampaignLedger} {s s' : State} {r : Except String String}
    (h : randomUUID ledger s = (r, s')) :
    r = .ok (ledger.host.randomUUID s.draws) ∧ s' = { s with draws := s.draws+1 } := by
  simp only [randomUUID, Prod.mk.injEq] at h
  exact ⟨h.1.symm, h.2.symm⟩

end Effects

section Texts

theorem entries_injective {t u : CampaignTask} (h : t.entries = u.entries) : t = u := by
  have hread := entries_reads t
  rw [h] at hread
  have hread' := entries_reads u
  have hstate : stateName t.state = stateName u.state := by
    have := entries_state t
    rw [h, entries_state] at this
    exact (Option.some.inj this).symm
  have hname : t.state = u.state := by
    have := stateOf_name t.state
    rw [hstate, stateOf_name] at this
    exact (Option.some.inj this).symm
  have hid : t.operationId = u.operationId := by
    have := entries_operationId t
    rw [h, entries_operationId] at this
    cases ht : t.operationId <;> cases hu : u.operationId <;> simp_all
  have hproof : t.proof = u.proof := by
    have := entries_proof t
    rw [h, entries_proof] at this
    exact this.symm
  have hdeps : t.dependsOn = u.dependsOn := by
    have := hread.dependsOn
    rw [hread'.dependsOn, Option.some.injEq] at this
    have hstrings := congrArg strings this
    simpa using hstrings.symm
  have hids := hread.id.symm.trans hread'.id
  have hactions := hread.action.symm.trans hread'.action
  have htargets := hread.target.symm.trans hread'.target
  have hexpected := hread.expected.symm.trans hread'.expected
  have hdigests := hread.digest.symm.trans hread'.digest
  rcases t with ⟨⟨id, action, dependsOn, target, expected, digest⟩, state, operationId, proof⟩
  rcases u with ⟨⟨id', action', dependsOn', target', expected', digest'⟩, state', operationId', proof'⟩
  simp_all

theorem record_text_injective {r x : CampaignRecord} (h : r.text = x.text) : r = x := by
  have htext : stringify r.toJson = stringify x.toJson := by
    have := congrArg String.toList h
    simp only [CampaignRecord.text, String.toList_append] at this
    exact String.toList_injective (List.append_cancel_right this)
  have hjson := stringify_injective htext
  rcases r with ⟨c, w, o, d, ob, acts, tasks, rev, cr, up⟩
  rcases x with ⟨c', w', o', d', ob', acts', tasks', rev', cr', up'⟩
  simp only [CampaignRecord.toJson, Json.obj.injEq, List.cons.injEq, Prod.mk.injEq, true_and,
    Json.str.injEq, Json.num.injEq, Json.arr.injEq, and_true] at hjson
  obtain ⟨rfl, rfl, rfl, rfl, rfl, hacts, htasks, hrev, rfl, rfl⟩ := hjson
  have hacts' : acts = acts' := by simpa using congrArg strings hacts
  have htasks' : tasks = tasks' := by
    refine List.map_injective_iff.mpr ?_ htasks
    intro t u htu
    rw [toJson_entries, toJson_entries, Json.obj.injEq] at htu
    exact entries_injective htu
  have hrev' : rev = rev' := by exact_mod_cast hrev
  rw [hacts', htasks', hrev']

theorem parse_text (r : CampaignRecord) : parse r.text = some r.toJson := by
  have h := parse_written r.toJson ['\n'] (by simp [isBlank])
  have htext : r.text = String.ofList (chars r.toJson ++ ['\n']) := by
    simp [CampaignRecord.text, stringify]
  rw [htext]
  exact h

end Texts

variable {ledger : DelegatedCampaignLedger}

/-- One step of a record: a claim or the settling of a claimed task. -/
inductive Advance (r : CampaignRecord) : CampaignRecord → Prop
  | claim {t : CampaignTask} {operationId now : String} (ht : t ∈ r.tasks)
    (hrun : runnable r t = true) (hidle : ∀ u ∈ r.tasks, u.state ≠ .inFlight)
    (hid : isVersionedUuid operationId = true) :
    Advance r (setTask r t.id (claimTask operationId) now)
  | settle {t : CampaignTask} {next : TransitionTarget} {proof : Option Json}
    {operationId now : String} (ht : t ∈ r.tasks) (hid : t.operationId = some operationId)
    (hstate : t.state = .inFlight ∨ t.state = .outcomeUnknown)
    (hnext : t.state = .outcomeUnknown → next ≠ .outcomeUnknown)
    (hproof : next = .completed ∨ t.state = .outcomeUnknown → proof.any validProof = true) :
    Advance r (setTask r t.id (settleTask next proof) now)

/-- What holds of every record that is ever written. -/
structure Sound (ledger : DelegatedCampaignLedger) (r : CampaignRecord) : Prop where
  owner : r.ownerScopeHash = ledger.ownerScopeHash
  normalized : Normalized ledger.host r.definition
  flights : ∀ t ∈ r.tasks, ∀ u ∈ r.tasks, t.state = .inFlight → u.state = .inFlight → t = u
  unclaimed : ∀ t ∈ r.tasks, t.state = .pending ↔ t.operationId = none
  claimed : ∀ t ∈ r.tasks, ∀ id ∈ t.operationId, isVersionedUuid id = true
  proven : ∀ t ∈ r.tasks, t.state = .completed → t.proof.any validProof = true

theorem Sound.ids {r : CampaignRecord} (h : Sound ledger r) : (r.tasks.map (·.id)).Nodup := by
  simpa [CampaignRecord.definition, List.map_map, Function.comp_def] using h.normalized.ids

theorem Sound.same_task {r : CampaignRecord} (h : Sound ledger r) {t u : CampaignTask}
    (ht : t ∈ r.tasks) (hu : u ∈ r.tasks) (he : t.id = u.id) : t = u :=
  List.inj_on_of_nodup_map h.ids ht hu he

section Step

theorem setTask_mem {r : CampaignRecord} (h : Sound ledger r) {t u : CampaignTask}
    (ht : t ∈ r.tasks) {f : CampaignTask → CampaignTask} {now : String}
    (hu : u ∈ (setTask r t.id f now).tasks) : u = f t ∨ (u ∈ r.tasks ∧ u.id ≠ t.id) := by
  obtain ⟨v, hv, rfl⟩ := mem_update.mp hu
  by_cases he : v.id = t.id
  · left
    rw [h.same_task hv ht he]
    simp
  · right
    simp only [he, beq_iff_eq, if_false]
    exact ⟨hv, he⟩

theorem setTask_definition (r : CampaignRecord) (taskId : String) {f : CampaignTask → CampaignTask}
    (now : String) (hdef : ∀ u, (f u).toCampaignStep = u.toCampaignStep) :
    (setTask r taskId f now).definition = r.definition := by
  have hmap := map_update (·.id == taskId) f r.tasks (·.toCampaignStep) hdef
  simp only [CampaignRecord.definition, setTask, hmap]

theorem sound_setTask {r : CampaignRecord} (h : Sound ledger r) {t : CampaignTask}
    (ht : t ∈ r.tasks) {f : CampaignTask → CampaignTask} {now : String}
    (hdef : ∀ u, (f u).toCampaignStep = u.toCampaignStep)
    (hflight : (f t).state = .inFlight → ∀ u ∈ r.tasks, u.state ≠ .inFlight)
    (hclaimed : (f t).state ≠ .pending ∧ ∃ id, (f t).operationId = some id ∧ isVersionedUuid id = true)
    (hproven : (f t).state = .completed → (f t).proof.any validProof = true) :
    Sound ledger (setTask r t.id f now) := by
  obtain ⟨hpending, id, hid, huuid⟩ := hclaimed
  refine ⟨h.owner, ?_, ?_, ?_, ?_, ?_⟩
  · rw [setTask_definition r t.id now hdef]
    exact h.normalized
  · intro u hu v hv hus hvs
    rcases setTask_mem h ht hu with rfl | ⟨hu, _⟩ <;> rcases setTask_mem h ht hv with rfl | ⟨hv, _⟩
    · rfl
    · exact absurd hvs (hflight hus v hv)
    · exact absurd hus (hflight hvs u hu)
    · exact h.flights u hu v hv hus hvs
  · intro u hu
    rcases setTask_mem h ht hu with rfl | ⟨hu, _⟩
    · simp [hpending, hid]
    · exact h.unclaimed u hu
  · intro u hu i hi
    rcases setTask_mem h ht hu with rfl | ⟨hu, _⟩
    · obtain rfl : id = i := by simpa [hid] using hi
      exact huuid
    · exact h.claimed u hu i hi
  · intro u hu hs
    rcases setTask_mem h ht hu with rfl | ⟨hu, _⟩
    · exact hproven hs
    · exact h.proven u hu hs

theorem sound_advance {r r' : CampaignRecord} (h : Sound ledger r) (ha : Advance r r') :
    Sound ledger r' := by
  cases ha with
  | claim ht hrun hidle hid =>
    refine sound_setTask h ht (fun _ => rfl) (fun _ => hidle) ⟨?_, _, rfl, hid⟩ ?_
    · simp [claimTask]
    · simp [claimTask]
  | @settle t next proof operationId now ht hid hstate hnext hproof =>
    have huuid := h.claimed t ht operationId (by simp [hid])
    refine sound_setTask h ht (fun _ => rfl) ?_ ⟨?_, operationId, hid, huuid⟩ ?_
    · cases next <;> simp [settleTask, TransitionTarget.state]
    · cases next <;> simp [settleTask, TransitionTarget.state]
    · intro hs
      have hdone : next = .completed := by
        cases next <;> simp [settleTask, TransitionTarget.state] at hs ⊢
      have hvalid := hproof (.inl hdone)
      have hkind : proof.any verifiedKind = true := by
        obtain ⟨p, rfl, hp⟩ := Option.any_eq_true _ _ |>.mp hvalid
        cases p <;> simp_all [validProof, verifiedKind]
      simpa [settleTask, hkind] using hvalid

theorem sound_newRecord {input : List (String × Json)} {n : DelegatedCampaignInput}
    (hn : normalize ledger.host input = .ok n) (now : String) :
    Sound ledger (newRecord ledger input n now) := by
  have hdef : (newRecord ledger input n now).definition = n := by
    simp [newRecord, CampaignRecord.definition, Function.comp_def]
  have hpending : ∀ t ∈ (newRecord ledger input n now).tasks, t.state = .pending ∧
      t.operationId = none := by
    intro t ht
    obtain ⟨u, _, rfl⟩ := List.mem_map.mp ht
    exact ⟨rfl, rfl⟩
  refine ⟨rfl, by rw [hdef]; exact (normalize_ok hn).1, ?_, ?_, ?_, ?_⟩
  · intro t ht u _ hs
    rw [(hpending t ht).1] at hs
    cases hs
  · intro t ht
    simp [hpending t ht]
  · intro t ht id hid
    simp [hpending t ht] at hid
  · intro t ht hs
    rw [(hpending t ht).1] at hs
    cases hs

end Step

section Operations

inductive Op where
  | create (input : List (String × Json)) (now : String)
  | claimNext (workspaceId id now : String)
  | transition (workspaceId id taskId operationId : String) (next : TransitionTarget)
    (proof : Option Json) (now : String)

/-- The workspace and the campaign an operation is about. -/
def Op.campaign : Op → String × String
  | .create input _ => ((textField input "workspaceId").getD "", (textField input "campaignId").getD "")
  | .claimNext workspaceId id _ => (workspaceId, id)
  | .transition workspaceId id .. => (workspaceId, id)

/-- The operation with the record it answers. -/
def perform (ledger : DelegatedCampaignLedger) : Op → Effect CampaignRecord
  | .create input now => create ledger input now
  | .claimNext workspaceId id now => do
    return (← claimNext ledger workspaceId id now).campaign
  | .transition workspaceId id taskId operationId next proof now =>
    transition ledger workspaceId id taskId operationId next proof now

def step (ledger : DelegatedCampaignLedger) (s : State) (op : Op) : State := (perform ledger op s).2

def run (ledger : DelegatedCampaignLedger) (s : State) (ops : List Op) : State :=
  ops.foldl (step ledger) s

/-- Every file is the text of a sound record and has the record's name. -/
def Stored (ledger : DelegatedCampaignLedger) (s : State) : Prop :=
  ∀ p text, s.files p = some text → ∃ r, text = CampaignRecord.text r ∧
    p = path ledger r.workspaceId r.campaignId ∧ Sound ledger r

/-- The record can be read under a name. -/
structure Held (ledger : DelegatedCampaignLedger) (s : State) (p : String) (r : CampaignRecord) :
    Prop where
  file : s.files p = some r.text
  named : p = path ledger r.workspaceId r.campaignId
  sound : Sound ledger r
  readable : Readable ledger.host ledger.ownerScopeHash r

theorem read_some {s : State} {w i : String} {r : CampaignRecord} (hs : Stored ledger s)
    (h : read ledger s w i = .ok (some r)) : Held ledger s (path ledger w i) r := by
  obtain ⟨source, hsource, h⟩ := bind_ok.mp h
  simp only [file, bind_ok, ensure_ok, pure, Except.pure, Except.ok.injEq] at hsource
  obtain ⟨_, _, rfl⟩ := hsource
  cases hf : s.files (path ledger w i) with
  | none => simp [hf, pure, Except.pure] at h
  | some text =>
    obtain ⟨x, rfl, hnamed, hsound⟩ := hs _ _ hf
    simp only [hf, parse_text, bind_ok, pure, Except.pure, Except.ok.injEq, Option.some.injEq] at h
    obtain ⟨y, hy, rfl⟩ := h
    obtain ⟨hread, rfl⟩ := (parsePersisted_iff hsound.normalized).mp hy
    exact ⟨hf, hnamed, hsound, hread⟩

theorem read_none {s : State} {w i : String} (hs : Stored ledger s)
    (h : read ledger s w i = .ok none) : s.files (path ledger w i) = none := by
  obtain ⟨source, hsource, h⟩ := bind_ok.mp h
  simp only [file, bind_ok, ensure_ok, pure, Except.pure, Except.ok.injEq] at hsource
  obtain ⟨_, _, rfl⟩ := hsource
  cases hf : s.files (path ledger w i) with
  | none => rfl
  | some text =>
    obtain ⟨x, rfl, _, _⟩ := hs _ _ hf
    simp [hf, parse_text, bind_ok, pure, Except.pure] at h

theorem read_held {s : State} {w i : String} {r : CampaignRecord}
    (hw : workspaceIdPattern w = true) (hi : isVersionedUuid i = true)
    (h : Held ledger s (path ledger w i) r) : read ledger s w i = .ok (some r) := by
  have hparse := (parsePersisted_iff h.sound.normalized).mpr ⟨h.readable, rfl⟩
  simp only [read, file, hw, hi, Bool.and_self, ensure, if_true, bind, Except.bind, pure,
    Except.pure, h.file, parse_text, hparse]

theorem requireCampaign_ok {s s' : State} {w i : String} {r : CampaignRecord} (hs : Stored ledger s)
    (h : requireCampaign ledger w i s = (.ok r, s')) :
    Held ledger s (path ledger w i) r ∧ s' = s := by
  obtain ⟨found, s1, hget, h⟩ := effect_ok.mp h
  obtain ⟨hread, rfl⟩ := get_eq.mp hget
  cases found with
  | none => simp at h
  | some x =>
    obtain ⟨hx, rfl⟩ := pure_eq.mp h
    cases hx
    exact ⟨read_some hs hread, rfl⟩

theorem requireCampaign_error {s s' : State} {w i e : String}
    (h : requireCampaign ledger w i s = (.error e, s')) : s' = s := by
  rcases effect_error.mp h with hget | ⟨found, s1, hget, h⟩
  · exact (get_eq.mp hget).2.symm
  · obtain ⟨_, rfl⟩ := get_eq.mp hget
    cases found with
    | none => exact (lift_eq.mp h).2.symm
    | some x => simp at h

/-- What an operation under the name `p` answers and leaves behind. -/
inductive Outcome (ledger : DelegatedCampaignLedger) (s : State) (p : String) :
    Except String CampaignRecord → State → Prop
  | rejected {e : String} (draws : ℕ) : Outcome ledger s p (.error e) { s with draws }
  | kept {r : CampaignRecord} (h : Held ledger s p r) : Outcome ledger s p (.ok r) s
  | created {input : List (String × Json)} {n : DelegatedCampaignInput} {now : String}
    (hn : normalize ledger.host input = .ok n) (hp : p = path ledger n.workspaceId n.campaignId)
    (hnone : s.files p = none) :
    Outcome ledger s p (.ok (newRecord ledger input n now)) (s.put p (newRecord ledger input n now).text)
  | advanced {r r' : CampaignRecord} (draws : ℕ) (h : Held ledger s p r) (ha : Advance r r') :
    Outcome ledger s p (.ok r') (State.put { s with draws } p r'.text)

theorem create_ok {s s' : State} {input : List (String × Json)} {now : String} {r : CampaignRecord}
    (hs : Stored ledger s) (h : create ledger input now s = (.ok r, s')) :
    ∃ n, normalize ledger.host input = .ok n ∧
      (Op.create input now).campaign = (n.workspaceId, n.campaignId) ∧
      ((Held ledger s (path ledger n.workspaceId n.campaignId) r ∧ s' = s) ∨
        (s.files (path ledger n.workspaceId n.campaignId) = none ∧ r = newRecord ledger input n now ∧
          s' = s.put (path ledger n.workspaceId n.campaignId) r.text)) := by
  obtain ⟨n, s1, hlift, h⟩ := effect_ok.mp h
  obtain ⟨hn, rfl⟩ := lift_eq.mp hlift
  obtain ⟨found, s2, hget, h⟩ := effect_ok.mp h
  obtain ⟨hread, rfl⟩ := get_eq.mp hget
  obtain ⟨_, hid, hws⟩ := normalize_ok hn
  refine ⟨n, hn, by simp only [Op.campaign, hws, hid], ?_⟩
  cases found with
  | some old =>
    obtain ⟨_, s3, hcheck, hpure⟩ := effect_ok.mp h
    obtain ⟨_, rfl⟩ := lift_eq.mp hcheck
    obtain ⟨hr, rfl⟩ := pure_eq.mp hpure
    cases hr
    exact .inl ⟨read_some hs hread, rfl⟩
  | none =>
    obtain ⟨_, s3, hwrite, hpure⟩ := effect_ok.mp h
    obtain ⟨hr, rfl⟩ := pure_eq.mp hpure
    cases hr
    have hnames : path ledger (newRecord ledger input n now).workspaceId
        (newRecord ledger input n now).campaignId = path ledger n.workspaceId n.campaignId := rfl
    have hput := write_ok hwrite
    rw [hnames] at hput
    exact .inr ⟨read_none hs hread, rfl, hput⟩

theorem create_outcome {s s' : State} {input : List (String × Json)} {now : String}
    {res : Except String CampaignRecord} (hs : Stored ledger s)
    (h : create ledger input now s = (res, s')) :
    Outcome ledger s (path ledger (Op.create input now).campaign.1 (Op.create input now).campaign.2)
      res s' := by
  cases res with
  | error e =>
    have hsame : s' = s := by
      rcases effect_error.mp h with hlift | ⟨n, s1, hlift, h⟩
      · exact (lift_eq.mp hlift).2.symm
      obtain ⟨_, rfl⟩ := lift_eq.mp hlift
      rcases effect_error.mp h with hget | ⟨found, s2, hget, h⟩
      · exact (get_eq.mp hget).2.symm
      obtain ⟨_, rfl⟩ := get_eq.mp hget
      cases found with
      | some old =>
        rcases effect_error.mp h with hcheck | ⟨_, s3, _, hpure⟩
        · exact (lift_eq.mp hcheck).2.symm
        · simp at hpure
      | none =>
        rcases effect_error.mp h with hwrite | ⟨_, s3, _, hpure⟩
        · exact write_error hwrite
        · simp at hpure
    rw [hsame]
    exact .rejected s.draws
  | ok r =>
    obtain ⟨n, hn, hnames, ⟨hheld, rfl⟩ | ⟨hnone, rfl, rfl⟩⟩ := create_ok hs h
    · rw [hnames]
      exact .kept hheld
    · rw [hnames]
      exact .created hn rfl hnone

theorem claimNext_ok {s s' : State} {w i now : String} {claim : CampaignClaim}
    (hs : Stored ledger s) (h : claimNext ledger w i now s = (.ok claim, s')) :
    ∃ r, Held ledger s (path ledger w i) r ∧ ((claim = .noRunnableStep r ∧ s' = s) ∨
      ∃ t ∈ r.tasks, runnable r t = true ∧ (∀ u ∈ r.tasks, u.state ≠ .inFlight) ∧
        ∃ r', r' = setTask r t.id (claimTask (ledger.host.randomUUID s.draws)) now ∧
          claim = .claimed t.id (ledger.host.randomUUID s.draws) r' ∧
          s' = State.put { s with draws := s.draws+1 } (path ledger w i) r'.text) := by
  obtain ⟨r, s1, hreq, hrest⟩ := effect_ok.mp h
  obtain ⟨hheld, rfl⟩ := requireCampaign_ok hs hreq
  refine ⟨r, hheld, ?_⟩
  split at hrest
  case isTrue =>
    obtain ⟨hc, rfl⟩ := pure_eq.mp hrest
    cases hc
    exact .inl ⟨rfl, rfl⟩
  case isFalse hidle =>
    cases hfind : r.tasks.find? (runnable r) with
    | none =>
      rw [hfind] at hrest
      obtain ⟨hc, rfl⟩ := pure_eq.mp hrest
      cases hc
      exact .inl ⟨rfl, rfl⟩
    | some t =>
      rw [hfind] at hrest
      obtain ⟨operationId, s2, hdraw, hrest⟩ := effect_ok.mp hrest
      obtain ⟨hop, rfl⟩ := randomUUID_ok hdraw
      obtain ⟨_, s3, hwrite, hpure⟩ := effect_ok.mp hrest
      obtain ⟨hc, rfl⟩ := pure_eq.mp hpure
      cases hc
      cases hop
      have hnames : ∀ f, path ledger (setTask r t.id f now).workspaceId
          (setTask r t.id f now).campaignId = path ledger w i := fun _ => hheld.named.symm
      refine .inr ⟨t, List.mem_of_find?_eq_some hfind, List.find?_some hfind, ?_, _, rfl, rfl, ?_⟩
      · intro u hu hstate
        exact hidle (List.any_eq_true.mpr ⟨u, hu, by simp [hstate]⟩)
      · rw [write_ok hwrite, hnames]

theorem claimNext_outcome {s s' : State} {w i now : String} {res : Except String CampaignClaim}
    (hs : Stored ledger s) (h : claimNext ledger w i now s = (res, s')) :
    Outcome ledger s (path ledger w i) (res.map (·.campaign)) s' := by
  cases res with
  | error e =>
    rcases effect_error.mp h with hreq | ⟨r, s1, hreq, hrest⟩
    · rw [requireCampaign_error hreq]
      exact .rejected s.draws
    obtain ⟨hheld, rfl⟩ := requireCampaign_ok hs hreq
    split at hrest
    case isTrue => simp at hrest
    case isFalse =>
      cases hfind : r.tasks.find? (runnable r) with
      | none => simp [hfind] at hrest
      | some t =>
        rw [hfind] at hrest
        rcases effect_error.mp hrest with hdraw | ⟨operationId, s2, hdraw, hrest⟩
        · cases (randomUUID_ok hdraw).1
        obtain ⟨_, rfl⟩ := randomUUID_ok hdraw
        rcases effect_error.mp hrest with hwrite | ⟨_, s3, _, hpure⟩
        · rw [write_error hwrite]
          exact .rejected _
        · simp at hpure
  | ok claim =>
    obtain ⟨r, hheld, ⟨rfl, rfl⟩ | ⟨t, ht, hrun, hidle, r', rfl, rfl, rfl⟩⟩ := claimNext_ok hs h
    · exact .kept hheld
    · exact .advanced _ hheld (.claim ht hrun hidle (ledger.host.randomUUID_format _))

theorem checkTransition_ok {r : CampaignRecord} {taskId operationId : String}
    {next : TransitionTarget} {proof : Option Json} {u : Unit}
    (h : checkTransition r taskId operationId next proof = .ok u) :
    ∃ t ∈ r.tasks, t.id = taskId ∧ t.operationId = some operationId ∧
      (t.state = .inFlight ∨ t.state = .outcomeUnknown) ∧
      (t.state = .outcomeUnknown → next ≠ .outcomeUnknown) ∧
      (next = .completed ∨ t.state = .outcomeUnknown → proof.any validProof = true) := by
  unfold checkTransition at h
  cases hfind : r.tasks.find? (·.id == taskId) with
  | none => simp [hfind] at h
  | some t =>
    simp only [hfind, bind_ok, ensure_ok, Bool.and_eq_true, beq_iff_eq, Bool.or_eq_true, bne_iff_ne,
      Bool.not_eq_true', Bool.or_eq_false_iff, beq_eq_false_iff_ne, ne_eq, exists_and_left,
      exists_const] at h
    obtain ⟨⟨hid, _⟩, hstate, hnext, hproof⟩ := h
    have htask : t.id = taskId := by simpa using List.find?_some hfind
    refine ⟨t, List.mem_of_find?_eq_some hfind, htask, hid, hstate, ?_, ?_⟩
    · intro hs
      exact hnext.resolve_left (fun hne => hne hs)
    · intro hneeds
      exact hproof.resolve_left (fun hne => hneeds.elim hne.1 hne.2)

theorem transition_ok {s s' : State} {w i taskId operationId now : String}
    {next : TransitionTarget} {proof : Option Json} {r' : CampaignRecord} (hs : Stored ledger s)
    (h : transition ledger w i taskId operationId next proof now s = (.ok r', s')) :
    ∃ r, Held ledger s (path ledger w i) r ∧
      checkTransition r taskId operationId next proof = .ok () ∧
      r' = setTask r taskId (settleTask next proof) now ∧ s' = s.put (path ledger w i) r'.text := by
  obtain ⟨r, s1, hreq, hrest⟩ := effect_ok.mp h
  obtain ⟨hheld, rfl⟩ := requireCampaign_ok hs hreq
  obtain ⟨_, s2, hcheck, hrest⟩ := effect_ok.mp hrest
  obtain ⟨hok, rfl⟩ := lift_eq.mp hcheck
  obtain ⟨_, s3, hwrite, hpure⟩ := effect_ok.mp hrest
  obtain ⟨hc, rfl⟩ := pure_eq.mp hpure
  cases hc
  have hnames : path ledger (setTask r taskId (settleTask next proof) now).workspaceId
      (setTask r taskId (settleTask next proof) now).campaignId = path ledger w i := hheld.named.symm
  refine ⟨r, hheld, hok, rfl, ?_⟩
  rw [write_ok hwrite, hnames]

theorem transition_outcome {s s' : State} {w i taskId operationId now : String}
    {next : TransitionTarget} {proof : Option Json} {res : Except String CampaignRecord}
    (hs : Stored ledger s)
    (h : transition ledger w i taskId operationId next proof now s = (res, s')) :
    Outcome ledger s (path ledger w i) res s' := by
  cases res with
  | error e =>
    have hsame : s' = s := by
      rcases effect_error.mp h with hreq | ⟨r, s1, hreq, hrest⟩
      · exact requireCampaign_error hreq
      obtain ⟨_, rfl⟩ := requireCampaign_ok hs hreq
      rcases effect_error.mp hrest with hcheck | ⟨_, s2, hcheck, hrest⟩
      · exact (lift_eq.mp hcheck).2.symm
      obtain ⟨_, rfl⟩ := lift_eq.mp hcheck
      rcases effect_error.mp hrest with hwrite | ⟨_, s3, _, hpure⟩
      · exact write_error hwrite
      · simp at hpure
    rw [hsame]
    exact .rejected s.draws
  | ok moved =>
    obtain ⟨r, hheld, hok, rfl, rfl⟩ := transition_ok hs h
    obtain ⟨t, ht, rfl, hid, hstate, hnext, hproof⟩ := checkTransition_ok hok
    exact .advanced s.draws hheld (.settle ht hid hstate hnext hproof)

theorem perform_outcome {s s' : State} {op : Op} {res : Except String CampaignRecord}
    (hs : Stored ledger s) (h : perform ledger op s = (res, s')) :
    Outcome ledger s (path ledger op.campaign.1 op.campaign.2) res s' := by
  cases op with
  | create input now => exact create_outcome hs h
  | transition w i taskId operationId next proof now => exact transition_outcome hs h
  | claimNext w i now =>
    cases hclaim : claimNext ledger w i now s with
    | mk answer s1 =>
      have hout := claimNext_outcome hs hclaim
      have hres : (res, s') = (answer.map (·.campaign), s1) := by
        rw [← h]
        cases answer <;> simp [perform, bind, hclaim, pure, Except.map]
      cases hres
      exact hout

theorem perform_error {s s' : State} {op : Op} {e : String} (hs : Stored ledger s)
    (h : perform ledger op s = (.error e, s')) : s'.files = s.files := by
  cases perform_outcome hs h with
  | rejected draws => rfl

/-- A claim answers with the campaign it has claimed from. -/
theorem perform_claim {s s' : State} {w i now : String} {r : CampaignRecord}
    (h : perform ledger (.claimNext w i now) s = (.ok r, s')) :
    ∃ claim, claimNext ledger w i now s = (.ok claim, s') ∧ r = claim.campaign := by
  obtain ⟨claim, s1, hclaim, hpure⟩ := effect_ok.mp h
  obtain ⟨hr, rfl⟩ := pure_eq.mp hpure
  cases hr
  exact ⟨claim, hclaim, rfl⟩

theorem stored_put {s : State} {p : String} {r : CampaignRecord} (draws : ℕ) (hs : Stored ledger s)
    (hp : p = path ledger r.workspaceId r.campaignId) (hr : Sound ledger r) :
    Stored ledger (State.put { s with draws } p r.text) := by
  intro q text hq
  by_cases he : q = p
  · subst he
    rw [put_self, Option.some.injEq] at hq
    exact ⟨r, hq.symm, hp, hr⟩
  · rw [put_other _ _ he] at hq
    exact hs q text hq

theorem advance_names {r r' : CampaignRecord} (ha : Advance r r') :
    r'.workspaceId = r.workspaceId ∧ r'.campaignId = r.campaignId := by
  cases ha <;> exact ⟨rfl, rfl⟩

theorem stored_outcome {s s' : State} {p : String} {res : Except String CampaignRecord}
    (hs : Stored ledger s) (h : Outcome ledger s p res s') : Stored ledger s' := by
  cases h with
  | rejected draws => exact hs
  | kept h => exact hs
  | created hn hp hnone => exact stored_put s.draws hs hp (sound_newRecord hn _)
  | advanced draws h ha =>
    obtain ⟨hw, hi⟩ := advance_names ha
    exact stored_put draws hs (by rw [hw, hi]; exact h.named) (sound_advance h.sound ha)

theorem stored_step {s : State} (hs : Stored ledger s) (op : Op) : Stored ledger (step ledger s op) :=
  stored_outcome hs (perform_outcome hs (Prod.eta (perform ledger op s)).symm)

theorem stored_run {s : State} (hs : Stored ledger s) (ops : List Op) :
    Stored ledger (run ledger s ops) := by
  induction ops generalizing s with
  | nil => exact hs
  | cons op ops ih => exact ih (stored_step hs op)

theorem stored_empty : Stored ledger State.empty := by
  intro p text h
  cases h

end Operations

end AccessStack.Campaign
