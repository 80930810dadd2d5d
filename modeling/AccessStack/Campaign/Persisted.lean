import AccessStack.Campaign.Definition

/-!
# Reading a campaign back

`parsePersisted` applied to the value of a record. Of a record whose
definition is in normal form it returns that record or nothing, and it
returns it exactly when the digest is the one of the fields in the reader's
order and every task passes the reader's checks.
-/

set_option autoImplicit false

namespace AccessStack.Campaign
open AccessStack.Text AccessStack.Rows AccessStack.JsonText

section Tasks

def CampaignTask.entries (t : CampaignTask) : List (String × Json) :=
  t.fields ++ [("state", .str (stateName t.state))] ++
    t.operationId.toList.map (fun id => ("operationId", .str id)) ++
    t.proof.toList.map fun p => ("proof", p)

theorem toJson_entries (t : CampaignTask) : t.toJson = .obj t.entries := rfl

/-- The fields of a written task that are always there. -/
theorem entries_field (t : CampaignTask) {name : String} (ho : name ≠ "operationId")
    (hp : name ≠ "proof") : field t.entries name =
      field (t.fields ++ [("state", .str (stateName t.state))]) name := by
  have ho' : ("operationId" == name) = false := by simpa using ho.symm
  have hp' : ("proof" == name) = false := by simpa using hp.symm
  cases hid : t.operationId <;> cases hproof : t.proof <;>
    simp [CampaignTask.entries, field, hid, hproof, ho', hp']

theorem entries_reads (t : CampaignTask) : Reads t.entries t.toCampaignStep := by
  constructor <;> simp [textField, arrayField, entries_field] <;>
    simp [field, CampaignStep.fields]

theorem entries_state (t : CampaignTask) : textField t.entries "state" = some (stateName t.state) := by
  simp [textField, entries_field]
  simp [field]

theorem entries_operationId (t : CampaignTask) :
    field t.entries "operationId" = t.operationId.map .str := by
  cases hid : t.operationId <;> cases hproof : t.proof <;>
    simp [CampaignTask.entries, CampaignStep.fields, field, hid, hproof]

theorem entries_proof (t : CampaignTask) : field t.entries "proof" = t.proof := by
  cases hid : t.operationId <;> cases hproof : t.proof <;>
    simp [CampaignTask.entries, CampaignStep.fields, field, hid, hproof]

@[simp] theorem stateOf_name (state : CampaignTaskState) : stateOf (stateName state) = some state := by
  cases state <;> decide

/-- What the reader asks of the state, the operation and the proof of a task. -/
structure TaskOk (t : CampaignTask) : Prop where
  claimed : t.state ≠ .pending → ∃ id, t.operationId = some id ∧ isVersionedUuid id = true
  unclaimed : t.state = .pending → t.operationId = none
  proven : t.state = .completed → t.proof.isSome = true
  proof : ∀ p ∈ t.proof, validProof p = true

theorem parseTask_iff {t t' : CampaignTask} :
    parseTask t.toJson t.toCampaignStep = .ok t' ↔ TaskOk t ∧ t' = t := by
  have hreads := entries_reads t
  have hid : textField t.entries "operationId" = t.operationId := by
    simp only [textField, entries_operationId]
    cases t.operationId <;> rfl
  have hdeps : (field t.entries "dependsOn").map stringify =
      some (stringify (.arr (t.dependsOn.map .str))) := by
    rw [entries_field t (by decide) (by decide)]
    simp [field, CampaignStep.fields]
  simp only [parseTask, toJson_entries, hreads.id, hreads.action, hdeps, hreads.target,
    hreads.expected, hreads.digest, entries_state, hid, entries_operationId, entries_proof,
    Option.bind_some, stateOf_name, Option.isSome_some, beq_self_eq_true, Bool.and_true,
    bind_ok, ensure_ok, pure, Except.pure, Except.ok.injEq, Option.getD_some, exists_and_left,
    exists_const, true_and, Bool.or_eq_true, beq_iff_eq, bne_iff_ne, Option.some.injEq,
    Option.isNone_iff_eq_none, Option.map_eq_none_iff, Option.any_eq_true, Bool.and_eq_true, ne_eq]
  constructor
  · rintro ⟨hclaimed, hunclaimed, hproof, rfl⟩
    refine ⟨⟨?_, ?_, ?_, ?_⟩, rfl⟩
    · intro hs
      exact hclaimed.resolve_left hs
    · intro hs
      exact hunclaimed.resolve_left (by simp [hs])
    · intro hs
      rcases hproof with ⟨hne, _⟩ | ⟨p, hp, _⟩
      · exact absurd hs hne
      · simp [hp]
    · intro p hp
      rcases hproof with ⟨_, hnone⟩ | ⟨q, hq, hvalid⟩
      · rw [hnone] at hp
        cases hp
      · obtain rfl : q = p := by simpa [hq] using hp
        exact hvalid
  · rintro ⟨hok, rfl⟩
    refine ⟨?_, ?_, ?_, rfl⟩
    · by_cases hs : t'.state = .pending
      · exact .inl hs
      · exact .inr (hok.claimed hs)
    · by_cases hs : t'.state = .pending
      · exact .inr (hok.unclaimed hs)
      · exact .inl hs
    · cases hp : t'.proof with
      | none =>
        refine .inl ⟨fun hs => ?_, rfl⟩
        have := hok.proven hs
        simp [hp] at this
      | some p => exact .inr ⟨p, rfl, hok.proof p (by simp [hp])⟩

theorem parseTasks_iff {tasks parsed : List CampaignTask} :
    ((tasks.map CampaignTask.toJson).zip (tasks.map (·.toCampaignStep))).mapM
      (fun p => parseTask p.1 p.2) = .ok parsed ↔ (∀ t ∈ tasks, TaskOk t) ∧ parsed = tasks := by
  induction tasks generalizing parsed with
  | nil => simp [pure, Except.pure, eq_comm]
  | cons t tasks ih =>
    simp only [List.map_cons, List.zip_cons_cons, List.mapM_cons, bind_ok, parseTask_iff, ih, pure,
      Except.pure, Except.ok.injEq, List.mem_cons, forall_eq_or_imp]
    constructor
    · rintro ⟨_, ⟨ht, rfl⟩, _, ⟨hts, rfl⟩, rfl⟩
      exact ⟨⟨ht, hts⟩, rfl⟩
    · rintro ⟨⟨ht, hts⟩, rfl⟩
      exact ⟨t, ⟨ht, rfl⟩, tasks, ⟨hts, rfl⟩, rfl⟩

theorem readsAll_tasks (tasks : List CampaignTask) :
    ReadsAll (tasks.map CampaignTask.toJson) (tasks.map (·.toCampaignStep)) := by
  induction tasks with
  | nil => exact .nil
  | cons t tasks ih => exact .cons (entries_reads t) ih

end Tasks

section Records

def CampaignRecord.definition (r : CampaignRecord) : DelegatedCampaignInput where
  campaignId := r.campaignId
  workspaceId := r.workspaceId
  objective := r.objective
  authorizedActions := r.authorizedActions
  tasks := r.tasks.map (·.toCampaignStep)

/-- The definition with its fields in the order of the reader. -/
def canonicalDefinition (n : DelegatedCampaignInput) : Json :=
  .obj [("campaignId", .str n.campaignId), ("workspaceId", .str n.workspaceId),
    ("objective", .str n.objective), ("authorizedActions", .arr (n.authorizedActions.map .str)),
    ("tasks", .arr (n.tasks.map fun t => .obj t.fields))]

structure Readable (h : Host) (ownerScopeHash : String) (r : CampaignRecord) : Prop where
  owner : r.ownerScopeHash = ownerScopeHash
  digest : r.definitionDigest = h.sha256 (stringify (canonicalDefinition r.definition))
  revision : isSafeInteger r.revision = true
  tasks : ∀ t ∈ r.tasks, TaskOk t

def CampaignRecord.entries (r : CampaignRecord) : List (String × Json) :=
  [("version", .num 1), ("campaignId", .str r.campaignId), ("workspaceId", .str r.workspaceId),
    ("ownerScopeHash", .str r.ownerScopeHash), ("definitionDigest", .str r.definitionDigest),
    ("objective", .str r.objective), ("authorizedActions", .arr (r.authorizedActions.map .str)),
    ("tasks", .arr (r.tasks.map CampaignTask.toJson)), ("revision", .num r.revision),
    ("createdAt", .str r.createdAt), ("updatedAt", .str r.updatedAt)]

/-- The object the reader hands to `normalize`. -/
def CampaignRecord.input (r : CampaignRecord) : List (String × Json) :=
  [("campaignId", .str r.campaignId), ("workspaceId", .str r.workspaceId),
    ("objective", .str r.objective), ("authorizedActions", .arr (r.authorizedActions.map .str)),
    ("tasks", .arr (r.tasks.map CampaignTask.toJson))]

theorem entries_input (r : CampaignRecord) :
    (definitionFields.filterMap fun name => (field r.entries name).map (name, ·)) = r.input := by
  simp [definitionFields, CampaignRecord.entries, field, CampaignRecord.input]

theorem normalize_input {h : Host} {r : CampaignRecord} (hn : Normalized h r.definition) :
    normalize h r.input = .ok r.definition := by
  have htasks : arrayField r.input "tasks" = some (r.tasks.map CampaignTask.toJson) := by
    simp [CampaignRecord.input, arrayField, field]
  apply normalize_fixed hn _ _ _ _ htasks (readsAll_tasks r.tasks)
  · simp [CampaignRecord.input, textField, field, CampaignRecord.definition]
  · simp [CampaignRecord.input, textField, field, CampaignRecord.definition]
  · simp [CampaignRecord.input, textField, field, CampaignRecord.definition]
  · simp [CampaignRecord.input, arrayField, field, CampaignRecord.definition]

theorem definitionJson_input (r : CampaignRecord) :
    definitionJson r.input r.definition = canonicalDefinition r.definition := by
  simp [definitionJson, CampaignRecord.input, canonicalDefinition, CampaignRecord.definition]

/-- Of a record in normal form the reader returns that record or nothing. -/
theorem parsePersisted_iff {h : Host} {ownerScopeHash : String} {r r' : CampaignRecord}
    (hn : Normalized h r.definition) :
    parsePersisted h ownerScopeHash r.toJson = .ok r' ↔ Readable h ownerScopeHash r ∧ r' = r := by
  have htasks : (arrayField r.entries "tasks").getD [] = r.tasks.map CampaignTask.toJson := by
    simp [CampaignRecord.entries, arrayField, field]
  have hversion : numberField r.entries "version" = some 1 := by
    simp [CampaignRecord.entries, numberField, field]
  have hrevision : numberField r.entries "revision" = some (r.revision : ℤ) := by
    simp [CampaignRecord.entries, numberField, field]
  have howner : textField r.entries "ownerScopeHash" = some r.ownerScopeHash := by
    simp [CampaignRecord.entries, textField, field]
  have hdigest : textField r.entries "definitionDigest" = some r.definitionDigest := by
    simp [CampaignRecord.entries, textField, field]
  have hobjective : textField r.entries "objective" = some r.objective := by
    simp [CampaignRecord.entries, textField, field]
  have hcreated : textField r.entries "createdAt" = some r.createdAt := by
    simp [CampaignRecord.entries, textField, field]
  have hupdated : textField r.entries "updatedAt" = some r.updatedAt := by
    simp [CampaignRecord.entries, textField, field]
  have hjson : r.toJson = .obj r.entries := rfl
  rw [hjson]
  have hlength : r.definition.tasks.length = r.tasks.length := by simp [CampaignRecord.definition]
  simp only [parsePersisted, htasks, hversion, hrevision, howner, hdigest, hobjective, hcreated,
    hupdated, entries_input, normalize_input hn, definitionDigest, bind_ok, ensure_ok,
    Option.isSome_some, Option.any_some, Bool.true_and, beq_iff_eq, Option.some.injEq,
    Bool.and_eq_true, decide_eq_true_eq, pure, Except.pure, Except.ok.injEq, Option.getD_some,
    Int.toNat_natCast, exists_and_left, exists_const, List.length_map, true_and, exists_eq_left',
    definitionJson_input, hlength]
  simp only [CampaignRecord.definition, parseTasks_iff]
  constructor
  · rintro ⟨ho, hformat, ⟨hrev, _⟩, hd, parsed, ⟨hok, rfl⟩, rfl⟩
    exact ⟨⟨ho, hd, hrev, hok⟩, by rw [← ho]⟩
  · rintro ⟨hr, rfl⟩
    refine ⟨hr.owner, ?_, ⟨hr.revision, Int.natCast_nonneg _⟩, hr.digest, r'.tasks,
      ⟨hr.tasks, rfl⟩, by rw [← hr.owner]⟩
    rw [hr.digest]
    exact h.sha256_format _

end Records

end AccessStack.Campaign
