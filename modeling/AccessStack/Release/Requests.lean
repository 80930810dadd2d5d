import AccessStack.Release.Orchestrator

/-!
# Requests and their digests

Four operations store a digest of their request under a key, so that a second
request with the same key is either a repetition or a conflict. The digest is
taken over a JSON object with a fixed set of names. Sorting the names is the
same for all requests of one kind, so the text determines the values.
-/

set_option autoImplicit false

namespace AccessStack.Release
open AccessStack.Text AccessStack.Rows AccessStack.JsonText

/-- A request that is remembered under a key. -/
inductive Request where
  | create (request : RunRequest)
  | record (operationId : String) (input : RecordStepOutcomeInput) (actorId : String)
  | reconcile (operationId : String) (input : ReconcileOperationInput)
  | resolve (runId gateId : String) (input : ResolveHealthGateInput)

/-- The object whose canonical text is digested. -/
def Request.body : Request → Json
  | .create request => .obj [
    ("blueprintId", .str request.blueprintId), ("blueprintVersion", .num request.blueprintVersion),
    ("targetRelease", .str request.targetRelease),
    ("sourceCommitSha", .str request.sourceCommitSha), ("actorId", .str request.actorId)]
  | .record _ input actorId => .obj [
    ("outcome", .str (outcomeName input.outcome)), ("outcomeCode", optional input.outcomeCode),
    ("evidence", .arr ((input.evidence.getD []).map EvidenceInput.toJson)),
    ("actorId", .str actorId)]
  | .reconcile operationId input => .obj [
    ("operationId", .str operationId), ("outcome", .str (reconciliationName input.outcome)),
    ("evidence", .arr ((input.evidence.getD []).map EvidenceInput.toJson)),
    ("actorId", .str input.actorId)]
  | .resolve runId gateId input => .obj [
    ("runId", .str runId), ("gateId", .str gateId),
    ("outcome", .str (gateOutcomeName input.outcome)),
    ("evidence", .arr (input.evidence.map EvidenceInput.toJson))]

def Request.text (h : Host) (q : Request) : String := canonicalJson h q.body

/-- The request with the defaults the source fills in: absent evidence is no
evidence. -/
def Request.arguments : Request → Request
  | .create request => .create request
  | .record operationId input actorId =>
    .record operationId { input with evidence := some (input.evidence.getD []) } actorId
  | .reconcile operationId input =>
    .reconcile operationId { input with evidence := some (input.evidence.getD []) }
  | .resolve runId gateId input => .resolve runId gateId input

section Canonical

theorem perm_eq_of_keys {α β : Type} {l m : List (α × β)} (hp : l.Perm m)
    (hk : l.map Prod.fst = m.map Prod.fst) (hn : (l.map Prod.fst).Nodup) : l = m := by
  have hlen : l.length = m.length := hp.length_eq
  refine List.ext_getElem hlen fun i hi hi' => ?_
  have hkey : l[i].1 = m[i].1 := by
    have := List.getElem_of_eq hk (by simpa using hi)
    simpa using this
  exact List.inj_on_of_nodup_map (hk ▸ hn) (hp.mem_iff.mp (List.getElem_mem hi))
    (List.getElem_mem hi') hkey

theorem canonicalFields_keys (h : Host) (fields : List (String × Json)) :
    (canonicalFields h fields).map Prod.fst = fields.map Prod.fst := by
  induction fields with
  | nil => rfl
  | cons f rest ih => rw [canonicalFields, List.map_cons, List.map_cons, ih]

/-- Objects with the same names in the same order differ in a value. -/
theorem canonical_fields {h : Host} {fields fields' : List (String × Json)}
    (heq : canonicalValue h (.obj fields) = canonicalValue h (.obj fields'))
    (hk : fields.map Prod.fst = fields'.map Prod.fst) (hn : (fields.map Prod.fst).Nodup) :
    canonicalFields h fields = canonicalFields h fields' := by
  simp only [canonicalValue, Json.obj.injEq] at heq
  have hp : (canonicalFields h fields).Perm (canonicalFields h fields') :=
    (List.perm_insertionSort _ _).symm.trans
      ((List.Perm.of_eq heq).trans (List.perm_insertionSort _ _))
  refine perm_eq_of_keys hp ?_ ?_
  · rw [canonicalFields_keys, canonicalFields_keys, hk]
  · rwa [canonicalFields_keys]

theorem canonical_evidence {h : Host} {e e' : EvidenceInput}
    (heq : canonicalValue h e.toJson = canonicalValue h e'.toJson) : e = e' := by
  have hf := canonical_fields heq rfl (by simp)
  simp only [canonicalFields, canonicalValue, List.cons.injEq, Prod.mk.injEq, Json.str.injEq,
    true_and, and_true] at hf
  obtain ⟨h1, h2, h3, h4⟩ := hf
  cases e
  cases e'
  simp_all

theorem canonicalItems_map (h : Host) (items : List Json) :
    canonicalItems h items = items.map (canonicalValue h) := by
  induction items with
  | nil => rfl
  | cons v rest ih => rw [canonicalItems, ih, List.map_cons]

theorem canonical_items {h : Host} {items items' : List EvidenceInput}
    (heq : canonicalValue h (.arr (items.map EvidenceInput.toJson)) =
      canonicalValue h (.arr (items'.map EvidenceInput.toJson))) : items = items' := by
  simp only [canonicalValue, Json.arr.injEq, canonicalItems_map, List.map_map] at heq
  exact List.map_injective_iff.mpr (fun _ _ h => canonical_evidence h) heq

theorem canonical_optional {h : Host} {code code' : Option String}
    (heq : canonicalValue h (optional code) = canonicalValue h (optional code')) : code = code' := by
  cases code <;> cases code' <;> simp_all [optional, canonicalValue]

end Canonical

section Texts
variable {h : Host}

theorem text_fields {q q' : Request} {fields fields' : List (String × Json)}
    (heq : q.text h = q'.text h) (hq : q.body = .obj fields) (hq' : q'.body = .obj fields')
    (hk : fields.map Prod.fst = fields'.map Prod.fst) (hn : (fields.map Prod.fst).Nodup) :
    canonicalFields h fields = canonicalFields h fields' := by
  refine canonical_fields ?_ hk hn
  rw [← hq, ← hq']
  exact stringify_injective heq

theorem create_text {q q' : RunRequest} (hkey : q.idempotencyKey = q'.idempotencyKey)
    (heq : (Request.create q).text h = (Request.create q').text h) : q = q' := by
  have hf := text_fields heq rfl rfl rfl (by simp)
  simp only [canonicalFields, canonicalValue, List.cons.injEq, Prod.mk.injEq, Json.str.injEq,
    Json.num.injEq, true_and, and_true] at hf
  obtain ⟨h1, h2, h3, h4, h5⟩ := hf
  cases q
  cases q'
  simp_all

theorem record_text {operationId : String} {input input' : RecordStepOutcomeInput}
    {actorId actorId' : String} (heq : (Request.record operationId input actorId).text h =
      (Request.record operationId input' actorId').text h) :
    (Request.record operationId input actorId).arguments =
      (Request.record operationId input' actorId').arguments := by
  have hf := text_fields heq rfl rfl rfl (by simp)
  simp only [canonicalFields, List.cons.injEq, Prod.mk.injEq, true_and, and_true] at hf
  obtain ⟨h1, h2, h3, h4⟩ := hf
  have hout : input.outcome = input'.outcome := by
    cases ho : input.outcome <;> cases ho' : input'.outcome <;>
      simp [ho, ho', canonicalValue, outcomeName] at h1 ⊢
  have hactor : actorId = actorId' := by simpa [canonicalValue] using h4
  simp [Request.arguments, hout, canonical_optional h2, canonical_items h3, hactor]

theorem reconcile_text {operationId operationId' : String} {input input' : ReconcileOperationInput}
    (hkey : input.idempotencyKey = input'.idempotencyKey)
    (heq : (Request.reconcile operationId input).text h =
      (Request.reconcile operationId' input').text h) :
    (Request.reconcile operationId input).arguments =
      (Request.reconcile operationId' input').arguments := by
  have hf := text_fields heq rfl rfl rfl (by simp)
  simp only [canonicalFields, List.cons.injEq, Prod.mk.injEq, true_and, and_true] at hf
  obtain ⟨h1, h2, h3, h4⟩ := hf
  have hid : operationId = operationId' := by simpa [canonicalValue] using h1
  have hout : input.outcome = input'.outcome := by
    cases ho : input.outcome <;> cases ho' : input'.outcome <;>
      simp [ho, ho', canonicalValue, reconciliationName] at h2 ⊢
  have hactor : input.actorId = input'.actorId := by simpa [canonicalValue] using h4
  simp [Request.arguments, hid, hkey, hout, canonical_items h3, hactor]

/-- The text of a decision says nothing about the actor. -/
theorem resolve_text {runId gateId gateId' : String} {input input' : ResolveHealthGateInput} :
    (Request.resolve runId gateId input).text h = (Request.resolve runId gateId' input').text h ↔
      gateId = gateId' ∧ input.outcome = input'.outcome ∧ input.evidence = input'.evidence := by
  constructor
  · intro heq
    have hf := text_fields heq rfl rfl rfl (by simp)
    simp only [canonicalFields, List.cons.injEq, Prod.mk.injEq, true_and, and_true] at hf
    obtain ⟨h1, h2, h3⟩ := hf
    have hout : input.outcome = input'.outcome := by
      cases ho : input.outcome <;> cases ho' : input'.outcome <;>
        simp [ho, ho', canonicalValue, gateOutcomeName] at h2 ⊢
    exact ⟨by simpa [canonicalValue] using h1, hout, canonical_items h3⟩
  · rintro ⟨rfl, hout, hev⟩
    simp only [Request.text, Request.body, hout, hev]

end Texts

end AccessStack.Release
