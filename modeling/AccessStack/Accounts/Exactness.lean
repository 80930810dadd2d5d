import AccessStack.Accounts.Reconcile

/-!
# Exact reconciliations

While every announcement names a record of its own device and repository, or
none, the record that it goes on from is the one said beforehand. The first
that names another one spoils the outcome: a record of another host is lost,
or a record is listed under two repositories.
-/

set_option autoImplicit false

namespace AccessStack.Accounts
open AccessStack.Index AccessStack.Text AccessStack.Keys

section Targets

variable {s : Storage} {deviceId : String} {keys : List String}

theorem targets_append (pre earlier : List Announcement) (a : Announcement) :
    targets s deviceId keys pre (earlier ++ [a]) =
      targets s deviceId keys pre earlier ++ [target s deviceId keys (pre ++ earlier) a] := by
  induction earlier generalizing pre with
  | nil => simp [targets]
  | cons e earlier ih => simp [targets, ih]

theorem mem_targets {pre earlier : List Announcement} {id : String}
    (h : id ∈ targets s deviceId keys pre earlier) :
    ∃ e ∈ earlier, ∃ before, id = target s deviceId keys before e := by
  induction earlier generalizing pre with
  | nil => cases h
  | cons e earlier ih =>
    rcases List.mem_cons.mp h with rfl | h
    · exact ⟨e, List.mem_cons_self, pre, rfl⟩
    · obtain ⟨f, hf, hid⟩ := ih h
      exact ⟨f, List.mem_cons_of_mem e hf, hid⟩

/-- A named kept record is gone on from. -/
theorem target_named {earlier : List Announcement} {a : Announcement} {id : String}
    {x : StoredMaterialization} (hs : Consistent s) (hnamed : a.input.named = some id)
    (hx : keptAt s deviceId keys id = some x) :
    target s deviceId keys earlier a = id := by
  simp only [target, source, hnamed, Option.bind_some, hx, Option.some_or, Option.map_some, Option.getD_some]
  exact (hs.materialization id x (keptAt_some hx)).1

theorem named_targets {pre earlier : List Announcement} {e : Announcement} {id : String}
    {x : StoredMaterialization} (hs : Consistent s) (he : e ∈ earlier) (hnamed : e.input.named = some id)
    (hx : keptAt s deviceId keys id = some x) : id ∈ targets s deviceId keys pre earlier := by
  induction earlier generalizing pre with
  | nil => cases he
  | cons f earlier ih =>
    rcases List.mem_cons.mp he with rfl | he
    · rw [targets, target_named hs hnamed hx]
      exact List.mem_cons_self
    · exact List.mem_cons_of_mem _ (ih he)

/-- What an announcement goes on from: its named record, one of its repository
and workspace id, or none. -/
theorem target_cases (hs : Consistent s) (deviceId : String) (keys : List String)
    (earlier : List Announcement) (a : Announcement) :
    (target s deviceId keys earlier a = a.generated) ∨
      ∃ x, keptAt s deviceId keys (target s deviceId keys earlier a) = some x ∧
        (a.input.named = some (target s deviceId keys earlier a) ∨
          x.host = .device deviceId ∧ x.repositoryId = a.input.repositoryId ∧
          x.workspaceId = a.input.workspaceId ∧
            some (target s deviceId keys earlier a) ∉ earlier.map (·.input.named)) := by
  cases hsource : source s deviceId keys earlier a with
  | none => simp [target, hsource]
  | some x =>
    right
    have htarget : target s deviceId keys earlier a = x.id := by simp [target, hsource]
    rw [htarget]
    rcases Option.or_eq_some_iff.mp hsource with hnamed | ⟨_, hfound⟩
    · obtain ⟨id, hid, hx⟩ := Option.bind_eq_some_iff.mp hnamed
      rw [(hs.materialization id x (keptAt_some hx)).1]
      exact ⟨x, hx, .inl hid⟩
    · obtain ⟨id, hid, hx⟩ := List.mem_filterMap.mp (List.mem_of_find?_eq_some hfound)
      obtain ⟨y, hy, howner⟩ := hs.materializations.listed hid
      rw [keptAt_some hx] at hy
      cases hy
      have hmatch := List.find?_some hfound
      rw [decide_eq_true_eq] at hmatch
      rw [(hs.materialization id x (keptAt_some hx)).1] at hmatch ⊢
      exact ⟨x, hx, .inr ⟨hmatch.1, howner, hmatch.2.1, hmatch.2.2⟩⟩

end Targets

section Upsert

variable {σ σ' : Storage} {userId deviceId generated now : String} {input : MaterializationUpsertInput}
  {m : StoredMaterialization}

/-- What an upsert does that succeeds. -/
theorem upsert_cases (h : upsertMaterialization σ userId deviceId input generated now = (.ok m, σ')) :
    Admitted σ userId input.repositoryId (.device deviceId) ∧
      m = upserted σ userId (.device deviceId) input generated now ∧
      ((m.id ∈ σ.materializationIds input.repositoryId ∧ σ' = σ.putMaterialization m) ∨
        m.id ∉ σ.materializationIds input.repositoryId ∧
          (σ.materializationIds input.repositoryId).length < maxMaterializationsPerRepository ∧
          σ' = (σ.putMaterialization m).putMaterializationIds input.repositoryId
            (σ.materializationIds input.repositoryId ++ [m.id])) := by
  have h : upsertOn σ userId (.device deviceId) input generated now = (.ok m, σ') := h
  have hadmitted := upsertOn_ok h
  refine ⟨hadmitted, (upsertOn_records h).1, ?_⟩
  rw [upsertOn_admitted hadmitted] at h
  unfold storeMaterialization at h
  dsimp only at h
  split_ifs at h with hmem hfull
  · cases h
    exact .inl ⟨hmem, rfl⟩
  · cases h
  · cases h
    exact .inr ⟨hmem, by simpa [upserted] using hfull, rfl⟩

theorem upsert_materializations (h : upsertMaterialization σ userId deviceId input generated now =
    (.ok m, σ')) :
    σ'.materializations = Function.update σ.materializations m.id (some m) := by
  have h : upsertOn σ userId (.device deviceId) input generated now = (.ok m, σ') := h
  exact (upsertOn_records h).2

theorem upsert_ids (h : upsertMaterialization σ userId deviceId input generated now = (.ok m, σ'))
    (repositoryId : String) : σ'.materializationIds repositoryId = σ.materializationIds repositoryId ∨
      repositoryId = input.repositoryId ∧ m.id ∉ σ.materializationIds repositoryId ∧
        σ'.materializationIds repositoryId = σ.materializationIds repositoryId ++ [m.id] := by
  obtain ⟨_, _, ⟨_, rfl⟩ | ⟨hnew, _, rfl⟩⟩ := upsert_cases h
  · exact .inl rfl
  · rw [materializationIds_put]
    by_cases hr : repositoryId = input.repositoryId
    · subst hr
      right
      rw [Function.update_self]
      exact ⟨rfl, hnew, rfl⟩
    · rw [Function.update_of_ne hr]
      exact .inl rfl

/-- The written id is in the index of the repository. -/
theorem upsert_listed (h : upsertMaterialization σ userId deviceId input generated now = (.ok m, σ')) :
    m.id ∈ σ'.materializationIds input.repositoryId := by
  obtain ⟨_, _, ⟨hmem, rfl⟩ | ⟨_, _, rfl⟩⟩ := upsert_cases h
  · exact hmem
  · rw [materializationIds_put, Function.update_self]
    simp

theorem upsertAnnounced_cons {a : Announcement} {rest : List Announcement}
    {result : List StoredMaterialization}
    (h : upsertAnnounced userId deviceId σ (a::rest) = (.ok result, σ')) : ∃ m σ₁ later,
      upsertMaterialization σ userId deviceId a.input a.generated a.now = (.ok m, σ₁) ∧
        upsertAnnounced userId deviceId σ₁ rest = (.ok later, σ') := by
  unfold upsertAnnounced at h
  cases hfirst : upsertMaterialization σ userId deviceId a.input a.generated a.now with
  | mk answer σ₁ =>
    cases answer with
    | error message => simp [hfirst] at h
    | ok m =>
      simp only [hfirst] at h
      cases hrest : upsertAnnounced userId deviceId σ₁ rest with
      | mk answer σ₂ =>
        cases answer with
        | error message => simp [hrest] at h
        | ok later =>
          simp only [hrest, Prod.mk.injEq] at h
          exact ⟨m, σ₁, later, rfl, by rw [hrest, h.2]⟩

/-- The record that an upsert found is the one it writes. -/
theorem upserted_id {x : StoredMaterialization} (h : existingOnDevice σ deviceId input = some x) :
    (upserted σ userId (.device deviceId) input generated now).id = x.id := by
  simp [upserted, existingOn, h]

end Upsert

section Found

variable {α β : Type}

/-- Two readings of a list of ids find the same when they agree on what is
looked for. -/
theorem find_filterMap_congr {f g : α → Option β} {p q : β → Bool} {l : List α}
    (h : ∀ i ∈ l, (f i).filter p = (g i).filter q) : (l.filterMap f).find? p = (l.filterMap g).find? q := by
  have hfind : ∀ (f : α → Option β) (p : β → Bool), (l.filterMap f).find? p =
      (l.filterMap fun i => (f i).filter p).head? := by
    intro f p
    rw [← List.filter_filterMap, List.head?_filter]
  rw [hfind f p, hfind g q, List.filterMap_congr h]

end Found

section Stages

/-- The storage after the upserts of the earlier announcements. -/
structure Stage (s : Storage) (deviceId : String) (keys : List String) (earlier : List Announcement)
    (σ : Storage) : Prop where
  consistent : Consistent σ
  frame : σ = { s with
    materializations := σ.materializations, repositoryMaterializationIds := σ.repositoryMaterializationIds }
  ids : ∀ r, ∃ added, σ.materializationIds r =
    (s.materializationIds r).filter (fun id => (keptAt s deviceId keys id).isSome) ++ added ∧
      ∀ id ∈ added, id ∈ earlier.map (·.generated)
  untouched : ∀ id, id ∉ targets s deviceId keys [] earlier → σ.materializations id =
    keptAt s deviceId keys id
  written : ∀ id ∈ targets s deviceId keys [] earlier, ∃ e ∈ earlier, ∃ y,
    σ.materializations id = some y ∧ y.host = .device deviceId ∧ y.said = e.input.said
  named : ∀ id x e, keptAt s deviceId keys id = some x →
    lookup MaterializationUpsertInput.named (earlier.map (·.input)) (some id) = some e →
      ∃ y, σ.materializations id = some y ∧ y.said = e.said

variable {s σ σ' : Storage} {userId deviceId : String} {keys : List String}
  {earlier rest desired : List Announcement} {a : Announcement} {m : StoredMaterialization}

theorem target_new (hs : Consistent s) {before : List Announcement} {e : Announcement} {id : String}
    (hid : id = target s deviceId keys before e) :
    id = e.generated ∨ ∃ x, keptAt s deviceId keys id = some x := by
  subst hid
  rcases target_cases hs deviceId keys before e with hgenerated | ⟨x, hx, _⟩
  · exact .inl hgenerated
  · exact .inr ⟨x, hx⟩

theorem NewIds.kept (hnew : NewIds s desired) {e : Announcement} (he : e ∈ desired) :
    keptAt s deviceId keys e.generated = none := by
  simp [keptAt, hnew.absent e he]

/-- A kept record that was written was named, or is one of an earlier
announcement's repository and workspace id. -/
theorem target_origin (hs : Consistent s) (hnew : NewIds s desired) (hearlier : ∀ e ∈ earlier, e ∈ desired)
    {id : String} {x : StoredMaterialization} (hid : id ∈ targets s deviceId keys [] earlier)
    (hx : keptAt s deviceId keys id = some x) : some id ∈ earlier.map (·.input.named) ∨
      ∃ e ∈ earlier, x.repositoryId = e.input.repositoryId ∧ x.workspaceId = e.input.workspaceId := by
  obtain ⟨e, he, before, hid⟩ := mem_targets hid
  rcases target_cases hs deviceId keys before e with
    hgenerated | ⟨y, hy, hnamed | ⟨_, hrepository, hworkspace, _⟩⟩
  · rw [hid, hgenerated, hnew.kept (hearlier e he)] at hx
    cases hx
  · left
    rw [hid]
    exact List.mem_map.mpr ⟨e, he, hnamed⟩
  · right
    rw [hid, hy] at hx
    cases hx
    exact ⟨e, he, hrepository, hworkspace⟩

/-- Under an id that is named and kept nowhere, nothing is stored. -/
theorem Stage.absent (hs : Consistent s) (hnew : NewIds s desired) (h : Stage s deviceId keys earlier σ)
    (hearlier : ∀ e ∈ earlier, e ∈ desired) (ha : a ∈ desired) {id : String}
    (hnamed : a.input.named = some id) (hid : keptAt s deviceId keys id = none) :
    σ.materializations id = none := by
  rw [h.untouched, hid]
  intro hmem
  obtain ⟨e, he, before, htarget⟩ := mem_targets hmem
  rcases target_new hs htarget with hgenerated | ⟨x, hx⟩
  · apply hnew.unannounced e (hearlier e he) a ha
    rw [← hgenerated]
    exact (Option.filter_eq_some_iff.mp hnamed).1
  · rw [hid] at hx
    cases hx

/-- A kept record is still there, and in the same index. -/
theorem Stage.present (hs : Consistent s) (h : Stage s deviceId keys earlier σ) {id : String}
    {x : StoredMaterialization} (hx : keptAt s deviceId keys id = some x) :
    ∃ y, σ.materializations id = some y ∧ y.id = id ∧ y.repositoryId = x.repositoryId := by
  obtain ⟨added, hids, _⟩ := h.ids x.repositoryId
  have hmem : id ∈ σ.materializationIds x.repositoryId := by
    rw [hids]
    apply List.mem_append_left
    rw [List.mem_filter, hx]
    exact ⟨hs.materializations.mem_owner (keptAt_some hx), rfl⟩
  obtain ⟨y, hy, howner⟩ := h.consistent.materializations.listed hmem
  exact ⟨y, hy, (h.consistent.materialization id y hy).1, howner⟩

/-- What is found under the repository and the workspace id of an announcement
is the first kept record there that none of the earlier ones names. -/
theorem Stage.found (hs : Consistent s) (hnew : NewIds s desired) (h : Stage s deviceId keys earlier σ)
    (hearlier : ∀ e ∈ earlier, e ∈ desired) (hkey : a.key ∉ earlier.map Announcement.key) :
    findMaterialization σ (σ.materializationIds a.input.repositoryId) (.device deviceId) a.input.workspaceId =
      ((s.materializationIds a.input.repositoryId).filterMap (keptAt s deviceId keys)).find? fun x =>
        x.host = .device deviceId ∧ x.workspaceId = a.input.workspaceId ∧
          some x.id ∉ earlier.map (·.input.named) := by
  obtain ⟨added, hids, hadded⟩ := h.ids a.input.repositoryId
  have hwritten : ∀ id ∈ σ.materializationIds a.input.repositoryId, id ∈ targets s deviceId keys [] earlier →
      (σ.materializations id).filter (fun value => value.host = .device deviceId ∧
        value.workspaceId = a.input.workspaceId) = none := by
    intro id hid hmem
    obtain ⟨e, he, y, hy, _, hsaid⟩ := h.written id hmem
    obtain ⟨z, hz, howner⟩ := h.consistent.materializations.listed hid
    rw [hy] at hz
    cases hz
    rw [hy]
    apply Option.filter_eq_none_iff.mpr
    intro z hz hmatch
    cases hz
    rw [decide_eq_true_eq] at hmatch
    simp only [StoredMaterialization.said, MaterializationUpsertInput.said, Prod.mk.injEq] at hsaid
    apply hkey
    refine List.mem_map.mpr ⟨e, he, ?_⟩
    rw [Announcement.key, Announcement.key, ← hsaid.1, ← hsaid.2.1, howner, hmatch.2]
  have hkept : (s.materializationIds a.input.repositoryId).filterMap (keptAt s deviceId keys) =
      ((s.materializationIds a.input.repositoryId).filter
        fun id => (keptAt s deviceId keys id).isSome).filterMap (keptAt s deviceId keys) := by
    rw [List.filterMap_filter]
    apply List.filterMap_congr
    intro id _
    cases keptAt s deviceId keys id <;> rfl
  rw [findMaterialization, hids, List.filterMap_append, List.find?_append, hkept]
  have hnone : (added.filterMap σ.materializations).find? (fun value => value.host = .device deviceId ∧
      value.workspaceId = a.input.workspaceId) = none := by
    have hempty : (added.filterMap fun _ => (none : Option StoredMaterialization)) = [] := by simp
    rw [find_filterMap_congr (g := fun _ => none) (q := fun _ => true), hempty, List.find?_nil]
    intro id hid
    by_cases hmem : id ∈ targets s deviceId keys [] earlier
    · exact hwritten id (hids ▸ List.mem_append_right _ hid) hmem
    · obtain ⟨e, he, rfl⟩ := List.mem_map.mp (hadded id hid)
      rw [h.untouched _ hmem, hnew.kept (hearlier e he)]
      rfl
  rw [hnone, Option.or_none]
  apply find_filterMap_congr
  intro id hid
  have hlisted : id ∈ σ.materializationIds a.input.repositoryId := hids ▸ List.mem_append_left _ hid
  obtain ⟨hid, hsome⟩ := List.mem_filter.mp hid
  obtain ⟨x, hx⟩ := Option.isSome_iff_exists.mp hsome
  obtain ⟨y, hy, howner⟩ := hs.materializations.listed hid
  rw [keptAt_some hx] at hy
  cases hy
  have hxid := (hs.materialization id x (keptAt_some hx)).1
  by_cases hmem : id ∈ targets s deviceId keys [] earlier
  · rw [hwritten id hlisted hmem, hx, eq_comm]
    apply Option.filter_eq_none_iff.mpr
    intro z hz hmatch
    cases hz
    rw [decide_eq_true_eq, hxid] at hmatch
    rcases target_origin hs hnew hearlier hmem hx with hnamed | ⟨e, he, hrepository, hworkspace⟩
    · exact hmatch.2.2 hnamed
    · apply hkey
      refine List.mem_map.mpr ⟨e, he, ?_⟩
      rw [Announcement.key, Announcement.key, ← hrepository, ← hworkspace, howner, hmatch.2.1]
  · rw [h.untouched id hmem, hx]
    have hunnamed : some x.id ∉ earlier.map (·.input.named) := by
      intro hnamed
      obtain ⟨e, he, hnamed⟩ := List.mem_map.mp hnamed
      rw [hxid] at hnamed
      exact hmem (named_targets hs he hnamed hx)
    simp only [Option.filter_some, hunnamed, not_false_eq_true, and_true]

end Stages

section Steps

variable {s σ σ' : Storage} {userId deviceId : String} {keys : List String}
  {earlier rest desired : List Announcement} {a : Announcement} {m : StoredMaterialization}

/-- An announcement that names its own goes on from the record said beforehand. -/
theorem Stage.source (hs : Consistent s) (hnew : NewIds s desired) (h : Stage s deviceId keys earlier σ)
    (hearlier : ∀ e ∈ earlier, e ∈ desired) (ha : a ∈ desired) (hkey : a.key ∉ earlier.map Announcement.key) :
    (existingOnDevice σ deviceId a.input).map (·.id) = (source s deviceId keys earlier a).map (·.id) := by
  have hbind : existingOnDevice σ deviceId a.input = (a.input.named.bind σ.materializations).or
      (findMaterialization σ (σ.materializationIds a.input.repositoryId)
        (.device deviceId) a.input.workspaceId) := rfl
  rw [hbind, h.found hs hnew hearlier hkey, Accounts.source]
  cases hnamed : a.input.named with
  | none => rfl
  | some id =>
    rw [Option.bind_some, Option.bind_some]
    cases hx : keptAt s deviceId keys id with
    | none => rw [h.absent hs hnew hearlier ha hnamed hx]
    | some x =>
      obtain ⟨y, hy, hid, _⟩ := h.present hs hx
      rw [hy, Option.some_or, Option.some_or, Option.map_some, Option.map_some, hid,
        (hs.materialization id x (keptAt_some hx)).1]

theorem Stage.fresh (hs : Consistent s) (hnew : NewIds s desired) (h : Stage s deviceId keys earlier σ)
    (ha : a ∈ desired) (hgenerated : a.generated ∉ earlier.map (·.generated)) :
    freshMaterialization σ a.generated = true := by
  have hnone : σ.materializations a.generated = none := by
    rw [h.untouched, hnew.kept ha]
    intro hmem
    obtain ⟨e, he, before, htarget⟩ := mem_targets hmem
    rcases target_new hs htarget with heq | ⟨x, hx⟩
    · exact hgenerated (List.mem_map.mpr ⟨e, he, heq.symm⟩)
    · rw [hnew.kept ha] at hx
      cases hx
  simp [freshMaterialization, hnone, hnew.named a ha]

theorem Stage.fits (hs : Consistent s) (hnew : NewIds s desired) (h : Stage s deviceId keys earlier σ)
    (hearlier : ∀ e ∈ earlier, e ∈ desired) (ha : a ∈ desired)
    (hgenerated : a.generated ∉ earlier.map (·.generated)) (hown : NamesOwn s deviceId keys a)
    (hupsert : upsertMaterialization σ userId deviceId a.input a.generated a.now = (.ok m, σ')) :
    fitsDevice σ userId deviceId a.input = true := by
  have hsame : (a.input.named.bind σ.materializations).all (·.repositoryId = a.input.repositoryId) =
      true := by
    cases hnamed : a.input.named with
    | none => rfl
    | some id =>
      cases hx : keptAt s deviceId keys id with
      | none => simp [h.absent hs hnew hearlier ha hnamed hx]
      | some x =>
        obtain ⟨y, hy, _, hrepository⟩ := h.present hs hx
        have hx := (hown x (by rw [hnamed]; exact hx)).2
        simp [hy, hrepository.trans hx]
  have hroom : hasRoom σ a.input.repositoryId (existingOnDevice σ deviceId a.input) = true := by
    obtain ⟨_, hm, ⟨hmem, _⟩ | ⟨_, hlimit, _⟩⟩ := upsert_cases hupsert
    · cases hexisting : existingOnDevice σ deviceId a.input with
      | some x => rfl
      | none =>
        have hid : m.id = a.generated := by simp [hm, upserted, existingOn, hexisting]
        obtain ⟨y, hy, _⟩ := h.consistent.materializations.listed hmem
        have hfresh := h.fresh hs hnew ha hgenerated
        simp [freshMaterialization, ← hid, hy] at hfresh
    · simp [hasRoom, hlimit]
  have hsame : ((a.input.id.filter (· ≠ "")).bind σ.materializations).all
      (·.repositoryId = a.input.repositoryId) = true := hsame
  simp only [fitsDevice, hsame, hroom, Bool.and_self, Bool.or_true]

/-- The next announcement, when it names its own. -/
theorem Stage.step (hs : Consistent s) (hnew : NewIds s desired) (h : Stage s deviceId keys earlier σ)
    (hearlier : ∀ e ∈ earlier, e ∈ desired) (ha : a ∈ desired) (hkey : a.key ∉ earlier.map Announcement.key)
    (hgenerated : a.generated ∉ earlier.map (·.generated)) (hown : NamesOwn s deviceId keys a)
    (hupsert : upsertMaterialization σ userId deviceId a.input a.generated a.now = (.ok m, σ')) :
    m.id = target s deviceId keys earlier a ∧ Stage s deviceId keys (earlier ++ [a]) σ' := by
  have hrecords := upsert_materializations hupsert
  obtain ⟨hadmitted, hm, hplace⟩ := upsert_cases hupsert
  have hid : m.id = target s deviceId keys earlier a := by
    have hsource := h.source hs hnew hearlier ha hkey
    simp only [hm, upserted, existingOn, hsource, target]
  have hsaid : m.said = a.input.said := by rw [hm]; rfl
  have hhost : m.host = .device deviceId := by rw [hm]; rfl
  have hmem : ∀ id, id ∈ targets s deviceId keys [] (earlier ++ [a]) ↔
      id ∈ targets s deviceId keys [] earlier ∨ id = m.id := by
    intro id
    rw [targets_append, List.nil_append, ← hid, List.mem_append, List.mem_singleton]
  refine ⟨hid, ?_, ?_, ?_, ?_, ?_, ?_⟩
  · have hnext := consistent_upsert h.consistent userId deviceId a.input a.generated a.now
      (h.fresh hs hnew ha hgenerated) (h.fits hs hnew hearlier ha hgenerated hown hupsert)
    rwa [hupsert] at hnext
  · rcases hplace with ⟨_, rfl⟩ | ⟨_, _, rfl⟩
    · conv_lhs => rw [h.frame]
      rfl
    · conv_lhs => rw [h.frame]
      rfl
  · intro r
    obtain ⟨added, hids, hadded⟩ := h.ids r
    have hmono : ∀ id ∈ added, id ∈ (earlier ++ [a]).map (·.generated) := by
      intro id hmem
      rw [List.map_append]
      exact List.mem_append_left _ (hadded id hmem)
    rcases upsert_ids hupsert r with hsame | ⟨rfl, hnotin, happend⟩
    · exact ⟨added, hsame.trans hids, hmono⟩
    · refine ⟨added ++ [m.id], by rw [happend, hids, List.append_assoc], ?_⟩
      intro id hmem
      rcases List.mem_append.mp hmem with hmem | hmem
      · exact hmono id hmem
      · rw [List.mem_singleton] at hmem
        subst hmem
        rcases target_cases hs deviceId keys earlier a with
          hfresh | ⟨x, hx, hcase⟩
        · rw [hid, hfresh]
          simp
        · rw [← hid] at hx hcase
          exfalso
          apply hnotin
          have hrepository : x.repositoryId = a.input.repositoryId := by
            rcases hcase with hnamed | hfound
            · exact (hown x (by rw [hnamed]; exact hx)).2
            · exact hfound.2.1
          obtain ⟨y, hy, _, hsame⟩ := h.present hs hx
          rw [← hrepository, ← hsame]
          exact h.consistent.materializations.mem_owner hy
  · intro id hnot
    rw [hmem, not_or] at hnot
    rw [hrecords, Function.update_of_ne hnot.2]
    exact h.untouched id hnot.1
  · intro id hin
    by_cases hsame : id = m.id
    · subst hsame
      exact ⟨a, by simp, m, by rw [hrecords, Function.update_self], hhost, hsaid⟩
    · obtain ⟨e, he, y, hy, hyhost, hysaid⟩ := h.written id (((hmem id).mp hin).resolve_right hsame)
      exact ⟨e, List.mem_append_left _ he,
        y, by rw [hrecords, Function.update_of_ne hsame]; exact hy, hyhost, hysaid⟩
  · intro id x e hx hlast
    rw [List.map_append, List.map_singleton, lookup, List.reverse_append, List.reverse_singleton,
      List.singleton_append, List.find?_cons] at hlast
    by_cases hnamed : a.input.named = some id
    · simp only [hnamed, decide_true, Option.some.injEq] at hlast
      subst hlast
      have htarget : m.id = id := hid.trans (target_named hs hnamed hx)
      exact ⟨m, by rw [hrecords, htarget, Function.update_self], hsaid⟩
    · simp only [hnamed, decide_false] at hlast
      obtain ⟨y, hy, hysaid⟩ := h.named id x e hx hlast
      refine ⟨y, ?_, hysaid⟩
      rw [hrecords, Function.update_of_ne]
      · exact hy
      · intro heq
        rw [heq] at hx hnamed
        rcases target_cases hs deviceId keys earlier a with
          hfresh | ⟨_, _, hcase⟩
        · rw [hid, hfresh, hnew.kept ha] at hx
          cases hx
        · rw [← hid] at hcase
          rcases hcase with hcase | hfound
          · exact hnamed hcase
          · apply hfound.2.2.2
            obtain ⟨hin, hkeyed⟩ := lookup_mem hlast
            obtain ⟨f, hf, rfl⟩ := List.mem_map.mp hin
            exact List.mem_map.mpr ⟨f, hf, heq ▸ hkeyed⟩

end Steps

section Runs

variable {locale : Locale} {s σ σ' : Storage} {userId deviceId : String} {keys : List String}
  {earlier rest desired : List Announcement} {a : Announcement} {m : StoredMaterialization}

theorem Stage.authorized (h : Stage s deviceId keys earlier σ)
    (hdevice : deviceAuthorized s userId deviceId = true) :
    deviceAuthorized σ userId deviceId = true := by
  rw [h.frame]
  exact hdevice

/-- One upsert among the materializations of the device that are looked at. -/
theorem device_update (locale : Locale) (hσ : Consistent σ) (hσ' : Consistent σ')
    (hdevice : deviceAuthorized σ userId deviceId = true)
    (hdevice' : deviceAuthorized σ' userId deviceId = true)
    (hrecords : σ'.materializations = Function.update σ.materializations m.id (some m))
    (hhost : m.host = .device deviceId) (ids : List String) :
    ((deviceMaterializations locale σ' userId deviceId).filter (·.id ∉ ids)).Perm
      ((if m.id ∈ ids then [] else [m]) ++
        (deviceMaterializations locale σ userId deviceId).filter (·.id ∉ m.id :: ids)) := by
  have hnodup : ((if m.id ∈ ids then [] else [m]) ++
      (deviceMaterializations locale σ userId deviceId).filter (·.id ∉ m.id :: ids)).Nodup := by
    have hrest := (nodup_deviceMaterializations locale userId deviceId hσ).filter
      (·.id ∉ m.id :: ids)
    split_ifs
    · exact hrest
    · rw [List.singleton_append, List.nodup_cons]
      exact ⟨by simp, hrest⟩
  rw [List.perm_ext_iff_of_nodup ((nodup_deviceMaterializations locale userId deviceId hσ').filter _) hnodup]
  intro x
  simp only [List.mem_filter, List.mem_append, mem_deviceMaterializations hσ' hdevice',
    mem_deviceMaterializations hσ hdevice, hrecords, decide_eq_true_eq, List.mem_cons, not_or]
  by_cases hx : x.id = m.id
  · rw [hx, Function.update_self]
    split_ifs with hmem
    · simp [hmem]
    · simp only [hmem, not_false_eq_true, and_true, not_true_eq_false, and_false, or_false,
        Option.some.injEq, List.mem_singleton]
      constructor
      · rintro ⟨rfl, _⟩
        rfl
      · rintro rfl
        exact ⟨rfl, hhost⟩
  · have hne : x ≠ m := fun heq => hx (heq ▸ rfl)
    rw [Function.update_of_ne hx]
    split_ifs <;> simp [hx, hne]

theorem next_announcement (hnew : NewIds s desired) (hkeys : (desired.map Announcement.key).Nodup)
    (hsplit : earlier ++ a::rest = desired) : (∀ e ∈ earlier, e ∈ desired) ∧ a ∈ desired ∧
      a.key ∉ earlier.map Announcement.key ∧ a.generated ∉ earlier.map (·.generated) := by
  have hnodup := hnew.nodup
  rw [← hsplit, List.map_append, List.map_cons, List.nodup_append] at hkeys hnodup
  exact ⟨fun e he => hsplit ▸ List.mem_append_left _ he, hsplit ▸ List.mem_append_right _ List.mem_cons_self,
    fun hmem => hkeys.2.2 _ hmem _ List.mem_cons_self rfl, fun hmem =>
      hnodup.2.2 _ hmem _ List.mem_cons_self rfl⟩

/-- The upserts of announcements that name their own. -/
theorem Stage.run (locale : Locale) (hs : Consistent s) (hnew : NewIds s desired)
    (hdevice : deviceAuthorized s userId deviceId = true)
    (hkeys : (desired.map Announcement.key).Nodup) (rest : List Announcement) (earlier : List Announcement)
    (σ : Storage) (hsplit : earlier ++ rest = desired) (h : Stage s deviceId keys earlier σ)
    (hown : ∀ a ∈ rest, NamesOwn s deviceId keys a) {result : List StoredMaterialization}
    (hrun : upsertAnnounced userId deviceId σ rest = (.ok result, σ')) :
    Stage s deviceId keys desired σ' ∧
      ((deviceMaterializations locale σ' userId deviceId).map (·.said)).Perm
        (((deviceMaterializations locale σ userId deviceId).filter
            (·.id ∉ targets s deviceId keys earlier rest)).map (·.said) ++
          (lasting s deviceId keys earlier rest).map (·.input.said)) := by
  induction rest generalizing earlier σ result with
  | nil =>
    cases hrun
    rw [List.append_nil] at hsplit
    subst hsplit
    refine ⟨h, ?_⟩
    simp [targets, lasting]
  | cons a rest ih =>
    obtain ⟨m, σ₁, later, hupsert, hlater⟩ := upsertAnnounced_cons hrun
    obtain ⟨hearlier, ha, hkey, hgenerated⟩ := next_announcement hnew hkeys hsplit
    obtain ⟨hid, hstage⟩ := h.step hs hnew hearlier ha hkey hgenerated (hown a List.mem_cons_self) hupsert
    obtain ⟨hfinal, hperm⟩ := ih (earlier ++ [a]) σ₁ (by rw [List.append_assoc]; exact hsplit) hstage
      (fun b hb => hown b (List.mem_cons_of_mem a hb)) hlater
    refine ⟨hfinal, hperm.trans ?_⟩
    have hm := (upsert_cases hupsert).2.1
    have hupdate := device_update locale h.consistent hstage.consistent (h.authorized hdevice)
      (hstage.authorized hdevice) (upsert_materializations hupsert) (by rw [hm]; rfl)
      (targets s deviceId keys (earlier ++ [a]) rest)
    have hsaid : m.said = a.input.said := by rw [hm]; rfl
    have hmap := (hupdate.map (·.said)).append_right
      ((lasting s deviceId keys (earlier ++ [a]) rest).map (·.input.said))
    refine hmap.trans ?_
    rw [targets, lasting, ← hid]
    split_ifs
    · rw [List.nil_append]
    · rw [List.singleton_append, List.map_cons, List.map_cons, hsaid]
      exact List.perm_middle.symm

/-- A record of another host is gone, or one is listed twice. -/
def Spoiled (s : Storage) (userId deviceId : String) (σ : Storage) : Prop :=
  (∃ id x y, s.materializations id = some x ∧ x.host ≠ .device deviceId ∧
    σ.materializations id = some y ∧ y.host = .device deviceId) ∨
  ∃ id r r' y, r ≠ r' ∧ (getRepositoryForUser s userId r).isSome = true ∧
    (getRepositoryForUser s userId r').isSome = true ∧ id ∈ σ.materializationIds r ∧
      id ∈ σ.materializationIds r' ∧
    σ.materializations id = some y ∧ y.host = .device deviceId

theorem spoiled_upsert (h : Spoiled s userId deviceId σ)
    (hupsert : upsertMaterialization σ userId deviceId a.input a.generated a.now = (.ok m, σ')) :
    Spoiled s userId deviceId σ' := by
  have hrecords := upsert_materializations hupsert
  have hhost : m.host = .device deviceId := by rw [(upsert_cases hupsert).2.1]; rfl
  have hkeep : ∀ id y, σ.materializations id = some y → y.host = .device deviceId →
      ∃ y', σ'.materializations id = some y' ∧ y'.host = .device deviceId := by
    intro id y hy hyhost
    by_cases hid : id = m.id
    · exact ⟨m, by rw [hrecords, hid, Function.update_self], hhost⟩
    · exact ⟨y, by rw [hrecords, Function.update_of_ne hid]; exact hy, hyhost⟩
  have hids : ∀ id r, id ∈ σ.materializationIds r → id ∈ σ'.materializationIds r := by
    intro id r hid
    rcases upsert_ids hupsert r with hsame | ⟨_, _, happend⟩
    · rwa [hsame]
    · rw [happend]
      exact List.mem_append_left _ hid
  rcases h with ⟨id, x, y, hx, hxhost, hy, hyhost⟩ | ⟨id, r, r', y, hne, hr, hr', hid, hid', hy, hyhost⟩
  · obtain ⟨y', hy', hyhost'⟩ := hkeep id y hy hyhost
    exact .inl ⟨id, x, y', hx, hxhost, hy', hyhost'⟩
  · obtain ⟨y', hy', hyhost'⟩ := hkeep id y hy hyhost
    exact .inr ⟨id, r, r', y', hne, hr, hr', hids id r hid, hids id r' hid', hy', hyhost'⟩

theorem spoiled_run (rest : List Announcement) (σ : Storage) (h : Spoiled s userId deviceId σ)
    {result : List StoredMaterialization} (hrun : upsertAnnounced userId deviceId σ rest = (.ok result, σ')) :
    Spoiled s userId deviceId σ' := by
  induction rest generalizing σ result with
  | nil =>
    cases hrun
    exact h
  | cons a rest ih =>
    obtain ⟨m, σ₁, later, hupsert, hlater⟩ := upsertAnnounced_cons hrun
    exact ih σ₁ (spoiled_upsert h hupsert) hlater

/-- The first announcement that names a record which is not its own. -/
theorem Stage.spoil (hs : Consistent s) (hdevice : deviceAuthorized s userId deviceId = true)
    (h : Stage s deviceId keys earlier σ) (hown : ¬ NamesOwn s deviceId keys a)
    (hupsert : upsertMaterialization σ userId deviceId a.input a.generated a.now = (.ok m, σ')) :
    Spoiled s userId deviceId σ' := by
  simp only [NamesOwn, not_forall] at hown
  obtain ⟨x, hx, hforeign⟩ := hown
  obtain ⟨id, hnamed, hx⟩ := Option.bind_eq_some_iff.mp hx
  obtain ⟨y, hy, hid, hrepository⟩ := h.present hs hx
  obtain ⟨hadmitted, hm, _⟩ := upsert_cases hupsert
  have hexisting : existingOnDevice σ deviceId a.input = some y := by
    have hbind : (a.input.id.filter (· ≠ "")).bind σ.materializations = some y := by
      rw [← MaterializationUpsertInput.named, hnamed]
      exact hy
    rw [existingOnDevice, hbind, Option.some_or]
  have hmid : m.id = id := by rw [hm, upserted_id hexisting, hid]
  have hhost : m.host = .device deviceId := by rw [hm]; rfl
  have hwritten : σ'.materializations id = some m := by
    rw [upsert_materializations hupsert, hmid, Function.update_self]
  by_cases hxhost : x.host = .device deviceId
  · have hne : x.repositoryId ≠ a.input.repositoryId := fun heq => hforeign ⟨hxhost, heq⟩
    obtain ⟨_, r, hr, howner⟩ := device_owner hs hdevice (keptAt_some hx)
    refine .inr ⟨id, x.repositoryId, a.input.repositoryId, m, hne, ?_, ?_, ?_, ?_, hwritten, hhost⟩
    · simp [getRepositoryForUser, hr, roleFor, howner]
    · have haccess := hadmitted.access
      rw [h.frame] at haccess
      exact haccess
    · have hmem : id ∈ σ.materializationIds x.repositoryId := by
        rw [← hrepository]
        exact h.consistent.materializations.mem_owner hy
      rcases upsert_ids hupsert x.repositoryId with hsame | ⟨heq, _⟩
      · rwa [hsame]
      · exact absurd heq hne
    · exact hmid ▸ upsert_listed hupsert
  · exact .inl ⟨id, x, m, keptAt_some hx, hxhost, hwritten, hhost⟩

theorem Stage.spoils (hs : Consistent s) (hnew : NewIds s desired)
    (hdevice : deviceAuthorized s userId deviceId = true)
    (hkeys : (desired.map Announcement.key).Nodup) (rest : List Announcement) (earlier : List Announcement)
    (σ : Storage) (hsplit : earlier ++ rest = desired) (h : Stage s deviceId keys earlier σ)
    (hforeign : ∃ a ∈ rest, ¬ NamesOwn s deviceId keys a) {result : List StoredMaterialization}
    (hrun : upsertAnnounced userId deviceId σ rest = (.ok result, σ')) : Spoiled s userId deviceId σ' := by
  induction rest generalizing earlier σ result with
  | nil =>
    obtain ⟨a, ha, _⟩ := hforeign
    cases ha
  | cons a rest ih =>
    obtain ⟨m, σ₁, later, hupsert, hlater⟩ := upsertAnnounced_cons hrun
    by_cases hown : NamesOwn s deviceId keys a
    · obtain ⟨hearlier, ha, hkey, hgenerated⟩ := next_announcement hnew hkeys hsplit
      obtain ⟨_, hstage⟩ := h.step hs hnew hearlier ha hkey hgenerated hown hupsert
      refine ih (earlier ++ [a]) σ₁ (by rw [List.append_assoc]; exact hsplit) hstage ?_ hlater
      obtain ⟨b, hb, hbforeign⟩ := hforeign
      rcases List.mem_cons.mp hb with rfl | hb
      · exact absurd hown hbforeign
      · exact ⟨b, hb, hbforeign⟩
    · exact spoiled_run rest σ₁ (h.spoil hs hdevice hown hupsert) hlater

end Runs

end AccessStack.Accounts
