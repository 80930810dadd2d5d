import AccessStack.Accounts.Exactness

/-!
# When a reconciliation is exact

It is, when every announcement names a record of its own or none, and when
what the announcements leave over is what they overtake. A second call then
goes on from the records that the first one left.
-/

set_option autoImplicit false

namespace AccessStack.Accounts
open AccessStack.Index AccessStack.Text AccessStack.Keys AccessStack.Runs

section Calls

variable {locale : Locale} {s s' : Storage} {userId deviceId : String} {desired : List Announcement}

theorem checkAnnouncements_none (desired : List Announcement) (keys : List String) :
    checkAnnouncements s userId keys desired = none ↔
      (∀ a ∈ desired, a.key ∉ keys) ∧ (desired.map Announcement.key).Nodup ∧
        ∀ a ∈ desired, (getRepositoryForUser s userId a.input.repositoryId).isSome = true := by
  induction desired generalizing keys with
  | nil => simp [checkAnnouncements]
  | cons a rest ih =>
    unfold checkAnnouncements
    split_ifs with hkey haccess
    · simp [hkey]
    · have hnone : ¬ (getRepositoryForUser s userId a.input.repositoryId).isSome = true := by
        simpa using haccess
      simp [hnone]
    · have hsome : (getRepositoryForUser s userId a.input.repositoryId).isSome = true := by
        simpa [Option.isSome_iff_ne_none] using haccess
      rw [ih]
      simp only [List.mem_append, List.mem_singleton, not_or, List.forall_mem_cons, List.map_cons,
        List.nodup_cons, hkey, hsome, not_false_eq_true, true_and]
      constructor
      · rintro ⟨hnew, hnodup, hsome⟩
        refine ⟨fun b hb => (hnew b hb).1, ⟨?_, hnodup⟩, hsome⟩
        intro hmem
        obtain ⟨b, hb, hsame⟩ := List.mem_map.mp hmem
        exact (hnew b hb).2 hsame
      · rintro ⟨hnew, ⟨hnot, hnodup⟩, hsome⟩
        exact ⟨fun b hb => ⟨hnew b hb, fun hsame => hnot (List.mem_map.mpr ⟨b, hb, hsame⟩)⟩, hnodup, hsome⟩

/-- A reconciliation that succeeds has made all of its upserts. -/
theorem reconcile_ok {result : List StoredMaterialization}
    (h : reconcileDeviceMaterializations locale s userId deviceId desired = (.ok result, s')) :
    deviceAuthorized s userId deviceId = true ∧ (desired.map Announcement.key).Nodup ∧
      (∀ a ∈ desired, (getRepositoryForUser s userId a.input.repositoryId).isSome = true) ∧
      upsertAnnounced userId deviceId (deleteAllUnannounced locale s userId deviceId desired) desired =
        (.ok result, s') := by
  unfold reconcileDeviceMaterializations at h
  split at h
  · cases h
  · rename_i hdevice
    split at h
    · cases h
    · rename_i hcheck
      obtain ⟨_, hnodup, haccess⟩ := (checkAnnouncements_none desired []).mp hcheck
      exact ⟨by simpa using hdevice, hnodup, haccess, h⟩

/-- Distinct repositories and workspace ids are announced. -/
theorem nodup_said (h : (desired.map Announcement.key).Nodup) : (desired.map (·.input.said)).Nodup := by
  have hkey : desired.map Announcement.key =
      (desired.map (·.input.said)).map fun said => materializationIdentityKey said.1 said.2.1 := by
    rw [List.map_map]
    rfl
  rw [hkey] at h
  exact h.of_map _

theorem stage_start (locale : Locale) (desired : List Announcement) (hs : Consistent s)
    (hdevice : deviceAuthorized s userId deviceId = true) :
    Stage s deviceId (desired.map Announcement.key) []
    (deleteAllUnannounced locale s userId deviceId desired) := by
  obtain ⟨hcleared, hrecords⟩ := deleted locale hs hdevice desired
  refine ⟨hcleared.consistent, hcleared.frame, ?_, ?_, ?_, ?_⟩
  · intro r
    refine ⟨[], ?_, fun id hid => absurd hid List.not_mem_nil⟩
    rw [hcleared.ids r, hrecords, List.append_nil]
  · intro id _
    rw [hrecords]
  · intro id hid
    cases hid
  · intro id x e _ hlast
    cases hlast

/-- What the announcements leave over stood there before. -/
theorem leftOver_perm (locale : Locale) (desired : List Announcement) (hs : Consistent s)
    (hdevice : deviceAuthorized s userId deviceId = true) :
    ((deviceMaterializations locale (deleteAllUnannounced locale s userId deviceId desired) userId
      deviceId).filter
      (·.id ∉ targets s deviceId (desired.map Announcement.key) [] desired)).Perm
      (leftOver s deviceId (desired.map Announcement.key) locale userId desired) := by
  have hstart := stage_start locale desired hs hdevice
  obtain ⟨_, hrecords⟩ := deleted locale hs hdevice desired
  rw [leftOver,
    List.perm_ext_iff_of_nodup
    ((nodup_deviceMaterializations locale userId deviceId hstart.consistent).filter _)
    ((nodup_deviceMaterializations locale userId deviceId hs).filter _)]
  intro x
  simp only [List.mem_filter, decide_eq_true_eq, mem_deviceMaterializations hstart.consistent
    (hstart.authorized hdevice), mem_deviceMaterializations hs hdevice, hrecords]
  constructor
  · rintro ⟨⟨hx, hhost⟩, hnot⟩
    exact ⟨⟨keptAt_some hx, hhost⟩, by rw [hx]; rfl, hnot⟩
  · rintro ⟨⟨hx, hhost⟩, hsome, hnot⟩
    obtain ⟨y, hy⟩ := Option.isSome_iff_exists.mp hsome
    have heq := keptAt_some hy
    rw [hx] at heq
    cases heq
    exact ⟨⟨hy, hhost⟩, hnot⟩

theorem overtaken_perm (s : Storage) (deviceId : String) (keys : List String)
    (rest earlier : List Announcement) :
    (overtaken s deviceId keys earlier rest ++ lasting s deviceId keys earlier rest).Perm rest := by
  induction rest generalizing earlier with
  | nil => rfl
  | cons a rest ih =>
    rw [overtaken, lasting]
    split_ifs
    · exact (ih _).cons a
    · exact List.perm_middle.trans ((ih _).cons a)

/-- The device has exactly what it announces when what is left over says what
is overtaken. -/
theorem own_iff (hs : Consistent s) (hnew : NewIds s desired) {result : List StoredMaterialization}
    (h : reconcileDeviceMaterializations locale s userId deviceId desired = (.ok result, s'))
    (hown : ∀ a ∈ desired, NamesOwn s deviceId (desired.map Announcement.key) a) :
    ((deviceMaterializations locale s' userId deviceId).map (·.said)).Perm (desired.map (·.input.said)) ↔
      ((leftOver s deviceId (desired.map Announcement.key) locale userId desired).map (·.said)).Perm
        ((overtaken s deviceId (desired.map Announcement.key) [] desired).map (·.input.said)) := by
  obtain ⟨hdevice, hkeys, _, hrun⟩ := reconcile_ok h
  obtain ⟨_, hperm⟩ :=
    Stage.run locale hs hnew hdevice hkeys desired [] _ rfl (stage_start locale desired hs hdevice)
    hown hrun
  have hall := (overtaken_perm s deviceId (desired.map Announcement.key) desired []).map
    (·.input.said)
  rw [List.map_append] at hall
  have hleft := ((leftOver_perm locale desired hs hdevice).map (·.said)).append_right
    ((lasting s deviceId (desired.map Announcement.key) [] desired).map (·.input.said))
  rw [(hperm.trans hleft).congr_left, hall.symm.congr_right, List.perm_append_right_iff]

/-- Upserts write materializations and their indexes only. -/
theorem upsertAnnounced_frame {σ : Storage} (rest : List Announcement) (hσ : σ = { s with
      materializations := σ.materializations, repositoryMaterializationIds :=
        σ.repositoryMaterializationIds })
    {result : List StoredMaterialization} (h : upsertAnnounced userId deviceId σ rest = (.ok result, s')) :
    s' = { s with
      materializations := s'.materializations,
      repositoryMaterializationIds := s'.repositoryMaterializationIds } := by
  induction rest generalizing σ result with
  | nil =>
    cases h
    exact hσ
  | cons a rest ih =>
    obtain ⟨m, σ₁, later, hupsert, hlater⟩ := upsertAnnounced_cons h
    refine ih ?_ hlater
    obtain ⟨_, _, ⟨_, rfl⟩ | ⟨_, _, rfl⟩⟩ := upsert_cases hupsert
    · conv_lhs => rw [hσ]
      rfl
    · conv_lhs => rw [hσ]
      rfl

/-- A spoiled storage is not reconciled. -/
theorem Spoiled.not_reconciled (hs : Consistent s) (hkeys : (desired.map Announcement.key).Nodup)
    (hframe : s' = { s with
      materializations := s'.materializations, repositoryMaterializationIds :=
        s'.repositoryMaterializationIds })
    (h : Spoiled s userId deviceId s') : ¬ Reconciled locale s s' userId deviceId desired := by
  intro hreconciled
  rcases h with ⟨id, x, y, hx, hxhost, hy, hyhost⟩ | ⟨id, r, r', y, hne, hr, hr', hid, hid', hy, hyhost⟩
  · have hsame := (hreconciled.others id x hxhost).mpr hx
    rw [hy] at hsame
    cases hsame
    exact hxhost hyhost
  · have hnodup := ((hreconciled.own.nodup_iff).mpr (nodup_said hkeys)).of_map
    rw [deviceMaterializations, listStoredMaterializations, List.filter_flatMap, List.nodup_flatMap] at hnodup
    have hin : ∀ k, (getRepositoryForUser s userId k).isSome = true → id ∈ s'.materializationIds k →
        ∃ access ∈ listRepositories locale s' userId, access.1.id = k ∧
          y ∈ (listMaterializations s' userId access.1.id).filter (·.host = .device deviceId) := by
      intro k hk hmem
      have hk' : getRepositoryForUser s' userId k = getRepositoryForUser s userId k := by
        rw [hframe]
        rfl
      obtain ⟨⟨q, role⟩, haccess⟩ := Option.isSome_iff_exists.mp hk
      obtain ⟨q', hq, hrole⟩ := Option.bind_eq_some_iff.mp haccess
      obtain ⟨_, hrole, heq⟩ := Option.map_eq_some_iff.mp hrole
      cases heq
      have hqid := (hs.repository k q hq).1
      have howner : q.ownerUserId = userId := by
        unfold roleFor at hrole
        split_ifs at hrole with howner
        exact howner
      refine ⟨(q, role), ?_, hqid, ?_⟩
      · rw [listRepositories, List.mem_insertionSort]
        refine List.mem_filterMap.mpr ⟨k, ?_, hk'.trans haccess⟩
        rw [hframe, ← howner]
        exact hs.repositories.mem_owner hq
      · rw [hqid, listMaterializations, hk', haccess]
        simp only [Option.isNone_some, Bool.false_eq_true, if_false, List.mem_filter, hyhost,
          decide_true, and_true]
        exact List.mem_filterMap.mpr ⟨id, hmem, hy⟩
    obtain ⟨access, hmem, rfl, hy₁⟩ := hin r hr hid
    obtain ⟨access', hmem', rfl, hy₂⟩ := hin r' hr' hid'
    have hsymm : Std.Symm (Function.onFun List.Disjoint fun access : StoredRepository × RepositoryRole =>
        (listMaterializations s' userId access.1.id).filter (·.host = .device deviceId)) :=
      ⟨fun _ _ hdisjoint => hdisjoint.symm⟩
    have hdisjoint := hnodup.2.forall hmem hmem' (fun heq => hne (heq ▸ rfl))
    exact hdisjoint hy₁ hy₂

end Calls

section Kept

variable {locale : Locale} {s s' σ : Storage} {userId deviceId : String} {keys : List String}
  {desired : List Announcement}

/-- What other hosts have is left alone. -/
theorem Stage.others (hs : Consistent s) (hnew : NewIds s desired) (h : Stage s deviceId keys desired σ)
    (hown : ∀ a ∈ desired, NamesOwn s deviceId keys a) (id : String) (x : StoredMaterialization)
    (hhost : x.host ≠ .device deviceId) : σ.materializations id = some x ↔ s.materializations id =
      some x := by
  constructor
  · intro hx
    by_cases hmem : id ∈ targets s deviceId keys [] desired
    · obtain ⟨_, _, y, hy, hyhost, _⟩ := h.written id hmem
      rw [hx] at hy
      cases hy
      exact absurd hyhost hhost
    · rw [h.untouched id hmem] at hx
      exact keptAt_some hx
  · intro hx
    have hkept : keptAt s deviceId keys id = some x := keptAt_other hx hhost
    rw [h.untouched id, hkept]
    intro hmem
    obtain ⟨e, he, before, htarget⟩ := mem_targets hmem
    subst htarget
    rcases target_cases hs deviceId keys before e with
      hgenerated | ⟨y, hy, hnamed | ⟨hyhost, _⟩⟩
    · rw [hgenerated, hnew.kept he] at hkept
      cases hkept
    · rw [hkept] at hy
      cases hy
      exact hhost (hown e he x (by rw [hnamed]; exact hkept)).1
    · rw [hkept] at hy
      cases hy
      exact hhost hyhost

/-- The indexes list what other hosts have as before. -/
theorem Stage.listed (hs : Consistent s) (hnew : NewIds s desired) (h : Stage s deviceId keys desired σ)
    (hown : ∀ a ∈ desired, NamesOwn s deviceId keys a) (repositoryId : String) :
    othersListed σ deviceId repositoryId = othersListed s deviceId repositoryId := by
  have hsame : ∀ id, (σ.materializations id).filter (·.host ≠ .device deviceId) =
      (s.materializations id).filter (·.host ≠ .device deviceId) := by
    intro id
    ext x
    simp only [Option.filter_eq_some_iff, decide_eq_true_eq]
    exact and_congr_left (h.others hs hnew hown id x)
  obtain ⟨added, hids, hadded⟩ := h.ids repositoryId
  have hnone :
      (added.filterMap fun id => (σ.materializations id).filter (·.host ≠ .device deviceId)) = [] := by
    apply List.filterMap_eq_nil_iff.mpr
    intro id hid
    obtain ⟨e, he, rfl⟩ := List.mem_map.mp (hadded id hid)
    rw [hsame, hnew.absent e he]
    rfl
  rw [othersListed, othersListed, List.filter_filterMap, List.filter_filterMap, hids,
    List.filterMap_append, hnone, List.append_nil, List.filterMap_filter]
  apply List.filterMap_congr
  intro id _
  rw [hsame]
  cases hkept : keptAt s deviceId keys id with
  | some x => rfl
  | none =>
    symm
    apply Option.filter_eq_none_iff.mpr
    intro x hx hhost
    rw [decide_eq_true_eq] at hhost
    rw [keptAt_other hx hhost] at hkept
    cases hkept

end Kept

section Again

variable {locale : Locale} {s s' σ σ' : Storage} {userId deviceId : String} {keys : List String}
  {desired : List Announcement} {inputs pre rest : List MaterializationUpsertInput}
    {input : MaterializationUpsertInput}

/-- What a reconciliation has settled: the device has what was announced, and
the last announcement to name a record wrote it. -/
structure Settles (s : Storage) (userId deviceId : String)
    (inputs : List MaterializationUpsertInput) : Prop where
  consistent : Consistent s
  authorized : deviceAuthorized s userId deviceId = true
  access : ∀ input ∈ inputs, (getRepositoryForUser s userId input.repositoryId).isSome = true
  apart : (inputs.map fun input => (input.repositoryId, input.workspaceId)).Nodup
  said : ∀ x, s.materializations x.id = some x → x.host = .device deviceId → x.said ∈ inputs.map (·.said)
  stored : ∀ input ∈ inputs, ∃ x, s.materializations x.id = some x ∧ x.host = .device deviceId ∧
    x.said = input.said
  unique : ∀ x y, s.materializations x.id = some x → s.materializations y.id = some y →
    x.host = .device deviceId →
    y.host = .device deviceId → x.said = y.said → x = y
  named : ∀ input ∈ inputs, ∀ id, input.named = some id → ∀ x, s.materializations id = some x →
    x.host = .device deviceId ∧ x.repositoryId = input.repositoryId ∧
      ∃ last, lookup MaterializationUpsertInput.named inputs (some id) = some last ∧ x.said = last.said

theorem Stage.settles (hs : Consistent s) (hnew : NewIds s desired) (h : Stage s deviceId keys desired σ)
    (hdevice : deviceAuthorized s userId deviceId = true) (hkeys : (desired.map Announcement.key).Nodup)
    (haccess : ∀ a ∈ desired, (getRepositoryForUser s userId a.input.repositoryId).isSome = true)
    (hown : ∀ a ∈ desired, NamesOwn s deviceId keys a)
    (hperm : ((deviceMaterializations locale σ userId deviceId).map (·.said)).Perm
      (desired.map (·.input.said))) :
    Settles σ userId deviceId (desired.map (·.input)) := by
  have hdevice' := h.authorized hdevice
  have hsaid : (desired.map (·.input)).map (·.said) = desired.map (·.input.said) := by
    rw [List.map_map]
    rfl
  have hmem : ∀ x, x ∈ deviceMaterializations locale σ userId deviceId ↔
      σ.materializations x.id = some x ∧ x.host = .device deviceId :=
    fun x => mem_deviceMaterializations h.consistent hdevice'
  refine ⟨h.consistent, hdevice', ?_, ?_, ?_, ?_, ?_, ?_⟩
  · intro input hinput
    obtain ⟨a, ha, rfl⟩ := List.mem_map.mp hinput
    rw [h.frame]
    exact haccess a ha
  · have hkey : desired.map Announcement.key =
        ((desired.map (·.input)).map fun input => (input.repositoryId, input.workspaceId)).map
          fun pair => materializationIdentityKey pair.1 pair.2 := by
      simp only [List.map_map]
      rfl
    rw [hkey] at hkeys
    exact hkeys.of_map _
  · intro x hx hhost
    rw [hsaid]
    exact hperm.mem_iff.mp (List.mem_map_of_mem ((hmem x).mpr ⟨hx, hhost⟩))
  · intro input hinput
    obtain ⟨a, ha, rfl⟩ := List.mem_map.mp hinput
    obtain ⟨x, hx, heq⟩ :=
      List.mem_map.mp (hperm.mem_iff.mpr (List.mem_map_of_mem (f := fun a => a.input.said) ha))
    obtain ⟨hstored, hhost⟩ := (hmem x).mp hx
    exact ⟨x, hstored, hhost, heq⟩
  · intro x y hx hy hxhost hyhost heq
    have hnodup := (hperm.nodup_iff).mpr (nodup_said hkeys)
    exact List.inj_on_of_nodup_map hnodup ((hmem x).mpr ⟨hx, hxhost⟩) ((hmem y).mpr ⟨hy, hyhost⟩) heq
  · intro input hinput id hnamed y hy
    obtain ⟨a, ha, rfl⟩ := List.mem_map.mp hinput
    cases hkept : keptAt s deviceId keys id with
    | none =>
      rw [h.absent hs hnew (fun _ he => he) ha hnamed hkept] at hy
      cases hy
    | some x =>
      obtain ⟨z, hz, _, hrepository⟩ := h.present hs hkept
      rw [hy] at hz
      cases hz
      obtain ⟨_, _, w, hw, hhost, _⟩ := h.written id (named_targets hs ha hnamed hkept)
      rw [hy] at hw
      cases hw
      have hlast :
          (lookup MaterializationUpsertInput.named (desired.map (·.input)) (some id)).isSome = true :=
        lookup_isSome.mpr (List.mem_map.mpr ⟨a.input, hinput, hnamed⟩)
      obtain ⟨last, hlast⟩ := Option.isSome_iff_exists.mp hlast
      obtain ⟨v, hv, hvsaid⟩ := h.named id x last hkept hlast
      rw [hy] at hv
      cases hv
      exact ⟨hhost, hrepository.trans (hown a ha x (by rw [hnamed]; exact hkept)).2, last, hlast, hvsaid⟩

/-- A storage in the second reconciliation: every record is as before, or an
announcement to come names it. -/
structure Redone (s : Storage) (pre rest : List MaterializationUpsertInput) (σ : Storage) : Prop where
  frame : σ = { s with materializations := σ.materializations }
  records : ∀ id, (σ.materializations id).map (fun m => { m with updatedAt := "" }) =
      (s.materializations id).map (fun m => { m with updatedAt := "" }) ∨
    ∃ y x, σ.materializations id = some y ∧ s.materializations id = some x ∧ y.id = id ∧
      y.repositoryId = x.repositoryId ∧ (∃ e ∈ pre, y.said = e.said) ∧
        some id ∈ rest.map MaterializationUpsertInput.named

theorem same_record {x y : StoredMaterialization}
    (h : (some y).map (fun m => { m with updatedAt := "" }) =
      (some x).map (fun m => { m with updatedAt := "" })) :
    y.id = x.id ∧ y.said = x.said ∧ y.host = x.host ∧ y.userId = x.userId := by
  simp only [Option.map_some, Option.some.injEq, StoredMaterialization.mk.injEq] at h
  exact ⟨h.1, by simp only [StoredMaterialization.said, h], h.2.2.2.1, h.2.2.1⟩

/-- Something is stored under the same ids. -/
theorem Redone.stored (h : Redone s pre rest σ) (hs : Consistent s) {id : String} {x : StoredMaterialization}
    (hx : s.materializations id = some x) : ∃ y, σ.materializations id = some y ∧ y.id = id := by
  rcases h.records id with hsame | ⟨y, _, hy, _, hid, _⟩
  · cases hy : σ.materializations id with
    | none =>
      rw [hy, hx] at hsame
      cases hsame
    | some y =>
      rw [hy, hx] at hsame
      exact ⟨y, rfl, (same_record hsame).1.trans (hs.materialization id x hx).1⟩
  · exact ⟨y, hy, hid⟩

/-- An announcement of the second reconciliation goes on from a record that
says the same, or that a later one names. -/
theorem Redone.source (h : Redone s pre (input::rest) σ) (hs : Settles s userId deviceId inputs)
    (hsplit : pre ++ input::rest = inputs) : ∃ x y, s.materializations x.id = some x ∧
    x.host = .device deviceId ∧
      x.repositoryId = input.repositoryId ∧ existingOnDevice σ deviceId input = some y ∧ y.id = x.id ∧
      (x.said = input.said ∨ some x.id ∈ rest.map MaterializationUpsertInput.named) := by
  have hinput : input ∈ inputs := hsplit ▸ List.mem_append_right _ List.mem_cons_self
  have hbind : existingOnDevice σ deviceId input = (input.named.bind σ.materializations).or
      (findMaterialization σ (σ.materializationIds input.repositoryId)
        (.device deviceId) input.workspaceId) := rfl
  cases hnamed : input.named.bind s.materializations with
  | some x =>
    obtain ⟨id, hid, hx⟩ := Option.bind_eq_some_iff.mp hnamed
    obtain ⟨hhost, hrepository, last, hlast, hsaid⟩ := hs.named input hinput id hid x hx
    have hxid := (hs.consistent.materialization id x hx).1
    subst hxid
    obtain ⟨y, hy, hyid⟩ := h.stored hs.consistent hx
    refine ⟨x, y, hx, hhost, hrepository, by rw [hbind, hid, Option.bind_some, hy, Option.some_or], hyid, ?_⟩
    by_cases hlater : some x.id ∈ rest.map MaterializationUpsertInput.named
    · exact .inr hlater
    · left
      have hnone : rest.reverse.find? (fun e => e.named = some x.id) = none := lookup_eq_none.mpr hlater
      rw [← hsplit, lookup, List.reverse_append, List.reverse_cons, List.append_assoc,
        List.find?_append, hnone, Option.none_or, List.singleton_append, List.find?_cons] at hlast
      simp only [hid, decide_true, Option.some.injEq] at hlast
      rw [hsaid, hlast]
  | none =>
    obtain ⟨x, hx, hhost, hsaid⟩ := hs.stored input hinput
    have hpair : x.repositoryId = input.repositoryId ∧ x.workspaceId = input.workspaceId := by
      simp only [StoredMaterialization.said, MaterializationUpsertInput.said, Prod.mk.injEq] at hsaid
      exact ⟨hsaid.1, hsaid.2.1⟩
    have hpairs : ∀ e ∈ inputs, e.repositoryId = input.repositoryId →
        e.workspaceId = input.workspaceId → e = input :=
      fun e he hrepository hworkspace =>
        List.inj_on_of_nodup_map hs.apart he hinput (by rw [hrepository, hworkspace])
    have hunnamed : some x.id ∉ inputs.map MaterializationUpsertInput.named := by
      intro hmem
      obtain ⟨f, hf, hfnamed⟩ := List.mem_map.mp hmem
      obtain ⟨_, _, last, hlast, heq⟩ := hs.named f hf x.id hfnamed x hx
      obtain ⟨hlast, hlastnamed⟩ := lookup_mem hlast
      simp only [hsaid, MaterializationUpsertInput.said, Prod.mk.injEq] at heq
      rw [hpairs last hlast heq.1.symm heq.2.1.symm] at hlastnamed
      rw [hlastnamed, Option.bind_some, hx] at hnamed
      cases hnamed
    have hsame : ∀ id, some id ∉ inputs.map MaterializationUpsertInput.named →
        (σ.materializations id).map (fun m => { m with updatedAt := "" }) =
          (s.materializations id).map (fun m => { m with updatedAt := "" }) := by
      intro id hid
      rcases h.records id with hsame | ⟨_, _, _, _, _, _, _, hmem⟩
      · exact hsame
      · rw [← hsplit, List.map_append] at hid
        exact absurd (List.mem_append_right _ hmem) hid
    have hunstored : input.named.bind σ.materializations = none := by
      cases hid : input.named with
      | none => rfl
      | some id =>
        rw [hid, Option.bind_some] at hnamed
        rw [Option.bind_some]
        rcases h.records id with hsame | ⟨_, x, _, hx, _⟩
        · rw [hnamed] at hsame
          simpa using hsame
        · rw [hnamed] at hx
          cases hx
    have hids : σ.materializationIds = s.materializationIds := by
      rw [h.frame]
      rfl
    obtain ⟨y, hy, hyid⟩ := h.stored hs.consistent hx
    have hysame := hsame x.id hunnamed
    rw [hy, hx] at hysame
    obtain ⟨_, hysaid, hyhost, _⟩ := same_record hysame
    have hfound : (findMaterialization σ (σ.materializationIds input.repositoryId) (.device deviceId)
        input.workspaceId).isSome = true := by
      rw [findMaterialization, List.find?_isSome, hids]
      refine ⟨y, List.mem_filterMap.mpr ⟨x.id, ?_, hy⟩, ?_⟩
      · rw [← hpair.1]
        exact hs.consistent.materializations.mem_owner hx
      · simp only [StoredMaterialization.said, Prod.mk.injEq] at hysaid
        rw [decide_eq_true_eq]
        exact ⟨hyhost.trans hhost, hysaid.2.1.trans hpair.2⟩
    obtain ⟨w, hw⟩ := Option.isSome_iff_exists.mp hfound
    refine ⟨x, w, hx, hhost, hpair.1, by rw [hbind, hunstored, Option.none_or, hw], ?_, .inl hsaid⟩
    obtain ⟨hwhost, hwworkspace⟩ := found_matches hw
    obtain ⟨id, hid, hwid⟩ := List.mem_filterMap.mp (List.mem_of_find?_eq_some hw)
    rw [hids] at hid
    obtain ⟨v, hv, hvrepository⟩ := hs.consistent.materializations.listed hid
    rcases h.records id with hsame | ⟨z, v', hz, hv', _, hrepository, ⟨e, he, hesaid⟩, _⟩
    · rw [hwid, hv] at hsame
      obtain ⟨hwv, hwsaid, hwvhost, _⟩ := same_record hsame
      have hvid := (hs.consistent.materialization id v hv).1
      have hvstored : s.materializations v.id = some v := by rw [hvid]; exact hv
      have hvhost : v.host = .device deviceId := hwvhost.symm.trans hwhost
      obtain ⟨d, hd, hdsaid⟩ := List.mem_map.mp (hs.said v hvstored hvhost)
      simp only [StoredMaterialization.said, Prod.mk.injEq] at hwsaid
      have hdinput : d = input := by
        simp only [StoredMaterialization.said, MaterializationUpsertInput.said, Prod.mk.injEq] at hdsaid
        exact hpairs d hd (hdsaid.1.trans hvrepository) (hdsaid.2.1.trans (hwsaid.2.1.symm.trans hwworkspace))
      rw [hdinput] at hdsaid
      rw [hwv, hs.unique v x hvstored hx hvhost hhost (hdsaid.symm.trans hsaid.symm)]
    · exfalso
      rw [hwid] at hz
      cases hz
      rw [hv] at hv'
      cases hv'
      simp only [StoredMaterialization.said, MaterializationUpsertInput.said, Prod.mk.injEq] at hesaid
      have hein : e ∈ inputs := hsplit ▸ List.mem_append_left _ he
      have heq := hpairs e hein (hesaid.1.symm.trans (hrepository.trans hvrepository))
        (hesaid.2.1.symm.trans hwworkspace)
      have hapart := hs.apart
      rw [← hsplit, List.map_append, List.map_cons, List.nodup_append] at hapart
      exact hapart.2.2 _ (List.mem_map_of_mem he) _ List.mem_cons_self (by rw [heq])

theorem Redone.step (h : Redone s pre (input::rest) σ) (hs : Settles s userId deviceId inputs)
    (hsplit : pre ++ input::rest = inputs) (generated now : String) : ∃ m σ',
      upsertMaterialization σ userId deviceId input generated now = (.ok m, σ') ∧
      Redone s (pre ++ [input]) rest σ' := by
  have hinput : input ∈ inputs := hsplit ▸ List.mem_append_right _ List.mem_cons_self
  obtain ⟨x, y, hx, hhost, hrepository, hexisting, hyid, hcase⟩ := h.source hs hsplit
  have hadmitted : Admitted σ userId input.repositoryId (.device deviceId) := by
    rw [h.frame]
    exact ⟨hs.access input hinput, hs.authorized⟩
  have hid : (upserted σ userId (.device deviceId) input generated now).id = x.id := by
    rw [upserted_id hexisting, hyid]
  have hmem : x.id ∈ σ.materializationIds input.repositoryId := by
    rw [h.frame, ← hrepository]
    exact hs.consistent.materializations.mem_owner hx
  have hupsert : upsertMaterialization σ userId deviceId input generated now =
      (.ok (upserted σ userId (.device deviceId) input generated now),
        σ.putMaterialization (upserted σ userId (.device deviceId) input generated now)) := by
    have hstored : upsertOn σ userId (.device deviceId) input generated now = _ := upsertOn_admitted hadmitted
    refine hstored.trans ?_
    unfold storeMaterialization
    rw [hid]
    exact if_pos hmem
  have hframe : ∀ m, σ.putMaterialization m =
      { s with materializations := (σ.putMaterialization m).materializations } := by
    intro m
    conv_lhs => rw [h.frame]
    rfl
  refine ⟨_, _, hupsert, hframe _, ?_⟩
  · intro id
    rw [upsert_materializations hupsert, hid]
    by_cases hsame : id = x.id
    · subst hsame
      rw [Function.update_self]
      by_cases hsaid : x.said = input.said
      · left
        rw [hx, Option.map_some, Option.map_some, Option.some.injEq]
        have huser := (device_owner hs.consistent hs.authorized hx).1
        simp only [StoredMaterialization.said, MaterializationUpsertInput.said, Prod.mk.injEq] at hsaid
        simp only [StoredMaterialization.mk.injEq, hid, true_and, and_true]
        exact ⟨hsaid.1.symm, huser.symm, hhost.symm, hsaid.2.1.symm, hsaid.2.2.1.symm, hsaid.2.2.2.symm⟩
      · right
        exact ⟨_, x, rfl, hx, hid, hrepository.symm, ⟨input, by simp, rfl⟩, hcase.resolve_left hsaid⟩
    · rw [Function.update_of_ne hsame]
      rcases h.records id with hsame | ⟨z, v, hz, hv, hzid, hzrepository, ⟨e, he, hsaid⟩, hnamed⟩
      · exact .inl hsame
      · rcases List.mem_cons.mp hnamed with hnow | hlater
        · exfalso
          have hbind : existingOnDevice σ deviceId input = some z := by
            have hnamed : (input.id.filter (· ≠ "")).bind σ.materializations = some z := by
              rw [← MaterializationUpsertInput.named, ← hnow]
              exact hz
            rw [existingOnDevice, hnamed, Option.some_or]
          rw [hexisting] at hbind
          cases hbind
          exact hsame (hzid.symm.trans hyid)
        · exact .inr ⟨z, v, hz, hv, hzid, hzrepository, ⟨e, List.mem_append_left _ he, hsaid⟩, hlater⟩

/-- The upserts of a second reconciliation. -/
theorem Redone.run (hs : Settles s userId deviceId inputs) (again : List Announcement)
    (pre : List MaterializationUpsertInput) (σ : Storage) (hsplit : pre ++ again.map (·.input) = inputs)
    (h : Redone s pre (again.map (·.input)) σ) :
    ∃ result σ', upsertAnnounced userId deviceId σ again = (.ok result, σ') ∧ SameButTimes s σ' := by
  induction again generalizing pre σ with
  | nil =>
    refine ⟨[], σ, rfl, h.frame, ?_⟩
    intro id
    rcases h.records id with hsame | ⟨_, _, _, _, _, _, _, hmem⟩
    · exact hsame
    · cases hmem
  | cons a again ih =>
    obtain ⟨m, σ₁, hupsert, hnext⟩ := h.step hs hsplit a.generated a.now
    obtain ⟨result, σ', hrun, hsame⟩ :=
      ih (pre ++ [a.input]) σ₁ (by rw [List.append_assoc]; exact hsplit) hnext
    exact ⟨m::result, σ', by simp only [upsertAnnounced, hupsert, hrun], hsame⟩

theorem foldl_fixed {α : Type} {f : Storage → α → Storage} {l : List α} (h : ∀ a ∈ l, f s a = s) :
    l.foldl f s = s := by
  induction l with
  | nil => rfl
  | cons a l ih =>
    rw [List.foldl_cons, h a List.mem_cons_self]
    exact ih fun b hb => h b (List.mem_cons_of_mem a hb)

/-- A second reconciliation has nothing to delete. -/
theorem Settles.undeleted (hs : Settles s userId deviceId inputs) {again : List Announcement}
    (hagain : again.map (·.input) = inputs) : deleteAllUnannounced locale s userId deviceId again = s := by
  apply foldl_fixed
  intro access _
  apply foldl_fixed
  intro x hx
  apply if_neg
  rintro ⟨hhost, hkey⟩
  apply hkey
  have hstored : s.materializations x.id = some x := by
    unfold listMaterializations at hx
    split_ifs at hx
    · cases hx
    · obtain ⟨id, _, hid⟩ := List.mem_filterMap.mp hx
      rw [(hs.consistent.materialization id x hid).1]
      exact hid
  obtain ⟨input, hinput, hsaid⟩ := List.mem_map.mp (hs.said x hstored hhost)
  rw [← hagain] at hinput
  obtain ⟨a, ha, rfl⟩ := List.mem_map.mp hinput
  simp only [StoredMaterialization.said, MaterializationUpsertInput.said, Prod.mk.injEq] at hsaid
  refine List.mem_map.mpr ⟨a, ha, ?_⟩
  rw [Announcement.key, hsaid.1, hsaid.2.1]

theorem Settles.again (hs : Settles s userId deviceId (desired.map (·.input)))
    (hkeys : (desired.map Announcement.key).Nodup) (again : List Announcement)
    (hagain : again.map (·.input) = desired.map (·.input)) : ∃ result s'',
      reconcileDeviceMaterializations locale s userId deviceId again = (.ok result, s'') ∧
      SameButTimes s s'' := by
  have hkey : again.map Announcement.key = desired.map Announcement.key := by
    have hmap : ∀ l : List Announcement, l.map Announcement.key =
        (l.map (·.input)).map fun input =>
            materializationIdentityKey input.repositoryId input.workspaceId := by
      intro l
      rw [List.map_map]
      rfl
    rw [hmap, hmap, hagain]
  have hcheck : checkAnnouncements s userId [] again = none := by
    refine (checkAnnouncements_none again []).mpr ⟨fun _ _ => List.not_mem_nil, hkey ▸ hkeys, ?_⟩
    intro a ha
    exact hs.access a.input (hagain ▸ List.mem_map_of_mem ha)
  obtain ⟨result, s'', hrun, hsame⟩ := Redone.run hs again [] s hagain ⟨rfl, fun _ => .inl rfl⟩
  refine ⟨result, s'', ?_, hsame⟩
  simp only [reconcileDeviceMaterializations, hs.authorized, hcheck, hs.undeleted hagain, Bool.not_true,
    Bool.false_eq_true, if_false]
  exact hrun

end Again

/-- A reconciliation that succeeds is exact when every announcement names a
record of its own device and repository, or none, and what the announcements
leave over says what those announce whose record a later one goes on from. -/
theorem reconcile_exact_iff (locale : Locale) (s s' : Storage) (userId deviceId : String)
    (desired : List Announcement) (result : List StoredMaterialization) (hs : Consistent s)
    (hnew : NewIds s desired)
    (h : reconcileDeviceMaterializations locale s userId deviceId desired = (.ok result, s')) :
    Reconciled locale s s' userId deviceId desired ↔ GoesOnFromOwn locale s userId deviceId desired := by
  obtain ⟨hdevice, hkeys, haccess, hrun⟩ := reconcile_ok h
  have hstart := stage_start locale desired hs hdevice
  by_cases hown : ∀ a ∈ desired, NamesOwn s deviceId (desired.map Announcement.key) a
  · obtain ⟨hstage, _⟩ := Stage.run locale hs hnew hdevice hkeys desired [] _ rfl hstart hown hrun
    have hiff := own_iff hs hnew h hown
    constructor
    · intro hreconciled
      exact ⟨hown, hiff.mp hreconciled.own⟩
    · intro hgoes
      have hperm := hiff.mpr hgoes.balance
      have hsettles := hstage.settles hs hnew hdevice hkeys haccess hown hperm
      exact ⟨hperm, hstage.others hs hnew hown, hstage.listed hs hnew hown, hsettles.again hkeys⟩
  · constructor
    · intro hreconciled
      simp only [not_forall] at hown
      obtain ⟨a, ha, hforeign⟩ := hown
      have hspoiled := Stage.spoils hs hnew hdevice hkeys desired [] _ rfl hstart ⟨a, ha, hforeign⟩ hrun
      exact absurd hreconciled
        (hspoiled.not_reconciled hs hkeys (upsertAnnounced_frame desired hstart.frame hrun))
    · intro hgoes
      exact absurd hgoes.own hown

section Samples

/-- The laptop moves the one repository and takes up the other. -/
def sampleAnnouncements : List Announcement :=
  [⟨⟨none, "repo_2", "w2", "/b", .linux⟩, "mat_2", sampleTime⟩,
    ⟨⟨none, "repo_1", "w1", "/c", .linux⟩, "mat_3", sampleTime⟩]

theorem reconcile_exact_sample :
    Reconciled plainLocale sampleStore
      (reconcileDeviceMaterializations plainLocale sampleStore sampleUser "dev_1" sampleAnnouncements).2
      sampleUser "dev_1" sampleAnnouncements := by
  have hrun : (∀ a ∈ sampleAnnouncements, sampleStore.materializations a.generated = none) ∧
      (reconcileDeviceMaterializations plainLocale sampleStore sampleUser "dev_1" sampleAnnouncements).1 =
        .ok [⟨"mat_2", "repo_2", sampleUser, .device "dev_1", "w2", "/b", .linux, sampleTime⟩,
          ⟨"mat_1", "repo_1", sampleUser, .device "dev_1", "w1", "/c", .linux, sampleTime⟩] ∧
      ((leftOver sampleStore "dev_1" (sampleAnnouncements.map Announcement.key) plainLocale sampleUser
        sampleAnnouncements).map (·.said)).Perm
        ((overtaken sampleStore "dev_1" (sampleAnnouncements.map Announcement.key) [] sampleAnnouncements).map
          (·.input.said)) := by
    decide +kernel
  obtain ⟨habsent, hok, hbalance⟩ := hrun
  have hnew : NewIds sampleStore sampleAnnouncements := ⟨by decide, by decide, habsent, by decide⟩
  have hgoes : GoesOnFromOwn plainLocale sampleStore sampleUser "dev_1" sampleAnnouncements := by
    refine ⟨?_, hbalance⟩
    intro a ha x hx
    have hunnamed : a.input.named = none := by
      have hall : ∀ a ∈ sampleAnnouncements, a.input.named = none := by decide
      exact hall a ha
    rw [hunnamed] at hx
    cases hx
  exact (reconcile_exact_iff plainLocale sampleStore _ sampleUser "dev_1" sampleAnnouncements _
    (consistent_reached sampleStore_reached) hnew (Prod.ext hok rfl)).mpr hgoes

/-- A second device of the user. -/
def sharedStore : Storage :=
  step plainLocale sampleStore (.registerDevice sampleUser none "tower" .linux "dev_2" sampleTime)

/-- The second device announces a record of the first. -/
def takingAnnouncements : List Announcement :=
  [⟨⟨some "mat_1", "repo_1", "w5", "/t", .linux⟩, "mat_2", sampleTime⟩]

theorem sharedStore_run :
    Orderly plainLocale sampleStore (.registerDevice sampleUser none "tower" .linux "dev_2" sampleTime) ∧
    (∀ a ∈ takingAnnouncements, sharedStore.materializations a.generated = none) ∧
    (sharedStore.materializations "mat_1").map (·.host) = some (.device "dev_1") ∧
    (reconcileDeviceMaterializations plainLocale sharedStore sampleUser "dev_2" takingAnnouncements).1 =
      .ok [⟨"mat_1", "repo_1", sampleUser, .device "dev_2", "w5", "/t", .linux, sampleTime⟩] ∧
    ((reconcileDeviceMaterializations plainLocale sharedStore sampleUser "dev_2"
      takingAnnouncements).2.materializations "mat_1").map (·.host) = some (.device "dev_2") := by
  decide +kernel

theorem sharedStore_reached : Reaches (step plainLocale) (Orderly plainLocale) Storage.empty sharedStore :=
  .next _ sampleStore_reached sharedStore_run.1

theorem record_taken_from_device : ∃ result s', Consistent sharedStore ∧
    NewIds sharedStore takingAnnouncements ∧
    reconcileDeviceMaterializations plainLocale sharedStore sampleUser "dev_2" takingAnnouncements =
      (.ok result, s') ∧
    (sharedStore.materializations "mat_1").map (·.host) = some (.device "dev_1") ∧
    (s'.materializations "mat_1").map (·.host) = some (.device "dev_2") ∧
    ¬ Reconciled plainLocale sharedStore s' sampleUser "dev_2" takingAnnouncements := by
  obtain ⟨-, habsent, hbefore, hok, hafter⟩ := sharedStore_run
  revert hok hafter
  generalize reconcileDeviceMaterializations plainLocale sharedStore sampleUser "dev_2"
    takingAnnouncements = call
  intro hok hafter
  refine ⟨_, call.2, consistent_reached sharedStore_reached,
    ⟨by decide, by decide, habsent, by decide⟩, Prod.ext hok rfl, hbefore, hafter, ?_⟩
  intro h
  obtain ⟨x, hx, hhost⟩ := Option.map_eq_some_iff.mp hbefore
  have hother : x.host ≠ .device "dev_2" := by rw [hhost]; decide
  have hkept := (h.others "mat_1" x hother).mpr hx
  rw [hkept, Option.map_some, hhost] at hafter
  exact absurd hafter (by decide)

end Samples

end AccessStack.Accounts
