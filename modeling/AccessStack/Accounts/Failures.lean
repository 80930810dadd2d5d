import AccessStack.Accounts.Laws
import AccessStack.Accounts.Allocation

/-!
# Failed imports and materializations

A failed materialization leaves the account store as it found it, up to the
times of the last write. A failed import does so where nothing is committed
yet, and after its commit where the answer that validates its bindings stays
within their repositories: the record that an entry goes on from is one of its
own repository, no other record of the repository is under its workspace id,
and no two entries share the two.
-/

set_option autoImplicit false

namespace AccessStack.Accounts
open AccessStack.Index AccessStack.Runs AccessStack.Text

section Statement

/-- What an answer says about the store: a failure has left it as it was, and
no rollback fails. -/
def RollsBack {α : Type} (s : Storage) (result : Answer α × Storage) : Prop :=
  match result.1 with
  | .error .repositoryImportFailed _ => Restored s result.2
  | .error .repositoryMaterializationFailed _ => Restored s result.2
  | .error .repositoryImportRollbackFailed _ => False
  | .error .repositoryMaterializationRollbackFailed _ => False
  | _ => True

end Statement

section Materialize

variable {s : Storage} {userId : String} {host : Host} {lower : String → String}

/-- A repository with at most one record on the host. -/
theorem settled_existing (hs : Consistent s) {repositoryId : String}
    (haccess : (getRepositoryForUser s userId repositoryId).isSome = true)
    {existing : List StoredMaterialization}
    (hexisting : (listMaterializations s userId repositoryId).filter (·.host = host) = existing)
    (hone : ∀ a b rest, existing ≠ a::b::rest) (workspaceId path : String) (platform : Platform) :
    Settled s host ⟨repositoryId, workspaceId, path, platform, existing.head?⟩ ∧
      (existing.head? = none → currentMaterialization s userId repositoryId host workspaceId = none) := by
  have haccess' : (getRepositoryForUser s userId repositoryId).isNone = false := by simpa using haccess
  have hlist : ∀ m, m ∈ existing ↔ s.materializations m.id = some m ∧
      m.repositoryId = repositoryId ∧ m.host = host := by
    intro m
    rw [← hexisting, List.mem_filter, listMaterializations, haccess', if_neg (by simp), List.mem_filterMap]
    constructor
    · rintro ⟨⟨k, hk, hm⟩, hhost⟩
      obtain ⟨x, hx, howner⟩ := hs.materializations.listed hk
      rw [hm] at hx
      cases hx
      rw [(hs.materialization k m hm).1]
      exact ⟨hm, howner, by simpa using hhost⟩
    · rintro ⟨hm, hrepository, hhost⟩
      exact ⟨⟨m.id, hrepository ▸ hs.materializations.mem_owner hm, hm⟩, by simpa using hhost⟩
  have hhead : ∀ m ∈ existing, existing.head? = some m := by
    intro m hm
    rcases hlength : existing with _ | ⟨a, _ | ⟨b, rest⟩⟩
    · rw [hlength] at hm
      cases hm
    · rw [hlength] at hm
      rw [List.mem_singleton.mp hm]
      rfl
    · exact absurd hlength (hone a b rest)
  refine ⟨⟨?_, ?_⟩, ?_⟩
  · intro m hm
    exact (hlist m).mp (List.mem_of_mem_head? hm)
  · intro k m hm hrepository hhost _
    apply hhead
    rw [hlist, (hs.materialization k m hm).1]
    exact ⟨hm, hrepository, hhost⟩
  · intro hnone
    rw [currentMaterialization_eq haccess]
    apply Option.eq_none_iff_forall_ne_some.mpr
    intro x hx
    obtain ⟨hstored, hrepository⟩ := found_listed hs hx
    have hmem := (hlist x).mpr ⟨hstored, hrepository, (found_matches hx).1⟩
    rw [hhead x hmem] at hnone
    cases hnone

theorem rollsBack_planned (hs : Consistent s) {texts : MaterializeTexts} {platform : Option Platform}
    {storedPlatform : Platform} {call : MaterializeCall} {previous : Option StoredMaterialization}
    {planned : InternalBoundRepository}
    (hsettled : Settled s host ⟨call.repositoryId, planned.workspaceId, planned.path,
      storedPlatform, previous⟩)
    (hnone : previous = none →
      currentMaterialization s userId call.repositoryId host planned.workspaceId = none)
    (hname : call.materializationId ≠ "") (hfresh : s.materializations call.materializationId = none) :
    RollsBack s (materializePlanned lower texts platform storedPlatform s userId host call previous
      planned) := by
  have horiginal : previous.or (currentMaterialization s userId call.repositoryId host planned.workspaceId) =
      previous := by
    cases previous with
    | some m => rfl
    | none => rw [hnone rfl]; rfl
  unfold materializePlanned transaction
  simp only [horiginal]
  cases hupsert : upsertOn s userId host
      ⟨previous.map (·.id), call.repositoryId, planned.workspaceId, planned.path, storedPlatform⟩
      call.materializationId call.committedAt with
  | mk result T =>
    cases result with
    | error message => exact restored_refl s
    | ok m =>
      have hnothing : Placed s host userId s [] := placed_nil hs
      have hplaced := hnothing.place hs (by simp) hsettled (by simp) hname hfresh hfresh hupsert
      dsimp only
      cases materializeCommitted lower texts platform T userId host call planned with
      | ok result => trivial
      | error message =>
        obtain ⟨T', hundone, hfinal⟩ :=
          placed_rollbackMaterialization hs hplaced hsettled texts call.restoredId
          call.restoredAt
        simp only at hundone
        simp only [hundone]
        exact hfinal.restored

theorem rollsBack_primary (locale : Locale) (lower : String → String) (s : Storage) (userId : String)
    (call : MaterializeCall) (hs : Consistent s) (hname : call.materializationId ≠ "")
    (hfresh : s.materializations call.materializationId = none) :
    RollsBack s (materializeRepositoryOnPrimary locale lower s userId call) := by
  unfold materializeRepositoryOnPrimary
  split
  · trivial
  split
  · trivial
  rename_i repository role haccess
  split
  · trivial
  split
  · trivial
  dsimp only
  split
  · trivial
  rename_i existing hone
  have hsettled := fun workspaceId path =>
    settled_existing hs (by rw [haccess]; rfl) rfl hone workspaceId path .linux
  split
  · trivial
  · trivial
  split
  · trivial
  split
  · trivial
  · exact restored_refl s
  rename_i planned _
  split
  · exact restored_refl s
  exact rollsBack_planned hs (hsettled planned.workspaceId planned.path).1
    (hsettled planned.workspaceId planned.path).2 hname hfresh

theorem companionPlan_refused {platform : Option Platform} {deviceId : String} {call : MaterializeCall}
    {reservedWorkspaceIds : List String} {planned : InternalBoundRepository}
    {answer : Answer (RepositoryDetails × StoredMaterialization)}
    (h : companionPlan lower platform deviceId call reservedWorkspaceIds planned = .error answer) :
    (∃ message, answer = .thrown message) ∨ ∃ message,
      answer = .error .repositoryMaterializationFailed message := by
  unfold companionPlan at h
  split at h
  · cases h
  split at h
  · cases h
    exact .inl ⟨_, rfl⟩
  dsimp only at h
  split at h
  · cases h
    exact .inl ⟨_, rfl⟩
  · cases h
    exact .inr ⟨_, rfl⟩
  · split at h
    · cases h
      exact .inr ⟨_, rfl⟩
    · cases h

theorem rollsBack_companion (locale : Locale) (lower : String → String) (s : Storage) (userId : String)
    (call : MaterializeCall) (hs : Consistent s) (hname : call.materializationId ≠ "")
    (hfresh : s.materializations call.materializationId = none) :
    RollsBack s (materializeRepositoryOnCompanion locale lower s userId call) := by
  unfold materializeRepositoryOnCompanion
  split
  · trivial
  split
  · trivial
  rename_i repository role haccess
  split
  · trivial
  split
  · trivial
  · trivial
  rename_i candidate hselected
  dsimp only
  split
  · trivial
  rename_i existing hone
  have hsettled := fun workspaceId path =>
    settled_existing hs (by rw [haccess]; rfl) rfl hone workspaceId path
    (candidate.target.platform.getD .unknown)
  split
  · trivial
  · exact restored_refl s
  split
  · exact restored_refl s
  split
  · trivial
  · trivial
  split
  · rename_i answer hrefused
    rcases companionPlan_refused hrefused with ⟨message, rfl⟩ | ⟨message, rfl⟩
    · trivial
    · exact restored_refl s
  · rename_i planned _
    exact rollsBack_planned hs (hsettled planned.workspaceId planned.path).1
      (hsettled planned.workspaceId planned.path).2 hname hfresh

end Materialize

section Bindings

variable {locale : Locale} {lower : String → String} {platform : Option Platform}

/-- A canonical binding is that of an allocated one and an entry of the answer. -/
structure Canonical (lower : String → String) (platform : Option Platform)
    (binding : InternalRepositoryBinding)
    (pair : InternalRepositoryBinding × InternalBoundRepository) : Prop where
  repository : binding.repositoryId = pair.2.repositoryId
  workspace : binding.workspaceId = pair.2.workspaceId
  path : binding.path = pair.2.path
  key : companionPathKey lower binding.path platform = companionPathKey lower pair.1.path platform

theorem canonicalBindings_ok (pairs : List (InternalRepositoryBinding × InternalBoundRepository))
    {bindings : List InternalRepositoryBinding} (h : canonicalBindings lower platform pairs = .ok bindings) :
    List.Forall₂ (Canonical lower platform) bindings pairs := by
  induction pairs generalizing bindings with
  | nil =>
    cases h
    exact .nil
  | cons pair rest ih =>
    rw [canonicalBindings] at h
    split_ifs at h with hmatch
    simp only [not_or, not_not] at hmatch
    cases hrest : canonicalBindings lower platform rest with
    | error message =>
      rw [hrest] at h
      cases h
    | ok canonical =>
      rw [hrest] at h
      cases h
      exact .cons ⟨hmatch.1.symm, rfl, rfl, hmatch.2⟩ (ih hrest)

theorem importSelection_keys {paths : List String} {discovered selected : List DiscoveredRepositoryEntry}
    (h : importSelection lower platform paths discovered = .ok selected) :
    (selected.map fun entry => companionPathKey lower entry.path platform).Nodup := by
  unfold importSelection at h
  dsimp only at h
  split_ifs at h with hnodup hfound
  cases h
  have hkeys : ∀ keys : List String,
      (keys.map fun key => discovered.reverse.find? fun entry =>
        companionPathKey lower entry.path platform = key).any
        (·.isNone) = false →
      ((keys.map fun key => discovered.reverse.find? fun entry =>
        companionPathKey lower entry.path platform = key).filterMap id).map
        (fun entry => companionPathKey lower entry.path platform) = keys := by
    intro keys hall
    induction keys with
    | nil => rfl
    | cons key keys ih =>
      simp only [List.map_cons, List.any_cons, Bool.or_eq_false_iff] at hall
      cases hentry : discovered.reverse.find? fun entry =>
        companionPathKey lower entry.path platform = key with
      | none =>
        rw [hentry] at hall
        exact absurd hall.1 (by simp)
      | some entry =>
        have hkey : companionPathKey lower entry.path platform = key := by simpa using List.find?_some hentry
        rw [List.map_cons, hentry]
        show companionPathKey lower entry.path platform :: List.map _ (List.filterMap id _) = key :: keys
        rw [hkey, ih hall.2]
  rw [hkeys _ (by simpa using hfound)]
  exact hnodup

/-- The bindings are under the keys of the selected repositories. -/
theorem allocated_keys {bindings : List InternalRepositoryBinding} {selected : List DiscoveredRepositoryEntry}
    (hpaths : bindings.map (·.path) = selected.map (·.path))
    (hkeys : (selected.map fun entry => companionPathKey lower entry.path platform).Nodup) :
    (bindings.map fun b => companionPathKey lower b.path platform).Nodup := by
  have hsame : bindings.map (fun b => companionPathKey lower b.path platform) =
      (bindings.map (·.path)).map fun path => companionPathKey lower path platform := by
    rw [List.map_map]
    rfl
  rw [hsame, hpaths, List.map_map]
  exact hkeys

/-- Under different keys every binding finds its own previous record. -/
theorem previousOf_own {s : Storage} {userId deviceId : String} {bindings : List InternalRepositoryBinding}
    (hkeys : (bindings.map fun b => companionPathKey lower b.path platform).Nodup)
    {b : InternalRepositoryBinding} (hb : b ∈ bindings) :
    previousOf (previousMaterializations locale lower s userId deviceId platform bindings)
      (companionPathKey lower b.path platform) =
      previousFor locale s userId deviceId b.repositoryId b.workspaceId b.path := by
  have hinjective : ∀ c ∈ bindings, companionPathKey lower c.path platform =
    companionPathKey lower b.path platform →
      c = b := fun c hc heq => List.inj_on_of_nodup_map hkeys hc hb heq
  unfold previousOf
  cases hfound : (previousMaterializations locale lower s userId deviceId platform bindings).reverse.find?
      (·.1 = companionPathKey lower b.path platform) with
  | none =>
    rw [List.find?_eq_none] at hfound
    have hmem : (companionPathKey lower b.path platform,
        previousFor locale s userId deviceId b.repositoryId b.workspaceId b.path) ∈
        (previousMaterializations locale lower s userId deviceId platform bindings).reverse :=
      List.mem_reverse.mpr (List.mem_map.mpr ⟨b, hb, rfl⟩)
    have hnot := hfound _ hmem
    simp at hnot
  | some entry =>
    have hmem := List.mem_reverse.mp (List.mem_of_find?_eq_some hfound)
    obtain ⟨c, hc, rfl⟩ := List.mem_map.mp hmem
    have hkey : companionPathKey lower c.path platform = companionPathKey lower b.path platform := by
      simpa using List.find?_some hfound
    rw [hinjective c hc hkey]
    rfl

end Bindings

section Import

variable {locale : Locale} {lower : String → String} {s : Storage} {userId : String}

/-- The answer that validates the bindings of an import stays within their
repositories. -/
structure Within (locale : Locale) (s : Storage) (userId deviceId : String)
    (prepared : List InternalBoundRepository) : Prop where
  home : ∀ v ∈ prepared, ∀ m,
    previousFor locale s userId deviceId v.repositoryId v.workspaceId v.path = some m →
      m.repositoryId = v.repositoryId
  only : ∀ v ∈ prepared, ∀ k m, s.materializations k = some m → m.repositoryId = v.repositoryId →
    m.host = .device deviceId → m.workspaceId = v.workspaceId →
    previousFor locale s userId deviceId v.repositoryId v.workspaceId v.path = some m
  apart : prepared.Pairwise fun v w => v.repositoryId = w.repositoryId → v.workspaceId ≠ w.workspaceId

/-- The generated ids of an import are new and different. -/
structure FreshIds (s : Storage) (call : ImportCall) : Prop where
  repository : ∀ n, s.repositories (call.repositoryId n) = none
  repositories : Function.Injective call.repositoryId
  named : ∀ n, call.materializationId n ≠ ""
  materialization : ∀ n, s.materializations (call.materializationId n) = none
  materializations : Function.Injective call.materializationId

/-- The previous record of a binding is a stored one of the device. -/
theorem previousFor_stored (hs : Consistent s) {deviceId repositoryId workspaceId path : String}
    {m : StoredMaterialization}
    (h : previousFor locale s userId deviceId repositoryId workspaceId path = some m) :
    s.materializations m.id = some m ∧ m.host = .device deviceId := by
  have hids : ∀ ids : List String, m ∈ ids.filterMap s.materializations → s.materializations m.id =
      some m := by
    intro ids hm
    obtain ⟨k, _, hk⟩ := List.mem_filterMap.mp hm
    rwa [(hs.materialization k m hk).1]
  rcases Option.or_eq_some_iff.mp h with h | ⟨_, h⟩
  · obtain ⟨found, hfound, rfl⟩ := Option.map_eq_some_iff.mp h
    obtain ⟨access, _, hlisted⟩ := List.exists_of_findSome?_eq_some hfound
    obtain ⟨m, hm, rfl⟩ := Option.map_eq_some_iff.mp hlisted
    have hmatch := List.find?_some hm
    simp only [decide_eq_true_eq] at hmatch
    exact ⟨hids _ (List.mem_of_find?_eq_some hm), hmatch.2.1⟩
  · have hmatch := List.find?_some h
    have hmem := List.mem_of_find?_eq_some h
    simp only [decide_eq_true_eq] at hmatch
    refine ⟨?_, hmatch.1⟩
    unfold listMaterializations at hmem
    split_ifs at hmem
    · cases hmem
    · exact hids _ hmem

/-- A failed import with nothing or everything undone. -/
theorem rollsBack_recover (hs : Consistent s) {T T' : Storage} {created : List String}
    (hcreated : Created s userId T created) (hback : Restored T T') {deviceId : String}
    {platform : Option Platform} {call : ImportCall} {message : String} {S : Storage}
    {committed : Option (List InternalRepositoryBinding × List (String × Option StoredMaterialization))}
    (hrolled : rollbackCommitted lower userId deviceId platform call S committed = (.ok (), T')) :
    RollsBack s (recoverImport lower userId deviceId platform call message S created committed) := by
  obtain ⟨T'', hclean, hrestored⟩ := Leftover.cleanup hs created.reverse T' (hcreated.leftover hs hback)
  unfold recoverImport
  dsimp only
  rw [hrolled]
  simp only [hclean]
  exact hrestored

/-- The placement of a binding. -/
def InternalRepositoryBinding.placement (locale : Locale) (T : Storage) (userId deviceId : String)
    (platform : Option Platform) (b : InternalRepositoryBinding) : Placement :=
  ⟨b.repositoryId, b.workspaceId, b.path, platform.getD .unknown,
    previousFor locale T userId deviceId b.repositoryId b.workspaceId b.path⟩

/-- The upserts of the commit of an import. -/
def importUpserts (locale : Locale) (T : Storage) (userId deviceId : String) (platform : Option Platform)
    (call : ImportCall) (bindings : List InternalRepositoryBinding) : List Upsert :=
  bindings.zipIdx.map fun p =>
    ⟨p.1.placement locale T userId deviceId platform, call.materializationId p.2, call.committedAt p.2⟩

theorem importUpserts_placements {T : Storage} {deviceId : String} {platform : Option Platform}
    {call : ImportCall} (bindings : List InternalRepositoryBinding) :
    (importUpserts locale T userId deviceId platform call bindings).map (·.placement) =
      bindings.map (·.placement locale T userId deviceId platform) := by
  rw [importUpserts, List.map_map]
  have hfst : (fun p : InternalRepositoryBinding × ℕ => p.1.placement locale T userId deviceId platform) =
      (fun b : InternalRepositoryBinding => b.placement locale T userId deviceId platform) ∘ Prod.fst := rfl
  show bindings.zipIdx.map (fun p => p.1.placement locale T userId deviceId platform) = _
  rw [hfst, ← List.map_map, List.zipIdx_map_fst]

theorem importUpserts_announcements {T : Storage} {deviceId : String} {platform : Option Platform}
    {call : ImportCall} {bindings : List InternalRepositoryBinding}
    (hkeys : (bindings.map fun b => companionPathKey lower b.path platform).Nodup) :
    importAnnouncements lower platform call bindings
      (previousMaterializations locale lower T userId deviceId platform bindings) =
      (importUpserts locale T userId deviceId platform call bindings).map (·.announcement) := by
  rw [importAnnouncements, importUpserts, List.map_map]
  apply List.map_congr_left
  intro p hp
  rw [previousOf_own hkeys (List.fst_mem_of_mem_zipIdx hp)]
  rfl

/-- The upserts of an answer that stays within its repositories may follow each other. -/
theorem importUpserts_following (hs : Consistent s) (hordered : locale.Ordered) {T : Storage}
    {created : List String} (hcreated : Created s userId T created) {deviceId : String}
    {platform : Option Platform} {call : ImportCall} (hfresh : FreshIds s call)
    {bindings : List InternalRepositoryBinding} {prepared : List InternalBoundRepository}
    (hwithin : Within locale s userId deviceId prepared)
    (hbindings : bindings.map (fun b => (b.repositoryId, b.workspaceId, b.path)) =
      prepared.map fun v => (v.repositoryId, v.workspaceId, v.path)) :
    Following T (.device deviceId) (importUpserts locale T userId deviceId platform call bindings) := by
  have hentry : ∀ b ∈ bindings, ∃ v ∈ prepared, v.repositoryId = b.repositoryId ∧
    v.workspaceId = b.workspaceId ∧
      v.path = b.path := by
    intro b hb
    have hmem : (b.repositoryId, b.workspaceId, b.path) ∈
        prepared.map fun v => (v.repositoryId, v.workspaceId, v.path) :=
      hbindings ▸ List.mem_map.mpr ⟨b, hb, rfl⟩
    obtain ⟨v, hv, heq⟩ := List.mem_map.mp hmem
    simp only [Prod.mk.injEq] at heq
    exact ⟨v, hv, heq⟩
  have hsettled : ∀ b ∈ bindings,
      Settled T (.device deviceId) (b.placement locale T userId deviceId platform) := by
    intro b hb
    obtain ⟨v, hv, hrepository, hworkspace, hpath⟩ := hentry b hb
    have hprevious : previousFor locale T userId deviceId b.repositoryId b.workspaceId b.path =
        previousFor locale s userId deviceId v.repositoryId v.workspaceId v.path := by
      rw [hcreated.previousFor hs hordered, hrepository, hworkspace, hpath]
    refine ⟨?_, ?_⟩
    · intro m hm
      have hm : previousFor locale s userId deviceId v.repositoryId v.workspaceId v.path = some m :=
        hprevious ▸ hm
      obtain ⟨hstored, hhost⟩ := previousFor_stored hs hm
      exact ⟨hcreated.materializations ▸ hstored, (hwithin.home v hv m hm).trans hrepository, hhost⟩
    · intro k m hm hrepo hhost hwork
      rw [hcreated.materializations] at hm
      exact hprevious.trans (hwithin.only v hv k m hm (hrepo.trans hrepository.symm) hhost
        (hwork.trans hworkspace.symm))
  have hmem : ∀ u ∈ importUpserts locale T userId deviceId platform call bindings, ∃ b ∈ bindings, ∃ n,
      u = ⟨b.placement locale T userId deviceId platform, call.materializationId n, call.committedAt n⟩ := by
    intro u hu
    obtain ⟨p, hp, rfl⟩ := List.mem_map.mp hu
    exact ⟨p.1, List.fst_mem_of_mem_zipIdx hp, p.2, rfl⟩
  refine ⟨?_, ?_, ?_, ?_, ?_⟩
  · intro u hu
    obtain ⟨b, hb, n, rfl⟩ := hmem u hu
    exact hsettled b hb
  · have hapart : (prepared.map fun v => (v.repositoryId, v.workspaceId, v.path)).Pairwise
        fun v w => v.1 = w.1 → v.2.1 ≠ w.2.1 := List.pairwise_map.mpr hwithin.apart
    rw [← hbindings, List.pairwise_map] at hapart
    have hplacements :
      ((importUpserts locale T userId deviceId platform call bindings).map (·.placement)).Pairwise
        fun p q => ¬ p.Meets q := by
      rw [importUpserts_placements, List.pairwise_map]
      exact hapart.imp fun hne hmeets => hne hmeets.1 hmeets.2
    exact List.pairwise_map.mp hplacements
  · intro u hu
    obtain ⟨b, _, n, rfl⟩ := hmem u hu
    exact hfresh.named n
  · intro u hu
    obtain ⟨b, _, n, rfl⟩ := hmem u hu
    rw [hcreated.materializations]
    exact hfresh.materialization n
  · have hids : (bindings.zipIdx.map Prod.snd).Nodup := by
      rw [List.zipIdx_map_snd]
      exact List.nodup_range'
    rw [importUpserts, List.pairwise_map]
    exact (List.pairwise_map.mp hids).imp fun hne heq => hne (hfresh.materializations heq)

theorem forall₂_map_eq {α β γ : Type} {R : α → β → Prop} {f : α → γ} {g : β → γ} {l : List α} {l' : List β}
    (h : List.Forall₂ R l l') (hfg : ∀ a b, R a b → f a = g b) : l.map f = l'.map g := by
  induction h with
  | nil => rfl
  | cons hab _ ih => rw [List.map_cons, List.map_cons, hfg _ _ hab, ih]

theorem canonical_entries {platform : Option Platform} {bindings allocated : List InternalRepositoryBinding}
    {prepared : List InternalBoundRepository} (hlength : prepared.length = allocated.length)
    (h : List.Forall₂ (Canonical lower platform) bindings (allocated.zip prepared)) :
    bindings.map (fun b => (b.repositoryId, b.workspaceId, b.path)) =
      prepared.map (fun v => (v.repositoryId, v.workspaceId, v.path)) ∧
    bindings.map (fun b => companionPathKey lower b.path platform) =
      allocated.map fun b => companionPathKey lower b.path platform := by
  have hsnd : prepared = (allocated.zip prepared).map Prod.snd := by
    rw [List.map_snd_zip]
    exact hlength.le
  have hfst : allocated = (allocated.zip prepared).map Prod.fst := by
    rw [List.map_fst_zip]
    exact hlength.ge
  constructor
  · conv_rhs => rw [hsnd, List.map_map]
    apply forall₂_map_eq h
    intro b pair hcanonical
    simp only [Function.comp_apply, hcanonical.repository, hcanonical.workspace, hcanonical.path]
  · conv_rhs => rw [hfst, List.map_map]
    apply forall₂_map_eq h
    intro b pair hcanonical
    exact hcanonical.key

theorem importCommitted_cases (lower : String → String) (userId : String)
    (platform : Option Platform) (call : ImportCall) (a : Allocation) (T : Storage)
    (bindings : List InternalRepositoryBinding) (previous : List (String × Option StoredMaterialization)) :
    (∃ details, importCommitted lower userId platform call a T bindings previous = .returned
      (.success details) T) ∨
      ∃ message, importCommitted lower userId platform call a T bindings previous =
        .failed message T a.createdRepositoryIds (some (bindings, previous)) := by
  unfold importCommitted
  dsimp only
  split_ifs
  · exact .inr ⟨_, rfl⟩
  · cases call.bind with
    | error message => exact .inr ⟨_, rfl⟩
    | ok answer =>
      cases answer with
      | none => exact .inr ⟨_, rfl⟩
      | some bound =>
        dsimp only
        split_ifs
        · exact .inr ⟨_, rfl⟩
        · exact .inr ⟨_, rfl⟩
        · exact .inl ⟨_, rfl⟩

/-- The companion binds what it has validated. -/
def Binds (lower : String → String) (platform : Option Platform) (call : ImportCall)
    (bindings : List InternalRepositoryBinding) : Prop :=
  ∃ bound, call.bind = .ok (some bound) ∧ bound.length = bindings.length ∧
    boundAsValidated lower platform bindings bound = true

theorem storeMaterialization_repositories (s : Storage) (m : StoredMaterialization) :
    (storeMaterialization s m).2.repositories = s.repositories := by
  unfold storeMaterialization
  dsimp only
  split_ifs <;> rfl

/-- Upserts that succeed are of repositories of the user, which they leave alone. -/
theorem upsertAnnounced_repositories {deviceId : String} {announced : List Announcement} {T T' : Storage}
    {stored : List StoredMaterialization}
    (h : upsertAnnounced userId deviceId T announced = (.ok stored, T')) :
    T'.repositories = T.repositories ∧
      ∀ a ∈ announced, (getRepositoryForUser T' userId a.input.repositoryId).isSome = true := by
  induction announced generalizing T stored with
  | nil =>
    cases h
    simp
  | cons a rest ih =>
    unfold upsertAnnounced at h
    split at h
    · cases h
    rename_i m T₁ hupsert
    split at h
    · cases h
    rename_i later T₂ hlater
    cases h
    have hupsert : upsertOn T userId (.device deviceId) a.input a.generated a.now = (.ok m, T₁) := hupsert
    have hadmitted := upsertOn_ok hupsert
    rw [upsertOn_admitted hadmitted] at hupsert
    have hfirst :=
      storeMaterialization_repositories T (upserted T userId (.device deviceId) a.input a.generated a.now)
    rw [hupsert] at hfirst
    obtain ⟨hrest, haccess⟩ := ih hlater
    refine ⟨hrest.trans hfirst, ?_⟩
    intro b hb
    rcases List.mem_cons.mp hb with rfl | hb
    · have hsame := hadmitted.access
      unfold getRepositoryForUser at hsame ⊢
      rwa [hrest.trans hfirst]
    · exact haccess b hb

/-- An import whose bindings are bound as validated succeeds. -/
theorem importCommitted_bound {deviceId : String} {platform : Option Platform} {call : ImportCall}
    {a : Allocation} {T : Storage} {stored : List StoredMaterialization}
    {bindings : List InternalRepositoryBinding}
    {previous : List (String × Option StoredMaterialization)} (hbinds : Binds lower platform call bindings)
    (h : upsertAnnounced userId deviceId a.storage
      (importAnnouncements lower platform call bindings previous) =
      (.ok stored, T)) :
    ∃ details, importCommitted lower userId platform call a T bindings previous = .returned
      (.success details) T := by
  have haccess := (upsertAnnounced_repositories h).2
  have hdetails : ((bindings.map fun binding => readRepositoryDetails T userId binding.repositoryId).any
      (·.isNone)) = false := by
    rw [List.any_map, List.any_eq_false]
    intro b hb
    obtain ⟨n, hn, hget⟩ := List.mem_iff_getElem.mp hb
    have hmem : (b, n) ∈ bindings.zipIdx :=
      List.mk_mem_zipIdx_iff_getElem?.mpr (by rw [List.getElem?_eq_getElem hn, hget])
    have hsome := haccess _ (List.mem_map.mpr ⟨(b, n), hmem, rfl⟩)
    simpa [readRepositoryDetails, announcement, Option.isSome_iff_ne_none] using hsome
  obtain ⟨bound, hbind, hlength, hvalidated⟩ := hbinds
  unfold importCommitted
  dsimp only
  rw [hdetails, hbind]
  simp [hlength, hvalidated]

/-- The handler of an import, where the handled part comes to it. -/
def handled (lower : String → String) (userId deviceId : String) (platform : Option Platform)
    (call : ImportCall) :
    ImportAttempt → Answer (List RepositoryDetails) × Storage
  | .returned answer s => (answer, s)
  | .failed message s created committed =>
    recoverImport lower userId deviceId platform call message s created committed

/-- An import fails after its materializations are committed. -/
theorem rollsBack_committed (hs : Consistent s) {call : ImportCall} {deviceId : String}
    {platform : Option Platform} {a : Allocation}
    (hcreated : Created s userId a.storage a.createdRepositoryIds) {bindings : List InternalRepositoryBinding}
    (hkeys : (bindings.map fun b => companionPathKey lower b.path platform).Nodup)
    (hfollowing : Following a.storage (.device deviceId)
      (importUpserts locale a.storage userId deviceId platform call bindings)) {T : Storage}
    (hplaced : Placed a.storage (.device deviceId) userId T
      ((importUpserts locale a.storage userId deviceId platform call bindings).map (·.placement))) :
    RollsBack s (handled lower userId deviceId platform call
      (importCommitted lower userId platform call a T bindings
      (previousMaterializations locale lower a.storage userId deviceId platform bindings))) := by
  rcases importCommitted_cases lower userId platform call a T bindings
    (previousMaterializations locale lower a.storage userId deviceId platform bindings) with
    ⟨details, heq⟩ | ⟨message, heq⟩
  · rw [heq]
    trivial
  · rw [heq]
    have hsettled :
      ∀ p ∈ (importUpserts locale a.storage userId deviceId platform call bindings).map (·.placement),
        Settled a.storage (.device deviceId) p := by
      intro p hp
      obtain ⟨u, hu, rfl⟩ := List.mem_map.mp hp
      exact hfollowing.settled u hu
    have hapart : ((importUpserts locale a.storage userId deviceId platform call bindings).map
        (·.placement)).Pairwise fun p q => ¬ p.Meets q := List.pairwise_map.mpr hfollowing.apart
    rw [importUpserts_placements] at hplaced hsettled hapart
    have hbound : List.Forall₂ (Bound fun binding => previousOf
        (previousMaterializations locale lower a.storage userId deviceId platform bindings)
        (companionPathKey lower binding.path platform)) bindings
        (bindings.map (·.placement locale a.storage userId deviceId platform)) := by
      rw [List.forall₂_map_right_iff, List.forall₂_same]
      intro b hb
      exact ⟨rfl, rfl, previousOf_own hkeys hb⟩
    obtain ⟨T', hundone, hback⟩ :=
      placed_rollback hcreated.consistent call.restoredId call.restoredAt _ 0 T bindings
      _ hbound hplaced hsettled hapart
    apply rollsBack_recover hs hcreated hback.restored
    unfold rollbackCommitted transaction
    simp only [hundone]

/-- What an import commits and has to undo. The validated answer passes the
checks on its length, its repository ids and its path keys, the upserts
succeed, and the companion does not bind what it has validated. -/
structure Undone (locale : Locale) (lower : String → String) (userId deviceId : String)
    (platform : Option Platform) (call : ImportCall) (a : Allocation)
    (prepared : List InternalBoundRepository) (bindings : List InternalRepositoryBinding) : Prop where
  length : prepared.length = a.bindings.length
  canonical : canonicalBindings lower platform (a.bindings.zip prepared) = .ok bindings
  committed : ∃ stored T,
    upsertAnnounced userId deviceId a.storage (importAnnouncements lower platform call bindings
    (previousMaterializations locale lower a.storage userId deviceId platform bindings)) = (.ok stored, T)
  refused : ¬ Binds lower platform call bindings

/-- An import fails after its repositories are allocated. -/
theorem rollsBack_allocated (hs : Consistent s) (hordered : locale.Ordered) {call : ImportCall}
    {deviceId : String} {platform : Option Platform} (hfresh : FreshIds s call) {a : Allocation}
    (hcreated : Created s userId a.storage a.createdRepositoryIds)
    (hkeys : (a.bindings.map fun b => companionPathKey lower b.path platform).Nodup)
    (hwithin : ∀ prepared bindings, call.prepare = .ok (some prepared) →
      Undone locale lower userId deviceId platform call a prepared bindings →
      Within locale s userId deviceId prepared) :
    RollsBack s (handled lower userId deviceId platform call
      (importAllocated locale lower userId deviceId platform call a)) := by
  have huncommitted : ∀ message,
    RollsBack s (recoverImport lower userId deviceId platform call message a.storage
      a.createdRepositoryIds none) := fun message =>
        rollsBack_recover hs hcreated (restored_refl a.storage) rfl
  unfold importAllocated
  dsimp only
  cases hprepare : call.prepare with
  | error message => exact huncommitted message
  | ok answer =>
    cases answer with
    | none => exact huncommitted _
    | some prepared =>
      dsimp only
      split_ifs with hlength
      · exact huncommitted _
      rw [not_not] at hlength
      cases hcanonical : canonicalBindings lower platform (a.bindings.zip prepared) with
      | error message => exact huncommitted message
      | ok bindings =>
        obtain ⟨hentries, hbindingKeys⟩ := canonical_entries hlength (canonicalBindings_ok _ hcanonical)
        have hnodup : (bindings.map fun b => companionPathKey lower b.path platform).Nodup :=
          hbindingKeys ▸ hkeys
        dsimp only
        unfold transaction
        cases hupserts : upsertAnnounced userId deviceId a.storage
          (importAnnouncements lower platform call bindings
          (previousMaterializations locale lower a.storage userId deviceId platform bindings)) with
        | mk result T =>
          cases result with
          | error message =>
            simp only [hupserts]
            exact huncommitted message
          | ok stored =>
            simp only [hupserts]
            by_cases hbinds : Binds lower platform call bindings
            · obtain ⟨details, hreturned⟩ := importCommitted_bound hbinds hupserts
              rw [hreturned]
              trivial
            have hstays :=
              hwithin prepared bindings hprepare ⟨hlength, hcanonical, ⟨stored, T, hupserts⟩, hbinds⟩
            have hfollowing : Following a.storage (.device deviceId)
                (importUpserts locale a.storage userId deviceId platform call bindings) :=
              importUpserts_following hs hordered hcreated hfresh hstays hentries
            rw [importUpserts_announcements hnodup] at hupserts
            exact rollsBack_committed hs hcreated hnodup hfollowing
              (placed_upserts hcreated.consistent [] _ a.storage T
              hfollowing (placed_nil hcreated.consistent) hfollowing.fresh hupserts)

/-- The allocation of the repositories that an import has selected. -/
def allocated (locale : Locale) (lower : String → String) (s : Storage) (userId : String) (call : ImportCall)
    (candidate : CompanionRouteCandidate CompanionTarget) (primaryWorkspaceIds : List String)
    (selected : List DiscoveredRepositoryEntry) : Option String × Allocation :=
  let cloudRepositories := (listRepositories locale s userId).map (·.1)
  let reservedWorkspaceIds := primaryWorkspaceIds ++
    ((listStoredMaterializations locale s userId).filter (·.host ≠ .device candidate.deviceId)).map
      (·.workspaceId) ++
    announcedElsewhere call.candidatesAfter candidate.deviceId
  allocateRepositories locale lower userId candidate.deviceId candidate.target.platform call.repositoryId
    call.createdAt ⟨s, cloudRepositories, cloudRepositories.map fun r => normalizeName locale r.name,
      reservedWorkspaceIds, [], []⟩ 0 selected

/-- The condition on an import: where it commits what it has to undo, the
selected companion has validated the bindings within their repositories. -/
def ImportStays (locale : Locale) (lower : String → String) (s : Storage) (userId : String)
    (call : ImportCall) : Prop :=
  ∀ candidate paths primaryWorkspaceIds discovered selected a prepared bindings,
    selectCompanionDevice call.candidates call.requestedDeviceId = .selected candidate →
      call.paths = some paths →
    call.primaryWorkspaceIds = .ok (some primaryWorkspaceIds) → call.discovery = .ok (some discovered) →
    importSelection lower candidate.target.platform paths discovered = .ok selected →
    allocated locale lower s userId call candidate primaryWorkspaceIds selected = (none, a) →
    call.prepare = .ok (some prepared) →
    Undone locale lower userId candidate.deviceId candidate.target.platform call a prepared bindings →
    Within locale s userId candidate.deviceId prepared

theorem rollsBack_import (locale : Locale) (lower : String → String) (hordered : locale.Ordered) (s : Storage)
    (hs : Consistent s) (userId : String) (call : ImportCall) (hfresh : FreshIds s call)
    (hstays : ImportStays locale lower s userId call) :
    RollsBack s (importRepositoriesOnCompanion locale lower s userId call) := by
  unfold importRepositoriesOnCompanion
  split
  · trivial
  rename_i paths hpaths
  split
  · trivial
  split
  · trivial
  · trivial
  rename_i candidate hselected
  split
  · trivial
  · trivial
  rename_i primaryWorkspaceIds hprimary
  show RollsBack s (handled lower userId candidate.deviceId candidate.target.platform call
    (importAttempt locale lower s userId call paths candidate primaryWorkspaceIds))
  have huntouched : ∀ message,
    RollsBack s (recoverImport lower userId candidate.deviceId candidate.target.platform
      call message s [] none) := fun message =>
    rollsBack_recover hs (created_nil hs) (restored_refl s) rfl
  unfold importAttempt
  dsimp only
  cases hdiscovery : call.discovery with
  | error message => exact huntouched message
  | ok answer =>
    cases answer with
    | none => exact huntouched _
    | some discovered =>
      dsimp only
      cases hselection : importSelection lower candidate.target.platform paths discovered with
      | error refused =>
        unfold importSelection at hselection
        dsimp only at hselection
        split_ifs at hselection
        · cases hselection
          trivial
        · cases hselection
          trivial
      | ok selected =>
        dsimp only
        have hkeys := importSelection_keys hselection
        split
        · rename_i message a hall
          have hcreated := (created_allocateAll hfresh.repository hfresh.repositories selected 0 _
            (created_nil hs) (by simp) hall).1
          exact rollsBack_recover hs hcreated (restored_refl a.storage) rfl
        · rename_i a hall
          obtain ⟨hcreated, hbound⟩ := created_allocateAll hfresh.repository hfresh.repositories selected 0 _
            (created_nil hs) (by simp) hall
          refine rollsBack_allocated hs hordered hfresh hcreated
            (allocated_keys (by simpa using hbound rfl) hkeys) ?_
          intro prepared bindings hprepare hundone
          exact hstays candidate paths primaryWorkspaceIds discovered selected a prepared bindings
            hselected hpaths
            hprimary hdiscovery hselection hall hprepare hundone

theorem failures_roll_back (locale : Locale) (lower : String → String) (hordered : locale.Ordered)
    (s : Storage) (hs : Consistent s) (userId : String) :
    (∀ call : MaterializeCall, freshMaterialization s call.materializationId = true →
      RollsBack s (materializeRepositoryOnCompanion locale lower s userId call) ∧
      RollsBack s (materializeRepositoryOnPrimary locale lower s userId call)) ∧
    ∀ call : ImportCall, FreshIds s call → ImportStays locale lower s userId call →
      RollsBack s (importRepositoriesOnCompanion locale lower s userId call) := by
  constructor
  · intro call hfresh
    simp only [freshMaterialization, Bool.and_eq_true, decide_eq_true_eq, Option.isNone_iff_eq_none] at hfresh
    exact ⟨rollsBack_companion locale lower s userId call hs hfresh.1 hfresh.2,
      rollsBack_primary locale lower s userId call hs hfresh.1 hfresh.2⟩
  · intro call hfresh hstays
    exact rollsBack_import locale lower hordered s hs userId call hfresh hstays

end Import

section Samples

theorem plainLocale_ordered : plainLocale.Ordered where
  total a b := by simpa [plainLocale] using le_total a b
  trans a b c := by
    simp only [plainLocale, decide_eq_true_eq]
    exact le_trans

/-- An id of a supply that no sample store uses. -/
def spareId (n : ℕ) : String := String.ofList (List.replicate (n + 1) 'x')

theorem spareId_injective : Function.Injective spareId := by
  intro m n h
  have hlength : (spareId m).toList.length = (spareId n).toList.length := by rw [h]
  simpa [spareId] using hlength

theorem spareId_ne {value : String} (hvalue : value.toList.head? ≠ some 'x') (n : ℕ) : spareId n ≠ value := by
  intro h
  apply hvalue
  rw [← h]
  simp [spareId, List.replicate_succ]

theorem sampleStore_consistent : Consistent sampleStore := consistent_reached sampleStore_reached

theorem sampleStore_records : sampleStore.repositoryIds sampleUser = ["repo_1", "repo_2"] ∧
    sampleStore.materializationIds "repo_2" = [] ∧
    sampleStore.materializations "mat_1" =
      some ⟨"mat_1", "repo_1", sampleUser, .device "dev_1", "w1", "/a", .linux, sampleTime⟩ ∧
    previousFor plainLocale sampleStore sampleUser "dev_1" "repo_1" "w1" "/a" =
      some ⟨"mat_1", "repo_1", sampleUser, .device "dev_1", "w1", "/a", .linux, sampleTime⟩ := by
  decide +kernel

theorem sampleStore_repository {k : String} {r : StoredRepository} (h : sampleStore.repositories k = some r) :
    k = "repo_1" ∨ k = "repo_2" := by
  have howner : r.ownerUserId = sampleUser := by
    have huser := (sampleStore_consistent.repository k r h).2.1
    rcases sampleStore_consistent.user with ⟨hids, _⟩ | ⟨user, hids, _, _, husers, _⟩
    · exact absurd (hids.symm.trans sampleStore_run.2.2.1) (by simp)
    · have hid : [user.id] = [sampleUser] := hids.symm.trans sampleStore_run.2.2.1
      rw [husers] at huser
      split_ifs at huser with hsame
      · rw [hsame]
        simpa using hid
      · cases huser
  have hmem := sampleStore_consistent.repositories.mem_owner h
  rw [howner] at hmem
  simpa [sampleStore_records.1] using hmem

theorem sampleStore_materialization {k : String} {m : StoredMaterialization}
    (h : sampleStore.materializations k = some m) : k = "mat_1" := by
  have hmem := sampleStore_consistent.materializations.mem_owner h
  obtain ⟨r, hr, _⟩ := (sampleStore_consistent.materialization k m h).2
  rcases sampleStore_repository hr with heq | heq
  · rw [heq, sampleStore_run.2.1] at hmem
    simpa using hmem
  · rw [heq, sampleStore_records.2.1] at hmem
    cases hmem

/-- An import of one path from the device of the sample store, with the
answers of its companion. -/
def sampleImport (discovered : DiscoveredRepositoryEntry) (validated : InternalBoundRepository) :
    ImportCall where
  root := "/"
  paths := some [discovered.path]
  requestedDeviceId := none
  candidates := [⟨⟨some .linux⟩, "dev_1", []⟩]
  primaryWorkspaceIds := .ok (some [])
  candidatesAfter := []
  discovery := .ok (some [discovered])
  prepare := .ok (some [validated])
  bind := .ok none
  repositoryId := spareId
  createdAt _ := sampleTime
  materializationId := spareId
  committedAt _ := sampleTime
  restoredId _ := "mat_9"
  restoredAt _ := sampleTime

theorem sampleImport_fresh (discovered : DiscoveredRepositoryEntry) (validated : InternalBoundRepository) :
    FreshIds sampleStore (sampleImport discovered validated) where
  repository n := by
    cases h : sampleStore.repositories (spareId n) with
    | none => exact h
    | some r =>
      rcases sampleStore_repository h with heq | heq
      · exact absurd heq (spareId_ne (by decide) n)
      · exact absurd heq (spareId_ne (by decide) n)
  repositories := spareId_injective
  named := spareId_ne (by decide)
  materialization n := by
    cases h : sampleStore.materializations (spareId n) with
    | none => exact h
    | some m => exact absurd (sampleStore_materialization h) (spareId_ne (by decide) n)
  materializations := spareId_injective

/-- The path of the stored record, bound and validated as it is. -/
def sampleReimport : ImportCall := sampleImport ⟨"alpha", "/a", "w1", []⟩ ⟨"repo_1", "w1", "/a"⟩

theorem sampleReimport_within {candidate : CompanionRouteCandidate CompanionTarget}
    {prepared : List InternalBoundRepository}
    (hselected :
      selectCompanionDevice sampleReimport.candidates sampleReimport.requestedDeviceId = .selected candidate)
    (hprepare : sampleReimport.prepare = .ok (some prepared)) :
    Within plainLocale sampleStore sampleUser candidate.deviceId prepared := by
  have hcandidate : candidate = ⟨⟨some .linux⟩, "dev_1", []⟩ := by
    cases hselected
    rfl
  have hprepared : prepared = [⟨"repo_1", "w1", "/a"⟩] := by
    cases hprepare
    rfl
  obtain ⟨-, -, hstored, hprevious⟩ := sampleStore_records
  subst hcandidate hprepared
  refine ⟨?_, ?_, List.pairwise_singleton _ _⟩
  · intro v hv m hm
    rw [List.mem_singleton.mp hv] at hm ⊢
    rw [hprevious] at hm
    cases hm
    rfl
  · intro v hv k m hm _ _ _
    rw [List.mem_singleton.mp hv, hprevious]
    rw [sampleStore_materialization hm, hstored] at hm
    exact hm

theorem sampleReimport_stays : ImportStays plainLocale id sampleStore sampleUser sampleReimport :=
  fun _ _ _ _ _ _ _ _ hselected _ _ _ _ _ hprepare _ => sampleReimport_within hselected hprepare

theorem failures_roll_back_sample :
    (importRepositoriesOnCompanion plainLocale id sampleStore sampleUser sampleReimport).1 =
      .error .repositoryImportFailed "Local repository binding failed." ∧
    RollsBack sampleStore
      (importRepositoriesOnCompanion plainLocale id sampleStore sampleUser sampleReimport) :=
  ⟨by decide +kernel,
    (failures_roll_back plainLocale id plainLocale_ordered sampleStore sampleStore_consistent sampleUser).2
      sampleReimport (sampleImport_fresh _ _) sampleReimport_stays⟩

/-- The path is discovered with a slash at its end and validated without: a
repository is created for it, and the record of the other one moves there. -/
def movingImport : ImportCall := sampleImport ⟨"gamma", "/a/", "w9", []⟩ ⟨"x", "w9", "/a"⟩

theorem moved_record_not_rolled_back :
    Reaches (step plainLocale) (Orderly plainLocale) Storage.empty sampleStore ∧
    FreshIds sampleStore movingImport ∧
    (importRepositoriesOnCompanion plainLocale id sampleStore sampleUser movingImport).1 =
      .error .repositoryImportRollbackFailed
        "Local repository binding failed. Rollback failure: New repository cleanup failed for x." ∧
    sampleStore.repositoryIds sampleUser = ["repo_1", "repo_2"] ∧
    (importRepositoriesOnCompanion plainLocale id sampleStore sampleUser
      movingImport).2.repositoryIds sampleUser =
      ["repo_1", "repo_2", "x"] ∧
    ¬ RollsBack sampleStore
      (importRepositoriesOnCompanion plainLocale id sampleStore sampleUser movingImport) := by
  have hrun : (importRepositoriesOnCompanion plainLocale id sampleStore sampleUser movingImport).1 =
      .error .repositoryImportRollbackFailed
        "Local repository binding failed. Rollback failure: New repository cleanup failed for x." ∧
      (importRepositoriesOnCompanion plainLocale id sampleStore sampleUser
        movingImport).2.repositoryIds sampleUser =
        ["repo_1", "repo_2", "x"] := by
    decide +kernel
  obtain ⟨hanswer, hids⟩ := hrun
  refine ⟨sampleStore_reached, sampleImport_fresh _ _, hanswer, sampleStore_records.1, hids, ?_⟩
  unfold RollsBack
  rw [hanswer]
  exact not_false

end Samples

end AccessStack.Accounts
