import AccessStack.Accounts.Undo

/-!
# The repositories that an import creates

They are new, they have no materializations, and they stand at the end of
the index of their user. What is looked up by device and path is not changed
by them, and the cleanup removes them.
-/

set_option autoImplicit false

namespace AccessStack.Accounts
open AccessStack.Index AccessStack.Text

section Sorting

variable {α : Type} {r : α → α → Prop} [DecidableRel r] {p : α → Bool}

theorem filter_orderedInsert (htrans : ∀ a b c, r a b → r b c → r a c) {a : α} (ha : p a = true) {l : List α}
    (hl : l.Pairwise r) : (l.orderedInsert r a).filter p = (l.filter p).orderedInsert r a := by
  induction l with
  | nil => simp [ha]
  | cons b l ih =>
    obtain ⟨hb, hl⟩ := List.pairwise_cons.mp hl
    by_cases hab : r a b
    · rw [List.orderedInsert_cons, if_pos hab, List.filter_cons_of_pos ha]
      cases hkept : (b::l).filter p with
      | nil => rfl
      | cons c kept =>
        have hc : c ∈ b::l := List.mem_of_mem_filter (p := p) (by rw [hkept]; exact List.mem_cons_self)
        have hac : r a c := by
          rcases List.mem_cons.mp hc with hc | hc
          · exact hc ▸ hab
          · exact htrans a b c hab (hb c hc)
        rw [List.orderedInsert_cons, if_pos hac]
    · rw [List.orderedInsert_cons, if_neg hab]
      cases hpb : p b with
      | true =>
        rw [List.filter_cons_of_pos hpb, List.filter_cons_of_pos hpb, ih hl,
          List.orderedInsert_cons, if_neg hab]
      | false =>
        have hpb' : ¬ p b = true := by simp [hpb]
        rw [List.filter_cons_of_neg hpb', List.filter_cons_of_neg hpb', ih hl]

/-- Sorting is stable: what is filtered out does not move the rest. -/
theorem filter_insertionSort (htotal : ∀ a b, r a b ∨ r b a) (htrans : ∀ a b c, r a b → r b c → r a c)
    {l news : List α} (hl : ∀ a ∈ l, p a = true) (hnews : ∀ a ∈ news, p a = false) :
    ((l ++ news).insertionSort r).filter p = l.insertionSort r := by
  have hr : Std.Total r := ⟨htotal⟩
  have htr : IsTrans α r := ⟨htrans⟩
  induction l with
  | nil =>
    rw [List.nil_append, List.insertionSort_nil, List.filter_eq_nil_iff]
    intro a ha
    rw [List.mem_insertionSort] at ha
    simp [hnews a ha]
  | cons a l ih =>
    rw [List.cons_append, List.insertionSort_cons, List.insertionSort_cons,
      filter_orderedInsert htrans (hl a List.mem_cons_self) (List.pairwise_insertionSort r _),
      ih fun b hb => hl b (List.mem_cons_of_mem a hb)]

theorem findSome?_filter {β : Type} {f : α → Option β} {l : List α} (h : ∀ a ∈ l, p a = false → f a = none) :
    (l.filter p).findSome? f = l.findSome? f := by
  induction l with
  | nil => rfl
  | cons a l ih =>
    have hrest := ih fun b hb => h b (List.mem_cons_of_mem a hb)
    cases hpa : p a with
    | true => rw [List.filter_cons_of_pos hpa, List.findSome?_cons, List.findSome?_cons, hrest]
    | false =>
      rw [List.filter_cons_of_neg (by simp [hpa]), hrest, List.findSome?_cons, h a List.mem_cons_self hpa]

end Sorting

section Created

/-- Some repositories of the user are created on top of `s`. -/
structure Created (s : Storage) (userId : String) (T : Storage) (created : List String) : Prop where
  consistent : Consistent T
  frame : T = { s with repositories := T.repositories, userRepositoryIds := T.userRepositoryIds }
  fresh : ∀ c ∈ created, s.repositories c = none
  nodup : created.Nodup
  others : ∀ k, k ∉ created → T.repositories k = s.repositories k
  owned : ∀ c ∈ created, ∃ r, T.repositories c = some r ∧ r.ownerUserId = userId
  listed : T.repositoryIds = Function.update s.repositoryIds userId (s.repositoryIds userId ++ created)

variable {s T : Storage} {userId : String} {created : List String} {locale : Locale}

theorem created_nil (h : Consistent s) : Created s userId s [] where
  consistent := h
  frame := rfl
  fresh c hc := by cases hc
  nodup := List.nodup_nil
  others _ _ := rfl
  owned c hc := by cases hc
  listed := by simp

theorem Created.materializations (h : Created s userId T created) :
    T.materializations = s.materializations := by
  rw [h.frame]

theorem Created.materializationIds (h : Created s userId T created) :
    T.materializationIds = s.materializationIds := by
  rw [h.frame]
  rfl

theorem Created.create (h : Created s userId T created) {name generated now : String}
    {remoteUrls : List String} {repository : StoredRepository} {T' : Storage}
    (hfresh : s.repositories generated = none) (hnew : generated ∉ created)
    (hcreate : createRepository locale T userId name remoteUrls generated now = (.ok repository, T')) :
    repository.id = generated ∧ Created s userId T' (created ++ [generated]) := by
  have hfreshT : (T.repositories generated).isNone = true := by rw [h.others generated hnew, hfresh]; rfl
  have hconsistent : Consistent (createRepository locale T userId name remoteUrls generated now).2 :=
    consistent_createRepository h.consistent userId name remoteUrls generated now hfreshT
  rw [hcreate] at hconsistent
  unfold createRepository at hcreate
  split at hcreate
  · cases hcreate
  dsimp only at hcreate
  split_ifs at hcreate
  · cases hcreate
  · cases hcreate
  · cases hcreate
  cases hcreate
  refine ⟨rfl, hconsistent, ?_, ?_, ?_, ?_, ?_, ?_⟩
  · conv_lhs => rw [h.frame]
    rfl
  · intro c hc
    rcases List.mem_append.mp hc with hc | hc
    · exact h.fresh c hc
    · rw [List.mem_singleton.mp hc]
      exact hfresh
  · rw [← List.concat_eq_append]
    exact h.nodup.concat hnew
  · intro k hk
    simp only [List.mem_append, List.mem_singleton, not_or] at hk
    simp only [Storage.putRepositoryIds, Storage.putRepository, Function.update_of_ne hk.2]
    exact h.others k hk.1
  · intro c hc
    by_cases hsame : c = generated
    · subst hsame
      simp only [Storage.putRepositoryIds, Storage.putRepository, Function.update_self]
      exact ⟨_, rfl, rfl⟩
    · simp only [Storage.putRepositoryIds, Storage.putRepository, Function.update_of_ne hsame]
      apply h.owned c
      simpa [hsame] using hc
  · rw [repositoryIds_put]
    have hlisted :
      (T.putRepository ⟨generated, userId, trim name, normalizeRepositoryName locale name, .privateOnly,
        normalizeRemoteUrls remoteUrls, [(userId, .owner)], now, now⟩).repositoryIds = T.repositoryIds := rfl
    rw [hlisted, h.listed]
    simp

end Created

section Run

variable {s : Storage} {userId deviceId : String} {locale : Locale} {lower : String → String}
  {platform : Option Platform}

theorem created_cloudRepository {entry : DiscoveredRepositoryEntry} {generated now : String}
    {a a' : Allocation} {repository : StoredRepository}
    (h : Created s userId a.storage a.createdRepositoryIds)
    (hfresh : s.repositories generated = none) (hnew : generated ∉ a.createdRepositoryIds)
    (hcloud : cloudRepository locale userId entry generated now a = .ok (repository, a')) :
    Created s userId a'.storage a'.createdRepositoryIds ∧ a'.bindings = a.bindings ∧
      ∀ c ∈ a'.createdRepositoryIds, c ∈ a.createdRepositoryIds ∨ c = generated := by
  unfold cloudRepository at hcloud
  dsimp only at hcloud
  split at hcloud
  · cases hcloud
  · cases hcloud
    exact ⟨h, rfl, fun c hc => .inl hc⟩
  · split at hcloud
    · cases hcloud
    split at hcloud
    · cases hcloud
    rename_i created storage hcreate
    cases hcloud
    obtain ⟨hid, hcreated⟩ := h.create hfresh hnew hcreate
    refine ⟨?_, rfl, ?_⟩
    · simpa only [hid] using hcreated
    · intro c hc
      simpa [hid] using hc

theorem created_allocate {entry : DiscoveredRepositoryEntry} {generated now : String} {a a' : Allocation}
    (h : Created s userId a.storage a.createdRepositoryIds)
    (hfresh : s.repositories generated = none) (hnew : generated ∉ a.createdRepositoryIds)
    (hallocate : allocateRepository locale lower userId deviceId platform generated now a entry = .ok a') :
    Created s userId a'.storage a'.createdRepositoryIds ∧
      a'.bindings.map (·.path) = a.bindings.map (·.path) ++ [entry.path] ∧
      ∀ c ∈ a'.createdRepositoryIds, c ∈ a.createdRepositoryIds ∨ c = generated := by
  unfold allocateRepository at hallocate
  dsimp only at hallocate
  split at hallocate
  · cases hallocate
  rename_i workspaceId _
  split at hallocate
  · cases hallocate
    exact ⟨h, by simp, fun c hc => .inl hc⟩
  · cases hcloud : cloudRepository locale userId entry generated now
      { a with allocatedWorkspaceIds := a.allocatedWorkspaceIds ++ [workspaceId] } with
    | error message =>
      rw [hcloud] at hallocate
      cases hallocate
    | ok bound =>
      rw [hcloud] at hallocate
      cases hallocate
      obtain ⟨hcreated, hbindings, hmem⟩ := created_cloudRepository (a := { a with
        allocatedWorkspaceIds := a.allocatedWorkspaceIds ++ [workspaceId] }) h hfresh hnew hcloud
      refine ⟨hcreated, ?_, hmem⟩
      simp [hbindings]

attribute [local irreducible] allocateRepository in
theorem allocateRepositories_cons (platform : Option Platform) (generated now : ℕ → String)
    (a : Allocation) (n : ℕ) (entry : DiscoveredRepositoryEntry) (rest : List DiscoveredRepositoryEntry) :
    allocateRepositories locale lower userId deviceId platform generated now a n (entry::rest) =
      match allocateRepository locale lower userId deviceId platform (generated n) (now n) a entry with
      | .error message => (some message, a)
      | .ok a => allocateRepositories locale lower userId deviceId platform generated now a (n +
          1) rest := rfl

/-- The repositories created by an allocation, whether it comes to its end or not. -/
theorem created_allocateAll {generated now : ℕ → String} (hfresh : ∀ n, s.repositories (generated n) = none)
    (hinjective : Function.Injective generated) (entries : List DiscoveredRepositoryEntry) (n : ℕ)
    (a : Allocation) (h : Created s userId a.storage a.createdRepositoryIds)
    (hmem : ∀ c ∈ a.createdRepositoryIds, ∃ m < n, c = generated m) {message : Option String}
    {a' : Allocation}
    (hall : allocateRepositories locale lower userId deviceId platform generated now a n entries =
      (message, a')) :
    Created s userId a'.storage a'.createdRepositoryIds ∧
      (message = none → a'.bindings.map (·.path) = a.bindings.map (·.path) ++ entries.map (·.path)) := by
  induction entries generalizing a n with
  | nil =>
    cases hall
    exact ⟨h, fun _ => by simp⟩
  | cons entry rest ih =>
    rw [allocateRepositories_cons] at hall
    split at hall
    · cases hall
      exact ⟨h, fun hnone => by cases hnone⟩
    · rename_i a₁ hallocate
      have hnew : generated n ∉ a.createdRepositoryIds := by
        intro hc
        obtain ⟨m, hm, heq⟩ := hmem _ hc
        have := hinjective heq
        omega
      obtain ⟨hcreated, hbindings, hstep⟩ := created_allocate h (hfresh n) hnew hallocate
      have hmem₁ : ∀ c ∈ a₁.createdRepositoryIds, ∃ m < n + 1, c = generated m := by
        intro c hc
        rcases hstep c hc with hc | hc
        · obtain ⟨m, hm, heq⟩ := hmem c hc
          exact ⟨m, by omega, heq⟩
        · exact ⟨n, by omega, hc⟩
      obtain ⟨hfinal, hpaths⟩ := ih (n + 1) a₁ hcreated hmem₁ hall
      refine ⟨hfinal, fun hnone => ?_⟩
      rw [hpaths hnone, hbindings]
      simp

end Run

/-- The collation is a total preorder. -/
structure Locale.Ordered (locale : Locale) : Prop where
  total : ∀ a b, locale.le a b = true ∨ locale.le b a = true
  trans : ∀ a b c, locale.le a b = true → locale.le b c = true → locale.le a c = true

section Lookup

variable {s T : Storage} {userId : String} {created : List String} {locale : Locale}

theorem Created.ids_nil (h : Created s userId T created) (hs : Consistent s) {c : String} (hc : c ∈ created) :
    s.materializationIds c = [] := by
  apply hs.materializations.nil
  intro i x hx heq
  obtain ⟨r, hr, _⟩ := (hs.materialization i x hx).2
  rw [heq, h.fresh c hc] at hr
  cases hr

theorem Created.repository (h : Created s userId T created) {k : String} (hk : k ∉ created) :
    getRepositoryForUser T userId k = getRepositoryForUser s userId k := by
  simp only [getRepositoryForUser, h.others k hk]

/-- The list of repositories is that of `s` with the new ones among it. -/
theorem Created.listRepositories (h : Created s userId T created) (hs : Consistent s)
    (hordered : locale.Ordered) :
    (listRepositories locale T userId).filter (fun access => access.1.id ∉ created) =
      listRepositories locale s userId := by
  have hids : ∀ k access, getRepositoryForUser T userId k = some access → access.1.id = k := by
    intro k access haccess
    obtain ⟨r, hr, hrole⟩ := Option.bind_eq_some_iff.mp haccess
    obtain ⟨_, _, heq⟩ := Option.map_eq_some_iff.mp hrole
    cases heq
    exact (h.consistent.repository k r hr).1
  have hold : ∀ k ∈ s.repositoryIds userId, k ∉ created := by
    intro k hk hc
    obtain ⟨r, hr, _⟩ := hs.repositories.listed hk
    rw [h.fresh k hc] at hr
    cases hr
  have hsame : (s.repositoryIds userId).filterMap (getRepositoryForUser T userId) =
      (s.repositoryIds userId).filterMap (getRepositoryForUser s userId) :=
    List.filterMap_congr fun k hk => h.repository (hold k hk)
  have hlisted : T.repositoryIds userId = s.repositoryIds userId ++ created := by
    rw [h.listed, Function.update_self]
  simp only [Accounts.listRepositories, hlisted, List.filterMap_append, ← hsame]
  apply filter_insertionSort
  · intro a b
    exact hordered.total a.1.name b.1.name
  · intro a b c
    exact hordered.trans a.1.name b.1.name c.1.name
  · intro access haccess
    obtain ⟨k, hk, heq⟩ := List.mem_filterMap.mp haccess
    simpa [hids k access heq] using hold k hk
  · intro access haccess
    obtain ⟨k, hk, heq⟩ := List.mem_filterMap.mp haccess
    simpa [hids k access heq] using hk

theorem Created.findByDevicePath (h : Created s userId T created) (hs : Consistent s)
    (hordered : locale.Ordered) (deviceId path : String) :
    findMaterializationByDevicePath locale T userId deviceId path =
      findMaterializationByDevicePath locale s userId deviceId path := by
  unfold findMaterializationByDevicePath
  rw [h.materializationIds, h.materializations, ← h.listRepositories hs hordered, eq_comm]
  apply findSome?_filter
  intro access _ hnew
  have hc : access.1.id ∈ created := by simpa using hnew
  rw [h.ids_nil hs hc]
  rfl

theorem Created.current (h : Created s userId T created) (hs : Consistent s) (repositoryId : String)
    (host : Host) (workspaceId : String) :
    currentMaterialization T userId repositoryId host workspaceId =
      currentMaterialization s userId repositoryId host workspaceId := by
  by_cases hc : repositoryId ∈ created
  · have hnone : getRepositoryForUser s userId repositoryId = none := by
      simp [getRepositoryForUser, h.fresh repositoryId hc]
    simp [currentMaterialization, listMaterializations, h.materializationIds, h.materializations,
      h.ids_nil hs hc, hnone]
  · simp only [currentMaterialization, listMaterializations, h.materializationIds, h.materializations,
      h.repository hc]

theorem Created.previousFor (h : Created s userId T created) (hs : Consistent s) (hordered : locale.Ordered)
    (deviceId repositoryId workspaceId path : String) :
    previousFor locale T userId deviceId repositoryId workspaceId path =
      Accounts.previousFor locale s userId deviceId repositoryId workspaceId path := by
  simp only [Accounts.previousFor, h.findByDevicePath hs hordered, h.current hs]

end Lookup

section Cleanup

/-- The store is back but for some new repositories of the user. -/
structure Leftover (s : Storage) (userId : String) (T : Storage) (created : List String) : Prop where
  fresh : ∀ c ∈ created, s.repositories c = none
  nodup : created.Nodup
  others : ∀ k, k ∉ created → T.repositories k = s.repositories k
  owned : ∀ c ∈ created, ∃ r, T.repositories c = some r ∧ r.ownerUserId = userId
  listed : (T.repositoryIds userId).filter (· ∉ created) = s.repositoryIds userId
  otherUsers : ∀ u, u ≠ userId → T.repositoryIds u = s.repositoryIds u
  materializationIds : T.materializationIds = s.materializationIds
  materializations : ∀ k, (T.materializations k).map (fun m => { m with updatedAt := "" }) =
    (s.materializations k).map (fun m => { m with updatedAt := "" })

variable {s T : Storage} {userId : String} {created : List String}

theorem Leftover.restored (h : Leftover s userId T []) : Restored s T where
  repositories := by
    funext k
    exact h.others k (by simp)
  repositoryIds := by
    funext u
    by_cases hu : u = userId
    · subst hu
      have hlisted := h.listed
      rwa [List.filter_eq_self.mpr (by simp)] at hlisted
    · exact h.otherUsers u hu
  materializationIds := h.materializationIds
  materializations := h.materializations

theorem Created.leftover {T' : Storage} (h : Created s userId T created) (hs : Consistent s)
    (hback : Restored T T') :
    Leftover s userId T' created.reverse where
  fresh c hc := h.fresh c (List.mem_reverse.mp hc)
  nodup := List.nodup_reverse.mpr h.nodup
  others k hk := by
    rw [hback.repositories]
    exact h.others k (by simpa using hk)
  owned c hc := by
    rw [hback.repositories]
    exact h.owned c (List.mem_reverse.mp hc)
  listed := by
    rw [hback.repositoryIds, h.listed, Function.update_self, List.filter_append]
    have hnew : created.filter (· ∉ created.reverse) = [] := by simp [List.filter_eq_nil_iff]
    have hold : (s.repositoryIds userId).filter (· ∉ created.reverse) = s.repositoryIds userId := by
      apply List.filter_eq_self.mpr
      intro k hk
      obtain ⟨r, hr, _⟩ := hs.repositories.listed hk
      by_cases hc : k ∈ created
      · rw [h.fresh k hc] at hr
        cases hr
      · simpa using hc
    rw [hnew, hold, List.append_nil]
  otherUsers u hu := by
    rw [hback.repositoryIds, h.listed, Function.update_of_ne hu]
  materializationIds := hback.materializationIds.trans h.materializationIds
  materializations k := by
    rw [hback.materializations k, h.materializations]

theorem Leftover.delete {c : String} (h : Leftover s userId T (c::created)) (hs : Consistent s) :
    ∃ T', deleteOwnedRepositoryIfUnmaterialized T userId c = (true, T') ∧ Leftover s userId T' created := by
  obtain ⟨r, hr, howner⟩ := h.owned c List.mem_cons_self
  obtain ⟨hnot, hnodup⟩ := List.nodup_cons.mp h.nodup
  have haccess : getRepositoryForUser T userId c = some (r, .owner) := by
    simp [getRepositoryForUser, hr, roleFor, howner]
  have hnil : s.materializationIds c = [] := by
    apply hs.materializations.nil
    intro i x hx heq
    obtain ⟨r', hr', _⟩ := (hs.materialization i x hx).2
    rw [heq, h.fresh c List.mem_cons_self] at hr'
    cases hr'
  have hids : (removeRepositoryId T userId c).repositoryIds =
      Function.update T.repositoryIds userId ((T.repositoryIds userId).filter (· ≠ c)) := by
    unfold removeRepositoryId
    dsimp only
    split_ifs with hmem
    · rw [repositoryIds_put]
    · have hsame : (T.repositoryIds userId).filter (· ≠ c) = T.repositoryIds userId := by
        apply List.filter_eq_self.mpr
        intro k hk
        simpa using fun heq : k = c => hmem (heq ▸ hk)
      rw [hsame, Function.update_eq_self]
  have hother : removeRepositoryId T userId c =
      { T with userRepositoryIds := (removeRepositoryId T userId c).userRepositoryIds } := by
    unfold removeRepositoryId
    dsimp only
    split_ifs <;> rfl
  have hdelete : deleteOwnedRepositoryIfUnmaterialized T userId c =
      (true, { removeRepositoryId T userId c with
        repositoryMaterializationIds := Function.update T.repositoryMaterializationIds c none
        repositories := Function.update T.repositories c none }) := by
    unfold deleteOwnedRepositoryIfUnmaterialized
    simp only [haccess, howner, h.materializationIds, hnil, List.any_nil, ne_eq, not_true_eq_false, or_self,
      if_false, Bool.false_eq_true]
    rw [hother]
  refine ⟨_, hdelete, ?_, hnodup, ?_, ?_, ?_, ?_, ?_, ?_⟩
  · intro d hd
    exact h.fresh d (List.mem_cons_of_mem c hd)
  · intro k hk
    by_cases hkc : k = c
    · subst hkc
      simp [h.fresh k List.mem_cons_self]
    · simp only [Function.update_of_ne hkc]
      exact h.others k (by simp [hkc, hk])
  · intro d hd
    have hdc : d ≠ c := fun heq => hnot (heq ▸ hd)
    simp only [Function.update_of_ne hdc]
    exact h.owned d (List.mem_cons_of_mem c hd)
  · show (((removeRepositoryId T userId c).repositoryIds userId).filter (· ∉ created)) =
      s.repositoryIds userId
    rw [hids, Function.update_self, List.filter_filter, ← h.listed]
    apply List.filter_congr
    intro k _
    by_cases hkc : k = c <;> simp [hkc]
  · intro u hu
    show (removeRepositoryId T userId c).repositoryIds u = s.repositoryIds u
    rw [hids, Function.update_of_ne hu]
    exact h.otherUsers u hu
  · funext k
    show (Function.update T.repositoryMaterializationIds c none k).getD [] = s.materializationIds k
    by_cases hkc : k = c
    · subst hkc
      simp [hnil]
    · rw [Function.update_of_ne hkc, ← h.materializationIds]
      rfl
  · intro k
    show ((removeRepositoryId T userId c).materializations k).map _ = _
    rw [hother]
    exact h.materializations k

theorem Leftover.cleanup (hs : Consistent s) (created : List String) (T : Storage)
    (h : Leftover s userId T created) :
    ∃ T', cleanupRepositories userId T created = ([], T') ∧ Restored s T' := by
  induction created generalizing T with
  | nil => exact ⟨T, rfl, h.restored⟩
  | cons c rest ih =>
    obtain ⟨T₁, hdelete, hleft⟩ := h.delete hs
    obtain ⟨T', hclean, hrestored⟩ := ih T₁ hleft
    refine ⟨T', ?_, hrestored⟩
    simp only [cleanupRepositories, hdelete, if_true]
    exact hclean

end Cleanup

end AccessStack.Accounts
