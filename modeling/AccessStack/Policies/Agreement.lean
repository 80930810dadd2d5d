import AccessStack.Policies.Denial

/-!
# Whether catalog and policy agree

Every push writes a path key and an id into the map and into the catalog. The
map keeps the last id of a key, the catalog keeps all of them. They agree
exactly if keys and ids of what was pushed determine each other.
-/

set_option autoImplicit false

namespace AccessStack.Policies
open AccessStack.Keys

section Pushes

/-- Keys and ids determine each other. -/
def Matching (pairs : List (String × String)) : Prop := ∀ p ∈ pairs, ∀ q ∈ pairs, p.1 = q.1 ↔ p.2 = q.2

variable (platform : Platform)

def WorkspaceCatalogEntryMeta.pair (entry : WorkspaceCatalogEntryMeta) : String × String :=
  (canonicalPathKey platform entry.canonicalRootPath, entry.id)

/-- The enabled entries of a catalog. -/
def shown (catalog : List WorkspaceCatalogEntryMeta) : List (String × String) :=
  (catalog.filter (·.enabled)).map (·.pair platform)

/-- The map holds the last id that the catalog has for a key. -/
structure Recorded (m : Merging) : Prop where
  nodup : m.keys.Nodup
  last : ∀ key id, (∃ w, (key, w) ∈ m.merged ∧ w.id = id) ↔
    lookup Prod.fst (shown platform m.catalog) key = some (key, id)

variable {platform} {m : Merging} {key : String} {w : WorkspacePolicy} {entry : WorkspaceCatalogEntryMeta}

theorem shown_push (hon : entry.enabled = true) (hpair : entry.pair platform = (key, w.id)) :
    shown platform (m.push key w entry).catalog = shown platform m.catalog ++ [(key, w.id)] := by
  show shown platform (m.catalog ++ [entry]) = _
  unfold shown
  rw [List.filter_append, List.map_append, List.filter_cons_of_pos hon, List.filter_nil,
    List.map_singleton, hpair]

theorem Recorded.push (h : Recorded platform m) (hon : entry.enabled = true)
    (hpair : entry.pair platform = (key, w.id)) :
    Recorded platform (m.push key w entry) where
  nodup := nodup_setKey h.nodup key w
  last := by
    intro k id
    rw [shown_push hon hpair]
    have hlookup : lookup Prod.fst (shown platform m.catalog ++ [(key, w.id)]) k =
        if key = k then some (key, w.id) else lookup Prod.fst (shown platform m.catalog) k := by
      unfold lookup
      rw [List.reverse_append, List.reverse_singleton, List.singleton_append, List.find?_cons]
      by_cases hkey : key = k <;> simp [hkey]
    rw [hlookup]
    by_cases hkey : key = k
    · subst hkey
      rw [if_pos rfl]
      constructor
      · rintro ⟨w', hw', rfl⟩
        rcases mem_setKey.mp hw' with heq | ⟨hne, -⟩
        · cases heq
          rfl
        · exact absurd rfl hne
      · intro heq
        exact ⟨w, mem_setKey.mpr (.inl rfl), (Prod.mk.inj (Option.some.inj heq)).2⟩
    · rw [if_neg hkey, ← h.last k id]
      constructor
      · rintro ⟨w', hw', hid⟩
        rcases mem_setKey.mp hw' with heq | ⟨-, hold⟩
        · exact absurd (congrArg Prod.fst heq).symm hkey
        · exact ⟨w', hold, hid⟩
      · rintro ⟨w', hw', hid⟩
        exact ⟨w', mem_setKey.mpr (.inr ⟨Ne.symm hkey, hw'⟩), hid⟩

theorem Recorded.mem_of_last (h : Recorded platform m) {id : String} (hw : (key, w) ∈ m.merged)
    (hid : w.id = id) :
    (key, id) ∈ shown platform m.catalog := (lookup_mem ((h.last key id).mp ⟨w, hw, hid⟩)).1

/-- What the catalog shows is what the map holds, under different ids, exactly
if keys and ids determine each other. -/
theorem Recorded.agree_iff (h : Recorded platform m) :
    ((m.merged.map (·.2.id)).Nodup ∧
      ∀ key id, (key, id) ∈ shown platform m.catalog ↔ ∃ w, (key, w) ∈ m.merged ∧ w.id = id) ↔
        Matching (shown platform m.catalog) := by
  constructor
  · rintro ⟨hnodup, hsame⟩ ⟨k, i⟩ hp ⟨k', i'⟩ hq
    obtain ⟨w, hw, rfl⟩ := (hsame k i).mp hp
    obtain ⟨w', hw', rfl⟩ := (hsame k' i').mp hq
    constructor
    · rintro rfl
      have hlast := (h.last k w.id).mp ⟨w, hw, rfl⟩
      rw [(h.last k w'.id).mp ⟨w', hw', rfl⟩] at hlast
      exact (congrArg Prod.snd (Option.some.inj hlast)).symm
    · intro hid
      have heq : (k, w) = (k', w') := List.inj_on_of_nodup_map hnodup hw hw' hid
      show k = k'
      exact congrArg Prod.fst heq
  · intro hmatch
    have hmem : ∀ key id, (key, id) ∈ shown platform m.catalog ↔ ∃ w, (key, w) ∈ m.merged ∧ w.id = id := by
      intro key id
      constructor
      · intro hp
        obtain ⟨⟨k, i⟩, hlast⟩ := Option.isSome_iff_exists.mp
          (lookup_isSome.mpr (List.mem_map_of_mem (f := Prod.fst) hp))
        obtain ⟨hq, hk⟩ := lookup_mem hlast
        obtain rfl : k = key := hk
        obtain rfl : i = id := (hmatch _ hq _ hp).mp rfl
        exact (h.last k i).mpr hlast
      · rintro ⟨w, hw, hid⟩
        exact h.mem_of_last hw hid
    refine ⟨?_, hmem⟩
    refine (List.nodup_map_iff_inj_on (List.Nodup.of_map _ h.nodup)).mpr ?_
    rintro ⟨k, w⟩ hw ⟨k', w'⟩ hw' hid
    have hkey : k = k' := (hmatch _ (h.mem_of_last hw rfl) _ (h.mem_of_last hw' rfl)).mpr hid
    exact List.inj_on_of_nodup_map h.nodup hw hw' hkey

end Pushes

section Inputs

variable (platform : Platform) (options : MergeWorkspacePoliciesOptions) (entries : List ExplicitPolicyInput)
variable (discovered : List DiscoveredWorkspaceCandidate)

/-- The candidate gets a workspace of its own. -/
def considered (candidate : DiscoveredWorkspaceCandidate) : Bool :=
  !passedOver platform options entries candidate &&
    (explicitByPath platform entries (candidate.key platform)).isNone &&
    !isImplicitTechnicalWorkspaceCandidate platform candidate

/-- The candidate opens the entry. -/
def opens (candidate : DiscoveredWorkspaceCandidate) (entry : ExplicitPolicyInput) : Bool :=
  !passedOver platform options entries candidate && entry.workspace.enabled &&
    explicitByPath platform entries (candidate.key platform) = some entry

/-- The entry is the first enabled one of its path. -/
def firstEnabled (entry : ExplicitPolicyInput) : Bool :=
  entries.find? (fun e => e.workspace.enabled && e.key platform = entry.key platform) = some entry

def opened (entry : ExplicitPolicyInput) : Bool :=
  options.includeOpenWorkspaces.getD true && discovered.any (opens platform options entries · entry)

/-- The explicit entry is in the policy file. -/
def exposed (entry : ExplicitPolicyInput) : Bool :=
  opened platform options entries discovered entry ||
    (options.alwaysExposeExplicit.getD false && firstEnabled platform entries entry &&
      !entries.any fun e => opened platform options entries discovered e && e.key platform =
        entry.key platform)

def openedCandidates : List DiscoveredWorkspaceCandidate :=
  if options.includeOpenWorkspaces.getD true then discovered.filter
    (considered platform options entries) else []

/-- The keys and ids of candidates that get workspaces one after another. -/
def namedFrom (usedIds : List String) : List DiscoveredWorkspaceCandidate → List (String × String)
  | [] => []
  | candidate::candidates =>
    (candidate.key platform, discoveredId platform candidate usedIds) ::
      namedFrom (usedIds ++ [discoveredId platform candidate usedIds]) candidates

end Inputs

section Shown

variable {platform : Platform} {options : MergeWorkspacePoliciesOptions} {entries : List ExplicitPolicyInput}
variable {discovered : List DiscoveredWorkspaceCandidate} {limits : WorkspaceLimits} {m : Merging}

theorem explicitByPath_some {key : String} {entry : ExplicitPolicyInput}
    (h : explicitByPath platform entries key = some entry) :
    entry ∈ entries ∧ entry.key platform = key := lookup_mem h

@[simp] theorem withAutoWriteAccess_id (workspace : WorkspacePolicy) (canonicalRootPath : String) :
    (withAutoWriteAccess platform options workspace canonicalRootPath).id = workspace.id := by
  unfold withAutoWriteAccess
  split_ifs <;> rfl

def Merging.create (m : Merging) (platform : Platform) (options : MergeWorkspacePoliciesOptions)
    (limits : WorkspaceLimits) (candidate : DiscoveredWorkspaceCandidate) : Merging :=
  let created := createDiscoveredWorkspace platform candidate limits m.usedIds
  let workspace := withAutoWriteAccess platform options created candidate.canonicalRootPath
  { m with usedIds := m.usedIds ++ [created.id] }.push (candidate.key platform) workspace
    ⟨.discovered, workspace.id, workspace.name, workspace.rootPath, candidate.canonicalRootPath,
      candidate.trusted, true⟩

/-- A candidate is passed over, opens an entry, or gets a workspace of its own. -/
theorem mergeCandidate_cases (platform : Platform) (options : MergeWorkspacePoliciesOptions)
    (entries : List ExplicitPolicyInput) (limits : WorkspaceLimits) (m : Merging)
    (candidate : DiscoveredWorkspaceCandidate) :
    considered platform options entries candidate = false ∧
    (∀ e, opens platform options entries candidate e = false) ∧
        mergeCandidate platform options entries limits m candidate = m ∨
      considered platform options entries candidate = false ∧
        (∃ explicit, (∀ e, opens platform options entries candidate e = true ↔ e = explicit) ∧
          explicit.key platform = candidate.key platform ∧
          mergeCandidate platform options entries limits m candidate =
            m.push (candidate.key platform)
              (withAutoWriteAccess platform options explicit.workspace candidate.canonicalRootPath)
              (explicit.catalogEntry .explicit candidate.canonicalRootPath candidate.trusted)) ∨
      considered platform options entries candidate = true ∧
      (∀ e, opens platform options entries candidate e = false) ∧
        mergeCandidate platform options entries limits m candidate =
          m.create platform options limits candidate := by
  unfold mergeCandidate considered opens Merging.create
  dsimp only
  cases passedOver platform options entries candidate with
  | true => exact .inl ⟨rfl, fun _ => rfl, rfl⟩
  | false =>
    cases hexplicit : explicitByPath platform entries (candidate.key platform) with
    | some explicit =>
      cases hon : explicit.workspace.enabled with
      | false =>
        refine .inl ⟨rfl, fun e => ?_, by simp [hon]⟩
        by_cases hsame : explicit = e
        · simp [← hsame, hon]
        · simp [hsame]
      | true =>
        refine .inr (.inl ⟨rfl, explicit, fun e => ?_, (explicitByPath_some hexplicit).2, by simp [hon]⟩)
        by_cases hsame : explicit = e
        · simp [← hsame, hon]
        · simp [hsame, Ne.symm hsame]
    | none =>
      cases isImplicitTechnicalWorkspaceCandidate platform candidate with
      | true => exact .inl ⟨rfl, fun e => by simp, rfl⟩
      | false => exact .inr (.inr ⟨rfl, fun e => by simp, rfl⟩)

theorem explicit_pair (explicit : ExplicitPolicyInput) (canonicalRootPath : String) (trusted : Bool) :
    (explicit.catalogEntry .explicit canonicalRootPath trusted).pair platform =
      (canonicalPathKey platform canonicalRootPath,
        (withAutoWriteAccess platform options explicit.workspace canonicalRootPath).id) := by
  rw [withAutoWriteAccess_id]
  rfl

theorem create_shown (options : MergeWorkspacePoliciesOptions) (limits : WorkspaceLimits)
    (hm : Recorded platform m) (candidate : DiscoveredWorkspaceCandidate) :
    Recorded platform (m.create platform options limits candidate) ∧
      shown platform (m.create platform options limits candidate).catalog =
        shown platform m.catalog ++
          [(candidate.key platform, discoveredId platform candidate m.usedIds)] := by
  have hused :
      Recorded platform { m with usedIds := m.usedIds ++ [discoveredId platform candidate m.usedIds] } :=
    ⟨hm.nodup, hm.last⟩
  refine ⟨hused.push rfl rfl, ?_⟩
  unfold Merging.create
  dsimp only
  rw [shown_push rfl rfl, withAutoWriteAccess_id]
  rfl

/-- What the first loop shows: opened entries and named candidates. -/
theorem candidates_shown (options : MergeWorkspacePoliciesOptions) (entries : List ExplicitPolicyInput)
    (limits : WorkspaceLimits) (candidates : List DiscoveredWorkspaceCandidate) (hm : Recorded platform m) :
    Recorded platform (candidates.foldl (mergeCandidate platform options entries limits) m) ∧
      ∀ p, p ∈ shown platform (candidates.foldl (mergeCandidate platform options entries limits) m).catalog ↔
        p ∈ shown platform m.catalog ∨
          (∃ e, candidates.any (opens platform options entries · e) = true ∧
            p = (e.key platform, e.workspace.id)) ∨
          p ∈ namedFrom platform m.usedIds (candidates.filter (considered platform options entries)) := by
  induction candidates generalizing m with
  | nil => simp [namedFrom, hm]
  | cons candidate candidates ih =>
    rw [List.foldl_cons]
    rcases mergeCandidate_cases platform options entries limits m candidate with
      ⟨hnot, hopens, heq⟩ | ⟨hnot, explicit, hopens, hkey, heq⟩ | ⟨hyes, hopens, heq⟩ <;> rw [heq]
    · obtain ⟨hrecorded, hshown⟩ := ih hm
      refine ⟨hrecorded, fun p => ?_⟩
      rw [hshown, List.filter_cons_of_neg (by rw [hnot]; exact Bool.false_ne_true)]
      simp [hopens]
    · have hpair :
        (explicit.catalogEntry .explicit candidate.canonicalRootPath candidate.trusted).pair platform =
          (candidate.key platform,
            (withAutoWriteAccess platform options explicit.workspace candidate.canonicalRootPath).id) :=
        explicit_pair explicit candidate.canonicalRootPath candidate.trusted
      obtain ⟨hrecorded, hshown⟩ := ih (hm.push rfl hpair)
      refine ⟨hrecorded, fun p => ?_⟩
      rw [hshown, shown_push rfl hpair, List.filter_cons_of_neg (by rw [hnot]; exact Bool.false_ne_true),
        withAutoWriteAccess_id, ← hkey, List.mem_append, List.mem_singleton]
      simp only [List.any_cons, Bool.or_eq_true, hopens, or_and_right, exists_or, exists_eq_left]
      rw [or_assoc, ← or_assoc (a := p = _)]
      rfl
    · obtain ⟨hcreated, hlast⟩ := create_shown options limits hm candidate
      obtain ⟨hrecorded, hshown⟩ := ih hcreated
      refine ⟨hrecorded, fun p => ?_⟩
      have hused : (m.create platform options limits candidate).usedIds =
          m.usedIds ++ [discoveredId platform candidate m.usedIds] := rfl
      rw [hshown, hlast, hused, List.filter_cons_of_pos hyes, namedFrom, List.mem_append, List.mem_singleton,
        List.mem_cons]
      simp only [List.any_cons, hopens, Bool.false_or]
      constructor
      · rintro ((hold | hnew) | hopened | hlater)
        · exact .inl hold
        · exact .inr (.inr (.inl hnew))
        · exact .inr (.inl hopened)
        · exact .inr (.inr (.inr hlater))
      · rintro (hold | hopened | hnew | hlater)
        · exact .inl (.inl hold)
        · exact .inr (.inl hopened)
        · exact .inl (.inr hnew)
        · exact .inr (.inr hlater)

theorem Recorded.mem_keys (h : Recorded platform m) {key : String} :
    key ∈ m.keys ↔ ∃ p ∈ shown platform m.catalog, p.1 = key := by
  have hkeys : key ∈ m.keys ↔ ∃ w, (key, w) ∈ m.merged := by
    simp [Merging.keys]
  rw [hkeys]
  constructor
  · rintro ⟨w, hw⟩
    exact ⟨(key, w.id), h.mem_of_last hw rfl, rfl⟩
  · rintro ⟨⟨k, i⟩, hp, rfl⟩
    obtain ⟨⟨k', i'⟩, hlast⟩ :=
      Option.isSome_iff_exists.mp (lookup_isSome.mpr (List.mem_map_of_mem (f := Prod.fst) hp))
    obtain rfl : k' = k := (lookup_mem hlast).2
    obtain ⟨w, hw, -⟩ := (h.last k' i').mpr hlast
    exact ⟨w, hw⟩

theorem exposeExplicit_cases (platform : Platform) (options : MergeWorkspacePoliciesOptions) (m : Merging)
    (entry : ExplicitPolicyInput) :
    entry.workspace.enabled = false ∧ exposeExplicit platform options m entry = m ∨
      entry.workspace.enabled = true ∧ entry.key platform ∈ m.keys ∧
      exposeExplicit platform options m entry = m ∨
      entry.workspace.enabled = true ∧ entry.key platform ∉ m.keys ∧
        exposeExplicit platform options m entry =
          m.push (entry.key platform)
            (withAutoWriteAccess platform options entry.workspace entry.canonicalRootPath)
            (entry.catalogEntry .explicit entry.canonicalRootPath true) := by
  unfold exposeExplicit
  dsimp only
  split_ifs with hoff hknown
  · exact .inl ⟨(Bool.not_eq_true' _).mp hoff, rfl⟩
  · exact .inr (.inl ⟨by simpa using hoff, hknown, rfl⟩)
  · exact .inr (.inr ⟨by simpa using hoff, hknown, rfl⟩)

/-- What the second loop shows: the first enabled entry of a path that is new. -/
theorem entries_shown (options : MergeWorkspacePoliciesOptions) (es : List ExplicitPolicyInput)
    (hm : Recorded platform m) :
    Recorded platform (es.foldl (exposeExplicit platform options) m) ∧
      ∀ p, p ∈ shown platform (es.foldl (exposeExplicit platform options) m).catalog ↔
        p ∈ shown platform m.catalog ∨
          ∃ e, firstEnabled platform es e = true ∧ e.key platform ∉ m.keys ∧
          p = (e.key platform, e.workspace.id) := by
  unfold firstEnabled
  induction es generalizing m with
  | nil => simp [hm]
  | cons first es ih =>
    have hskip : ∀ e : ExplicitPolicyInput,
      (first.workspace.enabled && first.key platform = e.key platform) = false →
        (first::es).find? (fun e' => e'.workspace.enabled && e'.key platform = e.key platform) =
          es.find? fun e' => e'.workspace.enabled && e'.key platform = e.key platform := by
      intro e hno
      rw [List.find?_cons, hno]
    rw [List.foldl_cons]
    rcases exposeExplicit_cases platform options m first with
      ⟨hoff, heq⟩ | ⟨-, hknown, heq⟩ | ⟨hon, hknown, heq⟩ <;>
      rw [heq]
    · obtain ⟨hrecorded, hshown⟩ := ih hm
      refine ⟨hrecorded, fun p => (hshown p).trans (or_congr_right (exists_congr fun e => ?_))⟩
      rw [hskip e (by rw [hoff, Bool.false_and])]
    · obtain ⟨hrecorded, hshown⟩ := ih hm
      refine ⟨hrecorded, fun p => (hshown p).trans (or_congr_right (exists_congr fun e => ?_))⟩
      by_cases hkey : first.key platform = e.key platform
      · rw [hkey] at hknown
        constructor
        · rintro ⟨-, hnew, -⟩
          exact absurd hknown hnew
        · rintro ⟨-, hnew, -⟩
          exact absurd hknown hnew
      · rw [hskip e (by simp [hkey])]
    · have hpair : (first.catalogEntry .explicit first.canonicalRootPath true).pair platform =
          (first.key platform,
            (withAutoWriteAccess platform options first.workspace first.canonicalRootPath).id) :=
        explicit_pair first first.canonicalRootPath true
      obtain ⟨hrecorded, hshown⟩ := ih (hm.push rfl hpair)
      refine ⟨hrecorded, fun p => ?_⟩
      rw [hshown, shown_push rfl hpair, withAutoWriteAccess_id, List.mem_append, List.mem_singleton, or_assoc]
      refine or_congr_right ⟨?_, ?_⟩
      · rintro (rfl | ⟨e, hfound, hnew, rfl⟩)
        · refine ⟨first, ?_, hknown, rfl⟩
          simp [hon]
        · rw [push_keys, not_or] at hnew
          refine ⟨e, ?_, hnew.2, rfl⟩
          rw [hskip e (by simp [Ne.symm hnew.1])]
          exact hfound
      · rintro ⟨e, hfound, hnew, rfl⟩
        by_cases hkey : first.key platform = e.key platform
        · rw [List.find?_cons, hon, hkey] at hfound
          simp only [Bool.true_and, decide_true, decide_eq_true_eq, Option.some_inj] at hfound
          rw [hfound]
          exact .inl rfl
        · rw [hskip e (by simp [hkey])] at hfound
          exact .inr ⟨e, hfound, by rw [push_keys, not_or]; exact ⟨Ne.symm hkey, hnew⟩, rfl⟩

end Shown

section Result

variable {platform : Platform} {options : MergeWorkspacePoliciesOptions} {entries : List ExplicitPolicyInput}
variable {discovered : List DiscoveredWorkspaceCandidate} {limits : WorkspaceLimits}
  {e e' : ExplicitPolicyInput}

theorem indexed_recorded (platform : Platform) (entries : List ExplicitPolicyInput) :
    Recorded platform (indexed entries) ∧ shown platform (indexed entries).catalog = [] := by
  have hnone : shown platform (indexed entries).catalog = [] := by
    unfold shown indexed
    rw [List.filter_eq_nil_iff.mpr, List.map_nil]
    intro entry hentry
    obtain ⟨e, -, rfl⟩ := List.mem_map.mp hentry
    exact Bool.false_ne_true
  refine ⟨⟨List.nodup_nil, fun key id => ?_⟩, hnone⟩
  rw [hnone]
  constructor
  · rintro ⟨w, hw, -⟩
    exact absurd hw List.not_mem_nil
  · exact fun h => absurd h nofun

theorem namedFrom_key {usedIds : List String} {candidates : List DiscoveredWorkspaceCandidate}
    {p : String × String} (h : p ∈ namedFrom platform usedIds candidates) :
    ∃ c ∈ candidates, p.1 = c.key platform := by
  induction candidates generalizing usedIds with
  | nil => exact absurd h List.not_mem_nil
  | cons c candidates ih =>
    rcases List.mem_cons.mp h with rfl | hrest
    · exact ⟨c, List.mem_cons_self, rfl⟩
    · obtain ⟨c', hc', hkey⟩ := ih hrest
      exact ⟨c', List.mem_cons_of_mem _ hc', hkey⟩

/-- No named candidate has the path of an explicit entry. -/
theorem named_new {usedIds : List String} {p : String × String}
    (h : p ∈ namedFrom platform usedIds (openedCandidates platform options entries discovered))
    (he : e ∈ entries) :
    p.1 ≠ e.key platform := by
  obtain ⟨c, hc, hkey⟩ := namedFrom_key h
  have hconsidered : considered platform options entries c = true := by
    unfold openedCandidates at hc
    split_ifs at hc
    · exact (List.mem_filter.mp hc).2
    · exact absurd hc List.not_mem_nil
  unfold considered at hconsidered
  simp only [Bool.and_eq_true, Option.isNone_iff_eq_none] at hconsidered
  intro heq
  exact lookup_eq_none.mp hconsidered.1.2 (List.mem_map.mpr ⟨e, he, heq.symm.trans hkey⟩)

theorem opened_mem (h : opened platform options entries discovered e = true) : e ∈ entries := by
  unfold opened at h
  obtain ⟨c, -, hopens⟩ := List.any_eq_true.mp ((Bool.and_eq_true _ _).mp h).2
  unfold opens at hopens
  exact (explicitByPath_some (of_decide_eq_true ((Bool.and_eq_true _ _).mp hopens).2)).1

theorem opened_same (h : opened platform options entries discovered e = true)
    (h' : opened platform options entries discovered e' = true)
    (hkey : e.key platform = e'.key platform) : e = e' := by
  have hfound : ∀ e, opened platform options entries discovered e = true →
      explicitByPath platform entries (e.key platform) = some e := by
    intro e h
    unfold opened at h
    obtain ⟨c, -, hopens⟩ := List.any_eq_true.mp ((Bool.and_eq_true _ _).mp h).2
    unfold opens at hopens
    have hsome := of_decide_eq_true ((Bool.and_eq_true _ _).mp hopens).2
    rw [(explicitByPath_some hsome).2]
    exact hsome
  have hsome := hfound e h
  rw [hkey, hfound e' h'] at hsome
  exact (Option.some.inj hsome).symm

theorem firstEnabled_mem (h : firstEnabled platform entries e = true) : e ∈ entries :=
  List.mem_of_find?_eq_some (of_decide_eq_true h)

theorem firstEnabled_same (h : firstEnabled platform entries e = true)
    (h' : firstEnabled platform entries e' = true) (hkey : e.key platform = e'.key platform) : e = e' := by
  have hsome := of_decide_eq_true h
  rw [hkey, of_decide_eq_true h'] at hsome
  exact (Option.some.inj hsome).symm

/-- What the catalog shows after both loops. -/
theorem merging_shown (platform : Platform) (options : MergeWorkspacePoliciesOptions)
    (entries : List ExplicitPolicyInput) (discovered : List DiscoveredWorkspaceCandidate)
    (limits : WorkspaceLimits) :
    Recorded platform (merging platform options entries discovered limits) ∧
      ∀ p, p ∈ shown platform (merging platform options entries discovered limits).catalog ↔
        (∃ e, exposed platform options entries discovered e = true ∧ p = (e.key platform, e.workspace.id)) ∨
          p ∈ namedFrom platform (entries.map (·.workspace.id))
          (openedCandidates platform options entries discovered) := by
  obtain ⟨hindexed, hnone⟩ := indexed_recorded platform entries
  have hopened : ∃ m : Merging,
      (if options.includeOpenWorkspaces.getD true then
          discovered.foldl (mergeCandidate platform options entries limits) (indexed entries)
        else indexed entries) = m ∧
      Recorded platform m ∧ ∀ p, p ∈ shown platform m.catalog ↔
        (∃ e, opened platform options entries discovered e = true ∧ p = (e.key platform, e.workspace.id)) ∨
          p ∈ namedFrom platform (entries.map (·.workspace.id))
            (openedCandidates platform options entries discovered) := by
    unfold opened openedCandidates
    split_ifs with hinclude
    · obtain ⟨hrecorded, hshown⟩ := candidates_shown options entries limits discovered hindexed
      refine ⟨_, rfl, hrecorded, fun p => ?_⟩
      rw [hshown, hnone, hinclude]
      simp only [List.not_mem_nil, false_or, Bool.true_and]
      rfl
    · refine ⟨_, rfl, hindexed, fun p => ?_⟩
      rw [hnone, Bool.eq_false_of_not_eq_true hinclude]
      simp [namedFrom]
  obtain ⟨m, hm, hrecorded, hshown⟩ := hopened
  unfold merging exposed
  dsimp only
  rw [hm]
  split_ifs with halways
  · obtain ⟨hexposed, hlast⟩ := entries_shown options entries hrecorded
    refine ⟨hexposed, fun p => ?_⟩
    have hknown : ∀ e ∈ entries, e.key platform ∈ m.keys ↔
        (entries.any fun e' => opened platform options entries discovered e' && e'.key platform =
          e.key platform) =
          true := by
      intro e he
      rw [hrecorded.mem_keys, List.any_eq_true]
      constructor
      · rintro ⟨p, hp, hkey⟩
        rcases (hshown p).mp hp with ⟨e', hopened, rfl⟩ | hnamed
        · exact ⟨e', opened_mem hopened, by rw [hopened, Bool.true_and]; exact decide_eq_true hkey⟩
        · exact absurd hkey (named_new hnamed he)
      · rintro ⟨e', -, hboth⟩
        obtain ⟨hopened, hkey⟩ := (Bool.and_eq_true _ _).mp hboth
        exact ⟨_, (hshown _).mpr (.inl ⟨e', hopened, rfl⟩), of_decide_eq_true hkey⟩
    have hsplit : ∀ e, (opened platform options entries discovered e ||
          (true && firstEnabled platform entries e &&
            !entries.any fun e' => opened platform options entries discovered e' &&
              e'.key platform = e.key platform)) =
          true ↔
        opened platform options entries discovered e = true ∨
          firstEnabled platform entries e = true ∧ e.key platform ∉ m.keys := by
      intro e
      rw [Bool.or_eq_true, Bool.true_and, Bool.and_eq_true, Bool.not_eq_true']
      refine or_congr_right (and_congr_right fun hfirst => ?_)
      rw [hknown e (firstEnabled_mem hfirst), Bool.not_eq_true]
    rw [hlast, hshown, halways]
    simp only [hsplit, or_and_right, exists_or, and_assoc]
    rw [or_assoc, or_assoc, or_comm (a := p ∈ _)]
  · refine ⟨hrecorded, fun p => ?_⟩
    rw [hshown, Bool.eq_false_of_not_eq_true halways]
    simp

end Result

section Agreement

variable (platform : Platform) (options : MergeWorkspacePoliciesOptions) (entries : List ExplicitPolicyInput)
variable (discovered : List DiscoveredWorkspaceCandidate)

/-- The ids of a policy file differ, and its catalog shows as enabled exactly
its workspaces, each under its path. -/
def CatalogAgrees : Prop :=
  ∀ result, mergeWorkspacePolicies platform options entries discovered = .ok result →
    (result.workspaces.map (·.id)).Nodup ∧
      ∀ key id, (∃ entry ∈ result.catalog, entry.enabled = true ∧
          canonicalPathKey platform entry.canonicalRootPath = key ∧ entry.id = id) ↔
        ∃ w ∈ result.workspaces, (key, w) ∈ result.merged ∧ w.id = id

def exposedIds : List String :=
  (entries.filter (exposed platform options entries discovered)).map (·.workspace.id)

/-- Every candidate has a path that is new and an id that is free, or its id is
taken, and then its second id is that of no exposed entry and belongs to the
candidates before it that have its path, and to no others. -/
def Apart (explicitIds exposedIds : List String) : List (String × String) →
    List DiscoveredWorkspaceCandidate → Prop
  | _, [] => True
  | named, c::candidates =>
    (if buildDiscoveredId platform c ∈ explicitIds ++ named.map (·.2) then
        buildCollisionId platform c ∉ exposedIds ∧
          ∀ p ∈ named, p.1 = c.key platform ↔ p.2 = buildCollisionId platform c
      else ∀ p ∈ named, p.1 ≠ c.key platform) ∧
      Apart explicitIds exposedIds
        (named ++ [(c.key platform, discoveredId platform c (explicitIds ++ named.map (·.2)))]) candidates

instance Apart.decide (explicitIds exposedIds : List String) :
    (named : List (String × String)) → (candidates : List DiscoveredWorkspaceCandidate) →
      Decidable (Apart platform explicitIds exposedIds named candidates)
  | _, [] => inferInstanceAs (Decidable True)
  | named, c::candidates =>
    have := Apart.decide explicitIds exposedIds
      (named ++ [(c.key platform, discoveredId platform c (explicitIds ++ named.map (·.2)))]) candidates
    inferInstanceAs (Decidable (_ ∧ _))

variable {platform options entries discovered} {pairs : List (String × String)}

/-- Keys and ids determine each other, and no id is exposed already. -/
def Separate (exposedIds : List String) (pairs : List (String × String)) : Prop :=
  (∀ p ∈ pairs, p.2 ∉ exposedIds) ∧ Matching pairs

theorem separate_prefix {ids : List String} {rest : List (String × String)}
    (h : Separate ids (pairs ++ rest)) :
    Separate ids pairs :=
  ⟨fun p hp => h.1 p (List.mem_append_left _ hp),
    fun p hp q hq => h.2 p (List.mem_append_left _ hp) q (List.mem_append_left _ hq)⟩

theorem separate_snoc {ids : List String} {last : String × String} (h : Separate ids pairs) :
    Separate ids (pairs ++ [last]) ↔ last.2 ∉ ids ∧ ∀ p ∈ pairs, p.1 = last.1 ↔ p.2 = last.2 := by
  have hlast : last ∈ pairs ++ [last] := List.mem_append_right _ (List.mem_singleton.mpr rfl)
  constructor
  · intro hall
    exact ⟨hall.1 last hlast, fun p hp => hall.2 p (List.mem_append_left _ hp) last hlast⟩
  · rintro ⟨hnot, hmatch⟩
    have hmem : ∀ p ∈ pairs ++ [last], p ∈ pairs ∨ p = last := fun p hp =>
      (List.mem_append.mp hp).imp_right List.mem_singleton.mp
    constructor
    · intro p hp
      rcases hmem p hp with hold | rfl
      · exact h.1 p hold
      · exact hnot
    · intro p hp q hq
      rcases hmem p hp with hold | rfl
      · rcases hmem q hq with hold' | rfl
        · exact h.2 p hold q hold'
        · exact hmatch p hold
      · rcases hmem q hq with hold' | rfl
        · rw [eq_comm, hmatch q hold', eq_comm]
        · exact ⟨fun _ => rfl, fun _ => rfl⟩

/-- The condition on the inputs says that the names they are given are separate. -/
theorem apart_iff (platform : Platform) {explicitIds ids : List String} (hsub : ∀ id ∈ ids, id ∈ explicitIds)
    (candidates : List DiscoveredWorkspaceCandidate) (h : Separate ids pairs) :
    Apart platform explicitIds ids pairs candidates ↔
      Separate ids (pairs ++ namedFrom platform (explicitIds ++ pairs.map (·.2)) candidates) := by
  induction candidates generalizing pairs with
  | nil => simp [Apart, namedFrom, h]
  | cons c candidates ih =>
    have hstep : (if buildDiscoveredId platform c ∈ explicitIds ++ pairs.map (·.2) then
          buildCollisionId platform c ∉ ids ∧ ∀ p ∈ pairs, p.1 = c.key platform ↔
            p.2 = buildCollisionId platform c
        else ∀ p ∈ pairs, p.1 ≠ c.key platform) ↔
        Separate ids
            (pairs ++ [(c.key platform, discoveredId platform c (explicitIds ++ pairs.map (·.2)))]) := by
      rw [separate_snoc h]
      unfold discoveredId
      split_ifs with htaken
      · rfl
      · rw [List.mem_append, not_or] at htaken
        have hfree : ∀ p ∈ pairs, p.2 ≠ buildDiscoveredId platform c := fun p hp heq =>
          htaken.2 (heq ▸ List.mem_map_of_mem hp)
        constructor
        · intro hnew
          exact ⟨fun hid => htaken.1 (hsub _ hid), fun p hp =>
            ⟨fun hkey => absurd hkey (hnew p hp), fun hid => absurd hid (hfree p hp)⟩⟩
        · rintro ⟨-, hmatch⟩ p hp hkey
          exact hfree p hp ((hmatch p hp).mp hkey)
    have hrest : pairs ++ namedFrom platform (explicitIds ++ pairs.map (·.2)) (c::candidates) =
        (pairs ++ [(c.key platform, discoveredId platform c (explicitIds ++ pairs.map (·.2)))]) ++
          namedFrom platform (explicitIds ++
            (pairs ++ [(c.key platform, discoveredId platform c (explicitIds ++ pairs.map (·.2)))]).map (·.2))
            candidates := by
      rw [namedFrom, List.map_append, ← List.append_assoc explicitIds, List.append_assoc pairs]
      rfl
    rw [Apart, hstep, hrest]
    constructor
    · rintro ⟨hseparate, hlater⟩
      exact (ih hseparate).mp hlater
    · intro hall
      have hseparate := separate_prefix hall
      exact ⟨hseparate, (ih hseparate).mpr hall⟩

theorem exposed_mem {e : ExplicitPolicyInput} (h : exposed platform options entries discovered e = true) :
    e ∈ entries := by
  unfold exposed at h
  rcases (Bool.or_eq_true _ _).mp h with hopened | hfirst
  · exact opened_mem hopened
  · exact firstEnabled_mem ((Bool.and_eq_true _ _).mp ((Bool.and_eq_true _ _).mp hfirst).1).2

theorem exposed_same {e e' : ExplicitPolicyInput} (h : exposed platform options entries discovered e = true)
    (h' : exposed platform options entries discovered e' = true)
    (hkey : e.key platform = e'.key platform) : e = e' := by
  have hcross : ∀ e e' : ExplicitPolicyInput, opened platform options entries discovered e = true →
    e.key platform = e'.key platform →
      (!entries.any fun e => opened platform options entries discovered e && e.key platform =
        e'.key platform) = true →
      False := by
    intro e e' hopened hkey hnone
    rw [Bool.not_eq_true', List.any_eq_false] at hnone
    apply hnone e (opened_mem hopened)
    rw [hopened, Bool.true_and]
    exact decide_eq_true hkey
  unfold exposed at h h'
  rcases (Bool.or_eq_true _ _).mp h with hopened | hfirst
  · rcases (Bool.or_eq_true _ _).mp h' with hopened' | hfirst'
    · exact opened_same hopened hopened' hkey
    · exact (hcross e e' hopened hkey ((Bool.and_eq_true _ _).mp hfirst').2).elim
  · rcases (Bool.or_eq_true _ _).mp h' with hopened' | hfirst'
    · exact (hcross e' e hopened' hkey.symm ((Bool.and_eq_true _ _).mp hfirst).2).elim
    · exact firstEnabled_same ((Bool.and_eq_true _ _).mp ((Bool.and_eq_true _ _).mp hfirst).1).2
        ((Bool.and_eq_true _ _).mp ((Bool.and_eq_true _ _).mp hfirst').1).2 hkey

/-- What the catalog shows is matching exactly if the names are separate. -/
theorem shown_matching (hids : (entries.map (·.workspace.id)).Nodup) (limits : WorkspaceLimits) :
    Matching (shown platform (merging platform options entries discovered limits).catalog) ↔
      Separate (exposedIds platform options entries discovered)
        (namedFrom platform (entries.map (·.workspace.id))
          (openedCandidates platform options entries discovered)) := by
  have hshown := (merging_shown platform options entries discovered limits).2
  have hmem : ∀ id, id ∈ exposedIds platform options entries discovered ↔
      ∃ e, exposed platform options entries discovered e = true ∧ e.workspace.id = id := by
    intro id
    unfold exposedIds
    rw [List.mem_map]
    refine exists_congr fun e => and_congr_left fun _ => ?_
    rw [List.mem_filter]
    exact ⟨fun h => h.2, fun h => ⟨exposed_mem h, h⟩⟩
  constructor
  · intro hmatch
    refine ⟨fun p hp hid => ?_, fun p hp q hq =>
      hmatch p ((hshown p).mpr (.inr hp)) q ((hshown q).mpr (.inr hq))⟩
    obtain ⟨e, he, hid⟩ := (hmem p.2).mp hid
    have hkey := (hmatch p ((hshown p).mpr (.inr hp)) _ ((hshown _).mpr (.inl ⟨e, he, rfl⟩))).mpr hid.symm
    exact named_new hp (exposed_mem he) hkey
  · rintro ⟨hids', hmatch⟩ p hp q hq
    rcases (hshown p).mp hp with ⟨e, he, rfl⟩ | hp'
    · rcases (hshown q).mp hq with ⟨e', he', rfl⟩ | hq'
      · constructor
        · intro hkey
          rw [exposed_same he he' hkey]
        · intro hid
          rw [List.inj_on_of_nodup_map hids (exposed_mem he) (exposed_mem he') hid]
      · constructor
        · intro hkey
          exact absurd hkey.symm (named_new hq' (exposed_mem he))
        · intro hid
          exact absurd ((hmem _).mpr ⟨e, he, hid⟩) (hids' q hq')
    · rcases (hshown q).mp hq with ⟨e', he', rfl⟩ | hq'
      · constructor
        · intro hkey
          exact absurd hkey (named_new hp' (exposed_mem he'))
        · intro hid
          exact absurd ((hmem _).mpr ⟨e', he', hid.symm⟩) (hids' p hp')
      · exact hmatch p hp' q hq'

theorem exposedIds_sub : ∀ id ∈ exposedIds platform options entries discovered,
    id ∈ entries.map (·.workspace.id) := by
  intro id hid
  obtain ⟨e, he, rfl⟩ := List.mem_map.mp hid
  exact List.mem_map_of_mem (List.mem_filter.mp he).1

/-- The result agrees exactly if what the catalog shows is matching. -/
theorem agrees_matching (platform : Platform) (options : MergeWorkspacePoliciesOptions)
    (entries : List ExplicitPolicyInput) (discovered : List DiscoveredWorkspaceCandidate) :
    CatalogAgrees platform options entries discovered ↔
      ∀ limits, clampDiscoveredLimits options.discoveredLimitsOverride = .ok limits →
        Matching (shown platform (merging platform options entries discovered limits).catalog) := by
  have hagree : ∀ limits, ((((merging platform options entries discovered limits).merged.map (·.2)).mergeSort
        fun left right => platform.inOrder left.id right.id).map (·.id)).Nodup ∧
      (∀ key id, (∃ entry ∈ (merging platform options entries discovered limits).catalog,
        entry.enabled = true ∧
          canonicalPathKey platform entry.canonicalRootPath = key ∧ entry.id = id) ↔
        ∃ w ∈ ((merging platform options entries discovered limits).merged.map (·.2)).mergeSort
            fun left right => platform.inOrder left.id right.id,
          (key, w) ∈ (merging platform options entries discovered limits).merged ∧ w.id = id) ↔
      Matching (shown platform (merging platform options entries discovered limits).catalog) := by
    intro limits
    rw [← (merging_shown platform options entries discovered limits).1.agree_iff]
    generalize merging platform options entries discovered limits = m
    refine and_congr ?_ (forall_congr' fun key => forall_congr' fun id => iff_congr ?_ ?_)
    · rw [((List.mergeSort_perm (m.merged.map (·.2)) _).map (·.id)).nodup_iff, List.map_map]
      rfl
    · simp only [shown, WorkspaceCatalogEntryMeta.pair, List.mem_map, List.mem_filter,
        Prod.mk.injEq, and_assoc]
    · refine exists_congr fun w => ⟨fun h => h.2, fun h => ⟨?_, h⟩⟩
      exact List.mem_mergeSort.mpr (List.mem_map.mpr ⟨(key, w), h.1, rfl⟩)
  constructor
  · intro hagrees limits hlimits
    rcases eq_or_ne (merging platform options entries discovered limits).merged [] with hempty | hsome
    · have hnone : ∀ p, p ∉ shown platform (merging platform options entries discovered limits).catalog := by
        intro p hp
        have hkey := (merging_shown platform options entries discovered limits).1.mem_keys.mpr ⟨p, hp, rfl⟩
        unfold Merging.keys at hkey
        rw [hempty] at hkey
        exact absurd hkey List.not_mem_nil
      exact fun p hp => absurd hp (hnone p)
    · exact (hagree limits).mp
        (hagrees _ ((merge_ok platform options entries discovered).mpr ⟨limits, hlimits, hsome, rfl⟩))
  · intro hmatch result hresult
    obtain ⟨limits, hlimits, -, rfl⟩ := (merge_ok platform options entries discovered).mp hresult
    exact (hagree limits).mpr (hmatch limits hlimits)

theorem catalog_agrees_iff (platform : Platform) (options : MergeWorkspacePoliciesOptions)
    (entries : List ExplicitPolicyInput) (discovered : List DiscoveredWorkspaceCandidate)
    (hids : (entries.map (·.workspace.id)).Nodup) :
    CatalogAgrees platform options entries discovered ↔
      ((∃ limits, clampDiscoveredLimits options.discoveredLimitsOverride = .ok limits) →
        Apart platform (entries.map (·.workspace.id)) (exposedIds platform options entries discovered) []
          (openedCandidates platform options entries discovered)) := by
  have hempty : Separate (exposedIds platform options entries discovered) [] :=
    ⟨fun _ hp => absurd hp List.not_mem_nil, fun _ hp => absurd hp List.not_mem_nil⟩
  have hapart :=
    apart_iff platform exposedIds_sub (openedCandidates platform options entries discovered) hempty
  rw [List.map_nil, List.append_nil, List.nil_append] at hapart
  rw [agrees_matching, hapart]
  simp only [shown_matching hids]
  exact ⟨fun h ⟨limits, hlimits⟩ => h limits hlimits, fun h limits hlimits => h ⟨limits, hlimits⟩⟩

def openFolder (name rootPath : String) : DiscoveredWorkspaceCandidate := ⟨name, rootPath, rootPath, true⟩

/-- The digests of the paths below. -/
def digestedPlatform : Platform :=
  { plainPlatform with
    shortHash := fun text =>
      if text = "/srv/a" then "b068a6ce" else if text = "/srv/a:collision" then "59cc6130" else "6294551d" }

theorem catalog_agrees_iff_sample :
    CatalogAgrees digestedPlatform exposingOptions [explicitWorkspace "open" "/srv/open" true]
      [openFolder "a" "/srv/a", openFolder "b" "/srv/b"] :=
  (catalog_agrees_iff digestedPlatform exposingOptions [explicitWorkspace "open" "/srv/open" true]
    [openFolder "a" "/srv/a", openFolder "b" "/srv/b"] (by decide)).mpr fun _ => by decide +kernel

/-- One folder is discovered twice, and the catalog shows an id that no workspace has. -/
theorem folder_twice :
    ¬CatalogAgrees digestedPlatform exposingOptions []
    [openFolder "a" "/srv/a", openFolder "a" "/srv/a"] := by
  intro hagrees
  have hmatch := (agrees_matching _ _ _ _).mp hagrees discoveredWorkspaceLimitCeilings rfl
  have hfirst : ("/srv/a", "a-b068a6ce") ∈ shown digestedPlatform (merging digestedPlatform exposingOptions []
      [openFolder "a" "/srv/a", openFolder "a" "/srv/a"] discoveredWorkspaceLimitCeilings).catalog := by
    decide +kernel
  have hsecond : ("/srv/a", "a-b068a6ce-59cc6130") ∈
    shown digestedPlatform (merging digestedPlatform exposingOptions []
      [openFolder "a" "/srv/a", openFolder "a" "/srv/a"] discoveredWorkspaceLimitCeilings).catalog := by
    decide +kernel
  exact absurd ((hmatch _ hfirst _ hsecond).mp rfl) (by decide)

end Agreement

end AccessStack.Policies
