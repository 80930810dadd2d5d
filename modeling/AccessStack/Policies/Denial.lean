import AccessStack.Policies.Merge

/-!
# Whether denial wins

The first loop passes over every folder whose path is denied. The second loop
does not look at what is denied: an enabled entry is exposed beside a disabled
one of the same path. So denial wins exactly where the second loop does not
run or no enabled entry shares its path with a disabled one.
-/

set_option autoImplicit false

namespace AccessStack.Policies
open AccessStack.Keys

section Maps

variable {β : Type} {entries : List (String × β)} {key k : String} {value v : β}

theorem mem_setKey : (k, v) ∈ setKey entries key value ↔ (k, v) = (key, value) ∨ k ≠ key ∧
    (k, v) ∈ entries := by
  unfold setKey
  split_ifs with hknown
  · rw [List.mem_map]
    constructor
    · rintro ⟨entry, hentry, hset⟩
      split_ifs at hset with hkey
      · exact .inl hset.symm
      · rw [hset] at hkey hentry
        exact .inr ⟨hkey, hentry⟩
    · rintro (heq | ⟨hne, hmem⟩)
      · obtain ⟨entry, hentry, hkey⟩ := List.mem_map.mp hknown
        exact ⟨entry, hentry, by rw [if_pos hkey, heq]⟩
      · exact ⟨(k, v), hmem, if_neg hne⟩
  · rw [List.mem_append, List.mem_singleton]
    constructor
    · rintro (hmem | heq)
      · refine .inr ⟨fun hkey => hknown (List.mem_map.mpr ⟨(k, v), hmem, hkey⟩), hmem⟩
      · exact .inl heq
    · rintro (heq | ⟨-, hmem⟩)
      · exact .inr heq
      · exact .inl hmem

theorem keys_setKey : k ∈ (setKey entries key value).map (·.1) ↔ k = key ∨ k ∈ entries.map (·.1) := by
  constructor
  · intro h
    obtain ⟨⟨k', v⟩, hmem, rfl⟩ := List.mem_map.mp h
    rcases mem_setKey.mp hmem with heq | ⟨-, hold⟩
    · exact .inl (congrArg Prod.fst heq)
    · exact .inr (List.mem_map_of_mem hold)
  · intro h
    rcases eq_or_ne k key with rfl | hne
    · exact List.mem_map.mpr ⟨(k, value), mem_setKey.mpr (.inl rfl), rfl⟩
    · obtain ⟨⟨k', v⟩, hmem, rfl⟩ := List.mem_map.mp (h.resolve_left hne)
      exact List.mem_map.mpr ⟨(k', v), mem_setKey.mpr (.inr ⟨hne, hmem⟩), rfl⟩

theorem nodup_setKey (h : (entries.map (·.1)).Nodup) (key : String) (value : β) :
    ((setKey entries key value).map (·.1)).Nodup := by
  unfold setKey
  split_ifs with hknown
  · have hsame : (entries.map fun entry => if entry.1 = key then (key, value) else entry).map (·.1) =
        entries.map (·.1) := by
      rw [List.map_map]
      apply List.map_congr_left
      intro entry _
      dsimp only [Function.comp_apply]
      split_ifs with hkey
      · exact hkey.symm
      · rfl
    rw [hsame]
    exact h
  · rw [List.map_append]
    refine List.nodup_append.mpr ⟨h, List.nodup_singleton _, ?_⟩
    rintro k hk k' hk' rfl
    rw [List.mem_singleton.mp hk'] at hk
    exact hknown hk

end Maps

section Loops

variable {platform : Platform} {options : MergeWorkspacePoliciesOptions} {entries : List ExplicitPolicyInput}
variable {discovered : List DiscoveredWorkspaceCandidate} {limits : WorkspaceLimits} {m : Merging}
  {k : String}

def Merging.keys (m : Merging) : List String := m.merged.map (·.1)

theorem push_keys (key : String) (workspace : WorkspacePolicy) (entry : WorkspaceCatalogEntryMeta) :
    k ∈ (m.push key workspace entry).keys ↔ k = key ∨ k ∈ m.keys := keys_setKey

theorem mergeCandidate_keys {candidate : DiscoveredWorkspaceCandidate}
    (h : k ∈ (mergeCandidate platform options entries limits m candidate).keys) :
    k ∈ m.keys ∨ passedOver platform options entries candidate = false ∧ k = candidate.key platform := by
  unfold mergeCandidate at h
  dsimp only at h
  split at h
  · exact .inl h
  · rename_i hconsidered
    have hpush : k = candidate.key platform ∨ k ∈ m.keys →
        k ∈ m.keys ∨ passedOver platform options entries candidate = false ∧ k = candidate.key platform := by
      rintro (rfl | hold)
      · exact .inr ⟨Bool.eq_false_of_not_eq_true hconsidered, rfl⟩
      · exact .inl hold
    split at h
    · split_ifs at h
      · rw [push_keys] at h
        exact hpush h
      · exact .inl h
    · split_ifs at h
      · exact .inl h
      · rw [push_keys] at h
        exact hpush h

theorem candidates_allowed (hm : ∀ k ∈ m.keys, k ∉ denyPaths platform entries) :
    ∀ k ∈ (discovered.foldl (mergeCandidate platform options entries limits) m).keys,
      k ∉ denyPaths platform entries := by
  induction discovered generalizing m with
  | nil => exact hm
  | cons candidate discovered ih =>
    refine ih fun k hk => ?_
    rcases mergeCandidate_keys hk with hold | ⟨hconsidered, rfl⟩
    · exact hm k hold
    · have hdeny := (Bool.or_eq_false_iff.mp hconsidered).2
      exact of_decide_eq_false hdeny

theorem exposeExplicit_keys (entry : ExplicitPolicyInput) :
    k ∈ (exposeExplicit platform options m entry).keys ↔
      k ∈ m.keys ∨ entry.workspace.enabled = true ∧ k = entry.key platform := by
  unfold exposeExplicit
  dsimp only
  split_ifs with hoff hknown
  · rw [Bool.not_eq_true'] at hoff
    simp [hoff]
  · have hmem : entry.key platform ∈ m.keys := hknown
    constructor
    · exact .inl
    · rintro (hold | ⟨-, rfl⟩)
      · exact hold
      · exact hmem
  · rw [push_keys, Bool.not_eq_true', Bool.not_eq_false] at *
    simp [hoff, or_comm]

theorem exposed_keys (exposed : List ExplicitPolicyInput) (m : Merging) :
    k ∈ (exposed.foldl (exposeExplicit platform options) m).keys ↔
      k ∈ m.keys ∨ ∃ e ∈ exposed, e.workspace.enabled = true ∧ k = e.key platform := by
  induction exposed generalizing m with
  | nil => simp
  | cons e exposed ih =>
    rw [List.foldl_cons, ih, exposeExplicit_keys]
    simp [or_assoc]

theorem mem_denyPaths :
    k ∈ denyPaths platform entries ↔ ∃ e ∈ entries, e.workspace.enabled = false ∧ e.key platform = k := by
  simp [denyPaths, and_assoc]

theorem merging_opened (halways : options.alwaysExposeExplicit.getD false = false) :
    ∀ k ∈ (merging platform options entries discovered limits).keys, k ∉ denyPaths platform entries := by
  unfold merging
  dsimp only
  rw [halways]
  simp only [Bool.false_eq_true, if_false]
  split_ifs
  · exact candidates_allowed fun k hk => absurd hk List.not_mem_nil
  · exact fun k hk => absurd hk List.not_mem_nil

theorem merging_exposed (halways : options.alwaysExposeExplicit.getD false = true) :
    (∀ e ∈ entries, e.workspace.enabled = true →
      e.key platform ∈ (merging platform options entries discovered limits).keys) ∧
    ∀ k ∈ (merging platform options entries discovered limits).keys, k ∈ denyPaths platform entries →
      ∃ e ∈ entries, e.workspace.enabled = true ∧ k = e.key platform := by
  unfold merging
  dsimp only
  rw [halways]
  simp only [if_true]
  refine ⟨fun e he hon => (exposed_keys _ _).mpr (.inr ⟨e, he, hon, rfl⟩), fun k hk hdeny => ?_⟩
  refine ((exposed_keys _ _).mp hk).resolve_left fun hopened => ?_
  split_ifs at hopened
  · exact candidates_allowed (fun k hk => absurd hk List.not_mem_nil) k hopened hdeny
  · exact absurd hopened List.not_mem_nil

end Loops

section Denial

variable (platform : Platform) (options : MergeWorkspacePoliciesOptions) (entries : List ExplicitPolicyInput)
variable (discovered : List DiscoveredWorkspaceCandidate)

/-- The merge ends with a result exactly if it has a limit and a workspace. -/
theorem merge_ok {result : MergeWorkspacePoliciesResult} :
    mergeWorkspacePolicies platform options entries discovered = .ok result ↔
      ∃ limits, clampDiscoveredLimits options.discoveredLimitsOverride = .ok limits ∧
        (merging platform options entries discovered limits).merged ≠ [] ∧
        result = ⟨((merging platform options entries discovered limits).merged.map (·.2)).mergeSort
            fun left right => platform.inOrder left.id right.id,
          (merging platform options entries discovered limits).catalog,
          (merging platform options entries discovered limits).merged⟩ := by
  unfold mergeWorkspacePolicies
  cases hlimits : clampDiscoveredLimits options.discoveredLimitsOverride with
  | error message =>
    refine ⟨nofun, ?_⟩
    rintro ⟨limits, hok, -⟩
    exact absurd hok nofun
  | ok limits =>
    have hempty : ((merging platform options entries discovered limits).merged.map (·.2)).mergeSort
        (fun left right => platform.inOrder left.id right.id) = [] ↔
          (merging platform options entries discovered limits).merged = [] := by
      rw [← List.length_eq_zero_iff, List.length_mergeSort, List.length_map, List.length_eq_zero_iff]
    simp only [bind, Except.bind, List.isEmpty_iff, hempty]
    split_ifs with hnone
    · refine ⟨nofun, ?_⟩
      rintro ⟨limits', hsame, hsome, -⟩
      cases hsame
      exact absurd hnone hsome
    · constructor
      · intro h
        exact ⟨limits, rfl, hnone, (Except.ok.inj h).symm⟩
      · rintro ⟨limits', hsame, -, rfl⟩
        cases hsame
        rfl

/-- No workspace of the policy file has the path of a disabled entry. -/
def DenialWins : Prop :=
  ∀ result, mergeWorkspacePolicies platform options entries discovered = .ok result →
    (∀ w ∈ result.workspaces, ∃ key, (key, w) ∈ result.merged) ∧
      ∀ key w, (key, w) ∈ result.merged → ∀ e ∈ entries, e.workspace.enabled = false → e.key platform ≠ key

/-- If explicit entries are always exposed, no enabled one has the path of a disabled one. -/
def NoneShared : Prop :=
  (∃ limits, clampDiscoveredLimits options.discoveredLimitsOverride = .ok limits) →
    options.alwaysExposeExplicit.getD false = true →
      ∀ e ∈ entries, ∀ e' ∈ entries, e.workspace.enabled = true → e'.workspace.enabled = false →
        e.key platform ≠ e'.key platform

/-- An entry that shares its path with a disabled one is exposed. -/
theorem shared_exposed (hwins : DenialWins platform options entries discovered) :
    NoneShared platform options entries := by
  rintro ⟨limits, hlimits⟩ halways e he e' he' hon hoff heq
  have hmem : e.key platform ∈ (merging platform options entries discovered limits).keys :=
    (merging_exposed halways).1 e he hon
  obtain ⟨⟨key, w⟩, hw, hkey⟩ := List.mem_map.mp hmem
  have hresult :=
    (merge_ok platform options entries discovered).mpr ⟨limits, hlimits, List.ne_nil_of_mem hw, rfl⟩
  exact (hwins _ hresult).2 key w hw e' he' hoff (heq.symm.trans hkey.symm)

theorem denial_wins_iff : DenialWins platform options entries discovered ↔
    NoneShared platform options entries := by
  constructor
  · exact shared_exposed platform options entries discovered
  · intro hnone result hresult
    obtain ⟨limits, hlimits, -, rfl⟩ := (merge_ok platform options entries discovered).mp hresult
    constructor
    · intro w hw
      obtain ⟨⟨key, w⟩, hmem, rfl⟩ := List.mem_map.mp (List.mem_mergeSort.mp hw)
      exact ⟨key, hmem⟩
    · intro key w hw e he hoff heq
      have hmem : key ∈ (merging platform options entries discovered limits).keys :=
        List.mem_map.mpr ⟨(key, w), hw, rfl⟩
      have hdeny : key ∈ denyPaths platform entries := mem_denyPaths.mpr ⟨e, he, hoff, heq⟩
      cases halways : options.alwaysExposeExplicit.getD false with
      | false => exact merging_opened halways key hmem hdeny
      | true =>
        obtain ⟨e', he', hon, hkey⟩ := (merging_exposed halways).2 key hmem hdeny
        exact hnone ⟨limits, hlimits⟩ halways e' he' e he hon hoff (hkey.symm.trans heq.symm)

/-- Letters without capitals, and digests that name the text itself. -/
def plainPlatform : Platform :=
  ⟨false, id, id, fun text => (text.take 8).toString, fun left right => decide (left ≤ right)⟩

def explicitWorkspace (id rootPath : String) (enabled : Bool) : ExplicitPolicyInput where
  workspace :=
    { id, name := id, rootPath, workspaceKind := none, enabled, permissionProfile := .fullRepoReadonly
      confirmationMode := .standard, allowedRoots := ["."], blockedGlobs := []
      limits := discoveredWorkspaceLimitCeilings, allowWrites := [], allowShell := [],
      allowedShells := [.powershell] }
  canonicalRootPath := rootPath

def exposingOptions : MergeWorkspacePoliciesOptions := ⟨none, some true, none, none, none, none, none, none⟩

/-- The same path is denied and enabled. -/
def deniedAndEnabled : List ExplicitPolicyInput :=
  [explicitWorkspace "blocked" "/srv/secret" false, explicitWorkspace "open" "/srv/secret" true]

theorem denied_path_exposed : ¬DenialWins plainPlatform exposingOptions deniedAndEnabled [] := by
  intro hwins
  exact shared_exposed _ _ _ _ hwins ⟨_, rfl⟩ rfl (explicitWorkspace "open" "/srv/secret" true)
    (List.mem_cons_of_mem _ List.mem_cons_self)
    (explicitWorkspace "blocked" "/srv/secret" false) List.mem_cons_self rfl rfl rfl

end Denial

end AccessStack.Policies
