import AccessStack.Accounts.Rollback

/-!
# Commits undone

The commit of an import and of a materialization as placements, and their
rollbacks as the way back.
-/

set_option autoImplicit false

namespace AccessStack.Accounts
open AccessStack.Index AccessStack.Text

section Commit

variable {s T : Storage} {host : Host} {userId : String}

theorem existingOn_stored (h : Consistent T) {input : MaterializationUpsertInput} {x : StoredMaterialization}
    (hx : existingOn T userId host input = some x) : T.materializations x.id = some x := by
  have hcandidate : ∀ y, (input.id.filter (· ≠ "")).bind T.materializations = some y →
      T.materializations y.id = some y := by
    intro y hy
    obtain ⟨id, _, hid⟩ := Option.bind_eq_some_iff.mp hy
    rwa [(h.materialization id y hid).1]
  cases host with
  | device deviceId =>
    rcases Option.or_eq_some_iff.mp hx with hx | ⟨_, hx⟩
    · exact hcandidate x hx
    · exact (found_listed h hx).1
  | runtime runtimeId =>
    rcases Option.or_eq_some_iff.mp hx with hx | ⟨_, hx⟩
    · exact hcandidate x (Option.filter_eq_some_iff.mp hx).1
    · exact (found_listed h hx).1

/-- An upsert adds no id but the generated one. -/
theorem upsertOn_absent (h : Consistent T) {input : MaterializationUpsertInput} {generated now k : String}
    {m : StoredMaterialization} {T' : Storage}
    (hupsert : upsertOn T userId host input generated now = (.ok m, T'))
    (hk : k ≠ generated) (hnone : T.materializations k = none) : T'.materializations k = none := by
  rw [upsertOn_admitted (upsertOn_ok hupsert)] at hupsert
  have hid : k ≠ (upserted T userId host input generated now).id := by
    cases hexisting : existingOn T userId host input with
    | none => simpa [upserted, hexisting] using hk
    | some x =>
      have hx := existingOn_stored h hexisting
      simp only [upserted, hexisting, Option.map_some, Option.getD_some]
      intro heq
      rw [heq, hx] at hnone
      cases hnone
  have hput : (T.putMaterialization (upserted T userId host input generated now)).materializations
      k = none := by
    simpa only [Storage.putMaterialization, Function.update_of_ne hid] using hnone
  unfold storeMaterialization at hupsert
  dsimp only at hupsert
  split_ifs at hupsert
  · cases hupsert
    exact hput
  · cases hupsert
  · cases hupsert
    exact hput

/-- A placement with the id and the time of its upsert. -/
structure Upsert where
  placement : Placement
  generated : String
  now : String

def Upsert.announcement (u : Upsert) : Announcement := ⟨u.placement.input, u.generated, u.now⟩

/-- The upserts may follow each other: no two of them meet, and their ids are new and different. -/
structure Following (s : Storage) (host : Host) (upserts : List Upsert) : Prop where
  settled : ∀ u ∈ upserts, Settled s host u.placement
  apart : upserts.Pairwise fun u v => ¬ u.placement.Meets v.placement
  named : ∀ u ∈ upserts, u.generated ≠ ""
  fresh : ∀ u ∈ upserts, s.materializations u.generated = none
  different : upserts.Pairwise fun u v => u.generated ≠ v.generated

theorem placed_upserts (hs : Consistent s) {deviceId : String} (before after : List Upsert) (T T' : Storage)
    {stored : List StoredMaterialization} (hfollowing : Following s (.device deviceId) (before ++ after))
    (h : Placed s (.device deviceId) userId T (before.map (·.placement)))
    (hunused : ∀ u ∈ after, T.materializations u.generated = none)
    (hupserts : upsertAnnounced userId deviceId T (after.map (·.announcement)) = (.ok stored, T')) :
    Placed s (.device deviceId) userId T' ((before ++ after).map (·.placement)) := by
  induction after generalizing before T stored with
  | nil =>
    cases hupserts
    simpa using h
  | cons u rest ih =>
    rw [List.map_cons, upsertAnnounced] at hupserts
    split at hupserts
    · cases hupserts
    rename_i m T₁ hupsert
    have hmem : u ∈ before ++ u :: rest := by simp
    have hsettled : ∀ p ∈ before.map (·.placement), Settled s (.device deviceId) p := by
      intro p hp
      obtain ⟨v, hv, rfl⟩ := List.mem_map.mp hp
      exact hfollowing.settled v (by simp [hv])
    have hmeets : ∀ q ∈ before.map (·.placement), ¬ u.placement.Meets q := by
      intro q hq hmeet
      obtain ⟨v, hv, rfl⟩ := List.mem_map.mp hq
      have hapart := (List.pairwise_append.mp hfollowing.apart).2.2 v hv u List.mem_cons_self
      exact hapart ⟨hmeet.1.symm, hmeet.2.symm⟩
    have hplaced := h.place hs hsettled (hfollowing.settled u hmem) hmeets (hfollowing.named u hmem)
      (hfollowing.fresh u hmem) (hunused u List.mem_cons_self) hupsert
    have hnext : ∀ v ∈ rest, T₁.materializations v.generated = none := by
      intro v hv
      have hdifferent := (List.pairwise_cons.mp (List.pairwise_append.mp hfollowing.different).2.1).1 v hv
      have hupsert' : upsertOn T userId (.device deviceId) u.placement.input u.generated u.now =
        (.ok m, T₁) := hupsert
      exact upsertOn_absent h.consistent hupsert' hdifferent.symm (hunused v (List.mem_cons_of_mem u hv))
    split at hupserts
    · cases hupserts
    rename_i reconciled T₂ hrest
    cases hupserts
    have hfinal := ih (before ++ [u]) T₁ (by simpa using hfollowing) (by simpa using hplaced) hnext hrest
    simpa using hfinal

end Commit

section Undo

variable {s T : Storage} {userId : String}

/-- One binding of an import is rolled back. -/
theorem placed_rollbackBinding (hs : Consistent s) {deviceId : String} {p : Placement} {rest : List Placement}
    (h : Placed s (.device deviceId) userId T (p::rest))
    (hsettled : ∀ q ∈ p::rest, Settled s (.device deviceId) q) (hmeets : ∀ q ∈ rest, ¬ p.Meets q)
    {binding : InternalRepositoryBinding} (hrepository : binding.repositoryId = p.repositoryId)
    (hworkspace : binding.workspaceId = p.workspaceId) (generated now : String) :
    ∃ T', rollbackBinding T userId deviceId binding p.previous generated now = (.ok (), T') ∧
      Placed s (.device deviceId) userId T' rest := by
  have hp := hsettled p List.mem_cons_self
  unfold rollbackBinding
  rw [hrepository, hworkspace]
  cases hprevious : p.previous with
  | some m =>
    obtain ⟨m', T', hupsert, hplaced⟩ := h.restore hs hsettled hprevious generated now
    have hupsert' : upsertMaterialization T userId deviceId m.input generated now = (.ok m', T') := hupsert
    refine ⟨T', ?_, hplaced⟩
    cases hcurrent : currentMaterialization T userId p.repositoryId (.device deviceId) p.workspaceId with
    | none =>
      simp only [hupsert']
      rfl
    | some x =>
      -- The record found under the workspace id is the one to restore.
      obtain ⟨_, _, ⟨m', hm', hid⟩ | ⟨_, hnone⟩⟩ := h.current hs hp hmeets hcurrent
      · rw [hprevious] at hm'
        cases hm'
        simp only [Option.any_some, hid, decide_true, if_true, hupsert']
        rfl
      · rw [hprevious] at hnone
        cases hnone
  | none =>
    cases hcurrent : currentMaterialization T userId p.repositoryId (.device deviceId) p.workspaceId with
    | none => exact ⟨T, rfl, h.skip hprevious hcurrent⟩
    | some x =>
      obtain ⟨hx, hcarried, ⟨m', hm', _⟩ | ⟨hnone, _⟩⟩ := h.current hs hp hmeets hcurrent
      · rw [hprevious] at hm'
        cases hm'
      · obtain ⟨T', hdelete, hplaced⟩ := h.remove hprevious hx hcarried hnone
        refine ⟨T', ?_, hplaced⟩
        simp only [Option.any_none, Bool.false_eq_true, if_false, hdelete]
        rfl

/-- The bindings that come from a list of placements. -/
def Bound (previous : InternalRepositoryBinding → Option StoredMaterialization)
    (binding : InternalRepositoryBinding) (p : Placement) : Prop :=
  binding.repositoryId = p.repositoryId ∧ binding.workspaceId = p.workspaceId ∧ previous binding = p.previous

theorem placed_rollback (hs : Consistent s) {deviceId : String} (generated now : ℕ → String)
    (previous : InternalRepositoryBinding → Option StoredMaterialization) (n : ℕ) (T : Storage)
    (bindings : List InternalRepositoryBinding) (placements : List Placement)
    (hbound : List.Forall₂ (Bound previous) bindings placements)
    (h : Placed s (.device deviceId) userId T placements)
    (hsettled : ∀ q ∈ placements, Settled s (.device deviceId) q)
    (hapart : placements.Pairwise fun p q => ¬ p.Meets q) :
    ∃ T', rollbackBindings userId deviceId previous generated now n T bindings = (.ok (), T') ∧
      Placed s (.device deviceId) userId T' [] := by
  induction hbound generalizing n T with
  | nil => exact ⟨T, rfl, h⟩
  | @cons binding p bindings placements hhead _ ih =>
    obtain ⟨hrepository, hworkspace, hprevious⟩ := hhead
    obtain ⟨hmeets, hrest⟩ := List.pairwise_cons.mp hapart
    obtain ⟨T₁, hundone, hplaced⟩ := placed_rollbackBinding hs h hsettled hmeets hrepository hworkspace
      (generated n) (now n)
    obtain ⟨T', hall, hfinal⟩ :=
      ih (n + 1) T₁ hplaced (fun q hq => hsettled q (List.mem_cons_of_mem p hq)) hrest
    refine ⟨T', ?_, hfinal⟩
    rw [rollbackBindings, hprevious, hundone]
    exact hall

/-- A materialization is rolled back. -/
theorem placed_rollbackMaterialization (hs : Consistent s) {host : Host} {p : Placement}
    (h : Placed s host userId T [p]) (hp : Settled s host p) (texts : MaterializeTexts)
    (generated now : String) :
    ∃ T', rollbackMaterialization texts T userId p.repositoryId host p.workspaceId p.previous generated now =
      (.ok (), T') ∧ Placed s host userId T' [] := by
  have hsettled : ∀ q ∈ [p], Settled s host q := by
    intro q hq
    rwa [List.mem_singleton.mp hq]
  unfold rollbackMaterialization
  cases hprevious : p.previous with
  | some m =>
    obtain ⟨m', T', hupsert, hplaced⟩ := h.restore hs hsettled hprevious generated now
    refine ⟨T', ?_, hplaced⟩
    simp only [hupsert]
  | none =>
    cases hcurrent : currentMaterialization T userId p.repositoryId host p.workspaceId with
    | none => exact ⟨T, rfl, h.skip hprevious hcurrent⟩
    | some x =>
      obtain ⟨hx, hcarried, ⟨m', hm', _⟩ | ⟨hnone, _⟩⟩ := h.current hs hp (by simp) hcurrent
      · rw [hprevious] at hm'
        cases hm'
      · obtain ⟨T', hdelete, hplaced⟩ := h.remove hprevious hx hcarried hnone
        refine ⟨T', ?_, hplaced⟩
        simp only [hdelete]

end Undo

end AccessStack.Accounts
