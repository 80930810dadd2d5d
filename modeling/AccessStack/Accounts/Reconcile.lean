import AccessStack.Accounts.Unambiguous
import AccessStack.Keys

/-!
# What a reconciliation goes on from

A reconciliation deletes the materializations of a device that are not
announced, then upserts the announced ones in turn. An announcement goes on
from the record that its id names, else from the first one of its repository
and its workspace id that no earlier announcement names. Which records these
are is said here on the store before the call.
-/

set_option autoImplicit false

namespace AccessStack.Accounts
open AccessStack.Index AccessStack.Text AccessStack.Keys

section Sources

/-- The id of an input, unless it is empty. -/
def MaterializationUpsertInput.named (input : MaterializationUpsertInput) : Option String :=
  input.id.filter (· ≠ "")

def MaterializationUpsertInput.said (input : MaterializationUpsertInput) :
    String × String × String × Platform :=
  (input.repositoryId, input.workspaceId, input.path, input.platform)

def StoredMaterialization.said (m : StoredMaterialization) : String × String × String × Platform :=
  (m.repositoryId, m.workspaceId, m.path, m.platform)

/-- The materializations of a device over all the repositories of a user. -/
def deviceMaterializations (locale : Locale) (s : Storage) (userId deviceId : String) :
    List StoredMaterialization :=
  (listStoredMaterializations locale s userId).filter (·.host = .device deviceId)

variable (s : Storage) (deviceId : String) (keys : List String)

/-- What the deletions leave under an id. -/
def keptAt (id : String) : Option StoredMaterialization :=
  (s.materializations id).filter fun x =>
    ¬ (x.host = .device deviceId ∧ materializationIdentityKey x.repositoryId x.workspaceId ∉ keys)

/-- The record that an announcement goes on from. -/
def source (earlier : List Announcement) (a : Announcement) : Option StoredMaterialization :=
  (a.input.named.bind (keptAt s deviceId keys)).or
    (((s.materializationIds a.input.repositoryId).filterMap (keptAt s deviceId keys)).find? fun x =>
      x.host = .device deviceId ∧ x.workspaceId = a.input.workspaceId ∧
        some x.id ∉ earlier.map (·.input.named))

def target (earlier : List Announcement) (a : Announcement) : String :=
  ((source s deviceId keys earlier a).map (·.id)).getD a.generated

def targets : List Announcement → List Announcement → List String
  | _, [] => []
  | earlier, a::rest => target s deviceId keys earlier a :: targets (earlier ++ [a]) rest

/-- The announcements whose record a later one goes on from. -/
def overtaken : List Announcement → List Announcement → List Announcement
  | _, [] => []
  | earlier, a::rest =>
    if target s deviceId keys earlier a ∈ targets s deviceId keys (earlier ++ [a]) rest then
      a :: overtaken (earlier ++ [a]) rest
    else overtaken (earlier ++ [a]) rest

/-- The announcements whose record no later one goes on from. -/
def lasting : List Announcement → List Announcement → List Announcement
  | _, [] => []
  | earlier, a::rest =>
    if target s deviceId keys earlier a ∈ targets s deviceId keys (earlier ++ [a]) rest then
      lasting (earlier ++ [a]) rest
    else a :: lasting (earlier ++ [a]) rest

/-- The kept materializations of the device that no announcement goes on from. -/
def leftOver (locale : Locale) (userId : String) (desired : List Announcement) : List StoredMaterialization :=
  (deviceMaterializations locale s userId deviceId).filter fun x =>
    (keptAt s deviceId keys x.id).isSome ∧ x.id ∉ targets s deviceId keys [] desired

/-- The id of the announcement names no kept record, or one of this device and
this repository. -/
def NamesOwn (a : Announcement) : Prop :=
  ∀ x, a.input.named.bind (keptAt s deviceId keys) = some x →
    x.host = .device deviceId ∧ x.repositoryId = a.input.repositoryId

end Sources

section Statement

/-- Generated ids are new, and nobody announces them. -/
structure NewIds (s : Storage) (desired : List Announcement) : Prop where
  nodup : (desired.map (·.generated)).Nodup
  named : ∀ a ∈ desired, a.generated ≠ ""
  absent : ∀ a ∈ desired, s.materializations a.generated = none
  unannounced : ∀ a ∈ desired, ∀ b ∈ desired, b.input.id ≠ some a.generated

/-- What the announcements leave over is what they overtake. -/
structure GoesOnFromOwn (locale : Locale) (s : Storage) (userId deviceId : String)
    (desired : List Announcement) : Prop where
  own : ∀ a ∈ desired, NamesOwn s deviceId (desired.map Announcement.key) a
  balance : ((leftOver s deviceId (desired.map Announcement.key) locale userId desired).map (·.said)).Perm
    ((overtaken s deviceId (desired.map Announcement.key) [] desired).map (·.input.said))

def othersListed (s : Storage) (deviceId repositoryId : String) : List StoredMaterialization :=
  ((s.materializationIds repositoryId).filterMap s.materializations).filter (·.host ≠ .device deviceId)

/-- The same storage up to the times of the materializations. -/
structure SameButTimes (s s' : Storage) : Prop where
  frame : s' = { s with materializations := s'.materializations }
  records : ∀ id, (s'.materializations id).map (fun m => { m with updatedAt := "" }) =
    (s.materializations id).map (fun m => { m with updatedAt := "" })

/-- The device has exactly what it announces, the others have what they had,
and a second reconciliation finds nothing to do. -/
structure Reconciled (locale : Locale) (s s' : Storage) (userId deviceId : String)
    (desired : List Announcement) : Prop where
  own : ((deviceMaterializations locale s' userId deviceId).map (·.said)).Perm (desired.map (·.input.said))
  others : ∀ id x, x.host ≠ .device deviceId →
    (s'.materializations id = some x ↔ s.materializations id = some x)
  listed : ∀ repositoryId, othersListed s' deviceId repositoryId = othersListed s deviceId repositoryId
  again : ∀ again : List Announcement, again.map (·.input) = desired.map (·.input) → ∃ result s'',
    reconcileDeviceMaterializations locale s' userId deviceId again = (.ok result, s'') ∧ SameButTimes s' s''

end Statement

section Listing

variable {locale : Locale} {s : Storage} {userId deviceId : String}

/-- The user of an authorized device owns everything. -/
theorem device_user (h : Consistent s) (hdevice : deviceAuthorized s userId deviceId = true) :
    ∀ u, (s.users u).isSome = true → u = userId := by
  obtain ⟨device, hstored, huser⟩ : ∃ device, s.devices deviceId = some device ∧ device.userId = userId := by
    unfold deviceAuthorized at hdevice
    cases hstored : s.devices deviceId with
    | none => simp [hstored] at hdevice
    | some device =>
      rw [hstored, Option.any_some, decide_eq_true_eq] at hdevice
      exact ⟨device, rfl, hdevice.1⟩
  have hown := (h.device deviceId device hstored).2
  rw [huser] at hown
  intro u hu
  rcases h.user with ⟨_, hnone, _⟩ | ⟨user, _, _, _, husers, _⟩
  · simp [hnone] at hu
  · rw [husers] at hu hown
    by_cases h₁ : u = user.id
    · by_cases h₂ : userId = user.id
      · exact h₁.trans h₂.symm
      · simp [h₂] at hown
    · simp [h₁] at hu

theorem device_owner (h : Consistent s) (hdevice : deviceAuthorized s userId deviceId = true) {id : String}
    {x : StoredMaterialization} (hx : s.materializations id = some x) :
    x.userId = userId ∧ ∃ r, s.repositories x.repositoryId = some r ∧ r.ownerUserId = userId := by
  obtain ⟨_, r, hr, howner⟩ := h.materialization id x hx
  have hu := device_user h hdevice _ (h.repository _ r hr).2.1
  exact ⟨howner.symm.trans hu, r, hr, hu⟩

/-- The repositories of a user are listed once. -/
theorem nodup_repositories (h : Consistent s) : ((listRepositories locale s userId).map (·.1.id)).Nodup := by
  have hperm :=
    List.perm_insertionSort
    (fun a b : StoredRepository × RepositoryRole => locale.le a.1.name b.1.name = true)
    ((s.repositoryIds userId).filterMap (getRepositoryForUser s userId))
  rw [listRepositories, (hperm.map _).nodup_iff, List.map_filterMap]
  apply List.Nodup.filterMap _ (h.repositories.nodup userId)
  intro i j k hi hj
  simp only [Option.mem_def, Option.map_eq_some_iff, getRepositoryForUser, Option.bind_eq_some_iff] at hi hj
  obtain ⟨a, ⟨r, hr, ra, hra, rfl⟩, rfl⟩ := hi
  obtain ⟨b, ⟨q, hq, rb, hrb, rfl⟩, hk⟩ := hj
  rw [← (h.repository i r hr).1, ← (h.repository j q hq).1]
  exact hk.symm

theorem mem_deviceMaterializations (h : Consistent s) (hdevice : deviceAuthorized s userId deviceId = true)
    {x : StoredMaterialization} : x ∈ deviceMaterializations locale s userId deviceId ↔
      s.materializations x.id = some x ∧ x.host = .device deviceId := by
  rw [deviceMaterializations, List.mem_filter, decide_eq_true_eq]
  apply and_congr_left
  intro _
  constructor
  · intro hx
    obtain ⟨⟨r, role⟩, hr, hx⟩ := List.mem_flatMap.mp hx
    unfold listMaterializations at hx
    split_ifs at hx
    · cases hx
    · obtain ⟨id, _, hid⟩ := List.mem_filterMap.mp hx
      rw [(h.materialization id x hid).1]
      exact hid
  · intro hx
    exact stored_listed h hx (device_owner h hdevice hx).1

theorem nodup_deviceMaterializations (locale : Locale) (userId deviceId : String) (h : Consistent s) :
    (deviceMaterializations locale s userId deviceId).Nodup := by
  apply List.Nodup.filter
  rw [listStoredMaterializations, List.nodup_flatMap]
  have hlisted : ∀ access : StoredRepository × RepositoryRole,
    ∀ x ∈ listMaterializations s userId access.1.id, x.repositoryId = access.1.id := by
    intro access x hx
    unfold listMaterializations at hx
    split_ifs at hx
    · cases hx
    · obtain ⟨id, hid, hstored⟩ := List.mem_filterMap.mp hx
      obtain ⟨y, hy, howner⟩ := h.materializations.listed hid
      rw [hstored] at hy
      cases hy
      exact howner
  constructor
  · intro access _
    unfold listMaterializations
    split_ifs
    · exact List.nodup_nil
    · apply List.Nodup.filterMap _ (h.materializations.nodup _)
      intro i j x hi hj
      rw [← (h.materialization i x hi).1, (h.materialization j x hj).1]
  · refine (List.pairwise_map.mp (nodup_repositories h)).imp ?_
    intro a b hne x ha hb
    exact hne ((hlisted a x ha).symm.trans (hlisted b x hb))

end Listing

section Deletions

variable {locale : Locale} {s σ : Storage} {userId deviceId : String} {keys : List String}

theorem keptAt_some {id : String} {x : StoredMaterialization} (h : keptAt s deviceId keys id = some x) :
    s.materializations id = some x := (Option.filter_eq_some_iff.mp h).1

theorem keptAt_other {id : String} {x : StoredMaterialization} (hx : s.materializations id = some x)
    (hhost : x.host ≠ .device deviceId) : keptAt s deviceId keys id = some x :=
  Option.filter_eq_some_iff.mpr ⟨hx, by simp [hhost]⟩

/-- A storage that lost unannounced records of the device, and their ids. -/
structure Cleared (s : Storage) (deviceId : String) (keys : List String) (σ : Storage) : Prop where
  frame : σ = { s with
    materializations := σ.materializations, repositoryMaterializationIds := σ.repositoryMaterializationIds }
  consistent : Consistent σ
  records : ∀ id, σ.materializations id = s.materializations id ∨
    σ.materializations id = none ∧ keptAt s deviceId keys id = none
  ids : ∀ r, σ.materializationIds r = (s.materializationIds r).filter fun id => (σ.materializations id).isSome

theorem cleared_refl (h : Consistent s) : Cleared s deviceId keys s where
  frame := rfl
  consistent := h
  records _ := .inl rfl
  ids r := by
    rw [eq_comm, List.filter_eq_self]
    intro id hid
    obtain ⟨x, hx, _⟩ := h.materializations.listed hid
    rw [hx]
    rfl

def Unwanted (deviceId : String) (keys : List String) (m : StoredMaterialization) : Prop :=
  m.host = .device deviceId ∧ materializationIdentityKey m.repositoryId m.workspaceId ∉ keys

theorem keptAt_none {m : StoredMaterialization} {id : String} (h : Unwanted deviceId keys m)
    (hm : s.materializations id = some m) : keptAt s deviceId keys id = none := by
  simp only [keptAt, hm]
  apply Option.filter_eq_none_iff.mpr
  intro x hx
  cases hx
  simpa [Unwanted] using h

/-- What a deletion leaves, when there is the record and it is the user's. -/
theorem deleted_some {m : StoredMaterialization} (h : Consistent σ) (hm : σ.materializations m.id = some m)
    (haccess : (getRepositoryForUser σ userId m.repositoryId).isSome = true) (huser : m.userId = userId) :
    (deleteMaterialization σ userId m.repositoryId m.id).2 =
      { σ with materializations := Function.update σ.materializations m.id none }.putMaterializationIds
        m.repositoryId ((σ.materializationIds m.repositoryId).filter (· ≠ m.id)) := by
  have hmem : m.id ∈ σ.materializationIds m.repositoryId := h.materializations.mem_owner hm
  have hnone : (getRepositoryForUser σ userId m.repositoryId).isNone = false := by simpa using haccess
  simp only [deleteMaterialization, hnone, hm, huser, removeMaterializationId, Bool.false_eq_true, if_false,
    ne_eq, not_true_eq_false, or_self]
  rw [if_neg]
  · rfl
  · exact fun hno => hno hmem

theorem Cleared.delete (hs : Consistent s) (hdevice : deviceAuthorized s userId deviceId = true)
    (h : Cleared s deviceId keys σ) {m : StoredMaterialization} (hm : s.materializations m.id = some m) :
    Cleared s deviceId keys (deleteUnannounced deviceId keys userId σ m) ∧
      (∀ id, σ.materializations id = none →
        (deleteUnannounced deviceId keys userId σ m).materializations id = none) ∧
      (Unwanted deviceId keys m →
        (deleteUnannounced deviceId keys userId σ m).materializations m.id = none) := by
  by_cases hunwanted : Unwanted deviceId keys m
  · have hstep : deleteUnannounced deviceId keys userId σ m =
        (deleteMaterialization σ userId m.repositoryId m.id).2 := if_pos hunwanted
    rcases h.records m.id with hsame | ⟨hgone, _⟩
    · rw [hm] at hsame
      obtain ⟨huser, r, hr, howner⟩ := device_owner hs hdevice hm
      have haccess : (getRepositoryForUser σ userId m.repositoryId).isSome = true := by
        rw [h.frame]
        simp [getRepositoryForUser, hr, roleFor, howner]
      have hconsistent := consistent_deleteMaterialization h.consistent userId m.repositoryId m.id
      rw [deleted_some h.consistent hsame haccess huser] at hstep hconsistent
      rw [hstep]
      refine ⟨⟨?_, hconsistent, ?_, ?_⟩, ?_, fun _ => Function.update_self ..⟩
      · conv_lhs => rw [h.frame]
        rfl
      · intro id
        show Function.update σ.materializations m.id none id = _ ∨
          Function.update σ.materializations m.id none id = _ ∧ _
        by_cases hid : id = m.id
        · subst hid
          exact .inr ⟨Function.update_self .., keptAt_none hunwanted hm⟩
        · rw [Function.update_of_ne hid]
          exact h.records id
      · intro r
        rw [materializationIds_put]
        show Function.update σ.materializationIds _ _ r =
          (s.materializationIds r).filter fun id => (Function.update σ.materializations m.id none id).isSome
        have hfilter : (s.materializationIds r).filter
          (fun id => (Function.update σ.materializations m.id none id).isSome) =
            (σ.materializationIds r).filter (· ≠ m.id) := by
          rw [h.ids r, List.filter_filter]
          apply List.filter_congr
          intro id _
          by_cases hid : id = m.id
          · subst hid
            simp
          · simp [hid]
        rw [hfilter]
        by_cases hr : r = m.repositoryId
        · subst hr
          rw [Function.update_self]
        · rw [Function.update_of_ne hr, eq_comm, List.filter_eq_self]
          intro id hid
          obtain ⟨y, hy, howner⟩ := h.consistent.materializations.listed hid
          have hne : id ≠ m.id := by
            rintro rfl
            rw [hsame] at hy
            cases hy
            exact hr howner.symm
          simpa using hne
      · intro id hnone
        show Function.update σ.materializations m.id none id = none
        by_cases hid : id = m.id
        · rw [hid, Function.update_self]
        · rwa [Function.update_of_ne hid]
    · have hsame : deleteUnannounced deviceId keys userId σ m = σ := by
        rw [hstep]
        unfold deleteMaterialization
        split_ifs
        · rfl
        · rw [hgone]
      rw [hsame]
      exact ⟨h, fun _ => id, fun _ => hgone⟩
  · have hsame : deleteUnannounced deviceId keys userId σ m = σ := if_neg hunwanted
    rw [hsame]
    exact ⟨h, fun _ => id, fun hw => absurd hw hunwanted⟩

theorem Cleared.deleteListed (hs : Consistent s) (hdevice : deviceAuthorized s userId deviceId = true)
    (l : List StoredMaterialization) (hl : ∀ m ∈ l, s.materializations m.id = some m) (σ : Storage)
    (h : Cleared s deviceId keys σ) :
    Cleared s deviceId keys (l.foldl (deleteUnannounced deviceId keys userId) σ) ∧
      (∀ id, σ.materializations id = none →
        (l.foldl (deleteUnannounced deviceId keys userId) σ).materializations id = none) ∧
      ∀ m ∈ l, Unwanted deviceId keys m →
        (l.foldl (deleteUnannounced deviceId keys userId) σ).materializations m.id = none := by
  induction l generalizing σ with
  | nil => exact ⟨h, fun _ => id, fun m hm => absurd hm List.not_mem_nil⟩
  | cons m l ih =>
    obtain ⟨hstep, hkeep, hgone⟩ := h.delete hs hdevice (hl m List.mem_cons_self)
    obtain ⟨hrest, hkeeps, hgones⟩ := ih (fun x hx => hl x (List.mem_cons_of_mem m hx)) _ hstep
    refine ⟨hrest, fun id hid => hkeeps id (hkeep id hid), ?_⟩
    intro x hx hunwanted
    rcases List.mem_cons.mp hx with rfl | hx
    · exact hkeeps _ (hgone hunwanted)
    · exact hgones x hx hunwanted

theorem Cleared.deleteAll (keys : List String) (hs : Consistent s)
    (hdevice : deviceAuthorized s userId deviceId = true)
    (accesses : List (StoredRepository × RepositoryRole)) (σ : Storage) (h : Cleared s deviceId keys σ) :
    let cleared := accesses.foldl (fun s access =>
      (listMaterializations s userId access.1.id).foldl (deleteUnannounced deviceId keys userId) s) σ
    Cleared s deviceId keys cleared ∧
      (∀ id, σ.materializations id = none → cleared.materializations id = none) ∧
      ∀ access ∈ accesses, ∀ id x, s.materializations id = some x → x.repositoryId = access.1.id →
        Unwanted deviceId keys x → cleared.materializations id = none := by
  induction accesses generalizing σ with
  | nil => exact ⟨h, fun _ => id, fun access hmem => absurd hmem List.not_mem_nil⟩
  | cons access accesses ih =>
    have hl : ∀ m ∈ listMaterializations σ userId access.1.id, s.materializations m.id = some m := by
      intro m hm
      unfold listMaterializations at hm
      split_ifs at hm
      · cases hm
      · obtain ⟨id, _, hid⟩ := List.mem_filterMap.mp hm
        rw [(h.consistent.materialization id m hid).1]
        rcases h.records id with hsame | ⟨hnone, _⟩
        · exact hsame ▸ hid
        · rw [hnone] at hid
          cases hid
    obtain ⟨hstep, hkeep, hgone⟩ := Cleared.deleteListed hs hdevice _ hl σ h
    obtain ⟨hrest, hkeeps, hgones⟩ := ih _ hstep
    refine ⟨hrest, fun id hid => hkeeps id (hkeep id hid), ?_⟩
    intro other hother id x hx hrepository hunwanted
    rcases List.mem_cons.mp hother with rfl | hother
    · apply hkeeps
      rcases h.records id with hsame | ⟨hnone, _⟩
      · obtain ⟨_, r, hr, howner⟩ := device_owner hs hdevice hx
        have hid := (hs.materialization id x hx).1
        subst hid
        apply hgone x _ hunwanted
        have haccess : (getRepositoryForUser σ userId other.1.id).isNone = false := by
          rw [h.frame]
          simp [getRepositoryForUser, ← hrepository, hr, roleFor, howner]
        simp only [listMaterializations, haccess, Bool.false_eq_true, if_false]
        have hx : σ.materializations x.id = some x := hsame.trans hx
        rw [← hrepository]
        exact List.mem_filterMap.mpr ⟨x.id, h.consistent.materializations.mem_owner hx, hx⟩
      · exact hkeep id hnone
    · exact hgones other hother id x hx hrepository hunwanted

/-- The deletions leave what is kept, in the order of the indexes. -/
theorem deleted (locale : Locale) (hs : Consistent s) (hdevice : deviceAuthorized s userId deviceId = true)
    (desired : List Announcement) :
    Cleared s deviceId (desired.map Announcement.key)
    (deleteAllUnannounced locale s userId deviceId desired) ∧
      (deleteAllUnannounced locale s userId deviceId desired).materializations =
        keptAt s deviceId (desired.map Announcement.key) := by
  obtain ⟨hcleared, _, hgone⟩ := Cleared.deleteAll (desired.map Announcement.key) hs hdevice
    (listRepositories locale s userId) s (cleared_refl hs)
  refine ⟨hcleared, ?_⟩
  funext id
  rcases hcleared.records id with hsame | ⟨hnone, hkept⟩
  · refine hsame.trans ?_
    cases hx : s.materializations id with
    | none => simp [keptAt, hx]
    | some x =>
      by_cases hunwanted : Unwanted deviceId (desired.map Announcement.key) x
      · obtain ⟨huser, r, hr, howner⟩ := device_owner hs hdevice hx
        have hmem : (r, RepositoryRole.owner) ∈ listRepositories locale s userId := by
          rw [listRepositories, List.mem_insertionSort]
          refine List.mem_filterMap.mpr ⟨x.repositoryId, howner ▸ hs.repositories.mem_owner hr, ?_⟩
          simp [getRepositoryForUser, hr, roleFor, howner]
        have hid := (hs.repository _ r hr).1
        have hnone := hgone _ hmem id x hx hid.symm hunwanted
        rw [hsame.symm.trans hnone] at hx
        cases hx
      · unfold Unwanted at hunwanted
        exact (Option.filter_eq_some_iff.mpr ⟨hx, decide_eq_true hunwanted⟩).symm
  · exact hnone.trans hkept.symm

end Deletions

end AccessStack.Accounts
