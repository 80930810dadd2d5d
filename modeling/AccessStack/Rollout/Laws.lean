import AccessStack.Runs
import AccessStack.Rollout.Session

/-!
# Rollouts are safe

Whatever the calls, the connections, the restarts and the builds: the stored
state is a rollout state, the snapshots of its revisions are readable, its
active revision changes only to one that a ready connector announces, and a
call that is not answered with success changes nothing.
-/

set_option autoImplicit false

namespace AccessStack.Rollout
open AccessStack.Text AccessStack.JsonText AccessStack.Runs

variable {Tool : Type} {language : Language Tool} {s : Session Tool}

section Connectors

/-- An open and ready connector of the protocol announces the revision. -/
def Announces (connectors : List Connector) (revision : String) : Prop :=
  ∃ connector ∈ connectors, connector.isOpen = true ∧ connector.ready = true ∧
    connector.protocolVersion = edgeProtocolVersion ∧
    connector.runtime.map (·.catalogContractRevision) = some revision

theorem selectable_revision {revision : String} {connector : Connector} :
    selectable (some edgeProtocolVersion) false (some revision) connector = true ↔
      connector.isOpen = true ∧ connector.ready = true ∧ connector.protocolVersion = edgeProtocolVersion ∧
        connector.runtime.map (·.catalogContractRevision) = some revision := by
  simp only [selectable, Option.all_some, Bool.not_false, Bool.true_or, Bool.and_true, Bool.and_eq_true,
    decide_eq_true_eq, eq_comm (a := edgeProtocolVersion)]
  tauto

theorem selectConnector_some {p : Connector → Bool} {selected : Option Connector} {head connector : Connector}
    (h : selectConnector language p selected head = some connector) :
    selected = some connector ∨ connector = head ∧ p head = true := by
  unfold selectConnector at h
  split_ifs at h with hhead
  · exact .inl h
  · have hp : p head = true := by simpa using hhead
    split at h
    · exact .inr ⟨(Option.some.inj h).symm, hp⟩
    · split_ifs at h
      · exact .inr ⟨(Option.some.inj h).symm, hp⟩
      · exact .inl h

theorem selectConnector_isSome {p : Connector → Bool} {selected : Option Connector} {head : Connector}
    (h : selected.isSome = true ∨ p head = true) :
    (selectConnector language p selected head).isSome = true := by
  unfold selectConnector
  by_cases hp : p head = true
  · simp only [hp, Bool.not_true, Bool.false_eq_true, if_false]
    cases selected with
    | none => rfl
    | some current => simp only; split_ifs <;> rfl
  · rcases h with h | h
    · simpa [hp] using h
    · exact absurd h hp

/-- The selected connector is one of those that are not passed over. -/
theorem select_mem {p : Connector → Bool} (connectors : List Connector) (start : Option Connector)
    {connector : Connector} (h : connectors.foldl (selectConnector language p) start = some connector) :
    start = some connector ∨ connector ∈ connectors ∧ p connector = true := by
  induction connectors generalizing start with
  | nil => exact .inl h
  | cons head rest ih =>
    rcases ih _ h with hstart | ⟨hmem, hp⟩
    · rcases selectConnector_some hstart with hstart | ⟨rfl, hp⟩
      · exact .inl hstart
      · exact .inr ⟨List.mem_cons_self, hp⟩
    · exact .inr ⟨List.mem_cons_of_mem head hmem, hp⟩

theorem select_isSome {p : Connector → Bool} (connectors : List Connector) (start : Option Connector)
    (h : start.isSome = true ∨ ∃ connector ∈ connectors, p connector = true) :
    (connectors.foldl (selectConnector language p) start).isSome = true := by
  induction connectors generalizing start with
  | nil =>
    rcases h with h | ⟨_, hmem, _⟩
    · exact h
    · cases hmem
  | cons head rest ih =>
    apply ih
    rcases h with h | ⟨connector, hmem, hp⟩
    · exact .inl (selectConnector_isSome (.inl h))
    · rcases List.mem_cons.mp hmem with rfl | hmem
      · exact .inl (selectConnector_isSome (.inr hp))
      · exact .inr ⟨connector, hmem, hp⟩

theorem readyRevision_announced {revision ready : String}
    (h : readyRevision language s revision = some ready) :
    ready = revision ∧ Announces s.connectors revision := by
  obtain ⟨connector, hselected, hready⟩ := Option.bind_eq_some_iff.mp h
  rcases select_mem s.connectors none hselected with hnone | ⟨hmem, hp⟩
  · cases hnone
  · have hfields := selectable_revision.mp hp
    refine ⟨?_, connector, hmem, hfields⟩
    rw [hfields.2.2.2] at hready
    exact (Option.some.inj hready).symm

theorem readyRevision_some {revision : String} (h : Announces s.connectors revision) :
    readyRevision language s revision = some revision := by
  obtain ⟨connector, hmem, hfields⟩ := h
  have hsome : (getReadyConnectorForContractRevision language s.connectors revision).isSome = true :=
    select_isSome s.connectors none (.inr ⟨connector, hmem, selectable_revision.mpr hfields⟩)
  obtain ⟨selected, hselected⟩ := Option.isSome_iff_exists.mp hsome
  rw [readyRevision, hselected]
  rcases select_mem s.connectors none hselected with hnone | ⟨_, hp⟩
  · cases hnone
  · exact (selectable_revision.mp hp).2.2.2

end Connectors

section States

variable {expected active candidate previous now : String} {ready : Option String}
  {old state : McpContractRolloutState} {already : Bool}

theorem valid_active (h : isMcpContractRolloutState state = true) :
    isMcpContractRevision state.activeContractRevision = true := by
  simp only [isMcpContractRolloutState, Bool.and_eq_true] at h
  exact h.1.1

theorem valid_candidate (h : isMcpContractRolloutState state = true)
    (hcandidate : state.candidateContractRevision = some candidate) :
    isMcpContractRevision candidate = true ∧ candidate ≠ state.activeContractRevision := by
  simp only [isMcpContractRolloutState, Bool.and_eq_true, hcandidate, Option.all_some, decide_eq_true_eq] at h
  exact h.1.2

theorem valid_previous (h : isMcpContractRolloutState state = true)
    (hprevious : state.previousContractRevision = some previous) :
    isMcpContractRevision previous = true ∧ previous ≠ state.activeContractRevision := by
  simp only [isMcpContractRolloutState, Bool.and_eq_true, hprevious, Option.all_some, decide_eq_true_eq] at h
  exact h.2

theorem valid_initial (h : isMcpContractRevision expected = true) :
    isMcpContractRolloutState (initialState expected) = true := by
  simp [isMcpContractRolloutState, initialState, h]

/-- A candidate that is a revision and not the active one. -/
theorem valid_prepared (h : isMcpContractRolloutState old = true)
    (hcandidate : isMcpContractRevision candidate = true) (hne : old.activeContractRevision ≠ candidate) :
    isMcpContractRolloutState
      { old with candidateContractRevision := some candidate, preparedAt := some now } = true := by
  simp only [isMcpContractRolloutState, Bool.and_eq_true, Option.all_some, decide_eq_true_eq] at h ⊢
  exact ⟨⟨h.1.1, hcandidate, hne.symm⟩, h.2⟩

theorem prepare_ok
    (h : prepareMcpContractRolloutState expected old active candidate now = .ok (state, already)) :
    candidate = expected ∧ (already = true ∧ state = old ∨
      already = false ∧ old.activeContractRevision ≠ candidate ∧
        state = { old with candidateContractRevision := some candidate, preparedAt := some now }) := by
  unfold prepareMcpContractRolloutState at h
  split_ifs at h with hbuild _ _ hsame
  · cases h
    exact ⟨not_not.mp hbuild, .inl ⟨rfl, rfl⟩⟩
  · cases h
    exact ⟨not_not.mp hbuild, .inr ⟨rfl, fun heq => hsame (.inl heq), rfl⟩⟩

theorem replace_ok
    (h : replaceMcpContractCandidateState expected old active previous candidate now = .ok state) :
    old.activeContractRevision ≠ candidate ∧
      state = { old with candidateContractRevision := some candidate, preparedAt := some now } := by
  unfold replaceMcpContractCandidateState at h
  split_ifs at h with _ hactive hcandidate
  cases h
  simp only [not_or] at hcandidate
  rw [not_not.mp hactive]
  exact ⟨Ne.symm hcandidate.2.2.1, rfl⟩

theorem promote_ok
    (h : promoteMcpContractRolloutState expected old active candidate ready now = .ok (state, already)) :
    candidate = expected ∧
    (already = true ∧ state = old ∧ old.candidateContractRevision = none ∨
      already = false ∧ old.candidateContractRevision = some candidate ∧ ready = some candidate ∧
        state = ⟨candidate, none, some old.activeContractRevision, none, some now⟩) := by
  unfold promoteMcpContractRolloutState at h
  split_ifs at h with hbuild hsame _ hcandidate hready
  · cases h
    exact ⟨not_not.mp hbuild, .inl ⟨rfl, rfl, hsame.2⟩⟩
  · cases h
    exact ⟨not_not.mp hbuild, .inr ⟨rfl, not_not.mp hcandidate, not_not.mp hready, rfl⟩⟩

theorem rollback_ok
    (h : rollbackMcpContractRolloutState expected old active previous ready now = .ok (state, already)) :
    active = expected ∧
    (already = true ∧ state = old ∧ old.candidateContractRevision = some active ∨
      already = false ∧ old.activeContractRevision = active ∧ old.previousContractRevision = some previous ∧
        ready = some previous ∧ state = ⟨previous, some active, none, some now, none⟩) := by
  unfold rollbackMcpContractRolloutState at h
  split_ifs at h with hbuild hsame hactive hprevious hready
  · cases h
    exact ⟨not_not.mp hbuild, .inl ⟨rfl, rfl, hsame.2⟩⟩
  · cases h
    exact ⟨not_not.mp hbuild, .inr ⟨rfl, not_not.mp hactive, not_not.mp hprevious, not_not.mp hready, rfl⟩⟩

end States

section Sound

/-- A rollout state whose snapshots are readable. -/
structure Kept (storage : Storage Tool) (state : McpContractRolloutState) : Prop where
  valid : isMcpContractRolloutState state = true
  active : Readable storage state.activeContractRevision
  candidate : ∀ revision, state.candidateContractRevision = some revision → Readable storage revision

theorem Kept.mono {storage storage' : Storage Tool} {state : McpContractRolloutState} (h : Kept storage state)
    (hread : ∀ revision, Readable storage revision → Readable storage' revision) : Kept storage' state :=
  ⟨h.valid, hread _ h.active, fun revision hcandidate => hread _ (h.candidate revision hcandidate)⟩

/-- What is stored as the rollout is kept, and the memory holds it. -/
structure Sound (s : Session Tool) : Prop where
  stored : ∀ v, s.storage.lookup .rollout = some v → ∃ state, v = .rollout state ∧ Kept s.storage state
  memory : s.contractRolloutState = (storedRollout s.storage).getD (initialState s.build.expected)

theorem storedRollout_congr {storage storage' : Storage Tool}
    (h : storage'.lookup .rollout = storage.lookup .rollout) :
    storedRollout storage' = storedRollout storage := by
  rw [storedRollout, h, storedRollout]

theorem storedRollout_of_lookup {storage : Storage Tool} {state : McpContractRolloutState}
    (h : storage.lookup .rollout = some (.rollout state)) (hvalid : isMcpContractRolloutState state = true) :
    storedRollout storage = some state := by
  simp [storedRollout, h, Value.asRollout, hvalid]

theorem asRollout_some {v : Value Tool} {state : McpContractRolloutState} (h : v.asRollout = some state) :
    v = .rollout state := by
  cases v with
  | rollout found =>
    simp only [Value.asRollout] at h
    split_ifs at h
    cases h
    rfl
  | _ => cases h

theorem lookup_of_storedRollout {storage : Storage Tool} {state : McpContractRolloutState}
    (h : storedRollout storage = some state) : storage.lookup .rollout = some (.rollout state) := by
  obtain ⟨v, hv, hstate⟩ := Option.bind_eq_some_iff.mp h
  rw [hv, asRollout_some hstate]

theorem Sound.kept (h : Sound s) {state : McpContractRolloutState}
    (hstate : storedRollout s.storage = some state) :
    Kept s.storage state := by
  obtain ⟨found, hfound, hkept⟩ := h.stored _ (lookup_of_storedRollout hstate)
  cases hfound
  exact hkept

theorem Sound.memory_eq (h : Sound s) {state : McpContractRolloutState}
    (hstate : storedRollout s.storage = some state) :
    s.contractRolloutState = state := by
  rw [h.memory, hstate, Option.getD_some]

/-- A memory with a candidate or a previous revision is the stored state. -/
theorem Sound.stored_of_memory (h : Sound s)
    (hmemory : s.contractRolloutState ≠ initialState s.build.expected) :
    storedRollout s.storage = some s.contractRolloutState := by
  cases hstored : storedRollout s.storage with
  | none =>
    have heq := h.memory
    rw [hstored] at heq
    exact absurd heq hmemory
  | some state => rw [h.memory_eq hstored]

theorem sound_boot (build : Build Tool) (connectors : List Connector) (companions : ℕ) :
    Sound (boot build ∅ connectors companions) := by
  refine ⟨?_, rfl⟩
  intro v hv
  cases hv

end Sound

section Moves

/-- What a call does: it fails and changes nothing, or it succeeds and leaves
the stored state, or it succeeds and stores a state that is kept, the active
revision of which a connector announces where it is a new one. -/
inductive Moves (s : Session Tool) : Except String Reply → Session Tool → Prop
  | failed {reply : Except String Reply} (hfailed : ∀ r, reply = .ok r → r.status ≠ 200) : Moves s reply s
  | idle {r : Reply} {s' : Session Tool} (hsuccess : r.status = 200) (hbuild : s'.build = s.build)
      (hlookup : s'.storage.lookup .rollout = s.storage.lookup .rollout)
      (hmemory : s'.contractRolloutState = s.contractRolloutState)
      (hread : ∀ revision, Readable s.storage revision → Readable s'.storage revision) : Moves s (.ok r) s'
  | stored {r : Reply} {s' : Session Tool} (hsuccess : r.status = 200)
      (hlookup : s'.storage.lookup .rollout = some (.rollout s'.contractRolloutState))
      (hkept : Kept s'.storage s'.contractRolloutState)
      (hactive : ∀ old, storedRollout s.storage = some old →
        old.activeContractRevision ≠ s'.contractRolloutState.activeContractRevision →
        Announces s.connectors s'.contractRolloutState.activeContractRevision) : Moves s (.ok r) s'

theorem Moves.refused {status : ℕ} (h : status ≠ 200) (error : String) (details : List (String × Json)) :
    Moves s (.ok (refuse status error details)) s := by
  apply Moves.failed
  intro r hr
  cases hr
  exact h

/-- A call leaves a sound session sound. -/
theorem Moves.sound {reply : Except String Reply} {s' : Session Tool} (h : Moves s reply s') (hs : Sound s) :
    Sound s' := by
  cases h with
  | failed _ => exact hs
  | idle _ hbuild hlookup hmemory hread =>
    refine ⟨?_, ?_⟩
    · intro v hv
      rw [hlookup] at hv
      obtain ⟨state, hstate, hkept⟩ := hs.stored v hv
      exact ⟨state, hstate, hkept.mono hread⟩
    · rw [hmemory, hs.memory, storedRollout_congr hlookup, hbuild]
  | stored _ hlookup hkept _ =>
    refine ⟨?_, ?_⟩
    · intro v hv
      rw [hlookup] at hv
      exact ⟨_, (Option.some.inj hv).symm, hkept⟩
    · rw [storedRollout_of_lookup hlookup hkept.valid, Option.getD_some]

/-- The stored state stays, and its active revision changes to an announced
one only. -/
theorem Moves.active {reply : Except String Reply} {s' : Session Tool} (h : Moves s reply s')
    {old : McpContractRolloutState} (hold : storedRollout s.storage = some old) :
    ∃ state, storedRollout s'.storage = some state ∧
      (state.activeContractRevision ≠ old.activeContractRevision →
        Announces s.connectors state.activeContractRevision) := by
  cases h with
  | failed _ => exact ⟨old, hold, fun hne => absurd rfl hne⟩
  | idle _ _ hlookup _ _ => exact ⟨old, (storedRollout_congr hlookup).trans hold, fun hne => absurd rfl hne⟩
  | stored _ hlookup hkept hactive =>
    exact ⟨_, storedRollout_of_lookup hlookup hkept.valid, fun hne => hactive old hold hne.symm⟩

theorem Moves.unchanged {reply : Except String Reply} {s' : Session Tool} (h : Moves s reply s')
    (hfailed : ∀ r, reply = .ok r → r.status ≠ 200) : s' = s := by
  cases h with
  | failed _ => rfl
  | idle hsuccess _ _ _ _ => exact absurd hsuccess (hfailed _ rfl)
  | stored hsuccess _ _ _ => exact absurd hsuccess (hfailed _ rfl)

end Moves

section Calls

variable {storage : Storage Tool}

theorem ensure_ok (h : ensureBuildSnapshot language s = .ok storage) :
    storage.lookup .rollout = s.storage.lookup .rollout ∧
    (∀ revision, Readable s.storage revision → Readable storage revision) ∧
    Readable storage s.build.expected := by
  unfold ensureBuildSnapshot at h
  split_ifs at h with hread
  · cases h
    exact ⟨rfl, fun _ hr => hr, hread⟩
  · refine ⟨lookup_persisted h (by simp) (by simp), fun _ hr => readable_persisted h hr, ?_⟩
    rw [Readable, Build.expected, read_persisted h]
    rfl

theorem revisionPair_some {first second a b : String} {input : Json}
    (h : revisionPair first second input = some (a, b)) :
    isMcpContractRevision a = true ∧ isMcpContractRevision b = true := by
  cases input with
  | obj fields =>
    simp only [revisionPair] at h
    split_ifs at h
    obtain ⟨a', ha, h⟩ := Option.bind_eq_some_iff.mp h
    obtain ⟨b', hb, h⟩ := Option.map_eq_some_iff.mp h
    cases h
    exact ⟨(Option.filter_eq_some_iff.mp ha).2, (Option.filter_eq_some_iff.mp hb).2⟩
  | _ => cases h

theorem moves_bootstrap (hs : Sound s) (input : Json) :
    Moves s (.ok (bootstrapContractRollout language s input).1)
    (bootstrapContractRollout language s input).2 := by
  unfold bootstrapContractRollout
  split
  · exact .refused (by decide) _ _
  split
  · exact .refused (by decide) _ _
  split
  · rename_i current hcurrent
    split
    · exact .refused (by decide) _ _
    · rename_i state hstate
      split
      · have hstored : storedRollout s.storage = some state := by
          rw [storedRollout, hcurrent, Option.bind_some, hstate]
        exact .idle rfl rfl rfl (hs.memory_eq hstored).symm fun _ hr => hr
      · exact .refused (by decide) _ _
  · rename_i hnone
    split
    · exact .refused (by decide) _ _
    split
    · exact .refused (by decide) _ _
    dsimp only
    split
    · exact .refused (by decide) _ _
    · rename_i storage hpersist
      have hread :
          Readable (storage.insert .rollout (.rollout (initialState s.build.expected))) s.build.expected := by
        rw [readable_insert (by simp) (by simp), Readable, Build.expected, read_persisted hpersist]
        rfl
      apply Moves.stored
      · rfl
      · exact AList.lookup_insert _
      · refine ⟨valid_initial (persist_ok hpersist).1, hread, ?_⟩
        intro revision hcandidate
        cases hcandidate
      · intro old hold
        rw [lookup_of_storedRollout hold] at hnone
        cases hnone

/-- A state is stored with another candidate, the snapshot of which is readable. -/
theorem kept_prepared {storage' : Storage Tool} {old : McpContractRolloutState} {candidate now : String}
    (hkept : Kept s.storage old)
    (hread : ∀ revision, Readable s.storage revision → Readable storage' revision)
    (hcandidate : Readable storage' candidate) (hrevision : isMcpContractRevision candidate = true)
    (hne : old.activeContractRevision ≠ candidate) :
    Kept storage' { old with candidateContractRevision := some candidate, preparedAt := some now } := by
  refine ⟨valid_prepared hkept.valid hrevision hne, hread _ hkept.active, ?_⟩
  intro revision hsome
  cases hsome
  exact hcandidate

theorem moves_prepare (hs : Sound s) (input : Json) (now : String) :
    Moves s (prepareContractRollout language s input now).1
      (prepareContractRollout language s input now).2 := by
  unfold prepareContractRollout
  split
  · exact .refused (by decide) _ _
  rename_i active candidate hinput
  split
  · exact .refused (by decide) _ _
  rename_i old hold
  split
  · exact .refused (by decide) _ _
  rename_i state already hstate
  split
  · apply Moves.failed
    intro r hr
    cases hr
  rename_i storage hensure
  obtain ⟨hlookup, hread, hexpected⟩ := ensure_ok hensure
  obtain ⟨rfl, hcase⟩ := prepare_ok hstate
  rcases hcase with ⟨rfl, rfl⟩ | ⟨rfl, hne, rfl⟩
  · exact .idle rfl rfl hlookup (hs.memory_eq hold).symm hread
  · apply Moves.stored
    · rfl
    · exact AList.lookup_insert _
    · apply kept_prepared (hs.kept hold) _ _ (revisionPair_some hinput).2 hne
      · intro revision hr
        exact (readable_insert (by simp) (by simp)).mpr (hread revision hr)
      · exact (readable_insert (by simp) (by simp)).mpr hexpected
    · intro found hfound hchanged
      cases hold.symm.trans hfound
      exact absurd rfl hchanged

theorem replacementInput_some {input : Json} {parsed : ReplacementInput}
    (h : replacementInput input = some parsed) :
    isMcpContractRevision parsed.nextCandidate = true := by
  cases input with
  | obj fields =>
    simp only [replacementInput] at h
    split_ifs at h
    obtain ⟨_, _, h⟩ := Option.bind_eq_some_iff.mp h
    obtain ⟨_, _, h⟩ := Option.bind_eq_some_iff.mp h
    obtain ⟨_, _, h⟩ := Option.bind_eq_some_iff.mp h
    obtain ⟨_, hcandidate, h⟩ := Option.map_eq_some_iff.mp h
    cases h
    exact (Option.filter_eq_some_iff.mp hcandidate).2
  | _ => cases h

theorem moves_replay (hs : Sound s) {old : McpContractRolloutState}
    (hold : storedRollout s.storage = some old) (input : ReplacementInput) (receipt : Value Tool) :
    Moves s (.ok (replayReplacement language s input old receipt).1)
    (replayReplacement language s input old receipt).2 := by
  unfold replayReplacement
  split
  · exact .refused (by decide) _ _
  split
  · exact .refused (by decide) _ _
  split
  · exact .refused (by decide) _ _
  · exact .idle rfl rfl rfl (hs.memory_eq hold).symm fun _ hr => hr

theorem moves_replace (hs : Sound s) (input : Json) (now : String) :
    Moves s (.ok (replaceContractCandidate language s input now).1)
    (replaceContractCandidate language s input now).2 := by
  unfold replaceContractCandidate
  split
  · exact .refused (by decide) _ _
  rename_i parsed hparsed
  split
  · exact .refused (by decide) _ _
  rename_i hbuild
  split
  · exact .refused (by decide) _ _
  rename_i old hold
  split
  · exact moves_replay hs hold parsed _
  split
  · exact .refused (by decide) _ _
  rename_i state hstate
  split
  · exact .refused (by decide) _ _
  split
  · exact .refused (by decide) _ _
  split
  · exact .refused (by decide) _ _
  rename_i storage hensure
  obtain ⟨hlookup, hread, hexpected⟩ := ensure_ok hensure
  obtain ⟨hne, rfl⟩ := replace_ok hstate
  have hframe : ∀ revision (v v' : Value Tool), Readable storage revision →
      Readable ((storage.insert .rollout v).insert (.receipt parsed.operationId) v') revision := by
    intro revision v v' hr
    rw [readable_insert (by simp) (by simp), readable_insert (by simp) (by simp)]
    exact hr
  apply Moves.stored
  · rfl
  · show AList.lookup _ (AList.insert _ _ (AList.insert _ _ _)) = _
    rw [AList.lookup_insert_ne (by simp), AList.lookup_insert]
    rfl
  · apply kept_prepared (hs.kept hold) _ _ (replacementInput_some hparsed) hne
    · intro revision hr
      exact hframe revision _ _ (hread revision hr)
    · apply hframe
      rw [not_not.mp hbuild]
      exact hexpected
  · intro found hfound hchanged
    cases hold.symm.trans hfound
    exact absurd rfl hchanged

/-- The end of a promotion and of a rollback. -/
theorem moves_activate {state : McpContractRolloutState} {already : Bool} {missing : String}
    {body : McpContractRolloutState → List (String × Json)}
    (hactive : already = false → Announces s.connectors state.activeContractRevision)
    (hvalid : already = false → isMcpContractRolloutState state = true)
    (hcandidate : already = false → ∀ revision, state.candidateContractRevision = some revision →
      Readable s.storage revision) :
    Moves s (.ok (activate s state already missing body).1) (activate s state already missing body).2 := by
  unfold activate
  split
  · exact .idle rfl rfl rfl rfl fun _ hr => hr
  rename_i halready
  rw [Bool.not_eq_true] at halready
  split
  · exact .refused (by decide) _ _
  rename_i catalog hcatalog
  have hread : Readable s.storage state.activeContractRevision := by rw [Readable, hcatalog]; rfl
  apply Moves.stored
  · rfl
  · exact AList.lookup_insert _
  · refine ⟨hvalid halready, (readable_insert (by simp) (by simp)).mpr hread, ?_⟩
    intro revision hsome
    exact (readable_insert (by simp) (by simp)).mpr (hcandidate halready revision hsome)
  · intro _ _ _
    exact hactive halready

theorem moves_promote (hs : Sound s) (input : Json) (now : String) :
    Moves s (.ok (promoteContractRollout language s input now).1)
    (promoteContractRollout language s input now).2 := by
  unfold promoteContractRollout
  split
  · exact .refused (by decide) _ _
  rename_i active candidate hinput
  split
  · exact .refused (by decide) _ _
  rename_i state already hstate
  obtain ⟨-, ⟨rfl, -⟩ | ⟨rfl, hcandidate, hready, rfl⟩⟩ := promote_ok hstate
  · apply moves_activate <;> (intro h; cases h)
  · have hstored : storedRollout s.storage = some s.contractRolloutState := by
      apply hs.stored_of_memory
      intro heq
      rw [heq] at hcandidate
      cases hcandidate
    have hvalid := (hs.kept hstored).valid
    have hne := (valid_candidate hvalid hcandidate).2
    apply moves_activate
    · intro _
      exact (readyRevision_announced hready).2
    · intro _
      simp [isMcpContractRolloutState, (revisionPair_some hinput).2, valid_active hvalid, hne.symm]
    · intro _ revision hsome
      cases hsome

theorem moves_rollback (hs : Sound s) (input : Json) (now : String) :
    Moves s (.ok (rollbackContractRollout language s input now).1)
    (rollbackContractRollout language s input now).2 := by
  unfold rollbackContractRollout
  split
  · exact .refused (by decide) _ _
  rename_i active previous hinput
  split
  · exact .refused (by decide) _ _
  rename_i state already hstate
  obtain ⟨-, ⟨rfl, -⟩ | ⟨rfl, rfl, hprevious, hready, rfl⟩⟩ := rollback_ok hstate
  · apply moves_activate <;> (intro h; cases h)
  · have hstored : storedRollout s.storage = some s.contractRolloutState := by
      apply hs.stored_of_memory
      intro heq
      rw [heq] at hprevious
      cases hprevious
    have hkept := hs.kept hstored
    have hne := (valid_previous hkept.valid hprevious).2
    apply moves_activate
    · intro _
      exact (readyRevision_announced hready).2
    · intro _
      simp [isMcpContractRolloutState, (revisionPair_some hinput).2, valid_active hkept.valid, hne.symm]
    · intro _ revision hsome
      cases hsome
      exact hkept.active

theorem moves_answer (hs : Sound s) (call : Call) :
    Moves s (answer language s call).1 (answer language s call).2 := by
  cases call with
  | bootstrap input => exact moves_bootstrap hs input
  | prepare input now => exact moves_prepare hs input now
  | replace input now => exact moves_replace hs input now
  | promote input now => exact moves_promote hs input now
  | rollback input now => exact moves_rollback hs input now

end Calls

section Promotions

variable {input : Json} {now : String}

theorem activate_success {state : McpContractRolloutState} {already : Bool} {missing : String}
    {body : McpContractRolloutState → List (String × Json)}
    (h : (activate s state already missing body).1.status = 200) :
    (activate s state already missing body).2.contractRolloutState =
      if already then s.contractRolloutState else state := by
  unfold activate at h ⊢
  cases already with
  | true => rfl
  | false =>
    cases hcatalog : readMcpCatalogSnapshot s.storage state.activeContractRevision with
    | none =>
      simp only [hcatalog, Bool.false_eq_true, if_false] at h
      cases h
    | some catalog =>
      simp only [Bool.false_eq_true, if_false]
      rfl

theorem activate_readable {state : McpContractRolloutState} {already : Bool} {missing : String}
    {body : McpContractRolloutState → List (String × Json)}
    (h : Readable s.storage state.activeContractRevision) :
    (activate s state already missing body).1.status = 200 := by
  obtain ⟨catalog, hcatalog⟩ := Option.isSome_iff_exists.mp h
  unfold activate
  split
  · rfl
  · simp only [hcatalog]

theorem activate_build {state : McpContractRolloutState} {already : Bool} {missing : String}
    {body : McpContractRolloutState → List (String × Json)} :
    (activate s state already missing body).2.build = s.build := by
  unfold activate
  split
  · rfl
  · split <;> rfl

theorem activate_read {state : McpContractRolloutState} {already : Bool} {missing revision : String}
    {body : McpContractRolloutState → List (String × Json)} :
    Readable (activate s state already missing body).2.storage revision ↔ Readable s.storage revision := by
  unfold activate
  split
  · rfl
  split
  · rfl
  · exact readable_insert (by simp) (by simp)

theorem promote_read {revision : String} :
    Readable (promoteContractRollout language s input now).2.storage revision ↔
    Readable s.storage revision := by
  unfold promoteContractRollout
  split
  · rfl
  split
  · rfl
  · exact activate_read

/-- A successful promotion leaves no candidate; where it changes the state, the
active revision is that of the build and the one before is the previous one. -/
theorem promote_success (h : (promoteContractRollout language s input now).1.status = 200) :
    (promoteContractRollout language s input now).2.contractRolloutState.candidateContractRevision = none ∧
    ((promoteContractRollout language s input now).2.contractRolloutState ≠ s.contractRolloutState →
      (promoteContractRollout language s input now).2.build = s.build ∧
      (promoteContractRollout language s input now).2.contractRolloutState =
        ⟨s.build.expected, none, some s.contractRolloutState.activeContractRevision, none, some now⟩) := by
  unfold promoteContractRollout at h ⊢
  split at h
  · cases h
  split at h
  · cases h
  rename_i state already hstate
  rw [activate_success h]
  obtain ⟨rfl, ⟨rfl, rfl, hnone⟩ | ⟨rfl, -, -, rfl⟩⟩ := promote_ok hstate
  · exact ⟨hnone, fun hne => absurd rfl hne⟩
  · exact ⟨rfl, fun _ => ⟨activate_build, rfl⟩⟩

/-- Without a candidate, a successful rollback activates the previous revision. -/
theorem rollback_success (hnone : s.contractRolloutState.candidateContractRevision = none)
    (h : (rollbackContractRollout language s input now).1.status = 200) :
    s.contractRolloutState.previousContractRevision =
      some (rollbackContractRollout language s input now).2.contractRolloutState.activeContractRevision := by
  unfold rollbackContractRollout at h ⊢
  split at h
  · cases h
  split at h
  · cases h
  rename_i state already hstate
  rw [activate_success h]
  obtain ⟨-, ⟨-, -, hsome⟩ | ⟨rfl, -, hprevious, -, rfl⟩⟩ := rollback_ok hstate
  · rw [hnone] at hsome
    cases hsome
  · exact hprevious

/-- A rollback to an announced previous revision with a readable snapshot succeeds. -/
theorem rollback_available {previous : String}
    (hinput : revisionPair "expectedActiveContractRevision" "expectedPreviousContractRevision" input =
      some (s.build.expected, previous))
    (hactive : s.contractRolloutState.activeContractRevision = s.build.expected)
    (hprevious : s.contractRolloutState.previousContractRevision = some previous)
    (hannounced : Announces s.connectors previous) (hread : Readable s.storage previous)
    (hcandidate : s.contractRolloutState.candidateContractRevision = none) :
    (rollbackContractRollout language s input now).1.status = 200 := by
  have hstate :
    rollbackMcpContractRolloutState s.build.expected s.contractRolloutState s.build.expected previous
      (readyRevision language s previous) now =
        .ok (⟨previous, some s.build.expected, none, some now, none⟩, false) := by
    simp [rollbackMcpContractRolloutState, hactive, hprevious, hcandidate, readyRevision_some hannounced]
  simp only [rollbackContractRollout, hinput, hstate]
  exact activate_readable hread

end Promotions

section Runs

/-- An event leaves the stored rollout, or it is a call. -/
theorem step_lookup (event : Event Tool) (hcall : ∀ call, event ≠ .call call) :
    (step language s event).storage.lookup .rollout = s.storage.lookup .rollout ∧
    ∀ revision, Readable (step language s event).storage revision ↔ Readable s.storage revision := by
  cases event with
  | call call => exact absurd rfl (hcall call)
  | write name => exact ⟨AList.lookup_insert_ne (by simp), fun _ => readable_insert (by simp) (by simp)⟩
  | erase name => exact ⟨AList.lookup_erase_ne (by simp), fun _ => readable_erase (by simp) (by simp)⟩
  | _ => exact ⟨rfl, fun _ => Iff.rfl⟩

theorem step_memory (hs : Sound s) (event : Event Tool) (hcall : ∀ call, event ≠ .call call) :
    (step language s event).contractRolloutState =
      (storedRollout (step language s event).storage).getD
        (initialState (step language s event).build.expected) := by
  rw [storedRollout_congr (step_lookup event hcall).1]
  cases event with
  | call call => exact absurd rfl (hcall call)
  | restart build => rfl
  | _ => exact hs.memory

theorem sound_step (hs : Sound s) (event : Event Tool) : Sound (step language s event) := by
  by_cases hcall : ∃ call, event = .call call
  · obtain ⟨call, rfl⟩ := hcall
    exact (moves_answer hs call).sound hs
  · have hcall := not_exists.mp hcall
    refine ⟨?_, step_memory hs event hcall⟩
    intro v hv
    rw [(step_lookup event hcall).1] at hv
    obtain ⟨state, hstate, hkept⟩ := hs.stored v hv
    exact ⟨state, hstate, hkept.mono fun revision hr => ((step_lookup event hcall).2 revision).mpr hr⟩

theorem active_step (hs : Sound s) (event : Event Tool) {old : McpContractRolloutState}
    (hold : storedRollout s.storage = some old) :
    ∃ state, storedRollout (step language s event).storage = some state ∧
      (state.activeContractRevision ≠ old.activeContractRevision →
        Announces s.connectors state.activeContractRevision) := by
  by_cases hcall : ∃ call, event = .call call
  · obtain ⟨call, rfl⟩ := hcall
    exact (moves_answer hs call).active hold
  · refine ⟨old, ?_, fun hne => absurd rfl hne⟩
    rw [storedRollout_congr (step_lookup event (not_exists.mp hcall)).1, hold]

variable {build : Build Tool}

theorem reaches_sound (h : Reaches (step language) (fun _ _ => True) (boot build ∅ [] 0) s) : Sound s :=
  h.invariant (sound_boot build [] 0) fun _ event hs _ => sound_step hs event

/-- A rollback right after a promotion. -/
theorem rollback_promotion (hs : Sound s) {input input' : Json} {now now' : String}
    (hpromote : (promoteContractRollout language s input now).1.status = 200)
    {old state : McpContractRolloutState} (hold : storedRollout s.storage = some old)
    (hstate : storedRollout (promoteContractRollout language s input now).2.storage = some state) :
    ((rollbackContractRollout language (promoteContractRollout language s input now).2 input'
      now').1.status = 200 →
      ∃ back, storedRollout
          (rollbackContractRollout language (promoteContractRollout language s input now).2 input'
            now').2.storage =
            some back ∧
        state.previousContractRevision = some back.activeContractRevision ∧
        (old ≠ state → back.activeContractRevision = old.activeContractRevision)) ∧
    (old ≠ state →
      Announces (promoteContractRollout language s input now).2.connectors old.activeContractRevision →
      revisionPair "expectedActiveContractRevision" "expectedPreviousContractRevision" input' =
        some (state.activeContractRevision, old.activeContractRevision) →
      (rollbackContractRollout language (promoteContractRollout language s input now).2 input'
        now').1.status = 200) := by
  have hs' : Sound (promoteContractRollout language s input now).2 := (moves_promote hs input now).sound hs
  have hmemory := hs.memory_eq hold
  have hmemory' := hs'.memory_eq hstate
  have hsuccess := promote_success hpromote
  rw [hmemory, hmemory'] at hsuccess
  have hnone := hmemory'.symm ▸ hsuccess.1
  refine ⟨?_, ?_⟩
  · intro hback
    obtain ⟨back, hstored, -⟩ := (moves_rollback hs' input' now').active hstate
    have hprevious := rollback_success hnone hback
    rw [((moves_rollback hs' input' now').sound hs').memory_eq hstored, hmemory'] at hprevious
    refine ⟨back, hstored, hprevious, ?_⟩
    intro hne
    rw [(hsuccess.2 hne.symm).2] at hprevious
    exact (Option.some.inj hprevious).symm
  · intro hne hannounced hinput
    obtain ⟨hbuild, heq⟩ := hsuccess.2 hne.symm
    have hactive : state.activeContractRevision =
        (promoteContractRollout language s input now).2.build.expected := by rw [hbuild, heq]
    rw [hactive] at hinput
    apply rollback_available hinput _ _ hannounced _ hnone
    · rw [hmemory', hactive]
    · rw [hmemory', heq]
    · exact promote_read.mpr (hs.kept hold).active

variable (language build)

theorem rollouts_safe (s : Session Tool)
    (h : Reaches (step language) (fun _ _ => True) (boot build ∅ [] 0) s) :
    (∀ v, s.storage.lookup .rollout = some v → ∃ state, v = .rollout state ∧ Kept s.storage state) ∧
    (∀ event old, storedRollout s.storage = some old → ∃ state,
      storedRollout (step language s event).storage = some state ∧
      (state.activeContractRevision ≠ old.activeContractRevision →
        Announces s.connectors state.activeContractRevision)) ∧
    (∀ call, (∀ r, (answer language s call).1 = .ok r → r.status ≠ 200) → (answer language s call).2 = s) ∧
    (∀ input now old state, (promoteContractRollout language s input now).1.status = 200 →
      storedRollout s.storage = some old →
      storedRollout (promoteContractRollout language s input now).2.storage = some state →
      ∀ input' now',
      ((rollbackContractRollout language (promoteContractRollout language s input now).2 input'
        now').1.status = 200 →
        ∃ back, storedRollout
            (rollbackContractRollout language (promoteContractRollout language s input now).2 input'
              now').2.storage =
              some back ∧
          state.previousContractRevision = some back.activeContractRevision ∧
          (old ≠ state → back.activeContractRevision = old.activeContractRevision)) ∧
      (old ≠ state →
        Announces (promoteContractRollout language s input now).2.connectors old.activeContractRevision →
        revisionPair "expectedActiveContractRevision" "expectedPreviousContractRevision" input' =
          some (state.activeContractRevision, old.activeContractRevision) →
        (rollbackContractRollout language (promoteContractRollout language s input now).2 input'
          now').1.status = 200)) := by
  have hs := reaches_sound h
  refine ⟨hs.stored, ?_, ?_, ?_⟩
  · intro event old hold
    exact active_step hs event hold
  · intro call hfailed
    exact (moves_answer hs call).unchanged hfailed
  · intro input now old state hpromote hold hstate input' now'
    exact rollback_promotion hs hpromote hold hstate

end Runs

section Samples

def plainLanguage : Language Unit := ⟨fun _ => some 0, fun a b => decide (b < a), List.length⟩

def sampleBuild (revision : String) : Build Unit := ⟨⟨[()], ⟨revision, 1⟩, ⟨"mcp", "1"⟩⟩⟩

def oldRevision : String := String.ofList (List.replicate 64 'a')
def newRevision : String := String.ofList (List.replicate 64 'b')

def sampleRuntime (revision : String) : Option ConnectorRuntimeIdentity := some ⟨"c", 1, "", revision⟩

def samplePair (second active other : String) : Json :=
  .obj [("expectedActiveContractRevision", .str active), (second, .str other)]

/-- A rollout from the first build to the second, as far as the promotion. -/
def sampleEvents : List (Event Unit) :=
  [.call (.bootstrap (samplePair "expectedState" oldRevision "absent")), .connect 3,
    .announce 0 (sampleRuntime oldRevision), .restart (sampleBuild newRevision),
    .call (.prepare (samplePair "expectedCandidateContractRevision" oldRevision newRevision) "1"), .connect 3,
    .announce 1 (sampleRuntime newRevision)]

def sampleSession : Session Unit :=
  sampleEvents.foldl (step plainLanguage) (boot (sampleBuild oldRevision) ∅ [] 0)

theorem sampleSession_reached :
    Reaches (step plainLanguage) (fun _ _ => True) (boot (sampleBuild oldRevision) ∅ [] 0) sampleSession :=
  Reaches.refl.events (by simp [sampleEvents, Admitted]) rfl

def promotedSession : Reply × Session Unit :=
  promoteContractRollout plainLanguage sampleSession
    (samplePair "expectedCandidateContractRevision" oldRevision newRevision) "2"

def restoredSession : Reply × Session Unit :=
  rollbackContractRollout plainLanguage promotedSession.2
    (samplePair "expectedPreviousContractRevision" newRevision oldRevision) "3"

theorem rollouts_safe_sample :
    promotedSession.1.status = 200 ∧ restoredSession.1.status = 200 ∧
    ∃ back, storedRollout restoredSession.2.storage = some back ∧ back.activeContractRevision =
      oldRevision := by
  have hrun : storedRollout sampleSession.storage =
        some ⟨oldRevision, some newRevision, none, some "1", none⟩ ∧
      promotedSession.1.status = 200 ∧
      storedRollout promotedSession.2.storage = some ⟨newRevision, none, some oldRevision, none, some "2"⟩ ∧
      restoredSession.1.status = 200 := by
    decide +kernel
  obtain ⟨hold, hpromoted, hstate, hrestored⟩ := hrun
  obtain ⟨hback, -⟩ :=
    (rollouts_safe plainLanguage (sampleBuild oldRevision) sampleSession sampleSession_reached).2.2.2
    (samplePair "expectedCandidateContractRevision" oldRevision newRevision) "2" _ _ hpromoted hold hstate
    (samplePair "expectedPreviousContractRevision" newRevision oldRevision) "3"
  obtain ⟨back, hstored, -, hactive⟩ := hback hrestored
  exact ⟨hpromoted, hrestored, back, hstored, hactive (by decide)⟩

end Samples

end AccessStack.Rollout
