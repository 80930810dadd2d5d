import AccessStack.Rollout.Session
import AccessStack.Selection

/-!
# Which connector is preferred

Among connectors of the current protocol whose start can be read, the later
start comes first, then the instance, then the generation. Where no two of
them agree on instance and generation this is a strict total order, and the
selection does not depend on the order of the sockets.
-/

set_option autoImplicit false

namespace AccessStack.Rollout
open AccessStack.Selection

variable {Tool : Type} {language : Language Tool} {connectors : List Connector} {c c' c'' : Connector}

theorem selectConnector_eq (language : Language Tool) (eligible : Connector → Bool) :
    selectConnector language eligible = pick eligible (isPreferredConnectorAttachment language) := by
  funext selected connector
  unfold selectConnector pick
  cases selected <;> rfl

def Connector.identity (c : Connector) : Option (String × ℤ) :=
  c.runtime.map fun runtime => (runtime.connectorInstanceId, runtime.connectionGeneration)

/-- The runtime of a connector of the current protocol, and its start. -/
structure Started (language : Language Tool) (c : Connector) (runtime : ConnectorRuntimeIdentity)
    (startedAt : ℤ) : Prop where
  current : c.protocolVersion = edgeProtocolVersion
  known : c.runtime = some runtime
  parsed : language.parseDate runtime.processStartedAt = some startedAt

variable {runtime runtime' runtime'' : ConnectorRuntimeIdentity} {startedAt startedAt' startedAt'' : ℤ}

/-- The three levels of the comparison. -/
theorem preferred_iff (h : Started language c runtime startedAt)
    (h' : Started language c' runtime' startedAt') :
    isPreferredConnectorRuntime language c.runtime c'.runtime = true ↔
      startedAt' < startedAt ∨ startedAt' = startedAt ∧
        (runtime.connectorInstanceId = runtime'.connectorInstanceId ∧
            runtime'.connectionGeneration < runtime.connectionGeneration ∨
          runtime.connectorInstanceId ≠ runtime'.connectorInstanceId ∧
            language.after runtime.connectorInstanceId runtime'.connectorInstanceId = true) := by
  unfold isPreferredConnectorRuntime
  rw [h.known, h'.known]
  simp only [Option.map_some, Option.getD_some, h.parsed, h'.parsed]
  split_ifs with hstart hid
  · simp only [decide_eq_true_eq]
    omega
  · simp only [decide_eq_true_eq, hid]
    simp only [ne_eq, not_not] at hstart
    simp [hstart]
  · simp only [ne_eq, not_not] at hstart
    simp [hstart, hid]

theorem attachment_iff (h : Started language c runtime startedAt)
    (h' : Started language c' runtime' startedAt') :
    isPreferredConnectorAttachment language c c' = true ↔
      isPreferredConnectorRuntime language c.runtime c'.runtime = true := by
  unfold isPreferredConnectorAttachment
  rw [h.current, h'.current]
  simp

section Order

variable (hafter : IsStrictTotalOrder String fun a b => language.after a b = true)

theorem preferred_irrefl (h : Started language c runtime startedAt) :
    ¬isPreferredConnectorRuntime language c.runtime c.runtime = true := by
  rw [preferred_iff h h]
  rintro (hlt | ⟨-, ⟨-, hlt⟩ | ⟨hne, -⟩⟩)
  · exact lt_irrefl _ hlt
  · exact lt_irrefl _ hlt
  · exact hne rfl

include hafter in
theorem preferred_trans (h : Started language c runtime startedAt)
    (h' : Started language c' runtime' startedAt') (h'' : Started language c'' runtime'' startedAt'')
    (hfirst : isPreferredConnectorRuntime language c.runtime c'.runtime = true)
    (hsecond : isPreferredConnectorRuntime language c'.runtime c''.runtime = true) :
    isPreferredConnectorRuntime language c.runtime c''.runtime = true := by
  rw [preferred_iff h h'] at hfirst
  rw [preferred_iff h' h''] at hsecond
  rw [preferred_iff h h'']
  rcases hfirst with hlater | ⟨hsame, hfirst⟩
  · left
    rcases hsecond with hlater' | ⟨hsame', -⟩ <;> omega
  · rcases hsecond with hlater' | ⟨hsame', hsecond⟩
    · left
      omega
    · right
      refine ⟨hsame'.trans hsame, ?_⟩
      rcases hfirst with ⟨hid, hgeneration⟩ | ⟨hid, hcollated⟩ <;>
        rcases hsecond with ⟨hid', hgeneration'⟩ | ⟨hid', hcollated'⟩
      · exact .inl ⟨hid.trans hid', hgeneration'.trans hgeneration⟩
      · rw [hid]
        exact .inr ⟨hid', hcollated'⟩
      · rw [← hid']
        exact .inr ⟨hid, hcollated⟩
      · have hover := hafter.toIsTrans.trans _ _ _ hcollated hcollated'
        refine .inr ⟨fun heq => ?_, hover⟩
        rw [heq] at hover
        exact hafter.toIrrefl.irrefl _ hover

include hafter in
theorem preferred_total (h : Started language c runtime startedAt)
    (h' : Started language c' runtime' startedAt') (hother : c.identity ≠ c'.identity) :
    isPreferredConnectorRuntime language c.runtime c'.runtime = true ∨
      isPreferredConnectorRuntime language c'.runtime c.runtime = true := by
  rw [preferred_iff h h', preferred_iff h' h]
  rcases lt_trichotomy startedAt startedAt' with hlt | heq | hlt
  · exact .inr (.inl hlt)
  · rcases eq_or_ne runtime.connectorInstanceId runtime'.connectorInstanceId with hid | hid
    · have hgeneration : runtime.connectionGeneration ≠ runtime'.connectionGeneration := by
        intro hsame
        apply hother
        unfold Connector.identity
        rw [h.known, h'.known, Option.map_some, Option.map_some, hid, hsame]
      rcases lt_or_gt_of_ne hgeneration with hlt | hgt
      · exact .inr (.inr ⟨heq, .inl ⟨hid.symm, hlt⟩⟩)
      · exact .inl (.inr ⟨heq.symm, .inl ⟨hid, hgt⟩⟩)
    · by_cases hcollated : language.after runtime.connectorInstanceId runtime'.connectorInstanceId = true
      · exact .inl (.inr ⟨heq.symm, .inr ⟨hid, hcollated⟩⟩)
      · right
        right
        refine ⟨heq, .inr ⟨hid.symm, ?_⟩⟩
        by_contra hnot
        exact hid (hafter.toTrichotomous.trichotomous _ _ hcollated hnot)
  · exact .inl (.inl hlt)

end Order

section Selected

variable (language) (protocolVersion : Option ℕ) (requireCompatible : Bool)
  (requiredContractRevision : Option String)

/-- The connectors that the selection chooses from speak the current protocol,
their start can be read, and no two agree on instance and generation. -/
structure Comparable (connectors : List Connector) : Prop where
  started : ∀ c ∈ connectors, selectable protocolVersion requireCompatible requiredContractRevision c = true →
    ∃ runtime startedAt, Started language c runtime startedAt
  distinct : ((connectors.filter (selectable protocolVersion requireCompatible requiredContractRevision)).map
    Connector.identity).Nodup

variable {language protocolVersion requireCompatible requiredContractRevision}

theorem Comparable.identity_ne
    (h : Comparable language protocolVersion requireCompatible requiredContractRevision connectors)
    (hc : c ∈ connectors ∧ selectable protocolVersion requireCompatible requiredContractRevision c = true)
    (hc' : c' ∈ connectors ∧ selectable protocolVersion requireCompatible requiredContractRevision c' = true)
    (hne : c ≠ c') : c.identity ≠ c'.identity :=
  fun heq => hne (List.inj_on_of_nodup_map h.distinct (List.mem_filter.mpr hc) (List.mem_filter.mpr hc') heq)

theorem Comparable.strict
    (h : Comparable language protocolVersion requireCompatible requiredContractRevision connectors)
    (hafter : IsStrictTotalOrder String fun a b => language.after a b = true) :
    IsStrictTotalOrder
      {c // c ∈ connectors ∧ selectable protocolVersion requireCompatible requiredContractRevision c = true}
      fun c c' => isPreferredConnectorRuntime language c.1.runtime c'.1.runtime = true where
  irrefl := by
    intro c
    obtain ⟨runtime, startedAt, hstarted⟩ := h.started c.1 c.2.1 c.2.2
    exact preferred_irrefl hstarted
  trans := by
    intro c c' c''
    obtain ⟨runtime, startedAt, hstarted⟩ := h.started c.1 c.2.1 c.2.2
    obtain ⟨runtime', startedAt', hstarted'⟩ := h.started c'.1 c'.2.1 c'.2.2
    obtain ⟨runtime'', startedAt'', hstarted''⟩ := h.started c''.1 c''.2.1 c''.2.2
    exact preferred_trans hafter hstarted hstarted' hstarted''
  trichotomous := by
    intro c c' hnot hnot'
    by_contra hne
    obtain ⟨runtime, startedAt, hstarted⟩ := h.started c.1 c.2.1 c.2.2
    obtain ⟨runtime', startedAt', hstarted'⟩ := h.started c'.1 c'.2.1 c'.2.2
    have hother := h.identity_ne c.2 c'.2 fun heq => hne (Subtype.ext heq)
    exact (preferred_total hafter hstarted hstarted' hother).elim hnot hnot'

theorem Comparable.ordered
    (h : Comparable language protocolVersion requireCompatible requiredContractRevision connectors)
    (hafter : IsStrictTotalOrder String fun a b => language.after a b = true) :
    Ordered (selectable protocolVersion requireCompatible requiredContractRevision)
      (isPreferredConnectorAttachment language) connectors := by
  unfold Ordered
  convert h.strict hafter using 3 with c c'
  obtain ⟨runtime, startedAt, hstarted⟩ := h.started c.1 c.2.1 c.2.2
  obtain ⟨runtime', startedAt', hstarted'⟩ := h.started c'.1 c'.2.1 c'.2.2
  exact attachment_iff hstarted hstarted'

theorem selection_order_free (language : Language Tool) (protocolVersion : Option ℕ)
    (requireCompatible : Bool) (requiredContractRevision : Option String) (connectors : List Connector)
    (hafter : IsStrictTotalOrder String fun a b => language.after a b = true)
    (h : Comparable language protocolVersion requireCompatible requiredContractRevision connectors) :
    IsStrictTotalOrder
        {c // c ∈ connectors ∧ selectable protocolVersion requireCompatible requiredContractRevision c = true}
        (fun c c' => isPreferredConnectorRuntime language c.1.runtime c'.1.runtime = true) ∧
      ∀ sockets, connectors.Perm sockets →
        selectReadyConnector language protocolVersion requireCompatible requiredContractRevision sockets =
          selectReadyConnector language protocolVersion requireCompatible requiredContractRevision
            connectors := by
  refine ⟨h.strict hafter, fun sockets hperm => ?_⟩
  unfold selectReadyConnector
  rw [selectConnector_eq]
  exact (select_perm (h.ordered hafter) hperm).symm

/-- What the language does with small letters and one date. -/
def simpleLanguage : Language Unit where
  parseDate text := if text = "2026-01-01T00:00:00.000Z" then some 1767225600000 else none
  after a b := decide (b.toList < a.toList)
  encodedBytes := List.length

def plainConnector (instanceId : String) (generation : ℤ) : Connector :=
  ⟨true, true, edgeProtocolVersion, some true, some ⟨instanceId, generation, "2026-01-01T00:00:00.000Z", "r"⟩⟩

def sameStart : List Connector := [plainConnector "a" 1, plainConnector "b" 1, plainConnector "a" 2]

theorem selection_order_free_sample :
    selectReadyConnector simpleLanguage none true none sameStart = some (plainConnector "b" 1) ∧
      ∀ sockets, sameStart.Perm sockets →
        selectReadyConnector simpleLanguage none true none sockets =
          selectReadyConnector simpleLanguage none true none sameStart := by
  refine ⟨by decide +kernel, (selection_order_free simpleLanguage none true none sameStart ?_
    ⟨?_, by decide +kernel⟩).2⟩
  · refine { trichotomous := fun a b => ?_, irrefl := fun a => ?_, trans := fun a b c => ?_ }
    · simp only [simpleLanguage, decide_eq_true_eq, not_lt]
      exact fun hab hba => String.toList_inj.mp (le_antisymm hab hba)
    · simp [simpleLanguage]
    · simp only [simpleLanguage, decide_eq_true_eq]
      exact fun hba hcb => lt_trans hcb hba
  · intro c hc _
    simp only [sameStart, List.mem_cons, List.not_mem_nil, or_false] at hc
    rcases hc with rfl | rfl | rfl <;> exact ⟨_, 1767225600000, rfl, rfl, rfl⟩

end Selected

end AccessStack.Rollout
