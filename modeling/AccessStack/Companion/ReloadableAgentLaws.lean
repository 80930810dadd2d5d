import AccessStack.Companion.ReloadableAgent

/-!
# No earlier policy comes back

The agent is of the last reload that has started, in every run in which no
construction ends after a later reload has started.
-/

set_option autoImplicit false

namespace AccessStack.ReloadableAgent
open AccessStack.Runs

section Invariant

/-- The agent was built by the last reload. -/
def OfLast (reloads : List Reload) (agent : Option ℕ) : Prop :=
  ∀ n, agent = some n → n + 1 = reloads.length ∧ ∃ policy, reloads[n]? = some ⟨some policy, .installed⟩

/-- Nothing has started since the port call did, unless its check says so. -/
def Unchanged (s : State) (p : PortCall) : Prop :=
  p.started ≤ s.reloads.length ∧ match p.phase with
    | .running _ epoch => epoch = p.started
    | .between since => since = p.started ∧ (s.currentAgent ≠ none → p.started = s.reloads.length)
    | .returned ended => ended = p.started
    | .thrown _ => True

structure Sound (s : State) : Prop where
  generation : s.generation = s.reloads.length
  agents : s.current = s.currentAgent
  last : OfLast s.reloads s.currentAgent
  policies : ∀ r ∈ s.reloads, r.policy = none → r.outcome = .withoutPolicy
  calls : ∀ c ∈ s.calls, ∀ n, c.answer = .served n → n + 1 = c.started
  ports : ∀ p ∈ s.ports, Unchanged s p

variable {s : State}

/-- The same reloads have started, and no agent has come. -/
theorem Unchanged.keep {t : State} {p : PortCall} (h : Unchanged s p)
    (hlength : t.reloads.length = s.reloads.length)
    (hagent : t.currentAgent ≠ none → s.currentAgent ≠ none) : Unchanged t p := by
  unfold Unchanged at h ⊢
  rw [hlength]
  refine ⟨h.1, ?_⟩
  cases hphase : p.phase with
  | between since =>
    rw [hphase] at h
    exact ⟨h.2.1, fun ht => h.2.2 (hagent ht)⟩
  | _ =>
    rw [hphase] at h
    exact h.2

theorem initial_sound : Sound State.initial := ⟨rfl, rfl, nofun, nofun, nofun, nofun⟩

theorem reload_sound (h : Sound s) (policy : Option String) : Sound (reload s policy) where
  generation := by
    show s.generation + 1 = (s.reloads ++ [_]).length
    rw [h.generation, List.length_append]
    rfl
  agents := rfl
  last := nofun
  policies := by
    intro r hr hnone
    rcases List.mem_append.mp hr with hold | hnew
    · exact h.policies r hold hnone
    · cases List.mem_singleton.mp hnew
      cases hnone
      rfl
  calls := h.calls
  ports := by
    intro p hp
    obtain ⟨hstarted, hphase⟩ := h.ports p hp
    refine ⟨?_, ?_⟩
    · show p.started ≤ (s.reloads ++ [_]).length
      rw [List.length_append]
      omega
    · cases hp_phase : p.phase with
      | running active epoch =>
        rw [hp_phase] at hphase
        exact hphase
      | between since =>
        rw [hp_phase] at hphase
        exact ⟨hphase.1, fun hagent => absurd rfl hagent⟩
      | returned ended =>
        rw [hp_phase] at hphase
        exact hphase
      | thrown message => trivial

/-- The outcome of a reload is written down. -/
theorem outcome_policies (h : Sound s) {number : ℕ} {policy : Option String}
    (hnumber : s.reloads[number]? = some ⟨policy, .building⟩) (outcome : Outcome) :
    ∀ r ∈ s.reloads.set number ⟨policy, outcome⟩, r.policy = none → r.outcome = .withoutPolicy := by
  intro r hr hnone
  rcases List.mem_or_eq_of_mem_set hr with hmem | rfl
  · exact h.policies r hmem hnone
  · exact absurd (h.policies _ (List.mem_of_getElem? hnumber) hnone) nofun

theorem built_sound (h : Sound s) (number : ℕ) (hqueued : Queued s (.built number))
    (hlatest : Latest s (.built number)) :
    Sound (settle s number true) := by
  unfold settle
  split
  · rename_i policy hnumber
    rw [if_pos rfl]
    have hlength : number + 1 = s.reloads.length := hlatest
    refine ⟨?_, rfl, ?_, outcome_policies h hnumber .installed, h.calls, ?_⟩
    · show s.generation = (s.reloads.set number _).length
      rw [List.length_set]
      exact h.generation
    · rintro n hn
      cases hn
      refine ⟨by rw [List.length_set]; exact hlength, ?_⟩
      cases policy with
      | none => exact absurd (h.policies _ (List.mem_of_getElem? hnumber) rfl) nofun
      | some text => exact ⟨text, List.getElem?_set_self (by omega)⟩
    · intro p hp
      obtain ⟨hstarted, hphase⟩ := h.ports p hp
      refine ⟨by rw [List.length_set]; exact hstarted, ?_⟩
      cases hp_phase : p.phase with
      | running active epoch =>
        rw [hp_phase] at hphase
        exact hphase
      | between since =>
        rw [hp_phase] at hphase
        refine ⟨hphase.1, fun _ => ?_⟩
        -- The reload that is installed had started before the call paused.
        have hbefore := hqueued p hp since hp_phase
        rw [hphase.1] at hbefore
        show p.started = (s.reloads.set number _).length
        rw [List.length_set]
        omega
      | returned ended =>
        rw [hp_phase] at hphase
        exact hphase
      | thrown message => trivial
  · exact h

theorem failed_sound (h : Sound s) (number : ℕ) : Sound (settle s number false) := by
  unfold settle
  split
  · rename_i policy hnumber
    rw [if_neg Bool.false_ne_true]
    refine ⟨?_, h.agents, ?_, outcome_policies h hnumber .failed, h.calls, ?_⟩
    · show s.generation = (s.reloads.set number _).length
      rw [List.length_set]
      exact h.generation
    · intro n hn
      obtain ⟨hlength, text, htext⟩ := h.last n hn
      refine ⟨by rw [List.length_set]; exact hlength, text, ?_⟩
      rw [List.getElem?_set_ne]
      · exact htext
      · rintro rfl
        exact absurd (hnumber.symm.trans htext) nofun
    · exact fun p hp => (h.ports p hp).keep List.length_set id
  · exact h

theorem execute_sound (h : Sound s) (operation : Operation) : Sound (step s (.execute operation)) where
  generation := h.generation
  agents := h.agents
  last := h.last
  policies := h.policies
  calls := by
    intro c hc n hserved
    rcases List.mem_append.mp hc with hold | hnew
    · exact h.calls c hold n hserved
    · cases List.mem_singleton.mp hnew
      have hanswer : s.execute operation = .served n := hserved
      unfold State.execute at hanswer
      cases hcurrent : s.current with
      | none =>
        rw [hcurrent] at hanswer
        simp only [offline] at hanswer
        split_ifs at hanswer
      | some active =>
        rw [hcurrent] at hanswer
        cases hanswer
        exact (h.last n (h.agents.symm.trans hcurrent)).1
  ports := h.ports

/-- A port call goes on, and nothing else happens. -/
theorem advance_sound (h : Sound s) (number : ℕ) {p : PortCall} (hp : Unchanged s p) :
    Sound (s.advance number p) where
  generation := h.generation
  agents := h.agents
  last := h.last
  policies := h.policies
  calls := h.calls
  ports := by
    intro q hq
    rcases List.mem_or_eq_of_mem_set hq with hmem | rfl
    · exact h.ports q hmem
    · exact hp

/-- What is entered is checked against the reloads that have started. -/
theorem enter_unchanged (h : Sound s) {port : Port} {left started : ℕ} (hstarted : started ≤ s.reloads.length)
    (hagent : s.currentAgent ≠ none → started = s.reloads.length) :
    Unchanged s ⟨port, left, started, s.enter port⟩ := by
  refine ⟨hstarted, ?_⟩
  unfold State.enter
  cases hcurrent : s.currentAgent with
  | none => trivial
  | some active =>
    show s.generation = started
    rw [h.generation, hagent (by rw [hcurrent]; exact nofun)]

theorem leave_unchanged (h : Sound s) {port : Port} {left started active epoch : ℕ}
    (hp : Unchanged s ⟨port, left, started, .running active epoch⟩) (accepted : Bool) :
    Unchanged s ⟨port, left, started, s.leave port left active epoch accepted⟩ := by
  obtain ⟨hstarted, hepoch⟩ := hp
  refine ⟨hstarted, ?_⟩
  unfold State.leave
  split_ifs with hchanged hrefused hleft
  · trivial
  · trivial
  all_goals
    have hsame : epoch = s.generation := by
      by_contra hne
      simp [hne] at hchanged
    have hlength : started = s.reloads.length := by rw [← h.generation, ← hsame]; exact hepoch.symm
  · exact hlength.symm
  · exact ⟨hlength.symm, fun _ => hlength⟩

theorem step_sound (h : Sound s) (e : Event) (hqueued : Queued s e) (hlatest : Latest s e) :
    Sound (step s e) := by
  cases e with
  | reload policy => exact reload_sound h policy
  | built number => exact built_sound h number hqueued hlatest
  | failed number => exact failed_sound h number
  | execute operation => exact execute_sound h operation
  | callPort port =>
    refine ⟨h.generation, h.agents, h.last, h.policies, h.calls, ?_⟩
    intro p hp
    rcases List.mem_append.mp hp with hold | hnew
    · exact h.ports p hold
    · cases List.mem_singleton.mp hnew
      exact enter_unchanged h le_rfl fun _ => rfl
  | resolved number accepted =>
    show Sound (s.resolve number accepted)
    unfold State.resolve
    split
    · rename_i port left started active epoch hnumber
      exact advance_sound h number (leave_unchanged h (h.ports _ (List.mem_of_getElem? hnumber)) accepted)
    · exact h
  | rejected number =>
    show Sound (s.reject number)
    unfold State.reject
    split
    · rename_i port left started active epoch hnumber
      exact advance_sound h number ⟨(h.ports _ (List.mem_of_getElem? hnumber)).1, trivial⟩
    · exact h
  | goOn number =>
    show Sound (s.goOn number)
    unfold State.goOn
    split
    · rename_i port left started since hnumber
      obtain ⟨hstarted, -, hagent⟩ := h.ports _ (List.mem_of_getElem? hnumber)
      exact advance_sound h number (enter_unchanged h hstarted hagent)
    · exact h

end Invariant

section Runs

variable {s : State}

theorem reached_sound (h : Reaches step (fun s e => Queued s e ∧ Latest s e) State.initial s) : Sound s :=
  h.invariant initial_sound fun _ e hs he => step_sound hs e he.1 he.2

/-- Without a policy, and with nothing installed since, there is no agent. -/
theorem Sound.without (h : Sound s) {k : ℕ} {r : Reload} (hr : s.reloads[k]? = some r)
    (hnone : r.policy = none)
    (hlater : ∀ (m : ℕ) (r' : Reload), k < m → s.reloads[m]? = some r' → r'.outcome ≠ .installed) :
    s.currentAgent = none := by
  cases hagent : s.currentAgent with
  | none => rfl
  | some n =>
    obtain ⟨hlength, policy, hpolicy⟩ := h.last n hagent
    have hk := (List.getElem?_eq_some_iff.mp hr).1
    rcases Nat.lt_or_ge k n with hlt | hge
    · exact absurd rfl (hlater n _ hlt hpolicy)
    · have hsame : k = n := by omega
      subst hsame
      cases hr.symm.trans hpolicy
      exact absurd hnone nofun

theorem revoked_policy_stays (h : Reaches step (fun s e => Queued s e ∧ Latest s e) State.initial s) :
    (∀ n, s.current = some n ∨ s.currentAgent = some n →
      n + 1 = s.reloads.length ∧ ∃ policy, s.reloads[n]? = some ⟨some policy, .installed⟩) ∧
    (∀ c ∈ s.calls, ∀ n, c.answer = .served n → n + 1 = c.started) ∧
    (∀ (k : ℕ) (r : Reload), s.reloads[k]? = some r → r.policy = none →
      (∀ (m : ℕ) (r' : Reload), k < m → s.reloads[m]? = some r' → r'.outcome ≠ .installed) →
      s.ready = false ∧ (∀ operation, s.execute operation = offline operation) ∧ s.protect ≠ none ∧
        ∀ port, s.enter port = .thrown port.offline) ∧
    ∀ p ∈ s.ports, ∀ ended, p.phase = .returned ended → ended = p.started := by
  have hsound := reached_sound h
  refine ⟨?_, hsound.calls, ?_, ?_⟩
  · rintro n (hcurrent | hagent)
    · exact hsound.last n (hsound.agents.symm.trans hcurrent)
    · exact hsound.last n hagent
  · intro k r hr hnone hlater
    have hagent := hsound.without hr hnone hlater
    have hcurrent : s.current = none := hsound.agents.trans hagent
    have hready : s.ready = false := by
      unfold State.ready
      rw [hcurrent]
      rfl
    refine ⟨hready, fun operation => ?_, ?_, fun port => ?_⟩
    · unfold State.execute
      rw [hcurrent]
    · unfold State.protect
      rw [hready]
      exact nofun
    · unfold State.enter
      rw [hagent]
  · intro p hp ended hended
    have hphase := (hsound.ports p hp).2
    rw [hended] at hphase
    exact hphase

end Runs

section Samples

def Between (number : ℕ) : Phase → Bool
  | .between since => number < since
  | _ => true

instance (s : State) : (e : Event) → Decidable (Queued s e)
  | .built number => decidable_of_iff (∀ p ∈ s.ports, Between number p.phase = true) <| by
      refine forall₂_congr fun p _ => ?_
      cases hphase : p.phase <;> simp [Between]
  | .reload _ | .failed _ | .execute _ | .callPort _ | .resolved _ _ | .rejected _ | .goOn _ =>
    inferInstanceAs (Decidable True)

instance (s : State) : (e : Event) → Decidable (Latest s e)
  | .built number => inferInstanceAs (Decidable (number + 1 = s.reloads.length))
  | .reload _ | .failed _ | .execute _ | .callPort _ | .resolved _ _ | .rejected _ | .goOn _ =>
    inferInstanceAs (Decidable True)

def run (events : List Event) : State := events.foldl step State.initial

/-- A policy is given, used by a workflow, and revoked. -/
def revoked : List Event :=
  [.reload (some "policy"), .built 0, .callPort .workflowOperation, .resolved 0 true, .goOn
    0, .resolved 0 true, .reload none]

theorem revoked_policy_stays_sample :
    (run revoked).ports.map (·.phase) = [.returned 1] ∧ (run revoked).ready = false ∧
    ∀ operation, (run revoked).execute operation = offline operation := by
  have hrun : Admitted step (fun s e => Queued s e ∧ Latest s e) State.initial revoked ∧
      (run revoked).reloads.length = 2 ∧ (run revoked).reloads[1]? = some ⟨none, .withoutPolicy⟩ ∧
      (run revoked).ports.map (·.phase) = [.returned 1] := by decide +kernel
  obtain ⟨hadmitted, hlength, hsecond, hphases⟩ := hrun
  have hreached : Reaches step (fun s e => Queued s e ∧ Latest s e) State.initial (run revoked) :=
    Reaches.refl.events hadmitted rfl
  have hlater : ∀ (m : ℕ) (r' : Reload), 1 < m → (run revoked).reloads[m]? = some r' →
      r'.outcome ≠ .installed := by
    intro m r' hm hr'
    have hlt := (List.getElem?_eq_some_iff.mp hr').1
    omega
  have hrefused := (revoked_policy_stays hreached).2.2.1 1 ⟨none, .withoutPolicy⟩ hsecond rfl hlater
  exact ⟨hphases, hrefused.1, hrefused.2.1⟩

/-- The construction of the first reload ends after the policy is revoked. -/
def overtaken : List Event := [.reload (some "policy"), .reload none, .built 0]

/-- An offline proxy answers two operations, and a construction that ends late
installs its agent. -/
theorem offline_answers_and_overtaken_installs :
    (¬ ∀ s : State, Reaches step Queued State.initial s → s.reloads.getLast? = some ⟨none, .withoutPolicy⟩ →
      ∀ operation, ∃ code message, s.execute operation = .thrown code message) ∧
    ¬ ∀ s : State, Reaches step Queued State.initial s → ∀ n, s.current = some n →
    n + 1 = s.reloads.length := by
  constructor
  · intro h
    have hreached : Reaches step Queued State.initial (run [.reload none]) := by
      have hrefl : Reaches step Queued State.initial State.initial := .refl
      exact hrefl.next (Event.reload none) trivial
    obtain ⟨code, message, hanswer⟩ := h (run [.reload none]) hreached rfl ⟨"listWorkspaces", ""⟩
    exact absurd hanswer nofun
  · intro h
    have hrun : Admitted step Queued State.initial overtaken ∧ (run overtaken).current = some 0 ∧
        (run overtaken).reloads.length = 2 := by decide +kernel
    have hreached : Reaches step Queued State.initial (run overtaken) := Reaches.refl.events hrun.1 rfl
    have hlast := h (run overtaken) hreached 0 hrun.2.1
    omega

end Samples

end AccessStack.ReloadableAgent
