import AccessStack.Mcp.Cancellation

/-!
# Runs of the registry of MCP operations

Every call keeps the maps and the marks, when no operation begins for a
pending request that a `clear` has dropped.
-/

set_option autoImplicit false

namespace AccessStack.McpOperations
open AccessStack.Runs

section Steps

variable {sha256 : String → String} {s : State} {input : Input} {scope : String} {requestId : McpRequestId}
  {lifecycle : Option String}

/-- An input that strikes nobody. -/
def Input.harmless (input : Input) : Prop := ∀ (scope : String) (requestId : McpRequestId),
  input.strikes scope requestId = false

theorem pendings_quiet (h : ∀ p ∈ s.pendings, PendingMarked s.log p) (hinput : input.harmless) :
    ∀ p ∈ s.pendings, PendingMarked (s.log ++ [input]) p :=
  fun p hp => (h p hp).quiet (hinput _ _)

theorem operations_quiet (h : ∀ o ∈ s.operations, ActiveMarked s.log o) (hinput : input.harmless) :
    ∀ o ∈ s.operations, ActiveMarked (s.log ++ [input]) o :=
  fun o ho => (h o ho).quiet (hinput _ _)

theorem Sound.quiet (h : Sound sha256 s) (hinput : input.harmless) :
    Sound sha256 { s with log := s.log ++ [input] } :=
  ⟨h.pending, h.active, pendings_quiet h.pendings hinput, operations_quiet h.operations hinput⟩

theorem PendingMarked.leave {log : List Input} {p : PendingOperation} (h : PendingMarked log p)
    {status : Status} (hstatus : status ≠ .opened) : PendingMarked (log ++ [input]) { p with status } where
  within := by
    rw [List.length_append]
    exact Nat.le_add_right_of_le h.within
  struck := fun hopened => absurd hopened hstatus

theorem set_marked {log : List Input} {pendings : List PendingOperation} {i : ℕ} {p : PendingOperation}
    (h : ∀ q ∈ pendings, PendingMarked log q) (hp : pendings[i]? = some p) (hinput : input.harmless) :
    ∀ q ∈ pendings.set i { p with status := .closed }, PendingMarked (log ++ [input]) q := by
  intro q hq
  rcases List.mem_or_eq_of_mem_set hq with hmem | rfl
  · exact (h q hmem).quiet (hinput _ _)
  · exact (h p (List.mem_of_getElem? hp)).leave nofun

variable (hkey : ∀ {scope scope' : String} {i j : McpRequestId},
  operationKey sha256 scope i = operationKey sha256 scope' j → scope = scope' ∧ i = j)
include hkey

theorem registerPending_sound (h : Sound sha256 s) (scope : String) (requestId : McpRequestId)
    (lifecycleId : String) :
    Sound sha256 (step sha256 s (.registerPending scope requestId lifecycleId)) where
  pending := h.pending.register hkey scope requestId lifecycleId s.log.length
  active := h.active
  pendings := by
    intro p hp
    rcases List.mem_append.mp hp with hold | hnew
    · obtain ⟨q, hq, rfl⟩ := List.mem_map.mp hold
      unfold PendingOperation.replace
      split_ifs
      · exact (h.pendings q hq).leave nofun
      · exact (h.pendings q hq).quiet rfl
    · rw [List.mem_singleton.mp hnew]
      refine ⟨?_, fun _ => ⟨nofun, fun hstruck => ?_⟩⟩
      · show s.log.length ≤ (s.log ++ [_]).length
        simp
      · have hquiet : (Input.registerPending scope requestId lifecycleId).strikes scope requestId =
          false := rfl
        exact absurd ((struck_quiet hquiet).mp hstruck) struck_end
  operations := operations_quiet h.operations fun _ _ => rfl

theorem releasePending_sound (h : Sound sha256 s) (registration : ℕ) :
    Sound sha256 (step sha256 s (.releasePending registration)) := by
  have hharmless : (Input.releasePending registration).harmless := fun _ _ => rfl
  show Sound sha256 { releasePending sha256 s registration with log := s.log ++ [.releasePending
    registration] }
  unfold releasePending
  cases hp : s.pendings[registration]? with
  | none => exact h.quiet hharmless
  | some p =>
    have hcurrent : ((s.pending (operationKey sha256 p.cancellationScopeKey p.requestId)).getD []).lookup
        p.requestLifecycleId = some registration ↔ p.status = .opened := by
      rw [h.pending.lookup_iff hkey]
      constructor
      · rintro ⟨q, hq, hopened, -⟩
        cases hp.symm.trans hq
        exact hopened
      · exact fun hopened => ⟨p, hp, hopened, isFor_iff.mpr ⟨rfl, rfl, rfl⟩⟩
    have hmarked := set_marked h.pendings hp hharmless
    have hoperations := operations_quiet h.operations hharmless
    simp only [hcurrent]
    split_ifs with hopened
    · exact ⟨h.pending.close hkey hp (if_pos hopened).symm, h.active, hmarked, hoperations⟩
    · exact ⟨h.pending.close hkey hp (if_neg hopened).symm, h.active, hmarked, hoperations⟩

/-- What an operation takes is the open registration of its request. -/
theorem taken_some (h : Sound sha256 s) {lifecycleId : String} {registration : ℕ} {p : PendingOperation}
    (htaken : s.taken (operationKey sha256 scope requestId) lifecycle = some (lifecycleId, registration, p)) :
    s.pendings[registration]? = some p ∧ p.status = .opened ∧ p.isFor scope requestId lifecycleId = true ∧
      s.origin scope requestId lifecycle = p.registered := by
  unfold State.taken at htaken
  cases lifecycle with
  | none => exact absurd htaken nofun
  | some id =>
    simp only [Option.bind_eq_bind, Option.bind_some, Option.bind_eq_some_iff, Option.pure_def,
      Option.some_inj, Prod.mk.injEq] at htaken
    obtain ⟨i, hlookup, q, hq, rfl, rfl, rfl⟩ := htaken
    obtain ⟨p, hp, hopened, hfor⟩ := (h.pending.lookup_iff hkey).mp hlookup
    cases hq.symm.trans hp
    refine ⟨hp, hopened, hfor, ?_⟩
    unfold State.origin
    rw [Option.bind_some]
    cases hfind : s.pendings.find? fun p => p.isFor scope requestId id && p.status ≠ .closed with
    | none =>
      have hnone := List.find?_eq_none.mp hfind q (List.mem_of_getElem? hp)
      simp [hfor, hopened] at hnone
    | some r =>
      obtain ⟨j, hj⟩ := List.getElem?_of_mem (List.mem_of_find?_eq_some hfind)
      have hr := List.find?_some hfind
      rw [Bool.and_eq_true, decide_eq_true_iff] at hr
      obtain ⟨rfl, rfl, rfl⟩ := isFor_iff.mp hfor
      have hsame := h.pending.unique i j q r hp hj (by rw [hopened]; exact nofun) hr.2 hr.1
      subst hsame
      rw [Option.some.inj (hp.symm.trans hj)]

/-- An operation that takes nothing is registered when it begins. -/
theorem taken_none (h : Sound sha256 s) {operationScope : String}
    (hkept : Kept s (.begin operationScope requestId scope lifecycle))
    (htaken : s.taken (operationKey sha256 scope requestId) lifecycle = none) :
    s.origin scope requestId lifecycle = s.log.length := by
  unfold State.origin
  cases lifecycle with
  | none => rfl
  | some id =>
    rw [Option.bind_some]
    cases hfind : s.pendings.find? fun p => p.isFor scope requestId id && p.status ≠ .closed with
    | none => rfl
    | some r =>
      have hmem := List.mem_of_find?_eq_some hfind
      have hr := List.find?_some hfind
      rw [Bool.and_eq_true, decide_eq_true_iff] at hr
      have hopened : r.status = .opened := by
        cases hstatus : r.status with
        | opened => rfl
        | dropped => exact absurd hstatus (hkept r hmem hr.1)
        | closed => exact absurd hstatus hr.2
      obtain ⟨j, hj⟩ := List.getElem?_of_mem hmem
      have hlookup := (h.pending.lookup_iff hkey).mpr ⟨r, hj, hopened, hr.1⟩
      simp [State.taken, hlookup, hj] at htaken

theorem begin_sound (h : Sound sha256 s) (operationScope : String)
    (hkept : Kept s (.begin operationScope requestId scope lifecycle)) :
    Sound sha256 (step sha256 s (.begin operationScope requestId scope lifecycle)) := by
  have hharmless : (Input.begin operationScope requestId scope lifecycle).harmless := fun _ _ => rfl
  show Sound sha256 { (begin sha256 s operationScope requestId scope
    lifecycle).getD s with log := s.log ++ [_] }
  cases hactive : s.active (operationKey sha256 operationScope requestId) with
  | some token =>
    have hthrows : begin sha256 s operationScope requestId scope lifecycle = none := by simp [begin, hactive]
    rw [hthrows]
    exact h.quiet hharmless
  | none =>
    cases htaken : s.taken (operationKey sha256 scope requestId) lifecycle with
    | none =>
      have horigin := taken_none hkey h hkept htaken
      obtain ⟨new, hnew⟩ : ∃ o : ActiveOperation,
        o = ⟨operationKey sha256 operationScope requestId, scope, requestId,
        false, none, s.log.length, none, true⟩ := ⟨_, rfl⟩
      have hbegins : begin sha256 s operationScope requestId scope lifecycle =
          some (s.enlist new.key (operationKey sha256 scope requestId) new) := by
        simp [begin, hactive, htaken, horigin, hnew]
      have hfree : s.active new.key = none := by rw [hnew, hactive]
      have hheld : new.held = true := by rw [hnew]
      have hfound : operationKey sha256 new.cancellationScopeKey new.requestId =
          operationKey sha256 scope requestId := by
        rw [hnew]
      rw [hbegins]
      refine ⟨h.pending, h.active.begin hfree hheld hfound, pendings_quiet h.pendings hharmless, ?_⟩
      intro o ho
      rcases List.mem_append.mp ho with hold | hlast
      · exact (h.operations o hold).quiet rfl
      · rw [List.mem_singleton.mp hlast, hnew]
        refine ⟨?_, nofun, ⟨nofun, fun hstruck => ?_⟩, fun _ => rfl, nofun⟩
        · show s.log.length ≤ (s.log ++ [_]).length
          simp
        · exact absurd ((struck_quiet (hharmless _ _)).mp hstruck) struck_end
    | some found =>
      obtain ⟨lifecycleId, registration, p⟩ := found
      obtain ⟨hp, hopened, hfor, horigin⟩ := taken_some hkey h htaken
      obtain ⟨rfl, rfl, rfl⟩ := isFor_iff.mp hfor
      have hmarked := h.pendings p (List.mem_of_getElem? hp)
      obtain ⟨new, hnew⟩ : ∃ o : ActiveOperation, o = ⟨operationKey sha256 operationScope p.requestId,
        p.cancellationScopeKey, p.requestId, p.cancelled, if p.cancelled then p.reason else none,
          p.registered, none, true⟩ := ⟨_, rfl⟩
      have hbegins : begin sha256 s operationScope p.requestId p.cancellationScopeKey lifecycle =
          some (((s.forget (operationKey sha256 p.cancellationScopeKey p.requestId)
            p.requestLifecycleId).close
            registration p).enlist new.key (operationKey sha256 p.cancellationScopeKey p.requestId) new) := by
        simp [begin, hactive, htaken, horigin, hnew]
      have hfree : s.active new.key = none := by rw [hnew, hactive]
      have hheld : new.held = true := by rw [hnew]
      have hfound : operationKey sha256 new.cancellationScopeKey new.requestId =
          operationKey sha256 p.cancellationScopeKey p.requestId := by rw [hnew]
      rw [hbegins]
      refine ⟨h.pending.close hkey hp (if_pos hopened).symm, h.active.begin hfree hheld hfound,
        set_marked h.pendings hp hharmless, ?_⟩
      intro o ho
      rcases List.mem_append.mp ho with hold | hlast
      · exact (h.operations o hold).quiet rfl
      · rw [List.mem_singleton.mp hlast, hnew]
        refine ⟨(hmarked.quiet (hharmless _ _)).within, nofun, ?_, fun _ => rfl, nofun⟩
        exact (hmarked.struck hopened).trans (struck_quiet (hharmless _ _)).symm

omit hkey in
theorem release_sound (h : Sound sha256 s) (registration : ℕ) :
    Sound sha256 (step sha256 s (.release registration)) := by
  have hharmless : (Input.release registration).harmless := fun _ _ => rfl
  show Sound sha256 { release sha256 s registration with log := s.log ++ [.release registration] }
  unfold release
  cases ho : s.operations[registration]? with
  | none => exact h.quiet hharmless
  | some o =>
    have hrunning : s.active o.key = some registration ↔ o.held = true := by
      rw [h.active.running]
      constructor
      · rintro ⟨q, hq, hheld, -⟩
        cases ho.symm.trans hq
        exact hheld
      · exact fun hheld => ⟨o, ho, hheld, rfl⟩
    have hmarked : ∀ q ∈ s.operations.set registration
        { o with held := false, released := some (o.released.getD s.log.length) },
        ActiveMarked (s.log ++ [.release registration]) q := by
      intro q hq
      rcases List.mem_or_eq_of_mem_set hq with hmem | rfl
      · exact (h.operations q hmem).quiet (hharmless _ _)
      · exact (h.operations o (List.mem_of_getElem? ho)).release (hharmless _ _)
    simp only [hrunning]
    split_ifs with hheld
    · exact ⟨h.pending, h.active.release ho hheld rfl rfl, pendings_quiet h.pendings hharmless, hmarked⟩
    · exact ⟨h.pending, h.active.unhold ho (by simpa using hheld) rfl,
        pendings_quiet h.pendings hharmless, hmarked⟩

/-- Whom a cancellation finds is held and of its request, and conversely. -/
theorem cancel_sound (h : Sound sha256 s) (reason : Option String) :
    Sound sha256 (step sha256 s (.cancel scope requestId reason)) where
  pending := by
    refine h.pending.mark fun i p => ?_
    split_ifs <;> exact ⟨rfl, rfl, rfl, rfl⟩
  active := by
    refine h.active.mark fun n o => ?_
    split_ifs
    · obtain ⟨reason', heq⟩ := abort_cases o reason
      rw [heq]
      exact ⟨rfl, rfl, rfl, rfl⟩
    · exact ⟨rfl, rfl, rfl, rfl⟩
  pendings := by
    intro p hp
    obtain ⟨i, hi⟩ := List.getElem?_of_mem hp
    have hmapped : (s.pendings.mapIdx _)[i]? = some p := hi
    rw [List.getElem?_mapIdx] at hmapped
    obtain ⟨q, hq, rfl⟩ := Option.map_eq_some_iff.mp hmapped
    have hmarked := h.pendings q (List.mem_of_getElem? hq)
    split_ifs with hmem
    · obtain ⟨⟨id, j⟩, hentry, rfl⟩ := List.mem_map.mp hmem
      obtain ⟨r, hr, -, hsame, -⟩ := (h.pending.mem _ _ _).mp hentry
      cases hq.symm.trans hr
      obtain ⟨rfl, rfl⟩ := hkey hsame
      exact hmarked.cancelled (by simp [Input.strikes])
    · by_cases hopened : q.status = .opened
      · refine hmarked.quiet ?_
        cases hstrikes : (Input.cancel scope requestId reason).strikes q.cancellationScopeKey q.requestId with
        | false => rfl
        | true =>
          simp only [Input.strikes, Bool.and_eq_true, decide_eq_true_iff] at hstrikes
          obtain ⟨rfl, rfl⟩ := hstrikes
          exact absurd (List.mem_map.mpr ⟨_, (h.pending.mem _ _ _).mpr ⟨q, hq, hopened, rfl, rfl⟩, rfl⟩) hmem
      · exact hmarked.shut hopened
  operations := by
    intro o ho
    obtain ⟨n, hn⟩ := List.getElem?_of_mem ho
    have hmapped : (s.operations.mapIdx _)[n]? = some o := hn
    rw [List.getElem?_mapIdx] at hmapped
    obtain ⟨q, hq, rfl⟩ := Option.map_eq_some_iff.mp hmapped
    have hmarked := h.operations q (List.mem_of_getElem? hq)
    split_ifs with hmem
    · obtain ⟨r, hr, hheld, hsame⟩ := (h.active.found _ _).mp hmem
      cases hq.symm.trans hr
      obtain ⟨rfl, rfl⟩ := hkey hsame
      exact hmarked.abort hheld (by simp [Input.strikes])
    · cases hheld : q.held with
      | false => exact hmarked.unheld hheld
      | true =>
        refine hmarked.quiet ?_
        cases hstrikes : (Input.cancel scope requestId reason).strikes q.cancellationScopeKey q.requestId with
        | false => rfl
        | true =>
          simp only [Input.strikes, Bool.and_eq_true, decide_eq_true_iff] at hstrikes
          obtain ⟨rfl, rfl⟩ := hstrikes
          exact absurd ((h.active.found _ _).mpr ⟨q, hq, hheld, rfl⟩) hmem

omit hkey in
theorem clear_sound (h : Sound sha256 s) : Sound sha256 (step sha256 s .clear) where
  pending := h.pending.clear
  active := h.active.clear shutdown
  pendings := by
    intro p hp
    obtain ⟨q, hq, rfl⟩ := List.mem_map.mp hp
    have hmarked := h.pendings q hq
    unfold PendingOperation.drop
    split_ifs with hopened
    · exact hmarked.leave nofun
    · exact hmarked.shut hopened
  operations := by
    intro o ho
    obtain ⟨n, hn⟩ := List.getElem?_of_mem ho
    have hmapped : (s.operations.mapIdx _)[n]? = some o := hn
    rw [List.getElem?_mapIdx] at hmapped
    obtain ⟨q, hq, rfl⟩ := Option.map_eq_some_iff.mp hmapped
    have hmarked := h.operations q (List.mem_of_getElem? hq)
    split_ifs with hactive
    · obtain ⟨r, hr, hheld, -⟩ := (h.active.running _ _).mp hactive
      cases hq.symm.trans hr
      exact hmarked.clear hheld rfl
    · cases hheld : q.held with
      | false => exact hmarked.unheld hheld
      | true => exact absurd ((h.active.running _ _).mpr ⟨q, hq, hheld, rfl⟩) hactive

theorem step_sound (input : Input) (h : Sound sha256 s) (hkept : Kept s input) :
    Sound sha256 (step sha256 s input) := by
  cases input with
  | registerPending scope requestId lifecycleId =>
    exact registerPending_sound hkey h scope requestId lifecycleId
  | releasePending registration => exact releasePending_sound hkey h registration
  | begin operationScope requestId scope lifecycle => exact begin_sound hkey h operationScope hkept
  | release registration => exact release_sound h registration
  | cancel scope requestId reason => exact cancel_sound hkey h reason
  | clear => exact clear_sound h

end Steps

section Runs

variable {sha256 : String → String} {s : State}

theorem initial_sound : Sound sha256 State.initial where
  pending := by constructor <;> simp [State.initial]
  active := by constructor <;> simp [State.initial]
  pendings := by simp [State.initial]
  operations := by simp [State.initial]

theorem reached_sound (hinjective : Function.Injective sha256) (hplain : ∀ text, ':' ∉ (sha256 text).toList)
    (h : Reaches (step sha256) Kept State.initial s) : Sound sha256 s :=
  h.invariant initial_sound fun _ input hsound hkept =>
    step_sound (key_injective hinjective hplain) input hsound hkept

/-- Nobody of another request is touched by a cancellation. -/
theorem cancel_spares (h : Sound sha256 s)
    (hkey : ∀ {scope scope' : String} {i j : McpRequestId},
      operationKey sha256 scope i = operationKey sha256 scope' j → scope = scope' ∧ i = j)
    {scope : String} {requestId : McpRequestId} (reason : Option String) {token : ℕ} {o : ActiveOperation}
    (ho : s.operations[token]? = some o)
    (hother : ¬ (o.cancellationScopeKey = scope ∧ o.requestId = requestId)) :
    (step sha256 s (.cancel scope requestId reason)).operations[token]? = some o := by
  show (s.operations.mapIdx _)[token]? = some o
  rw [List.getElem?_mapIdx, ho, Option.map_some, if_neg]
  intro hmem
  obtain ⟨q, hq, -, hsame⟩ := (h.active.found _ _).mp hmem
  cases ho.symm.trans hq
  exact hother (hkey hsame)

theorem maps_empty (h : Sound sha256 s) (hpendings : ∀ p ∈ s.pendings, p.status ≠ .opened)
    (hoperations : ∀ o ∈ s.operations, o.released ≠ none) :
    s.active = (fun _ => none) ∧ s.cancellationTargets = (fun _ => none) ∧ s.pending = fun _ => none := by
  have hnone : ∀ (n : ℕ) (o : ActiveOperation), s.operations[n]? = some o → o.held = true → False := by
    intro n o ho hheld
    have hmem := List.mem_of_getElem? ho
    exact hoperations o hmem ((h.operations o hmem).held hheld)
  refine ⟨funext fun key => ?_, funext fun key => ?_, funext fun key => ?_⟩
  · cases hactive : s.active key with
    | none => rfl
    | some token =>
      obtain ⟨o, ho, hheld, -⟩ := (h.active.running key token).mp hactive
      exact (hnone token o ho hheld).elim
  · cases htargets : s.cancellationTargets key with
    | none => rfl
    | some targets =>
      cases targets with
      | nil => exact absurd htargets (h.active.kept key)
      | cons token rest =>
        have hmem : token ∈ (s.cancellationTargets key).getD [] := by
          rw [htargets]
          exact List.mem_cons_self
        obtain ⟨o, ho, hheld, -⟩ := (h.active.found key token).mp hmem
        exact (hnone token o ho hheld).elim
  · cases hpending : s.pending key with
    | none => rfl
    | some entries =>
      cases entries with
      | nil => exact absurd hpending (h.pending.kept key)
      | cons entry rest =>
        have hmem : (entry.1, entry.2) ∈ (s.pending key).getD [] := by
          rw [hpending]
          exact List.mem_cons_self
        obtain ⟨p, hp, hopened, -⟩ := (h.pending.mem key entry.1 entry.2).mp hmem
        exact absurd hopened (hpendings p (List.mem_of_getElem? hp))

theorem release_ends {token : ℕ} {o : ActiveOperation} (ho : s.operations[token]? = some o) :
    ∃ ended, (step sha256 s (.release token)).operations[token]? = some ended ∧ ended.released ≠ none := by
  have hlt : token < s.operations.length := (List.getElem?_eq_some_iff.mp ho).1
  refine ⟨{ o with held := false, released := some (o.released.getD s.log.length) }, ?_, by simp⟩
  simp only [step, perform, release, ho]
  split_ifs <;> simp [hlt]

theorem releasePending_ends {registration : ℕ} {p : PendingOperation}
    (hp : s.pendings[registration]? = some p) :
    ∃ ended, (step sha256 s (.releasePending registration)).pendings[registration]? = some ended ∧
      ended.status = .closed := by
  have hlt : registration < s.pendings.length := (List.getElem?_eq_some_iff.mp hp).1
  refine ⟨{ p with status := .closed }, ?_, rfl⟩
  simp only [step, perform, releasePending, hp]
  split_ifs <;> simp [State.close, State.forget, hlt]

theorem cancellation_scoped (hinjective : Function.Injective sha256)
    (hplain : ∀ text, ':' ∉ (sha256 text).toList) (h : Reaches (step sha256) Kept State.initial s) :
    (∀ o ∈ s.operations,
      o.aborted = true ↔ Struck s.log o.registered o.released o.cancellationScopeKey o.requestId) ∧
    (∀ (scope : String) (requestId : McpRequestId) (reason : Option String) (token : ℕ) (o : ActiveOperation),
      s.operations[token]? = some o → ¬ (o.cancellationScopeKey = scope ∧ o.requestId = requestId) →
        (step sha256 s (.cancel scope requestId reason)).operations[token]? = some o) ∧
    ((∀ p ∈ s.pendings, p.status ≠ .opened) → (∀ o ∈ s.operations, o.released ≠ none) →
      s.active = (fun _ => none) ∧ s.cancellationTargets = (fun _ => none) ∧ s.pending = fun _ => none) ∧
    (∀ token o, s.operations[token]? = some o →
      ∃ ended, (step sha256 s (.release token)).operations[token]? = some ended ∧ ended.released ≠ none) ∧
    (∀ registration p, s.pendings[registration]? = some p →
      ∃ ended, (step sha256 s (.releasePending registration)).pendings[registration]? = some ended ∧
        ended.status = .closed) := by
  have hsound := reached_sound hinjective hplain h
  refine ⟨fun o ho => (hsound.operations o ho).struck, ?_, maps_empty hsound, fun _ _ => release_ends,
    fun _ _ => releasePending_ends⟩
  intro scope requestId reason token o ho hother
  exact cancel_spares hsound (key_injective hinjective hplain) reason ho hother

end Runs

section Samples

/-- A code without a colon that can be read back. -/
def sampleCode (c : Char) : List Char := if c = ':' then ['a', 'a'] else ['b', c]

def sampleSha256 (text : String) : String := String.ofList (text.toList.flatMap sampleCode)

theorem sampleCode_length (c : Char) : (sampleCode c).length = 2 := by
  unfold sampleCode
  split_ifs <;> rfl

theorem sampleCode_injective {c d : Char} (h : sampleCode c = sampleCode d) : c = d := by
  unfold sampleCode at h
  split_ifs at h with hc hd hd
  · exact hc.trans hd.symm
  · exact absurd (congrArg List.head? h) (by simp)
  · exact absurd (congrArg List.head? h) (by simp)
  · simpa using h

theorem sample_plain (text : String) : ':' ∉ (sampleSha256 text).toList := by
  unfold sampleSha256
  rw [String.toList_ofList, List.mem_flatMap]
  rintro ⟨c, -, hc⟩
  unfold sampleCode at hc
  split_ifs at hc with hcolon
  · exact absurd hc (by decide)
  · rcases List.mem_cons.mp hc with hb | hrest
    · exact absurd hb (by decide)
    · exact hcolon (List.mem_singleton.mp hrest).symm

theorem sample_injective : Function.Injective sampleSha256 := by
  have hlists : ∀ a b : List Char, a.flatMap sampleCode = b.flatMap sampleCode → a = b := by
    intro a
    induction a with
    | nil =>
      intro b h
      cases b with
      | nil => rfl
      | cons d b =>
        have hlength := congrArg List.length h
        simp [sampleCode_length] at hlength
        omega
    | cons c a ih =>
      intro b h
      cases b with
      | nil =>
        have hlength := congrArg List.length h
        simp [sampleCode_length] at hlength
      | cons d b =>
        rw [List.flatMap_cons, List.flatMap_cons] at h
        obtain ⟨hhead, htail⟩ := List.append_inj h ((sampleCode_length c).trans (sampleCode_length d).symm)
        rw [sampleCode_injective hhead, ih b htail]
  intro x y h
  refine String.toList_injective (hlists _ _ ?_)
  simpa [sampleSha256] using congrArg String.toList h

def sampleRequest : McpRequestId := .number "1"

/-- Cancelled before it begins, and released. -/
def cancelledEarly : List Input := [.registerPending "scope" sampleRequest "first",
  .cancel "scope" sampleRequest (some "stop"), .begin "operation" sampleRequest "scope"
    (some "first"), .release 0]

def run (inputs : List Input) : State := inputs.foldl (step sampleSha256) State.initial

theorem cancellation_scoped_sample :
    (run cancelledEarly).operations.map (·.aborted) = [true] ∧
    (∀ o ∈ (run cancelledEarly).operations,
      o.aborted = true ↔
      Struck (run cancelledEarly).log o.registered o.released o.cancellationScopeKey o.requestId) ∧
    (run cancelledEarly).active = fun _ => none := by
  have hadmitted : Admitted (step sampleSha256) Kept State.initial cancelledEarly := by decide +kernel
  have hreached : Reaches (step sampleSha256) Kept State.initial (run cancelledEarly) :=
    Reaches.refl.events hadmitted rfl
  have hscoped := cancellation_scoped sample_injective sample_plain hreached
  exact ⟨by decide +kernel, hscoped.1, (hscoped.2.2.1 (by decide +kernel) (by decide +kernel)).1⟩

/-- The registry is cleared between the registration of a request and its begin. -/
def clearedEarly : List Input := [.registerPending "scope" sampleRequest "first", .clear,
  .begin "operation" sampleRequest "scope" (some "first")]

theorem cleared_request_runs : ¬ ∀ s : State, Reaches (step sampleSha256) (fun _ _ => True) State.initial s →
    ∀ o ∈ s.operations,
      o.aborted = true ↔ Struck s.log o.registered o.released o.cancellationScopeKey o.requestId := by
  intro h
  have hadmitted : Admitted (step sampleSha256) (fun _ _ => True) State.initial clearedEarly :=
    ⟨trivial, trivial, trivial, trivial⟩
  have hreached : Reaches (step sampleSha256) (fun _ _ => True) State.initial (run clearedEarly) :=
    Reaches.refl.events hadmitted rfl
  have hfirst : (run clearedEarly).operations[0]? =
      some ⟨operationKey sampleSha256 "operation" sampleRequest, "scope", sampleRequest, false,
          none, 0, none, true⟩ := by
    decide +kernel
  have hstruck : Struck (run clearedEarly).log 0 none "scope" sampleRequest := by
    refine ⟨1, .clear, by decide, ?_, rfl, rfl⟩
    intro r hr
    cases hr
  cases (h _ hreached _ (List.mem_of_getElem? hfirst)).mpr hstruck

end Samples

end AccessStack.McpOperations
