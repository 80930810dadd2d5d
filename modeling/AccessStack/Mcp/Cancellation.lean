import AccessStack.Mcp.Operations
import AccessStack.Text

/-!
# Cancellation of MCP operations

The maps of the registry hold what is open or held and nothing else, and a
mark of cancellation says what the log says: the request was cancelled, or the
registry cleared, since its registration.
-/

set_option autoImplicit false

namespace AccessStack.McpOperations
open AccessStack.Runs

section Keys

variable {sha256 : String → String}

theorem text_injective {i j : McpRequestId} (h : i.text = j.text) : i = j := by
  have hlist := congrArg String.toList h
  cases i <;> cases j <;> simp only [McpRequestId.text, String.toList_append] at hlist
  · rw [String.toList_injective (List.append_cancel_left hlist)]
  · exact absurd (congrArg List.head? hlist) (by simp)
  · exact absurd (congrArg List.head? hlist) (by simp)
  · rw [String.toList_injective (List.append_cancel_left hlist)]

/-- The last colon ends the scope. -/
theorem key_injective (hinjective : Function.Injective sha256) (hplain : ∀ text, ':' ∉ (sha256 text).toList)
    {scope scope' : String} {i j : McpRequestId}
    (h : operationKey sha256 scope i = operationKey sha256 scope' j) :
    scope = scope' ∧ i = j := by
  have hlist := congrArg (fun key => key.toList.reverse) h
  have hcolon : (":" : String).toList = [':'] := rfl
  simp only [operationKey, String.toList_append, hcolon, List.reverse_append, List.reverse_singleton,
    List.singleton_append] at hlist
  have hnot : ∀ text, ':' ∉ (sha256 text).toList.reverse := fun text hmem =>
    hplain text (List.mem_reverse.mp hmem)
  obtain ⟨hdigest, hscope⟩ := Text.separated (hnot _) (hnot _) hlist
  have htext := hinjective (String.toList_injective (List.reverse_injective hdigest))
  exact ⟨String.toList_injective (List.reverse_injective hscope), text_injective htext⟩

end Keys

section Logs

def Input.strikes (scope : String) (requestId : McpRequestId) : Input → Bool
  | .cancel scope' requestId' _ => scope' = scope && requestId' = requestId
  | .clear => true
  | _ => false

/-- The request has been cancelled between the two places of the log. -/
def Struck (log : List Input) (first : ℕ) (last : Option ℕ) (scope : String)
    (requestId : McpRequestId) : Prop :=
  ∃ (i : ℕ) (input : Input), first ≤ i ∧ (∀ r, last = some r → i < r) ∧ log[i]? = some input ∧
    input.strikes scope requestId = true

variable {log : List Input} {input : Input} {first : ℕ} {last : Option ℕ} {scope : String}
  {requestId : McpRequestId}

theorem struck_append : Struck (log ++ [input]) first last scope requestId ↔
    Struck log first last scope requestId ∨
      first ≤ log.length ∧ (∀ r, last = some r → log.length < r) ∧ input.strikes scope requestId = true := by
  constructor
  · rintro ⟨i, found, hfirst, hlast, hfound, hstrikes⟩
    rw [List.getElem?_append] at hfound
    split_ifs at hfound with hlt
    · exact .inl ⟨i, found, hfirst, hlast, hfound, hstrikes⟩
    · rw [List.getElem?_singleton] at hfound
      split_ifs at hfound with hzero
      have heq : i = log.length := by omega
      cases hfound
      exact .inr ⟨heq ▸ hfirst, heq ▸ hlast, hstrikes⟩
  · rintro (⟨i, found, hfirst, hlast, hfound, hstrikes⟩ | ⟨hfirst, hlast, hstrikes⟩)
    · refine ⟨i, found, hfirst, hlast, ?_, hstrikes⟩
      rw [List.getElem?_append_left (List.getElem?_eq_some_iff.mp hfound).1]
      exact hfound
    · exact ⟨log.length, input, hfirst, hlast, List.getElem?_concat_length, hstrikes⟩

/-- An input that does not concern the request changes nothing. -/
theorem struck_quiet (h : input.strikes scope requestId = false) :
    Struck (log ++ [input]) first last scope requestId ↔ Struck log first last scope requestId := by
  rw [struck_append]
  exact ⟨fun hor => hor.resolve_right fun hnew => absurd (h.symm.trans hnew.2.2) nofun, .inl⟩

/-- Nothing has happened since the end of the log. -/
theorem struck_end : ¬ Struck log log.length last scope requestId := by
  rintro ⟨i, found, hfirst, -, hfound, -⟩
  have hlt := (List.getElem?_eq_some_iff.mp hfound).1
  omega

/-- What has been released is not struck any more. -/
theorem struck_released {r : ℕ} (hr : r ≤ log.length) :
    Struck (log ++ [input]) first (some r) scope requestId ↔ Struck log first (some r) scope requestId := by
  rw [struck_append]
  refine ⟨fun hor => hor.resolve_right fun hnew => ?_, .inl⟩
  have hlt := hnew.2.1 r rfl
  omega

/-- A release ends what counts where the log ends. -/
theorem struck_until : Struck log first (some log.length) scope requestId ↔
    Struck log first none scope requestId := by
  constructor
  · rintro ⟨i, found, hfirst, -, hfound, hstrikes⟩
    refine ⟨i, found, hfirst, ?_, hfound, hstrikes⟩
    intro r hr
    cases hr
  · rintro ⟨i, found, hfirst, -, hfound, hstrikes⟩
    refine ⟨i, found, hfirst, ?_, hfound, hstrikes⟩
    intro r hr
    cases hr
    exact (List.getElem?_eq_some_iff.mp hfound).1

end Logs

section Soundness

variable (sha256 : String → String)

/-- The map holds the open pending requests. -/
structure PendingMapped (pending : String → Option (List (String × ℕ)))
    (pendings : List PendingOperation) : Prop where
  mem : ∀ key lifecycleId registration, (lifecycleId, registration) ∈ (pending key).getD [] ↔
    ∃ p, pendings[registration]? = some p ∧ p.status = .opened ∧
      operationKey sha256 p.cancellationScopeKey p.requestId = key ∧ p.requestLifecycleId = lifecycleId
  kept : ∀ key, pending key ≠ some []
  unique : ∀ (i j : ℕ) (p q : PendingOperation), pendings[i]? = some p → pendings[j]? = some q →
    p.status ≠ .closed → q.status ≠ .closed →
    q.isFor p.cancellationScopeKey p.requestId p.requestLifecycleId = true → i = j

/-- The maps hold the operations that are held. -/
structure ActiveMapped (active : String → Option ℕ) (targets : String → Option (List ℕ))
    (operations : List ActiveOperation) : Prop where
  running : ∀ key token, active key = some token ↔
    ∃ o, operations[token]? = some o ∧ o.held = true ∧ o.key = key
  found : ∀ key token, token ∈ (targets key).getD [] ↔
    ∃ o, operations[token]? = some o ∧ o.held = true ∧
      operationKey sha256 o.cancellationScopeKey o.requestId = key
  kept : ∀ key, targets key ≠ some []

/-- A mark of cancellation says what the log says. -/
structure PendingMarked (log : List Input) (p : PendingOperation) : Prop where
  within : p.registered ≤ log.length
  struck : p.status = .opened →
    (p.cancelled = true ↔ Struck log p.registered none p.cancellationScopeKey p.requestId)

structure ActiveMarked (log : List Input) (o : ActiveOperation) : Prop where
  within : o.registered ≤ log.length
  ended : ∀ r, o.released = some r → r ≤ log.length
  struck : o.aborted = true ↔ Struck log o.registered o.released o.cancellationScopeKey o.requestId
  held : o.held = true → o.released = none
  loose : o.held = false → o.released = none → o.aborted = true

structure Sound (s : State) : Prop where
  pending : PendingMapped sha256 s.pending s.pendings
  active : ActiveMapped sha256 s.active s.cancellationTargets s.operations
  pendings : ∀ p ∈ s.pendings, PendingMarked s.log p
  operations : ∀ o ∈ s.operations, ActiveMarked s.log o

/-- No operation begins for a pending request that a `clear` has dropped. -/
def Kept (s : State) : Input → Prop
  | .begin _ requestId scope (some lifecycleId) =>
    ∀ p ∈ s.pendings, p.isFor scope requestId lifecycleId = true → p.status ≠ .dropped
  | _ => True

instance (s : State) : (input : Input) → Decidable (Kept s input)
  | .begin _ requestId scope (some lifecycleId) =>
    inferInstanceAs
      (Decidable (∀ p ∈ s.pendings, p.isFor scope requestId lifecycleId = true → p.status ≠ .dropped))
  | .begin _ _ _ none => inferInstanceAs (Decidable True)
  | .registerPending _ _ _ => inferInstanceAs (Decidable True)
  | .releasePending _ => inferInstanceAs (Decidable True)
  | .release _ => inferInstanceAs (Decidable True)
  | .cancel _ _ _ => inferInstanceAs (Decidable True)
  | .clear => inferInstanceAs (Decidable True)

end Soundness

section Marks

variable {log : List Input} {input : Input} {p : PendingOperation} {o : ActiveOperation}
  {reason : Option String}

theorem PendingMarked.quiet (h : PendingMarked log p)
    (hinput : input.strikes p.cancellationScopeKey p.requestId = false) :
    PendingMarked (log ++ [input]) p where
  within := by
    rw [List.length_append]
    exact Nat.le_add_right_of_le h.within
  struck := fun hopened => (h.struck hopened).trans (struck_quiet hinput).symm

theorem PendingMarked.shut (h : PendingMarked log p) (hclosed : p.status ≠ .opened) :
    PendingMarked (log ++ [input]) p where
  within := by
    rw [List.length_append]
    exact Nat.le_add_right_of_le h.within
  struck := fun hopened => absurd hopened hclosed

theorem PendingMarked.cancelled (h : PendingMarked log p)
    (hinput : input.strikes p.cancellationScopeKey p.requestId = true) :
    PendingMarked (log ++ [input]) { p with cancelled := true, reason } where
  within := by
    rw [List.length_append]
    exact Nat.le_add_right_of_le h.within
  struck := by
    refine fun _ => ⟨fun _ => struck_append.mpr (.inr ⟨h.within, ?_, hinput⟩), fun _ => rfl⟩
    intro r hr
    cases hr

theorem ActiveMarked.ended_append (h : ActiveMarked log o) (r : ℕ) (hr : o.released = some r) :
    r ≤ (log ++ [input]).length := by
  rw [List.length_append]
  exact Nat.le_add_right_of_le (h.ended r hr)

theorem ActiveMarked.within_append (h : ActiveMarked log o) : o.registered ≤ (log ++ [input]).length := by
  rw [List.length_append]
  exact Nat.le_add_right_of_le h.within

theorem ActiveMarked.quiet (h : ActiveMarked log o)
    (hinput : input.strikes o.cancellationScopeKey o.requestId = false) :
    ActiveMarked (log ++ [input]) o where
  within := h.within_append
  ended := h.ended_append
  struck := h.struck.trans (struck_quiet hinput).symm
  held := h.held
  loose := h.loose

/-- What is not held is not reached by an input any more. -/
theorem ActiveMarked.unheld (h : ActiveMarked log o) (hheld : o.held = false) :
    ActiveMarked (log ++ [input]) o where
  within := h.within_append
  ended := h.ended_append
  struck := by
    cases hreleased : o.released with
    | none =>
      have haborted := h.loose hheld hreleased
      have hstruck := h.struck.mp haborted
      rw [hreleased] at hstruck
      exact ⟨fun _ => struck_append.mpr (.inl hstruck), fun _ => haborted⟩
    | some r =>
      rw [struck_released (h.ended r hreleased), ← hreleased]
      exact h.struck
  held := h.held
  loose := h.loose

theorem ActiveMarked.struck_held (h : ActiveMarked log o) (hheld : o.held = true)
    (hinput : input.strikes o.cancellationScopeKey o.requestId = true) :
    Struck (log ++ [input]) o.registered o.released o.cancellationScopeKey o.requestId := by
  rw [h.held hheld]
  refine struck_append.mpr (.inr ⟨h.within, ?_, hinput⟩)
  intro r hr
  cases hr

/-- Nothing but the mark and its reason changes. -/
theorem abort_cases (o : ActiveOperation) (reason : Option String) :
    ∃ reason', o.abort reason = { o with aborted := true, reason := reason' } := by
  unfold ActiveOperation.abort
  split_ifs with haborted
  · refine ⟨o.reason, ?_⟩
    rw [← haborted]
  · exact ⟨reason, rfl⟩

theorem ActiveMarked.abort (h : ActiveMarked log o) (hheld : o.held = true)
    (hinput : input.strikes o.cancellationScopeKey o.requestId = true) :
    ActiveMarked (log ++ [input]) (o.abort reason) := by
  have hstruck := h.struck_held hheld hinput
  obtain ⟨reason', heq⟩ := abort_cases o reason
  rw [heq]
  exact ⟨h.within_append, h.ended_append, ⟨fun _ => hstruck, fun _ => rfl⟩, h.held, fun _ _ => rfl⟩

theorem ActiveMarked.clear (h : ActiveMarked log o) (hheld : o.held = true)
    (hinput : input.strikes o.cancellationScopeKey o.requestId = true) :
    ActiveMarked (log ++ [input]) { o.abort reason with held := false } := by
  have hstruck := h.struck_held hheld hinput
  obtain ⟨reason', heq⟩ := abort_cases o reason
  rw [heq]
  exact ⟨h.within_append, h.ended_append, ⟨fun _ => hstruck, fun _ => rfl⟩, fun hfalse => absurd hfalse nofun,
    fun _ _ => rfl⟩

theorem ActiveMarked.release (h : ActiveMarked log o)
    (hinput : input.strikes o.cancellationScopeKey o.requestId = false) :
    ActiveMarked (log ++ [input])
    { o with held := false, released := some (o.released.getD log.length) } where
  within := h.within_append
  ended := by
    intro r hr
    cases hreleased : o.released with
    | none =>
      rw [hreleased] at hr
      cases hr
      rw [List.length_append]
      exact Nat.le_add_right _ _
    | some r' =>
      rw [hreleased] at hr
      cases hr
      exact h.ended_append _ hreleased
  struck := by
    rw [struck_quiet hinput]
    cases hreleased : o.released with
    | none =>
      rw [Option.getD_none, struck_until, ← hreleased]
      exact h.struck
    | some r =>
      rw [Option.getD_some, ← hreleased]
      exact h.struck
  held := fun hfalse => absurd hfalse nofun
  loose := fun _ hnone => absurd hnone nofun

end Marks

section Maps

variable {sha256 : String → String} {pending : String → Option (List (String × ℕ))}
  {pendings : List PendingOperation}
  {scope lifecycleId : String} {requestId : McpRequestId} {p : PendingOperation} {i : ℕ}

theorem getD_unlessEmpty {α : Type} (entries : List α) : (unlessEmpty entries).getD [] = entries := by
  cases entries <;> rfl

theorem unlessEmpty_ne {α : Type} (entries : List α) : unlessEmpty entries ≠ some [] := by
  cases entries with
  | nil => exact nofun
  | cons x xs => exact fun h => absurd (Option.some.inj h) nofun

theorem isFor_iff : p.isFor scope requestId lifecycleId = true ↔
    p.cancellationScopeKey = scope ∧ p.requestId = requestId ∧ p.requestLifecycleId = lifecycleId := by
  simp [PendingOperation.isFor, and_assoc]

theorem replace_opened (h : (p.replace scope requestId lifecycleId).status ≠ .closed) :
    p.replace scope requestId lifecycleId = p ∧ p.isFor scope requestId lifecycleId = false := by
  unfold PendingOperation.replace at h ⊢
  split_ifs at h ⊢ with hfor
  · exact absurd rfl h
  · exact ⟨rfl, by simpa using hfor⟩

/-- A registration by its number is an old one, replaced or not, or the new one. -/
theorem registered_some {new q : PendingOperation}
    (h : ((pendings.map fun p => p.replace scope requestId lifecycleId) ++ [new])[i]? = some q) :
    (∃ p, pendings[i]? = some p ∧ q = p.replace scope requestId lifecycleId) ∨ i = pendings.length ∧
    q = new := by
  rw [List.getElem?_append] at h
  split_ifs at h with hlt
  · rw [List.getElem?_map] at h
    obtain ⟨p, hp, hq⟩ := Option.map_eq_some_iff.mp h
    exact .inl ⟨p, hp, hq.symm⟩
  · rw [List.getElem?_singleton] at h
    split_ifs at h with hzero
    rw [List.length_map] at hlt hzero
    exact .inr ⟨by omega, (Option.some.inj h).symm⟩

theorem PendingMapped.register (hkey : ∀ {scope scope' : String} {i j : McpRequestId},
      operationKey sha256 scope i = operationKey sha256 scope' j → scope = scope' ∧ i = j)
    (h : PendingMapped sha256 pending pendings) (scope : String) (requestId : McpRequestId)
    (lifecycleId : String) (first : ℕ) :
    PendingMapped sha256
      (Function.update pending (operationKey sha256 scope requestId) <| some <|
        ((pending (operationKey sha256 scope requestId)).getD []).filter (·.1 ≠ lifecycleId) ++
          [(lifecycleId, pendings.length)])
      ((pendings.map fun p => p.replace scope requestId lifecycleId) ++
        [⟨scope, requestId, lifecycleId, false, none, first, .opened⟩]) where
  mem := by
    intro key lifecycleId' registration
    have hold : (∃ q, ((pendings.map fun p => p.replace scope requestId lifecycleId) ++
          [(⟨scope, requestId, lifecycleId, false, none, first, .opened⟩ :
            PendingOperation)])[registration]? = some q ∧
          q.status = .opened ∧ operationKey sha256 q.cancellationScopeKey q.requestId = key ∧
          q.requestLifecycleId = lifecycleId') ↔
        ((lifecycleId', registration) ∈ (pending key).getD [] ∧
            ¬ (key = operationKey sha256 scope requestId ∧ lifecycleId' = lifecycleId)) ∨
          registration = pendings.length ∧ key = operationKey sha256 scope requestId ∧
              lifecycleId' = lifecycleId := by
      constructor
      · rintro ⟨q, hq, hopened, hqkey, hqid⟩
        rcases registered_some hq with ⟨p, hp, rfl⟩ | ⟨rfl, rfl⟩
        · have hne : (p.replace scope requestId lifecycleId).status ≠ .closed := by rw [hopened]; exact nofun
          obtain ⟨hsame, hfor⟩ := replace_opened hne
          rw [hsame] at hopened hqkey hqid
          refine .inl ⟨(h.mem key lifecycleId' registration).mpr ⟨p, hp, hopened, hqkey, hqid⟩, ?_⟩
          rintro ⟨rfl, rfl⟩
          obtain ⟨hscope, hrequest⟩ := hkey hqkey
          exact absurd (hfor.symm.trans (isFor_iff.mpr ⟨hscope, hrequest, hqid⟩)) nofun
        · exact .inr ⟨rfl, hqkey.symm, hqid.symm⟩
      · rintro (⟨hmem, hnot⟩ | ⟨rfl, rfl, hid⟩)
        · obtain ⟨p, hp, hopened, hpkey, hpid⟩ := (h.mem key lifecycleId' registration).mp hmem
          have hfor : ¬ p.isFor scope requestId lifecycleId = true := by
            intro hfor
            obtain ⟨rfl, rfl, rfl⟩ := isFor_iff.mp hfor
            exact hnot ⟨hpkey.symm, hpid.symm⟩
          have hsame : p.replace scope requestId lifecycleId = p := if_neg hfor
          refine ⟨p, ?_, hopened, hpkey, hpid⟩
          rw [List.getElem?_append_left (by rw [List.length_map]; exact (List.getElem?_eq_some_iff.mp hp).1),
            List.getElem?_map, hp, Option.map_some, hsame]
        · refine ⟨⟨scope, requestId, lifecycleId, false, none, first, .opened⟩, ?_, rfl, rfl, hid.symm⟩
          rw [List.getElem?_append_right (by simp)]
          simp
    rw [hold]
    by_cases heq : key = operationKey sha256 scope requestId
    · subst heq
      rw [Function.update_self, Option.getD_some, List.mem_append, List.mem_filter,
        List.mem_singleton, Prod.mk.injEq]
      simp [and_comm]
    · rw [Function.update_of_ne heq]
      simp [heq]
  kept := by
    intro key
    by_cases heq : key = operationKey sha256 scope requestId
    · subst heq
      rw [Function.update_self]
      simp
    · rw [Function.update_of_ne heq]
      exact h.kept key
  unique := by
    intro i j p q hp hq hp_open hq_open hfor
    rcases registered_some hp with ⟨p', hp', rfl⟩ | ⟨rfl, rfl⟩ <;>
      rcases registered_some hq with ⟨q', hq', rfl⟩ | ⟨rfl, rfl⟩
    · obtain ⟨hp_same, -⟩ := replace_opened hp_open
      obtain ⟨hq_same, -⟩ := replace_opened hq_open
      rw [hp_same] at hp_open hfor
      rw [hq_same] at hq_open hfor
      exact h.unique i j p' q' hp' hq' hp_open hq_open hfor
    · obtain ⟨hp_same, hnot⟩ := replace_opened hp_open
      rw [hp_same] at hfor
      obtain ⟨hscope, hrequest, hid⟩ := isFor_iff.mp hfor
      exact absurd (hnot.symm.trans (isFor_iff.mpr ⟨hscope.symm, hrequest.symm, hid.symm⟩)) nofun
    · obtain ⟨hq_same, hnot⟩ := replace_opened hq_open
      rw [hq_same] at hfor
      exact absurd (hnot.symm.trans hfor) nofun
    · rfl

theorem mem_of_lookup {entries : List (String × ℕ)} (h : entries.lookup lifecycleId = some i) :
    (lifecycleId, i) ∈ entries := by
  induction entries with
  | nil => exact absurd h nofun
  | cons entry rest ih =>
    rw [List.lookup_cons] at h
    cases heq : lifecycleId == entry.1 with
    | true =>
      rw [heq] at h
      rw [← Option.some.inj h, eq_of_beq heq]
      exact List.mem_cons_self
    | false =>
      rw [heq] at h
      exact List.mem_cons_of_mem _ (ih h)

theorem lookup_of_mem {entries : List (String × ℕ)} (h : (lifecycleId, i) ∈ entries) :
    ∃ j, entries.lookup lifecycleId = some j := by
  induction entries with
  | nil => exact absurd h List.not_mem_nil
  | cons entry rest ih =>
    rw [List.lookup_cons]
    cases heq : lifecycleId == entry.1 with
    | true => exact ⟨_, rfl⟩
    | false =>
      rcases List.mem_cons.mp h with rfl | hrest
      · exact absurd (heq.symm.trans BEq.rfl) nofun
      · exact ih hrest

/-- A name leads to its open registration and to no other. -/
theorem PendingMapped.lookup_iff
    (hkey : ∀ {scope scope' : String} {i j : McpRequestId},
      operationKey sha256 scope i = operationKey sha256 scope' j → scope = scope' ∧ i = j)
    (h : PendingMapped sha256 pending pendings) :
    ((pending (operationKey sha256 scope requestId)).getD []).lookup lifecycleId = some i ↔
      ∃ p, pendings[i]? = some p ∧ p.status = .opened ∧ p.isFor scope requestId lifecycleId = true := by
  have hmem : ∀ j, (lifecycleId, j) ∈ (pending (operationKey sha256 scope requestId)).getD [] ↔
      ∃ p, pendings[j]? = some p ∧ p.status = .opened ∧ p.isFor scope requestId lifecycleId = true := by
    intro j
    rw [h.mem]
    constructor
    · rintro ⟨p, hp, hopened, hpkey, hpid⟩
      obtain ⟨hscope, hrequest⟩ := hkey hpkey
      exact ⟨p, hp, hopened, isFor_iff.mpr ⟨hscope, hrequest, hpid⟩⟩
    · rintro ⟨p, hp, hopened, hfor⟩
      obtain ⟨rfl, rfl, rfl⟩ := isFor_iff.mp hfor
      exact ⟨p, hp, hopened, rfl, rfl⟩
  constructor
  · exact fun hlookup => (hmem i).mp (mem_of_lookup hlookup)
  · rintro ⟨p, hp, hopened, hfor⟩
    obtain ⟨j, hlookup⟩ := lookup_of_mem ((hmem i).mpr ⟨p, hp, hopened, hfor⟩)
    obtain ⟨q, hq, hq_opened, hq_for⟩ := (hmem j).mp (mem_of_lookup hlookup)
    obtain ⟨rfl, rfl, rfl⟩ := isFor_iff.mp hfor
    have hsame : i = j :=
      h.unique i j p q hp hq (by rw [hopened]; exact nofun) (by rw [hq_opened]; exact nofun) hq_for
    rw [hlookup, hsame]

/-- A registration is closed, and its entry deleted when it was open. -/
theorem PendingMapped.close
    (hkey : ∀ {scope scope' : String} {i j : McpRequestId},
      operationKey sha256 scope i = operationKey sha256 scope' j → scope = scope' ∧ i = j)
    (h : PendingMapped sha256 pending pendings) (hp : pendings[i]? = some p)
    {pending' : String → Option (List (String × ℕ))} (hpending : pending' = if p.status = .opened then
      Function.update pending (operationKey sha256 p.cancellationScopeKey p.requestId)
        (unlessEmpty (((pending (operationKey sha256 p.cancellationScopeKey p.requestId)).getD []).filter
          (·.1 ≠ p.requestLifecycleId))) else pending) :
    PendingMapped sha256 pending' (pendings.set i { p with status := .closed }) where
  mem := by
    intro key lifecycleId registration
    have hset : (∃ q, (pendings.set i { p with status := .closed })[registration]? = some q ∧
      q.status = .opened ∧
          operationKey sha256 q.cancellationScopeKey q.requestId = key ∧ q.requestLifecycleId = lifecycleId) ↔
        registration ≠ i ∧ (lifecycleId, registration) ∈ (pending key).getD [] := by
      rw [h.mem]
      constructor
      · rintro ⟨q, hq, hopened, hrest⟩
        rw [List.getElem?_set] at hq
        split_ifs at hq with heq
        · cases hq
          exact absurd hopened nofun
        · exact ⟨Ne.symm heq, q, hq, hopened, hrest⟩
      · rintro ⟨hne, q, hq, hopened, hrest⟩
        refine ⟨q, ?_, hopened, hrest⟩
        rw [List.getElem?_set_ne (Ne.symm hne)]
        exact hq
    rw [hset, hpending]
    split_ifs with hopened
    · have hopen : p.status ≠ .closed := by rw [hopened]; exact nofun
      by_cases heq : key = operationKey sha256 p.cancellationScopeKey p.requestId
      · subst heq
        rw [Function.update_self, getD_unlessEmpty, List.mem_filter]
        constructor
        · rintro ⟨hmem, hne⟩
          refine ⟨?_, hmem⟩
          rintro rfl
          obtain ⟨q, hq, -, -, hqid⟩ := (h.mem _ _ _).mp hmem
          cases hp.symm.trans hq
          simp [hqid] at hne
        · rintro ⟨hne, hmem⟩
          refine ⟨hmem, ?_⟩
          obtain ⟨q, hq, hq_opened, hqkey, hqid⟩ := (h.mem _ _ _).mp hmem
          obtain ⟨hscope, hrequest⟩ := hkey hqkey
          have hq_open : q.status ≠ .closed := by rw [hq_opened]; exact nofun
          rw [decide_eq_true_iff]
          intro hsame
          have hfor := isFor_iff.mpr ⟨hscope, hrequest, hqid.trans hsame⟩
          exact hne (h.unique i registration p q hp hq hopen hq_open hfor).symm
      · rw [Function.update_of_ne heq]
        refine ⟨fun hmem => ⟨?_, hmem⟩, And.right⟩
        rintro rfl
        obtain ⟨q, hq, -, hqkey, -⟩ := (h.mem _ _ _).mp hmem
        cases hp.symm.trans hq
        exact heq hqkey.symm
    · refine ⟨fun hmem => ⟨?_, hmem⟩, And.right⟩
      rintro rfl
      obtain ⟨q, hq, hq_opened, -, -⟩ := (h.mem _ _ _).mp hmem
      cases hp.symm.trans hq
      exact hopened hq_opened
  kept := by
    intro key
    rw [hpending]
    split_ifs
    · by_cases heq : key = operationKey sha256 p.cancellationScopeKey p.requestId
      · subst heq
        rw [Function.update_self]
        exact unlessEmpty_ne _
      · rw [Function.update_of_ne heq]
        exact h.kept key
    · exact h.kept key
  unique := by
    intro a b q r hq hr hq_open hr_open hfor
    rw [List.getElem?_set] at hq hr
    split_ifs at hq hr
    · cases hq
      exact absurd rfl hq_open
    · cases hq
      exact absurd rfl hq_open
    · cases hr
      exact absurd rfl hr_open
    · exact h.unique a b q r hq hr hq_open hr_open hfor

/-- Marks of cancellation are not what the map is about. -/
theorem PendingMapped.mark (h : PendingMapped sha256 pending pendings)
    {f : ℕ → PendingOperation → PendingOperation}
    (hf : ∀ i p, (f i p).status = p.status ∧ (f i p).cancellationScopeKey = p.cancellationScopeKey ∧
      (f i p).requestId = p.requestId ∧ (f i p).requestLifecycleId = p.requestLifecycleId) :
    PendingMapped sha256 pending (pendings.mapIdx f) where
  mem := by
    intro key lifecycleId registration
    rw [h.mem, List.getElem?_mapIdx]
    cases hp : pendings[registration]? with
    | none => simp
    | some p =>
      obtain ⟨hstatus, hscope, hrequest, hid⟩ := hf registration p
      simp [hstatus, hscope, hrequest, hid]
  kept := h.kept
  unique := by
    intro i j p q hp hq hp_open hq_open hfor
    rw [List.getElem?_mapIdx] at hp hq
    obtain ⟨p', hp', rfl⟩ := Option.map_eq_some_iff.mp hp
    obtain ⟨q', hq', rfl⟩ := Option.map_eq_some_iff.mp hq
    obtain ⟨hp_status, hp_scope, hp_request, hp_id⟩ := hf i p'
    obtain ⟨hq_status, hq_scope, hq_request, hq_id⟩ := hf j q'
    rw [isFor_iff, hp_scope, hp_request, hp_id, hq_scope, hq_request, hq_id] at hfor
    exact h.unique i j p' q' hp' hq' (hp_status ▸ hp_open) (hq_status ▸ hq_open) (isFor_iff.mpr hfor)

theorem PendingMapped.clear (h : PendingMapped sha256 pending pendings) :
    PendingMapped sha256 (fun _ => none) (pendings.map PendingOperation.drop) where
  mem := by
    intro key lifecycleId registration
    refine ⟨fun hmem => absurd hmem List.not_mem_nil, ?_⟩
    rintro ⟨q, hq, hopened, -, -⟩
    rw [List.getElem?_map] at hq
    obtain ⟨p, -, rfl⟩ := Option.map_eq_some_iff.mp hq
    unfold PendingOperation.drop at hopened
    split_ifs at hopened with hstatus
    exact absurd hopened hstatus
  kept := nofun
  unique := by
    intro i j p q hp hq hp_open hq_open hfor
    rw [List.getElem?_map] at hp hq
    obtain ⟨p', hp', rfl⟩ := Option.map_eq_some_iff.mp hp
    obtain ⟨q', hq', rfl⟩ := Option.map_eq_some_iff.mp hq
    have hdrop : ∀ r : PendingOperation, (r.drop.status ≠ .closed → r.status ≠ .closed) ∧
        r.drop.cancellationScopeKey = r.cancellationScopeKey ∧ r.drop.requestId = r.requestId ∧
        r.drop.requestLifecycleId = r.requestLifecycleId := by
      intro r
      unfold PendingOperation.drop
      split_ifs with hstatus
      · exact ⟨fun _ => by rw [hstatus]; exact nofun, rfl, rfl, rfl⟩
      · exact ⟨id, rfl, rfl, rfl⟩
    obtain ⟨hp_status, hp_scope, hp_request, hp_id⟩ := hdrop p'
    obtain ⟨hq_status, hq_scope, hq_request, hq_id⟩ := hdrop q'
    rw [isFor_iff, hp_scope, hp_request, hp_id, hq_scope, hq_request, hq_id] at hfor
    exact h.unique i j p' q' hp' hq' (hp_status hp_open) (hq_status hq_open) (isFor_iff.mpr hfor)

end Maps

section Operations

variable {sha256 : String → String} {active : String → Option ℕ} {targets : String → Option (List ℕ)}
  {operations : List ActiveOperation} {o : ActiveOperation} {token : ℕ} {key : String}

theorem appended_some {new o' : ActiveOperation} {n : ℕ} (h : (operations ++ [new])[n]? = some o') :
    operations[n]? = some o' ∨ n = operations.length ∧ o' = new := by
  rw [List.getElem?_append] at h
  split_ifs at h with hlt
  · exact .inl h
  · rw [List.getElem?_singleton] at h
    split_ifs at h with hzero
    exact .inr ⟨by omega, (Option.some.inj h).symm⟩

theorem ActiveMapped.begin (h : ActiveMapped sha256 active targets operations) (hfree : active o.key = none)
    (hheld : o.held = true) (hkey : operationKey sha256 o.cancellationScopeKey o.requestId = key) :
    ActiveMapped sha256 (Function.update active o.key (some operations.length))
      (Function.update targets key (some ((targets key).getD [] ++ [operations.length])))
      (operations ++ [o]) where
  running := by
    intro other token
    have hold : ∀ (n : ℕ) (o' : ActiveOperation), operations[n]? = some o' →
        (operations ++ [o])[n]? = some o' := by
      intro n o' hn
      rw [List.getElem?_append_left (List.getElem?_eq_some_iff.mp hn).1]
      exact hn
    by_cases heq : other = o.key
    · subst heq
      rw [Function.update_self, Option.some_inj]
      constructor
      · rintro rfl
        exact ⟨o, List.getElem?_concat_length, hheld, rfl⟩
      · rintro ⟨o', ho', hheld', hsame⟩
        rcases appended_some ho' with hprevious | ⟨rfl, -⟩
        · have hactive := (h.running o.key token).mpr ⟨o', hprevious, hheld', hsame⟩
          exact absurd (hfree.symm.trans hactive) nofun
        · rfl
    · rw [Function.update_of_ne heq, h.running]
      constructor
      · rintro ⟨o', ho', hrest⟩
        exact ⟨o', hold token o' ho', hrest⟩
      · rintro ⟨o', ho', hheld', hsame⟩
        rcases appended_some ho' with hprevious | ⟨-, rfl⟩
        · exact ⟨o', hprevious, hheld', hsame⟩
        · exact absurd hsame.symm heq
  found := by
    intro other token
    have hnew : (∃ o', (operations ++ [o])[token]? = some o' ∧ o'.held = true ∧
          operationKey sha256 o'.cancellationScopeKey o'.requestId = other) ↔
        token ∈ (targets other).getD [] ∨ token = operations.length ∧ other = key := by
      rw [h.found]
      constructor
      · rintro ⟨o', ho', hheld', hsame⟩
        rcases appended_some ho' with hprevious | ⟨rfl, rfl⟩
        · exact .inl ⟨o', hprevious, hheld', hsame⟩
        · exact .inr ⟨rfl, hsame.symm.trans hkey⟩
      · rintro (⟨o', ho', hrest⟩ | ⟨rfl, rfl⟩)
        · refine ⟨o', ?_, hrest⟩
          rw [List.getElem?_append_left (List.getElem?_eq_some_iff.mp ho').1]
          exact ho'
        · exact ⟨o, List.getElem?_concat_length, hheld, hkey⟩
    rw [hnew]
    by_cases heq : other = key
    · subst heq
      rw [Function.update_self, Option.getD_some, List.mem_append, List.mem_singleton]
      simp
    · rw [Function.update_of_ne heq]
      simp [heq]
  kept := by
    intro other
    by_cases heq : other = key
    · subst heq
      rw [Function.update_self]
      simp
    · rw [Function.update_of_ne heq]
      exact h.kept other

/-- An operation that is let go is not held; nothing happens to the others. -/
theorem set_some (ho : operations[token]? = some o) {o' : ActiveOperation} (hheld' : o'.held = false) {n : ℕ}
    {P : ActiveOperation → Prop} :
    (∃ q, (operations.set token o')[n]? = some q ∧ q.held = true ∧ P q) ↔
      n ≠ token ∧ ∃ q, operations[n]? = some q ∧ q.held = true ∧ P q := by
  have hlt := (List.getElem?_eq_some_iff.mp ho).1
  by_cases heq : token = n
  · subst heq
    rw [List.getElem?_set_self hlt]
    constructor
    · rintro ⟨q, hq, hheld, -⟩
      cases hq
      exact absurd (hheld.symm.trans hheld') nofun
    · exact fun h => absurd rfl h.1
  · rw [List.getElem?_set_ne heq]
    exact ⟨fun h => ⟨Ne.symm heq, h⟩, And.right⟩

theorem ActiveMapped.unhold (h : ActiveMapped sha256 active targets operations)
    (ho : operations[token]? = some o) (hheld : o.held = false) {o' : ActiveOperation}
    (hheld' : o'.held = false) :
    ActiveMapped sha256 active targets (operations.set token o') where
  running := by
    intro other n
    rw [set_some ho hheld', h.running]
    refine ⟨fun hrunning => ⟨?_, hrunning⟩, And.right⟩
    rintro rfl
    obtain ⟨q, hq, hq_held, -⟩ := hrunning
    cases ho.symm.trans hq
    exact absurd (hheld.symm.trans hq_held) nofun
  found := by
    intro other n
    rw [set_some ho hheld', h.found]
    refine ⟨fun hfound => ⟨?_, hfound⟩, And.right⟩
    rintro rfl
    obtain ⟨q, hq, hq_held, -⟩ := hfound
    cases ho.symm.trans hq
    exact absurd (hheld.symm.trans hq_held) nofun
  kept := h.kept

theorem ActiveMapped.release (h : ActiveMapped sha256 active targets operations)
    (ho : operations[token]? = some o) (hheld : o.held = true)
    (hkey : operationKey sha256 o.cancellationScopeKey o.requestId = key)
    {o' : ActiveOperation} (hheld' : o'.held = false) :
    ActiveMapped sha256 (Function.update active o.key none)
      (Function.update targets key (unlessEmpty (((targets key).getD []).filter (· ≠ token))))
      (operations.set token o') where
  running := by
    intro other n
    rw [set_some ho hheld', ← h.running]
    have hactive := (h.running o.key token).mpr ⟨o, ho, hheld, rfl⟩
    by_cases heq : other = o.key
    · subst heq
      rw [Function.update_self, hactive]
      simp [eq_comm]
    · rw [Function.update_of_ne heq]
      refine ⟨fun hrunning => ⟨?_, hrunning⟩, And.right⟩
      rintro rfl
      obtain ⟨q, hq, -, hq_key⟩ := (h.running other n).mp hrunning
      cases ho.symm.trans hq
      exact heq hq_key.symm
  found := by
    intro other n
    rw [set_some ho hheld', ← h.found]
    by_cases heq : other = key
    · subst heq
      rw [Function.update_self, getD_unlessEmpty, List.mem_filter, decide_eq_true_iff]
      exact and_comm
    · rw [Function.update_of_ne heq]
      refine ⟨fun hfound => ⟨?_, hfound⟩, And.right⟩
      rintro rfl
      obtain ⟨q, hq, -, hq_key⟩ := (h.found other n).mp hfound
      cases ho.symm.trans hq
      exact heq (hq_key.symm.trans hkey)
  kept := by
    intro other
    by_cases heq : other = key
    · subst heq
      rw [Function.update_self]
      exact unlessEmpty_ne _
    · rw [Function.update_of_ne heq]
      exact h.kept other

theorem ActiveMapped.mark (h : ActiveMapped sha256 active targets operations)
    {f : ℕ → ActiveOperation → ActiveOperation} (hf : ∀ n o, (f n o).held = o.held ∧ (f n o).key = o.key ∧
      (f n o).cancellationScopeKey = o.cancellationScopeKey ∧ (f n o).requestId = o.requestId) :
    ActiveMapped sha256 active targets (operations.mapIdx f) where
  running := by
    intro key token
    rw [h.running, List.getElem?_mapIdx]
    cases ho : operations[token]? with
    | none => simp
    | some o =>
      obtain ⟨hheld, hkey, -, -⟩ := hf token o
      simp [hheld, hkey]
  found := by
    intro key token
    rw [h.found, List.getElem?_mapIdx]
    cases ho : operations[token]? with
    | none => simp
    | some o =>
      obtain ⟨hheld, -, hscope, hrequest⟩ := hf token o
      simp [hheld, hscope, hrequest]
  kept := h.kept

/-- Every operation that is held is among those that a `clear` goes through. -/
theorem ActiveMapped.clear (h : ActiveMapped sha256 active targets operations) (reason : Option String) :
    ActiveMapped sha256 (fun _ => none) (fun _ => none) (operations.mapIdx fun token o =>
      if active o.key = some token then { o.abort reason with held := false } else o) := by
  have hnone : ∀ (n : ℕ) (o' : ActiveOperation), (operations.mapIdx fun token o =>
      if active o.key = some token then { o.abort reason with held := false } else o)[n]? = some o' →
      o'.held = false := by
    intro n o' ho'
    rw [List.getElem?_mapIdx] at ho'
    obtain ⟨o, ho, rfl⟩ := Option.map_eq_some_iff.mp ho'
    split_ifs with hactive
    · rfl
    · cases hheld : o.held with
      | false => rfl
      | true => exact absurd ((h.running o.key n).mpr ⟨o, ho, hheld, rfl⟩) hactive
  refine ⟨fun key token => ⟨nofun, ?_⟩, fun key token => ⟨nofun, ?_⟩, fun _ => nofun⟩
  · rintro ⟨o', ho', hheld, -⟩
    exact absurd ((hnone token o' ho').symm.trans hheld) nofun
  · rintro ⟨o', ho', hheld, -⟩
    exact absurd ((hnone token o' ho').symm.trans hheld) nofun

end Operations

end AccessStack.McpOperations
