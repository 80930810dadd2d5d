import AccessStack.Receipts.Lifecycle

/-!
# The laws of the receipts in memory

For every sequence of calls on any mix of identities: how the receipt of a
key moves, which reservation may execute, what is replayed, and which calls
are refused. Identities are compared as the schema leaves them, with the
space around their texts removed.
-/

set_option autoImplicit false

namespace AccessStack.Receipts
open AccessStack.Text AccessStack.Rows AccessStack.Effect

variable {ν : Type}

@[simp] theorem set_self (key : String) (r : MutationReceipt ν) (m : ReceiptMap ν) :
    ReceiptMap.set key r m key = some r := by
  simp [ReceiptMap.set]

theorem set_other {key other : String} (r : MutationReceipt ν) (m : ReceiptMap ν)
    (h : other ≠ key) : ReceiptMap.set key r m other = m other := by
  simp [ReceiptMap.set, h]

variable [Zero ν]

section Calls

/-- Every receipt is kept and stands under its own key. -/
def Holding (m : ReceiptMap ν) : Prop :=
  ∀ key r, m key = some r → Kept r ∧ r.identity.idempotencyKey = key

theorem Holding.kept {m : ReceiptMap ν} (h : Holding m) (key : String) : ∀ r ∈ m key, Kept r := by
  intro r hr
  exact (h key r hr).1

/-- What a call answers and leaves behind. -/
inductive Outcome (m : ReceiptMap ν) : Except ReceiptError (Answer ν) → ReceiptMap ν → Prop
  | failed (e : ReceiptError) : Outcome m (.error e) m
  | read (answer : Answer ν) : Outcome m (.ok answer) m
  | moved (answer : Answer ν) {key : String} {r : MutationReceipt ν} (hmoved : Moved (m key) (some r))
    (hkept : Kept r) (hkey : r.identity.idempotencyKey = key) :
    Outcome m (.ok answer) (ReceiptMap.set key r m)

theorem mark_refused (transition : Option (MutationReceipt ν) → MutationReceiptIdentity →
      Except ReceiptError (MutationReceipt ν)) {identity : MutationReceiptIdentity} {e : ReceiptError}
    (h : parseIdentity identity = .error e) (m : ReceiptMap ν) :
    InMemory.mark transition identity m = (.error e, m) := by
  simp [InMemory.mark, bind, h]

theorem mark_parsed (transition : Option (MutationReceipt ν) → MutationReceiptIdentity →
      Except ReceiptError (MutationReceipt ν)) {identity p : MutationReceiptIdentity}
    (h : parseIdentity identity = .ok p) (m : ReceiptMap ν) :
    InMemory.mark transition identity m =
      match transition (m p.idempotencyKey) p with
      | .error e => (.error e, m)
      | .ok r => (.ok (.receipt (cloneReceipt r)),
          ReceiptMap.set p.idempotencyKey (cloneReceipt r) m) := by
  simp only [InMemory.mark, bind, lift_apply, h, look_apply]
  cases transition (m p.idempotencyKey) p with
  | error e => rfl
  | ok r => rfl

/-- A method that marks receipts as the life of a receipt allows. -/
def Lawful (transition : Option (MutationReceipt ν) → MutationReceiptIdentity →
    Except ReceiptError (MutationReceipt ν)) : Prop :=
  ∀ existing p r', (∀ r ∈ existing, Kept r) → parseIdentity p = .ok p →
    transition existing p = .ok r' → Marks existing p r'

theorem executing_lawful : Lawful (markMutationReceiptExecuting (ν := ν)) := by
  intro existing p r' hkept hp h
  exact executing_marks hkept hp h

theorem reconciliation_lawful : Lawful (markMutationReceiptReconciliationRequired (ν := ν)) := by
  intro existing p r' hkept hp h
  exact reconciliation_marks hkept hp h

theorem completed_lawful (result : Value ν) : Lawful (markMutationReceiptCompleted result) := by
  intro existing p r' hkept hp h
  exact completed_marks hkept hp h

theorem mark_outcome {transition : Option (MutationReceipt ν) → MutationReceiptIdentity →
    Except ReceiptError (MutationReceipt ν)} (hlawful : Lawful transition)
    {m : ReceiptMap ν} (hm : Holding m) (identity : MutationReceiptIdentity) :
    Outcome m (InMemory.mark transition identity m).1 (InMemory.mark transition identity m).2 := by
  cases hp : parseIdentity identity with
  | error e =>
    rw [mark_refused transition hp]
    exact .failed e
  | ok p =>
    rw [mark_parsed transition hp]
    cases ht : transition (m p.idempotencyKey) p with
    | error e => exact .failed e
    | ok r =>
      have h := hlawful _ p r (hm.kept p.idempotencyKey) (parseIdentity_parsed hp) ht
      obtain ⟨_, _, _, hid⟩ := h.identities
      refine .moved _ h.moved h.kept ?_
      show r.identity.idempotencyKey = p.idempotencyKey
      rw [hid]

theorem reserve_refused {identity : MutationReceiptIdentity} {e : ReceiptError}
    (h : parseIdentity identity = .error e) (m : ReceiptMap ν) :
    InMemory.reserve identity m = (.error e, m) := by
  simp [InMemory.reserve, bind, h]

theorem reserve_first {identity p : MutationReceiptIdentity} (h : parseIdentity identity = .ok p)
    {m : ReceiptMap ν} (hm : m p.idempotencyKey = none) :
    InMemory.reserve identity m =
      (.ok (.reservation ⟨.execute, ⟨p, .reserved, none⟩⟩),
        ReceiptMap.set p.idempotencyKey ⟨p, .reserved, none⟩ m) := by
  have hagain := parseIdentity_parsed h
  simp only [InMemory.reserve, reserveMutationReceipt, bind, lift_apply, h, look_apply, hm, hagain]
  rfl

theorem reserve_again {identity p : MutationReceiptIdentity} (h : parseIdentity identity = .ok p)
    {m : ReceiptMap ν} {r : MutationReceipt ν} (hr : m p.idempotencyKey = some r) (hkept : Kept r) :
    InMemory.reserve identity m =
      (if r.identity = p then
        .ok (.reservation ⟨if r.state = .completed then .replayCompleted else .reconciliationRequired, r⟩)
      else .error conflict, m) := by
  have hagain := parseIdentity_parsed h
  have hclone := hkept.clone
  simp only [InMemory.reserve, reserveMutationReceipt, bind, lift_apply, h, look_apply, hr, hagain,
    hkept.parse, Except.bind, assertSameIdentity]
  by_cases hsame : r.identity = p
  · by_cases hstate : r.state = .completed
    · simp [hsame, hstate, hclone, pure, Except.pure]
    · simp [hsame, hstate, hclone, pure, Except.pure]
  · simp [hsame, conflict]

theorem perform_outcome {m : ReceiptMap ν} (hm : Holding m) (call : Call ν) :
    Outcome m (InMemory.perform call m).1 (InMemory.perform call m).2 := by
  cases call with
  | markExecuting identity => exact mark_outcome executing_lawful hm identity
  | markReconciliationRequired identity => exact mark_outcome reconciliation_lawful hm identity
  | markCompleted identity result => exact mark_outcome (completed_lawful result) hm identity
  | get key => exact .read _
  | reserve identity =>
    show Outcome m (InMemory.reserve identity m).1 (InMemory.reserve identity m).2
    cases hp : parseIdentity identity with
    | error e =>
      rw [reserve_refused hp]
      exact .failed e
    | ok p =>
      cases hr : m p.idempotencyKey with
      | none =>
        rw [reserve_first hp hr]
        refine .moved _ ?_ (.unfinished (parseIdentity_parsed hp) (by simp)) rfl
        rw [hr]
        exact .reserved p
      | some r =>
        rw [reserve_again hp hr (hm _ r hr).1]
        split
        · exact .read _
        · exact .failed conflict

end Calls

section Histories

/-- The map after a sequence of calls. -/
def after (m : ReceiptMap ν) (calls : List (Call ν)) : ReceiptMap ν :=
  (runCalls InMemory.perform m calls).2

@[simp] theorem after_nil (m : ReceiptMap ν) : after m [] = m := rfl

@[simp] theorem after_cons (m : ReceiptMap ν) (call : Call ν) (calls : List (Call ν)) :
    after m (call::calls) = after (InMemory.perform call m).2 calls := rfl

theorem after_append (m : ReceiptMap ν) (calls later : List (Call ν)) :
    after m (calls ++ later) = after (after m calls) later := by
  induction calls generalizing m with
  | nil => rfl
  | cons call calls ih =>
    rw [List.cons_append, after_cons, after_cons]
    exact ih _

theorem moved_step {m : ReceiptMap ν} (hm : Holding m) (call : Call ν) (key : String) :
    Moved (m key) ((InMemory.perform call m).2 key) := by
  have h := perform_outcome hm call
  generalize (InMemory.perform call m).1 = answer, (InMemory.perform call m).2 = m' at h ⊢
  cases h with
  | failed e => exact .same _
  | read answer => exact .same _
  | @moved answer key' r hmoved hkept hkey =>
    by_cases he : key = key'
    · rw [he, set_self]
      exact hmoved
    · rw [set_other r m he]
      exact .same _

theorem failing_step {m : ReceiptMap ν} (hm : Holding m) {call : Call ν} {e : ReceiptError}
    (he : (InMemory.perform call m).1 = .error e) : (InMemory.perform call m).2 = m := by
  have h := perform_outcome hm call
  generalize (InMemory.perform call m).1 = answer, (InMemory.perform call m).2 = m' at h he ⊢
  cases h with
  | failed e => rfl
  | read answer => rfl
  | moved answer hmoved hkept hkey => cases he

theorem holding_step {m : ReceiptMap ν} (hm : Holding m) (call : Call ν) :
    Holding (InMemory.perform call m).2 := by
  have h := perform_outcome hm call
  generalize (InMemory.perform call m).1 = answer, (InMemory.perform call m).2 = m' at h ⊢
  cases h with
  | failed e => exact hm
  | read answer => exact hm
  | @moved answer key r hmoved hkept hkey =>
    intro other x hx
    by_cases he : other = key
    · subst he
      rw [set_self] at hx
      cases hx
      exact ⟨hkept, hkey⟩
    · rw [set_other r m he] at hx
      exact hm other x hx

theorem holding_after {m : ReceiptMap ν} (hm : Holding m) (calls : List (Call ν)) :
    Holding (after m calls) := by
  induction calls generalizing m with
  | nil => exact hm
  | cons call calls ih => exact ih (holding_step hm call)

theorem holding_none : Holding (noReceipts : ReceiptMap ν) := by
  intro key r h
  cases h

/-- A completed receipt is final. -/
theorem completed_after {m : ReceiptMap ν} (hm : Holding m) {key : String} {r : MutationReceipt ν}
    (hr : m key = some r) (hstate : r.state = .completed) (calls : List (Call ν)) :
    after m calls key = some r := by
  induction calls generalizing m with
  | nil => exact hr
  | cons call calls ih =>
    apply ih (holding_step hm call)
    have h := moved_step hm call key
    rw [hr] at h
    generalize (InMemory.perform call m).2 key = found at h
    cases h with
    | same => rfl
    | executing identity => cases hstate
    | reconciling identity => cases hstate
    | completed identity hopen result => rcases hopen with rfl | rfl <;> cases hstate

theorem mark_present {transition : Option (MutationReceipt ν) → MutationReceiptIdentity →
    Except ReceiptError (MutationReceipt ν)} (hlawful : Lawful transition)
    {m : ReceiptMap ν} (hm : Holding m) (identity : MutationReceiptIdentity) (key : String) :
    (InMemory.mark transition identity m).2 key = none ↔ m key = none := by
  cases hp : parseIdentity identity with
  | error e => rw [mark_refused transition hp]
  | ok p =>
    rw [mark_parsed transition hp]
    cases ht : transition (m p.idempotencyKey) p with
    | error e => rfl
    | ok r =>
      have h := hlawful _ p r (hm.kept p.idempotencyKey) (parseIdentity_parsed hp) ht
      obtain ⟨x, hx, _⟩ := h.identities
      by_cases he : key = p.idempotencyKey
      · subst he
        simp [hx]
      · simp [set_other _ m he]

/-- The schema accepts the identity of a reservation of the key. -/
def Reserves (key : String) (call : Call ν) : Prop :=
  ∃ identity p, call = .reserve identity ∧ parseIdentity identity = .ok p ∧ p.idempotencyKey = key

theorem reserve_absent {m : ReceiptMap ν} (hm : Holding m) (identity : MutationReceiptIdentity)
    (key : String) : (InMemory.reserve identity m).2 key = none ↔
      m key = none ∧ ¬Reserves key (.reserve identity : Call ν) := by
  have hcall : Reserves key (.reserve identity : Call ν) ↔
      ∃ p, parseIdentity identity = .ok p ∧ p.idempotencyKey = key := by
    constructor
    · rintro ⟨_, p, hc, hp, hk⟩
      cases hc
      exact ⟨p, hp, hk⟩
    · rintro ⟨p, hp, hk⟩
      exact ⟨identity, p, rfl, hp, hk⟩
  rw [hcall]
  cases hp : parseIdentity identity with
  | error e =>
    rw [reserve_refused hp]
    simp
  | ok p =>
    cases hr : m p.idempotencyKey with
    | none =>
      rw [reserve_first hp hr]
      by_cases he : key = p.idempotencyKey
      · subst he
        simp
      · simp [set_other _ m he, Ne.symm he]
    | some r =>
      rw [reserve_again hp hr (hm _ r hr).1]
      by_cases he : key = p.idempotencyKey
      · subst he
        simp [hr]
      · simp [Ne.symm he]

theorem absent_step {m : ReceiptMap ν} (hm : Holding m) (call : Call ν) (key : String) :
    (InMemory.perform call m).2 key = none ↔ m key = none ∧ ¬Reserves key call := by
  have hother : (∀ identity, call ≠ .reserve identity) → ¬Reserves key call := by
    intro hno hres
    obtain ⟨identity, _, hc, _⟩ := hres
    exact hno identity hc
  cases call with
  | reserve identity =>
    rw [InMemory.perform, reserve_absent hm identity key]
  | get k =>
    rw [and_iff_left (hother (by simp))]
    rfl
  | markExecuting identity =>
    rw [and_iff_left (hother (by simp))]
    rw [InMemory.perform, mark_present executing_lawful hm identity key]
  | markReconciliationRequired identity =>
    rw [and_iff_left (hother (by simp))]
    rw [InMemory.perform, mark_present reconciliation_lawful hm identity key]
  | markCompleted identity result =>
    rw [and_iff_left (hother (by simp))]
    rw [InMemory.perform, mark_present (completed_lawful result) hm identity key]

theorem absent_after {m : ReceiptMap ν} (hm : Holding m) (calls : List (Call ν)) (key : String) :
    after m calls key = none ↔ m key = none ∧ ∀ call ∈ calls, ¬Reserves key call := by
  induction calls generalizing m with
  | nil => simp
  | cons call calls ih =>
    rw [after_cons, ih (holding_step hm call), absent_step hm call key]
    simp [and_assoc]

end Histories

section Refusals

/-- The identity a call is made with; a lookup has none. -/
def Call.identity : Call ν → Option MutationReceiptIdentity
  | .reserve identity | .markExecuting identity | .markReconciliationRequired identity
  | .markCompleted identity _ => some identity
  | .get _ => none

theorem mark_conflict {transition : Option (MutationReceipt ν) → MutationReceiptIdentity →
    Except ReceiptError (MutationReceipt ν)}
    (htransition : ∀ existing p e, requireExistingReceipt existing p = .error e →
      transition existing p = .error e)
    {identity p : MutationReceiptIdentity} (hp : parseIdentity identity = .ok p) {m : ReceiptMap ν}
    {r : MutationReceipt ν} (hr : m p.idempotencyKey = some r) (hkept : Kept r)
    (hne : r.identity ≠ p) : (InMemory.mark transition identity m).1 = .error conflict := by
  have hrequire := require_kept hkept (parseIdentity_parsed hp)
  rw [if_neg hne] at hrequire
  rw [mark_parsed transition hp, hr, htransition (some r) p conflict hrequire]

theorem perform_conflict {m : ReceiptMap ν} (hm : Holding m) {call : Call ν}
    {identity p : MutationReceiptIdentity} (hcall : call.identity = some identity)
    (hp : parseIdentity identity = .ok p) {r : MutationReceipt ν}
    (hr : m p.idempotencyKey = some r) (hne : r.identity ≠ p) :
    (InMemory.perform call m).1 = .error conflict := by
  have hkept := (hm _ r hr).1
  cases call with
  | get key => cases hcall
  | reserve other =>
    cases hcall
    rw [InMemory.perform, reserve_again hp hr hkept, if_neg hne]
  | markExecuting other =>
    cases hcall
    rw [InMemory.perform]
    exact mark_conflict (fun _ _ _ h => fails_first h) hp hr hkept hne
  | markReconciliationRequired other =>
    cases hcall
    rw [InMemory.perform]
    exact mark_conflict (fun _ _ _ h => fails_first h) hp hr hkept hne
  | markCompleted other result =>
    cases hcall
    rw [InMemory.perform]
    exact mark_conflict (fun _ _ _ h => fails_first h) hp hr hkept hne

theorem perform_invalid (m : ReceiptMap ν) {call : Call ν} {identity : MutationReceiptIdentity}
    {e : ReceiptError} (hcall : call.identity = some identity)
    (hp : parseIdentity identity = .error e) : (InMemory.perform call m).1 = .error e := by
  cases call with
  | get key => cases hcall
  | reserve other =>
    cases hcall
    rw [InMemory.perform, reserve_refused hp]
  | markExecuting other =>
    cases hcall
    rw [InMemory.perform, mark_refused _ hp]
  | markReconciliationRequired other =>
    cases hcall
    rw [InMemory.perform, mark_refused _ hp]
  | markCompleted other result =>
    cases hcall
    rw [InMemory.perform, mark_refused _ hp]

/-- A completion that succeeds, with the receipt it answers and leaves. -/
theorem complete_ok {m : ReceiptMap ν} (hm : Holding m) {identity p : MutationReceiptIdentity}
    {result : Value ν} {answer : Answer ν} (hp : parseIdentity identity = .ok p)
    (h : (InMemory.perform (.markCompleted identity result) m).1 = .ok answer) :
    ∃ parsed state, parseMutationReceiptPublicResult result = .ok parsed ∧
      answer = .receipt ⟨p, .completed, some (cloneValue parsed)⟩ ∧
      (InMemory.perform (.markCompleted identity result) m).2 p.idempotencyKey =
        some ⟨p, .completed, some (cloneValue parsed)⟩ ∧
      m p.idempotencyKey = some ⟨p, state, none⟩ ∧ state ≠ .completed := by
  rw [InMemory.perform, mark_parsed _ hp] at h ⊢
  cases ht : markMutationReceiptCompleted result (m p.idempotencyKey) p with
  | error e =>
    rw [ht] at h
    cases h
  | ok r' =>
    obtain ⟨state, parsed, hstate, hexisting, hparsed, rfl, _⟩ :=
      completed_ok (hm.kept p.idempotencyKey) (parseIdentity_parsed hp) ht
    rw [ht] at h
    cases h
    refine ⟨parsed, state, hparsed, rfl, set_self _ _ _, hexisting, ?_⟩
    rcases hstate with rfl | rfl <;> simp

end Refusals

section Progress

variable {p : MutationReceiptIdentity} (hp : parseIdentity p = .ok p) {m : ReceiptMap ν}
include hp

theorem executing_perform {identity : MutationReceiptIdentity} (hid : parseIdentity identity = .ok p)
    (h : m p.idempotencyKey = some ⟨p, .reserved, none⟩) :
    InMemory.perform (.markExecuting identity) m = (.ok (.receipt ⟨p, .executing, none⟩),
      ReceiptMap.set p.idempotencyKey ⟨p, .executing, none⟩ m) := by
  have hkept : Kept (⟨p, .reserved, none⟩ : MutationReceipt ν) := .unfinished hp (by simp)
  rw [InMemory.perform, mark_parsed _ hid, h, markMutationReceiptExecuting, require_kept hkept hp]
  simp [bind, Except.bind, pure, Except.pure, cloneReceipt]

theorem completed_perform {result parsed : Value ν}
    (hresult : parseMutationReceiptPublicResult result = .ok parsed)
    (h : m p.idempotencyKey = some ⟨p, .executing, none⟩) :
    InMemory.perform (.markCompleted p result) m =
      (.ok (.receipt ⟨p, .completed, some (cloneValue parsed)⟩),
        ReceiptMap.set p.idempotencyKey ⟨p, .completed, some (cloneValue parsed)⟩ m) := by
  have hkept : Kept (⟨p, .executing, none⟩ : MutationReceipt ν) := .unfinished hp (by simp)
  rw [InMemory.perform, mark_parsed _ hp, h, markMutationReceiptCompleted, require_kept hkept hp]
  simp [bind, Except.bind, hresult, pure, Except.pure, cloneReceipt]

/-- The whole life of a receipt. -/
theorem completed_life {result parsed : Value ν}
    (hresult : parseMutationReceiptPublicResult result = .ok parsed) :
    after noReceipts [.reserve p, .markExecuting p, .markCompleted p result] p.idempotencyKey =
      some ⟨p, .completed, some (cloneValue parsed)⟩ := by
  rw [after_cons, InMemory.perform, reserve_first hp rfl, after_cons,
    executing_perform hp hp (set_self _ _ _), after_cons,
    completed_perform hp hresult (set_self _ _ _), after_nil]
  exact set_self _ _ _

end Progress

/-- The laws of the map after a history of calls. -/
structure ReceiptLaws (history : List (Call ν)) : Prop where
  moves : ∀ call key, Moved (after noReceipts history key)
    ((InMemory.perform call (after noReceipts history)).2 key)
  failing : ∀ call e, (InMemory.perform call (after noReceipts history)).1 = .error e →
    (InMemory.perform call (after noReceipts history)).2 = after noReceipts history
  first : ∀ identity, (∃ r, (InMemory.perform (.reserve identity) (after noReceipts history)).1 =
      .ok (.reservation ⟨.execute, r⟩)) ↔
    ∃ p, parseIdentity identity = .ok p ∧ ∀ call ∈ history, ¬Reserves p.idempotencyKey call
  replay : ∀ before later identity result answer p,
    history = before ++ .markCompleted identity result::later →
    (InMemory.perform (.markCompleted identity result) (after noReceipts before)).1 = .ok answer →
    parseIdentity identity = .ok p → ∃ kept, answer = .receipt ⟨p, .completed, some kept⟩ ∧
      (plain result = true → kept = result) ∧
      (∀ again, parseIdentity again = .ok p →
        (InMemory.perform (.reserve again) (after noReceipts history)).1 =
          .ok (.reservation ⟨.replayCompleted, ⟨p, .completed, some kept⟩⟩)) ∧
      ∀ again q other, parseIdentity again = .ok q → q.idempotencyKey = p.idempotencyKey →
        ∃ e, (InMemory.perform (.markCompleted again other) (after noReceipts history)).1 = .error e
  conflicts : ∀ call identity p r, Call.identity call = some identity →
    parseIdentity identity = .ok p → after noReceipts history p.idempotencyKey = some r →
    r.identity ≠ p → (InMemory.perform call (after noReceipts history)).1 = .error conflict
  invalid : ∀ call identity e, Call.identity call = some identity →
    parseIdentity identity = .error e →
    (InMemory.perform call (after noReceipts history)).1 = .error e

/-- Every history of calls obeys the laws. -/
theorem receipt_laws (history : List (Call ν)) : ReceiptLaws history := by
  have hm : Holding (after noReceipts history) := holding_after holding_none history
  refine ⟨moved_step hm, fun call e => failing_step hm, ?_, ?_, ?_, ?_⟩
  · intro identity
    cases hp : parseIdentity identity with
    | error e =>
      rw [InMemory.perform, reserve_refused hp]
      simp
    | ok p =>
      have habsent := absent_after holding_none history p.idempotencyKey
      cases hr : after noReceipts history p.idempotencyKey with
      | none =>
        rw [InMemory.perform, reserve_first hp hr]
        simpa using (habsent.mp hr).2
      | some r =>
        rw [InMemory.perform, reserve_again hp hr (hm _ r hr).1]
        have hreserved : ¬∀ call ∈ history, ¬Reserves p.idempotencyKey call := by
          intro hall
          rw [habsent.mpr ⟨rfl, hall⟩] at hr
          cases hr
        constructor
        · rintro ⟨x, hx⟩
          split at hx
          · split at hx <;> cases hx
          · cases hx
        · rintro ⟨q, hq, hall⟩
          cases hq
          exact absurd hall hreserved
  · intro before later identity result answer p hhistory hcompleted hp
    have hbefore : Holding (after noReceipts before) := holding_after holding_none before
    obtain ⟨parsed, state, hparsed, hanswer, hleft, _, _⟩ := complete_ok hbefore hp hcompleted
    have hfinal : after noReceipts history p.idempotencyKey =
        some ⟨p, .completed, some (cloneValue parsed)⟩ := by
      rw [hhistory, after_append, after_cons]
      exact completed_after (holding_step hbefore _) hleft rfl later
    refine ⟨cloneValue parsed, hanswer, ?_, ?_, ?_⟩
    · intro hplain
      rw [parse_plain [] hplain hparsed, clone_plain hplain]
    · intro again hagain
      rw [InMemory.perform, reserve_again hagain hfinal (hm _ _ hfinal).1]
      simp
    · intro again q other hq hkey
      cases hanswer : (InMemory.perform (.markCompleted again other)
          (after noReceipts history)).1 with
      | error e => exact ⟨e, rfl⟩
      | ok a =>
        obtain ⟨_, s, _, _, _, hheld, _⟩ := complete_ok hm hq hanswer
        rw [hkey, hfinal] at hheld
        cases hheld
  · intro call identity p r hcall hp hr hne
    exact perform_conflict hm hcall hp hr hne
  · intro call identity e hcall hp
    exact perform_invalid _ hcall hp

section Samples

def sampleIdentity : MutationReceiptIdentity where
  workspaceId := "repo"
  operation := .sourceControl .gitCommit
  targetResource := "main"
  canonicalArgumentsDigest := "aaaaaaaaaaaaaaaaaaaaaaaaaaaaaaaaaaaaaaaaaaaaaaaaaaaaaaaaaaaaaaaa"
  idempotencyKey := "idem"

def spacedIdentity : MutationReceiptIdentity := { sampleIdentity with workspaceId := " repo" }

/-- `JSON.parse` of an object whose only field is `__proto__`, an object. -/
def protoResult : Value ℤ := .obj .object [("__proto__", .obj .object [])]

theorem sample_parsed : parseIdentity sampleIdentity = .ok sampleIdentity := by
  decide +kernel

theorem spaced_parsed : parseIdentity spacedIdentity = .ok sampleIdentity := by
  decide +kernel

/-- A call whose identity differs by a space from the one of the receipt is
not refused, and the result replayed is not the one that was given. -/
theorem laws_as_written_fail : spacedIdentity.workspaceId ≠ sampleIdentity.workspaceId ∧
    (InMemory.perform (.markExecuting spacedIdentity)
      (after (noReceipts : ReceiptMap ℤ) [.reserve sampleIdentity])).1 =
        .ok (.receipt ⟨sampleIdentity, .executing, none⟩) ∧
    ((InMemory.perform (.reserve sampleIdentity) (after noReceipts [.reserve sampleIdentity,
      .markExecuting sampleIdentity, .markCompleted sampleIdentity protoResult])).1 =
        .ok (.reservation ⟨.replayCompleted, ⟨sampleIdentity, .completed, some (.obj .object [])⟩⟩)) ∧
    Value.obj .object [] ≠ protoResult := by
  have hresult : parseMutationReceiptPublicResult protoResult = .ok (.obj .other []) := by
    rfl
  have hdone := completed_life sample_parsed hresult
  have hheld : Holding (after (noReceipts : ReceiptMap ℤ) [.reserve sampleIdentity,
      .markExecuting sampleIdentity, .markCompleted sampleIdentity protoResult]) :=
    holding_after holding_none _
  refine ⟨by decide, ?_, ?_, ?_⟩
  · rw [after_cons, InMemory.perform, reserve_first sample_parsed rfl, after_nil,
      executing_perform sample_parsed spaced_parsed (set_self _ _ _)]
  · rw [InMemory.perform, reserve_again sample_parsed hdone (hheld _ _ hdone).1]
    simp [cloneValue, cloneFields]
  · intro h
    injection h with _ h
    cases h

end Samples

end AccessStack.Receipts
