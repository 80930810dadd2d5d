import AccessStack.Receipts.Results

/-!
# The life of a receipt

Every receipt the map holds is one that parsing and cloning leave as it is.
On such a map each operation is a lookup, a comparison of identities and at
most one move of one receipt.
-/

set_option autoImplicit false

namespace AccessStack.Receipts
open AccessStack.Text AccessStack.Rows

variable {ν : Type}

section Identities

theorem trimmed_trimmed (identity : MutationReceiptIdentity) :
    trimmedIdentity (trimmedIdentity identity) = trimmedIdentity identity := by
  simp only [trimmedIdentity, trim_trim]

theorem parseIdentity_ok {identity p : MutationReceiptIdentity} :
    parseIdentity identity = .ok p ↔ identityIssues p = [] ∧ p = trimmedIdentity identity := by
  simp only [parseIdentity]
  split
  · rename_i hissues
    rw [Except.ok.injEq]
    constructor
    · intro h
      subst h
      exact ⟨hissues, rfl⟩
    · intro h
      exact h.2.symm
  · rename_i hissues
    constructor
    · intro h
      cases h
    · rintro ⟨h, rfl⟩
      exact absurd h hissues

/-- A parsed identity is parsed to itself. -/
theorem parseIdentity_parsed {identity p : MutationReceiptIdentity}
    (h : parseIdentity identity = .ok p) : parseIdentity p = .ok p := by
  obtain ⟨hissues, rfl⟩ := parseIdentity_ok.mp h
  exact parseIdentity_ok.mpr ⟨hissues, (trimmed_trimmed identity).symm⟩

end Identities

def conflict : ReceiptError := .app "SOURCE_CONTROL_IDEMPOTENCY_CONFLICT"
  "The idempotency key is already associated with a different source-control mutation identity."

section Kept

variable [Zero ν]

/-- A receipt as the stores hold it. -/
inductive Kept : MutationReceipt ν → Prop
  | unfinished {identity : MutationReceiptIdentity} {state : MutationReceiptState}
    (hid : parseIdentity identity = .ok identity) (hstate : state ≠ .completed) :
    Kept ⟨identity, state, none⟩
  | finished {identity : MutationReceiptIdentity} {result : Value ν}
    (hid : parseIdentity identity = .ok identity)
    (hparse : parseMutationReceiptPublicResult result = .ok result)
    (hclone : cloneValue result = result) : Kept ⟨identity, .completed, some result⟩

theorem Kept.identity {r : MutationReceipt ν} (h : Kept r) :
    parseIdentity r.identity = .ok r.identity := by
  cases h with
  | unfinished hid hstate => exact hid
  | finished hid hparse hclone => exact hid

theorem Kept.parse {r : MutationReceipt ν} (h : Kept r) : parseMutationReceipt r = .ok r := by
  cases h with
  | @unfinished identity state hid hstate =>
    unfold parseMutationReceipt
    simp only [hid]
    cases state with
    | completed => exact absurd rfl hstate
    | _ => rfl
  | finished hid hparse hclone =>
    unfold parseMutationReceipt
    simp only [hid, hparse]
    rfl

theorem Kept.clone {r : MutationReceipt ν} (h : Kept r) : cloneReceipt r = r := by
  cases h with
  | unfinished hid hstate => rfl
  | finished hid hparse hclone => simp [cloneReceipt, hclone]

theorem require_kept {r : MutationReceipt ν} (h : Kept r) {identity p : MutationReceiptIdentity}
    (hp : parseIdentity identity = .ok p) : requireExistingReceipt (some r) identity =
      if r.identity = p then .ok r else .error conflict := by
  by_cases hsame : r.identity = p
  · simp [requireExistingReceipt, hp, h.parse, assertSameIdentity, hsame, bind, Except.bind, pure,
      Except.pure]
  · simp [requireExistingReceipt, hp, h.parse, assertSameIdentity, hsame, bind, Except.bind, conflict]

theorem require_ok {existing : Option (MutationReceipt ν)} (hkept : ∀ r ∈ existing, Kept r)
    {identity p : MutationReceiptIdentity} (hp : parseIdentity identity = .ok p)
    {r : MutationReceipt ν} (h : requireExistingReceipt existing identity = .ok r) :
    existing = some r ∧ r.identity = p := by
  cases existing with
  | none => cases h
  | some x =>
    rw [require_kept (hkept x rfl) hp] at h
    split at h
    · cases h
      exact ⟨rfl, by assumption⟩
    · cases h

/-- One move of the receipt under a key. -/
inductive Moved : Option (MutationReceipt ν) → Option (MutationReceipt ν) → Prop
  | same (existing : Option (MutationReceipt ν)) : Moved existing existing
  | reserved (identity : MutationReceiptIdentity) : Moved none (some ⟨identity, .reserved, none⟩)
  | executing (identity : MutationReceiptIdentity) :
    Moved (some ⟨identity, .reserved, none⟩) (some ⟨identity, .executing, none⟩)
  | reconciling (identity : MutationReceiptIdentity) :
    Moved (some ⟨identity, .executing, none⟩) (some ⟨identity, .reconciliationRequired, none⟩)
  | completed (identity : MutationReceiptIdentity) {state : MutationReceiptState}
    (hstate : state = .executing ∨ state = .reconciliationRequired) (result : Value ν) :
    Moved (some ⟨identity, state, none⟩) (some ⟨identity, .completed, some result⟩)

/-- What a marking of a receipt does where it succeeds. -/
structure Marks (existing : Option (MutationReceipt ν)) (p : MutationReceiptIdentity)
    (r' : MutationReceipt ν) : Prop where
  identities : ∃ r, existing = some r ∧ r.identity = p ∧ r'.identity = p
  moved : Moved existing (some (cloneReceipt r'))
  kept : Kept (cloneReceipt r')

variable {existing : Option (MutationReceipt ν)} (hkept : ∀ r ∈ existing, Kept r)
  {identity p : MutationReceiptIdentity} (hp : parseIdentity identity = .ok p)
include hkept hp

/-- The receipt of an operation that has not been completed carries no result. -/
theorem require_unfinished {r : MutationReceipt ν}
    (h : requireExistingReceipt existing identity = .ok r) (hstate : r.state ≠ .completed) :
    existing = some ⟨p, r.state, none⟩ ∧ r = ⟨p, r.state, none⟩ ∧ parseIdentity p = .ok p := by
  obtain ⟨rfl, rfl⟩ := require_ok hkept hp h
  cases hkept r rfl with
  | unfinished hid _ => exact ⟨rfl, rfl, hid⟩
  | finished hid hparse hclone => exact absurd rfl hstate

theorem executing_marks {r' : MutationReceipt ν}
    (h : markMutationReceiptExecuting existing identity = .ok r') : Marks existing p r' := by
  obtain ⟨r, hr, h⟩ := bind_ok.mp h
  split at h
  · cases h
  rename_i hstate
  have hstate : r.state = .reserved := by simpa using hstate
  obtain ⟨hexisting, hrec, hid⟩ := require_unfinished hkept hp hr (by simp [hstate])
  rw [hstate] at hexisting hrec
  cases h
  refine ⟨⟨_, hexisting, rfl, by rw [hrec]⟩, ?_, ?_⟩
  · rw [hexisting, hrec]
    exact .executing p
  · rw [hrec]
    exact .unfinished hid (by simp)

theorem reconciliation_marks {r' : MutationReceipt ν}
    (h : markMutationReceiptReconciliationRequired existing identity = .ok r') :
    Marks existing p r' := by
  obtain ⟨r, hr, h⟩ := bind_ok.mp h
  split at h
  · rename_i hstate
    obtain ⟨hexisting, hrec, hid⟩ := require_unfinished hkept hp hr (by simp [hstate])
    have hsame : r = r' := Except.ok.inj h
    have hr' : Kept r' := hkept r' (hsame ▸ (require_ok hkept hp hr).1)
    rw [hsame] at hexisting hrec
    refine ⟨⟨_, hexisting, rfl, by rw [hrec]⟩, ?_, ?_⟩
    · rw [hr'.clone, hexisting, ← hrec]
      exact .same _
    · rw [hr'.clone]
      exact hr'
  split at h
  · cases h
  rename_i hstate
  have hstate : r.state = .executing := by simpa using hstate
  obtain ⟨hexisting, hrec, hid⟩ := require_unfinished hkept hp hr (by simp [hstate])
  rw [hstate] at hexisting hrec
  cases h
  refine ⟨⟨_, hexisting, rfl, by rw [hrec]⟩, ?_, ?_⟩
  · rw [hexisting, hrec]
    exact .reconciling p
  · rw [hrec]
    exact .unfinished hid (by simp)

/-- A completion, with what it keeps of the result. -/
theorem completed_ok {result : Value ν} {r' : MutationReceipt ν}
    (h : markMutationReceiptCompleted result existing identity = .ok r') :
    ∃ state parsed, (state = .executing ∨ state = .reconciliationRequired) ∧
      existing = some ⟨p, state, none⟩ ∧ parseMutationReceiptPublicResult result = .ok parsed ∧
      r' = ⟨p, .completed, some parsed⟩ ∧ parseIdentity p = .ok p := by
  obtain ⟨r, hr, h⟩ := bind_ok.mp h
  split at h
  · cases h
  rename_i hstate
  have hstate : r.state = .executing ∨ r.state = .reconciliationRequired := by
    by_contra hno
    exact hstate (not_or.mp hno)
  have hopen : r.state ≠ .completed := by
    rcases hstate with hs | hs <;> simp [hs]
  obtain ⟨hexisting, hrec, hid⟩ := require_unfinished hkept hp hr hopen
  obtain ⟨parsed, hparsed, h⟩ := bind_ok.mp h
  cases h
  refine ⟨r.state, parsed, hstate, hexisting, hparsed, ?_, hid⟩
  have hname : r.identity = p := by rw [hrec]
  rw [hname]

theorem completed_marks {result : Value ν} {r' : MutationReceipt ν}
    (h : markMutationReceiptCompleted result existing identity = .ok r') : Marks existing p r' := by
  obtain ⟨state, parsed, hstate, hexisting, hparsed, rfl, hid⟩ := completed_ok hkept hp h
  refine ⟨⟨_, hexisting, rfl, rfl⟩, ?_, ?_⟩
  · rw [hexisting]
    exact .completed p hstate _
  · exact .finished hid (parse_clone hparsed []) (clone_clone parsed)

end Kept

end AccessStack.Receipts
