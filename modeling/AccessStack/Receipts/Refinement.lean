import AccessStack.Receipts.Laws

/-!
# Receipts in files

The files hold what the map holds, each receipt under the digest of its key.
The two stores answer alike as long as a receipt is looked up under the key
it was stored under: the map looks up the key the schema has trimmed, the
files are read under the key as it was given and written under the trimmed
one.
-/

set_option autoImplicit false

namespace AccessStack.Receipts
open AccessStack.Text AccessStack.Rows AccessStack.Effect

variable {ν : Type}

section Requires

/-- A marking reads its identity only where it requires the receipt. -/
structure Requires (transition : Option (MutationReceipt ν) → MutationReceiptIdentity →
    Except ReceiptError (MutationReceipt ν)) : Prop where
  parsed : ∀ existing {identity p}, parseIdentity identity = .ok p →
    transition existing identity = transition existing p
  invalid : ∀ {existing identity e}, existing ≠ none → parseIdentity identity = .error e →
    transition existing identity = .error e

theorem require_parsed (existing : Option (MutationReceipt ν)) {identity p : MutationReceiptIdentity}
    (h : parseIdentity identity = .ok p) :
    requireExistingReceipt existing identity = requireExistingReceipt existing p := by
  cases existing with
  | none => rfl
  | some r => simp only [requireExistingReceipt, h, parseIdentity_parsed h]

theorem require_invalid {existing : Option (MutationReceipt ν)} {identity : MutationReceiptIdentity}
    {e : ReceiptError} (hne : existing ≠ none) (h : parseIdentity identity = .error e) :
    requireExistingReceipt existing identity = .error e := by
  cases existing with
  | none => exact absurd rfl hne
  | some r =>
    simp only [requireExistingReceipt, h]
    rfl

theorem executing_requires : Requires (markMutationReceiptExecuting (ν := ν)) where
  parsed existing _ _ h := by simp only [markMutationReceiptExecuting, require_parsed existing h]
  invalid hne h := fails_first (require_invalid hne h)

theorem reconciliation_requires : Requires (markMutationReceiptReconciliationRequired (ν := ν)) where
  parsed existing _ _ h := by
    simp only [markMutationReceiptReconciliationRequired, require_parsed existing h]
  invalid hne h := fails_first (require_invalid hne h)

theorem completed_requires (result : Value ν) : Requires (markMutationReceiptCompleted result) where
  parsed existing _ _ h := by simp only [markMutationReceiptCompleted, require_parsed existing h]
  invalid hne h := fails_first (require_invalid hne h)

end Requires

variable [Zero ν] {digest : Filed.Digest}

section Agreement

/-- The receipt under the trimmed key is found under the given one too. -/
def KeyFound (m : ReceiptMap ν) (identity : MutationReceiptIdentity) : Prop :=
  ∀ p, parseIdentity identity = .ok p →
    identity.idempotencyKey = p.idempotencyKey ∨ m p.idempotencyKey = none

/-- Before it looks at an identity, a marking in the files looks for the
receipt. -/
def Markable (m : ReceiptMap ν) (identity : MutationReceiptIdentity) : Prop :=
  KeyFound m identity ∧ ∀ e, parseIdentity identity = .error e → m identity.idempotencyKey ≠ none

/-- The calls the two stores answer alike. -/
def Agreeable (m : ReceiptMap ν) : Call ν → Prop
  | .reserve identity => KeyFound m identity
  | .markExecuting identity | .markReconciliationRequired identity => Markable m identity
  | .markCompleted identity result => Markable m identity ∧
    ∀ p r parsed, parseIdentity identity = .ok p → m p.idempotencyKey = some r →
      r.state = .executing ∨ r.state = .reconciliationRequired →
      parseMutationReceiptPublicResult result = .ok parsed → lossless result = true
  | .get _ => True

/-- All calls of a sequence are such calls where they are made. -/
def Agreeing : ReceiptMap ν → List (Call ν) → Prop
  | _, [] => True
  | m, call::calls => Agreeable m call ∧ Agreeing (InMemory.perform call m).2 calls

end Agreement

section Files

/-- The files are those of the map. -/
structure Mirrors (digest : Filed.Digest) (m files : ReceiptMap ν) : Prop where
  holding : Holding m
  filed : ∀ key, files (Filed.receiptPath digest key) = m key

theorem receiptPath_injective : Function.Injective (Filed.receiptPath digest) := by
  intro a b h
  have hchars := congrArg String.toList h
  simp only [Filed.receiptPath, String.toList_append] at hchars
  exact digest.injective (String.toList_injective (List.append_cancel_right hchars))

theorem readReceipt_mirrors {m files : ReceiptMap ν} (h : Mirrors digest m files) (key : String) :
    Filed.readReceipt digest key files = (.ok (m key), files) := by
  have hfile := h.filed key
  cases hr : m key with
  | none =>
    rw [hr] at hfile
    simp [Filed.readReceipt, bind, hfile]
  | some r =>
    rw [hr] at hfile
    simp [Filed.readReceipt, bind, hfile, (h.holding key r hr).1.parse]

theorem mirrors_set {m files : ReceiptMap ν} (h : Mirrors digest m files) {r : MutationReceipt ν}
    (hr : Kept r) : Mirrors digest (ReceiptMap.set r.identity.idempotencyKey r m)
      (ReceiptMap.set (Filed.receiptPath digest r.identity.idempotencyKey) r files) := by
  constructor
  · intro key x hx
    by_cases he : key = r.identity.idempotencyKey
    · subst he
      rw [set_self] at hx
      cases hx
      exact ⟨hr, rfl⟩
    · rw [set_other r m he] at hx
      exact h.holding key x hx
  · intro key
    by_cases he : key = r.identity.idempotencyKey
    · subst he
      rw [set_self, set_self]
    · have hpath : Filed.receiptPath digest key ≠
          Filed.receiptPath digest r.identity.idempotencyKey := fun hp => he (receiptPath_injective hp)
      rw [set_other r m he, set_other r files hpath]
      exact h.filed key

theorem writeReceipt_kept {r : MutationReceipt ν} (hr : Kept r) (files : ReceiptMap ν) :
    Filed.writeReceipt digest r files = (.ok (),
      ReceiptMap.set (Filed.receiptPath digest r.identity.idempotencyKey) r files) := by
  simp [Filed.writeReceipt, bind, hr.parse, hr.clone]

/-- A receipt stands under a key the schema leaves alone. -/
theorem held_trimmed {m : ReceiptMap ν} (h : Holding m) {key : String} {r : MutationReceipt ν}
    (hr : m key = some r) : trim key = key := by
  obtain ⟨hkept, rfl⟩ := h key r hr
  obtain ⟨_, hid⟩ := parseIdentity_ok.mp hkept.identity
  exact (congrArg MutationReceiptIdentity.idempotencyKey hid).symm

/-- The receipt the files find is the one the map finds. -/
theorem found_same {m : ReceiptMap ν} (h : Holding m) {identity p : MutationReceiptIdentity}
    (hp : parseIdentity identity = .ok p) (hfound : KeyFound m identity) :
    m identity.idempotencyKey = m p.idempotencyKey := by
  rcases hfound p hp with he | hnone
  · rw [he]
  · rw [hnone]
    cases hr : m identity.idempotencyKey with
    | none => rfl
    | some r =>
      obtain ⟨_, rfl⟩ := parseIdentity_ok.mp hp
      have hkey : (trimmedIdentity identity).idempotencyKey = identity.idempotencyKey :=
        held_trimmed h hr
      rw [hkey, hr] at hnone
      cases hnone

end Files

/-- Both stores answer alike and hold the same receipts afterwards. -/
structure Agrees (digest : Filed.Digest) (inMemory filed : Except ReceiptError (Answer ν) × ReceiptMap ν) :
    Prop where
  answer : filed.1 = inMemory.1
  mirrors : Mirrors digest inMemory.2 filed.2

section Unchanged

theorem Marks.unchanged {existing : Option (MutationReceipt ν)} {p : MutationReceiptIdentity}
    {r' : MutationReceipt ν} (h : Marks existing p r') (hclone : cloneReceipt r' = r') :
    Kept r' ∧ r'.identity = p := by
  obtain ⟨_, _, _, hid⟩ := h.identities
  have hkept := h.kept
  rw [hclone] at hkept
  exact ⟨hkept, hid⟩

theorem executing_clone {existing : Option (MutationReceipt ν)} {identity : MutationReceiptIdentity}
    {r' : MutationReceipt ν} (h : markMutationReceiptExecuting existing identity = .ok r') :
    cloneReceipt r' = r' := by
  obtain ⟨r, _, h⟩ := bind_ok.mp h
  split at h
  · cases h
  · cases h
    rfl

theorem reconciliation_clone {existing : Option (MutationReceipt ν)}
    {identity p : MutationReceiptIdentity} {r' : MutationReceipt ν} (hkept : ∀ r ∈ existing, Kept r)
    (hp : parseIdentity identity = .ok p)
    (h : markMutationReceiptReconciliationRequired existing identity = .ok r') :
    cloneReceipt r' = r' := by
  obtain ⟨r, hr, h⟩ := bind_ok.mp h
  split at h
  · have hsame : r = r' := Except.ok.inj h
    rw [← hsame]
    exact (hkept r (require_ok hkept hp hr).1).clone
  split at h
  · cases h
  · cases h
    rfl

end Unchanged

/-- A key that is not found in the files is reserved for execution. -/
theorem filed_first {identity p : MutationReceiptIdentity} (hp : parseIdentity identity = .ok p)
    {files : ReceiptMap ν}
    (hread : Filed.readReceipt digest identity.idempotencyKey files = (.ok none, files)) :
    Filed.reserve digest identity files =
      (.ok (.reservation ⟨.execute, ⟨p, .reserved, none⟩⟩), ReceiptMap.set
        (Filed.receiptPath digest p.idempotencyKey) ⟨p, .reserved, none⟩ files) := by
  have hkept : Kept (⟨p, .reserved, none⟩ : MutationReceipt ν) :=
    .unfinished (parseIdentity_parsed hp) (by simp)
  simp only [Filed.reserve, bind_of_ok hread]
  simp [bind, reserveMutationReceipt, hp, Except.bind, pure, Except.pure, writeReceipt_kept hkept]

section Steps

variable {m files : ReceiptMap ν} (h : Mirrors digest m files)
include h

theorem reserve_agrees {identity : MutationReceiptIdentity} (hfound : KeyFound m identity) :
    Agrees digest (InMemory.reserve identity m) (Filed.reserve digest identity files) := by
  have hread := readReceipt_mirrors h identity.idempotencyKey
  cases hp : parseIdentity identity with
  | error e =>
    have hfiled : Filed.reserve digest identity files = (.error e, files) := by
      simp only [Filed.reserve, bind_of_ok hread]
      simp [bind, reserveMutationReceipt, hp, Except.bind]
    rw [reserve_refused hp, hfiled]
    exact ⟨rfl, h⟩
  | ok p =>
    rw [found_same h.holding hp hfound] at hread
    have hagain := parseIdentity_parsed hp
    cases hr : m p.idempotencyKey with
    | none =>
      have hkept : Kept (⟨p, .reserved, none⟩ : MutationReceipt ν) := .unfinished hagain (by simp)
      rw [hr] at hread
      rw [reserve_first hp hr, filed_first hp hread]
      exact ⟨rfl, mirrors_set h hkept⟩
    | some r =>
      have hkept := (h.holding _ r hr).1
      have hfiled : (Filed.reserve digest identity files) =
          (if r.identity = p then .ok (.reservation
            ⟨if r.state = .completed then .replayCompleted else .reconciliationRequired, r⟩)
          else .error conflict, files) := by
        simp only [Filed.reserve, bind_of_ok hread, hr]
        simp only [bind, lift_apply, reserveMutationReceipt, hp, hkept.parse, Except.bind,
          assertSameIdentity]
        by_cases hsame : r.identity = p
        · by_cases hstate : r.state = .completed
          · simp [hsame, hstate, hkept.clone, pure, Except.pure]
          · simp [hsame, hstate, hkept.clone, pure, Except.pure]
        · simp [hsame, conflict]
      rw [reserve_again hp hr hkept, hfiled]
      exact ⟨rfl, h⟩

theorem mark_agrees {transition : Option (MutationReceipt ν) → MutationReceiptIdentity →
    Except ReceiptError (MutationReceipt ν)} (hrequires : Requires transition)
    {identity : MutationReceiptIdentity} (hmarkable : Markable m identity)
    (hkept : ∀ p r', parseIdentity identity = .ok p → transition (m p.idempotencyKey) p = .ok r' →
      Kept r' ∧ r'.identity = p) :
    Agrees digest (InMemory.mark transition identity m) (Filed.mark digest transition identity files) := by
  have hread := readReceipt_mirrors h identity.idempotencyKey
  cases hp : parseIdentity identity with
  | error e =>
    have hfiled : Filed.mark digest transition identity files = (.error e, files) := by
      simp only [Filed.mark, bind_of_ok hread]
      simp [bind, hrequires.invalid (hmarkable.2 e hp) hp]
    rw [mark_refused transition hp, hfiled]
    exact ⟨rfl, h⟩
  | ok p =>
    rw [found_same h.holding hp hmarkable.1] at hread
    rw [mark_parsed transition hp]
    simp only [Filed.mark, bind_of_ok hread]
    cases ht : transition (m p.idempotencyKey) p with
    | error e =>
      simp only [bind, lift_apply, hrequires.parsed (m p.idempotencyKey) hp, ht]
      exact ⟨rfl, h⟩
    | ok r =>
      obtain ⟨hr, hid⟩ := hkept p r hp ht
      have hstored := mirrors_set h hr
      rw [hid] at hstored
      simp only [bind, lift_apply, hrequires.parsed (m p.idempotencyKey) hp, ht, writeReceipt_kept hr,
        pure_apply, hr.clone, hid]
      exact ⟨rfl, hstored⟩

theorem perform_agrees {call : Call ν} (hcall : Agreeable m call) :
    Agrees digest (InMemory.perform call m) (Filed.perform digest call files) := by
  cases call with
  | reserve identity =>
    rw [InMemory.perform, Filed.perform]
    exact reserve_agrees h hcall
  | get key =>
    have hread := readReceipt_mirrors h key
    have hclone : (m key).map cloneReceipt = m key := by
      cases hr : m key with
      | none => rfl
      | some r => simp [(h.holding key r hr).1.clone]
    refine ⟨?_, ?_⟩
    · simp [Filed.perform, Filed.get, InMemory.perform, InMemory.get, bind, hread, hclone]
    · simpa [Filed.perform, Filed.get, InMemory.perform, InMemory.get, bind, hread] using h
  | markExecuting identity =>
    rw [InMemory.perform, Filed.perform]
    apply mark_agrees h executing_requires hcall
    intro p r' hp ht
    have hmarks := executing_marks (h.holding.kept p.idempotencyKey) (parseIdentity_parsed hp) ht
    exact hmarks.unchanged (executing_clone ht)
  | markReconciliationRequired identity =>
    rw [InMemory.perform, Filed.perform]
    apply mark_agrees h reconciliation_requires hcall
    intro p r' hp ht
    have hkept := h.holding.kept p.idempotencyKey
    have hmarks := reconciliation_marks hkept (parseIdentity_parsed hp) ht
    exact hmarks.unchanged (reconciliation_clone hkept (parseIdentity_parsed hp) ht)
  | markCompleted identity result =>
    rw [InMemory.perform, Filed.perform]
    apply mark_agrees h (completed_requires result) hcall.1
    intro p r' hp ht
    have hkept := h.holding.kept p.idempotencyKey
    have hmarks := completed_marks hkept (parseIdentity_parsed hp) ht
    obtain ⟨state, parsed, hstate, hexisting, hparsed, rfl, _⟩ :=
      completed_ok hkept (parseIdentity_parsed hp) ht
    have hplain := parse_lossless (hcall.2 p _ parsed hp hexisting hstate hparsed) hparsed
    apply hmarks.unchanged
    simp [cloneReceipt, clone_plain hplain]

theorem run_agrees {calls : List (Call ν)} (hcalls : Agreeing m calls) :
    (runCalls (Filed.perform digest) files calls).1 = (runCalls InMemory.perform m calls).1 := by
  induction calls generalizing m files with
  | nil => simp only [runCalls]
  | cons call calls ih =>
    have hstep := perform_agrees h hcalls.1
    simp only [runCalls]
    rw [hstep.answer, ih hstep.mirrors hcalls.2]

end Steps

section Executions

/-- The keys of the reservations that may execute. -/
def executedKeys (answers : List (Except ReceiptError (Answer ν))) : List String :=
  answers.filterMap fun answer => match answer with
    | .ok (.reservation ⟨.execute, r⟩) => some r.identity.idempotencyKey
    | _ => none

theorem mark_answer (transition : Option (MutationReceipt ν) → MutationReceiptIdentity →
      Except ReceiptError (MutationReceipt ν)) (identity : MutationReceiptIdentity) (m : ReceiptMap ν)
    (reservation : MutationReceiptReservation ν) :
    (InMemory.mark transition identity m).1 ≠ .ok (.reservation reservation) := by
  cases hp : parseIdentity identity with
  | error e =>
    rw [mark_refused transition hp]
    simp
  | ok p =>
    rw [mark_parsed transition hp]
    cases transition (m p.idempotencyKey) p <;> simp

theorem execute_answer {m : ReceiptMap ν} (hm : Holding m) {call : Call ν} {r : MutationReceipt ν}
    (h : (InMemory.perform call m).1 = .ok (.reservation ⟨.execute, r⟩)) :
    m r.identity.idempotencyKey = none ∧
      (InMemory.perform call m).2 r.identity.idempotencyKey ≠ none := by
  cases call with
  | get key => cases h
  | markExecuting identity =>
    rw [InMemory.perform] at h
    exact absurd h (mark_answer _ identity m _)
  | markReconciliationRequired identity =>
    rw [InMemory.perform] at h
    exact absurd h (mark_answer _ identity m _)
  | markCompleted identity result =>
    rw [InMemory.perform] at h
    exact absurd h (mark_answer _ identity m _)
  | reserve identity =>
    rw [InMemory.perform] at h ⊢
    cases hp : parseIdentity identity with
    | error e =>
      rw [reserve_refused hp] at h
      cases h
    | ok p =>
      cases hr : m p.idempotencyKey with
      | none =>
        rw [reserve_first hp hr] at h ⊢
        cases h
        exact ⟨hr, by simp⟩
      | some x =>
        rw [reserve_again hp hr (hm _ x hr).1] at h
        split at h
        · split at h <;> cases h
        · cases h

/-- No key is executed twice, and none that holds a receipt already. -/
theorem executed_fresh {m : ReceiptMap ν} (hm : Holding m) (calls : List (Call ν)) :
    (executedKeys (runCalls InMemory.perform m calls).1).Nodup ∧
      ∀ key ∈ executedKeys (runCalls InMemory.perform m calls).1, m key = none := by
  induction calls generalizing m with
  | nil => simp [runCalls, executedKeys]
  | cons call calls ih =>
    obtain ⟨hnodup, habsent⟩ := ih (holding_step hm call)
    have hbefore : ∀ key ∈ executedKeys (runCalls InMemory.perform (InMemory.perform call m).2 calls).1,
        m key = none := fun key hkey => ((absent_step hm call key).mp (habsent key hkey)).1
    simp only [runCalls]
    cases hanswer : (InMemory.perform call m).1 with
    | error e => exact ⟨hnodup, hbefore⟩
    | ok answer =>
      rcases answer with ⟨d, r⟩ | r | found
      · cases d with
        | execute =>
          obtain ⟨hnone, hsome⟩ := execute_answer hm hanswer
          refine ⟨List.nodup_cons.mpr ⟨fun hmem => hsome (habsent _ hmem), hnodup⟩, ?_⟩
          intro key hkey
          rcases List.mem_cons.mp hkey with rfl | hkey
          · exact hnone
          · exact hbefore key hkey
        | replayCompleted => exact ⟨hnodup, hbefore⟩
        | reconciliationRequired => exact ⟨hnodup, hbefore⟩
      · exact ⟨hnodup, hbefore⟩
      · exact ⟨hnodup, hbefore⟩

end Executions

theorem mirrors_none : Mirrors digest (noReceipts : ReceiptMap ν) noReceipts :=
  ⟨holding_none, fun _ => rfl⟩

/-- The files answer every sequence of agreeable calls as the map does, and
execute no key twice. -/
theorem filed_refines (digest : Filed.Digest) (calls : List (Call ν))
    (h : Agreeing noReceipts calls) :
    (runCalls (Filed.perform digest) noReceipts calls).1 =
        (runCalls InMemory.perform noReceipts calls).1 ∧
      (executedKeys (runCalls (Filed.perform digest) noReceipts calls).1).Nodup := by
  have hstart : Mirrors digest (noReceipts : ReceiptMap ν) noReceipts := mirrors_none
  have hsame := run_agrees hstart h
  refine ⟨hsame, ?_⟩
  rw [hsame]
  exact (executed_fresh holding_none calls).1

section Samples

def paddedIdentity : MutationReceiptIdentity := { sampleIdentity with idempotencyKey := " idem" }

/-- The digests of the two keys of the samples, and names unlike a digest for
all other texts. -/
def sampleSha256 (s : String) : String :=
  if s = "idem" then "b43aae102b191a96b0eef83f7a7a8004ecd2ea986f64726e2541f3d608a9d593"
  else if s = " idem" then "22b4b1a207d177a4903330b4ecebee143391dc8e6c69724c331c7f544f2cb873"
  else "-" ++ s

theorem sampleSha256_injective : Function.Injective sampleSha256 := by
  have hhead : ∀ s : String, ("-" ++ s).toList.head? = some '-' := by
    intro s
    simp
  have hcancel : ∀ a b : String, "-" ++ a = "-" ++ b → a = b := by
    intro a b h
    have hchars := congrArg String.toList h
    simp only [String.toList_append] at hchars
    exact String.toList_injective (List.append_cancel_left hchars)
  have hno : ∀ s t : String, t.toList.head? ≠ some '-' → "-" ++ s ≠ t := by
    rintro s t ht rfl
    exact ht (hhead s)
  intro a b h
  unfold sampleSha256 at h
  split_ifs at h with ha hb hb hc hc hb
  all_goals first
    | exact (hcancel a b h)
    | exact absurd h (by decide)
    | exact absurd h (hno _ _ (by decide))
    | exact absurd h.symm (hno _ _ (by decide))
    | simp_all

def sampleDigest : Filed.Digest := ⟨sampleSha256, sampleSha256_injective⟩

theorem padded_parsed : parseIdentity paddedIdentity = .ok sampleIdentity := by
  decide +kernel

/-- One agreeable sequence of calls. -/
theorem filed_refines_sample : Agreeing (noReceipts : ReceiptMap ℤ) [.reserve sampleIdentity,
      .markExecuting sampleIdentity, .markCompleted sampleIdentity (.str "done"),
      .reserve sampleIdentity] ∧
    (runCalls (Filed.perform sampleDigest) (noReceipts : ReceiptMap ℤ) [.reserve sampleIdentity,
      .markExecuting sampleIdentity, .markCompleted sampleIdentity (.str "done"),
      .reserve sampleIdentity]).1 =
    (runCalls InMemory.perform noReceipts [.reserve sampleIdentity, .markExecuting sampleIdentity,
      .markCompleted sampleIdentity (.str "done"), .reserve sampleIdentity]).1 := by
  have hfound : ∀ m : ReceiptMap ℤ, KeyFound m sampleIdentity := by
    intro m p hp
    rw [sample_parsed] at hp
    cases hp
    exact .inl rfl
  have hmarkable : ∀ m : ReceiptMap ℤ, Markable m sampleIdentity := by
    intro m
    refine ⟨hfound m, ?_⟩
    intro e he
    rw [sample_parsed] at he
    cases he
  have hcalls : Agreeing (noReceipts : ReceiptMap ℤ) [.reserve sampleIdentity,
      .markExecuting sampleIdentity, .markCompleted sampleIdentity (.str "done"),
      .reserve sampleIdentity] :=
    ⟨hfound _, hmarkable _, ⟨hmarkable _, fun _ _ _ _ _ _ _ => rfl⟩, hfound _, trivial⟩
  exact ⟨hcalls, (filed_refines sampleDigest _ hcalls).1⟩

/-- A key with a space before it is executed twice by the files, once by the
map. -/
theorem padded_key_diverges :
    (runCalls (Filed.perform sampleDigest) (noReceipts : ReceiptMap ℤ)
      [.reserve paddedIdentity, .reserve paddedIdentity]).1 =
        [.ok (.reservation ⟨.execute, ⟨sampleIdentity, .reserved, none⟩⟩),
          .ok (.reservation ⟨.execute, ⟨sampleIdentity, .reserved, none⟩⟩)] ∧
    (runCalls InMemory.perform (noReceipts : ReceiptMap ℤ)
      [.reserve paddedIdentity, .reserve paddedIdentity]).1 =
        [.ok (.reservation ⟨.execute, ⟨sampleIdentity, .reserved, none⟩⟩),
          .ok (.reservation ⟨.reconciliationRequired, ⟨sampleIdentity, .reserved, none⟩⟩)] := by
  have hstart : Mirrors sampleDigest (noReceipts : ReceiptMap ℤ) noReceipts := mirrors_none
  have hkept : Kept (⟨sampleIdentity, .reserved, none⟩ : MutationReceipt ℤ) :=
    .unfinished sample_parsed (by simp)
  have hnext := mirrors_set hstart hkept
  have hunseen : ReceiptMap.set sampleIdentity.idempotencyKey ⟨sampleIdentity, .reserved, none⟩
      (noReceipts : ReceiptMap ℤ) paddedIdentity.idempotencyKey = none := by
    rw [set_other _ _ (by decide)]
    rfl
  constructor
  · have hfirst := readReceipt_mirrors hstart paddedIdentity.idempotencyKey
    have hsecond := readReceipt_mirrors hnext paddedIdentity.idempotencyKey
    rw [hunseen] at hsecond
    simp only [runCalls, Filed.perform]
    rw [filed_first padded_parsed hfirst, filed_first padded_parsed hsecond]
  · simp only [runCalls, InMemory.perform]
    rw [reserve_first padded_parsed rfl, reserve_again padded_parsed (set_self _ _ _) hkept]
    simp

end Samples

end AccessStack.Receipts
