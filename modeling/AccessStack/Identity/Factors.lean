import AccessStack.Identity.Serving

/-!
# Factors are accepted once and guesses are throttled

The counters that are accepted of a user grow, no recovery code is accepted
twice, and the fifth failure since the last success or lock starts a pause in
which no verification is evaluated. Neither the bootstrap nor an invitation
creates two users.
-/

set_option autoImplicit false

namespace AccessStack.Identity
open AccessStack.Text AccessStack.OAuth AccessStack.Emits AccessStack.Runs

section Verifications

/-- The factor that the user has given, on enrollment or later. -/
def factorGiven (userId : String) : Event → Option Factor
  | .enrolled credential counter => if credential.userId = userId then some (.counter counter) else none
  | .accepted factor credential _ => if credential.userId = userId then some factor else none
  | _ => none

def Factor.counterOf : Factor → Option ℕ
  | .counter n => some n
  | .recovery _ => none

def Factor.recoveryOf : Factor → Option String
  | .counter _ => none
  | .recovery hash => some hash

def factorsGiven (userId : String) (log : List Event) : List Factor := log.filterMap (factorGiven userId)

def acceptedCounters (userId : String) (log : List Event) : List ℕ :=
  (factorsGiven userId log).filterMap Factor.counterOf

def acceptedRecoveries (userId : String) (log : List Event) : List String :=
  (factorsGiven userId log).filterMap Factor.recoveryOf

/-- A verification of a user that has been evaluated. -/
structure Verification where
  accepted : Bool
  now : ℕ
  deriving DecidableEq

def verificationOf (userId : String) : Event → Option Verification
  | .failed credential now => if credential.userId = userId then some ⟨false, now⟩ else none
  | .accepted _ credential now => if credential.userId = userId then some ⟨true, now⟩ else none
  | _ => none

def verifications (userId : String) (log : List Event) : List Verification :=
  log.filterMap (verificationOf userId)

/-- The failures since the last success or lock. -/
def failureRun (vs : List Verification) : ℕ :=
  vs.foldl (fun n v => if v.accepted then 0 else if totpMaxFailures ≤ n+1 then 0 else n+1) 0

/-- The verification after these starts a lock. -/
def Locks (before : List Verification) (v : Verification) : Prop :=
  v.accepted = false ∧ failureRun before+1 = totpMaxFailures

/-- No verification is evaluated while a lock lasts. -/
def Throttled (vs : List Verification) : Prop :=
  ∀ before v rest, vs = before ++ v :: rest → Locks before v → ∀ later ∈ rest, v.now+totpLockMs ≤ later.now

/-- A lock that the last verification has started is in the credential. -/
def LockKept (vs : List Verification) (credential : TotpCredential) : Prop :=
  ∀ before v, vs = before ++ [v] → Locks before v →
    ∃ lock, credential.lockedUntilMs = some lock ∧ v.now+totpLockMs ≤ lock

variable {vs : List Verification} {v : Verification} {credential : TotpCredential}

theorem failureRun_concat : failureRun (vs ++ [v]) =
    if v.accepted then 0 else if totpMaxFailures ≤ failureRun vs+1 then 0 else failureRun vs+1 := by
  rw [failureRun, List.foldl_append]
  rfl

/-- What a verification that is not locked out leaves throttled. -/
theorem Throttled.concat (h : Throttled vs) (hkept : LockKept vs credential)
    (hunlocked : credential.unlocked v.now) (htimes : ∀ earlier ∈ vs, earlier.now ≤ v.now) :
    Throttled (vs ++ [v]) := by
  intro before locking rest heq hlocks later hlater
  cases rest using List.reverseRecOn with
  | nil => cases hlater
  | append_singleton rest last =>
    rw [← List.cons_append, ← List.append_assoc] at heq
    obtain ⟨rfl, hlast⟩ := List.append_inj' heq rfl
    cases hlast
    rcases List.mem_append.mp hlater with hrest | hlast
    · exact h before locking rest rfl hlocks later hrest
    · rw [List.mem_singleton.mp hlast]
      cases rest with
      | nil =>
        obtain ⟨lock, hlock, hle⟩ := hkept before locking rfl hlocks
        exact hle.trans (hunlocked lock hlock)
      | cons next rest =>
        have hnext := h before locking (next::rest) rfl hlocks next List.mem_cons_self
        exact hnext.trans (htimes next (by simp))

theorem LockKept.concat (h : Locks vs v → ∃ lock, credential.lockedUntilMs = some lock ∧
    v.now+totpLockMs ≤ lock) :
    LockKept (vs ++ [v]) credential := by
  intro before last heq hlocks
  obtain ⟨rfl, hlast⟩ := List.append_inj' heq rfl
  cases hlast
  exact h hlocks

theorem lockKept_nil : LockKept [] credential := by
  intro before v heq
  cases before <;> cases heq

theorem throttled_nil : Throttled [] := by
  intro before v rest heq
  cases before <;> cases heq

end Verifications

section Credentials

variable (z : Environment)

/-- What the credential of a user says of the factors that were given. -/
structure Accounts (userId : String) (log : List Event) (credential : TotpCredential) : Prop where
  counters : ∀ n ∈ acceptedCounters userId log, ∃ last, credential.lastAcceptedCounter = some last ∧ n ≤ last
  recoveries : ∀ hash ∈ acceptedRecoveries userId log, hash ∉ credential.recoveryCodeHashes
  hashes : credential.recoveryCodeHashes.Nodup
  failures : credential.failedAttempts = failureRun (verifications userId log)
  lock : LockKept (verifications userId log) credential

/-- The last event is a step of the creation of the user. -/
def Opening (userId : String) : Event → Prop
  | .created user _ => user.id = userId
  | .indexed _ id => id = userId
  | .listed ids => ids.getLast? = some userId
  | _ => False

structure Factored (userId : String) (now : ℕ) (w : State) : Prop where
  created : ∀ credential, w.store.credentials userId = some credential → ¬ Uncreated userId w.log
  opening : ∀ e, w.log.getLast? = some e → Opening userId e →
    w.store.credentials userId = none ∧ ¬ Uncreated userId w.log
  absent : w.store.credentials userId = none → factorsGiven userId w.log = [] ∧
    verifications userId w.log = []
  present : ∀ credential, w.store.credentials userId = some credential → Accounts userId w.log credential
  increasing : (acceptedCounters userId w.log).Pairwise (· < ·)
  distinct : (acceptedRecoveries userId w.log).Nodup
  throttled : Throttled (verifications userId w.log)
  times : ∀ v ∈ verifications userId w.log, v.now ≤ now

variable {z} {t : Turn} {m : Moment} {w : State} {e : Event} {quiet : Prop} {userId : String} {now : ℕ}

theorem factorsGiven_after : factorsGiven userId (w.after e).log =
    factorsGiven userId w.log ++ (factorGiven userId e).toList := by
  rw [factorsGiven, State.after, List.filterMap_append]
  cases h : factorGiven userId e <;> simp [factorsGiven, h]

theorem verifications_after : verifications userId (w.after e).log =
    verifications userId w.log ++ (verificationOf userId e).toList := by
  rw [verifications, State.after, List.filterMap_append]
  cases h : verificationOf userId e <;> simp [verifications, h]

theorem Uncreated.of_after (h : Uncreated userId (w.after e).log) : Uncreated userId w.log :=
  fun user origin hmem => h user origin (List.mem_append_left _ hmem)

/-- An event that is not about the credential of the user. -/
theorem Factored.frame (h : Factored userId now w)
    (hcredentials : (w.after e).store.credentials userId = w.store.credentials userId)
    (hfactor : factorGiven userId e = none) (hverification : verificationOf userId e = none)
    (hopening : Opening userId e → w.store.credentials userId = none ∧ ¬ Uncreated userId (w.after e).log) :
    Factored userId now (w.after e) := by
  have hfactors : factorsGiven userId (w.after e).log = factorsGiven userId w.log := by
    rw [factorsGiven_after, hfactor, Option.toList_none, List.append_nil]
  have hverifications : verifications userId (w.after e).log = verifications userId w.log := by
    rw [verifications_after, hverification, Option.toList_none, List.append_nil]
  constructor
  · rw [hcredentials]
    exact fun credential hc hun => h.created credential hc hun.of_after
  · intro last hlast hlastOpening
    rw [State.after, List.getLast?_concat, Option.some.injEq] at hlast
    rw [hcredentials]
    exact hopening (hlast ▸ hlastOpening)
  · rw [hcredentials, hfactors, hverifications]
    exact h.absent
  · rw [hcredentials]
    intro credential hc
    have hpresent := h.present credential hc
    constructor
    · rw [acceptedCounters, hfactors]
      exact hpresent.counters
    · rw [acceptedRecoveries, hfactors]
      exact hpresent.recoveries
    · exact hpresent.hashes
    · rw [hverifications]
      exact hpresent.failures
    · rw [hverifications]
      exact hpresent.lock
  · rw [acceptedCounters, hfactors]
    exact h.increasing
  · rw [acceptedRecoveries, hfactors]
    exact h.distinct
  · rw [hverifications]
    exact h.throttled
  · rw [hverifications]
    exact h.times

end Credentials

section Steps

variable {z : Environment} {t : Turn} {m : Moment} {w : State} {e : Event} {quiet : Prop} {userId : String}
  {factor : Factor} {credential old : TotpCredential} {log : List Event} {before : List Factor}

/-- The counters after a factor that has not been used. -/
theorem counters_given {counters : List ℕ}
    (hbound : ∀ n ∈ counters, ∃ last, old.lastAcceptedCounter = some last ∧ n ≤ last)
    (hordered : counters.Pairwise (· < ·)) (hunused : old.unused factor) :
    (counters ++ factor.counterOf.toList).Pairwise (· < ·) ∧ ∀ n ∈ counters ++ factor.counterOf.toList,
      ∃ last, (old.afterFactor factor).lastAcceptedCounter = some last ∧ n ≤ last := by
  cases factor with
  | recovery hash =>
    rw [Factor.counterOf, Option.toList_none, List.append_nil]
    exact ⟨hordered, hbound⟩
  | counter given =>
    have hless : ∀ n ∈ counters, n < given := by
      intro n hn
      obtain ⟨last, hlast, hle⟩ := hbound n hn
      exact hle.trans_lt (hunused last hlast)
    rw [Factor.counterOf, Option.toList_some]
    constructor
    · rw [List.pairwise_append]
      refine ⟨hordered, List.pairwise_singleton _ _, ?_⟩
      intro n hn later hlater
      rw [List.mem_singleton.mp hlater]
      exact hless n hn
    · intro n hn
      refine ⟨given, rfl, ?_⟩
      rcases List.mem_append.mp hn with hn | hn
      · exact (hless n hn).le
      · exact (List.mem_singleton.mp hn).le

/-- The recovery codes after a factor that has not been used. -/
theorem recoveries_given {recoveries : List String}
    (hgone : ∀ hash ∈ recoveries, hash ∉ old.recoveryCodeHashes)
    (hhashes : old.recoveryCodeHashes.Nodup) (hdistinct : recoveries.Nodup) (hunused : old.unused factor) :
    (recoveries ++ factor.recoveryOf.toList).Nodup ∧ (old.afterFactor factor).recoveryCodeHashes.Nodup ∧
      ∀ hash ∈ recoveries ++ factor.recoveryOf.toList,
        hash ∉ (old.afterFactor factor).recoveryCodeHashes := by
  cases factor with
  | counter given =>
    rw [Factor.recoveryOf, Option.toList_none, List.append_nil]
    exact ⟨hdistinct, hhashes, hgone⟩
  | recovery given =>
    rw [Factor.recoveryOf, Option.toList_some]
    refine ⟨?_, hhashes.erase given, ?_⟩
    · rw [← List.concat_eq_append, List.nodup_concat]
      exact ⟨fun hmem => hgone given hmem hunused, hdistinct⟩
    · intro hash hmem hleft
      rcases List.mem_append.mp hmem with hmem | hmem
      · exact hgone hash hmem (List.mem_of_mem_erase hleft)
      · rw [List.mem_singleton.mp hmem] at hleft
        exact hhashes.not_mem_erase hleft

theorem acceptedCounters_after (h : factorGiven userId e = some factor) :
    acceptedCounters userId (w.after e).log = acceptedCounters userId w.log ++ factor.counterOf.toList := by
  rw [acceptedCounters, factorsGiven_after, h, Option.toList_some, List.filterMap_append]
  cases factor <;> rfl

theorem acceptedRecoveries_after (h : factorGiven userId e = some factor) :
    acceptedRecoveries userId (w.after e).log = acceptedRecoveries userId w.log ++
      factor.recoveryOf.toList := by
  rw [acceptedRecoveries, factorsGiven_after, h, Option.toList_some, List.filterMap_append]
  cases factor <;> rfl

theorem times_after {now : ℕ} {v : Verification}
    (h : ∀ earlier ∈ verifications userId w.log, earlier.now ≤ now)
    (hv : verificationOf userId e = some v) (hnow : v.now = now) :
    ∀ earlier ∈ verifications userId (w.after e).log, earlier.now ≤ now := by
  intro earlier hearlier
  rw [verifications_after, hv, Option.toList_some] at hearlier
  rcases List.mem_append.mp hearlier with hbefore | hlast
  · exact h earlier hbefore
  · rw [List.mem_singleton.mp hlast, hnow]

theorem factored_accepted {now : ℕ} (h : Factored userId t.now w)
    (he : Allowed z t quiet True w (.accepted factor credential now)) (hid : credential.userId = userId) :
    Factored userId t.now (w.after (.accepted factor credential now)) := by
  obtain ⟨rfl, -, old, hold, hkey, hunlocked, hunused, rfl⟩ := he
  rw [hid] at hold
  obtain ⟨hcounters, hrecoveries, hhashes, -, hlock⟩ := h.present old hold
  obtain ⟨hincreasing, hbound⟩ := counters_given hcounters h.increasing hunused
  obtain ⟨hdistinct, hnodup, hgone⟩ := recoveries_given hrecoveries hhashes h.distinct hunused
  have hfactor : factorGiven userId (.accepted factor (old.afterFactor factor) t.now) =
    some factor := if_pos hid
  have hverification : verificationOf userId (.accepted factor (old.afterFactor factor) t.now) =
      some ⟨true, t.now⟩ := if_pos hid
  have hstored : (w.after (.accepted factor (old.afterFactor factor) t.now)).store.credentials userId =
      some (old.afterFactor factor) := by
    rw [← hid]
    exact Function.update_self _ _ _
  constructor
  · exact fun _ _ hun => h.created old hold hun.of_after
  · intro last hlast hopening
    rw [State.after, List.getLast?_concat, Option.some.injEq] at hlast
    rw [← hlast] at hopening
    exact hopening.elim
  · intro hnone
    cases hstored.symm.trans hnone
  · intro found hfound
    rw [hstored, Option.some.injEq] at hfound
    subst hfound
    constructor
    · rw [acceptedCounters_after hfactor]
      exact hbound
    · rw [acceptedRecoveries_after hfactor]
      exact hgone
    · exact hnodup
    · rw [verifications_after, hverification, Option.toList_some, failureRun_concat]
      cases factor <;> rfl
    · rw [verifications_after, hverification]
      refine .concat ?_
      intro hlocks
      cases hlocks.1
  · rw [acceptedCounters_after hfactor]
    exact hincreasing
  · rw [acceptedRecoveries_after hfactor]
    exact hdistinct
  · rw [verifications_after, hverification]
    exact h.throttled.concat hlock hunlocked h.times
  · exact times_after h.times hverification rfl

/-- The lock that the last of the failures starts. -/
theorem afterFailure_lock {vs : List Verification} {now : ℕ} (hfailures : old.failedAttempts = failureRun vs)
    (hlocks : Locks vs ⟨false, now⟩) :
    ∃ lock, (old.afterFailure now).lockedUntilMs = some lock ∧ now+totpLockMs ≤ lock := by
  refine ⟨now+totpLockMs, ?_, le_rfl⟩
  rw [TotpCredential.afterFailure, if_pos (by rw [hfailures, hlocks.2])]

theorem afterFailure_failures {vs : List Verification} {now : ℕ}
    (hfailures : old.failedAttempts = failureRun vs) :
    (old.afterFailure now).failedAttempts = failureRun (vs ++ [⟨false, now⟩]) := by
  rw [failureRun_concat, TotpCredential.afterFailure, hfailures]
  by_cases h : totpMaxFailures ≤ failureRun vs+1 <;> simp [h]

theorem factored_failed {now : ℕ} (h : Factored userId t.now w)
    (he : Allowed z t quiet True w (.failed credential now)) (hid : credential.userId = userId) :
    Factored userId t.now (w.after (.failed credential now)) := by
  obtain ⟨rfl, old, hold, hkey, hunlocked, rfl⟩ := he
  rw [hid] at hold
  have hpresent := h.present old hold
  have hsame : (old.afterFailure t.now).lastAcceptedCounter = old.lastAcceptedCounter ∧
      (old.afterFailure t.now).recoveryCodeHashes = old.recoveryCodeHashes := by
    rw [TotpCredential.afterFailure]
    split <;> exact ⟨rfl, rfl⟩
  have hfactors : factorsGiven userId (w.after (.failed (old.afterFailure t.now) t.now)).log =
      factorsGiven userId w.log := by
    rw [factorsGiven_after]
    exact List.append_nil _
  have hverification : verificationOf userId (.failed (old.afterFailure t.now) t.now) = some ⟨false, t.now⟩ :=
    if_pos hid
  have hstored : (w.after (.failed (old.afterFailure t.now) t.now)).store.credentials userId =
      some (old.afterFailure t.now) := by
    rw [← hid]
    exact Function.update_self _ _ _
  constructor
  · exact fun _ _ hun => h.created old hold hun.of_after
  · intro last hlast hopening
    rw [State.after, List.getLast?_concat, Option.some.injEq] at hlast
    rw [← hlast] at hopening
    exact hopening.elim
  · intro hnone
    cases hstored.symm.trans hnone
  · intro found hfound
    rw [hstored, Option.some.injEq] at hfound
    subst hfound
    constructor
    · rw [acceptedCounters, hfactors, hsame.1]
      exact hpresent.counters
    · rw [acceptedRecoveries, hfactors, hsame.2]
      exact hpresent.recoveries
    · rw [hsame.2]
      exact hpresent.hashes
    · rw [verifications_after, hverification]
      exact afterFailure_failures hpresent.failures
    · rw [verifications_after, hverification]
      exact .concat (afterFailure_lock hpresent.failures)
  · rw [acceptedCounters, hfactors]
    exact h.increasing
  · rw [acceptedRecoveries, hfactors]
    exact h.distinct
  · rw [verifications_after, hverification]
    exact h.throttled.concat hpresent.lock hunlocked h.times
  · exact times_after h.times hverification rfl

theorem factored_enrolled {counter : ℕ} (h : Factored userId t.now w)
    (hrecovery : (recoveryHashes z t.random).Nodup)
    (he : Allowed z t quiet True w (.enrolled credential counter)) (hid : credential.userId = userId) :
    Factored userId t.now (w.after (.enrolled credential counter)) := by
  obtain ⟨-, ids, secret, hlast, hcredential⟩ := he
  have hopening : Opening userId (.listed (ids ++ [credential.userId])) := by
    rw [Opening, List.getLast?_concat, hid]
  obtain ⟨hnone, hcreated⟩ := h.opening _ hlast hopening
  have hcounter : credential.lastAcceptedCounter = some counter := by
    rw [hcredential]
    rfl
  have hhashes : credential.recoveryCodeHashes = recoveryHashes z t.random := by
    rw [hcredential]
    rfl
  have hfailures : credential.failedAttempts = 0 := by
    rw [hcredential]
    rfl
  obtain ⟨hfactors, hverifications⟩ := h.absent hnone
  have hfactor : factorGiven userId (.enrolled credential counter) = some (.counter counter) := if_pos hid
  have hcounters : acceptedCounters userId (w.after (.enrolled credential counter)).log = [counter] := by
    rw [acceptedCounters_after hfactor, acceptedCounters, hfactors]
    rfl
  have hrecoveries : acceptedRecoveries userId (w.after (.enrolled credential counter)).log = [] := by
    rw [acceptedRecoveries_after hfactor, acceptedRecoveries, hfactors]
    rfl
  have hafter : verifications userId (w.after (.enrolled credential counter)).log = [] := by
    rw [verifications_after, hverifications]
    rfl
  have hstored : (w.after (.enrolled credential counter)).store.credentials userId = some credential := by
    rw [← hid]
    exact Function.update_self _ _ _
  constructor
  · exact fun _ _ hun => hcreated hun.of_after
  · intro last heq hlastOpening
    rw [State.after, List.getLast?_concat, Option.some.injEq] at heq
    rw [← heq] at hlastOpening
    exact hlastOpening.elim
  · intro hnone
    cases hstored.symm.trans hnone
  · intro found hfound
    rw [hstored, Option.some.injEq] at hfound
    subst hfound
    constructor
    · rw [hcounters]
      intro n hn
      exact ⟨counter, hcounter, (List.mem_singleton.mp hn).le⟩
    · intro hash hmem
      rw [hrecoveries] at hmem
      cases hmem
    · rw [hhashes]
      exact hrecovery
    · rw [hafter, hfailures]
      rfl
    · rw [hafter]
      exact lockKept_nil
  · rw [hcounters]
    exact List.pairwise_singleton _ _
  · rw [hrecoveries]
    exact List.nodup_nil
  · rw [hafter]
    exact throttled_nil
  · intro v hv
    rw [hafter] at hv
    cases hv

theorem factored_created {user : StoredUpdateControlUser} {origin : Origin} (h : Factored userId t.now w)
    (he : Allowed z t quiet True w (.created user origin)) :
    Factored userId t.now (w.after (.created user origin)) := by
  apply h.frame rfl rfl rfl
  intro hid
  constructor
  · cases hstored : w.store.credentials userId with
    | none => rfl
    | some credential =>
      obtain ⟨-, -, hfresh, huser, -⟩ := he
      rw [show user.id = userId from hid] at huser
      rw [← huser] at hfresh
      exact absurd (hfresh trivial) (h.created credential hstored)
  · exact fun hun => hun user origin (List.mem_append_right _ List.mem_cons_self) hid

theorem factored_indexed {emailHash id : String} (h : Factored userId t.now w)
    (he : Allowed z t quiet True w (.indexed emailHash id)) :
    Factored userId t.now (w.after (.indexed emailHash id)) := by
  apply h.frame rfl rfl rfl
  intro hid
  obtain ⟨-, user, origin, hlast, huser, -⟩ := he
  obtain ⟨hnone, hcreated⟩ := h.opening _ hlast (huser.symm.trans hid)
  exact ⟨hnone, fun hun => hcreated hun.of_after⟩

theorem factored_listed {ids : List String} (h : Factored userId t.now w)
    (he : Allowed z t quiet True w (.listed ids)) :
    Factored userId t.now (w.after (.listed ids)) := by
  apply h.frame rfl rfl rfl
  intro hid
  obtain ⟨-, emailHash, id, hlast, rfl⟩ := he
  rw [Opening, List.getLast?_concat, Option.some.injEq] at hid
  obtain ⟨hnone, hcreated⟩ := h.opening _ hlast hid
  exact ⟨hnone, fun hun => hcreated hun.of_after⟩

theorem factored_step (h : Factored userId t.now w) (hrecovery : (recoveryHashes z t.random).Nodup)
    (he : Allowed z t quiet True w e) : Factored userId t.now (w.after e) := by
  cases e with
  | created user origin => exact factored_created h he
  | indexed emailHash id => exact factored_indexed h he
  | listed ids => exact factored_listed h he
  | enrolled credential counter =>
    by_cases hid : credential.userId = userId
    · exact factored_enrolled h hrecovery he hid
    · exact h.frame (Function.update_of_ne (Ne.symm hid) _ _) (if_neg hid) rfl False.elim
  | failed credential now =>
    by_cases hid : credential.userId = userId
    · exact factored_failed h he hid
    · exact h.frame (Function.update_of_ne (Ne.symm hid) _ _) rfl (if_neg hid) False.elim
  | accepted factor credential now =>
    by_cases hid : credential.userId = userId
    · exact factored_accepted h he hid
    · exact h.frame (Function.update_of_ne (Ne.symm hid) _ _) (if_neg hid) (if_neg hid) False.elim
  | forgotten key => cases key <;> exact h.frame rfl rfl rfl False.elim
  | _ => exact h.frame rfl rfl rfl False.elim

theorem Factored.later {now : ℕ} (h : Factored userId now w) {later : ℕ} (hle : now ≤ later) :
    Factored userId later w :=
  { h with times := fun v hv => (h.times v hv).trans hle }

variable {legacy : List PendingLogin}

theorem factored_initial : Factored userId 0 (Moment.initial legacy).state := by
  apply foldl_invariant
  · have hnone : ∀ {α : Type} {p : Prop} {a : α}, (none : Option α) = some a → p := fun h => by cases h
    exact ⟨fun _ => hnone, fun _ => hnone, fun _ => ⟨rfl, rfl⟩, fun _ => hnone, List.Pairwise.nil,
      List.nodup_nil, throttled_nil, fun _ hmem => absurd hmem List.not_mem_nil⟩
  · intro w e hw he
    obtain ⟨pending, -, rfl⟩ := List.mem_map.mp he
    exact hw.frame rfl rfl rfl False.elim

theorem factored_reached (h : Reached z legacy m) : Factored userId m.now m.state := by
  apply h.invariant
  · exact factored_initial
  · intro m t hm hserved
    have hstep : ∀ w e, Factored userId t.now w → Allowed z t False True w e →
        Factored userId t.now (w.after e) :=
      fun w e hw he => factored_step hw hserved.recovery he
    exact serve_invariant False.elim (fun _ => hserved.fresh) (hm.later hserved.clock) hstep

end Steps

section Origins

variable {z : Environment} {t : Turn} {m : Moment} {w w' : State} {e : Event} {quiet : Prop}

def originOf : Event → Option Origin
  | .created _ origin => some origin
  | _ => none

/-- What the users come from. -/
def origins (log : List Event) : List Origin := log.filterMap originOf

structure Originating (w : State) : Prop where
  bootstrap : .bootstrap ∈ origins w.log → w.store.userIds ≠ []
  closed : ∀ hash, .invitation hash ∈ origins w.log → w.store.invitations hash = none
  invited : ∀ hash invitation, w.store.invitations hash = some invitation →
    ∃ first, .invited hash first ∈ w.log
  created : ∀ hash, .invitation hash ∈ origins w.log → ∃ first, .invited hash first ∈ w.log
  nodup : (origins w.log).Nodup

theorem origins_append {log rest : List Event} : origins (log ++ rest) = origins log ++ origins rest :=
  List.filterMap_append

/-- An event that creates no user, lists none and is about no invitation. -/
theorem Originating.frame (h : Originating w) (hstore : w'.store.userIds = w.store.userIds)
    (hinvitations : w'.store.invitations = w.store.invitations) (hlog : ∀ e ∈ w.log, e ∈ w'.log)
    (horigins : origins w'.log = origins w.log) : Originating w' where
  bootstrap := by
    rw [horigins, hstore]
    exact h.bootstrap
  closed := by
    rw [horigins, hinvitations]
    exact h.closed
  invited := by
    rw [hinvitations]
    intro hash invitation hstored
    obtain ⟨first, hmem⟩ := h.invited hash invitation hstored
    exact ⟨first, hlog _ hmem⟩
  created := by
    rw [horigins]
    intro hash hmem
    obtain ⟨first, hfirst⟩ := h.created hash hmem
    exact ⟨first, hlog _ hfirst⟩
  nodup := by
    rw [horigins]
    exact h.nodup

theorem origins_after_of_none (he : originOf e = none) : origins (w.after e).log = origins w.log := by
  rw [State.after, origins_append]
  simp [origins, he]

theorem mem_log_after {found : Event} (h : found ∈ w.log) : found ∈ (w.after e).log :=
  List.mem_append_left _ h

/-- An invitation is made under a hash that no user comes from. -/
theorem invited_step {hash : String} {invitation : InvitationRecord} (h : Originating w)
    (hnew : .invitation hash ∉ origins w.log) : Originating (w.after (.invited hash invitation)) where
  bootstrap := by
    rw [origins_after_of_none rfl]
    exact h.bootstrap
  closed := by
    rw [origins_after_of_none rfl]
    intro used hused
    have hne : used ≠ hash := fun heq => hnew (heq ▸ hused)
    exact (Function.update_of_ne hne _ _).trans (h.closed used hused)
  invited := by
    intro found stored hstored
    rcases update_some_eq hstored with ⟨rfl, rfl⟩ | hold
    · exact ⟨invitation, List.mem_append_right _ List.mem_cons_self⟩
    · obtain ⟨first, hfirst⟩ := h.invited found stored hold
      exact ⟨first, mem_log_after hfirst⟩
  created := by
    rw [origins_after_of_none rfl]
    intro used hused
    obtain ⟨first, hfirst⟩ := h.created used hused
    exact ⟨first, mem_log_after hfirst⟩
  nodup := by
    rw [origins_after_of_none rfl]
    exact h.nodup

theorem invitationClosed_step {hash : String} (h : Originating w) :
    Originating (w.after (.invitationClosed hash)) where
  bootstrap := by
    rw [origins_after_of_none rfl]
    exact h.bootstrap
  closed := by
    rw [origins_after_of_none rfl]
    intro used hused
    by_cases heq : used = hash
    · rw [heq]
      exact Function.update_self _ _ _
    · exact (Function.update_of_ne heq _ _).trans (h.closed used hused)
  invited := by
    intro found stored hstored
    obtain ⟨first, hfirst⟩ := h.invited found stored (update_none_eq hstored)
    exact ⟨first, mem_log_after hfirst⟩
  created := by
    rw [origins_after_of_none rfl]
    intro used hused
    obtain ⟨first, hfirst⟩ := h.created used hused
    exact ⟨first, mem_log_after hfirst⟩
  nodup := by
    rw [origins_after_of_none rfl]
    exact h.nodup

theorem originating_listed {ids : List String} (h : Originating w) (hids : ids ≠ []) :
    Originating (w.after (.listed ids)) := by
  have hframe :
      Originating ⟨{ w.store.after (.listed ids) with userIds := w.store.userIds }, w.log ++ [.listed ids]⟩ :=
    h.frame rfl rfl (fun _ hmem => List.mem_append_left _ hmem) (origins_after_of_none rfl)
  exact ⟨fun _ => hids, hframe.closed, hframe.invited, hframe.created, hframe.nodup⟩

theorem originating_step (hserved : Served z m t) (hstart : Originating m.state)
    (hcall : t.call.isEnrollment = false) (h : Originating w)
    (horigins : origins w.log = origins m.state.log) (he : Allowed z t quiet True w e) :
    Originating (w.after e) ∧ origins (w.after e).log = origins m.state.log := by
  cases e with
  | created user origin => exact absurd he.1 (by simp [hcall])
  | invited hash invitation =>
    refine ⟨invited_step h fun hused => ?_, (origins_after_of_none rfl).trans horigins⟩
    obtain ⟨-, ⟨old, hold⟩ | ⟨hhash, -⟩⟩ := he
    · rw [h.closed hash hused] at hold
      cases hold
    · rw [horigins] at hused
      obtain ⟨first, hfirst⟩ := hstart.created hash hused
      exact hserved.invite hash first hfirst hhash
  | invitationClosed hash => exact ⟨invitationClosed_step h, (origins_after_of_none rfl).trans horigins⟩
  | listed ids =>
    obtain ⟨-, emailHash, id, -, rfl⟩ := he
    exact ⟨originating_listed h (by simp), (origins_after_of_none rfl).trans horigins⟩
  | forgotten key =>
    cases key <;> exact ⟨h.frame rfl rfl (fun _ => mem_log_after) (origins_after_of_none rfl),
      (origins_after_of_none rfl).trans horigins⟩
  | _ => exact ⟨h.frame rfl rfl (fun _ => mem_log_after) (origins_after_of_none rfl),
      (origins_after_of_none rfl).trans horigins⟩

theorem originating_browsed (h : Originating w) (hbrowsed : Browsed z w w') : Originating w' := by
  obtain ⟨stored, hlog⟩ := hbrowsed.log
  apply h.frame
  · rw [hbrowsed.store]
  · rw [hbrowsed.store]
  · intro e he
    rw [hlog]
    exact List.mem_append_left _ he
  · have hnone : origins (stored.map fun entry => .userStored entry.1 entry.2) = [] := by
      rw [origins, List.filterMap_map, List.filterMap_eq_nil_iff]
      exact fun _ _ => rfl
    rw [hlog, origins_append, hnone, List.append_nil]

theorem origins_enrollEvents {random : Randoms} {s : Store} {pending : PendingEnrollment}
    {state email displayName secret : String} {counter : ℕ} :
    origins (enrollEvents z random s pending state email displayName secret counter) =
      [enrollmentOrigin pending] := by
  unfold enrollEvents
  cases pending.kind with
  | join => rfl
  | bootstrap => cases s.bootstrapActive <;> rfl

/-- No user comes from what an enrollment comes from. -/
theorem Originating.origin_new {email : String} {origin : Origin} (h : Originating w)
    (horigin : Originated z w.store email origin) : origin ∉ origins w.log := by
  intro hused
  cases origin with
  | bootstrap => exact h.bootstrap hused horigin.1
  | invitation hash =>
    obtain ⟨invitation, hstored⟩ := horigin
    rw [h.closed hash hused] at hstored
    cases hstored

/-- The invitations once a user comes from the origin. -/
def Origin.closes (origin : Origin) (invitations : String → Option InvitationRecord) :
    String → Option InvitationRecord :=
  match origin with
  | .bootstrap => invitations
  | .invitation hash => Function.update invitations hash none

theorem Origin.closes_some {origin : Origin} {invitations : String → Option InvitationRecord} {hash : String}
    {invitation : InvitationRecord} (h : origin.closes invitations hash = some invitation) :
    invitations hash = some invitation := by
  cases origin with
  | bootstrap => exact h
  | invitation last => exact update_none_eq h

theorem Origin.closes_none {origin : Origin} {invitations : String → Option InvitationRecord} {hash : String}
    (h : invitations hash = none) : origin.closes invitations hash = none := by
  cases hclosed : origin.closes invitations hash with
  | none => rfl
  | some invitation =>
    rw [Origin.closes_some hclosed] at h
    cases h

/-- What a user comes from is used up. -/
theorem originating_enrolled {origin : Origin} {email : String} (h : Originating w)
    (horigin : Originated z w.store email origin) (horigins : origins w'.log = origins w.log ++ [origin])
    (hgrown : ∀ e ∈ w.log, e ∈ w'.log) (hids : w'.store.userIds ≠ [])
    (hinvitations : w'.store.invitations = origin.closes w.store.invitations) : Originating w' := by
  constructor
  · exact fun _ => hids
  · intro hash hused
    rw [horigins] at hused
    rw [hinvitations]
    rcases List.mem_append.mp hused with hbefore | hlast
    · exact Origin.closes_none (h.closed hash hbefore)
    · rw [← List.mem_singleton.mp hlast]
      exact Function.update_self _ _ _
  · intro hash invitation hstored
    rw [hinvitations] at hstored
    obtain ⟨first, hfirst⟩ := h.invited hash invitation (Origin.closes_some hstored)
    exact ⟨first, hgrown _ hfirst⟩
  · intro hash hused
    rw [horigins] at hused
    rcases List.mem_append.mp hused with hbefore | hlast
    · obtain ⟨first, hfirst⟩ := h.created hash hbefore
      exact ⟨first, hgrown _ hfirst⟩
    · rw [← List.mem_singleton.mp hlast] at horigin
      obtain ⟨invitation, hstored⟩ := horigin
      obtain ⟨first, hfirst⟩ := h.invited hash invitation hstored
      exact ⟨first, hgrown _ hfirst⟩
  · rw [horigins, ← List.concat_eq_append, List.nodup_concat]
    exact ⟨h.origin_new horigin, h.nodup⟩

theorem originating_enrolls (h : Originating w) (henrolls : Enrolls z t w w') : Originating w' := by
  cases henrolls with
  | browsed hbrowsed => exact originating_browsed h hbrowsed
  | closed state => exact h.frame rfl rfl (fun _ => mem_log_after) (origins_after_of_none rfl)
  | enrolled pending state email displayName secret counter hvalid habsent horigin =>
    apply originating_enrolled h horigin
    · rw [log_foldl, origins_append, origins_enrollEvents]
    · intro e he
      rw [log_foldl]
      exact List.mem_append_left _ he
    · rw [enrolled_userIds]
      simp
    · exact enrolled_invitations w

theorem originating_turn (h : Originating m.state) (hserved : Served z m t) :
    Originating (m.next z t).state := by
  by_cases hcall : t.call.isEnrollment = true
  · exact originating_enrolls h (serve_enrolls hcall)
  · have hother : t.call.isEnrollment = false := Bool.eq_false_iff.mpr hcall
    have hstep : ∀ w e, Originating w ∧ origins w.log = origins m.state.log → Allowed z t False True w e →
        Originating (w.after e) ∧ origins (w.after e).log = origins m.state.log :=
      fun w e hw he => originating_step hserved h hother hw.1 hw.2 he
    exact (serve_invariant False.elim (fun _ => hserved.fresh) ⟨h, rfl⟩ hstep).1

theorem originating_initial {legacy : List PendingLogin} : Originating (Moment.initial legacy).state := by
  apply foldl_invariant
  · exact ⟨nofun, nofun, nofun, nofun, List.nodup_nil⟩
  · intro w e hw he
    obtain ⟨pending, -, rfl⟩ := List.mem_map.mp he
    exact hw.frame rfl rfl (fun _ => mem_log_after) (origins_after_of_none rfl)

theorem originating_reached {legacy : List PendingLogin} (h : Reached z legacy m) : Originating m.state := by
  apply h.invariant
  · exact originating_initial
  · intro m t hm hserved
    exact originating_turn hm hserved

/-- The counters of a user grow and no recovery code is accepted twice. The
failure that makes five since the last success or lock pauses the user, and no
two users come from the bootstrap or from one invitation. -/
theorem factors_accepted_once {legacy : List PendingLogin} (h : Reached z legacy m) :
    (∀ userId, (acceptedCounters userId m.state.log).Pairwise (· < ·)) ∧
      (∀ userId, (acceptedRecoveries userId m.state.log).Nodup) ∧
      (∀ userId, Throttled (verifications userId m.state.log)) ∧
      (origins m.state.log).Nodup :=
  ⟨fun _ => (factored_reached h).increasing, fun _ => (factored_reached h).distinct,
    fun _ => (factored_reached h).throttled, (originating_reached h).nodup⟩

end Origins

section Samples

/-- Any five failures in a row pause the user. -/
def PausedByFive (vs : List Verification) : Prop :=
  ∀ before failures last next rest, vs = before ++ failures ++ [last] ++ next :: rest →
    failures.length+1 = totpMaxFailures → (∀ v ∈ failures ++ [last], v.accepted = false) →
      last.now+totpLockMs ≤ next.now

def sampleGuess (now : ℕ) : Turn :=
  ⟨.completeUserLogin (sampleForm [("state", sampleToken '3'), ("email", "a@b"), ("code", "111111")]
    (some (sampleToken '3'))), now, sampleRandoms '4'⟩

/-- Five failures, and two more when the lock has passed. -/
def sampleGuesses : List Turn :=
  sampleEnrollment ++ [⟨.beginUserLogin (sampleForm [] none), 30000, sampleRandoms '3'⟩] ++
    List.replicate 5 (sampleGuess 30000) ++ List.replicate 2 (sampleGuess 330000)

def sampleGuessed : Moment := sampleGuesses.foldl (Moment.next sampleEnvironment) (.initial [])

theorem reached_sampleGuessed : Reached sampleEnvironment [] sampleGuessed :=
  reached_of_checkedRun .refl (by decide +kernel)

theorem verifications_sampleGuessed : verifications ("usr_" ++ sampleUuid '2') sampleGuessed.state.log =
    List.replicate 5 ⟨false, 30000⟩ ++ List.replicate 2 ⟨false, 330000⟩ := by
  decide +kernel

theorem not_paused_after_lock : Reached sampleEnvironment [] sampleGuessed ∧
    ¬ PausedByFive (verifications ("usr_" ++ sampleUuid '2') sampleGuessed.state.log) := by
  refine ⟨reached_of_checkedRun .refl (by decide +kernel), ?_⟩
  rw [verifications_sampleGuessed]
  intro hpaused
  have hlate := hpaused [⟨false, 30000⟩] (List.replicate 4 ⟨false, 30000⟩) ⟨false, 330000⟩
    ⟨false, 330000⟩ [] rfl rfl
    (by decide)
  exact absurd hlate (by decide)

theorem factors_accepted_once_sample :
    verifications ("usr_" ++ sampleUuid '2') sampleGuessed.state.log ≠ [] ∧
      Throttled (verifications ("usr_" ++ sampleUuid '2') sampleGuessed.state.log) := by
  refine ⟨?_, (factors_accepted_once reached_sampleGuessed).2.2.1 _⟩
  rw [verifications_sampleGuessed]
  exact nofun

end Samples

end AccessStack.Identity
