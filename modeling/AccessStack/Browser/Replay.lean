import AccessStack.Browser.IdempotencyLaws

/-!
# What the requests of a browser call are answered

Every execution is begun by a request that awaits it. A later request of the
key awaits the same execution or is refused, as long as the outcome is kept.
-/

set_option autoImplicit false

namespace AccessStack.BrowserIdempotency
open AccessStack.Runs

section Requests

variable {α ι ρ β : Type} {w : Worker ι ρ β} {s : State ι ρ β} {i r : ℕ} {x x' : Execution ρ}
  {q q' : Request ι β}

/-- The key of the entry that the request looks up. -/
def Request.entryKey (w : Worker ι ρ β) (q : Request ι β) : Option String := (q.key w).filter (· ≠ "")

structure Execution.Timed (now : ℕ) (x : Execution ρ) : Prop where
  began : x.beganAt ≤ now
  once : x.executed ≤ 1
  queued : x.stage = .queued → x.executed = 0
  executed : ∀ t, x.executedAt = some t → x.beganAt ≤ t
  settled : x.stage = .settled ↔ x.settledAt ≠ none
  outcome : x.outcome.isSome = x.settledAt.isSome

structure Accounted (w : Worker ι ρ β) (s : State ι ρ β) : Prop where
  begun : ∀ (i : ℕ) (x : Execution ρ), s.executions[i]? = some x → ∃ q, s.requests[x.request]? = some q ∧
    q.awaits = some i ∧ x.key = q.entryKey w ∧ x.fingerprint = q.fingerprint w
  timed : ∀ (i : ℕ) (x : Execution ρ), s.executions[i]? = some x → x.Timed s.now
  joined : ∀ (r : ℕ) (q : Request ι β) (i : ℕ), s.requests[r]? = some q → q.awaits = some i →
    ∃ x, s.executions[i]? = some x ∧ (x.request = r ∨
      x.key ≠ none ∧ x.key = q.entryKey w ∧ x.fingerprint = q.fingerprint w ∧ x.request < r)
  decided : ∀ (r : ℕ) (q : Request ι β) (i : ℕ) (x : Execution ρ) (key : String), s.requests[r]? = some q →
    q.entryKey w = some key → s.executions[i]? = some x → x.key = some key → x.request < r →
    x.Live w.ttlMs q.arrivedAt →
    if x.fingerprint = q.fingerprint w then q.awaits = some i
    else q.awaits = none ∧ q.answer = some (.error conflictError)
  answered : ∀ (r : ℕ) (q : Request ι β) (i : ℕ) (a : Answer β), s.requests[r]? = some q → q.awaits = some i →
    q.answer = some a → q.abortReason = none → ∃ x outcome metrics, s.executions[i]? = some x ∧
      x.outcome = some outcome ∧ a = replay w q.operation none metrics outcome

theorem get_set {xs : List α} {a b : α} {i j : ℕ} (h : (xs.set i a)[j]? = some b) :
    j = i ∧ b = a ∨ j ≠ i ∧ xs[j]? = some b := by
  rw [List.getElem?_set] at h
  split_ifs at h with heq
  · cases h
    exact .inl ⟨heq.symm, rfl⟩
  · exact .inr ⟨Ne.symm heq, h⟩

theorem set_get {xs : List α} {a b : α} {i j : ℕ} (hi : i < xs.length) (h : xs[j]? = some b) :
    ∃ c, (xs.set i a)[j]? = some c ∧ (j = i ∧ c = a ∨ j ≠ i ∧ c = b) := by
  by_cases heq : j = i
  · subst heq
    exact ⟨a, List.getElem?_set_self hi, .inl ⟨rfl, rfl⟩⟩
  · refine ⟨b, ?_, .inr ⟨heq, rfl⟩⟩
    rw [List.getElem?_set_ne (Ne.symm heq)]
    exact h

/-- The execution goes on for the same request. -/
theorem Accounted.setExecution (h : Accounted w s) {registry : Registry} (hx : s.executions[i]? = some x)
    (hrequest : x'.request = x.request) (hkey : x'.key = x.key)
    (hfingerprint : x'.fingerprint = x.fingerprint) (htimed : x'.Timed s.now)
    (hsettled : ∀ t, x.settledAt = some t → x'.settledAt = some t)
    (houtcome : ∀ outcome, x.outcome = some outcome → x'.outcome = some outcome) :
    Accounted w { s with registry, executions := s.executions.set i x' } := by
  have hlength := (List.getElem?_eq_some_iff.mp hx).1
  have hback : ∀ (j : ℕ) (y : Execution ρ), (s.executions.set i x')[j]? = some y →
    ∃ z, s.executions[j]? = some z ∧
      y.request = z.request ∧ y.key = z.key ∧ y.fingerprint = z.fingerprint ∧ y.Timed s.now ∧
      ∀ t, z.settledAt = some t → y.settledAt = some t := by
    intro j y hy
    rcases get_set hy with ⟨rfl, rfl⟩ | ⟨-, hold⟩
    · exact ⟨x, hx, hrequest, hkey, hfingerprint, htimed, hsettled⟩
    · exact ⟨y, hold, rfl, rfl, rfl, h.timed j y hold, fun _ => id⟩
  constructor
  · intro j y hy
    obtain ⟨z, hz, hsame, hkey', hfingerprint', -, -⟩ := hback j y hy
    rw [hsame, hkey', hfingerprint']
    exact h.begun j z hz
  · intro j y hy
    obtain ⟨z, hz, -, -, -, htimed', -⟩ := hback j y hy
    exact htimed'
  · intro r q j hq hawaits
    obtain ⟨y, hy, hjoined⟩ := h.joined r q j hq hawaits
    obtain ⟨z, hz, hor⟩ := set_get (a := x') hlength hy
    refine ⟨z, hz, ?_⟩
    rcases hor with ⟨rfl, rfl⟩ | ⟨-, rfl⟩
    · cases hx.symm.trans hy
      rw [hrequest, hkey, hfingerprint]
      exact hjoined
    · exact hjoined
  · intro r q j y key hq hqkey hy hykey hlt hlive
    obtain ⟨z, hz, hsame, hkey', hfingerprint', -, hsettled'⟩ := hback j y hy
    rw [hfingerprint']
    apply h.decided r q j z key hq hqkey hz (hkey'.symm.trans hykey) (hsame ▸ hlt)
    intro t ht
    exact hlive t (hsettled' t ht)
  · intro r q j a hq hawaits hanswer habort
    obtain ⟨y, outcome, metrics, hy, hout, ha⟩ := h.answered r q j a hq hawaits hanswer habort
    obtain ⟨z, hz, hor⟩ := set_get (a := x') hlength hy
    refine ⟨z, outcome, metrics, hz, ?_, ha⟩
    rcases hor with ⟨rfl, rfl⟩ | ⟨-, rfl⟩
    · cases hx.symm.trans hy
      exact houtcome outcome hout
    · exact hout

/-- A request without an answer is given one, or is aborted. -/
theorem Accounted.setRequest (h : Accounted w s) {registry : Registry} (hq : s.requests[r]? = some q)
    (hunanswered : q.answer = none) (hkey : q'.entryKey w = q.entryKey w)
    (hfingerprint : q'.fingerprint w = q.fingerprint w) (harrived : q'.arrivedAt = q.arrivedAt)
    (hawaits : q'.awaits = q.awaits)
    (hanswered : ∀ i a, q.awaits = some i → q'.answer = some a → q'.abortReason = none →
      ∃ x outcome metrics, s.executions[i]? = some x ∧ x.outcome = some outcome ∧
        a = replay w q'.operation none metrics outcome) :
    Accounted w { s with registry, requests := s.requests.set r q' } := by
  have hlength := (List.getElem?_eq_some_iff.mp hq).1
  constructor
  · intro j y hy
    obtain ⟨p, hp, hpawaits, hpkey, hpfingerprint⟩ := h.begun j y hy
    obtain ⟨z, hz, hor⟩ := set_get (a := q') hlength hp
    refine ⟨z, hz, ?_⟩
    rcases hor with ⟨heq, rfl⟩ | ⟨-, rfl⟩
    · rw [heq] at hp
      cases hq.symm.trans hp
      rw [hawaits, hkey, hfingerprint]
      exact ⟨hpawaits, hpkey, hpfingerprint⟩
    · exact ⟨hpawaits, hpkey, hpfingerprint⟩
  · exact h.timed
  · intro r' p j hp hpawaits
    rcases get_set hp with ⟨rfl, rfl⟩ | ⟨-, hold⟩
    · rw [hkey, hfingerprint]
      exact h.joined r' q j hq (hawaits.symm.trans hpawaits)
    · exact h.joined r' p j hold hpawaits
  · intro r' p j y key hp hpkey hy hykey hlt hlive
    rcases get_set hp with ⟨rfl, rfl⟩ | ⟨-, hold⟩
    · rw [harrived] at hlive
      have hdecided := h.decided r' q j y key hq (hkey.symm.trans hpkey) hy hykey hlt hlive
      rw [hunanswered] at hdecided
      rw [hfingerprint, hawaits]
      split_ifs at hdecided ⊢ with hsame
      · exact hdecided
      · exact absurd hdecided.2 nofun
    · exact h.decided r' p j y key hold hpkey hy hykey hlt hlive
  · intro r' p j a hp hpawaits hanswer habort
    rcases get_set hp with ⟨rfl, rfl⟩ | ⟨-, hold⟩
    · exact hanswered j a (hawaits.symm.trans hpawaits) hanswer habort
    · exact h.answered r' p j a hold hpawaits hanswer habort

end Requests

section Handling

variable {ι ρ β : Type} {w : Worker ι ρ β} {s : State ι ρ β} {i r : ℕ} {x : Execution ρ} {q : Request ι β}
  {registry : Registry} {ttlMs now : ℕ} {executions : List (Execution ρ)} {e : Entry}

/-- The entry of a key is the one of its live execution. -/
theorem Recorded.entry_of_live (h : Recorded ttlMs now registry executions) (he : e ∈ registry.entries)
    (hx : executions[i]? = some x) (hkey : x.key = some e.key) (hlive : x.Live ttlMs now) :
    e.value = i ∧ x.fingerprint = e.fingerprint := by
  obtain ⟨found, hfound, hsame, hvalue⟩ := h.kept i x e.key hx hkey hlive
  have heq := List.inj_on_of_nodup_map h.distinct hfound he hsame
  subst heq
  obtain ⟨y, hy, hdescribes⟩ := h.described found he
  rw [hvalue] at hy
  cases hx.symm.trans hy
  exact ⟨hvalue, hdescribes.fingerprint⟩

theorem request_lt (h : Accounted w s) (hx : s.executions[i]? = some x) : x.request < s.requests.length := by
  obtain ⟨q, hq, -⟩ := h.begun i x hx
  exact (List.getElem?_eq_some_iff.mp hq).1

theorem append_request {xs : List (Request ι β)} {p : Request ι β} (hp : (xs ++ [q])[r]? = some p) :
    xs[r]? = some p ∨ r = xs.length ∧ p = q := by
  rw [List.getElem?_append] at hp
  split_ifs at hp with hlt
  · exact .inl hp
  · rw [List.getElem?_singleton] at hp
    split_ifs at hp with hzero
    cases hp
    exact .inr ⟨by omega, rfl⟩

theorem append_last (xs : List (Request ι β)) (q : Request ι β) : (xs ++ [q])[xs.length]? = some q := by
  simp

theorem append_kept {xs : List (Request ι β)} {p : Request ι β} (hp : xs[r]? = some p) :
    (xs ++ [q])[r]? = some p := by
  rw [List.getElem?_append_left (List.getElem?_eq_some_iff.mp hp).1]
  exact hp

/-- A request that begins no execution. -/
theorem Accounted.appendRequest (h : Accounted w s) (hunanswered : ∀ i, q.awaits = some i → q.answer = none)
    (hjoined : ∀ i, q.awaits = some i → ∃ x, s.executions[i]? = some x ∧ x.key ≠ none ∧ x.key = q.entryKey w ∧
      x.fingerprint = q.fingerprint w)
    (hdecided : ∀ (i : ℕ) (x : Execution ρ) (key : String), q.entryKey w = some key →
      s.executions[i]? = some x →
      x.key = some key → x.Live w.ttlMs q.arrivedAt →
      if x.fingerprint = q.fingerprint w then q.awaits = some i
      else q.awaits = none ∧ q.answer = some (.error conflictError)) :
    Accounted w { s with registry, requests := s.requests ++ [q] } := by
  constructor
  · intro j y hy
    obtain ⟨p, hp, hbegun⟩ := h.begun j y hy
    exact ⟨p, append_kept hp, hbegun⟩
  · exact h.timed
  · intro r p j hp hawaits
    rcases append_request hp with hold | ⟨rfl, rfl⟩
    · exact h.joined r p j hold hawaits
    · obtain ⟨y, hy, hsome, hkey, hfingerprint⟩ := hjoined j hawaits
      exact ⟨y, hy, .inr ⟨hsome, hkey, hfingerprint, request_lt h hy⟩⟩
  · intro r p j y key hp hpkey hy hykey hlt hlive
    rcases append_request hp with hold | ⟨-, rfl⟩
    · exact h.decided r p j y key hold hpkey hy hykey hlt hlive
    · exact hdecided j y key hpkey hy hykey hlive
  · intro r p j a hp hawaits hanswer habort
    rcases append_request hp with hold | ⟨-, rfl⟩
    · exact h.answered r p j a hold hawaits hanswer habort
    · exact absurd ((hunanswered j hawaits).symm.trans hanswer) nofun

/-- A request that begins an execution. -/
theorem Accounted.appendBoth (h : Accounted w s) (hunanswered : q.answer = none)
    (hawaits : q.awaits = some s.executions.length) (hrequest : x.request = s.requests.length)
    (hkey : x.key = q.entryKey w) (hfingerprint : x.fingerprint = q.fingerprint w) (htimed : x.Timed s.now)
    (hdead : ∀ (i : ℕ) (y : Execution ρ) (key : String), q.entryKey w = some key → s.executions[i]? = some y →
      y.key = some key → ¬y.Live w.ttlMs q.arrivedAt) :
    Accounted w { s with registry, executions := s.executions ++ [x], requests := s.requests ++ [q] } := by
  constructor
  · intro j y hy
    rcases append_back hy with hold | ⟨rfl, rfl⟩
    · obtain ⟨p, hp, hbegun⟩ := h.begun j y hold
      exact ⟨p, append_kept hp, hbegun⟩
    · refine ⟨q, ?_, hawaits, hkey, hfingerprint⟩
      rw [hrequest]
      exact append_last s.requests q
  · intro j y hy
    rcases append_back hy with hold | ⟨-, rfl⟩
    · exact h.timed j y hold
    · exact htimed
  · intro r p j hp hpawaits
    rcases append_request hp with hold | ⟨rfl, rfl⟩
    · obtain ⟨y, hy, hjoined⟩ := h.joined r p j hold hpawaits
      exact ⟨y, append_old hy, hjoined⟩
    · cases hawaits.symm.trans hpawaits
      exact ⟨x, by simp, .inl hrequest⟩
  · intro r p j y key hp hpkey hy hykey hlt hlive
    rcases append_request hp with hold | ⟨rfl, rfl⟩
    · rcases append_back hy with hy | ⟨-, rfl⟩
      · exact h.decided r p j y key hold hpkey hy hykey hlt hlive
      · have hlength := (List.getElem?_eq_some_iff.mp hold).1
        omega
    · rcases append_back hy with hy | ⟨-, rfl⟩
      · exact absurd hlive (hdead j y key hpkey hy hykey)
      · omega
  · intro r p j a hp hpawaits hanswer habort
    rcases append_request hp with hold | ⟨-, rfl⟩
    · obtain ⟨y, outcome, metrics, hy, hrest⟩ := h.answered r p j a hold hpawaits hanswer habort
      exact ⟨y, outcome, metrics, append_old hy, hrest⟩
    · exact absurd (hunanswered.symm.trans hanswer) nofun

structure Sound (w : Worker ι ρ β) (s : State ι ρ β) : Prop where
  recorded : Recorded w.ttlMs s.now s.registry s.executions
  accounted : Accounted w s

/-- A key without an entry has no live execution. -/
theorem Recorded.dead (h : Recorded ttlMs now registry executions) {k : String}
    (hnone : ∀ e ∈ registry.entries, e.key ≠ k) (hx : executions[i]? = some x) (hkey : x.key = some k) :
    ¬x.Live ttlMs now := by
  intro hlive
  obtain ⟨e, he, hsame, -⟩ := h.kept i x k hx hkey hlive
  exact hnone e he hsame

theorem caught_app {abort : Option Abort} (habort : abort ≠ some .timeout) (error : AppError) :
    caught abort (.app error) = error := by
  cases abort with
  | none => rfl
  | some abort =>
    cases abort with
    | disconnected => rfl
    | timeout => exact absurd rfl habort

theorem handle_sound (h : Sound w s) (harrived : q.arrivedAt = s.now) (hawaits : q.awaits = none)
    (hanswer : q.answer = none) (habort : q.abortReason ≠ some .timeout) : Sound w (handle w s q) := by
  have hspec := run_spec w.maxEntries s.now s.registry (q.key w) (q.fingerprint w) s.executions.length
  have hpruned := h.recorded.prune
  have hnew : ∀ key,
    Execution.Timed s.now (⟨s.requests.length, key, q.fingerprint w, s.now, .queued, 0, none, none,
      none⟩ : Execution ρ) := by
    intro key
    exact ⟨le_rfl, Nat.zero_le 1, fun _ => rfl, nofun, ⟨nofun, fun hsome => absurd rfl hsome⟩, rfl⟩
  unfold handle
  generalize s.registry.run w.maxEntries s.now (q.key w) (q.fingerprint w) s.executions.length = ran at hspec
  cases hspec with
  | keyless hkey =>
    constructor
    · exact h.recorded.keyless hkey
    · apply h.accounted.appendBoth (q := { q with awaits := some s.executions.length })
        hanswer rfl rfl rfl rfl (hnew _)
      intro i y key hqkey
      exact absurd (hkey.symm.trans hqkey) nofun
  | @conflict k e registry hkey he hsame hfingerprint hentries =>
    constructor
    · exact hpruned.counters hentries
    · apply h.accounted.appendRequest
      · intro i hsome
        exact absurd (hawaits.symm.trans hsome) nofun
      · intro i hsome
        exact absurd (hawaits.symm.trans hsome) nofun
      · intro i x key hqkey hx hxkey hlive
        cases hkey.symm.trans hqkey
        have hlive' : x.Live w.ttlMs s.now := harrived ▸ hlive
        obtain ⟨-, hfound⟩ := hpruned.entry_of_live he hx (hxkey.trans (congrArg some hsame.symm)) hlive'
        show if x.fingerprint = q.fingerprint w then q.awaits = some i
          else q.awaits = none ∧
            some (Answer.error (caught q.abortReason (.app conflictError))) =
              some (Answer.error conflictError)
        rw [if_neg (fun heq => hfingerprint (hfound.symm.trans heq)), caught_app habort]
        exact ⟨hawaits, rfl⟩
  | @hit k e registry hkey he hsame hfingerprint hentries =>
    obtain ⟨y, hy, hdescribes⟩ := hpruned.described e he
    constructor
    · exact hpruned.counters hentries
    · apply h.accounted.appendRequest
      · exact fun _ _ => hanswer
      · intro i hsome
        cases hsome
        refine ⟨y, hy, ?_, ?_, hdescribes.fingerprint.trans hfingerprint⟩
        · rw [hdescribes.key]
          nofun
        · exact hdescribes.key.trans ((congrArg some hsame).trans hkey.symm)
      · intro i x key hqkey hx hxkey hlive
        cases hkey.symm.trans hqkey
        have hlive' : x.Live w.ttlMs s.now := harrived ▸ hlive
        obtain ⟨hvalue, hfound⟩ := hpruned.entry_of_live he hx (hxkey.trans (congrArg some hsame.symm)) hlive'
        show if x.fingerprint = q.fingerprint w then some e.value = some i else some e.value = none ∧ _
        rw [if_pos (hfound.trans hfingerprint), hvalue]
  | @capacity k hkey hnone hfull =>
    constructor
    · exact hpruned
    · apply h.accounted.appendRequest
      · intro i hsome
        exact absurd (hawaits.symm.trans hsome) nofun
      · intro i hsome
        exact absurd (hawaits.symm.trans hsome) nofun
      · intro i x key hqkey hx hxkey hlive
        cases hkey.symm.trans hqkey
        exact absurd (harrived ▸ hlive) (hpruned.dead hnone hx hxkey)
  | @miss k registry hkey hnone hentries =>
    constructor
    · exact hpruned.miss hnone hkey rfl rfl rfl hentries
    · apply h.accounted.appendBoth (q := { q with awaits := some s.executions.length })
        hanswer rfl rfl rfl rfl (hnew _)
      intro i y key hqkey hy hykey
      cases hkey.symm.trans hqkey
      rw [harrived]
      exact hpruned.dead hnone hy hykey

end Handling

section Steps

variable {ι ρ β : Type} {w : Worker ι ρ β} {s : State ι ρ β}

theorem initial_sound (w : Worker ι ρ β) : Sound w State.initial where
  recorded := by
    refine ⟨List.nodup_nil, nofun, ?_, ?_⟩
    · intro i x key hx
      exact absurd hx nofun
    · intro i j x y key hx
      exact absurd hx nofun
  accounted := by
    constructor
    · intro i x hx
      exact absurd hx nofun
    · intro i x hx
      exact absurd hx nofun
    · intro r q i hq
      exact absurd hq nofun
    · intro r q i x key hq
      exact absurd hq nofun
    · intro r q i a hq
      exact absurd hq nofun

theorem Accounted.advance (h : Accounted w s) (ms : ℕ) : Accounted w { s with now := s.now+ms } where
  begun := h.begun
  timed := by
    intro i x hx
    have hbefore := h.timed i x hx
    exact ⟨hbefore.began.trans (Nat.le_add_right _ _), hbefore.once, hbefore.queued, hbefore.executed,
      hbefore.settled, hbefore.outcome⟩
  joined := h.joined
  decided := h.decided
  answered := h.answered

theorem execute_sound (h : Sound w s) {i : ℕ} {x : Execution ρ} (hx : s.executions[i]? = some x)
    (hstage : x.stage = .queued) : Sound w (step w s (.execute i)) := by
  have htimed := h.accounted.timed i x hx
  have hunsettled : x.settledAt = none := by
    by_contra hsome
    exact absurd (hstage.symm.trans (htimed.settled.mpr hsome)) nofun
  show Sound w (onExecution s i _)
  unfold onExecution
  rw [hx]
  dsimp only
  constructor
  · exact h.recorded.set hx rfl rfl rfl rfl
  · refine h.accounted.setExecution hx ?_ ?_ ?_ ?_ (fun _ => id) (fun _ => id)
    · rfl
    · rfl
    · rfl
    · refine ⟨htimed.began, ?_, nofun, ?_, ⟨nofun, fun hsome => absurd hunsettled hsome⟩, htimed.outcome⟩
      · show x.executed + 1 ≤ 1
        rw [htimed.queued hstage]
      · intro t ht
        cases ht
        exact htimed.began

theorem settle_sound (h : Sound w s) {i : ℕ} {x : Execution ρ} (hx : s.executions[i]? = some x)
    (hstage : x.stage ≠ .settled) (outcome : Except Failure ρ) : Sound w (step w s (.settle i outcome)) := by
  have htimed := h.accounted.timed i x hx
  have hunsettled : x.settledAt = none := by
    by_contra hsome
    exact hstage (htimed.settled.mpr hsome)
  have hregistry : (if x.key.isSome then s.registry.settle w.ttlMs s.now i else s.registry) =
      s.registry.settle w.ttlMs s.now i := by
    cases hkey : x.key with
    | none => exact (settle_keyless h.recorded hx hkey).symm
    | some key => rfl
  show Sound w (onExecution s i _)
  unfold onExecution
  rw [hx]
  dsimp only
  rw [hregistry]
  constructor
  · exact h.recorded.settle hx hunsettled rfl rfl rfl rfl
  · refine h.accounted.setExecution hx ?_ ?_ ?_ ?_ ?_ ?_
    · rfl
    · rfl
    · rfl
    · exact ⟨htimed.began, htimed.once, nofun, htimed.executed, ⟨fun _ => nofun, fun _ => rfl⟩, rfl⟩
    · intro t ht
      exact absurd (hunsettled.symm.trans ht) nofun
    · intro before hbefore
      have hnone := htimed.outcome
      rw [hbefore, hunsettled] at hnone
      exact absurd hnone nofun

theorem abort_sound (h : Sound w s) {r : ℕ} {q : Request ι β} (hq : s.requests[r]? = some q)
    (hanswer : q.answer = none) (abort : Abort) : Sound w (step w s (.abort r abort)) := by
  show Sound w (onRequest s r _)
  unfold onRequest
  rw [hq]
  dsimp only
  constructor
  · exact h.recorded
  · refine h.accounted.setRequest hq hanswer ?_ ?_ ?_ ?_ ?_
    · rfl
    · rfl
    · rfl
    · rfl
    · intro i a _ _ hnone
      have hsome : (q.abortReason <|> some abort) = none := hnone
      cases hreason : q.abortReason <;> rw [hreason] at hsome <;> exact absurd hsome nofun

theorem deliver_sound (h : Sound w s) {r : ℕ} {q : Request ι β} (hq : s.requests[r]? = some q)
    (hanswer : q.answer = none) : Sound w (step w s (.deliver r)) := by
  show Sound w (onRequest s r _)
  unfold onRequest
  rw [hq]
  dsimp only
  cases hawaited : awaited s q with
  | none => exact h
  | some outcome =>
    constructor
    · dsimp only
      split_ifs
      · exact h.recorded.prune
      · exact h.recorded
    · refine h.accounted.setRequest hq hanswer ?_ ?_ ?_ ?_ ?_
      · rfl
      · rfl
      · rfl
      · rfl
      · intro i a hawaits ha habort
        obtain ⟨x, hx, -⟩ := h.accounted.joined r q i hq hawaits
        have hnone : q.abortReason = none := habort
        have hout : x.outcome = some outcome := by
          unfold awaited at hawaited
          rw [hawaits] at hawaited
          simpa [hx] using hawaited
        have hreplay := Option.some.inj ha
        rw [hnone] at hreplay
        exact ⟨x, outcome, _, hx, hout, hreplay.symm⟩

theorem step_sound (h : Sound w s) (input : Input ι ρ) (hready : Ready s input) :
    Sound w (step w s input) := by
  cases input with
  | advance ms => exact ⟨h.recorded.advance ms, h.accounted.advance ms⟩
  | request ownerScope callId operation input gone =>
    apply handle_sound h rfl rfl rfl
    cases gone <;> nofun
  | execute execution =>
    obtain ⟨x, hx, hstage⟩ := hready
    exact execute_sound h hx hstage
  | settle execution outcome =>
    obtain ⟨x, hx, hstage, -⟩ := hready
    exact settle_sound h hx hstage outcome
  | abort request abort =>
    obtain ⟨q, hq, hanswer, -⟩ := hready
    exact abort_sound h hq hanswer abort
  | deliver request =>
    obtain ⟨q, hq, hanswer, -⟩ := hready
    exact deliver_sound h hq hanswer

theorem reached_sound (h : Reached w s) : Sound w s :=
  h.invariant (initial_sound w) fun _ input hs hready => step_sound hs input hready

end Steps

section Scopes

variable {ι ρ β : Type} {w : Worker ι ρ β} {s : State ι ρ β}

theorem scope_notMem {limit : ℕ} {scope : String}
    (h : Text.bounded isScopeChar isScopeChar limit scope = true) :
    '\x00' ∉ scope.toList := by
  intro hmem
  unfold Text.bounded at h
  split at h
  · cases h
  · rename_i c cs hlist
    rw [Bool.and_eq_true, Bool.and_eq_true, List.all_eq_true] at h
    rw [hlist, List.mem_cons] at hmem
    rcases hmem with rfl | hmem
    · exact absurd h.1.1 (by decide)
    · exact absurd (h.2 _ hmem) (by decide)

theorem ownerScope_notMem (header : Header) : '\x00' ∉ ((browserOwnerScope header).getD "local").toList := by
  cases hscope : browserOwnerScope header with
  | none => decide
  | some scope => exact scope_notMem (Option.filter_eq_some_iff.mp hscope).2

theorem scoped_inj (hinjective : Function.Injective w.sha256) {owner owner' callId callId' : String}
    (hnot : '\x00' ∉ owner.toList) (hnot' : '\x00' ∉ owner'.toList)
    (h : w.sha256 (owner ++ "\x00" ++ callId) = w.sha256 (owner' ++ "\x00" ++ callId')) :
    owner = owner' ∧ callId = callId' := by
  have hlist := congrArg String.toList (hinjective h)
  have hzero : ("\x00" : String).toList = ['\x00'] := rfl
  rw [String.toList_append, String.toList_append, String.toList_append, String.toList_append, hzero,
    List.append_assoc, List.append_assoc, List.singleton_append, List.singleton_append] at hlist
  obtain ⟨howner, hcall⟩ := Text.separated hnot hnot' hlist
  exact ⟨String.toList_injective howner, String.toList_injective hcall⟩

/-- The enumeration of the names, as the schema of a request reads them. -/
def BrowserOperation.ofName (name : String) : Option BrowserOperation :=
  [.status, .connect, .tabs, .selectTab, .dialog, .viewport, .open, .openAuthorizedSite,
    .navigate, .snapshot, .find, .evaluate, .click, .hover, .drag, .scroll, .fill, .formInput,
    .type, .press, .wait, .extract, .sequence, .frameExtract, .frameClick, .frameFill,
    .profilePage, .domIndex, .frameSequence, .navigatePath, .screenshot, .goBack, .goForward,
    .closeTab, .finishTask, .plan, .download, .upload, .console, .networkList, .networkInspect,
    .traceStart, .traceStop, .videoStart, .videoStop, .pdf, .diagnostics].find? (·.name = name)

theorem ofName_name (operation : BrowserOperation) :
    BrowserOperation.ofName operation.name = some operation := by
  cases operation <;> rfl

theorem name_quote (operation : BrowserOperation) : '"' ∉ operation.name.toList := by
  cases operation <;> decide

/-- The operation is read off the end of the text that is hashed. -/
theorem fingerprint_operation (hinjective : Function.Injective w.sha256)
    {operation operation' : BrowserOperation} {input input' : ι}
    (h : createBrowserOperationFingerprint w operation input =
      createBrowserOperationFingerprint w operation' input') :
    operation = operation' := by
  have hlist := congrArg (fun text => text.toList.reverse) (hinjective h)
  have hend : ("\"\x7d" : String).toList = ['"', '\x7d'] := rfl
  have hfield : (",\"operation\":\"" : String).toList = ",\"operation\":".toList ++ ['"'] := rfl
  simp only [fingerprintText, String.toList_append, hend, hfield, List.reverse_append, List.reverse_cons,
    List.reverse_nil, List.nil_append, List.cons_append, List.append_assoc, List.cons.injEq,
      true_and] at hlist
  have hname :=
    (Text.separated (by simpa using name_quote operation) (by simpa using name_quote operation') hlist).1
  have heq := String.toList_injective (List.reverse_injective hname)
  exact Option.some.inj ((ofName_name operation).symm.trans ((congrArg _ heq).trans (ofName_name operation')))

/-- Every owner scope has come from a header. -/
def Scoped (s : State ι ρ β) : Prop := ∀ q ∈ s.requests, ∃ header, q.ownerScope = browserOwnerScope header

theorem handle_scoped (h : Scoped s) {q : Request ι β}
    (hq : ∃ header, q.ownerScope = browserOwnerScope header) :
    Scoped (handle w s q) := by
  intro p hp
  unfold handle at hp
  split at hp <;>
  · rcases List.mem_append.mp hp with hold | hnew
    · exact h p hold
    · cases List.mem_singleton.mp hnew
      exact hq

theorem set_scoped (h : Scoped s) {r : ℕ} {q q' : Request ι β} (hq : s.requests[r]? = some q)
    (howner : q'.ownerScope = q.ownerScope) :
    ∀ p ∈ s.requests.set r q', ∃ header, p.ownerScope = browserOwnerScope header := by
  intro p hp
  rcases List.mem_or_eq_of_mem_set hp with hold | rfl
  · exact h p hold
  · rw [howner]
    exact h q (List.mem_of_getElem? hq)

theorem step_scoped (h : Scoped s) (input : Input ι ρ) : Scoped (step w s input) := by
  cases input with
  | advance ms => exact h
  | request ownerScope callId operation input gone => exact handle_scoped h ⟨ownerScope, rfl⟩
  | execute execution =>
    show Scoped (onExecution s execution _)
    unfold onExecution
    split <;> exact h
  | settle execution outcome =>
    show Scoped (onExecution s execution _)
    unfold onExecution
    split <;> exact h
  | abort request abort =>
    show Scoped (onRequest s request _)
    unfold onRequest
    split
    · exact h
    · rename_i q hq
      exact set_scoped h hq rfl
  | deliver request =>
    show Scoped (onRequest s request _)
    unfold onRequest
    split
    · exact h
    · rename_i q hq
      dsimp only
      split
      · exact h
      · exact set_scoped h hq rfl

theorem reached_scoped (h : Reached w s) : Scoped s :=
  h.invariant (I := Scoped) (fun _ hq => absurd hq List.not_mem_nil) fun _ input hs _ => step_scoped hs input

/-- The request is a mutating one of the owner with the call id. -/
def Request.IsCall (q : Request ι β) (owner : Option String) (callId : String) : Prop :=
  isMutatingOperation q.operation = true ∧ q.ownerScope = owner ∧ q.callId = some callId

instance (q : Request ι β) (owner : Option String) (callId : String) : Decidable (q.IsCall owner callId) :=
  inferInstanceAs (Decidable (_ ∧ _ ∧ _))

def callKey (w : Worker ι ρ β) (owner : Option String) (callId : String) : String :=
  w.sha256 (owner.getD "local" ++ "\x00" ++ callId)

theorem call_entryKey (hnonempty : ∀ text, w.sha256 text ≠ "") {q : Request ι β} {owner : Option String}
    {callId : String} (h : q.IsCall owner callId) : q.entryKey w = some (callKey w owner callId) := by
  obtain ⟨hmutating, rfl, hcall⟩ := h
  unfold Request.entryKey Request.key
  rw [if_pos hmutating, scopedBrowserCallId, hcall, Option.map_some]
  exact Option.filter_eq_some_iff.mpr ⟨rfl, decide_eq_true (hnonempty _)⟩

/-- A key is of a mutating request with a call id. -/
theorem entryKey_call {q : Request ι β} {key : String} (h : q.entryKey w = some key) :
    ∃ callId, q.IsCall q.ownerScope callId ∧ key = callKey w q.ownerScope callId := by
  have hkey := (Option.filter_eq_some_iff.mp h).1
  unfold Request.key at hkey
  split_ifs at hkey with hmutating
  obtain ⟨callId, hcall, rfl⟩ := Option.map_eq_some_iff.mp hkey
  exact ⟨callId, ⟨hmutating, rfl, hcall⟩, rfl⟩

/-- Without an abort the answer depends on the outcome, and for `connect` on
the counters. -/
theorem replay_metrics {operation : BrowserOperation} (hconnect : operation ≠ .connect)
    (hmutating : isMutatingOperation operation = true) (metrics metrics' : Metrics)
    (outcome : Except Failure ρ) :
    replay w operation none metrics outcome = replay w operation none metrics' outcome := by
  have hstatus : operation ≠ .status := by
    rintro rfl
    exact absurd hmutating nofun
  cases outcome with
  | error failure => rfl
  | ok result =>
    have hattach : ∀ metrics, attachIdempotencyMetrics w operation result metrics = result := by
      intro metrics
      unfold attachIdempotencyMetrics
      exact if_neg fun hor => hor.elim hstatus hconnect
    unfold replay
    dsimp only
    rw [hattach metrics, hattach metrics']

end Scopes

section Calls

variable {ι ρ β : Type} {w : Worker ι ρ β} {s : State ι ρ β}

theorem begun_call (hnonempty : ∀ text, w.sha256 text ≠ "") (h : Sound w s) {i : ℕ} {x : Execution ρ}
    {p : Request ι β} {owner : Option String} {callId : String} (hx : s.executions[i]? = some x)
    (hp : s.requests[x.request]? = some p) (hcall : p.IsCall owner callId) :
    x.key = some (callKey w owner callId) ∧ x.fingerprint = p.fingerprint w := by
  obtain ⟨q, hq, -, hkey, hfingerprint⟩ := h.accounted.begun i x hx
  cases hp.symm.trans hq
  exact ⟨hkey.trans (call_entryKey hnonempty hcall), hfingerprint⟩

theorem refused_begins_nothing (h : Sound w s) {r : ℕ} {q : Request ι β} (hq : s.requests[r]? = some q)
    (hawaits : q.awaits = none) : ∀ y ∈ s.executions, y.request ≠ r := by
  intro y hy heq
  obtain ⟨j, hj⟩ := List.mem_iff_getElem?.mp hy
  obtain ⟨p, hp, hpawaits, -⟩ := h.accounted.begun j y hj
  rw [heq] at hp
  cases hq.symm.trans hp
  exact absurd (hawaits.symm.trans hpawaits) nofun

/-- Whoever awaits the execution of another request has made the same call. -/
theorem joined_call (hinjective : Function.Injective w.sha256) (h : Sound w s) (hscoped : Scoped s) {r i : ℕ}
    {q p : Request ι β} {x : Execution ρ} (hq : s.requests[r]? = some q) (hawaits : q.awaits = some i)
    (hx : s.executions[i]? = some x) (hp : s.requests[x.request]? = some p) :
    x.request = r ∨ q.operation = p.operation ∧ q.callId = p.callId ∧
      q.ownerScope.getD "local" = p.ownerScope.getD "local" := by
  obtain ⟨found, hfound, hor⟩ := h.accounted.joined r q i hq hawaits
  cases hx.symm.trans hfound
  refine hor.imp_right ?_
  rintro ⟨hsome, hkey, hfingerprint, -⟩
  obtain ⟨p', hp', -, hkey', hfingerprint'⟩ := h.accounted.begun i x hx
  cases hp.symm.trans hp'
  obtain ⟨key, hxkey⟩ := Option.ne_none_iff_exists'.mp hsome
  obtain ⟨callId, hcall, hq'⟩ := entryKey_call (hkey.symm.trans hxkey)
  obtain ⟨callId', hcall', hp''⟩ := entryKey_call (hkey'.symm.trans hxkey)
  obtain ⟨header, howner⟩ := hscoped q (List.mem_of_getElem? hq)
  obtain ⟨header', howner'⟩ := hscoped p (List.mem_of_getElem? hp)
  obtain ⟨hsame, rfl⟩ := scoped_inj hinjective (howner ▸ ownerScope_notMem header)
    (howner' ▸ ownerScope_notMem header') (hq'.symm.trans hp'')
  exact ⟨fingerprint_operation hinjective (hfingerprint.symm.trans hfingerprint'),
    hcall.2.2.trans hcall'.2.2.symm, hsame⟩

/-- The owner scopes are the same, or one is absent and the other `local`. -/
def SameScope (owner owner' : Option String) : Prop :=
  owner = owner' ∨ owner = none ∧ owner' = some "local" ∨ owner = some "local" ∧ owner' = none

theorem sameScope_of_getD {owner owner' : Option String} (h : owner.getD "local" = owner'.getD "local") :
    SameScope owner owner' := by
  cases owner <;> cases owner' <;> simp_all [SameScope]

/-- What a request has been answered stays its answer. -/
theorem answer_step {input : Input ι ρ} {r : ℕ} {q : Request ι β} {answer : Answer β} (hready : Ready s input)
    (hq : s.requests[r]? = some q) (hanswer : q.answer = some answer) :
    ∃ q', (step w s input).requests[r]? = some q' ∧ q'.answer = some answer := by
  have hother : ∀ (request : ℕ) (found after : Request ι β), s.requests[request]? = some found →
      found.answer = none → (s.requests.set request after)[r]? = some q := by
    intro request found after hfound hnone
    rw [List.getElem?_set_ne, hq]
    rintro rfl
    cases hq.symm.trans hfound
    exact absurd (hanswer.symm.trans hnone) nofun
  cases input with
  | advance ms => exact ⟨q, hq, hanswer⟩
  | request ownerScope callId operation input gone =>
    have hold : ∀ added : Request ι β, (s.requests ++ [added])[r]? = some q := by
      intro added
      rw [List.getElem?_append_left (List.getElem?_eq_some_iff.mp hq).1, hq]
    simp only [step, handle]
    split
    · exact ⟨q, hold _, hanswer⟩
    · exact ⟨q, hold _, hanswer⟩
    · exact ⟨q, hold _, hanswer⟩
  | execute execution =>
    simp only [step, onExecution]
    split
    · exact ⟨q, hq, hanswer⟩
    · exact ⟨q, hq, hanswer⟩
  | settle execution outcome =>
    simp only [step, onExecution]
    split
    · exact ⟨q, hq, hanswer⟩
    · exact ⟨q, hq, hanswer⟩
  | abort request abort =>
    obtain ⟨found, hfound, hnone, -⟩ := hready
    simp only [step, onRequest, Option.mem_def.mp hfound]
    exact ⟨q, hother request found _ hfound hnone, hanswer⟩
  | deliver request =>
    obtain ⟨found, hfound, hnone, -⟩ := hready
    simp only [step, onRequest, Option.mem_def.mp hfound]
    split
    · exact ⟨q, hq, hanswer⟩
    · exact ⟨q, hother request found _ hfound hnone, hanswer⟩

theorem answer_kept {r : ℕ} {q : Request ι β} {answer : Answer β} {s' : State ι ρ β}
    (hlater : Reaches (step w) Ready s s') (hq : s.requests[r]? = some q) (hanswer : q.answer = some answer) :
    ∃ q', s'.requests[r]? = some q' ∧ q'.answer = some answer := by
  apply hlater.invariant (I := fun t => ∃ q', t.requests[r]? = some q' ∧ q'.answer = some answer)
    ⟨q, hq, hanswer⟩
  rintro t input ⟨q', hq', hanswer'⟩ hready
  exact answer_step hready hq' hanswer'

/-- A cancellation before what is awaited has settled is the answer. -/
theorem abort_answers {r : ℕ} {q : Request ι β} {abort : Abort} (hready : Ready s (.abort r abort))
    (hq : s.requests[r]? = some q) (hwaits : awaited s q = none) :
    ∃ q', (step w s (.abort r abort)).requests[r]? = some q' ∧ q'.answer = some (.error abort.reason) := by
  obtain ⟨found, hfound, -, hgone⟩ := hready
  cases hq.symm.trans hfound
  simp only [step, onRequest, hq]
  refine ⟨_, List.getElem?_set_self (List.getElem?_eq_some_iff.mp hq).1, ?_⟩
  simp only [hwaits, Option.isSome_none, Bool.false_eq_true, if_false]
  cases abort with
  | timeout =>
    cases hreason : q.abortReason with
    | none => rfl
    | some earlier => cases earlier <;> rfl
  | disconnected =>
    rw [hgone rfl]
    rfl

def sampleWorker : Worker Unit String String where
  ttlMs := 1000
  maxEntries := 4
  sha256 := fun text => "#" ++ text
  canonicalJson := fun _ => "\x7b\x7d"
  withMetrics := fun result _ => result
  respond := fun _ result => .ok result

theorem sampleWorker_injective : Function.Injective sampleWorker.sha256 := by
  intro text text' h
  have hlist : ("#" ++ text).toList = ("#" ++ text').toList := congrArg String.toList h
  rw [String.toList_append, String.toList_append] at hlist
  exact String.toList_injective (List.append_cancel_left hlist)

theorem sampleWorker_nonempty (text : String) : sampleWorker.sha256 text ≠ "" := by
  intro h
  have hlist : ("#" ++ text).toList = ("" : String).toList := congrArg String.toList h
  rw [String.toList_append] at hlist
  exact absurd hlist nofun

def sampleRetry : List (Input Unit String) :=
  [.request (.one "owner-a") (.one "call-1") .click () false, .execute 0,
    .request (.one "owner-a") (.one "call-1") .click () false]

/-- The retry awaits the execution of the first request and gets its result,
and the first request times out before that. -/
def sampleAnswered : List (Input Unit String) :=
  sampleRetry ++ [.abort 0 .timeout, .settle 0 (.ok "clicked"), .deliver 1]

/-- A request without an owner scope, and one of the owner `local`. -/
def sampleLocal : List (Input Unit String) :=
  [.request .absent (.one "call-1") .click () false, .execute 0, .settle 0 (.ok "clicked"), .deliver 0,
    .request (.one "local") (.one "call-1") .click () false, .deliver 1]

end Calls

end AccessStack.BrowserIdempotency
