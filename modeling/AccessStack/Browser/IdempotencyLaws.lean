import AccessStack.Browser.Idempotency

/-!
# A call is executed once while its entry is kept

The registry holds every execution that is not settled or settled less than
`ttlMs` ago, so a second execution of a key begins only after that.
-/

set_option autoImplicit false

namespace AccessStack.BrowserIdempotency
open AccessStack.Runs

section Kept

variable {ρ : Type} {ttlMs maxEntries now : ℕ} {r r' : Registry} {executions : List (Execution ρ)} {i : ℕ}
  {x x' : Execution ρ} {key fingerprint : String} {e : Entry}

/-- The execution is not settled, or its outcome is still kept. -/
def Execution.Live (ttlMs now : ℕ) (x : Execution ρ) : Prop := ∀ t, x.settledAt = some t → now < t+ttlMs

/-- The entry is what the registry says about the execution. -/
structure Describes (ttlMs : ℕ) (e : Entry) (x : Execution ρ) : Prop where
  key : x.key = some e.key
  fingerprint : x.fingerprint = e.fingerprint
  settled : e.settled = x.settledAt.isSome
  expires : e.expiresAt = x.settledAt.map (·+ttlMs)

structure Recorded (ttlMs now : ℕ) (r : Registry) (executions : List (Execution ρ)) : Prop where
  distinct : (r.entries.map Entry.key).Nodup
  described : ∀ e ∈ r.entries, ∃ x, executions[e.value]? = some x ∧ Describes ttlMs e x
  kept : ∀ (i : ℕ) (x : Execution ρ) (key : String), executions[i]? = some x → x.key = some key →
    x.Live ttlMs now →
    ∃ e ∈ r.entries, e.key = key ∧ e.value = i
  spaced : ∀ (i j : ℕ) (x y : Execution ρ) (key : String), executions[i]? = some x →
    executions[j]? = some y → x.key = some key →
    y.key = some key → i < j → ∃ t, x.settledAt = some t ∧ t+ttlMs ≤ y.beganAt

theorem Execution.Live.earlier {later : ℕ} (h : x.Live ttlMs later) (hle : now ≤ later) : x.Live ttlMs now :=
  fun t ht => hle.trans_lt (h t ht)

theorem Describes.expired (h : Describes ttlMs e x) : e.isExpired now = true ↔ ¬x.Live ttlMs now := by
  unfold Entry.isExpired Execution.Live
  rw [h.settled, h.expires]
  cases x.settledAt with
  | none => simp
  | some t => simp

theorem Recorded.advance (h : Recorded ttlMs now r executions) (ms : ℕ) :
    Recorded ttlMs (now+ms) r executions where
  distinct := h.distinct
  described := h.described
  kept := fun i x key hx hkey hlive => h.kept i x key hx hkey (hlive.earlier (Nat.le_add_right _ _))
  spaced := h.spaced

/-- Counters are nothing to the entries. -/
theorem Recorded.counters (h : Recorded ttlMs now r executions) (hentries : r'.entries = r.entries) :
    Recorded ttlMs now r' executions where
  distinct := by
    rw [hentries]
    exact h.distinct
  described := by
    rw [hentries]
    exact h.described
  kept := by
    rw [hentries]
    exact h.kept
  spaced := h.spaced

theorem mem_prune : e ∈ (r.prune now).entries ↔ e ∈ r.entries ∧ e.isExpired now = false := by
  simp [Registry.prune]

theorem Recorded.prune (h : Recorded ttlMs now r executions) :
    Recorded ttlMs now (r.prune now) executions where
  distinct := h.distinct.sublist (List.filter_sublist.map _)
  described := fun e he => h.described e (mem_prune.mp he).1
  kept := by
    intro i x key hx hkey hlive
    obtain ⟨e, he, hkey', hvalue⟩ := h.kept i x key hx hkey hlive
    refine ⟨e, mem_prune.mpr ⟨he, ?_⟩, hkey', hvalue⟩
    obtain ⟨found, hfound, hdescribes⟩ := h.described e he
    rw [hvalue] at hfound
    cases hx.symm.trans hfound
    rw [← Bool.not_eq_true, hdescribes.expired, not_not]
    exact hlive
  spaced := h.spaced

/-- The execution goes on without its times and its key. -/
theorem Recorded.set (h : Recorded ttlMs now r executions) (hx : executions[i]? = some x)
    (hkey : x'.key = x.key) (hfingerprint : x'.fingerprint = x.fingerprint)
    (hsettled : x'.settledAt = x.settledAt) (hbegan : x'.beganAt = x.beganAt) :
    Recorded ttlMs now r (executions.set i x') := by
  have hback : ∀ (j : ℕ) (y : Execution ρ), (executions.set i x')[j]? = some y →
    ∃ z, executions[j]? = some z ∧
      y.key = z.key ∧ y.fingerprint = z.fingerprint ∧ y.settledAt = z.settledAt ∧ y.beganAt = z.beganAt := by
    intro j y hy
    rw [List.getElem?_set] at hy
    split_ifs at hy with heq hlt
    · cases hy
      subst heq
      exact ⟨x, hx, hkey, hfingerprint, hsettled, hbegan⟩
    · exact ⟨y, hy, rfl, rfl, rfl, rfl⟩
  constructor
  · exact h.distinct
  · intro e he
    obtain ⟨y, hy, hdescribes⟩ := h.described e he
    by_cases heq : i = e.value
    · subst heq
      cases hx.symm.trans hy
      refine ⟨x', ?_, hkey.trans hdescribes.key, hfingerprint.trans hdescribes.fingerprint, ?_, ?_⟩
      · exact List.getElem?_set_self (List.getElem?_eq_some_iff.mp hx).1
      · rw [hsettled]
        exact hdescribes.settled
      · rw [hsettled]
        exact hdescribes.expires
    · refine ⟨y, ?_, hdescribes⟩
      rw [List.getElem?_set_ne heq]
      exact hy
  · intro j y key hy hkey' hlive
    obtain ⟨z, hz, hsame, -, hsettled', -⟩ := hback j y hy
    apply h.kept j z key hz (hsame.symm.trans hkey')
    unfold Execution.Live at hlive ⊢
    rw [← hsettled']
    exact hlive
  · intro j k y z key hy hz hykey hzkey hlt
    obtain ⟨y', hy', hsame, -, hsettled', -⟩ := hback j y hy
    obtain ⟨z', hz', hsame', -, -, hbegan'⟩ := hback k z hz
    rw [hsettled', hbegan']
    exact h.spaced j k y' z' key hy' hz' (hsame.symm.trans hykey) (hsame'.symm.trans hzkey) hlt

theorem mem_settle : e ∈ (r.settle ttlMs now i).entries ↔ ∃ before ∈ r.entries,
    (if before.value =
      i then { before with settled := true, expiresAt := some (now+ttlMs) } else before) = e := by
  rw [Registry.settle, List.mem_map]

theorem settle_keys : (r.settle ttlMs now i).entries.map Entry.key = r.entries.map Entry.key := by
  show (r.entries.map _).map Entry.key = _
  rw [List.map_map]
  apply List.map_congr_left
  intro e _
  show (if e.value = i then _ else e : Entry).key = e.key
  split_ifs <;> rfl

/-- The promise of an execution settles. -/
theorem Recorded.settle (h : Recorded ttlMs now r executions) (hx : executions[i]? = some x)
    (hunsettled : x.settledAt = none) (hkey : x'.key = x.key) (hfingerprint : x'.fingerprint = x.fingerprint)
    (hsettled : x'.settledAt = some now) (hbegan : x'.beganAt = x.beganAt) :
    Recorded ttlMs now (r.settle ttlMs now i) (executions.set i x') := by
  have hlength := (List.getElem?_eq_some_iff.mp hx).1
  constructor
  · rw [settle_keys]
    exact h.distinct
  · intro e he
    obtain ⟨before, hbefore, rfl⟩ := mem_settle.mp he
    obtain ⟨y, hy, hdescribes⟩ := h.described before hbefore
    split_ifs with heq
    · subst heq
      cases hx.symm.trans hy
      refine ⟨x', List.getElem?_set_self hlength, hkey.trans hdescribes.key,
        hfingerprint.trans hdescribes.fingerprint, ?_, ?_⟩
      · rw [hsettled]
        rfl
      · rw [hsettled]
        rfl
    · refine ⟨y, ?_, hdescribes⟩
      rw [List.getElem?_set_ne (Ne.symm heq)]
      exact hy
  · intro j y key hy hkey' hlive
    have hbefore : ∃ e ∈ r.entries, e.key = key ∧ e.value = j := by
      rw [List.getElem?_set] at hy
      split_ifs at hy with heq
      · cases hy
        subst heq
        apply h.kept i x key hx (hkey.symm.trans hkey')
        intro t ht
        exact absurd (hunsettled.symm.trans ht) nofun
      · exact h.kept j y key hy hkey' hlive
    obtain ⟨e, he, hsame, hvalue⟩ := hbefore
    refine ⟨_, mem_settle.mpr ⟨e, he, rfl⟩, ?_, ?_⟩
    · split_ifs <;> exact hsame
    · split_ifs <;> exact hvalue
  · intro j k y z key hy hz hykey hzkey hlt
    have hz' : ∃ z', executions[k]? = some z' ∧ z'.key = z.key ∧ z'.beganAt = z.beganAt := by
      rw [List.getElem?_set] at hz
      split_ifs at hz with heq
      · cases hz
        subst heq
        exact ⟨x, hx, hkey.symm, hbegan.symm⟩
      · exact ⟨z, hz, rfl, rfl⟩
    obtain ⟨z', hz', hsame, hbegan'⟩ := hz'
    rw [← hbegan']
    rw [List.getElem?_set] at hy
    split_ifs at hy with heq
    · cases hy
      subst heq
      obtain ⟨t, ht, -⟩ := h.spaced i k x z' key hx hz' (hkey.symm.trans hykey) (hsame.trans hzkey) hlt
      exact absurd (hunsettled.symm.trans ht) nofun
    · exact h.spaced j k y z' key hy hz' hykey (hsame.trans hzkey) hlt

/-- An execution without a key is in no entry. -/
theorem settle_keyless (h : Recorded ttlMs now r executions) (hx : executions[i]? = some x)
    (hkey : x.key = none) :
    r.settle ttlMs now i = r := by
  have hentries : (r.settle ttlMs now i).entries = r.entries := by
    show r.entries.map _ = r.entries
    conv_rhs => rw [← List.map_id r.entries]
    apply List.map_congr_left
    intro e he
    obtain ⟨y, hy, hdescribes⟩ := h.described e he
    rw [if_neg]
    · rfl
    · rintro rfl
      cases hx.symm.trans hy
      exact absurd (hkey.symm.trans hdescribes.key) nofun
  show { r with entries := (r.settle ttlMs now i).entries } = r
  rw [hentries]

/-- What `run` does, by what the entries that are left after `prune` say about the key. -/
inductive RunSpec (maxEntries now : ℕ) (r : Registry) (key : Option String) (fingerprint : String)
    (next : ℕ) :
    Registry × Ran → Prop where
  | keyless (hkey : key.filter (· ≠ "") = none) :
    RunSpec maxEntries now r key fingerprint next (r, .operation)
  | conflict {k : String} {e : Entry} {r' : Registry} (hkey : key.filter (· ≠ "") = some k)
    (he : e ∈ (r.prune now).entries) (hsame : e.key = k) (hfingerprint : e.fingerprint ≠ fingerprint)
    (hentries : r'.entries = (r.prune now).entries) :
    RunSpec maxEntries now r key fingerprint next (r', .throws conflictError)
  | hit {k : String} {e : Entry} {r' : Registry} (hkey : key.filter (· ≠ "") = some k)
    (he : e ∈ (r.prune now).entries) (hsame : e.key = k) (hfingerprint : e.fingerprint = fingerprint)
    (hentries : r'.entries = (r.prune now).entries) :
    RunSpec maxEntries now r key fingerprint next (r', .value e.value)
  | capacity {k : String} (hkey : key.filter (· ≠ "") = some k)
    (hnone : ∀ e ∈ (r.prune now).entries, e.key ≠ k)
    (hfull : maxEntries ≤ (r.prune now).entries.length) :
    RunSpec maxEntries now r key fingerprint next (r.prune now, .throws capacityError)
  | miss {k : String} {r' : Registry} (hkey : key.filter (· ≠ "") = some k)
    (hnone : ∀ e ∈ (r.prune now).entries, e.key ≠ k)
    (hentries : r'.entries = (r.prune now).entries ++ [⟨k, fingerprint, none, false, next⟩]) :
    RunSpec maxEntries now r key fingerprint next (r', .operation)

theorem run_spec (maxEntries now : ℕ) (r : Registry) (key : Option String) (fingerprint : String) (next : ℕ) :
    RunSpec maxEntries now r key fingerprint next (r.run maxEntries now key fingerprint next) := by
  unfold Registry.run
  cases key with
  | none => exact .keyless rfl
  | some k =>
    by_cases hempty : k = ""
    · subst hempty
      exact .keyless rfl
    dsimp only
    rw [if_neg hempty]
    have hkey : (some k).filter (· ≠ "") = some k := by simp [hempty]
    cases hfind : (r.prune now).entries.find? (·.key = k) with
    | some existing =>
      have hmem := List.mem_of_find?_eq_some hfind
      have hsame : existing.key = k := by simpa using List.find?_some hfind
      dsimp only
      split_ifs with hfingerprint
      · exact .conflict hkey hmem hsame hfingerprint rfl
      · exact .hit hkey hmem hsame (not_not.mp hfingerprint) rfl
    | none =>
      have hnone : ∀ e ∈ (r.prune now).entries, e.key ≠ k := by
        intro e he
        simpa using List.find?_eq_none.mp hfind e he
      dsimp only
      split_ifs with hfull
      · exact .capacity hkey hnone hfull
      · exact .miss hkey hnone rfl

theorem append_back {y : Execution ρ} {j : ℕ} (hy : (executions ++ [x])[j]? = some y) :
    executions[j]? = some y ∨ j = executions.length ∧ y = x := by
  rw [List.getElem?_append] at hy
  split_ifs at hy with hlt
  · exact .inl hy
  · rw [List.getElem?_singleton] at hy
    split_ifs at hy with hzero
    cases hy
    exact .inr ⟨by omega, rfl⟩

theorem append_old {y : Execution ρ} {j : ℕ} (hy : executions[j]? = some y) :
    (executions ++ [x])[j]? = some y := by
  rw [List.getElem?_append_left (List.getElem?_eq_some_iff.mp hy).1]
  exact hy

/-- An execution begins for which no entry is made. -/
theorem Recorded.keyless (h : Recorded ttlMs now r executions) (hkey : x.key = none) :
    Recorded ttlMs now r (executions ++ [x]) where
  distinct := h.distinct
  described := by
    intro e he
    obtain ⟨y, hy, hdescribes⟩ := h.described e he
    exact ⟨y, append_old hy, hdescribes⟩
  kept := by
    intro j y key hy hkey' hlive
    rcases append_back hy with hold | ⟨-, rfl⟩
    · exact h.kept j y key hold hkey' hlive
    · exact absurd (hkey.symm.trans hkey') nofun
  spaced := by
    intro j k y z key hy hz hykey hzkey hlt
    rcases append_back hz with hz | ⟨-, rfl⟩
    · rcases append_back hy with hy | ⟨-, rfl⟩
      · exact h.spaced j k y z key hy hz hykey hzkey hlt
      · exact absurd (hkey.symm.trans hykey) nofun
    · exact absurd (hkey.symm.trans hzkey) nofun

/-- An execution begins whose key has no entry. -/
theorem Recorded.miss (h : Recorded ttlMs now r executions) (hnone : ∀ e ∈ r.entries, e.key ≠ key)
    (hkey : x.key = some key) (hfingerprint : x.fingerprint = fingerprint) (hsettled : x.settledAt = none)
    (hbegan : x.beganAt = now)
    (hentries : r'.entries = r.entries ++ [⟨key, fingerprint, none, false, executions.length⟩]) :
    Recorded ttlMs now r' (executions ++ [x]) where
  distinct := by
    rw [hentries, List.map_append, List.map_singleton]
    refine List.nodup_append.mpr ⟨h.distinct, List.nodup_singleton _, ?_⟩
    intro other hother last hlast heq
    obtain ⟨e, he, rfl⟩ := List.mem_map.mp hother
    exact hnone e he (heq.trans (List.mem_singleton.mp hlast))
  described := by
    intro e he
    rw [hentries, List.mem_append, List.mem_singleton] at he
    rcases he with he | rfl
    · obtain ⟨y, hy, hdescribes⟩ := h.described e he
      exact ⟨y, append_old hy, hdescribes⟩
    · refine ⟨x, by simp, hkey, hfingerprint, ?_, ?_⟩
      · rw [hsettled]
        rfl
      · rw [hsettled]
        rfl
  kept := by
    intro j y k hy hkey' hlive
    rw [hentries]
    rcases append_back hy with hold | ⟨rfl, rfl⟩
    · obtain ⟨e, he, hfound⟩ := h.kept j y k hold hkey' hlive
      exact ⟨e, List.mem_append_left _ he, hfound⟩
    · cases hkey.symm.trans hkey'
      exact ⟨_, List.mem_append_right _ List.mem_cons_self, rfl, rfl⟩
  spaced := by
    intro j k y z other hy hz hykey hzkey hlt
    rcases append_back hz with hold | ⟨rfl, rfl⟩
    · have hlength := (List.getElem?_eq_some_iff.mp hold).1
      rcases append_back hy with hy | ⟨rfl, rfl⟩
      · exact h.spaced j k y z other hy hold hykey hzkey hlt
      · omega
    · rcases append_back hy with hy | ⟨rfl, rfl⟩
      · cases hkey.symm.trans hzkey
        have hgone : ¬y.Live ttlMs now := by
          intro hlive
          obtain ⟨e, he, hsame, -⟩ := h.kept j y key hy hykey hlive
          exact hnone e he hsame
        unfold Execution.Live at hgone
        push Not at hgone
        obtain ⟨t, ht, hle⟩ := hgone
        exact ⟨t, ht, hle.trans hbegan.ge⟩
      · omega

end Kept

end AccessStack.BrowserIdempotency
