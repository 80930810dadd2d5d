import AccessStack.Companion.InstanceLockLaws

/-!
# The lock of the companion in any interleaving

Any number of processes acquire, hand over and release, and die at any time.
-/

set_option autoImplicit false

namespace AccessStack.InstanceLock
open AccessStack.Runs

section Routines

variable {env : Env} {party number : ℕ} {input : Input} {s : Shared} {options : CompanionInstanceLockOptions}
  {i : Instance}

theorem takeOver_guards {record : CompanionInstanceRecord} {handoverFromInstanceId : String}
    (hoptions : options.handoverFromInstanceId = some handoverFromInstanceId) (h : Waiting party i.number s) :
    Guarding env party (.acquire options) (fun taken s => (taken = true → Taken party i s) ∧
      (taken = false → Waiting party i.number s)) (takeOver i record handoverFromInstanceId) s := by
  have hanything : Stable party (.acquire options) fun _ => True := fun _ _ _ _ => trivial
  refine (writeHandover_guards h).bind fun _ s h => ?_
  refine closing_guards ?_ (fun s => removeHandover_guards trivial hanything fun _ _ _ => trivial)
    fun taken s h => ?_
  · have hseen : ∀ (s : Shared) (seen : ℕ → Option ℕ), Waiting party i.number s →
        Waiting party i.number { s with seen } :=
      fun _ seen h => h.seen seen
    refine (read_guards h waiting_stable hseen).bind fun current s ⟨h, hsaw⟩ => ?_
    split_ifs with hcurrent
    · obtain ⟨r, hr, hfrom⟩ := Option.map_eq_some_iff.mp hcurrent
      obtain ⟨p, hp, hnamed⟩ := hsaw r hr
      refine (rename_guards hoptions h hp (hnamed.symm.trans hfrom)).bind fun _ s htaken => ?_
      exact ⟨fun _ => htaken, nofun⟩
    · exact ⟨nofun, fun _ => h⟩
  · refine removeHandover_guards h ?_ ?_
    · intro s t h hrelies
      exact ⟨fun htaken => taken_stable s t (h.1 htaken) hrelies, fun htaken =>
        waiting_stable s t (h.2 htaken) hrelies⟩
    · intro s files h
      exact ⟨fun htaken => (h.1 htaken).files files, fun htaken => (h.2 htaken).files files⟩

theorem attempts_guards (n : ℕ) (h : Waiting party number s) :
    Guarding env party (.acquire options) (fun _ _ => True) (attempts env options number n) s := by
  induction n generalizing s with
  | zero => exact trivial
  | succ n ih =>
    obtain ⟨i, hi⟩ : ∃ i : Instance, i = ⟨number, options.pid⟩ := ⟨_, rfl⟩
    have hnumber : i.number = number := by rw [hi]
    unfold attempts
    rw [← hi, ← hnumber]
    rw [← hnumber] at h
    refine (calm_guards rfl h waiting_stable).bind fun startedAt s h => ?_
    refine (openLock_guards h).bind fun created s hcreated => ?_
    cases created with
    | true =>
      refine (writeRecord_guards rfl (hcreated.1 rfl)).bind fun _ s h => ?_
      exact createLease_guards h
    | false =>
      refine (readActive_guards (hcreated.2 rfl)).bind fun active s h => ?_
      cases active with
      | none =>
        refine (removeStale_guards h).bind fun _ s h => ?_
        rw [hnumber] at h ⊢
        exact ih h
      | some existing =>
        dsimp only
        split_ifs with hoptions
        · refine (takeOver_guards hoptions h).bind fun taken s htaken => ?_
          cases taken with
          | true => exact createLease_guards (htaken.1 rfl)
          | false =>
            have hwaiting := htaken.2 rfl
            rw [hnumber] at hwaiting ⊢
            exact ih hwaiting
        · exact trivial

/-- An id that has just been drawn is nobody's. -/
theorem randomUUID_guards :
    Guarding env party input (fun number s => Waiting party number s) (call .randomUUID) s := by
  have hanything : Stable party input fun _ => True := fun _ _ _ _ => trivial
  refine guards_call (s := s) trivial hanything (fun _ _ _ _ => trivial) ?_
  intro s host _ hsound _ _
  have hgrows : s.drawers.length ≤ (s.drawers ++ [party]).length := by simp
  refine ⟨?_, ⟨?_, fun _ => .inl, fun _ => id, fun _ => .inl, fun _ _ => rfl, trivial⟩, ?_⟩
  · exact hsound.shrink rfl rfl rfl rfl hsound.leased hgrows
      (fun n hn => (hsound.dropped n hn).trans_le hgrows) fun _ => id
  · intro n p hn
    show (s.drawers ++ [party])[n]? = some p
    rw [List.getElem?_append_left (lt_drawers hn)]
    exact hn
  · intro number hanswer
    cases hanswer
    refine ⟨List.getElem?_concat_length, ?_, ?_⟩
    · exact fun i hi => (hsound.drawn i hi).ne
    · exact fun hfailed => (hsound.dropped _ hfailed).ne rfl

theorem acquire_guards :
    Guarding env party (.acquire options) (fun _ _ => True) (acquireCompanionInstanceLock env options) s := by
  refine randomUUID_guards.bind fun number s h => ?_
  refine (calm_guards rfl h waiting_stable).bind fun _ s h => ?_
  exact attempts_guards 3 h

/-- Whoever is released does not run any more. -/
theorem occupied_released {lease : ℕ} (lock : Option File) :
    ∀ i, Occupied { s with lock, released := lease::s.released } i → Occupied s i := by
  rintro i ⟨halive, hnot, hleased⟩
  exact ⟨halive, fun hin => hnot (List.mem_cons_of_mem _ hin), hleased⟩

/-- A release removes the lock that it has read as its own. -/
theorem release_guards (hinjective : Function.Injective env.uuid) (lease : Instance) :
    Guarding env party (.release lease) (fun _ _ => True) (release env lease) s := by
  have hanything : Stable party (.release lease) fun _ => True := fun _ _ _ _ => trivial
  refine (read_guards (s := s) trivial hanything fun _ _ _ => trivial).bind fun current s ⟨_, hsaw⟩ => ?_
  split_ifs with hcurrent
  · obtain ⟨r, hr, hid⟩ := Option.map_eq_some_iff.mp hcurrent
    obtain ⟨p, hp, hnamed⟩ := hsaw r hr
    have hown : p = lease.number := hinjective (hnamed.symm.trans hid)
    subst hown
    refine Routine.Guards.bind (m := fun _ _ => True) ?_ fun _ _ _ => trivial
    have hstable : Stable party (.release lease) fun s => s.seen party = some lease.number :=
      fun s t h hrelies => hrelies.seen.trans h
    have hrightful : ∀ s : Shared, s.seen party = some lease.number →
      Careful party (.removeOwn lease.number) s →
        Rightful (.release lease) s (.removeOwn lease.number) := by
      intro s hseen hcareful f hf
      exact (Option.some.inj (hseen.symm.trans (hcareful f hf))).symm
    refine guards_call hp hstable (fun s hs _ => hrightful s hs) ?_
    intro s host hs hsound _ hcareful
    refine ⟨hsound.unlock (occupied_released none) ?_, .same
      (hrightful s hs hcareful) rfl rfl rfl rfl, fun _ _ => trivial⟩
    rintro f hf ⟨-, hnot, -⟩
    rw [hrightful s hs hcareful f hf] at hnot
    exact hnot List.mem_cons_self
  · refine Routine.Guards.bind (m := fun _ _ => True) ?_ fun _ _ _ => trivial
    refine guards_call (s := s) trivial hanything (fun _ _ _ _ => trivial) ?_
    intro s host _ hsound _ _
    exact ⟨hsound.shrink rfl rfl rfl rfl hsound.leased le_rfl hsound.dropped (occupied_released s.lock),
      .same trivial rfl rfl rfl rfl, fun _ _ => trivial⟩

end Routines

section Runs

variable {env : Env} {s : State}

theorem initial_sound (env : Env) : Sound env Shared.initial :=
  ⟨nofun, nofun, nofun, nofun, nofun, nofun, nofun, nofun, nofun, nofun, nofun⟩

theorem death_sound {s : Shared} (h : Sound env s) (pid : ℤ) : Sound env { s with dead := pid::s.dead } := by
  refine h.shrink rfl rfl rfl rfl h.leased le_rfl h.dropped ?_
  rintro i ⟨halive, hreleased, hleased⟩
  exact ⟨fun hin => halive (List.mem_cons_of_mem _ hin), hreleased, hleased⟩

theorem lock_checked (hinjective : Function.Injective env.uuid) :
    Machine.Checked (machine env) rules (Sound env) Relies Promises where
  guarded := by
    intro party input s _
    cases input with
    | acquire options => exact acquire_guards.mono (fun _ _ _ => trivial) fun _ _ => id
    | release lease => exact (release_guards hinjective lease).mono (fun _ _ _ => trivial) fun _ _ => id
  compatible := fun party other input input' e s t hne h => promises_relies hne h
  stable := by
    intro s death hsound _
    refine ⟨death_sound hsound death.pid, ?_⟩
    intro party input e _
    exact ⟨fun _ _ => id, fun _ hi _ => hi, fun _ => id, fun _ hn _ => hn, rfl⟩

/-- Two leases that are held are one, or one has been handed over to the
other; a lease is handed over once; a release removes only its own lock, and a
lock is taken over only from whom the call names. -/
theorem lock_exclusive (hinjective : Function.Injective env.uuid)
    (h : Reaches (machine env).step (Machine.Admits rules) (Machine.start Shared.initial) s) :
    (∀ i j, Holding s.shared i → Holding s.shared j →
      i = j ∨ (i.number, j.number) ∈ s.shared.handovers ∨ (j.number, i.number) ∈ s.shared.handovers) ∧
    (∀ p q q', (p, q) ∈ s.shared.handovers → (p, q') ∈ s.shared.handovers → q = q') ∧
    ∀ party input e host, s.At party input e → rules.possible party input e s.shared host →
      Rightful input s.shared e := by
  have hguarded := Machine.reached_guarded (lock_checked hinjective) (initial_sound env) h
  have hsound := hguarded.kept
  refine ⟨?_, ?_, ?_⟩
  · intro i j hi hj
    exact hsound.pairs i (hsound.leased i hi.1) j (hsound.leased j hj.1) hi.occupied hj.occupied
  · intro p q q' hq hq'
    exact congrArg Prod.snd (hsound.single _ hq _ hq' rfl)
  · intro party input e host hat hpossible
    have hpromised : Promises party input e s.shared ((machine env).step s (.act party host)).shared :=
      hguarded.promised hat hpossible
    exact hpromised.rightful

end Runs

section Samples

def sampleEnv : Env := ⟨fun n => String.ofList (List.replicate (n+1) 'a')⟩

theorem sample_injective : Function.Injective sampleEnv.uuid := by
  intro m n h
  have hlength := congrArg (fun text => text.toList.length) h
  simpa [sampleEnv] using hlength

instance (party : ℕ) (e : Op) (s : Shared) : Decidable (Careful party e s) := by
  unfold Careful
  split
  · infer_instance
  · have : Decidable (∀ f, s.lock = some f → s.seen party = some f.owner.number ∨ ¬ Occupied s f.owner) := by
      cases s.lock with
      | none => exact isTrue nofun
      | some f => exact decidable_of_iff (s.seen party = some f.owner.number ∨ ¬ Occupied s f.owner) (by simp)
    infer_instance
  · cases s.lock with
    | none => exact isTrue nofun
    | some f => exact decidable_of_iff (¬ Occupied s f.owner) (by simp)
  · cases s.lock with
    | none => exact isTrue nofun
    | some f => exact decidable_of_iff (s.seen party = some f.owner.number) (by simp)
  · exact isTrue trivial

instance (party : ℕ) (input : Input) (e : Op) (s : Shared) (host : Host) :
    Decidable (rules.possible party input e s host) :=
  inferInstanceAs (Decidable (Present input s ∧ Careful party e s))

instance (s : State) (death : Death) : Decidable (rules.allowed s death) := inferInstanceAs (Decidable True)

/-- Whatever the processes do. -/
def anyRules : Machine.Rules Shared Host Death Input (fun e => Option (Answer e)) Failure Unit where
  possible := fun _ input _ s _ => Present input s
  allowed := fun _ _ => True

instance (party : ℕ) (input : Input) (e : Op) (s : Shared) (host : Host) :
    Decidable (anyRules.possible party input e s host) := inferInstanceAs (Decidable (Present input s))

instance (s : State) (death : Death) : Decidable (anyRules.allowed s death) :=
  inferInstanceAs (Decidable True)

abbrev SampleMove := Move Input Host Death

def acts (n : ℕ) (party : ℕ) : List SampleMove :=
  List.replicate n (.act party ⟨false, "2026-01-01T00:00:00.000Z"⟩)

def arrive (moves : List SampleMove) : State :=
  moves.foldl (machine sampleEnv).step (Machine.start Shared.initial)

def acquires (pid : ℤ) (handoverFromInstanceId : Option String) : SampleMove :=
  .call (.acquire ⟨"/release", pid, handoverFromInstanceId⟩)

/-- The second instance takes over from the first one, which then releases. -/
def handedOver : List SampleMove :=
  [acquires 1 none] ++ acts 8 0 ++ [acquires 2 (some "a")] ++ acts 11 1 ++
    [.call (.release ⟨0, 1⟩)] ++ acts 2 2

theorem lock_exclusive_sample :
    (arrive handedOver).shared.leases = [⟨0, 1⟩, ⟨1, 2⟩] ∧ (arrive handedOver).shared.handovers = [(0, 1)] ∧
    ∀ i j, Holding (arrive handedOver).shared i → Holding (arrive handedOver).shared j →
      i = j ∨ (i.number, j.number) ∈ (arrive handedOver).shared.handovers ∨
        (j.number, i.number) ∈ (arrive handedOver).shared.handovers := by
  have hrun : Admitted (machine sampleEnv).step (Machine.Admits rules)
    (Machine.start Shared.initial) handedOver ∧
      (arrive handedOver).shared.leases = [⟨0, 1⟩, ⟨1, 2⟩] ∧ (arrive handedOver).shared.handovers =
          [(0, 1)] := by
    decide +kernel
  have hreached : Reaches (machine sampleEnv).step (Machine.Admits rules) (Machine.start Shared.initial)
      (arrive handedOver) := Reaches.refl.events hrun.1 rfl
  exact ⟨hrun.2.1, hrun.2.2, (lock_exclusive sample_injective hreached).1⟩

/-- The second instance finds the empty file of the first one. -/
def emptyFile : List SampleMove :=
  [acquires 1 none, acquires 2 none] ++ acts 4 0 ++ acts 14 1 ++ acts 4 0

theorem empty_lock_removed : ¬ ∀ s : State,
    Reaches (machine sampleEnv).step (Machine.Admits anyRules) (Machine.start Shared.initial) s →
    ∀ i j, Holding s.shared i → Holding s.shared j →
      i = j ∨ (i.number, j.number) ∈ s.shared.handovers ∨ (j.number, i.number) ∈ s.shared.handovers := by
  intro h
  have hadmitted : Admitted (machine sampleEnv).step (Machine.Admits anyRules)
      (Machine.start Shared.initial) emptyFile := by
    decide +kernel
  have hreached : Reaches (machine sampleEnv).step (Machine.Admits anyRules) (Machine.start Shared.initial)
      (arrive emptyFile) := Reaches.refl.events hadmitted rfl
  have hfirst : Holding (arrive emptyFile).shared ⟨0, 1⟩ := by
    unfold Holding
    decide +kernel
  have hsecond : Holding (arrive emptyFile).shared ⟨1, 2⟩ := by
    unfold Holding
    decide +kernel
  exact absurd (h (arrive emptyFile) hreached ⟨0, 1⟩ ⟨1, 2⟩ hfirst hsecond) (by decide +kernel)

end Samples

end AccessStack.InstanceLock
