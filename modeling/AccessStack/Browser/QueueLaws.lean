import AccessStack.Browser.Queue

/-!
# The operation queue loses no wake-up

The slots that are held are counted, and whoever waits for one is in the list
exactly once. While somebody waits, the slots that are held and the waiters
that have been woken are as many as there are slots. The promises of a key
settle in the order of the calls.
-/

set_option autoImplicit false

namespace AccessStack.BrowserQueue
open AccessStack.Runs

section Counting

def Call.holds (c : Call) : Bool := c.phase = .admitted || c.phase = .running

def Call.isOver (c : Call) : Bool := c.phase = .refused || c.phase = .finished

/-- The call has not gone on with a slot, nor has it been refused. -/
def Call.waits (c : Call) : Bool := !c.isOver && c.phase ≠ .running

def Call.isResumed (c : Call) : Bool := c.phase = .resumed

/-- What the call has given back is what its phase says. -/
def Call.Returned (c : Call) : Prop :=
  c.slotsReturned = (if c.phase = .finished then 1 else 0) ∧ c.turnsReturned = if c.isOver then 1 else 0

/-- The waiters that have been woken may be fewer by `due`. -/
structure Counted (maxConcurrency due : ℕ) (s : State) : Prop where
  active : s.active = s.calls.countP Call.holds
  bounded : s.active ≤ maxConcurrency
  queued : s.queued = s.calls.countP Call.waits
  distinct : s.slotWaiters.Nodup
  listed : ∀ call, call ∈ s.slotWaiters ↔ ∃ c, s.calls[call]? = some c ∧ c.phase = .waiting
  awake : s.slotWaiters ≠ [] → maxConcurrency ≤ s.active + s.calls.countP Call.isResumed + due
  returned : ∀ c ∈ s.calls, c.Returned

variable {maxConcurrency due due' : ℕ} {s : State} {call : ℕ} {c c' : Call}

@[simp]
theorem put_active : (s.put call c).active = s.active := rfl

theorem call_lt {calls : List Call} (h : calls[call]? = some c) : call < calls.length :=
  (List.getElem?_eq_some_iff.mp h).1

theorem mem_of_call {calls : List Call} (h : calls[call]? = some c) : c ∈ calls := List.mem_of_getElem? h

theorem call_set {calls : List Call} (h : calls[call]? = some c) (other : ℕ) :
    (calls.set call c')[other]? = if other = call then some c' else calls[other]? := by
  rw [List.getElem?_set]
  by_cases heq : call = other
  · rw [if_pos heq, if_pos (call_lt h), if_pos heq.symm]
  · rw [if_neg heq, if_neg (Ne.symm heq)]

theorem countP_set {calls : List Call} (h : calls[call]? = some c) (p : Call → Bool) :
    (calls.set call c').countP p + (p c).toNat = calls.countP p + (p c').toNat := by
  have hlt := call_lt h
  have hat : calls[call] = c := (List.getElem?_eq_some_iff.mp h).2
  have hle := List.boole_getElem_le_countP (p := p) hlt
  have hset := List.countP_set (p := p) (a := c') hlt
  rw [hat] at hle hset
  cases hc : p c <;> cases hc' : p c'
    <;> simp only [hc, hc', if_true, Bool.false_eq_true, if_false, Bool.toNat_true,
    Bool.toNat_false] at hle hset ⊢ <;> omega

theorem Counted.put (h : Counted maxConcurrency due s) (hc : s.calls[call]? = some c)
    {tails : String → Option ℕ} {slotWaiters : List ℕ} {active queued : ℕ}
    (hactive : active + c.holds.toNat = s.active + c'.holds.toNat) (hbounded : active ≤ maxConcurrency)
    (hqueued : queued + c.waits.toNat = s.queued + c'.waits.toNat) (hdistinct : slotWaiters.Nodup)
    (hlisted : ∀ other, other ∈ slotWaiters ↔ if other = call then c'.phase = .waiting else other ∈
      s.slotWaiters)
    (hawake : slotWaiters ≠ [] → maxConcurrency + c.isResumed.toNat ≤
      active + (s.calls.countP Call.isResumed + c'.isResumed.toNat) + due')
    (hreturned : c'.Returned) :
    Counted maxConcurrency due' ⟨s.calls.set call c', tails, slotWaiters, active, queued⟩ where
  active := by
    have hcount : (s.calls.set call c').countP Call.holds + c.holds.toNat =
        s.calls.countP Call.holds + c'.holds.toNat :=
      countP_set hc Call.holds
    have hbefore := h.active
    show active = (s.calls.set call c').countP Call.holds
    omega
  bounded := hbounded
  queued := by
    have hcount : (s.calls.set call c').countP Call.waits + c.waits.toNat =
        s.calls.countP Call.waits + c'.waits.toNat :=
      countP_set hc Call.waits
    have hbefore := h.queued
    show queued = (s.calls.set call c').countP Call.waits
    omega
  distinct := hdistinct
  listed := by
    intro other
    show other ∈ slotWaiters ↔ ∃ found, (s.calls.set call c')[other]? = some found ∧ found.phase = .waiting
    rw [hlisted, call_set hc]
    split_ifs
    · simp
    · exact h.listed other
  awake := by
    intro hsome
    have hcount : (s.calls.set call c').countP Call.isResumed + c.isResumed.toNat =
        s.calls.countP Call.isResumed + c'.isResumed.toNat :=
      countP_set hc Call.isResumed
    have hbefore := hawake hsome
    show maxConcurrency ≤ active + (s.calls.set call c').countP Call.isResumed + due'
    omega
  returned := by
    intro found hfound
    rcases List.mem_or_eq_of_mem_set hfound with hold | rfl
    · exact h.returned found hold
    · exact hreturned

theorem listed_waiting (h : Counted maxConcurrency due s) (hc : s.calls[call]? = some c)
    (hmem : call ∈ s.slotWaiters) : c.phase = .waiting := by
  obtain ⟨found, hfound, hwaiting⟩ := (h.listed call).mp hmem
  cases hc.symm.trans hfound
  exact hwaiting

/-- A call that neither waits for a slot nor is going to leaves the list as it is. -/
theorem Counted.unlisted (h : Counted maxConcurrency due s) (hc : s.calls[call]? = some c)
    (hphase : c.phase ≠ .waiting) (hphase' : c'.phase ≠ .waiting) (other : ℕ) :
    other ∈ s.slotWaiters ↔ if other = call then c'.phase = .waiting else other ∈ s.slotWaiters := by
  split_ifs with heq
  · subst heq
    constructor
    · exact fun hmem => absurd (listed_waiting h hc hmem) hphase
    · exact fun hwaiting => absurd hwaiting hphase'
  · exact Iff.rfl

/-- The call that `enqueue` adds. -/
def newCall (s : State) (key : String) (signal : Option Bool) : Call where
  key := key
  previous := s.tails key
  hasSignal := signal.isSome
  aborted := signal = some true
  phase := if signal = some true then .rejected else .queued
  slotsReturned := 0
  turnsReturned := 0
  settled := false
  cleaning := false

theorem call_enqueued {key : String} {signal : Option Bool}
    (hc : (enqueue s key signal).calls[call]? = some c) :
    s.calls[call]? = some c ∨ call = s.calls.length ∧ c = newCall s key signal := by
  have hc' : (s.calls ++ [newCall s key signal])[call]? = some c := hc
  rw [List.getElem?_append] at hc'
  split_ifs at hc' with hlt
  · exact .inl hc'
  · rw [List.getElem?_singleton] at hc'
    split_ifs at hc' with hzero
    cases hc'
    exact .inr ⟨by omega, rfl⟩

theorem newCall_phase (s : State) (key : String) (signal : Option Bool) :
    (newCall s key signal).phase ≠ .waiting := by
  unfold newCall
  split_ifs <;> nofun

theorem wakeNext_counted (h : Counted maxConcurrency 1 s) : Counted maxConcurrency 0 (wakeNext s) := by
  unfold wakeNext
  cases hwaiters : s.slotWaiters with
  | nil => exact ⟨h.active, h.bounded, h.queued, h.distinct, h.listed, fun hsome =>
    absurd hwaiters hsome, h.returned⟩
  | cons next rest =>
    have hsome : s.slotWaiters ≠ [] := by
      rw [hwaiters]
      exact List.cons_ne_nil next rest
    obtain ⟨c, hc, hphase⟩ := (h.listed next).mp (by rw [hwaiters]; exact List.mem_cons_self)
    have hdistinct := h.distinct
    rw [hwaiters, List.nodup_cons] at hdistinct
    have hreturned := h.returned c (mem_of_call hc)
    have hawake := h.awake hsome
    simp only [hc]
    apply h.put hc
    · simp [Call.holds, hphase]
    · exact h.bounded
    · simp [Call.waits, Call.isOver, hphase]
    · exact hdistinct.2
    · intro other
      split_ifs with heq
      · subst heq
        exact ⟨fun hmem => absurd hmem hdistinct.1, nofun⟩
      · rw [hwaiters, List.mem_cons]
        exact ⟨Or.inr, fun hor => hor.resolve_left heq⟩
    · intro _
      simp only [Call.isResumed, hphase]
      simp
      omega
    · simpa [Call.Returned, Call.isOver, hphase] using hreturned

theorem holds_active (h : Counted maxConcurrency due s) (hc : s.calls[call]? = some c)
    (hholds : c.holds = true) :
    0 < s.active := by
  rw [h.active]
  exact List.countP_pos_iff.mpr ⟨c, mem_of_call hc, hholds⟩

theorem waits_queued (h : Counted maxConcurrency due s) (hc : s.calls[call]? = some c)
    (hwaits : c.waits = true) :
    0 < s.queued := by
  rw [h.queued]
  exact List.countP_pos_iff.mpr ⟨c, mem_of_call hc, hwaits⟩

theorem conclude_counted (h : Counted maxConcurrency 0 s) (hc : s.calls[call]? = some c)
    (hholds : c.holds = true) {queued : ℕ} (hqueued : queued + c.waits.toNat = s.queued) :
    Counted maxConcurrency 0 (conclude { s with queued } call c) := by
  have hactive := holds_active h hc hholds
  have hbounded := h.bounded
  have hreturned := h.returned c (mem_of_call hc)
  have hphase : c.phase = .admitted ∨ c.phase = .running := by simpa [Call.holds] using hholds
  apply wakeNext_counted
  apply h.put hc
  · show s.active - 1 + c.holds.toNat = s.active + 0
    rw [hholds, Bool.toNat_true]
    omega
  · show s.active - 1 ≤ maxConcurrency
    omega
  · exact hqueued
  · exact h.distinct
  · refine h.unlisted hc ?_ nofun
    rcases hphase with hphase | hphase <;> simp [hphase]
  · intro hsome
    have hawake := h.awake hsome
    have hresumed : c.isResumed = false := by
      rcases hphase with hphase | hphase <;> simp [Call.isResumed, hphase]
    rw [hresumed]
    show maxConcurrency + 0 ≤ s.active - 1 + (s.calls.countP Call.isResumed + 0) + 1
    omega
  · rcases hphase with hphase | hphase <;>
      simpa [Call.Returned, Call.isOver, hphase] using hreturned

theorem resumed_le {calls : List Call} (hc : calls[call]? = some c) :
    c.isResumed.toNat ≤ calls.countP Call.isResumed := by
  cases hresumed : c.isResumed with
  | false => exact Nat.zero_le _
  | true => exact List.countP_pos_iff.mpr ⟨c, mem_of_call hc, hresumed⟩

theorem acquireSlot_counted (h : Counted maxConcurrency 0 s) (hc : s.calls[call]? = some c)
    (hphase : c.phase = .granted ∨ c.phase = .resumed) :
    Counted maxConcurrency 0 (acquireSlot maxConcurrency s call c) := by
  have hreturned := h.returned c (mem_of_call hc)
  have hholds : c.holds = false := by rcases hphase with hphase | hphase <;> simp [Call.holds, hphase]
  have hwaits : c.waits = true := by
    rcases hphase with hphase | hphase <;> simp [Call.waits, Call.isOver, hphase]
  have hunlisted : c.phase ≠ .waiting := by rcases hphase with hphase | hphase <;> simp [hphase]
  have hback : ∀ phase, phase ≠ .refused → phase ≠ .finished → ({ c with phase } : Call).Returned := by
    intro phase hrefused hfinished
    rcases hphase with hphase | hphase <;>
      simpa [Call.Returned, Call.isOver, hphase, hrefused, hfinished] using hreturned
  have hresumed := resumed_le hc
  unfold acquireSlot
  split_ifs with hfull haborted
  · apply h.put hc
    · rw [hholds]
      rfl
    · exact h.bounded
    · rw [hwaits]
      rfl
    · exact h.distinct
    · exact h.unlisted hc hunlisted nofun
    · intro _
      show maxConcurrency + c.isResumed.toNat ≤ s.active + (s.calls.countP Call.isResumed + 0) + 0
      omega
    · exact hback .rejected nofun nofun
  · apply h.put hc
    · rw [hholds]
      rfl
    · exact h.bounded
    · rw [hwaits]
      rfl
    · refine List.nodup_append.mpr ⟨h.distinct, List.nodup_singleton call, ?_⟩
      intro other hmem last hlast heq
      cases List.mem_singleton.mp hlast
      subst heq
      exact hunlisted (listed_waiting h hc hmem)
    · intro other
      rw [List.mem_append, List.mem_singleton]
      split_ifs with heq
      · exact ⟨fun _ => rfl, fun _ => Or.inr heq⟩
      · exact ⟨fun hor => hor.resolve_right heq, Or.inl⟩
    · intro _
      show maxConcurrency + c.isResumed.toNat ≤ s.active + (s.calls.countP Call.isResumed + 0) + 0
      omega
    · exact hback .waiting nofun nofun
  · apply h.put hc
    · rw [hholds]
      rfl
    · omega
    · rw [hwaits]
      rfl
    · exact h.distinct
    · exact h.unlisted hc hunlisted nofun
    · intro hsome
      have hawake := h.awake hsome
      have hone := Bool.toNat_le c.isResumed
      show maxConcurrency + c.isResumed.toNat ≤ s.active + 1 + (s.calls.countP Call.isResumed + 0) + 0
      omega
    · exact hback .admitted nofun nofun

/-- A change of the call that no count sees. -/
theorem Counted.quiet (h : Counted maxConcurrency 0 s) (hc : s.calls[call]? = some c)
    (hphase : c'.phase = c.phase) (hslots : c'.slotsReturned = c.slotsReturned)
    (hturns : c'.turnsReturned = c.turnsReturned) :
    Counted maxConcurrency 0 (s.put call c') := by
  have hreturned := h.returned c (mem_of_call hc)
  apply h.put hc
  · simp only [Call.holds, hphase]
  · exact h.bounded
  · simp only [Call.waits, Call.isOver, hphase]
  · exact h.distinct
  · intro other
    split_ifs with heq
    · subst heq
      rw [hphase]
      exact ⟨listed_waiting h hc, fun hwaiting => (h.listed other).mpr ⟨c, hc, hwaiting⟩⟩
    · exact Iff.rfl
  · intro hsome
    have hawake := h.awake hsome
    simp only [Call.isResumed, hphase]
    omega
  · unfold Call.Returned Call.isOver
    rw [hphase, hslots, hturns]
    exact hreturned

/-- The call goes on outside of the slots. -/
theorem Counted.moved (h : Counted maxConcurrency 0 s) (hc : s.calls[call]? = some c)
    {slotWaiters : List ℕ} {queued : ℕ}
    (hfrom : c.phase = .queued ∨ c.phase = .waiting ∨ c.phase = .rejected)
    (hto : c'.phase = .granted ∨ c'.phase = .rejected ∨ c'.phase = .refused)
    (hqueued : queued + 1 = s.queued + c'.waits.toNat)
    (hwaiters : slotWaiters = s.slotWaiters.filter (· ≠ call)) (hreturned : c'.Returned) :
    Counted maxConcurrency 0 { s with calls := s.calls.set call c', slotWaiters, queued } := by
  have hholds : c.holds = false ∧ c.isResumed = false ∧ c.waits = true := by
    rcases hfrom with hphase | hphase | hphase
      <;> simp [Call.holds, Call.isResumed, Call.waits, Call.isOver, hphase]
  have hholds' : c'.holds = false ∧ c'.isResumed = false ∧ c'.phase ≠ .waiting := by
    rcases hto with hphase | hphase | hphase <;> simp [Call.holds, Call.isResumed, hphase]
  subst hwaiters
  apply h.put hc
  · rw [hholds.1, hholds'.1]
  · exact h.bounded
  · rw [hholds.2.2]
    exact hqueued
  · exact h.distinct.filter _
  · intro other
    rw [List.mem_filter, decide_eq_true_eq]
    split_ifs with heq
    · exact ⟨fun hmem => absurd heq hmem.2, fun hwaiting => absurd hwaiting hholds'.2.2⟩
    · exact ⟨And.left, fun hmem => ⟨hmem, heq⟩⟩
  · intro hsome
    have hawake := h.awake fun hnil => hsome (by rw [hnil]; rfl)
    rw [hholds.2.1, hholds'.2.1]
    exact hawake
  · exact hreturned

theorem filter_unlisted (h : Counted maxConcurrency due s) (hc : s.calls[call]? = some c)
    (hphase : c.phase ≠ .waiting) : s.slotWaiters = s.slotWaiters.filter (· ≠ call) := by
  symm
  rw [List.filter_eq_self]
  intro other hmem
  rw [decide_eq_true_eq]
  rintro rfl
  exact hphase (listed_waiting h hc hmem)

theorem abortCall_counted (h : Counted maxConcurrency 0 s) (hc : s.calls[call]? = some c) :
    Counted maxConcurrency 0 (abortCall s call c) := by
  have hreturned := h.returned c (mem_of_call hc)
  have hback : ∀ phase, c.phase = phase → phase ≠ .refused → phase ≠ .finished →
      ({ c with aborted := true, phase := .rejected } : Call).Returned := by
    intro phase hphase hrefused hfinished
    simpa [Call.Returned, Call.isOver, hphase, hrefused, hfinished] using hreturned
  unfold abortCall
  split
  case h_1 hphase =>
    exact h.moved hc (.inl hphase) (.inr (.inl rfl)) rfl (filter_unlisted h hc (by simp [hphase]))
      (hback _ hphase nofun nofun)
  case h_2 hphase =>
    exact h.moved hc (.inr (.inl hphase)) (.inr (.inl rfl)) rfl rfl (hback _ hphase nofun nofun)
  case h_3 => exact h.quiet hc rfl rfl rfl

theorem grant_counted (h : Counted maxConcurrency 0 s) (hc : s.calls[call]? = some c)
    (hphase : c.phase = .queued) :
    Counted maxConcurrency 0 (s.put call { c with phase := .granted }) := by
  have hreturned := h.returned c (mem_of_call hc)
  apply h.moved hc (.inl hphase) (.inl rfl) rfl (filter_unlisted h hc (by simp [hphase]))
  simpa [Call.Returned, Call.isOver, hphase] using hreturned

theorem leave_counted (h : Counted maxConcurrency 0 s) (hc : s.calls[call]? = some c)
    (hphase : c.phase = .rejected) :
    Counted maxConcurrency 0 { returnTurn s call c .refused with queued := s.queued - 1 } := by
  have hreturned := h.returned c (mem_of_call hc)
  have hqueued := waits_queued h hc (by simp [Call.waits, Call.isOver, hphase])
  apply h.moved hc (.inr (.inr hphase)) (.inr (.inr rfl)) _ (filter_unlisted h hc (by simp [hphase]))
  · simpa [Call.Returned, Call.isOver, hphase] using hreturned
  · show s.queued - 1 + 1 = s.queued + 0
    omega

theorem begin_counted (h : Counted maxConcurrency 0 s) (hc : s.calls[call]? = some c)
    (hphase : c.phase = .admitted) :
    Counted maxConcurrency 0 { s.put call { c with phase := .running } with queued := s.queued - 1 } := by
  have hreturned := h.returned c (mem_of_call hc)
  have hqueued := waits_queued h hc (by simp [Call.waits, Call.isOver, hphase])
  apply h.put hc
  · simp [Call.holds, hphase]
  · exact h.bounded
  · simp only [Call.waits, Call.isOver, hphase]
    show s.queued - 1 + 1 = s.queued + 0
    omega
  · exact h.distinct
  · exact h.unlisted hc (by simp [hphase]) nofun
  · intro hsome
    have hawake := h.awake hsome
    simpa [Call.isResumed, hphase] using hawake
  · simpa [Call.Returned, Call.isOver, hphase] using hreturned

theorem enqueue_counted (h : Counted maxConcurrency 0 s) (key : String) (signal : Option Bool) :
    Counted maxConcurrency 0 (enqueue s key signal) where
  active := by
    have hnew : Call.holds (newCall s key signal) = false := by
      cases signal with
      | none => rfl
      | some aborted => cases aborted <;> rfl
    show s.active = (s.calls ++ [newCall s key signal]).countP Call.holds
    rw [List.countP_append, List.countP_singleton, hnew, h.active]
    rfl
  bounded := h.bounded
  queued := by
    have hnew : Call.waits (newCall s key signal) = true := by
      cases signal with
      | none => rfl
      | some aborted => cases aborted <;> rfl
    show s.queued+1 = (s.calls ++ [newCall s key signal]).countP Call.waits
    rw [List.countP_append, List.countP_singleton, hnew, h.queued]
    rfl
  distinct := h.distinct
  listed := by
    intro other
    rw [show (other ∈ (enqueue s key signal).slotWaiters ↔ other ∈ s.slotWaiters) from Iff.rfl,
      h.listed other]
    constructor
    · rintro ⟨c, hc, hwaiting⟩
      refine ⟨c, ?_, hwaiting⟩
      show (s.calls ++ [newCall s key signal])[other]? = some c
      rw [List.getElem?_append_left (call_lt hc)]
      exact hc
    · rintro ⟨c, hc, hwaiting⟩
      rcases call_enqueued hc with hold | ⟨-, rfl⟩
      · exact ⟨c, hold, hwaiting⟩
      · exact absurd hwaiting (newCall_phase s key signal)
  awake := by
    intro hsome
    have hawake := h.awake hsome
    show maxConcurrency ≤ s.active + (s.calls ++ [newCall s key signal]).countP Call.isResumed + 0
    rw [List.countP_append]
    omega
  returned := by
    intro c hmem
    rcases List.mem_append.mp hmem with hold | hnew
    · exact h.returned c hold
    · cases List.mem_singleton.mp hnew
      cases signal with
      | none => exact ⟨rfl, rfl⟩
      | some aborted => cases aborted <;> exact ⟨rfl, rfl⟩

theorem ready_call {input : Input} (hready : Ready s input) (hcall : input.call = some call) :
    ∃ c, s.calls[call]? = some c ∧ isReady s c input = true := by
  unfold Ready at hready
  rw [hcall, Option.all_some, Option.any_eq_true_iff_get] at hready
  obtain ⟨hsome, hready⟩ := hready
  exact ⟨_, (Option.some_get hsome).symm, hready⟩

theorem onCall_eq (hc : s.calls[call]? = some c) (f : Call → State) : onCall s call f = f c := by
  unfold onCall
  rw [hc]

theorem step_counted (h : Counted maxConcurrency 0 s) (input : Input) (hready : Ready s input) :
    Counted maxConcurrency 0 (step maxConcurrency s input) := by
  cases input with
  | run key signal => exact enqueue_counted h key signal
  | abort call =>
    obtain ⟨c, hc, -⟩ := ready_call hready rfl
    show Counted maxConcurrency 0 (onCall s call _)
    rw [onCall_eq hc]
    exact abortCall_counted h hc
  | grant call =>
    obtain ⟨c, hc, hnow⟩ := ready_call hready rfl
    show Counted maxConcurrency 0 (onCall s call _)
    rw [onCall_eq hc]
    exact grant_counted h hc (of_decide_eq_true (Bool.and_eq_true_iff.mp hnow).1)
  | enter call =>
    obtain ⟨c, hc, hnow⟩ := ready_call hready rfl
    show Counted maxConcurrency 0 (onCall s call _)
    rw [onCall_eq hc]
    exact acquireSlot_counted h hc (by simpa [isReady] using hnow)
  | leave call =>
    obtain ⟨c, hc, hnow⟩ := ready_call hready rfl
    show Counted maxConcurrency 0 (onCall s call _)
    rw [onCall_eq hc]
    exact leave_counted h hc (of_decide_eq_true hnow)
  | start call expired =>
    obtain ⟨c, hc, hnow⟩ := ready_call hready rfl
    have hphase : c.phase = .admitted := of_decide_eq_true hnow
    show Counted maxConcurrency 0 (onCall s call _)
    rw [onCall_eq hc]
    split_ifs
    · have hwaits : c.waits = true := by simp [Call.waits, Call.isOver, hphase]
      have hqueued := waits_queued h hc hwaits
      apply conclude_counted h hc (by simp [Call.holds, hphase])
      rw [hwaits, Bool.toNat_true]
      omega
    · exact begin_counted h hc hphase
  | finish call =>
    obtain ⟨c, hc, hnow⟩ := ready_call hready rfl
    have hphase : c.phase = .running := of_decide_eq_true hnow
    show Counted maxConcurrency 0 (onCall s call _)
    rw [onCall_eq hc]
    exact conclude_counted h hc (by simp [Call.holds, hphase]) (by simp [Call.waits, Call.isOver, hphase])
  | settle call =>
    obtain ⟨c, hc, -⟩ := ready_call hready rfl
    show Counted maxConcurrency 0 (onCall s call _)
    rw [onCall_eq hc]
    exact h.quiet hc rfl rfl rfl
  | forget call =>
    obtain ⟨c, hc, -⟩ := ready_call hready rfl
    show Counted maxConcurrency 0 (onCall s call _)
    rw [onCall_eq hc]
    exact ⟨h.active, h.bounded, h.queued, h.distinct, h.listed, h.awake, h.returned⟩

end Counting

end AccessStack.BrowserQueue
