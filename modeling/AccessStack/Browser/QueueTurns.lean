import AccessStack.Browser.QueueLaws

/-!
# The turns of the operation queue

The tail of a key is its latest call, and every call waits for the one before
of its key. When the turn of a call has come, all earlier calls of the key
have given theirs back.
-/

set_option autoImplicit false

namespace AccessStack.BrowserQueue
open AccessStack.Runs

section Chain

/-- The turn of the call has come, and it has not been rejected. -/
def Call.begun (c : Call) : Bool := c.phase ≠ .queued && c.phase ≠ .rejected && c.phase ≠ .refused

/-- Every earlier call of the key has settled. -/
def Prior (calls : List Call) (call : ℕ) (key : String) : Prop :=
  ∀ earlier c, calls[earlier]? = some c → c.key = key → earlier < call → c.settled = true

/-- The latest call of the key that is not later than `bound`. -/
structure Latest (calls : List Call) (bound : ℕ) (key : String) (call : ℕ) : Prop where
  within : call < bound
  found : ∃ c, calls[call]? = some c ∧ c.key = key
  last : ∀ other c, calls[other]? = some c → c.key = key → other < bound → other ≤ call

structure Chained (s : State) : Prop where
  tail : ∀ key call, s.tails key = some call → Latest s.calls s.calls.length key call
  free : ∀ key, s.tails key = none → Prior s.calls s.calls.length key
  linked : ∀ call c previous, s.calls[call]? = some c → c.previous = some previous →
    Latest s.calls call c.key previous
  first : ∀ call c, s.calls[call]? = some c → c.previous = none → Prior s.calls call c.key
  settled : ∀ call c, s.calls[call]? = some c → c.settled = true →
    0 < c.turnsReturned ∧ Prior s.calls call c.key
  begun : ∀ call c, s.calls[call]? = some c → c.begun = true → Prior s.calls call c.key

/-- What a call may become while others keep their places. -/
structure Turned (calls : List Call) (call : ℕ) (c c' : Call) : Prop where
  key : c'.key = c.key
  previous : c'.previous = c.previous
  settles : c.settled = true → c'.settled = true
  settled : c'.settled = true → c.settled = false → 0 < c.turnsReturned ∧ Prior calls call c.key
  returned : c.turnsReturned ≤ c'.turnsReturned
  begun : c'.begun = true → c.begun = false → Prior calls call c.key
  ended : c.isOver = true → c'.phase = c.phase
  running : c.phase = .running → c'.phase = .running ∨ c'.phase = .finished

variable {calls calls' : List Call} {s t : State} {call previous bound : ℕ} {key : String} {c c' : Call}

theorem Turned.refl (calls : List Call) (call : ℕ) (c : Call) : Turned calls call c c where
  key := rfl
  previous := rfl
  settles := id
  settled := fun hsettled hnot => absurd hsettled (by simp [hnot])
  returned := le_rfl
  begun := fun hbegun hnot => absurd hbegun (by simp [hnot])
  ended := fun _ => rfl
  running := fun hrunning => .inl hrunning

/-- Every call keeps its place. -/
structure Moves (calls calls' : List Call) : Prop where
  length : calls'.length = calls.length
  turned : ∀ call c', calls'[call]? = some c' → ∃ c, calls[call]? = some c ∧ Turned calls call c c'

theorem Moves.back (h : Moves calls calls') (hc : calls[call]? = some c) :
    ∃ c', calls'[call]? = some c' ∧ Turned calls call c c' := by
  have hlt : call < calls'.length := by
    rw [h.length]
    exact call_lt hc
  obtain ⟨found, hfound, hturned⟩ := h.turned call _ (List.getElem?_eq_getElem hlt)
  cases hc.symm.trans hfound
  exact ⟨_, List.getElem?_eq_getElem hlt, hturned⟩

theorem Prior.moves (h : Prior calls call key) (hmoves : Moves calls calls') : Prior calls' call key := by
  intro earlier c' hc' hkey hlt
  obtain ⟨c, hc, hturned⟩ := hmoves.turned earlier c' hc'
  exact hturned.settles (h earlier c hc (hturned.key.symm.trans hkey) hlt)

theorem Latest.moves (h : Latest calls bound key call) (hmoves : Moves calls calls') :
    Latest calls' bound key call where
  within := h.within
  found := by
    obtain ⟨c, hc, hkey⟩ := h.found
    obtain ⟨c', hc', hturned⟩ := hmoves.back hc
    exact ⟨c', hc', hturned.key.trans hkey⟩
  last := by
    intro other c' hc' hkey
    obtain ⟨c, hc, hturned⟩ := hmoves.turned other c' hc'
    exact h.last other c hc (hturned.key.symm.trans hkey)

theorem Chained.moves (h : Chained s) (hmoves : Moves s.calls t.calls)
    (htails : t.tails = s.tails) : Chained t where
  tail := by
    intro key call htail
    rw [htails] at htail
    rw [hmoves.length]
    exact (h.tail key call htail).moves hmoves
  free := by
    intro key hfree
    rw [htails] at hfree
    rw [hmoves.length]
    exact (h.free key hfree).moves hmoves
  linked := by
    intro call c' previous hc' hprevious
    obtain ⟨c, hc, hturned⟩ := hmoves.turned call c' hc'
    rw [hturned.key]
    exact (h.linked call c previous hc (hturned.previous.symm.trans hprevious)).moves hmoves
  first := by
    intro call c' hc' hprevious
    obtain ⟨c, hc, hturned⟩ := hmoves.turned call c' hc'
    rw [hturned.key]
    exact (h.first call c hc (hturned.previous.symm.trans hprevious)).moves hmoves
  settled := by
    intro call c' hc' hsettled
    obtain ⟨c, hc, hturned⟩ := hmoves.turned call c' hc'
    rw [hturned.key]
    have hbefore : 0 < c.turnsReturned ∧ Prior s.calls call c.key := by
      cases hold : c.settled with
      | false => exact hturned.settled hsettled hold
      | true => exact h.settled call c hc hold
    exact ⟨hbefore.1.trans_le hturned.returned, hbefore.2.moves hmoves⟩
  begun := by
    intro call c' hc' hbegun
    obtain ⟨c, hc, hturned⟩ := hmoves.turned call c' hc'
    rw [hturned.key]
    cases hold : c.begun with
    | false => exact (hturned.begun hbegun hold).moves hmoves
    | true => exact (h.begun call c hc hold).moves hmoves

theorem moves_refl (calls : List Call) : Moves calls calls :=
  ⟨rfl, fun call c hc => ⟨c, hc, .refl calls call c⟩⟩

theorem moves_set (hc : calls[call]? = some c) (hturned : Turned calls call c c') :
    Moves calls (calls.set call c') where
  length := List.length_set
  turned := by
    intro other found hfound
    rw [call_set hc] at hfound
    split_ifs at hfound with heq
    · cases hfound
      subst heq
      exact ⟨c, hc, hturned⟩
    · exact ⟨found, hfound, .refl calls other found⟩

/-- The promise that the call waits for has settled, so all before have. -/
theorem previousSettled_prior (h : Chained s) (hc : s.calls[call]? = some c)
    (hsettled : previousSettled s c = true) :
    Prior s.calls call c.key := by
  unfold previousSettled at hsettled
  cases hprevious : c.previous with
  | none => exact h.first call c hc hprevious
  | some previous =>
    have hlatest := h.linked call c previous hc hprevious
    obtain ⟨before, hbefore, hkey⟩ := hlatest.found
    rw [hprevious, Option.all_some, hbefore, Option.any_some] at hsettled
    obtain ⟨-, hprior⟩ := h.settled previous before hbefore hsettled
    intro earlier d hd hsame hlt
    rcases Nat.lt_or_eq_of_le (hlatest.last earlier d hd hsame hlt) with hearlier | rfl
    · exact hprior earlier d hd (hsame.trans hkey.symm) hearlier
    · cases hbefore.symm.trans hd
      exact hsettled

end Chain

section Steps

variable {maxConcurrency : ℕ} {calls calls' calls'' : List Call} {s t : State} {call : ℕ} {c c' : Call}

/-- A call that is not over goes on, and has not begun unless it had. -/
theorem turned_phase (hkey : c'.key = c.key) (hprevious : c'.previous = c.previous)
    (hsettled : c'.settled = c.settled) (hreturned : c.turnsReturned ≤ c'.turnsReturned)
    (hgoes : c.isOver = false) (hrunning : c.phase = .running → c'.phase = .running ∨ c'.phase = .finished)
    (hbegun : c'.begun = true → c.begun = true ∨ Prior calls call c.key) : Turned calls call c c' where
  key := hkey
  previous := hprevious
  settles := by
    rw [hsettled]
    exact id
  settled := by
    intro hafter hbefore
    rw [hsettled, hbefore] at hafter
    exact absurd hafter nofun
  returned := hreturned
  begun := by
    intro hafter hbefore
    rcases hbegun hafter with hbegun | hprior
    · rw [hbefore] at hbegun
      exact absurd hbegun nofun
    · exact hprior
  ended := by
    intro hover
    rw [hgoes] at hover
    exact absurd hover nofun
  running := hrunning

theorem turned_quiet (hkey : c'.key = c.key) (hprevious : c'.previous = c.previous)
    (hsettled : c'.settled = c.settled) (hreturned : c'.turnsReturned = c.turnsReturned)
    (hphase : c'.phase = c.phase) : Turned calls call c c' where
  key := hkey
  previous := hprevious
  settles := by
    rw [hsettled]
    exact id
  settled := by
    intro hafter hbefore
    rw [hsettled, hbefore] at hafter
    exact absurd hafter nofun
  returned := hreturned.ge
  begun := by
    intro hafter hbefore
    unfold Call.begun at hafter hbefore
    rw [hphase, hbefore] at hafter
    exact absurd hafter nofun
  ended := fun _ => hphase
  running := by
    rw [hphase]
    exact Or.inl

theorem wakeNext_moves (hlisted : ∀ call ∈ s.slotWaiters, ∀ c : Call, s.calls[call]? = some c →
    c.phase = .waiting)
    (h : Moves calls s.calls)
    (hsame : ∀ (call : ℕ) (c : Call), s.calls[call]? = some c → c.phase = .waiting → calls[call]? = some c) :
    Moves calls (wakeNext s).calls := by
  unfold wakeNext
  split
  · exact h
  · rename_i next rest hwaiters
    split
    · exact h
    · rename_i c hc
      have hphase := hlisted next (by rw [hwaiters]; exact List.mem_cons_self) c hc
      constructor
      · rw [List.length_set]
        exact h.length
      · intro other found hfound
        rw [call_set hc] at hfound
        split_ifs at hfound with heq
        · cases hfound
          subst heq
          refine ⟨c, hsame other c hc hphase, turned_phase rfl rfl rfl le_rfl ?_ ?_ ?_⟩
          · simp [Call.isOver, hphase]
          · simp [hphase]
          · exact fun _ => .inl (by simp [Call.begun, hphase])
        · exact h.turned other found hfound

theorem conclude_moves (h : Counted maxConcurrency 0 s) (hc : s.calls[call]? = some c)
    (hholds : c.holds = true) (queued : ℕ) : Moves s.calls (conclude { s with queued } call c).calls := by
  have hphase : c.phase = .admitted ∨ c.phase = .running := by simpa [Call.holds] using hholds
  have hunlisted : c.phase ≠ .waiting := by rcases hphase with hphase | hphase <;> simp [hphase]
  have hgoes : c.isOver = false := by rcases hphase with hphase | hphase <;> simp [Call.isOver, hphase]
  have hbegun : c.begun = true := by rcases hphase with hphase | hphase <;> simp [Call.begun, hphase]
  apply wakeNext_moves
  · intro other hmem found hfound
    have hwaiting : found.phase = .waiting ∨ other = call := by
      by_cases heq : other = call
      · exact .inr heq
      · left
        apply listed_waiting h _ hmem
        rw [← hfound]
        show s.calls[other]? = (s.calls.set call _)[other]?
        rw [call_set hc, if_neg heq]
    apply hwaiting.resolve_right
    rintro rfl
    exact hunlisted (listed_waiting h hc hmem)
  · exact moves_set hc
      (turned_phase rfl rfl rfl (Nat.le_succ _) hgoes (fun _ => .inr rfl) fun _ => .inl hbegun)
  · intro other found hfound hwaiting
    have hset : (s.calls.set call _)[other]? = some found := hfound
    rw [call_set hc] at hset
    split_ifs at hset
    · cases hset
      cases hwaiting
    · exact hset

theorem acquireSlot_moves (hc : s.calls[call]? = some c) (hphase : c.phase = .granted ∨ c.phase = .resumed) :
    Moves s.calls (acquireSlot maxConcurrency s call c).calls := by
  have hgoes : c.isOver = false := by rcases hphase with hphase | hphase <;> simp [Call.isOver, hphase]
  have hbegun : c.begun = true := by rcases hphase with hphase | hphase <;> simp [Call.begun, hphase]
  have hrunning : c.phase ≠ .running := by rcases hphase with hphase | hphase <;> simp [hphase]
  have hto : ∀ phase, Moves s.calls (s.calls.set call { c with phase }) := fun phase =>
    moves_set hc (turned_phase rfl rfl rfl le_rfl hgoes (fun h => absurd h hrunning) fun _ => .inl hbegun)
  unfold acquireSlot
  split_ifs
  · exact hto .rejected
  · exact hto .waiting
  · exact hto .admitted

theorem abortCall_moves (hc : s.calls[call]? = some c) : Moves s.calls (abortCall s call c).calls := by
  unfold abortCall
  split
  case h_1 hphase =>
    exact moves_set hc
      (turned_phase rfl rfl rfl le_rfl (by simp [Call.isOver, hphase]) (by simp [hphase]) nofun)
  case h_2 hphase =>
    exact moves_set hc
      (turned_phase rfl rfl rfl le_rfl (by simp [Call.isOver, hphase]) (by simp [hphase]) nofun)
  case h_3 => exact moves_set hc (turned_quiet rfl rfl rfl rfl rfl)

/-- Everything but a new call leaves each call in its place. -/
theorem step_moves (hcounted : Counted maxConcurrency 0 s) (h : Chained s) {input : Input}
    (hready : Ready s input) (hcall : input.call = some call) :
    Moves s.calls (step maxConcurrency s input).calls := by
  obtain ⟨c, hc, hnow⟩ := ready_call hready hcall
  cases input with
  | run key signal => cases hcall
  | abort other =>
    cases hcall
    show Moves s.calls (onCall s call _).calls
    rw [onCall_eq hc]
    exact abortCall_moves hc
  | grant other =>
    cases hcall
    have hphase : c.phase = .queued := of_decide_eq_true (Bool.and_eq_true_iff.mp hnow).1
    have hprior := previousSettled_prior h hc (Bool.and_eq_true_iff.mp hnow).2
    show Moves s.calls (onCall s call _).calls
    rw [onCall_eq hc]
    exact moves_set hc (turned_phase rfl rfl rfl le_rfl (by simp [Call.isOver, hphase]) (by simp [hphase])
      fun _ => .inr hprior)
  | enter other =>
    cases hcall
    show Moves s.calls (onCall s call _).calls
    rw [onCall_eq hc]
    exact acquireSlot_moves hc (by simpa [isReady] using hnow)
  | leave other =>
    cases hcall
    have hphase : c.phase = .rejected := of_decide_eq_true hnow
    show Moves s.calls (onCall s call _).calls
    rw [onCall_eq hc]
    exact moves_set hc
      (turned_phase rfl rfl rfl (Nat.le_succ _) (by simp [Call.isOver, hphase]) (by simp [hphase])
      fun hbegun => Bool.noConfusion hbegun)
  | start other expired =>
    cases hcall
    have hphase : c.phase = .admitted := of_decide_eq_true hnow
    show Moves s.calls (onCall s call _).calls
    rw [onCall_eq hc]
    split_ifs
    · exact conclude_moves hcounted hc (by simp [Call.holds, hphase]) _
    · exact moves_set hc (turned_phase rfl rfl rfl le_rfl (by simp [Call.isOver, hphase]) (fun _ => .inl rfl)
        fun _ => .inl (by simp [Call.begun, hphase]))
  | finish other =>
    cases hcall
    have hphase : c.phase = .running := of_decide_eq_true hnow
    show Moves s.calls (onCall s call _).calls
    rw [onCall_eq hc]
    exact conclude_moves hcounted hc (by simp [Call.holds, hphase]) s.queued
  | settle other =>
    cases hcall
    rw [isReady, Bool.and_eq_true, Bool.and_eq_true, decide_eq_true_eq] at hnow
    have hprior := previousSettled_prior h hc hnow.1.2
    show Moves s.calls (onCall s call _).calls
    rw [onCall_eq hc]
    apply moves_set hc
    refine ⟨rfl, rfl, fun _ => rfl, fun _ _ => ⟨hnow.1.1, hprior⟩, le_rfl, ?_, fun _ => rfl, .inl⟩
    intro hafter hbefore
    cases hafter.symm.trans hbefore
  | forget other =>
    cases hcall
    show Moves s.calls (onCall s call _).calls
    rw [onCall_eq hc]
    exact moves_refl s.calls

@[simp]
theorem wakeNext_tails (s : State) : (wakeNext s).tails = s.tails := by
  unfold wakeNext
  split
  · rfl
  · split <;> rfl

@[simp]
theorem acquireSlot_tails (s : State) (call : ℕ) (c : Call) :
    (acquireSlot maxConcurrency s call c).tails = s.tails := by
  unfold acquireSlot
  split_ifs <;> rfl

@[simp]
theorem abortCall_tails (s : State) (call : ℕ) (c : Call) : (abortCall s call c).tails = s.tails := by
  unfold abortCall
  split <;> rfl

theorem step_tails {input : Input} (hready : Ready s input) (hcall : input.call = some call)
    (hforget : input ≠ .forget call) : (step maxConcurrency s input).tails = s.tails := by
  obtain ⟨c, hc, -⟩ := ready_call hready hcall
  cases input with
  | run key signal => exact absurd hcall nofun
  | forget other =>
    cases hcall
    exact absurd rfl hforget
  | start other expired =>
    cases hcall
    show (onCall s call _).tails = s.tails
    rw [onCall_eq hc]
    split_ifs
    · exact wakeNext_tails _
    · rfl
  | _ =>
    cases hcall
    show (onCall s call _).tails = s.tails
    rw [onCall_eq hc]
    first
    | rfl
    | exact acquireSlot_tails s call c
    | exact abortCall_tails s call c
    | exact wakeNext_tails _

/-- A settled call that was the tail of its key is forgotten. -/
theorem Chained.forget {tails : String → Option ℕ} (h : Chained s) (hc : s.calls[call]? = some c)
    (hsettled : c.settled = true)
    (htails : ∀ key, tails key = s.tails key ∨ key = c.key ∧ tails key = none ∧ s.tails key = some call) :
    Chained { s with tails } where
  tail := by
    intro key other htail
    rcases htails key with hsame | ⟨-, hnone, -⟩
    · exact h.tail key other (hsame.symm.trans htail)
    · exact absurd (hnone.symm.trans htail) nofun
  free := by
    intro key hfree
    rcases htails key with hsame | ⟨rfl, -, hown⟩
    · exact h.free key (hsame.symm.trans hfree)
    · intro earlier d hd hkey hlt
      rcases Nat.lt_or_eq_of_le ((h.tail c.key call hown).last earlier d hd hkey hlt) with hearlier | rfl
      · exact (h.settled call c hc hsettled).2 earlier d hd hkey hearlier
      · cases hc.symm.trans hd
        exact hsettled
  linked := h.linked
  first := h.first
  settled := h.settled
  begun := h.begun

theorem call_before {key : String} {signal : Option Bool} (hc : (enqueue s key signal).calls[call]? = some c)
    (hlt : call < s.calls.length) : s.calls[call]? = some c :=
  (call_enqueued hc).resolve_right fun hnew => hlt.ne hnew.1

theorem call_after {key : String} {signal : Option Bool} (hc : s.calls[call]? = some c) :
    (enqueue s key signal).calls[call]? = some c := by
  show (s.calls ++ [newCall s key signal])[call]? = some c
  rw [List.getElem?_append_left (call_lt hc)]
  exact hc

theorem Prior.enqueue {key key' : String} {signal : Option Bool} (h : Prior s.calls call key)
    (hle : call ≤ s.calls.length) : Prior (enqueue s key' signal).calls call key := by
  intro earlier d hd hkey hlt
  exact h earlier d (call_before hd (hlt.trans_le hle)) hkey hlt

theorem Latest.enqueue {key key' : String} {signal : Option Bool} {bound : ℕ}
    (h : Latest s.calls bound key call) (hle : bound ≤ s.calls.length) :
    Latest (enqueue s key' signal).calls bound key call where
  within := h.within
  found := by
    obtain ⟨d, hd, hkey⟩ := h.found
    exact ⟨d, call_after hd, hkey⟩
  last := by
    intro other d hd hkey hlt
    exact h.last other d (call_before hd (hlt.trans_le hle)) hkey hlt

theorem newCall_begun (s : State) (key : String) (signal : Option Bool) :
    (newCall s key signal).begun = false := by
  cases signal with
  | none => rfl
  | some aborted => cases aborted <;> rfl

theorem Chained.enqueue (h : Chained s) (key : String) (signal : Option Bool) :
    Chained (enqueue s key signal) where
  tail := by
    intro other last htail
    have htail' : Function.update s.tails key (some s.calls.length) other = some last := htail
    have hlength : (BrowserQueue.enqueue s key signal).calls.length = s.calls.length + 1 := List.length_append
    rw [Function.update_apply] at htail'
    rw [hlength]
    split_ifs at htail' with heq
    · cases htail'
      subst heq
      refine ⟨Nat.lt_succ_self _, ⟨newCall s other signal, ?_, rfl⟩, fun _ _ _ _ hlt => Nat.le_of_lt_succ hlt⟩
      show (s.calls ++ [newCall s other signal])[s.calls.length]? = _
      simp
    · have hlatest : Latest (BrowserQueue.enqueue s key signal).calls s.calls.length other last :=
        (h.tail other last htail').enqueue le_rfl
      refine ⟨Nat.lt_succ_of_lt hlatest.within, hlatest.found, ?_⟩
      intro earlier d hd hkey hlt
      rcases call_enqueued hd with hold | ⟨-, rfl⟩
      · exact hlatest.last earlier d hd hkey (call_lt hold)
      · exact absurd hkey.symm heq
  free := by
    intro other hfree
    have hfree' : Function.update s.tails key (some s.calls.length) other = none := hfree
    rw [Function.update_apply] at hfree'
    split_ifs at hfree' with heq
    intro earlier d hd hkey hlt
    rcases call_enqueued hd with hold | ⟨-, rfl⟩
    · exact h.free other hfree' earlier d hold hkey (call_lt hold)
    · exact absurd hkey.symm heq
  linked := by
    intro other d previous hd hprevious
    rcases call_enqueued hd with hold | ⟨rfl, rfl⟩
    · exact (h.linked other d previous hold hprevious).enqueue (call_lt hold).le
    · exact (h.tail key previous hprevious).enqueue le_rfl
  first := by
    intro other d hd hprevious
    rcases call_enqueued hd with hold | ⟨rfl, rfl⟩
    · exact (h.first other d hold hprevious).enqueue (call_lt hold).le
    · exact (h.free key hprevious).enqueue le_rfl
  settled := by
    intro other d hd hsettled
    rcases call_enqueued hd with hold | ⟨rfl, rfl⟩
    · obtain ⟨hturns, hprior⟩ := h.settled other d hold hsettled
      exact ⟨hturns, hprior.enqueue (call_lt hold).le⟩
    · exact absurd hsettled nofun
  begun := by
    intro other d hd hbegun
    rcases call_enqueued hd with hold | ⟨rfl, rfl⟩
    · exact (h.begun other d hold hbegun).enqueue (call_lt hold).le
    · rw [newCall_begun] at hbegun
      exact absurd hbegun nofun

theorem step_chained (hcounted : Counted maxConcurrency 0 s) (h : Chained s) (input : Input)
    (hready : Ready s input) : Chained (step maxConcurrency s input) := by
  cases hcall : input.call with
  | none =>
    cases input with
    | run key signal => exact h.enqueue key signal
    | _ => exact absurd hcall nofun
  | some call =>
    by_cases hforget : input = .forget call
    · subst hforget
      obtain ⟨c, hc, hnow⟩ := ready_call hready rfl
      show Chained (onCall s call _)
      rw [onCall_eq hc]
      apply h.forget hc (Bool.and_eq_true_iff.mp hnow).2
      intro key
      split_ifs with hown
      · by_cases heq : key = c.key
        · subst heq
          exact .inr ⟨rfl, Function.update_self _ _ _, hown⟩
        · exact .inl (Function.update_of_ne heq _ _)
      · exact .inl rfl
    · exact h.moves (step_moves hcounted h hready hcall) (step_tails hready hcall hforget)

end Steps

section Runs

variable {maxConcurrency : ℕ} {s : State}

theorem initial_counted (maxConcurrency : ℕ) : Counted maxConcurrency 0 State.initial where
  active := rfl
  bounded := Nat.zero_le _
  queued := rfl
  distinct := List.nodup_nil
  listed := by simp [State.initial]
  awake := fun hsome => absurd rfl hsome
  returned := by simp [State.initial]

theorem initial_chained : Chained State.initial := by
  constructor <;> simp [State.initial, Prior]

theorem reached_invariant (h : Reached maxConcurrency s) : Counted maxConcurrency 0 s ∧ Chained s :=
  h.invariant (I := fun s => Counted maxConcurrency 0 s ∧ Chained s)
    ⟨initial_counted maxConcurrency, initial_chained⟩
    fun _ input hs hready => ⟨step_counted hs.1 input hready, step_chained hs.1 hs.2 input hready⟩

/-- When the turn of a call has come, every earlier call of its key is over. -/
theorem begun_earlier (hcounted : Counted maxConcurrency 0 s) (hchained : Chained s) {i j : ℕ} {c d : Call}
    (hc : s.calls[i]? = some c) (hd : s.calls[j]? = some d) (hkey : c.key = d.key) (hlt : i < j)
    (hbegun : d.begun = true) : c.isOver = true := by
  have hsettled := hchained.begun j d hd hbegun i c hc hkey hlt
  have hturns := (hchained.settled i c hc hsettled).1
  have hreturned := (hcounted.returned c (mem_of_call hc)).2
  by_contra hgoes
  rw [if_neg hgoes] at hreturned
  omega

theorem running_alone (hcounted : Counted maxConcurrency 0 s) (hchained : Chained s) {i j : ℕ} {c d : Call}
    (hc : s.calls[i]? = some c) (hd : s.calls[j]? = some d) (hkey : c.key = d.key)
    (hrunning : c.phase = .running) (hrunning' : d.phase = .running) : i = j := by
  have hgoes : ∀ e : Call, e.phase = .running → e.isOver = false ∧ e.begun = true := by
    intro e hphase
    simp [Call.isOver, Call.begun, hphase]
  rcases Nat.lt_trichotomy i j with hlt | heq | hgt
  · have hover := begun_earlier hcounted hchained hc hd hkey hlt (hgoes d hrunning').2
    cases (hgoes c hrunning).1.symm.trans hover
  · exact heq
  · have hover := begun_earlier hcounted hchained hd hc hkey.symm hgt (hgoes c hrunning).2
    cases (hgoes d hrunning').1.symm.trans hover

theorem running_le (hcounted : Counted maxConcurrency 0 s) :
    s.calls.countP (fun c => c.phase = .running) ≤ maxConcurrency := by
  have hholds : s.calls.countP (fun c => c.phase = .running) ≤ s.calls.countP Call.holds := by
    apply List.countP_mono_left
    intro c _ hrunning
    simp [Call.holds, of_decide_eq_true hrunning]
  have hactive := hcounted.active
  have hbounded := hcounted.bounded
  omega

/-- A call keeps its key; one that is over stays so, and one that runs can only finish. -/
theorem step_keeps (hcounted : Counted maxConcurrency 0 s) (hchained : Chained s) {input : Input}
    (hready : Ready s input) {i : ℕ} {c : Call} (hc : s.calls[i]? = some c) :
    ∃ d, (step maxConcurrency s input).calls[i]? = some d ∧ d.key = c.key ∧
      (c.isOver = true → d.phase = c.phase) ∧
      (c.phase = .running → d.phase = .running ∨ d.phase = .finished) := by
  cases hcall : input.call with
  | none =>
    cases input with
    | run key signal => exact ⟨c, call_after hc, rfl, fun _ => rfl, .inl⟩
    | _ => exact absurd hcall nofun
  | some call =>
    obtain ⟨d, hd, hturned⟩ := (step_moves hcounted hchained hready hcall).back hc
    exact ⟨d, hd, hturned.key, hturned.ended, hturned.running⟩

theorem queue_safe (h : Reached maxConcurrency s) :
    (s.calls.countP (fun c => c.phase = .running) ≤ maxConcurrency ∧ s.active ≤ maxConcurrency ∧
      s.active = s.calls.countP Call.holds) ∧
    (∀ (i j : ℕ) (c d : Call), s.calls[i]? = some c → s.calls[j]? = some d → c.key = d.key →
      c.phase = .running →
      d.phase = .running → i = j) ∧
    (∀ (i j : ℕ) (c d : Call), s.calls[i]? = some c → s.calls[j]? = some d → c.key = d.key → i < j →
      d.begun = true →
      c.isOver = true) ∧
    s.queued = s.calls.countP Call.waits ∧
    (∀ c ∈ s.calls, c.Returned) ∧
    (∀ c ∈ s.calls, c.phase = .waiting → maxConcurrency ≤ s.active + s.calls.countP Call.isResumed) ∧
    ∀ input, Ready s input → ∀ (i : ℕ) (c : Call), s.calls[i]? = some c →
      ∃ d, (step maxConcurrency s input).calls[i]? = some d ∧ d.key = c.key ∧
        (c.isOver = true → d.phase = c.phase) ∧
        (c.phase = .running → d.phase = .running ∨ d.phase = .finished) := by
  obtain ⟨hcounted, hchained⟩ := reached_invariant h
  refine ⟨⟨running_le hcounted, hcounted.bounded, hcounted.active⟩, ?_, ?_, hcounted.queued,
    hcounted.returned, ?_, ?_⟩
  · intro i j c d hc hd hkey hrunning hrunning'
    exact running_alone hcounted hchained hc hd hkey hrunning hrunning'
  · intro i j c d hc hd hkey hlt hbegun
    exact begun_earlier hcounted hchained hc hd hkey hlt hbegun
  · intro c hmem hwaiting
    obtain ⟨call, hc⟩ := List.mem_iff_getElem?.mp hmem
    apply hcounted.awake
    exact List.ne_nil_of_mem ((hcounted.listed call).mpr ⟨c, hc, hwaiting⟩)
  · intro input hready i c hc
    exact step_keeps hcounted hchained hready hc

def sampleInputs : List Input :=
  [.run "tab-1" none, .run "tab-2" (some false), .run "tab-1" none, .grant 0, .grant 1, .enter
    0, .enter 1, .start 0 false]

theorem queue_safe_sample :
    let s := sampleInputs.foldl (step 1) State.initial
    (s.calls.map (·.phase) = [.running, .waiting, .queued]) ∧ s.queued = s.calls.countP Call.waits ∧
    ∀ c ∈ s.calls, c.phase = .waiting → 1 ≤ s.active + s.calls.countP Call.isResumed := by
  have hrun : Admitted (step 1) Ready State.initial sampleInputs ∧
      (sampleInputs.foldl (step 1) State.initial).calls.map (·.phase) = [.running, .waiting, .queued] := by
    decide +kernel
  have hlaw := queue_safe (Reaches.refl.events hrun.1 rfl)
  exact ⟨hrun.2, hlaw.2.2.2.1, hlaw.2.2.2.2.2.1⟩

end Runs

end AccessStack.BrowserQueue
