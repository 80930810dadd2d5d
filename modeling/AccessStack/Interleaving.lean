import AccessStack.Runs

/-!
# Routines that interleave at their awaits

A routine is a list of operations on a shared state with what follows each
answer, and it may fail. Several parties run routines on one state, one
operation at a time in any order; a party may crash, and the world may change
the state in between. `Guards` says that a routine keeps an invariant and
gives a guarantee at every operation, whatever the others do that it relies
on. Where the guarantee of each party is what the others rely on, the
invariant holds in every state that is reached.
-/

set_option autoImplicit false

namespace AccessStack
open AccessStack.Runs

/-- `ρ e` is what the operation `e` answers. -/
inductive Routine {ε : Type} (ρ : ε → Type) (err α : Type) where
  | ret (a : α)
  | fail (x : err)
  | act (e : ε) (next : ρ e → Routine ρ err α)

namespace Routine

variable {ε σ χ err α β : Type} {ρ : ε → Type}

def bind (p : Routine ρ err α) (f : α → Routine ρ err β) : Routine ρ err β :=
  match p with
  | .ret a => f a
  | .fail x => .fail x
  | .act e next => .act e fun r => (next r).bind f

instance : Monad (Routine ρ err) where
  pure := .ret
  bind := .bind

def perform (e : ε) : Routine ρ err (ρ e) := .act e .ret

/-- `try` and `catch` -/
def rescue (p : Routine ρ err α) (f : err → Routine ρ err α) : Routine ρ err α :=
  match p with
  | .ret a => .ret a
  | .fail x => f x
  | .act e next => .act e fun r => (next r).rescue f

/-- What follows whether or not the routine has failed. -/
def ensuing (p : Routine ρ err α) (f : Except err α → Routine ρ err β) : Routine ρ err β :=
  match p with
  | .ret a => f (.ok a)
  | .fail x => f (.error x)
  | .act e next => .act e fun r => (next r).ensuing f

def require (ok : Bool) (x : err) : Routine ρ err Unit := if ok then .ret () else .fail x

section Rules

/-- What the rules are about: the effect of an operation with what the world
answers, what others may do, which answers may come, what is kept and what is
promised of each operation. -/
structure Terms (ε σ χ : Type) (ρ : ε → Type) where
  effect : (e : ε) → σ → χ → σ × ρ e
  rely : σ → σ → Prop
  possible : ε → σ → χ → Prop
  keeps : σ → Prop
  promises : ε → σ → σ → Prop

variable (T : Terms ε σ χ ρ) {T' : Terms ε σ χ ρ}

def Guards (post : α → σ → Prop) (failed : err → σ → Prop) : Routine ρ err α → σ → Prop
  | .ret a, s => post a s
  | .fail x, s => failed x s
  | .act e next, s => ∀ t, Relation.ReflTransGen T.rely s t → T.keeps t → ∀ x, T.possible e t x →
    T.keeps (T.effect e t x).1 ∧ T.promises e t (T.effect e t x).1 ∧
      Guards post failed (next (T.effect e t x).2) (T.effect e t x).1

variable {T} {post post' : α → σ → Prop} {failed failed' : err → σ → Prop} {s t : σ}

theorem guards_require {ok : Bool} {x : err} {post : Unit → σ → Prop} :
    Guards T post failed (require ok x : Routine ρ err Unit) s ↔
      (ok = true → post () s) ∧ (ok = false → failed x s) := by
  cases ok <;> simp [require, Guards]

theorem guards_bind {p : Routine ρ err α} {f : α → Routine ρ err β} {post : β → σ → Prop} :
    Guards T post failed (p >>= f) s ↔ Guards T (fun a t => Guards T post failed (f a) t) failed p s := by
  show Guards T post failed (p.bind f) s ↔ _
  induction p generalizing s with
  | ret a => exact Iff.rfl
  | fail x => exact Iff.rfl
  | act e next ih =>
    unfold bind Guards
    constructor
    · intro h t ht hkeeps x hx
      obtain ⟨hkept, hpromised, hnext⟩ := h t ht hkeeps x hx
      exact ⟨hkept, hpromised, (ih _).mp hnext⟩
    · intro h t ht hkeeps x hx
      obtain ⟨hkept, hpromised, hnext⟩ := h t ht hkeeps x hx
      exact ⟨hkept, hpromised, (ih _).mpr hnext⟩

theorem guards_ensuing {p : Routine ρ err α} {f : Except err α → Routine ρ err β} {post : β → σ → Prop} :
    Guards T post failed (p.ensuing f) s ↔ Guards T (fun a t => Guards T post failed (f (.ok a)) t)
      (fun x t => Guards T post failed (f (.error x)) t) p s := by
  induction p generalizing s with
  | ret a => exact Iff.rfl
  | fail x => exact Iff.rfl
  | act e next ih =>
    unfold ensuing Guards
    constructor
    · intro h t ht hkeeps x hx
      obtain ⟨hkept, hpromised, hnext⟩ := h t ht hkeeps x hx
      exact ⟨hkept, hpromised, (ih _).mp hnext⟩
    · intro h t ht hkeeps x hx
      obtain ⟨hkept, hpromised, hnext⟩ := h t ht hkeeps x hx
      exact ⟨hkept, hpromised, (ih _).mpr hnext⟩

theorem guards_rescue {p : Routine ρ err α} {f : err → Routine ρ err α} :
    Guards T post failed (p.rescue f) s ↔ Guards T post (fun x t => Guards T post failed (f x) t) p s := by
  induction p generalizing s with
  | ret a => exact Iff.rfl
  | fail x => exact Iff.rfl
  | act e next ih =>
    unfold rescue Guards
    constructor
    · intro h t ht hkeeps x hx
      obtain ⟨hkept, hpromised, hnext⟩ := h t ht hkeeps x hx
      exact ⟨hkept, hpromised, (ih _).mp hnext⟩
    · intro h t ht hkeeps x hx
      obtain ⟨hkept, hpromised, hnext⟩ := h t ht hkeeps x hx
      exact ⟨hkept, hpromised, (ih _).mpr hnext⟩

theorem Guards.mono {p : Routine ρ err α} (h : Guards T post failed p s) (hpost : ∀ a t, post a t → post' a t)
    (hfailed : ∀ x t, failed x t → failed' x t) : Guards T post' failed' p s := by
  induction p generalizing s with
  | ret a => exact hpost a s h
  | fail x => exact hfailed x s h
  | act e next ih =>
    intro t ht hkeeps x hx
    obtain ⟨hkept, hpromised, hnext⟩ := h t ht hkeeps x hx
    exact ⟨hkept, hpromised, ih _ hnext⟩

theorem Guards.bind {p : Routine ρ err α} {f : α → Routine ρ err β} {m : α → σ → Prop} {post : β → σ → Prop}
    (h : Guards T m failed p s) (hf : ∀ a t, m a t → Guards T post failed (f a) t) :
    Guards T post failed (p >>= f) s :=
  guards_bind.mpr (h.mono hf fun _ _ => id)

/-- What others do in between is taken into account already. -/
theorem Guards.rely {e : ε} {next : ρ e → Routine ρ err α} (h : Guards T post failed (.act e next) s)
    (hrely : T.rely s t) : Guards T post failed (.act e next) t :=
  fun u hu => h u (.head hrely hu)

/-- A stable fact about the state is all an operation needs to know of it. -/
theorem guards_act {e : ε} {next : ρ e → Routine ρ err α} {fact : σ → Prop} (hfact : fact s)
    (hstable : ∀ t u, fact t → T.rely t u → fact u)
    (h : ∀ t, fact t → T.keeps t → ∀ x, T.possible e t x → T.keeps (T.effect e t x).1 ∧
      T.promises e t (T.effect e t x).1 ∧ Guards T post failed (next (T.effect e t x).2) (T.effect e t x).1) :
    Guards T post failed (.act e next) s := by
  intro t ht hkeeps x hx
  refine h t ?_ hkeeps x hx
  clear hkeeps hx
  induction ht with
  | refl => exact hfact
  | tail _ hlast ih => exact hstable _ _ ih hlast

theorem guards_perform {e : ε} {post : ρ e → σ → Prop} {fact : σ → Prop} (hfact : fact s)
    (hstable : ∀ t u, fact t → T.rely t u → fact u)
    (h : ∀ t, fact t → T.keeps t → ∀ x, T.possible e t x → T.keeps (T.effect e t x).1 ∧
      T.promises e t (T.effect e t x).1 ∧ post (T.effect e t x).2 (T.effect e t x).1) :
    Guards T post failed (perform e : Routine ρ err (ρ e)) s :=
  guards_act hfact hstable h

end Rules

end Routine

section Parties

variable {ε σ χ ω ι err α : Type} {ρ : ε → Type}

/-- What the parties do: the routine of a call, the effects of its operations
for each party, and what the world changes. -/
structure Machine (ε σ χ ω ι err α : Type) (ρ : ε → Type) where
  routine : ι → Routine ρ err α
  effect : ℕ → (e : ε) → σ → χ → σ × ρ e
  change : σ → ω → σ

/-- A party that has crashed has no routine. -/
structure Party (ι : Type) {ε : Type} (ρ : ε → Type) (err α : Type) where
  input : ι
  routine : Option (Routine ρ err α)

structure Together (σ ι : Type) {ε : Type} (ρ : ε → Type) (err α : Type) where
  shared : σ
  parties : List (Party ι ρ err α)

inductive Move (ι χ ω : Type) where
  | call (input : ι)
  | act (party : ℕ) (answer : χ)
  | crash (party : ℕ)
  | world (change : ω)

/-- The party is at this operation of its call. -/
def Together.At (s : Together σ ι ρ err α) (party : ℕ) (input : ι) (e : ε) : Prop :=
  ∃ next, s.parties[party]? = some ⟨input, some (.act e next)⟩

def Together.at? (s : Together σ ι ρ err α) (party : ℕ) : Option (ι × ε) :=
  match s.parties[party]? with
  | some ⟨input, some (.act e _)⟩ => some (input, e)
  | _ => none

theorem Together.at_iff {s : Together σ ι ρ err α} {party : ℕ} {input : ι} {e : ε} :
    s.At party input e ↔ s.at? party = some (input, e) := by
  constructor
  · rintro ⟨next, hparty⟩
    unfold Together.at?
    rw [hparty]
  · intro h
    unfold Together.at? at h
    split at h
    · rename_i next hparty
      cases h
      exact ⟨next, hparty⟩
    · exact absurd h nofun

/-- No routine is running. -/
def Together.Idle (s : Together σ ι ρ err α) : Prop := ∀ party, s.at? party = none

instance (s : Together σ ι ρ err α) : Decidable s.Idle :=
  decidable_of_iff (∀ party < s.parties.length, s.at? party = none) <| by
    constructor
    · intro h party
      by_cases hlt : party < s.parties.length
      · exact h party hlt
      · unfold Together.at?
        rw [List.getElem?_eq_none (Nat.le_of_not_lt hlt)]
    · exact fun h party _ => h party

namespace Machine

variable (M : Machine ε σ χ ω ι err α ρ)

/-- The party is answered and goes on to its next operation. -/
def resume (s : Together σ ι ρ err α) (party : ℕ) (answer : χ) : Together σ ι ρ err α :=
  match s.parties[party]? with
  | some ⟨input, some (.act e next)⟩ =>
    { shared := (M.effect party e s.shared answer).1
      parties := s.parties.set party ⟨input, some (next (M.effect party e s.shared answer).2)⟩ }
  | _ => s

def step (s : Together σ ι ρ err α) : Move ι χ ω → Together σ ι ρ err α
  | .call input => { s with parties := s.parties ++ [⟨input, some (M.routine input)⟩] }
  | .act party answer => M.resume s party answer
  | .crash party =>
    match s.parties[party]? with
    | none => s
    | some p => { s with parties := s.parties.set party { p with routine := none } }
  | .world change => { s with shared := M.change s.shared change }

/-- Which moves are admitted: answers by party and operation, and changes of
the world. -/
structure Rules (σ χ ω ι : Type) {ε : Type} (ρ : ε → Type) (err α : Type) where
  possible : ℕ → ι → ε → σ → χ → Prop
  allowed : Together σ ι ρ err α → ω → Prop

def Admits (rules : Rules σ χ ω ι ρ err α) (s : Together σ ι ρ err α) : Move ι χ ω → Prop
  | .call _ => True
  | .act party answer => ∃ input e, s.At party input e ∧ rules.possible party input e s.shared answer
  | .crash _ => True
  | .world change => rules.allowed s change

instance (rules : Rules σ χ ω ι ρ err α) [∀ party input e s x, Decidable (rules.possible party input e s x)]
    [∀ s change, Decidable (rules.allowed s change)] (s : Together σ ι ρ err α) :
    (move : Move ι χ ω) → Decidable (Admits rules s move)
  | .call _ => inferInstanceAs (Decidable True)
  | .act party answer =>
    decidable_of_iff (∃ p ∈ s.at? party, rules.possible party p.1 p.2 s.shared answer) <| by
      constructor
      · rintro ⟨⟨input, e⟩, hat, hpossible⟩
        exact ⟨input, e, Together.at_iff.mpr hat, hpossible⟩
      · rintro ⟨input, e, hat, hpossible⟩
        exact ⟨(input, e), Together.at_iff.mp hat, hpossible⟩
  | .crash _ => inferInstanceAs (Decidable True)
  | .world change => inferInstanceAs (Decidable (rules.allowed s change))

def start (s : σ) : Together σ ι ρ err α := ⟨s, []⟩

variable {M} {rules : Rules σ χ ω ι ρ err α} {keeps : σ → Prop} {rely : ℕ → ι → σ → σ → Prop}
  {promises : ℕ → ι → ε → σ → σ → Prop} {s : Together σ ι ρ err α} {party : ℕ} {input : ι}
    {answer : χ} {e : ε}

/-- What the routine of a party is checked against. -/
def terms (M : Machine ε σ χ ω ι err α ρ) (rules : Rules σ χ ω ι ρ err α) (keeps : σ → Prop)
    (rely : ℕ → ι → σ → σ → Prop) (promises : ℕ → ι → ε → σ → σ → Prop) (party : ℕ) (input : ι) :
    Routine.Terms ε σ χ ρ :=
  ⟨M.effect party, rely party input, rules.possible party input, keeps, promises party input⟩

/-- Nothing is asked of the result. -/
abbrev Safe (M : Machine ε σ χ ω ι err α ρ) (rules : Rules σ χ ω ι ρ err α) (keeps : σ → Prop)
    (rely : ℕ → ι → σ → σ → Prop) (promises : ℕ → ι → ε → σ → σ → Prop) (party : ℕ) (input : ι)
    (p : Routine ρ err α) (s : σ) : Prop :=
  Routine.Guards (terms M rules keeps rely promises party input) (fun _ _ => True) (fun _ _ => True) p s

/-- The invariant, and that every routine that still runs is guarded. -/
structure Guarded (M : Machine ε σ χ ω ι err α ρ) (rules : Rules σ χ ω ι ρ err α) (keeps : σ → Prop)
    (rely : ℕ → ι → σ → σ → Prop) (promises : ℕ → ι → ε → σ → σ → Prop) (s : Together σ ι ρ err α) :
    Prop where
  kept : keeps s.shared
  guards : ∀ party input (e : ε) next, s.parties[party]? = some ⟨input, some (.act e next)⟩ →
    Safe M rules keeps rely promises party input (.act e next) s.shared

theorem resume_act {next : ρ e → Routine ρ err α}
    (hparty : s.parties[party]? = some ⟨input, some (.act e next)⟩) :
    M.resume s party answer = ⟨(M.effect party e s.shared answer).1,
      s.parties.set party ⟨input, some (next (M.effect party e s.shared answer).2)⟩⟩ := by
  unfold resume
  rw [hparty]

/-- What is to be shown of a machine: its routines are guarded, and what a
party promises and what the world may change is what the others rely on. -/
structure Checked (M : Machine ε σ χ ω ι err α ρ) (rules : Rules σ χ ω ι ρ err α) (keeps : σ → Prop)
    (rely : ℕ → ι → σ → σ → Prop) (promises : ℕ → ι → ε → σ → σ → Prop) : Prop where
  guarded : ∀ party input s, keeps s → Safe M rules keeps rely promises party input (M.routine input) s
  compatible : ∀ party other input input' e s t, party ≠ other → promises party input e s t →
    rely other input' s t
  stable : ∀ (s : Together σ ι ρ err α) change, keeps s.shared → rules.allowed s change →
    keeps (M.change s.shared change) ∧
    ∀ party input e, s.At party input e → rely party input s.shared (M.change s.shared change)

theorem step_guarded (hchecked : Checked M rules keeps rely promises)
    (h : Guarded M rules keeps rely promises s) (move : Move ι χ ω)
    (hadmits : Admits rules s move) : Guarded M rules keeps rely promises (M.step s move) := by
  cases move with
  | call input =>
    refine ⟨h.kept, ?_⟩
    intro party input' e next hparty
    have hparty' : (s.parties ++ [⟨input, some (M.routine input)⟩])[party]? =
      some ⟨input', some (.act e next)⟩ := hparty
    rw [List.getElem?_append] at hparty'
    split_ifs at hparty'
    · exact h.guards party input' e next hparty'
    · rw [List.getElem?_singleton] at hparty'
      split_ifs at hparty'
      obtain ⟨rfl, hroutine⟩ := Party.mk.inj (Option.some.inj hparty')
      rw [← Option.some.inj hroutine]
      exact hchecked.guarded party input s.shared h.kept
  | act party answer =>
    obtain ⟨input, e, ⟨next, hparty⟩, hpossible⟩ := hadmits
    obtain ⟨hkept, hpromised, hnext⟩ :=
      h.guards party input e next hparty s.shared .refl h.kept answer hpossible
    show Guarded M rules keeps rely promises (M.resume s party answer)
    rw [resume_act hparty]
    refine ⟨hkept, ?_⟩
    intro other input' e' next' hother
    rw [List.getElem?_set] at hother
    split_ifs at hother with heq
    · subst heq
      obtain ⟨rfl, hroutine⟩ := Party.mk.inj (Option.some.inj hother)
      rw [← Option.some.inj hroutine]
      exact hnext
    · exact (h.guards other input' e' next' hother).rely
        (hchecked.compatible party other input input' e _ _ heq hpromised)
  | crash party =>
    show Guarded M rules keeps rely promises (match s.parties[party]? with
      | none => s
      | some p => { s with parties := s.parties.set party { p with routine := none } })
    split
    · exact h
    · refine ⟨h.kept, ?_⟩
      intro other input e next hother
      rw [List.getElem?_set] at hother
      split_ifs at hother
      · exact absurd (Party.mk.inj (Option.some.inj hother)).2 nofun
      · exact h.guards other input e next hother
  | world change =>
    obtain ⟨hkept, hstable⟩ := hchecked.stable s change h.kept hadmits
    refine ⟨hkept, ?_⟩
    intro party input e next hparty
    exact (h.guards party input e next hparty).rely (hstable party input e ⟨next, hparty⟩)

theorem reached_guarded {initial : σ} (hchecked : Checked M rules keeps rely promises)
    (hinitial : keeps initial) (h : Reaches M.step (Admits rules) (start initial) s) :
    Guarded M rules keeps rely promises s := by
  apply h.invariant
  · refine ⟨hinitial, ?_⟩
    intro party input e next hparty
    exact absurd hparty nofun
  · exact fun s move hs hadmits => step_guarded hchecked hs move hadmits

/-- Every operation of a party gives what it promises. -/
theorem Guarded.promised (h : Guarded M rules keeps rely promises s) (hat : s.At party input e)
    (hpossible : rules.possible party input e s.shared answer) :
    promises party input e s.shared (M.step s (.act party answer)).shared := by
  obtain ⟨next, hparty⟩ := hat
  obtain ⟨-, hpromised, -⟩ := h.guards party input e next hparty s.shared .refl h.kept answer hpossible
  show promises party input e s.shared (M.resume s party answer).shared
  rw [resume_act hparty]
  exact hpromised

end Machine

end Parties

end AccessStack
