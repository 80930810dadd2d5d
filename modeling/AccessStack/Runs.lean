import Mathlib

/-!
# Runs of a machine whose events are admitted or not

`step` is total and `ok` says which events may happen in a state. What holds
at the start and is kept by every admitted event holds in every state that is
reached.
-/

set_option autoImplicit false

namespace AccessStack.Runs

variable {σ ε : Type} (step : σ → ε → σ) (ok : σ → ε → Prop)

inductive Reaches (start : σ) : σ → Prop
  | refl : Reaches start start
  | next {s : σ} (e : ε) (h : Reaches start s) (he : ok s e) : Reaches start (step s e)

/-- A list of events, each admitted where it happens. -/
def Admitted : σ → List ε → Prop
  | _, [] => True
  | s, e::events => ok s e ∧ Admitted (step s e) events

instance Admitted.decide [∀ s e, Decidable (ok s e)] :
    (s : σ) → (events : List ε) → Decidable (Admitted step ok s events)
  | _, [] => inferInstanceAs (Decidable True)
  | s, e::events =>
    have := Admitted.decide (step s e) events
    inferInstanceAs (Decidable (ok s e ∧ Admitted step ok (step s e) events))

variable {step ok} {ok' : σ → ε → Prop} {start s : σ}

theorem Reaches.invariant {I : σ → Prop} (hstart : I start)
    (hstep : ∀ s e, I s → ok s e → I (step s e)) (h : Reaches step ok start s) : I s := by
  induction h with
  | refl => exact hstart
  | next e _ he ih => exact hstep _ e ih he

theorem Reaches.mono (hok : ∀ s e, ok s e → ok' s e) (h : Reaches step ok start s) :
    Reaches step ok' start s := by
  induction h with
  | refl => exact .refl
  | next e _ he ih => exact .next e ih (hok _ e he)

theorem Reaches.events {t : σ} {events : List ε} (h : Reaches step ok start s)
    (hadmitted : Admitted step ok s events) (hend : events.foldl step s = t) :
    Reaches step ok start t := by
  induction events generalizing s with
  | nil =>
    cases hend
    exact h
  | cons e events ih => exact ih (.next e h hadmitted.1) hadmitted.2 hend

end AccessStack.Runs
