import AccessStack.Runs

/-!
# Programs that emit events

A program reads a state and emits events, and each event changes the state
that the rest of the program reads. `Meets` says of a program and a state that
each of its events is admitted where it is emitted, and what holds of its
result and of the state it leaves.
-/

set_option autoImplicit false

namespace AccessStack
open AccessStack.Runs

variable {σ ε : Type}

/-- A result, and the events that were emitted on the way to it. -/
def Emits (_ : σ → ε → σ) (α : Type) := σ → α × List ε

namespace Emits

variable {apply : σ → ε → σ} {α β : Type}

instance : Monad (Emits apply) where
  pure a := fun _ => (a, [])
  bind x f := fun s =>
    let first := x s
    let rest := f first.1 (first.2.foldl apply s)
    (rest.1, first.2 ++ rest.2)

def look (f : σ → α) : Emits apply α := fun s => (f s, [])

def emit (e : ε) : Emits apply Unit := fun _ => ((), [e])

/-- The state that a program leaves. -/
def final (x : Emits apply α) (s : σ) : σ := (x s).2.foldl apply s

section Runs

variable {s : σ} {β : Type}

theorem look_bind {f : σ → α} {g : α → Emits apply β} : (look f >>= g) s = g (f s) s := rfl

/-- A program whose run is known, followed by another. -/
theorem bind_of_eq {x : Emits apply α} {g : α → Emits apply β} {a : α} {events : List ε}
    (h : x s = (a, events)) :
    (x >>= g) s = ((g a (events.foldl apply s)).1, events ++ (g a (events.foldl apply s)).2) := by
  show ((g (x s).1 ((x s).2.foldl apply s)).1, (x s).2 ++ (g (x s).1 ((x s).2.foldl apply s)).2) = _
  rw [h]

theorem bind_of_silent {x : Emits apply α} {g : α → Emits apply β} {a : α} (h : x s = (a, [])) :
    (x >>= g) s = g a s :=
  bind_of_eq h

end Runs

section Rules

variable {ok ok' : σ → ε → Prop} {post post' : α → σ → Prop} {s : σ}

def Meets (ok : σ → ε → Prop) (x : Emits apply α) (s : σ) (post : α → σ → Prop) : Prop :=
  Admitted apply ok s (x s).2 ∧ post (x s).1 (x.final s)

theorem admitted_append {events rest : List ε} : Admitted apply ok s (events ++ rest) ↔
    Admitted apply ok s events ∧ Admitted apply ok (events.foldl apply s) rest := by
  induction events generalizing s with
  | nil => simp [Admitted]
  | cons e events ih => simp [Admitted, ih, and_assoc]

theorem meets_pure {a : α} : Meets ok (pure a : Emits apply α) s post ↔ post a s :=
  ⟨fun h => h.2, fun h => ⟨trivial, h⟩⟩

theorem meets_look {f : σ → α} : Meets ok (look f : Emits apply α) s post ↔ post (f s) s :=
  ⟨fun h => h.2, fun h => ⟨trivial, h⟩⟩

theorem meets_emit {e : ε} {post : Unit → σ → Prop} :
    Meets ok (emit e : Emits apply Unit) s post ↔ ok s e ∧ post () (apply s e) :=
  ⟨fun h => ⟨h.1.1, h.2⟩, fun h => ⟨⟨h.1, trivial⟩, h.2⟩⟩

theorem meets_bind {x : Emits apply α} {f : α → Emits apply β} {post : β → σ → Prop} :
    Meets ok (x >>= f) s post ↔ Meets ok x s fun a t => Meets ok (f a) t post := by
  have hevents : (x >>= f) s = ((f (x s).1 (x.final s)).1, (x s).2 ++ (f (x s).1 (x.final s)).2) := rfl
  simp only [Meets, final, hevents, admitted_append, List.foldl_append, and_assoc]

theorem meets_ite {c : Prop} [Decidable c] {x y : Emits apply α} :
    Meets ok (if c then x else y) s post ↔ (c → Meets ok x s post) ∧ (¬ c → Meets ok y s post) := by
  by_cases h : c <;> simp [h]

theorem Meets.mono {x : Emits apply α} (h : Meets ok x s post) (hpost : ∀ a t, post a t → post' a t) :
    Meets ok x s post' :=
  ⟨h.1, hpost _ _ h.2⟩

end Rules

end Emits

section Prefixes

variable {apply : σ → ε → σ} {ok : σ → ε → Prop} {s : σ} {events : List ε}

/-- An invariant of the events holds after each prefix of them. -/
theorem Runs.Admitted.invariant {I : σ → Prop} (h : Admitted apply ok s events) (hs : I s)
    (hstep : ∀ s e, I s → ok s e → I (apply s e)) : ∀ done, done <+: events → I (done.foldl apply s) := by
  induction events generalizing s with
  | nil =>
    intro done hprefix
    rw [List.prefix_nil.mp hprefix]
    exact hs
  | cons e events ih =>
    intro done hprefix
    cases done with
    | nil => exact hs
    | cons d done =>
      obtain ⟨rfl, hrest⟩ := List.cons_prefix_cons.mp hprefix
      exact ih h.2 (hstep s d hs h.1) done hrest

end Prefixes

end AccessStack
