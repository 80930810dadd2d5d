import Mathlib

/-!
# Computations on a state that may fail

What a computation has done to the state stays done when it fails later. The
lemmas take a sequence of computations apart, forwards when the outcome of
the first is known and backwards from the outcome of the whole.
-/

set_option autoImplicit false

namespace AccessStack

def Effect (σ ε α : Type) := σ → Except ε α × σ

namespace Effect

variable {σ ε α β : Type}

instance : Monad (Effect σ ε) where
  pure a := fun s => (.ok a, s)
  bind x f := fun s => match x s with
    | (.ok a, s') => f a s'
    | (.error e, s') => (.error e, s')

def lift (x : Except ε α) : Effect σ ε α := fun s => (x, s)

def look (f : σ → α) : Effect σ ε α := fun s => (.ok (f s), s)

def alter (f : σ → σ) : Effect σ ε Unit := fun s => (.ok (), f s)

@[simp] theorem pure_apply (a : α) (s : σ) : (pure a : Effect σ ε α) s = (.ok a, s) := rfl

@[simp] theorem look_apply (f : σ → α) (s : σ) : (look f : Effect σ ε α) s = (.ok (f s), s) := rfl

@[simp] theorem alter_apply (f : σ → σ) (s : σ) : (alter f : Effect σ ε Unit) s = (.ok (), f s) := rfl

@[simp] theorem lift_apply (x : Except ε α) (s : σ) : (lift x : Effect σ ε α) s = (x, s) := rfl

theorem bind_of_ok {x : Effect σ ε α} {f : α → Effect σ ε β} {s s' : σ} {a : α}
    (h : x s = (.ok a, s')) : (x >>= f) s = f a s' := by
  simp only [bind, h]

end Effect

end AccessStack
