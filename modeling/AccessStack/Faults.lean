import AccessStack.Emission

/-!
# Programs that may stop early

A program emits events and ends with a result or with what it throws.
`Ensures` says what holds of the result and of the state, and what holds where
the program stops early. Where the writes may fail, a program learns from a
schedule whether a write succeeds, throws or is where it crashes; a write that
throws or crashes has taken effect or has not. A failure can be caught, a
crash cannot.
-/

set_option autoImplicit false

namespace AccessStack
open AccessStack.Runs

variable {σ ε ρ : Type}

inductive Fault where
  | none
  | throws (applied : Bool)
  | crashes (applied : Bool)
  deriving DecidableEq

inductive Stop where
  | failed
  | crashed
  deriving DecidableEq

def Fallible (apply : σ → ε → σ) (ρ α : Type) := Emits apply (Except ρ α)

namespace Fallible

variable {apply : σ → ε → σ} {α β : Type}

/-- What follows a program that has stopped does not run. -/
def andThen (f : α → Fallible apply ρ β) : Except ρ α → Fallible apply ρ β
  | .ok a => f a
  | .error stop => fun _ => (.error stop, [])

instance : Monad (Fallible apply ρ) where
  pure a := fun _ => (.ok a, [])
  bind x f := (Bind.bind (m := Emits apply) x (andThen f) : Emits apply (Except ρ _))

def look (f : σ → α) : Fallible apply ρ α := fun s => (.ok (f s), [])

def emit (e : ε) : Fallible apply ρ Unit := fun _ => (.ok (), [e])

def fail (stop : ρ) : Fallible apply ρ α := fun _ => (.error stop, [])

def ensuing (fault : Fault) (e skip : ε) : Except Stop Unit × List ε :=
  match fault with
  | .none => (.ok (), [e])
  | .throws applied => (.error .failed, [if applied then e else skip])
  | .crashes applied => (.error .crashed, [if applied then e else skip])

/-- A write. The clock tells which entry of the schedule is its own, and an
event that changes nothing stands for a write that has no effect. -/
def write (faults : ℕ → Fault) (clock : σ → ℕ) (skip e : ε) : Fallible apply Stop Unit :=
  fun s => ensuing (faults (clock s)) e skip

/-- `try` and `catch` -/
def rescue (x y : Fallible apply Stop α) : Fallible apply Stop α :=
  (Bind.bind (m := Emits apply) x fun
    | .error .failed => y
    | result => fun _ => (result, []) : Emits apply (Except Stop α))

def final (x : Fallible apply ρ α) (s : σ) : σ := Emits.final x s

section Rules

variable {ok : σ → ε → Prop} {post post' : α → σ → Prop} {stopped : ρ → σ → Prop} {s : σ}

/-- What holds of a result, or of a stop. -/
def settled (post : α → σ → Prop) (stopped : ρ → σ → Prop) : Except ρ α → σ → Prop
  | .ok a => post a
  | .error stop => stopped stop

def Ensures (ok : σ → ε → Prop) (x : Fallible apply ρ α) (s : σ) (post : α → σ → Prop)
    (stopped : ρ → σ → Prop) : Prop :=
  Emits.Meets ok x s (settled post stopped)

theorem settled_pure {r : Except ρ α} :
    Emits.Meets ok (pure r : Emits apply (Except ρ α)) s (settled post stopped) ↔ settled post stopped r s :=
  ⟨fun h => h.2, fun h => ⟨trivial, h⟩⟩

theorem ensures_pure {a : α} : Ensures ok (pure a : Fallible apply ρ α) s post stopped ↔ post a s :=
  settled_pure

theorem ensures_look {f : σ → α} : Ensures ok (look f : Fallible apply ρ α) s post stopped ↔ post (f s) s :=
  ⟨fun h => h.2, fun h => ⟨trivial, h⟩⟩

theorem ensures_emit {e : ε} {post : Unit → σ → Prop} :
    Ensures ok (emit e : Fallible apply ρ Unit) s post stopped ↔ ok s e ∧ post () (apply s e) :=
  ⟨fun h => ⟨h.1.1, h.2⟩, fun h => ⟨⟨h.1, trivial⟩, h.2⟩⟩

theorem ensures_fail {stop : ρ} : Ensures ok (fail stop : Fallible apply ρ α) s post stopped ↔
    stopped stop s :=
  ⟨fun h => h.2, fun h => ⟨trivial, h⟩⟩

theorem ensures_bind {x : Fallible apply ρ α} {f : α → Fallible apply ρ β} {post : β → σ → Prop} :
    Ensures ok (x >>= f) s post stopped ↔
    Ensures ok x s (fun a t => Ensures ok (f a) t post stopped) stopped := by
  have hpost : (fun r t => Emits.Meets ok (andThen f r) t (settled post stopped)) =
      settled (fun a t => Ensures ok (f a) t post stopped) stopped := by
    funext r t
    cases r with
    | ok a => rfl
    | error stop => exact propext settled_pure
  show _ ↔ Emits.Meets ok x s (settled _ stopped)
  rw [← hpost]
  exact Emits.meets_bind

theorem ensures_ite {c : Prop} [Decidable c] {x y : Fallible apply ρ α} :
    Ensures ok (if c then x else y) s post stopped ↔
      (c → Ensures ok x s post stopped) ∧ (¬ c → Ensures ok y s post stopped) := by
  by_cases h : c <;> simp [h]

theorem Ensures.mono {x : Fallible apply ρ α} {stopped' : ρ → σ → Prop} (h : Ensures ok x s post stopped)
    (hpost : ∀ a t, post a t → post' a t) (hstopped : ∀ stop t, stopped stop t → stopped' stop t) :
    Ensures ok x s post' stopped' := by
  refine ⟨h.1, ?_⟩
  have hsettled := h.2
  cases hr : (x s).1 with
  | ok a =>
    rw [hr] at hsettled
    exact hpost a _ hsettled
  | error stop =>
    rw [hr] at hsettled
    exact hstopped stop _ hsettled

end Rules

section Faults

variable {ok : σ → ε → Prop} {post : α → σ → Prop} {stopped : Stop → σ → Prop} {s : σ}

theorem ensures_rescue {x y : Fallible apply Stop α}
    (h : Ensures ok x s post fun stop t => (stop = .failed → Ensures ok y t post stopped) ∧
      (stop = .crashed → stopped .crashed t)) :
    Ensures ok (rescue x y) s post stopped := by
  apply Emits.meets_bind.mpr
  apply Emits.Meets.mono h
  intro r t hr
  match r with
  | .ok a => exact settled_pure.mpr hr
  | .error .failed => exact hr.1 rfl
  | .error .crashed => exact settled_pure.mpr (hr.2 rfl)

variable {faults : ℕ → Fault} {clock : σ → ℕ} {skip e : ε} {post : Unit → σ → Prop}

/-- A write that may have an effect or none. -/
theorem ensures_write (he : ok s e) (hskip : ok s skip) (hpost : post () (apply s e))
    (hstopped : ∀ stop, stopped stop (apply s e) ∧ stopped stop (apply s skip)) :
    Ensures ok (write faults clock skip e : Fallible apply Stop Unit) s post stopped := by
  unfold Ensures Emits.Meets Emits.final write
  cases faults (clock s) with
  | none => exact ⟨⟨he, trivial⟩, hpost⟩
  | throws applied =>
    cases applied with
    | true => exact ⟨⟨he, trivial⟩, (hstopped .failed).1⟩
    | false => exact ⟨⟨hskip, trivial⟩, (hstopped .failed).2⟩
  | crashes applied =>
    cases applied with
    | true => exact ⟨⟨he, trivial⟩, (hstopped .crashed).1⟩
    | false => exact ⟨⟨hskip, trivial⟩, (hstopped .crashed).2⟩

theorem ensures_write_quiet (hquiet : faults (clock s) = .none) :
    Ensures ok (write faults clock skip e : Fallible apply Stop Unit) s post stopped ↔ ok s e ∧
    post () (apply s e) := by
  unfold Ensures Emits.Meets Emits.final write
  rw [hquiet]
  exact ⟨fun h => ⟨h.1.1, h.2⟩, fun h => ⟨⟨h.1, trivial⟩, h.2⟩⟩

end Faults

end Fallible

end AccessStack
