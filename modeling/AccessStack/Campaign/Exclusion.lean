import AccessStack.Campaign.RunLease

/-!
# Mutual exclusion of the run lease

Every lock file is either empty or carries the record of the call that made
it, a live call that has created its lock file keeps it until it removes it,
and a recovery deletes only the file of a dead process. The last point is
what the source leaves open: the lease is read first and judged later, and
in between its owner may release it, another call may create the file anew
and the owner's process may end. A run in which no lease is judged that late
has at most one live call inside its task.
-/

set_option autoImplicit false

namespace AccessStack.RunLease
open AccessStack.Text AccessStack.JsonText

variable {Process Caller : Type} {d : Deployment Process Caller} {s s' : System Process Caller}

section Frame
variable [DecidableEq Caller]

@[simp] theorem setStage_lease (c : Caller) (st : Stage) : (s.setStage c st).lease = s.lease := rfl
@[simp] theorem setStage_guard (c : Caller) (st : Stage) : (s.setStage c st).guard = s.guard := rfl
@[simp] theorem setStage_live (c : Caller) (st : Stage) : (s.setStage c st).live = s.live := rfl
@[simp] theorem setStage_known (c : Caller) (st : Stage) : (s.setStage c st).known = s.known := rfl
@[simp] theorem setStage_heart (c : Caller) (st : Stage) : (s.setStage c st).heart = s.heart := rfl
@[simp] theorem setStage_self (c : Caller) (st : Stage) : (s.setStage c st).stage c = st := by
  simp [System.setStage]

theorem setStage_other {c c' : Caller} (st : Stage) (h : c' ≠ c) :
    (s.setStage c st).stage c' = s.stage c' := by
  simp [System.setStage, h]

@[simp] theorem setHeart_lease (c : Caller) (b : Heartbeat) : (s.setHeart c b).lease = s.lease := rfl
@[simp] theorem setHeart_guard (c : Caller) (b : Heartbeat) : (s.setHeart c b).guard = s.guard := rfl
@[simp] theorem setHeart_live (c : Caller) (b : Heartbeat) : (s.setHeart c b).live = s.live := rfl
@[simp] theorem setHeart_known (c : Caller) (b : Heartbeat) : (s.setHeart c b).known = s.known := rfl
@[simp] theorem setHeart_stage (c : Caller) (b : Heartbeat) : (s.setHeart c b).stage = s.stage := rfl
@[simp] theorem setHeart_self (c : Caller) (b : Heartbeat) : (s.setHeart c b).heart c = b := by
  simp [System.setHeart]

theorem setHeart_other {c c' : Caller} (b : Heartbeat) (h : c' ≠ c) :
    (s.setHeart c b).heart c' = s.heart c' := by
  simp [System.setHeart, h]

end Frame

@[simp] theorem apply_stage (op : FileOp) : (s.apply op).stage = s.stage := by cases op <;> rfl
@[simp] theorem apply_heart (op : FileOp) : (s.apply op).heart = s.heart := by cases op <;> rfl
@[simp] theorem apply_live (op : FileOp) : (s.apply op).live = s.live := by cases op <;> rfl
@[simp] theorem apply_known (op : FileOp) : (s.apply op).known = s.known := by cases op <;> rfl

/-- Operations that do not touch the lock file. -/
def FileOp.spares : FileOp → Bool
  | .none | .lock | .unlock => true
  | _ => false

theorem apply_spares {op : FileOp} (h : op.spares = true) : (s.apply op).lease = s.lease := by
  cases op <;> first | rfl | cases h

/-- The moves of a call, one constructor for each branch of `mainMove`. -/
inductive Moves (d : Deployment Process Caller) (s : System Process Caller) (now : ℤ) (c : Caller) :
    FileOp → Stage → Prop
  | call (h : s.stage c = .idle) : Moves d s now c .none (.creating (newRecord d c now))
  | occupied {r : RunLeaseRecord} (h : s.stage c = .creating r) (hl : s.lease.isSome = true) :
    Moves d s now c .none (.guarding r)
  | create {r : RunLeaseRecord} (h : s.stage c = .creating r) (hl : s.lease = none) :
    Moves d s now c .create (.writing r s.inodes)
  | write {r : RunLeaseRecord} {i : ℕ} (h : s.stage c = .writing r i) :
    Moves d s now c (.write i r.text) .running
  | contended {r : RunLeaseRecord} (h : s.stage c = .guarding r) (hg : s.guard = true) :
    Moves d s now c .none .done
  | lock {r : RunLeaseRecord} (h : s.stage c = .guarding r) (hg : s.guard = false) :
    Moves d s now c .lock (.reading r)
  | read {r x : RunLeaseRecord} (h : s.stage c = .reading r) (hx : s.read = some x) :
    Moves d s now c .none (.judging r x)
  | unreadable {r : RunLeaseRecord} (h : s.stage c = .reading r) :
    Moves d s now c .none (.unguarding false)
  | recover {r x : RunLeaseRecord} (h : s.stage c = .judging r x)
    (hx : recoverable d s c now x = true) : Moves d s now c .none (.removing r)
  | refuse {r x : RunLeaseRecord} (h : s.stage c = .judging r x) :
    Moves d s now c .none (.unguarding false)
  | remove {r : RunLeaseRecord} (h : s.stage c = .removing r) (hl : s.lease.isSome = true) :
    Moves d s now c .remove (.recreating r)
  | vanished {r : RunLeaseRecord} (h : s.stage c = .removing r) (hl : s.lease = none) :
    Moves d s now c .none (.unguarding false)
  | outrun {r : RunLeaseRecord} (h : s.stage c = .recreating r) :
    Moves d s now c .none (.unguarding false)
  | recreate {r : RunLeaseRecord} (h : s.stage c = .recreating r) (hl : s.lease = none) :
    Moves d s now c .create (.rewriting r s.inodes)
  | rewrite {r : RunLeaseRecord} {i : ℕ} (h : s.stage c = .rewriting r i) :
    Moves d s now c (.write i r.text) (.unguarding true)
  | enter (h : s.stage c = .unguarding true) : Moves d s now c .unlock .running
  | abandon {acquired : Bool} (h : s.stage c = .unguarding acquired) :
    Moves d s now c .unlock .done
  | settle (h : s.stage c = .running) : Moves d s now c .none .ending
  | confirm (h : s.stage c = .ending) (hq : (s.heart c).queued = 0) :
    Moves d s now c .none .releasing
  | disown (h : s.stage c = .ending) (hq : (s.heart c).queued = 0) : Moves d s now c .none .done
  | release (h : s.stage c = .releasing) : Moves d s now c .remove .done
  | gone (h : s.stage c = .releasing) (hl : s.lease = none) : Moves d s now c .none .done

theorem mainMove_moves {now : ℤ} {c : Caller} {op : FileOp} {st : Stage}
    (hm : mainMove d s now c = some (op, st)) : Moves d s now c op st := by
  unfold mainMove at hm
  split at hm
  case h_1 h => cases hm; exact .call h
  case h_2 r h =>
    split at hm
    case isTrue hl => cases hm; exact .occupied h hl
    case isFalse hl => cases hm; exact .create h (by simpa using hl)
  case h_3 r i h => cases hm; exact .write h
  case h_4 r h =>
    split at hm
    case isTrue hg => cases hm; exact .contended h hg
    case isFalse hg => cases hm; exact .lock h (by simpa using hg)
  case h_5 r h =>
    split at hm
    case h_1 x hx => cases hm; exact .read h hx
    case h_2 => cases hm; exact .unreadable h
  case h_6 r x h =>
    split at hm
    case isTrue hx => cases hm; exact .recover h hx
    case isFalse => cases hm; exact .refuse h
  case h_7 r h =>
    split at hm
    case isTrue hl => cases hm; exact .remove h hl
    case isFalse hl => cases hm; exact .vanished h (by simpa using hl)
  case h_8 r h =>
    split at hm
    case isTrue => cases hm; exact .outrun h
    case isFalse hl => cases hm; exact .recreate h (by simpa using hl)
  case h_9 r i h => cases hm; exact .rewrite h
  case h_10 acquired h =>
    cases hm
    split
    case isTrue hg =>
      obtain ⟨rfl, _⟩ := Bool.and_eq_true_iff.mp hg
      exact .enter h
    case isFalse => exact .abandon h
  case h_11 h => cases hm; exact .settle h
  case h_12 h =>
    split at hm
    case isTrue hq =>
      split at hm
      case h_1 x _ =>
        cases hm
        split
        · exact .confirm h hq
        · exact .disown h hq
      case h_2 => cases hm; exact .disown h hq
    case isFalse => cases hm
  case h_13 h =>
    split at hm
    case isTrue => cases hm; exact .release h
    case isFalse hl => cases hm; exact .gone h (by simpa using hl)
  case h_14 => cases hm

/-- The moves of a renewal. A renewal that is refused leaves the chain. -/
inductive Renews (d : Deployment Process Caller) (s : System Process Caller) (now : ℤ) (c : Caller) :
    FileOp → Heartbeat → Prop
  | read {x : RunLeaseRecord} (hx : s.read = some x) :
    Renews d s now c .none { s.heart c with beat := .checking x }
  | prepare {x : RunLeaseRecord} (hx : renewable d c now x = true) :
    Renews d s now c .none { s.heart c with beat := .preparing { x with
      renewedAt := now, expiresAt := now + (d.lease c).leaseMs } }
  | written {next : RunLeaseRecord} (h : (s.heart c).beat = .preparing next) :
    Renews d s now c .none { s.heart c with beat := .renaming next }
  | install {next : RunLeaseRecord} (h : (s.heart c).beat = .renaming next) :
    Renews d s now c (.install next.text)
      { s.heart c with queued := (s.heart c).queued-1, beat := .waiting }
  | fails : Renews d s now c .none (s.heart c).fails

theorem beatMove_renews {now : ℤ} {c : Caller} {op : FileOp} {b : Heartbeat}
    (hm : beatMove d s now c = some (op, b)) :
    (s.heart c).queued ≠ 0 ∧ Renews d s now c op b := by
  unfold beatMove at hm
  by_cases hq : (s.heart c).queued = 0
  · simp [hq] at hm
  · refine ⟨hq, ?_⟩
    simp only [hq, if_false] at hm
    split at hm
    case h_1 =>
      split at hm
      case h_1 x hx => cases hm; exact .read hx
      case h_2 => cases hm; exact .fails
    case h_2 prior _ =>
      split at hm
      case isTrue hx => cases hm; exact .prepare hx
      case isFalse => cases hm; exact .fails
    case h_3 next h => cases hm; exact .written h
    case h_4 next h => cases hm; exact .install h

def Stage.record : Stage → Option RunLeaseRecord
  | .creating r | .writing r _ | .guarding r | .reading r | .judging r _ | .removing r
  | .recreating r | .rewriting r _ => some r
  | _ => none

/-- The stages between the creation and the removal of the guard. -/
def Stage.guards : Stage → Bool
  | .reading _ | .judging _ _ | .removing _ | .recreating _ | .rewriting _ _ | .unguarding _ => true
  | _ => false

/-- The stages between the creation and the removal of the call's own lock
file. -/
def Stage.holds : Stage → Bool
  | .writing _ _ | .rewriting _ _ | .unguarding true | .running | .ending | .releasing => true
  | _ => false

/-- The file is still to be written through this handle. -/
def Stage.handle : Stage → Option ℕ
  | .writing _ h | .rewriting _ h => some h
  | _ => none

/-- The record names the call and its process. -/
def Own (d : Deployment Process Caller) (c : Caller) (r : RunLeaseRecord) : Prop :=
  r.ownerId = d.ownerId c ∧ r.pid = d.pid (d.process c)

section Records

/-- What a call and its renewals have in hand. -/
structure Records (d : Deployment Process Caller) (s : System Process Caller) : Prop where
  started : ∀ c, s.stage c ≠ .idle → d.process c ∈ s.known
  known : ∀ p ∈ s.live, p ∈ s.known
  beating : ∀ c, (s.heart c).queued ≠ 0 → s.stage c = .running ∨ s.stage c = .ending
  queued : ∀ c, (s.heart c).beat ≠ .waiting → (s.heart c).queued ≠ 0
  records : ∀ c r, (s.stage c).record = some r → Own d c r
  renewals : ∀ c r, (s.heart c).beat = .preparing r ∨ (s.heart c).beat = .renaming r → Own d c r
  written : ∀ f, s.lease = some f → f.text = "" ∨ ∃ c r, f.text = r.text ∧ Own d c r
  judged : ∀ c r x, s.stage c = .judging r x → ∃ c', Own d c' x

theorem records_initial : Records d initial := by
  constructor <;> simp [initial, Stage.record]

theorem read_own (h : Records d s) {x : RunLeaseRecord} (hr : s.read = some x) :
    ∃ c, Own d c x := by
  obtain ⟨f, hf, hread⟩ := Option.bind_eq_some_iff.mp hr
  rcases h.written f hf with he | ⟨c, r, ht, hown⟩
  · rw [he, readLease_empty] at hread
    cases hread
  · rw [ht] at hread
    rw [readLease_own hread]
    exact ⟨c, hown⟩

theorem own_newRecord (d : Deployment Process Caller) (c : Caller) (now : ℤ) :
    Own d c (newRecord d c now) := ⟨rfl, d.lease_pid c⟩

theorem moves_record {now : ℤ} {c : Caller} {op : FileOp} {st : Stage}
    (hm : Moves d s now c op st) {r : RunLeaseRecord} (hr : st.record = some r) :
    (s.stage c).record = some r ∨ r = newRecord d c now := by
  cases hm <;> simp_all [Stage.record]

/-- A text that reaches the lock file is a record of the call that writes it. -/
theorem written_apply {op : FileOp} {c : Caller}
    (ht : ∀ text, (∃ i, op = .write i text) ∨ op = .install text → ∃ r : RunLeaseRecord,
      text = r.text ∧ Own d c r)
    (h : ∀ f, s.lease = some f → f.text = "" ∨ ∃ c r, f.text = RunLeaseRecord.text r ∧ Own d c r) :
    ∀ f, (s.apply op).lease = some f → f.text = "" ∨ ∃ c r, f.text = r.text ∧ Own d c r := by
  intro f hf
  cases op with
  | none | lock | unlock => exact h f hf
  | create =>
    left
    rw [← Option.some.inj hf]
  | write i text =>
    obtain ⟨g, hg, rfl⟩ := Option.map_eq_some_iff.mp hf
    unfold LockFile.write
    split
    · obtain ⟨r, he, hown⟩ := ht text (.inl ⟨i, rfl⟩)
      exact .inr ⟨c, r, he, hown⟩
    · exact h g hg
  | remove => cases hf
  | install text =>
    obtain ⟨r, he, hown⟩ := ht text (.inr rfl)
    rw [← Option.some.inj hf]
    exact .inr ⟨c, r, he, hown⟩

variable [DecidableEq Caller]

theorem records_main {now : ℤ} {c : Caller} {op : FileOp} {st : Stage} (h : Records d s)
    (hl : Live d s c) (hm : Moves d s now c op st) : Records d ((s.apply op).setStage c st) := by
  have hown : ∀ r, st.record = some r → Own d c r := by
    intro r hr
    rcases moves_record hm hr with hold | rfl
    · exact h.records c r hold
    · exact own_newRecord d c now
  refine ⟨?_, by simpa using h.known, ?_, by simpa using h.queued, ?_, by simpa using h.renewals,
    ?_, ?_⟩
  · intro c' hc'
    by_cases he : c' = c
    · rw [he]
      simpa using h.known _ hl
    · rw [setStage_other st he, apply_stage] at hc'
      simpa using h.started c' hc'
  · intro c' hq
    rw [setStage_heart, apply_heart] at hq
    by_cases he : c' = c
    · subst he
      rw [setStage_self]
      have := h.beating c' hq
      cases hm <;> simp_all
    · rw [setStage_other st he, apply_stage]
      exact h.beating c' hq
  · intro c' r hr
    by_cases he : c' = c
    · subst he
      rw [setStage_self] at hr
      exact hown r hr
    · rw [setStage_other st he, apply_stage] at hr
      exact h.records c' r hr
  · refine written_apply (c := c) ?_ h.written
    rintro text (⟨i, rfl⟩ | rfl)
    · cases hm with
      | write hs => exact ⟨_, rfl, h.records c _ (by rw [hs]; rfl)⟩
      | rewrite hs => exact ⟨_, rfl, h.records c _ (by rw [hs]; rfl)⟩
    · cases hm
  · intro c' r x hx
    by_cases he : c' = c
    · subst he
      rw [setStage_self] at hx
      subst hx
      cases hm with
      | read _ hread => exact read_own h hread
    · rw [setStage_other st he, apply_stage] at hx
      exact h.judged c' r x hx

theorem records_beat {now : ℤ} {c : Caller} {op : FileOp} {b : Heartbeat} (h : Records d s)
    (hq : (s.heart c).queued ≠ 0) (hm : Renews d s now c op b) :
    Records d ((s.apply op).setHeart c b) := by
  refine ⟨by simpa using h.started, by simpa using h.known, ?_, ?_, by simpa using h.records, ?_,
    ?_, by simpa using h.judged⟩
  · intro c' hq'
    rw [setHeart_stage, apply_stage]
    by_cases he : c' = c
    · rw [he]
      exact h.beating c hq
    · rw [setHeart_other b he, apply_heart] at hq'
      exact h.beating c' hq'
  · intro c' hb
    by_cases he : c' = c
    · subst he
      rw [setHeart_self] at hb ⊢
      cases hm <;> simp_all [Heartbeat.fails]
    · rw [setHeart_other b he, apply_heart] at hb ⊢
      exact h.queued c' hb
  · intro c' r hr
    by_cases he : c' = c
    · subst he
      rw [setHeart_self] at hr
      cases hm with
      | read | install | fails => simp [Heartbeat.fails] at hr
      | @prepare x hx =>
        simp only [renewable, Bool.and_eq_true, beq_iff_eq, decide_eq_true_eq] at hx
        obtain rfl : _ = r := by simpa using hr
        exact ⟨hx.1.1.1.1, hx.1.1.2.trans (d.lease_pid c')⟩
      | written hp =>
        obtain rfl : _ = r := by simpa using hr
        exact h.renewals c' _ (.inl hp)
    · rw [setHeart_other b he, apply_heart] at hr
      exact h.renewals c' r hr
  · refine written_apply (c := c) ?_ h.written
    rintro text (⟨i, rfl⟩ | rfl)
    · cases hm
    · cases hm with
      | install hr => exact ⟨_, rfl, h.renewals c _ (.inr hr)⟩

end Records

section Guard

/-- The guard exists while a call is between its creation and its removal,
and no two calls are there. Dead calls count: their guard stays. -/
structure Guarded (s : System Process Caller) : Prop where
  present : ∀ c, (s.stage c).guards = true → s.guard = true
  single : ∀ c c', (s.stage c).guards = true → (s.stage c').guards = true → c = c'

theorem moves_guard {now : ℤ} {c : Caller} {op : FileOp} {st : Stage} (hm : Moves d s now c op st) :
    (op = .lock ∧ s.guard = false) ∨
    (op = .unlock ∧ (s.stage c).guards = true ∧ st.guards = false) ∨
    ((s.apply op).guard = s.guard ∧ (st.guards = true → (s.stage c).guards = true)) := by
  cases hm <;> simp_all [Stage.guards, System.apply]

variable [DecidableEq Caller]

theorem guarded_main {now : ℤ} {c : Caller} {op : FileOp} {st : Stage} (h : Guarded s)
    (hm : Moves d s now c op st) : Guarded ((s.apply op).setStage c st) := by
  have hother : ∀ c', c' ≠ c → ((s.apply op).setStage c st).stage c' = s.stage c' := by
    intro c' he
    rw [setStage_other st he, apply_stage]
  rcases moves_guard hm with ⟨rfl, hfree⟩ | ⟨rfl, hold, hnew⟩ | ⟨hsame, hkeep⟩
  · have hnone : ∀ c', (s.stage c').guards ≠ true := by
      intro c' hc'
      rw [h.present c' hc'] at hfree
      cases hfree
    have honly : ∀ c', (((s.apply .lock).setStage c st).stage c').guards = true → c' = c := by
      intro c' hc'
      by_contra he
      rw [hother c' he] at hc'
      exact hnone c' hc'
    exact ⟨fun _ _ => rfl, fun a b ha hb => (honly a ha).trans (honly b hb).symm⟩
  · have hnone : ∀ c', (((s.apply .unlock).setStage c st).stage c').guards ≠ true := by
      intro c' hc'
      by_cases he : c' = c
      · rw [he, setStage_self, hnew] at hc'
        cases hc'
      · rw [hother c' he] at hc'
        exact he (h.single c' c hc' hold)
    exact ⟨fun a ha => absurd ha (hnone a), fun a b ha _ => absurd ha (hnone a)⟩
  · have hback : ∀ c', (((s.apply op).setStage c st).stage c').guards = true →
        (s.stage c').guards = true := by
      intro c' hc'
      by_cases he : c' = c
      · subst he
        rw [setStage_self] at hc'
        exact hkeep hc'
      · rwa [hother c' he] at hc'
    refine ⟨fun a ha => ?_, fun a b ha hb => h.single a b (hback a ha) (hback b hb)⟩
    rw [setStage_guard, hsame]
    exact h.present a (hback a ha)

end Guard

section Holder

/-- The lock file is the one the call has created: empty until it is written,
then with a record of the call. -/
def Held (d : Deployment Process Caller) (s : System Process Caller) (c : Caller) : Prop :=
  match (s.stage c).handle with
  | some i => s.lease = some ⟨i, ""⟩
  | none => ∃ f r, s.lease = some f ∧ f.text = RunLeaseRecord.text r ∧ Own d c r

structure Holding (d : Deployment Process Caller) (s : System Process Caller) : Prop where
  held : ∀ c, Live d s c → (s.stage c).holds = true → Held d s c
  single : ∀ c c', Live d s c → Live d s c' → (s.stage c).holds = true →
    (s.stage c').holds = true → c = c'
  dead : ∀ c r, Live d s c → s.stage c = .removing r →
    ∃ x, s.read = some x ∧ isProcessAlive d s x.pid = false

theorem live_alive {c : Caller} (h : Live d s c) :
    isProcessAlive d s (d.pid (d.process c)) = true :=
  List.any_eq_true.mpr ⟨d.process c, h, by simp⟩

theorem held_lease {c : Caller} (h : Held d s c) : ∃ f, s.lease = some f := by
  unfold Held at h
  split at h
  · exact ⟨_, h⟩
  · obtain ⟨f, _, hf, _⟩ := h
    exact ⟨f, hf⟩

/-- A lock file that names a dead process belongs to no live call. -/
theorem vacant_of_dead (h : Holding d s) {x : RunLeaseRecord} (hx : s.read = some x)
    (hdead : isProcessAlive d s x.pid = false) {c : Caller} (hc : Live d s c) :
    (s.stage c).holds = false := by
  by_contra hholds
  have hheld := h.held c hc (by simpa using hholds)
  unfold Held at hheld
  split at hheld
  · simp [System.read, hheld, readLease_empty] at hx
  · obtain ⟨f, r, hf, ht, hown⟩ := hheld
    simp only [System.read, hf, Option.bind_some, ht] at hx
    rw [readLease_own hx, hown.2, live_alive hc] at hdead
    cases hdead

theorem moves_lease {now : ℤ} {c : Caller} {op : FileOp} {st : Stage} (hm : Moves d s now c op st) :
    (op.spares = true ∧ (st.holds = true → (s.stage c).holds = true ∧ st.handle = none ∧
      (s.stage c).handle = none)) ∨
    (op = .create ∧ s.lease = none ∧ st.handle = some s.inodes) ∨
    (∃ i r, op = .write i r.text ∧ (s.stage c).handle = some i ∧ (s.stage c).holds = true ∧
      (s.stage c).record = some r ∧ st.holds = true ∧ st.handle = none) ∨
    (op = .remove ∧ st.holds = false ∧ (∀ r, st ≠ .removing r) ∧
      (((s.stage c).holds = true ∧ (s.stage c).handle = none) ∨ ∃ r, s.stage c = .removing r)) := by
  cases hm <;> simp_all [Stage.holds, Stage.handle, Stage.record, FileOp.spares]

theorem moves_removing {now : ℤ} {c : Caller} {op : FileOp} {r : RunLeaseRecord}
    (hm : Moves d s now c op (.removing r)) :
    ∃ x, s.stage c = .judging r x ∧ recoverable d s c now x = true := by
  cases hm with
  | recover h hx => exact ⟨_, h, hx⟩

variable [DecidableEq Caller]

/-- After an operation of a call, at most that call holds the lock file. -/
theorem holding_sole {c : Caller} {op : FileOp} {st : Stage}
    (hothers : ∀ c', c' ≠ c → Live d s c' → (s.stage c').holds = false)
    (hremovers : ∀ c' r, c' ≠ c → Live d s c' → s.stage c' ≠ .removing r)
    (hst : ∀ r, st ≠ .removing r)
    (hheld : st.holds = true → Held d ((s.apply op).setStage c st) c) :
    Holding d ((s.apply op).setStage c st) := by
  have hlive : ∀ c', Live d ((s.apply op).setStage c st) c' → Live d s c' := by
    intro c' hc'
    simpa [Live] using hc'
  have hself : ∀ c', Live d ((s.apply op).setStage c st) c' →
      (((s.apply op).setStage c st).stage c').holds = true → c' = c := by
    intro c' hc' hh
    by_contra he
    rw [setStage_other st he, apply_stage, hothers c' he (hlive c' hc')] at hh
    cases hh
  refine ⟨?_, ?_, ?_⟩
  · intro c' hc' hh
    obtain rfl := hself c' hc' hh
    rw [setStage_self] at hh
    exact hheld hh
  · intro a b ha hb hha hhb
    exact (hself a ha hha).trans (hself b hb hhb).symm
  · intro c' r hc' hr
    by_cases he : c' = c
    · subst he
      rw [setStage_self] at hr
      exact absurd hr (hst r)
    · rw [setStage_other st he, apply_stage] at hr
      exact absurd hr (hremovers c' r he (hlive c' hc'))

theorem holding_keep {c : Caller} {op : FileOp} {st : Stage} (h : Holding d s)
    (hop : op.spares = true)
    (hkeep : st.holds = true → (s.stage c).holds = true ∧ st.handle = none ∧
      (s.stage c).handle = none)
    (hdead : ∀ r, st = .removing r → ∃ x, s.read = some x ∧ isProcessAlive d s x.pid = false) :
    Holding d ((s.apply op).setStage c st) := by
  have hlease : ((s.apply op).setStage c st).lease = s.lease := apply_spares hop
  have hlive : ∀ c', Live d ((s.apply op).setStage c st) c' → Live d s c' := by
    intro c' hc'
    simpa [Live] using hc'
  have hread : ((s.apply op).setStage c st).read = s.read := by
    rw [System.read, hlease, System.read]
  have halive : ∀ pid, isProcessAlive d ((s.apply op).setStage c st) pid =
      isProcessAlive d s pid := by
    intro pid
    simp [isProcessAlive]
  have hback : ∀ c', (((s.apply op).setStage c st).stage c').holds = true →
      (s.stage c').holds = true ∧
        (((s.apply op).setStage c st).stage c').handle = (s.stage c').handle := by
    intro c' hc'
    by_cases he : c' = c
    · subst he
      rw [setStage_self] at hc' ⊢
      obtain ⟨hold, hnew, hprior⟩ := hkeep hc'
      exact ⟨hold, hnew.trans hprior.symm⟩
    · rw [setStage_other st he, apply_stage] at hc' ⊢
      exact ⟨hc', rfl⟩
  refine ⟨?_, ?_, ?_⟩
  · intro c' hc' hh
    obtain ⟨hold, hhandle⟩ := hback c' hh
    have hheld := h.held c' (hlive c' hc') hold
    unfold Held at hheld ⊢
    rwa [hhandle, hlease]
  · intro a b ha hb hha hhb
    exact h.single a b (hlive a ha) (hlive b hb) (hback a hha).1 (hback b hhb).1
  · intro c' r hc' hr
    rw [hread]
    simp only [halive]
    by_cases he : c' = c
    · subst he
      rw [setStage_self] at hr
      exact hdead r hr
    · rw [setStage_other st he, apply_stage] at hr
      exact h.dead c' r (hlive c' hc') hr

theorem holding_main {now : ℤ} {c : Caller} {op : FileOp} {st : Stage} (hr : Records d s)
    (hg : Guarded s) (h : Holding d s) (hl : Live d s c) (hm : Moves d s now c op st)
    (hdead : ∀ r, st = .removing r → ∃ x, s.read = some x ∧ isProcessAlive d s x.pid = false) :
    Holding d ((s.apply op).setStage c st) := by
  have hremover : (s.stage c).holds = true → ∀ c' r, c' ≠ c → Live d s c' →
      s.stage c' ≠ .removing r := by
    intro hholds c' r _ hc' hs
    obtain ⟨x, hx, hxdead⟩ := h.dead c' r hc' hs
    rw [vacant_of_dead h hx hxdead hl] at hholds
    cases hholds
  have hsole : (s.stage c).holds = true → ∀ c', c' ≠ c → Live d s c' →
      (s.stage c').holds = false := by
    intro hholds c' he hc'
    by_contra hh
    exact he (h.single c' c hc' hl (by simpa using hh) hholds)
  rcases moves_lease hm with ⟨hop, hkeep⟩ | ⟨rfl, hnone, hhandle⟩ |
    ⟨i, r, rfl, hi, hholds, hrec, hst, hhandle⟩ | ⟨rfl, hst, hne, hcase⟩
  · exact holding_keep h hop hkeep hdead
  · have hread : s.read = none := by simp [System.read, hnone]
    refine holding_sole ?_ ?_ ?_ ?_
    · intro c' _ hc'
      by_contra hh
      obtain ⟨f, hf⟩ := held_lease (h.held c' hc' (by simpa using hh))
      rw [hnone] at hf
      cases hf
    · intro c' r _ hc' hs
      obtain ⟨x, hx, _⟩ := h.dead c' r hc' hs
      rw [hread] at hx
      cases hx
    · intro r he
      rw [he] at hhandle
      cases hhandle
    · intro _
      unfold Held
      rw [setStage_self, hhandle]
      rfl
  · have hheld := h.held c hl hholds
    have hlease : s.lease = some ⟨i, ""⟩ := by
      unfold Held at hheld
      rwa [hi] at hheld
    refine holding_sole (hsole hholds) (hremover hholds) ?_ ?_
    · intro r he
      rw [he] at hst
      cases hst
    · intro _
      unfold Held
      rw [setStage_self, hhandle]
      refine ⟨⟨i, r.text⟩, r, ?_, rfl, hr.records c r hrec⟩
      simp [System.apply, hlease, LockFile.write]
  · have hnot : st.holds = true → Held d ((s.apply .remove).setStage c st) c := by
      intro hh
      rw [hst] at hh
      cases hh
    rcases hcase with ⟨hholds, _⟩ | ⟨r, hs⟩
    · exact holding_sole (hsole hholds) (hremover hholds) hne hnot
    · obtain ⟨x, hx, hxdead⟩ := h.dead c r hl hs
      refine holding_sole (fun c' _ hc' => vacant_of_dead h hx hxdead hc') ?_ hne hnot
      intro c' r' he _ hs'
      exact he (hg.single c' c (by rw [hs']; rfl) (by rw [hs]; rfl))

theorem holding_beat {now : ℤ} {c : Caller} {op : FileOp} {b : Heartbeat} (hr : Records d s)
    (h : Holding d s) (hl : Live d s c) (hq : (s.heart c).queued ≠ 0) (hm : Renews d s now c op b) :
    Holding d ((s.apply op).setHeart c b) := by
  have hholds : (s.stage c).holds = true ∧ (s.stage c).handle = none := by
    rcases hr.beating c hq with he | he <;> rw [he] <;> exact ⟨rfl, rfl⟩
  cases hm with
  | read | prepare | written | fails => exact ⟨h.held, h.single, h.dead⟩
  | @install next hb =>
    refine ⟨?_, h.single, ?_⟩
    · intro c' hc' hh
      obtain rfl := h.single c' c hc' hl hh hholds.1
      unfold Held
      rw [setHeart_stage, apply_stage, hholds.2]
      exact ⟨⟨s.inodes, next.text⟩, next, rfl, rfl, hr.renewals c' next (.inr hb)⟩
    · intro c' r hc' hs
      obtain ⟨x, hx, hdead⟩ := h.dead c' r hc' hs
      have := vacant_of_dead h hx hdead hl
      rw [hholds.1] at this
      cases this

end Holder

section Runs

/-- The lock file still carries the name of the owner whose lease is judged,
or the judgement is against a takeover. -/
def current (d : Deployment Process Caller) (s : System Process Caller) :
    Action Process Caller → Bool
  | .main c now =>
    match s.stage c with
    | .judging _ x => !recoverable d s c now x || s.read.any fun y => y.ownerId == x.ownerId
    | _ => true
  | _ => true

structure Invariant (d : Deployment Process Caller) (s : System Process Caller) : Prop where
  records : Records d s
  guarded : Guarded s
  holding : Holding d s

theorem invariant_initial : Invariant d initial := by
  refine ⟨records_initial, ⟨?_, ?_⟩, ⟨?_, ?_, ?_⟩⟩ <;> simp [initial, Stage.guards, Stage.holds]

/-- The lock file is a call's own: it carries the call's identifier, or the
call is about to write it. -/
def Owns (d : Deployment Process Caller) (s : System Process Caller) (c : Caller) (f : LockFile) :
    Prop :=
  (∃ r : RunLeaseRecord, f.text = r.text ∧ r.ownerId = d.ownerId c) ∨
    (s.stage c).handle = some f.inode

theorem handle_holds {st : Stage} {i : ℕ} (h : st.handle = some i) : st.holds = true := by
  cases st <;> first | rfl | cases h

/-- The lock file of a live call that holds it has no other live owner. -/
theorem owner_unique (h : Invariant d s) {c c' : Caller} {f : LockFile} (hl' : Live d s c')
    (hholds : (s.stage c').holds = true) (hf : s.lease = some f) (hl : Live d s c)
    (ho : Owns d s c f) : c = c' := by
  rcases ho with ⟨r, ht, hid⟩ | hhandle
  · have hheld := h.holding.held c' hl' hholds
    unfold Held at hheld
    split at hheld
    · rw [hf, Option.some.injEq] at hheld
      rw [hheld] at ht
      exact absurd ht.symm (text_ne_empty r)
    · obtain ⟨g, x, hg, hx, hown⟩ := hheld
      rw [hf, Option.some.injEq] at hg
      rw [← hg, ht] at hx
      rw [text_injective hx] at hid
      exact d.ownerId_injective (hid.symm.trans hown.1)
  · exact h.holding.single c c' hl hl' (handle_holds hhandle) hholds

/-- A lock file that is about to be removed by a recovery has no live owner. -/
theorem ownerless_of_dead (h : Invariant d s) {x : RunLeaseRecord} (hx : s.read = some x)
    (hdead : isProcessAlive d s x.pid = false) {c : Caller} {f : LockFile}
    (hf : s.lease = some f) (hl : Live d s c) : ¬ Owns d s c f := by
  rintro (⟨r, ht, hid⟩ | hhandle)
  · obtain ⟨b, hb⟩ := read_own h.records hx
    simp only [System.read, hf, Option.bind_some, ht] at hx
    rw [readLease_own hx] at hb hdead
    obtain rfl : b = c := d.ownerId_injective (hb.1.symm.trans hid)
    rw [hb.2, live_alive hl] at hdead
    cases hdead
  · have := vacant_of_dead h.holding hx hdead hl
    rw [handle_holds hhandle] at this
    cases this

theorem main_owner (h : Invariant d s) {now : ℤ} {c c' : Caller} {op : FileOp} {st : Stage}
    {f : LockFile} (hl' : Live d s c') (hm : Moves d s now c' op st) (hf : s.lease = some f)
    (hchange : (s.apply op).lease ≠ some f) (hl : Live d s c) (ho : Owns d s c f) : c' = c := by
  rcases moves_lease hm with ⟨hop, _⟩ | ⟨_, hnone, _⟩ | ⟨i, r, _, _, hholds, _⟩ |
    ⟨_, _, _, ⟨hholds, _⟩ | ⟨r, hs⟩⟩
  · exact absurd ((apply_spares hop).trans hf) hchange
  · rw [hnone] at hf
    cases hf
  · exact (owner_unique h hl' hholds hf hl ho).symm
  · exact (owner_unique h hl' hholds hf hl ho).symm
  · obtain ⟨x, hx, hdead⟩ := h.holding.dead c' r hl' hs
    exact absurd ho (ownerless_of_dead h hx hdead hf hl)

theorem invariant_main [DecidableEq Caller] {now : ℤ} {c : Caller} {op : FileOp} {st : Stage}
    (h : Invariant d s) (hl : Live d s c) (hm : Moves d s now c op st)
    (hc : current d s (.main c now) = true) :
    Invariant d ((s.apply op).setStage c st) := by
  refine ⟨records_main h.records hl hm, guarded_main h.guarded hm,
    holding_main h.records h.guarded h.holding hl hm ?_⟩
  rintro r rfl
  obtain ⟨x, hs, hx⟩ := moves_removing hm
  simp only [current, hs, hx, Bool.not_true, Bool.false_or, Option.any_eq_true, beq_iff_eq] at hc
  obtain ⟨y, hy, hid⟩ := hc
  obtain ⟨a, ha⟩ := h.records.judged c r x hs
  obtain ⟨b, hb⟩ := read_own h.records hy
  -- the identifier decides the call, and the call its process
  have hab : b = a := d.ownerId_injective (hb.1.symm.trans (hid.trans ha.1))
  subst hab
  simp only [recoverable, Bool.and_eq_true, Bool.not_eq_true'] at hx
  exact ⟨y, hy, by rw [hb.2, ← ha.2]; exact hx.2⟩

theorem invariant_spawn {p : Process} (h : Invariant d s) (hp : p ∉ s.known)
    (hfree : pidFree d s (d.pid p) = true) :
    Invariant d { s with known := p::s.known, live := p::s.live } := by
  have hlive : ∀ c, s.stage c ≠ .idle →
      Live d { s with known := p::s.known, live := p::s.live } c → Live d s c := by
    intro c hs hc
    rcases List.mem_cons.mp hc with he | hc
    · exact absurd (he ▸ h.records.started c hs) hp
    · exact hc
  have hholds : ∀ c, (s.stage c).holds = true → s.stage c ≠ .idle := by
    intro c hh he
    rw [he] at hh
    cases hh
  refine ⟨⟨?_, ?_, h.records.beating, h.records.queued, h.records.records, h.records.renewals,
    h.records.written, h.records.judged⟩, ⟨h.guarded.present, h.guarded.single⟩, ⟨?_, ?_, ?_⟩⟩
  · intro c hs
    exact List.mem_cons_of_mem p (h.records.started c hs)
  · intro q hq
    rcases List.mem_cons.mp hq with rfl | hq
    · exact List.mem_cons_self
    · exact List.mem_cons_of_mem p (h.records.known q hq)
  · intro c hc hh
    exact h.holding.held c (hlive c (hholds c hh) hc) hh
  · intro a b ha hb hha hhb
    exact h.holding.single a b (hlive a (hholds a hha) ha) (hlive b (hholds b hhb) hb) hha hhb
  · intro c r hc hs
    obtain ⟨x, hx, hdead⟩ := h.holding.dead c r (hlive c (by rw [hs]; simp) hc) hs
    refine ⟨x, hx, ?_⟩
    simp only [pidFree, hx, Option.all_some, Bool.and_eq_true, bne_iff_ne, ne_eq] at hfree
    simp only [isProcessAlive, List.any_cons, Bool.or_eq_false_iff, beq_eq_false_iff_ne, ne_eq]
    exact ⟨fun he => hfree.2 he.symm, hdead⟩

theorem invariant_crash [DecidableEq Process] (p : Process) (h : Invariant d s) :
    Invariant d { s with live := s.live.filter (· ≠ p) } := by
  have hlive : ∀ c, Live d { s with live := s.live.filter (· ≠ p) } c → Live d s c :=
    fun c hc => List.mem_of_mem_filter hc
  refine ⟨⟨h.records.started, fun q hq => h.records.known q (List.mem_of_mem_filter hq),
    h.records.beating, h.records.queued, h.records.records, h.records.renewals,
    h.records.written, h.records.judged⟩, ⟨h.guarded.present, h.guarded.single⟩, ⟨?_, ?_, ?_⟩⟩
  · intro c hc hh
    exact h.holding.held c (hlive c hc) hh
  · intro a b ha hb hha hhb
    exact h.holding.single a b (hlive a ha) (hlive b hb) hha hhb
  · intro c r hc hs
    obtain ⟨x, hx, hdead⟩ := h.holding.dead c r (hlive c hc) hs
    refine ⟨x, hx, ?_⟩
    simp only [isProcessAlive, List.any_eq_false] at hdead ⊢
    exact fun q hq => hdead q (List.mem_of_mem_filter hq)

variable [DecidableEq Caller]

theorem invariant_tick {c : Caller} (h : Invariant d s) (hs : s.stage c = .running) :
    Invariant d (s.setHeart c { s.heart c with queued := (s.heart c).queued+1 }) := by
  refine ⟨⟨h.records.started, h.records.known, ?_, ?_, h.records.records, ?_,
    h.records.written, h.records.judged⟩, ⟨h.guarded.present, h.guarded.single⟩,
    ⟨h.holding.held, h.holding.single, h.holding.dead⟩⟩
  · intro c' hq
    by_cases he : c' = c
    · rw [he]
      exact .inl hs
    · rw [setHeart_other _ he] at hq
      exact h.records.beating c' hq
  · intro c' hb
    by_cases he : c' = c
    · rw [he, setHeart_self]
      exact Nat.succ_ne_zero _
    · rw [setHeart_other _ he] at hb ⊢
      exact h.records.queued c' hb
  · intro c' r hr
    by_cases he : c' = c
    · rw [he, setHeart_self] at hr
      exact he ▸ h.records.renewals c r hr
    · rw [setHeart_other _ he] at hr
      exact h.records.renewals c' r hr

variable [DecidableEq Process]

attribute [local simp] step in
theorem invariant_step {a : Action Process Caller} (h : Invariant d s) (hc : current d s a = true)
    (hs : step d s a = some s') : Invariant d s' := by
  cases a with
  | spawn p =>
    simp only [step, Option.ite_none_right_eq_some, Option.some.injEq] at hs
    obtain ⟨⟨hp, hfree⟩, rfl⟩ := hs
    exact invariant_spawn h hp hfree
  | crash p =>
    simp only [step, Option.some.injEq] at hs
    exact hs ▸ invariant_crash p h
  | main c now =>
    simp only [step, Option.ite_none_right_eq_some, Option.map_eq_some_iff] at hs
    obtain ⟨hl, ⟨op, st⟩, hm, rfl⟩ := hs
    exact invariant_main h hl (mainMove_moves hm) hc
  | tick c =>
    simp only [step, Option.ite_none_right_eq_some, Option.some.injEq] at hs
    obtain ⟨⟨_, hrun, _⟩, rfl⟩ := hs
    exact invariant_tick h hrun
  | beat c now =>
    simp only [step, Option.ite_none_right_eq_some, Option.map_eq_some_iff] at hs
    obtain ⟨hl, ⟨op, b⟩, hm, rfl⟩ := hs
    obtain ⟨hq, hren⟩ := beatMove_renews hm
    refine ⟨records_beat h.records hq hren, ?_, holding_beat h.records h.holding hl hq hren⟩
    cases hren <;> exact ⟨h.guarded.present, h.guarded.single⟩

/-- The states of the runs in which every lease is judged in time. -/
inductive Reached (d : Deployment Process Caller) : System Process Caller → Prop
  | start : Reached d initial
  | step {s s' : System Process Caller} {a : Action Process Caller} (h : Reached d s)
    (hc : current d s a = true) (hs : step d s a = some s') : Reached d s'

theorem reached_invariant (h : Reached d s) : Invariant d s := by
  induction h with
  | start => exact invariant_initial
  | step _ hc hs ih => exact invariant_step ih hc hs

def Timely (d : Deployment Process Caller) :
    System Process Caller → List (Action Process Caller) → Bool
  | _, [] => true
  | s, a::rest => current d s a && (step d s a).all fun s' => Timely d s' rest

/-- The call is inside its task. -/
def Inside (d : Deployment Process Caller) (s : System Process Caller) (c : Caller) : Prop :=
  Live d s c ∧ s.stage c = .running

/-- At most one live call is inside its task, and a step that removes or
overwrites the lock file of a live call is that call's own. -/
theorem lease_exclusion (h : Reached d s) :
    (∀ c c', Inside d s c → Inside d s c' → c = c') ∧
    ∀ a s' f, step d s a = some s' → s.lease = some f → s'.lease ≠ some f →
      ∀ c, Live d s c → Owns d s c f → a.caller = some c := by
  have hi := reached_invariant h
  constructor
  · intro c c' hc hc'
    apply hi.holding.single c c' hc.1 hc'.1
    · rw [hc.2]
      rfl
    · rw [hc'.2]
      rfl
  · intro a s' f hs hf hchange c hl ho
    cases a with
    | spawn p =>
      simp only [step, Option.ite_none_right_eq_some, Option.some.injEq] at hs
      obtain ⟨_, rfl⟩ := hs
      exact absurd hf hchange
    | crash p =>
      simp only [step, Option.some.injEq] at hs
      subst hs
      exact absurd hf hchange
    | main c' now =>
      simp only [step, Option.ite_none_right_eq_some, Option.map_eq_some_iff] at hs
      obtain ⟨hl', ⟨op, st⟩, hm, rfl⟩ := hs
      rw [Action.caller, main_owner hi hl' (mainMove_moves hm) hf hchange hl ho]
    | tick c' =>
      simp only [step, Option.ite_none_right_eq_some, Option.some.injEq] at hs
      obtain ⟨_, rfl⟩ := hs
      exact absurd hf hchange
    | beat c' now =>
      simp only [step, Option.ite_none_right_eq_some, Option.map_eq_some_iff] at hs
      obtain ⟨hl', ⟨op, b⟩, hm, rfl⟩ := hs
      obtain ⟨hq, _⟩ := beatMove_renews hm
      have hholds : (s.stage c').holds = true := by
        rcases hi.records.beating c' hq with he | he <;> rw [he] <;> rfl
      rw [Action.caller, owner_unique hi hl' hholds hf hl ho]

theorem reached_exec {acts : List (Action Process Caller)} (h : Reached d s)
    (ht : Timely d s acts = true) (hs : exec d s acts = some s') : Reached d s' := by
  induction acts generalizing s with
  | nil =>
    simp only [exec, Option.some.injEq] at hs
    exact hs ▸ h
  | cons a rest ih =>
    obtain ⟨s1, h1, hrest⟩ := Option.bind_eq_some_iff.mp hs
    simp only [Timely, h1, Option.all_some, Bool.and_eq_true] at ht
    exact ih (.step h ht.1 h1) ht.2 hrest

end Runs

section Sample

def sampleLease (n : ℕ) : CampaignRunLease :=
  ⟨90000, 20000, "host", n+1, by decide, by decide, by omega⟩

/-- Three processes, each with one call. -/
def sampleDeployment : Deployment (Fin 3) (Fin 3) where
  hostname := "host"
  pid p := p.val+1
  process c := c
  lease c := sampleLease c.val
  ownerId c := ["00000000-0000-4000-8000-000000000000", "00000000-0000-4000-8000-000000000001",
    "00000000-0000-4000-8000-000000000002"].getD c.val ""
  lease_hostname _ := rfl
  lease_pid _ := rfl
  ownerId_injective := by
    intro a b
    revert a b
    decide

/-- The first call acquires the lease and its process dies; the second
recovers the expired lease. -/
def recovery : List (Action (Fin 3) (Fin 3)) :=
  [Action.spawn 0, .spawn 1] ++ List.replicate 3 (Action.main 0 1000) ++ [Action.crash 0] ++
    List.replicate 9 (Action.main 1 100000)

/-- The second call reads the lease of the first. The first call releases it,
the third acquires the lease, the first process ends, and only then the
second call judges what it has read. -/
def lateJudgement : List (Action (Fin 3) (Fin 3)) :=
  [Action.spawn 0, .spawn 1, .spawn 2] ++ List.replicate 3 (Action.main 0 1000) ++
    List.replicate 4 (Action.main 1 2000) ++ List.replicate 3 (Action.main 0 3000) ++
    List.replicate 3 (Action.main 2 100000) ++ [Action.crash 0] ++ List.replicate 5 (Action.main 1 100001)

/-- The recovery has happened and the second call is alone in its task. -/
theorem lease_exclusion_recovered : ∃ s, Reached sampleDeployment s ∧ Inside sampleDeployment s 1 ∧
    ∀ c, Inside sampleDeployment s c → c = 1 := by
  have hrun : ((exec sampleDeployment initial recovery).any fun s =>
      s.stage 1 = .running && s.live.contains 1) = true ∧
      Timely sampleDeployment initial recovery = true := by decide +kernel
  simp only [Option.any_eq_true, Bool.and_eq_true, List.contains_iff_mem, decide_eq_true_eq] at hrun
  obtain ⟨⟨s, hs, hstage, hlive⟩, htimely⟩ := hrun
  have hreached : Reached sampleDeployment s := reached_exec .start htimely hs
  have hinside : Inside sampleDeployment s 1 := ⟨hlive, hstage⟩
  exact ⟨s, hreached, hinside, fun c hc => (lease_exclusion hreached).1 c 1 hc hinside⟩

/-- Two live calls are inside their tasks, and the lock file of the third
call was removed by the second. -/
theorem judged_too_late :
    (∃ s, exec sampleDeployment initial lateJudgement = some s ∧
      Inside sampleDeployment s 1 ∧ Inside sampleDeployment s 2) ∧
    ∃ s s' f, exec sampleDeployment initial (lateJudgement.take 18) = some s ∧
      step sampleDeployment s (.main 1 100001) = some s' ∧ s.lease = some f ∧ s'.lease = none ∧
      Inside sampleDeployment s 2 ∧ Owns sampleDeployment s 2 f := by
  have hrun : ((exec sampleDeployment initial lateJudgement).any fun s =>
      (s.live.contains 1 && s.stage 1 = .running) && s.live.contains 2 && s.stage 2 = .running) =
      true ∧ ((exec sampleDeployment initial (lateJudgement.take 18)).any fun s =>
      (step sampleDeployment s (.main 1 100001)).any (·.lease == none) &&
        s.lease.any (·.text == (newRecord sampleDeployment 2 100000).text) &&
        s.live.contains 2 && s.stage 2 = .running) = true := by decide +kernel
  simp only [Option.any_eq_true, Bool.and_eq_true, List.contains_iff_mem, decide_eq_true_eq,
    beq_iff_eq] at hrun
  obtain ⟨⟨s, hs, ⟨h1, h2⟩, h3⟩, t, ht, ⟨⟨⟨t', ht', hgone⟩, f, hf, htext⟩, hlive⟩, hstage⟩ := hrun
  refine ⟨⟨s, hs, h1, h2, h3⟩, t, t', f, ht, ht', hf, hgone, ⟨hlive, hstage⟩, .inl ?_⟩
  exact ⟨newRecord sampleDeployment 2 100000, htext, rfl⟩

end Sample

end AccessStack.RunLease
