import AccessStack.Runs
import AccessStack.Tasks.Absorbing

/-!
# Starts of background tasks

All the tasks of a `BackgroundTaskManager`. The starts take turns: the one
whose turn it is waits for the writes that are queued, lists the tasks of its
owner, writes off those that have lost their process, prunes, and creates a
task when none of the listed ones runs its command. Everything else that
happens to a task is a step of its own manager.
-/

set_option autoImplicit false

namespace AccessStack.Tasks.Starts
open AccessStack.Runs

section Machine

structure Key where
  workspaceId : String
  ownerScopeHash : Option String
  commandHash : String
  deriving DecidableEq

structure Task where
  key : Key
  createdAt : ℕ
  manager : Manager
  /-- The writes of the task that the start in turn still waits for. -/
  awaited : ℕ

/-- The await of the start whose turn it is. -/
inductive Turn where
  | listing (key : Key)
  | refreshing (key : Key) (duplicate : Option ℕ)
  | pruning (key : Key) (victim : Option ℕ)
  | creating (key : Key) (id : ℕ)
  deriving DecidableEq

structure Service where
  tasks : List Task
  turn : Option Turn
  /-- The tasks that the starts have returned. -/
  answers : List (Key × ℕ)

structure FoundTask where
  key : Key
  createdAt : ℕ
  record : BackgroundTaskRecord
  deriving DecidableEq

/-- The tasks that `initialize` finds, no two of them active under one key. -/
structure Found where
  tasks : List FoundTask
  distinct : ∀ (i j : ℕ) (a b : FoundTask), tasks[i]? = some a → tasks[j]? = some b → a.key = b.key →
    isActive a.record.state = true → isActive b.record.state = true → i = j

def Service.initial (found : Found) : Service :=
  ⟨found.tasks.map fun f => ⟨f.key, f.createdAt, Manager.initial (some f.record), 0⟩, none, []⟩

inductive Event where
  | task (id : ℕ) (event : Tasks.Event)
  | start (key : Key)
  | look (alive : ℕ → Bool) (now : String)
  | listed
  | victim (id : ℕ)
  | remove
  | fault
  | create (createdAt : ℕ)
  | begin (now : String)

/-- A step of the task that is not one of its start. -/
def Task.step (t : Task) : Tasks.Event → Task
  | .create | .begin _ => t
  | .drain => { t with manager := Tasks.step t.manager .drain, awaited := t.awaited-1 }
  | event => { t with manager := Tasks.step t.manager event }

/-- `refreshRecoveredTask` for a task of the list. -/
def Task.refresh (t : Task) (alive : ℕ → Bool) (now : String) : Task :=
  match t.manager.stored with
  | none => t
  | some record =>
    if recovers t.manager record (record.pid.any alive) then
      let manager := t.manager.persist .start (interruptedRecord record now)
      { t with manager, awaited := manager.queue.length }
    else t

/-- The listed record of the task is active. -/
def Task.listedActive (t : Task) (alive : ℕ → Bool) : Bool :=
  t.manager.stored.any fun record =>
    isActive record.state && !recovers t.manager record (record.pid.any alive)

/-- The most recent of the active tasks with the command. -/
def duplicateOf (tasks : List Task) (key : Key) (alive : ℕ → Bool) : Option ℕ :=
  let listed := tasks.zipIdx.filter fun entry =>
    entry.1.key.ownerScopeHash = key.ownerScopeHash ∧ entry.1.key.workspaceId = key.workspaceId
  let sorted := listed.insertionSort fun a b => b.1.createdAt ≤ a.1.createdAt
  (sorted.find? fun entry =>
    entry.1.key.commandHash = key.commandHash && entry.1.listedActive alive).map (·.2)

def look (s : Service) (key : Key) (alive : ℕ → Bool) (now : String) : Service :=
  { s with
    tasks := s.tasks.map fun t =>
      if t.key.ownerScopeHash = key.ownerScopeHash then t.refresh alive now else t
    turn := some (.refreshing key (duplicateOf s.tasks key alive)) }

/-- The writes that the start waits for are done. -/
def Service.written (s : Service) : Prop := ∀ t ∈ s.tasks, t.awaited = 0

instance (s : Service) : Decidable s.written := by
  unfold Service.written
  infer_instance

def Task.terminal (t : Task) : Bool := t.manager.stored.any fun record => !isActive record.state

def step (s : Service) : Event → Service
  | .task id event => { s with tasks := s.tasks.modify id (·.step event) }
  | .start key =>
    match s.turn with
    | none =>
      { s with
        tasks := s.tasks.map fun t => { t with awaited := t.manager.queue.length }
        turn := some (.listing key) }
    | _ => s
  | .look alive now =>
    match s.turn with
    | some (.listing key) => if s.written then look s key alive now else s
    | _ => s
  | .listed =>
    match s.turn with
    | some (.refreshing key none) =>
      if s.written then { s with turn := some (.pruning key none) } else s
    | some (.refreshing key (some id)) =>
      if s.written then { s with turn := none, answers := s.answers ++ [(key, id)] } else s
    | _ => s
  | .victim id =>
    match s.turn with
    | some (.pruning key none) =>
      if (s.tasks[id]?).any Task.terminal then { s with turn := some (.pruning key (some id)) } else s
    | _ => s
  | .remove =>
    match s.turn with
    | some (.pruning key (some id)) =>
      { s with
        tasks := s.tasks.modify id fun t => { t with manager := { t.manager with stored := none } }
        turn := some (.pruning key none) }
    | _ => s
  | .fault =>
    match s.turn with
    | some (.pruning _ _) => { s with turn := none }
    | _ => s
  | .create createdAt =>
    match s.turn with
    | some (.pruning key none) =>
      { s with
        tasks := s.tasks ++ [⟨key, createdAt, Tasks.step (Manager.initial none) .create, 0⟩]
        turn := some (.creating key s.tasks.length) }
    | _ => s
  | .begin now =>
    match s.turn with
    | some (.creating key id) =>
      if (s.tasks[id]?).any (·.manager.start = .created) then
        { s with
          tasks := s.tasks.modify id fun t => { t with manager := Tasks.step t.manager (.begin now) }
          turn := none
          answers := s.answers ++ [(key, id)] }
      else s
    | _ => s

end Machine

section Tapes

/-- The stored record and the records behind it, with a place for a record
that has been removed. -/
def tape (m : Manager) : List (Option BackgroundTaskRecord) := m.stored :: m.queue.map fun w => some w.2

def active (r : Option BackgroundTaskRecord) : Bool := r.any fun record => isActive record.state

def Alive (l : List (Option BackgroundTaskRecord)) : Prop := ∃ r ∈ l, active r = true

def Dead (l : List (Option BackgroundTaskRecord)) : Prop := ∀ r ∈ l, active r = false

/-- Nothing active comes behind what is not. -/
def Sorted (l : List (Option BackgroundTaskRecord)) : Prop :=
  l.Pairwise fun a b => active a = false → active b = false

/-- A pid is written only over active records. -/
def pidTimely (m : Manager) : Bool :=
  !m.execute.launched || !isActive m.current.state || (tape m).all active

def Timely (s : Service) : Event → Prop
  | .task id (.pid _) => (s.tasks[id]?).all (fun t => pidTimely t.manager) = true
  | _ => True

instance (s : Service) (e : Event) : Decidable (Timely s e) := by
  unfold Timely
  split <;> infer_instance

theorem dead_sorted_head {r : Option BackgroundTaskRecord} {l : List (Option BackgroundTaskRecord)}
    (h : Sorted (r::l)) (hr : active r = false) : Dead (r::l) := by
  intro x hx
  rcases List.mem_cons.mp hx with rfl | hx
  · exact hr
  · exact (List.pairwise_cons.mp h).1 x hx hr

theorem not_alive_dead {l : List (Option BackgroundTaskRecord)} (h : Dead l) : ¬ Alive l := by
  rintro ⟨r, hr, hactive⟩
  rw [h r hr] at hactive
  cases hactive

/-- How a step of a task changes its tape, and what its start waits for. -/
inductive Moves (t t' : Task) : Prop
  | same (hkey : t'.key = t.key) (htape : tape t'.manager = tape t.manager)
    (hawaited : t'.awaited = t.awaited)
  | drained (hkey : t'.key = t.key) (htape : tape t'.manager = (tape t.manager).tail)
      (hqueue : 2 ≤ (tape t.manager).length) (hawaited : t'.awaited = t.awaited-1)
  | appended (hkey : t'.key = t.key) (r : BackgroundTaskRecord)
    (htape : tape t'.manager = tape t.manager ++ [some r])
      (hawaited : t'.awaited = t.awaited)
      (hr : isActive r.state = false ∨ ∀ x ∈ tape t.manager, active x = true)

variable {t t' : Task}

theorem Moves.key (h : Moves t t') : t'.key = t.key := by
  cases h with
  | same hkey _ _ => exact hkey
  | drained hkey _ _ _ => exact hkey
  | appended hkey _ _ _ _ => exact hkey

def Waits (t : Task) : Prop := t.awaited < (tape t.manager).length

theorem Moves.waits (h : Moves t t') (hw : Waits t) : Waits t' := by
  unfold Waits at *
  cases h with
  | same _ htape hawaited => rw [htape, hawaited]; exact hw
  | drained _ htape hqueue hawaited =>
    rw [htape, hawaited, List.length_tail]
    omega
  | appended _ r htape hawaited _ =>
    rw [htape, hawaited, List.length_append]
    omega

theorem Moves.alive (h : Moves t t') (halive : Alive (tape t'.manager)) : Alive (tape t.manager) := by
  cases h with
  | same _ htape _ => exact htape ▸ halive
  | drained _ htape _ _ =>
    obtain ⟨r, hr, hactive⟩ := halive
    rw [htape] at hr
    exact ⟨r, List.mem_of_mem_tail hr, hactive⟩
  | appended _ r htape _ hr =>
    rcases hr with hr | hall
    · obtain ⟨x, hx, hactive⟩ := halive
      rw [htape] at hx
      rcases List.mem_append.mp hx with hx | hx
      · exact ⟨x, hx, hactive⟩
      · rw [List.mem_singleton.mp hx] at hactive
        exact absurd hactive (by simp [active, hr])
    · exact ⟨t.manager.stored, List.mem_cons_self, hall _ List.mem_cons_self⟩

/-- The part of the tape that the start will find once its writes are done. -/
def Task.rest (t : Task) : List (Option BackgroundTaskRecord) := (tape t.manager).drop t.awaited

/-- The rest is the same, loses its first record, or gets one at its end. -/
theorem Moves.rest (h : Moves t t') (hw : Waits t) : t'.rest = t.rest ∨ t'.rest = t.rest.tail ∨
    ∃ r, t'.rest = t.rest ++ [some r] ∧ (isActive r.state = false ∨ ∀ x ∈ t.rest, active x = true) := by
  unfold Task.rest Waits at *
  cases h with
  | same _ htape hawaited =>
    rw [htape, hawaited]
    exact .inl rfl
  | drained _ htape _ hawaited =>
    rw [htape, hawaited]
    by_cases hzero : t.awaited = 0
    · right; left
      simp [hzero]
    · left
      rw [List.drop_tail, show t.awaited-1+1 = t.awaited by omega]
  | appended _ r htape hawaited hr =>
    right; right
    refine ⟨r, ?_, hr.imp id fun hall x hx => hall x (List.mem_of_mem_drop hx)⟩
    rw [htape, hawaited, List.drop_append_of_le_length (by omega)]

theorem rest_nonempty (hw : Waits t) : t.rest ≠ [] := by
  intro h
  have := List.drop_eq_nil_iff.mp h
  unfold Waits at hw
  omega

theorem Moves.sorted (h : Moves t t') (hw : Waits t) (hs : Sorted t.rest) : Sorted t'.rest := by
  rcases h.rest hw with heq | heq | ⟨r, heq, hr⟩
  · rw [heq]
    exact hs
  · rw [heq]
    exact hs.tail
  · rw [heq]
    refine List.pairwise_append.mpr ⟨hs, List.pairwise_singleton _ _, ?_⟩
    intro x hx y hy hdead
    rw [List.mem_singleton.mp hy]
    rcases hr with hr | hall
    · simp [active, hr]
    · rw [hall x hx] at hdead
      cases hdead

theorem Moves.dead (h : Moves t t') (hw : Waits t) (hd : Dead t.rest) : Dead t'.rest := by
  rcases h.rest hw with heq | heq | ⟨r, heq, hr⟩
  · rw [heq]
    exact hd
  · intro x hx
    rw [heq] at hx
    exact hd x (List.mem_of_mem_tail hx)
  · intro x hx
    rw [heq] at hx
    rcases List.mem_append.mp hx with hx | hx
    · exact hd x hx
    · rw [List.mem_singleton.mp hx]
      rcases hr with hr | hall
      · simp [active, hr]
      · obtain ⟨y, hy⟩ := List.exists_mem_of_ne_nil _ (rest_nonempty hw)
        have hactive := hall y hy
        rw [hd y hy] at hactive
        cases hactive

end Tapes

section Steps

variable {m : Manager}

theorem tape_persist (m : Manager) (w : Writer) (r : BackgroundTaskRecord) :
    tape (m.persist w r) = tape m ++ [some r] := by
  simp [tape, Manager.persist]

/-- What a step that is no drain does to the tape. -/
inductive Writes (m m' : Manager) : Prop
  | none (hstored : m'.stored = m.stored) (hqueue : m'.queue = m.queue)
  | one (r : BackgroundTaskRecord) (htape : tape m' = tape m ++ [some r])
      (hr : isActive r.state = false ∨ ∀ x ∈ tape m, active x = true)

/-- The copy of `execute` is terminal once it has a result. -/
def Resulting (m : Manager) : Prop := m.execute = .resulting → isActive m.current.state = false

theorem completed_inactive (r : BackgroundTaskRecord) (exitCode : Option ℤ) (timedOut : Bool) (now : String) :
    isActive (completedRecord r exitCode timedOut now).state = false := by
  simp only [completedRecord]
  split <;> rfl

theorem decideOutcome_writes (m : Manager) (outcome : Outcome) (latest : Option BackgroundTaskRecord)
    (now : String) : Writes m (decideOutcome m outcome latest now) := by
  unfold decideOutcome
  split
  · exact .none rfl rfl
  · cases outcome with
    | executed exitCode timedOut => exact .none rfl rfl
    | unexpected => exact .none rfl rfl
    | error message => exact .one _ (tape_persist m _ _) (.inl rfl)

theorem refresh_writes (m : Manager) (n : ℕ) (cancels : Bool) (record : BackgroundTaskRecord) (alive : Bool)
    (now : String) : Writes m (Tasks.refresh m n cancels record alive now) := by
  unfold Tasks.refresh
  split
  · exact .none rfl rfl
  · exact .one _ (tape_persist m _ _) (.inl rfl)

theorem pid_writes (pid : ℕ) (h : pidTimely m = true) : Writes m (Tasks.step m (.pid pid)) := by
  simp only [Tasks.step]
  split
  · rename_i hlaunched
    refine .one _ (tape_persist m _ _) ?_
    simp only [pidTimely, hlaunched, Bool.not_true, Bool.false_or, Bool.or_eq_true, Bool.not_eq_true',
      List.all_eq_true] at h
    exact h
  · exact .none rfl rfl

theorem resulted_writes (fault : Option String) (h : Resulting m) :
    Writes m (Tasks.step m (.resulted fault)) := by
  simp only [Tasks.step]
  split
  · rename_i hexecute
    exact .one _ (tape_persist m _ _) (.inl (h hexecute))
  · exact .none rfl rfl
  · exact .none rfl rfl

theorem proceed_writes (m : Manager) (n : ℕ) (now : String) : Writes m (Tasks.step m (.proceed n now)) := by
  simp only [Tasks.step]
  split
  · split
    · exact .one _ (tape_persist m _ _) (.inl rfl)
    · exact .none rfl rfl
  · exact .none rfl rfl

/-- Every step that is no drain and not one of the start. -/
theorem step_writes {e : Tasks.Event} (hresulting : Resulting m)
    (htimely : ∀ pid, e = .pid pid → pidTimely m = true)
    (hcreate : e ≠ .create) (hbegin : ∀ now, e ≠ .begin now) (hdrain : e ≠ .drain) :
    Writes m (Tasks.step m e) := by
  cases e with
  | create => exact absurd rfl hcreate
  | begin now => exact absurd rfl (hbegin now)
  | drain => exact absurd rfl hdrain
  | pid pid => exact pid_writes pid (htimely pid rfl)
  | resulted fault => exact resulted_writes fault hresulting
  | proceed n now => exact proceed_writes m n now
  | decide now =>
    simp only [Tasks.step]
    split
    · exact decideOutcome_writes m _ _ now
    · exact .none rfl rfl
  | refresh n alive now =>
    simp only [Tasks.step]
    split
    · exact refresh_writes m n _ _ alive now
    · exact .none rfl rfl
  | launch | settle _ | leave | forget | call _ _ | rejoin _ =>
    simp only [Tasks.step]
    split <;> exact .none rfl rfl
  | sanitized _ | look | readerLook _ =>
    simp only [Tasks.step]
    split <;> exact .none rfl rfl

theorem drain_moves (t : Task) : Moves t (t.step .drain) ∨ t.manager.queue = [] ∧ t.step .drain =
    { t with awaited := t.awaited-1 } := by
  cases hq : t.manager.queue with
  | nil =>
    right
    refine ⟨rfl, ?_⟩
    simp [Task.step, Tasks.step, drain, hq]
  | cons head rest =>
    left
    refine .drained rfl ?_ ?_ rfl
    · simp [Task.step, Tasks.step, tape, drain, hq]
    · simp [tape, hq]

theorem task_moves {t : Task} {e : Tasks.Event} (hw : Waits t) (hresulting : Resulting t.manager)
    (htimely : ∀ pid, e = .pid pid → pidTimely t.manager = true) : Moves t (t.step e) := by
  by_cases hdrain : e = .drain
  · subst hdrain
    rcases drain_moves t with h | ⟨hempty, heq⟩
    · exact h
    · rw [heq]
      refine .same rfl rfl ?_
      simp only [Waits, tape, hempty, List.map_nil, List.length_singleton] at hw
      show t.awaited-1 = t.awaited
      omega
  by_cases hcreate : e = .create
  · subst hcreate
    exact .same rfl rfl rfl
  by_cases hbegin : ∃ now, e = .begin now
  · obtain ⟨now, rfl⟩ := hbegin
    exact .same rfl rfl rfl
  have heq : t.step e = { t with manager := Tasks.step t.manager e } := by
    cases e <;>
      first | rfl | exact absurd rfl hdrain | exact absurd rfl hcreate | exact absurd ⟨_, rfl⟩ hbegin
  have hwrites := step_writes hresulting htimely hcreate (fun now h => hbegin ⟨now, h⟩) hdrain
  rw [heq]
  cases hwrites with
  | none hstored hqueue => exact .same rfl (by simp only [tape, hstored, hqueue]) rfl
  | one r htape hr => exact .appended rfl r htape rfl hr

/-- The phase and the state of the copy stay, or the phase is another one. -/
theorem resulting_kept {m m' : Manager} (h : Resulting m)
    (hkept : m'.execute = m.execute ∧ m'.current.state = m.current.state ∨ m'.execute ≠ .resulting) :
    Resulting m' := by
  intro hexecute
  rcases hkept with ⟨hphase, hcurrent⟩ | hphase
  · rw [hcurrent]
    exact h (hphase ▸ hexecute)
  · exact absurd hexecute hphase

theorem wakeExecute_resulting (w : Writer) (phase : ExecutePhase) :
    wakeExecute w phase = phase ∨ wakeExecute w phase ≠ .resulting := by
  cases phase with
  | entering =>
    simp only [wakeExecute]
    split <;> simp
  | finishing =>
    simp only [wakeExecute]
    split <;> simp
  | checking outcome pending => right; simp [wakeExecute]
  | _ => left; rfl

theorem resulting_drain (h : Resulting m) : Resulting (drain m) := by
  unfold drain
  split
  · exact h
  · rename_i w record rest hq
    exact resulting_kept h ((wakeExecute_resulting w m.execute).imp (fun heq => ⟨heq, rfl⟩) id)

theorem resulting_decide (h : Resulting m) (outcome : Outcome) (latest : Option BackgroundTaskRecord)
    (now : String) : Resulting (decideOutcome m outcome latest now) := by
  unfold decideOutcome
  have hother : ∀ m' : Manager, m'.execute ≠ .resulting → Resulting m' := fun m' hphase =>
    resulting_kept h (.inr hphase)
  split
  · exact hother _ (by simp)
  · cases outcome with
    | executed exitCode timedOut =>
      intro _
      exact completed_inactive m.current exitCode timedOut now
    | unexpected => exact hother _ (by simp)
    | error message => exact hother _ (by simp)

theorem resulting_step (h : Resulting m) (e : Tasks.Event) : Resulting (Tasks.step m e) := by
  cases e with
  | drain => exact resulting_drain h
  | decide now =>
    simp only [Tasks.step]
    split
    · exact resulting_decide h _ _ now
    · exact h
  | refresh n alive now =>
    simp only [Tasks.step]
    split
    · unfold Tasks.refresh
      split <;> exact resulting_kept h (.inl ⟨rfl, rfl⟩)
    · exact h
  | proceed n now =>
    simp only [Tasks.step]
    split
    · split <;> exact resulting_kept h (.inl ⟨rfl, rfl⟩)
    · exact h
  | begin now | launch | settle _ | leave | sanitized _ | look | resulted _ =>
    simp only [Tasks.step]
    split <;> first | exact h | exact resulting_kept h (.inr (by simp))
  | create | pid _ | forget | call _ _ | readerLook _ | rejoin _ =>
    simp only [Tasks.step]
    split <;> exact h

theorem resulting_task {t : Task} (h : Resulting t.manager) (e : Tasks.Event) :
    Resulting (t.step e).manager := by
  cases e with
  | create => exact h
  | begin now => exact h
  | _ => exact resulting_step h _

end Steps

end AccessStack.Tasks.Starts
