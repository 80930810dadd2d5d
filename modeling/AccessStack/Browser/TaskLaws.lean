import AccessStack.Browser.Loading
import AccessStack.Browser.Tasks

/-!
# The invariant of the browser tasks

The tabs of the tasks and the task of a tab say the same, closed tasks have no
tabs and stay as they are, and the leases are counted. Each method emits
events that are allowed where they are emitted, and an allowed event keeps the
invariant.
-/

set_option autoImplicit false

namespace AccessStack.BrowserTasks
open AccessStack.Browser AccessStack.Fallible AccessStack.Runs

section Invariant

/-- The task has the tab. -/
def Holds (s : State) (taskId tabId : String) : Prop := ∃ task ∈ s.tasks, task.taskId = taskId ∧
    tabId ∈ task.tabIds

def isOutstanding (taskId : String) (lease : Lease) : Bool := lease.taskId = taskId && !lease.released

/-- The leases that have been acquired and not yet released. -/
def outstanding (s : State) (taskId : String) : ℕ := (s.leases.filter (isOutstanding taskId)).length

structure Sound (s : State) : Prop where
  ids : (s.tasks.map (·.taskId)).Nodup
  named : ∀ task ∈ s.tasks, task.taskId ≠ ""
  owners : ∀ taskId tabId, s.taskByTab tabId = some taskId ↔ Holds s taskId tabId
  distinct : ∀ task ∈ s.tasks, task.tabIds.Nodup
  closed : ∀ task ∈ s.tasks, task.state.terminal = true → task.tabIds = []
  counted : ∀ taskId, leaseCount s taskId = outstanding s taskId

variable {z : Clock} {s w : State} {e : Event} {taskId tabId : String} {task other : BrowserTask}

theorem Sound.same (h : Sound s) (htask : task ∈ s.tasks) (hother : other ∈ s.tasks)
    (hid : task.taskId = other.taskId) : task = other :=
  List.inj_on_of_nodup_map h.ids htask hother hid

theorem taskOf_some (h : taskOf s taskId = some task) : task ∈ s.tasks ∧ task.taskId = taskId := by
  have hfound : s.tasks.find? (·.taskId = taskId) = some task := h
  have hid := List.find?_some hfound
  exact ⟨List.mem_of_find?_eq_some hfound, of_decide_eq_true hid⟩

theorem Sound.taskOf (h : Sound s) (htask : task ∈ s.tasks) : taskOf s task.taskId = some task := by
  cases hfound : BrowserTasks.taskOf s task.taskId with
  | none =>
    have hnone := List.find?_eq_none.mp hfound task htask
    exact absurd (decide_eq_true rfl) hnone
  | some found =>
    obtain ⟨hmem, hid⟩ := taskOf_some hfound
    rw [h.same hmem htask hid]

theorem mem_change {f : BrowserTask → BrowserTask} : task ∈ (s.change taskId f).tasks ↔
    ∃ old ∈ s.tasks, (if old.taskId = taskId then f old else old) = task := List.mem_map

theorem ids_change {f : BrowserTask → BrowserTask}
    (hf : ∀ old ∈ s.tasks, old.taskId = taskId → (f old).taskId = taskId) :
    (s.change taskId f).tasks.map (·.taskId) = s.tasks.map (·.taskId) := by
  rw [State.change, List.map_map]
  apply List.map_congr_left
  intro old hold
  simp only [Function.comp]
  split_ifs with hid
  · rw [hf old hold hid, hid]
  · rfl

theorem holds_change {f : BrowserTask → BrowserTask}
    (hf : ∀ old ∈ s.tasks, old.taskId = taskId → (f old).taskId = taskId) {id : String} :
    Holds (s.change taskId f) id tabId ↔ (id ≠ taskId ∧ Holds s id tabId) ∨
      (id = taskId ∧ ∃ old ∈ s.tasks, old.taskId = taskId ∧ tabId ∈ (f old).tabIds) := by
  constructor
  · rintro ⟨task, hmem, rfl, htab⟩
    obtain ⟨old, hold, rfl⟩ := mem_change.mp hmem
    split_ifs at htab ⊢ with hid
    · exact Or.inr ⟨hf old hold hid, old, hold, hid, htab⟩
    · exact Or.inl ⟨hid, old, hold, rfl, htab⟩
  · rintro (⟨hne, old, hold, rfl, htab⟩ | ⟨rfl, old, hold, hid, htab⟩)
    · exact ⟨old, mem_change.mpr ⟨old, hold, if_neg hne⟩, rfl, htab⟩
    · exact ⟨f old, mem_change.mpr ⟨old, hold, if_pos hid⟩, hf old hold hid, htab⟩

/-- A change of one task keeps what holds of the tasks one by one. -/
theorem Sound.changed (h : Sound s) {f : BrowserTask → BrowserTask} {taskByTab : String → Option String}
    (hf : ∀ old ∈ s.tasks, old.taskId = taskId → (f old).taskId = taskId ∧ (f old).tabIds.Nodup ∧
      ((f old).state.terminal = true → (f old).tabIds = []))
    (howners : ∀ id tab, taskByTab tab = some id ↔ Holds (s.change taskId f) id tab) :
    Sound { s.change taskId f with taskByTab := taskByTab } where
  ids := by
    show ((s.change taskId f).tasks.map (·.taskId)).Nodup
    rw [ids_change fun old hold hid => (hf old hold hid).1]
    exact h.ids
  named := by
    intro task hmem
    obtain ⟨old, hold, rfl⟩ := mem_change.mp hmem
    split_ifs with hid
    · rw [(hf old hold hid).1, ← hid]
      exact h.named old hold
    · exact h.named old hold
  owners := howners
  distinct := by
    intro task hmem
    obtain ⟨old, hold, rfl⟩ := mem_change.mp hmem
    split_ifs with hid
    · exact (hf old hold hid).2.1
    · exact h.distinct old hold
  closed := by
    intro task hmem
    obtain ⟨old, hold, rfl⟩ := mem_change.mp hmem
    split_ifs with hid
    · exact (hf old hold hid).2.2
    · exact h.closed old hold
  counted := h.counted

end Invariant

section Events

variable (z : Clock)

def Allowed (w : State) : Event → Prop
  | .created task => task.tabIds = [] ∧ task.taskId ≠ "" ∧ task.taskId ∉ w.tasks.map (·.taskId)
  | .revised task => ∃ old ∈ w.tasks, old.taskId = task.taskId ∧ old.tabIds = task.tabIds ∧
      old.ownerScopeHash = task.ownerScopeHash ∧ old.state.terminal = false ∧ task.state.terminal = false
  | .expiring taskId now => ∃ task ∈ w.tasks, task.taskId = taskId ∧ isAccessibleState task.state = true ∧
      leaseCount w taskId = 0 ∧ isLater z now task.expiresAt = false
  | .attached taskId tabId => (∃ task ∈ w.tasks, task.taskId = taskId ∧ task.state.terminal = false) ∧
      ∀ other, w.taskByTab tabId = some other → other = taskId
  | .detached taskId tabId => w.taskByTab tabId = some taskId
  | .closed taskId state _ =>
    state.terminal = true ∧ ∃ task ∈ w.tasks, task.taskId = taskId ∧ task.state = .finishing
  | .acquired _ => True
  | .released lease => ∃ found, w.leases[lease]? = some found ∧ found.released = false

variable {z} {w : State} {e : Event}

theorem accessible_open {state : TaskState} (h : isAccessibleState state = true) :
    state.terminal = false := by
  cases state <;> first | rfl | cases h

theorem setTask_fresh {task : BrowserTask} {tasks : List BrowserTask}
    (h : task.taskId ∉ tasks.map (·.taskId)) :
    setTask task tasks = tasks ++ [task] := by
  induction tasks with
  | nil => rfl
  | cons found rest ih =>
    rw [List.map_cons, List.mem_cons, not_or] at h
    rw [setTask, if_neg (Ne.symm h.1), ih h.2, List.cons_append]

theorem outstanding_acquired (taskId id : String) :
    outstanding (w.after (.acquired taskId)) id = outstanding w id + if taskId = id then 1 else 0 := by
  show ((w.leases ++ [(⟨taskId, false⟩ : Lease)]).filter (isOutstanding id)).length = _
  rw [List.filter_append, List.length_append, outstanding]
  by_cases hid : taskId = id <;> simp [isOutstanding, hid]

theorem filter_released {leases : List Lease} {lease : ℕ} {found : Lease}
    (hfound : leases[lease]? = some found) (hnew : found.released = false) (id : String) :
    (leases.filter (isOutstanding id)).length =
      ((leases.set lease { found with released := true }).filter (isOutstanding id)).length +
        if found.taskId = id then 1 else 0 := by
  induction leases generalizing lease with
  | nil => cases hfound
  | cons first rest ih =>
    cases lease with
    | zero =>
      rw [List.getElem?_cons_zero, Option.some.injEq] at hfound
      subst hfound
      rw [List.set_cons_zero, List.filter_cons, List.filter_cons]
      by_cases hid : first.taskId = id <;> simp [isOutstanding, hid, hnew]
    | succ lease =>
      rw [List.getElem?_cons_succ] at hfound
      rw [List.set_cons_succ, List.filter_cons, List.filter_cons]
      have hrest := ih hfound
      cases isOutstanding id first with
      | true =>
        simp only [if_true, List.length_cons]
        omega
      | false => exact hrest

theorem outstanding_released {lease : ℕ} {found : Lease} (hfound : w.leases[lease]? = some found)
    (hnew : found.released = false) (id : String) :
    outstanding w id = outstanding (w.after (.released lease)) id + if found.taskId = id then 1 else 0 := by
  have hafter : outstanding (w.after (.released lease)) id =
      ((w.leases.set lease { found with released := true }).filter (isOutstanding id)).length := by
    rw [outstanding, State.after, hfound]
  rw [hafter]
  exact filter_released hfound hnew id

theorem Sound.kept (h : Sound w) (taskId : String) (f : BrowserTask → BrowserTask)
    (hf : ∀ old ∈ w.tasks, old.taskId = taskId →
      (f old).taskId = taskId ∧ (f old).tabIds = old.tabIds ∧
      ((f old).state.terminal = true → old.tabIds = [])) :
    Sound (w.change taskId f) := by
  apply h.changed
  · intro old hold hid
    obtain ⟨hsame, htabs, hterminal⟩ := hf old hold hid
    rw [htabs]
    exact ⟨hsame, h.distinct old hold, hterminal⟩
  · intro id tab
    rw [h.owners, holds_change fun old hold hid => (hf old hold hid).1]
    constructor
    · rintro ⟨old, hold, rfl, htab⟩
      by_cases hid : old.taskId = taskId
      · exact Or.inr ⟨hid, old, hold, hid, (hf old hold hid).2.1 ▸ htab⟩
      · exact Or.inl ⟨hid, old, hold, rfl, htab⟩
    · rintro (⟨-, hholds⟩ | ⟨rfl, old, hold, hid, htab⟩)
      · exact hholds
      · exact ⟨old, hold, hid, (hf old hold hid).2.1 ▸ htab⟩

theorem created_sound (h : Sound w) {task : BrowserTask} (he : Allowed z w (.created task)) :
    Sound (w.after (.created task)) := by
  obtain ⟨htabs, hname, hfresh⟩ := he
  have htasks : (w.after (.created task)).tasks = w.tasks ++ [task] := setTask_fresh hfresh
  have hmem : ∀ found ∈ (w.after (.created task)).tasks, found ∈ w.tasks ∨ found = task := by
    intro found hfound
    rw [htasks] at hfound
    exact (List.mem_append.mp hfound).imp_right List.mem_singleton.mp
  constructor
  · rw [htasks, List.map_append, List.map_singleton]
    refine List.nodup_append.mpr ⟨h.ids, List.nodup_singleton _, fun id hid other hother heq => ?_⟩
    rw [List.mem_singleton.mp hother] at heq
    exact hfresh (heq ▸ hid)
  · intro found hfound
    rcases hmem found hfound with hold | rfl
    · exact h.named found hold
    · exact hname
  · intro id tab
    show w.taskByTab tab = some id ↔ _
    rw [h.owners]
    constructor
    · rintro ⟨old, hold, hid, htab⟩
      exact ⟨old, htasks ▸ List.mem_append_left _ hold, hid, htab⟩
    · rintro ⟨found, hfound, hid, htab⟩
      rcases hmem found hfound with hold | rfl
      · exact ⟨found, hold, hid, htab⟩
      · rw [htabs] at htab
        cases htab
  · intro found hfound
    rcases hmem found hfound with hold | rfl
    · exact h.distinct found hold
    · rw [htabs]
      exact List.nodup_nil
  · intro found hfound
    rcases hmem found hfound with hold | rfl
    · exact h.closed found hold
    · exact fun _ => htabs
  · exact h.counted

theorem attached_sound (h : Sound w) {taskId tabId : String} (he : Allowed z w (.attached taskId tabId)) :
    Sound (w.after (.attached taskId tabId)) := by
  obtain ⟨⟨task, htask, hid, hopen⟩, hfree⟩ := he
  have hname : ∀ old ∈ w.tasks, old.taskId = taskId → (attachTo tabId old).taskId = taskId :=
    fun _ _ hid => hid
  apply h.changed
  · intro old hold hsame
    cases h.same hold htask (hsame.trans hid.symm)
    refine ⟨hid, ?_, fun hterminal => ?_⟩
    · show (if tabId ∈ task.tabIds then task.tabIds else task.tabIds ++ [tabId]).Nodup
      split_ifs with hmem
      · exact h.distinct task htask
      · exact List.nodup_append.mpr
          ⟨h.distinct task htask, List.nodup_singleton _, fun tab htab other hother heq =>
          hmem (List.mem_singleton.mp hother ▸ heq ▸ htab)⟩
    · have hfalse : task.state.terminal = true := hterminal
      rw [hopen] at hfalse
      cases hfalse
  · intro id tab
    have hmem : ∀ old : BrowserTask, tab ∈ (attachTo tabId old).tabIds ↔ tab ∈ old.tabIds ∨ tab = tabId := by
      intro old
      unfold attachTo
      split_ifs with hold
      · exact ⟨Or.inl, fun hor => hor.elim (fun hin => hin) fun heq => heq ▸ hold⟩
      · simp
    rw [holds_change hname]
    by_cases htab : tab = tabId
    · subst htab
      rw [Function.update_self, Option.some.injEq]
      constructor
      · rintro rfl
        exact Or.inr ⟨rfl, task, htask, hid, (hmem task).mpr (Or.inr rfl)⟩
      · rintro (⟨-, hholds⟩ | ⟨rfl, -⟩)
        · exact (hfree id ((h.owners id tab).mpr hholds)).symm
        · rfl
    · rw [Function.update_of_ne htab, h.owners]
      constructor
      · rintro ⟨old, hold, rfl, hin⟩
        by_cases hsame : old.taskId = taskId
        · exact Or.inr ⟨hsame, old, hold, hsame, (hmem old).mpr (Or.inl hin)⟩
        · exact Or.inl ⟨hsame, old, hold, rfl, hin⟩
      · rintro (⟨-, hholds⟩ | ⟨rfl, old, hold, hsame, hin⟩)
        · exact hholds
        · exact ⟨old, hold, hsame, ((hmem old).mp hin).resolve_right htab⟩

theorem detached_sound (h : Sound w) {taskId tabId : String} (he : Allowed z w (.detached taskId tabId)) :
    Sound (w.after (.detached taskId tabId)) := by
  have hname : ∀ old ∈ w.tasks, old.taskId = taskId → (detachFrom tabId old).taskId = taskId :=
    fun _ _ hid => hid
  have hmem : ∀ (old : BrowserTask) tab, tab ∈ (detachFrom tabId old).tabIds ↔ tab ∈ old.tabIds ∧
      tab ≠ tabId := by
    intro old tab
    simp [detachFrom]
  apply h.changed
  · intro old hold hsame
    refine ⟨hsame, (h.distinct old hold).filter _, fun hterminal => ?_⟩
    show old.tabIds.filter _ = []
    rw [h.closed old hold hterminal, List.filter_nil]
  · intro id tab
    rw [holds_change hname]
    by_cases htab : tab = tabId
    · subst htab
      rw [Function.update_self]
      constructor
      · exact nofun
      · rintro (⟨hne, hholds⟩ | ⟨-, old, hold, -, hin⟩)
        · have hsome := ((h.owners id tab).mpr hholds).symm.trans he
          exact absurd (Option.some.inj hsome) hne
        · exact absurd rfl ((hmem old tab).mp hin).2
    · rw [Function.update_of_ne htab, h.owners]
      constructor
      · rintro ⟨old, hold, rfl, hin⟩
        by_cases hsame : old.taskId = taskId
        · exact Or.inr ⟨hsame, old, hold, hsame, (hmem old tab).mpr ⟨hin, htab⟩⟩
        · exact Or.inl ⟨hsame, old, hold, rfl, hin⟩
      · rintro (⟨-, hholds⟩ | ⟨rfl, old, hold, hsame, hin⟩)
        · exact hholds
        · exact ⟨old, hold, hsame, ((hmem old tab).mp hin).1⟩

theorem closed_sound (h : Sound w) {taskId : String} {state : TaskState} {now : String}
    (he : Allowed z w (.closed taskId state now)) : Sound (w.after (.closed taskId state now)) := by
  obtain ⟨-, task, htask, hid, -⟩ := he
  have hname : ∀ old ∈ w.tasks, old.taskId = taskId → (close state now old).taskId = taskId :=
    fun _ _ hid => hid
  have htabs : tabsOf w taskId = task.tabIds := by
    rw [tabsOf, ← hid, h.taskOf htask]
    rfl
  apply h.changed
  · exact fun old hold hsame => ⟨hsame, List.nodup_nil, fun _ => rfl⟩
  · intro id tab
    rw [holds_change hname, htabs]
    split_ifs with hin
    · refine ⟨nofun, ?_⟩
      rintro (⟨hne, hholds⟩ | ⟨-, old, hold, -, hnone⟩)
      · have htaken := (h.owners taskId tab).mpr ⟨task, htask, hid, hin⟩
        exact absurd (Option.some.inj (((h.owners id tab).mpr hholds).symm.trans htaken)) hne
      · cases hnone
    · rw [h.owners]
      constructor
      · rintro ⟨old, hold, rfl, htab⟩
        by_cases hsame : old.taskId = taskId
        · cases h.same hold htask (hsame.trans hid.symm)
          exact absurd htab hin
        · exact Or.inl ⟨hsame, old, hold, rfl, htab⟩
      · rintro (⟨-, hholds⟩ | ⟨-, old, hold, -, hnone⟩)
        · exact hholds
        · cases hnone

theorem acquired_sound (h : Sound w) (taskId : String) : Sound (w.after (.acquired taskId)) := by
  refine ⟨h.ids, h.named, h.owners, h.distinct, h.closed, fun id => ?_⟩
  rw [outstanding_acquired, ← h.counted]
  show ((Function.update w.activeLeases taskId (some (leaseCount w taskId+1))) id).getD 0 = _
  by_cases hid : id = taskId
  · subst hid
    rw [Function.update_self, if_pos rfl]
    rfl
  · rw [Function.update_of_ne hid, if_neg (Ne.symm hid)]
    rfl

theorem released_sound (h : Sound w) {lease : ℕ} (he : Allowed z w (.released lease)) :
    Sound (w.after (.released lease)) := by
  obtain ⟨found, hfound, hnew⟩ := he
  have hcounted : ∀ id, leaseCount (w.after (.released lease)) id =
      outstanding (w.after (.released lease)) id := by
    intro id
    have hout := outstanding_released hfound hnew id
    rw [← h.counted] at hout
    have hafter : leaseCount (w.after (.released lease)) id =
        ((Function.update w.activeLeases found.taskId (lowered (w.activeLeases found.taskId)))
            id).getD 0 := by
      rw [leaseCount, State.after, hfound]
    rw [hafter]
    by_cases hid : id = found.taskId
    · subst hid
      rw [if_pos rfl, leaseCount] at hout
      rw [Function.update_self]
      cases hcount : w.activeLeases found.taskId with
      | none =>
        rw [hcount, Option.getD_none] at hout
        omega
      | some count =>
        rw [hcount, Option.getD_some] at hout
        unfold lowered
        rw [Option.getD_some]
        split_ifs with hzero
        · rw [Option.getD_none]
          omega
        · rw [Option.getD_some]
          omega
    · rw [Function.update_of_ne hid]
      rw [if_neg (Ne.symm hid)] at hout
      exact hout
  have hafter : w.after (.released lease) = { w with
      activeLeases := (w.after (.released lease)).activeLeases,
      leases := (w.after (.released lease)).leases } := by
    rw [State.after, hfound]
  rw [hafter] at hcounted ⊢
  exact ⟨h.ids, h.named, h.owners, h.distinct, h.closed, hcounted⟩

theorem sound_after (h : Sound w) (he : Allowed z w e) : Sound (w.after e) := by
  cases e with
  | created task => exact created_sound h he
  | revised task =>
    obtain ⟨old, hold, hid, htabs, -, -, hopen⟩ := he
    apply h.kept task.taskId fun _ => task
    intro found hfound hsame
    cases h.same hfound hold (hsame.trans hid.symm)
    refine ⟨rfl, htabs.symm, fun hterminal => ?_⟩
    rw [hopen] at hterminal
    cases hterminal
  | expiring taskId now =>
    apply h.kept taskId fun task => { task with state := .finishing }
    exact fun old hold hid => ⟨hid, rfl, nofun⟩
  | attached taskId tabId => exact attached_sound h he
  | detached taskId tabId => exact detached_sound h he
  | closed taskId state now => exact closed_sound h he
  | acquired taskId => exact acquired_sound h taskId
  | released lease => exact released_sound h he

/-- Closed tasks stay as they are, and no task changes its owner. -/
structure Later (s t : State) : Prop where
  closed : ∀ task ∈ s.tasks, task.state.terminal = true → task ∈ t.tasks
  owners : ∀ task ∈ s.tasks, ∃ found ∈ t.tasks, found.taskId = task.taskId ∧ found.ownerScopeHash =
    task.ownerScopeHash

theorem later_change {taskId : String} {f : BrowserTask → BrowserTask} {taskByTab : String → Option String}
    (hopen : ∀ old ∈ w.tasks, old.taskId = taskId → old.state.terminal = false)
    (hf : ∀ old ∈ w.tasks, old.taskId = taskId →
      (f old).taskId = taskId ∧ (f old).ownerScopeHash = old.ownerScopeHash) :
    Later w { w.change taskId f with taskByTab := taskByTab } where
  closed := by
    intro task htask hterminal
    refine mem_change.mpr ⟨task, htask, if_neg fun hid => ?_⟩
    rw [hopen task htask hid] at hterminal
    cases hterminal
  owners := by
    intro task htask
    refine ⟨_, mem_change.mpr ⟨task, htask, rfl⟩, ?_⟩
    split_ifs with hid
    · obtain ⟨hsame, howner⟩ := hf task htask hid
      exact ⟨hsame.trans hid.symm, howner⟩
    · exact ⟨rfl, rfl⟩

theorem later_refl (w : State) : Later w w :=
  ⟨fun _ htask _ => htask, fun task htask => ⟨task, htask, rfl, rfl⟩⟩

theorem Later.trans {s t : State} (h : Later s t) (h' : Later t w) : Later s w where
  closed := fun task htask hterminal => h'.closed task (h.closed task htask hterminal) hterminal
  owners := by
    intro task htask
    obtain ⟨found, hfound, hid, howner⟩ := h.owners task htask
    obtain ⟨last, hlast, hid', howner'⟩ := h'.owners found hfound
    exact ⟨last, hlast, hid'.trans hid, howner'.trans howner⟩

theorem later_after (h : Sound w) (he : Allowed z w e) : Later w (w.after e) := by
  have hunique : ∀ {taskId : String} {task : BrowserTask}, task ∈ w.tasks → task.taskId = taskId →
      task.state.terminal = false → ∀ old ∈ w.tasks, old.taskId = taskId → old.state.terminal = false := by
    intro taskId task htask hid hopen old hold hsame
    rw [h.same hold htask (hsame.trans hid.symm)]
    exact hopen
  cases e with
  | created task =>
    have htasks : (w.after (.created task)).tasks = w.tasks ++ [task] := setTask_fresh he.2.2
    constructor
    · intro found hfound _
      rw [htasks]
      exact List.mem_append_left _ hfound
    · intro found hfound
      rw [htasks]
      exact ⟨found, List.mem_append_left _ hfound, rfl, rfl⟩
  | revised task =>
    obtain ⟨old, hold, hid, -, howner, hopen, -⟩ := he
    apply later_change (hunique hold hid hopen)
    intro found hfound hsame
    cases h.same hfound hold (hsame.trans hid.symm)
    exact ⟨rfl, howner.symm⟩
  | expiring taskId now =>
    obtain ⟨task, htask, hid, haccessible, -, -⟩ := he
    apply later_change (hunique htask hid (accessible_open haccessible))
    exact fun _ _ hsame => ⟨hsame, rfl⟩
  | attached taskId tabId =>
    obtain ⟨⟨task, htask, hid, hopen⟩, -⟩ := he
    apply later_change (hunique htask hid hopen)
    exact fun _ _ hsame => ⟨hsame, rfl⟩
  | detached taskId tabId =>
    obtain ⟨task, htask, hid, htab⟩ := (h.owners taskId tabId).mp he
    have hopen : task.state.terminal = false := by
      by_contra hterminal
      rw [h.closed task htask (Bool.eq_true_of_not_eq_false hterminal)] at htab
      cases htab
    apply later_change (hunique htask hid hopen)
    exact fun _ _ hsame => ⟨hsame, rfl⟩
  | closed taskId state now =>
    obtain ⟨-, task, htask, hid, hfinishing⟩ := he
    have hopen : task.state.terminal = false := by rw [hfinishing]; rfl
    apply later_change (hunique htask hid hopen)
    exact fun _ _ hsame => ⟨hsame, rfl⟩
  | acquired taskId => exact ⟨(later_refl w).closed, (later_refl w).owners⟩
  | released lease =>
    have htasks : (w.after (.released lease)).tasks = w.tasks := by
      rw [State.after]
      split <;> rfl
    exact ⟨fun task htask _ => htasks ▸ htask, fun task htask => ⟨task, htasks ▸ htask, rfl, rfl⟩⟩

end Events

section Methods

variable {z : Clock} {now : ℕ} {w : State} {α : Type}

/-- Each event of a program is allowed. -/
def Lawful (z : Clock) (x : Op α) (w : State) (post : α → State → Prop) : Prop :=
  Ensures (Allowed z) x w post fun _ _ => True

variable {post : α → State → Prop} {x : Op α} {taskId tabId : String} {task : BrowserTask}
  {context : Option OperationContext}

theorem Lawful.later (h : Lawful z x w post) (hs : Sound w) : Sound (x.final w) ∧ Later w (x.final w) := by
  have hboth := h.1.invariant (I := fun t => Sound t ∧ Later w t) ⟨hs, later_refl w⟩ fun s e ht he =>
    ⟨sound_after ht.1 he, ht.2.trans (later_after ht.1 he)⟩
  exact hboth _ List.prefix_rfl

/-- What follows a program may use that the invariant holds. -/
theorem Lawful.bind {β : Type} {f : α → Op β} {post' : β → State → Prop} (hs : Sound w)
    (h : Lawful z x w post) (hf : ∀ a t, Sound t → post a t → Lawful z (f a) t post') :
    Lawful z (x >>= f) w post' := by
  apply ensures_bind.mpr
  refine ⟨h.1, ?_⟩
  have hsettled := h.2
  have hfinal := (h.later hs).1
  cases hr : (x w).1 with
  | ok a =>
    rw [hr] at hsettled
    exact hf a _ hfinal hsettled
  | error stop => exact trivial

theorem lawful_look {f : State → α} (h : post (f w) w) : Lawful z (look f) w post := ensures_look.mpr h

theorem lawful_pure {a : α} (h : post a w) : Lawful z (pure a) w post := ensures_pure.mpr h

theorem lawful_fail {stop : AppError} : Lawful z (fail stop : Op α) w post := ensures_fail.mpr trivial

theorem lawful_emit {e : Event} {post : Unit → State → Prop} (he : Allowed z w e) (h : post () (w.after e)) :
    Lawful z (emit e) w post :=
  ensures_emit.mpr ⟨he, h⟩

theorem Lawful.mono {post' : α → State → Prop} (h : Lawful z x w post) (hpost : ∀ a t, post a t → post' a t) :
    Lawful z x w post' :=
  Ensures.mono h hpost fun _ _ h => h

/-- The task is the one of the registry but for its state and its times. -/
def Revises (w : State) (task : BrowserTask) : Prop :=
  ∃ old ∈ w.tasks, old.taskId = task.taskId ∧ old.tabIds = task.tabIds ∧ old.ownerScopeHash =
    task.ownerScopeHash ∧
    old.state.terminal = false ∧ task.state.terminal = false

theorem revise_lawful {extendExpiry : Bool} (h : Revises w task) :
    Lawful z (revise z now task extendExpiry) w fun t w' => t = touched z now extendExpiry task ∧
    t ∈ w'.tasks := by
  obtain ⟨old, hold, hid, htabs, howner, hopen, hopen'⟩ := h
  unfold revise
  apply ensures_bind.mpr
  refine ensures_emit.mpr ⟨⟨old, hold, hid, htabs, howner, hopen, hopen'⟩, ensures_pure.mpr ⟨rfl, ?_⟩⟩
  exact mem_change.mpr ⟨old, hold, if_pos hid⟩

theorem resume_lawful (htask : task ∈ w.tasks) (hopen : task.state.terminal = false) :
    Lawful z (resume z now task) w fun t w' =>
      t ∈ w'.tasks ∧ t.taskId = task.taskId ∧ t.ownerScopeHash = task.ownerScopeHash ∧ t.state = .active := by
  have hrevises : Revises w { task with state := .active } := ⟨task, htask, rfl, rfl, rfl, hopen, rfl⟩
  apply (revise_lawful hrevises).mono
  rintro t w' ⟨rfl, hmem⟩
  exact ⟨hmem, rfl, rfl, rfl⟩

/-- What a caller may rely on of the task that it has been granted. -/
structure Granted (w : State) (taskId ownerHash : String) (includeFinished : Bool)
    (task : BrowserTask) : Prop where
  mem : task ∈ w.tasks
  id : task.taskId = taskId
  owner : task.ownerScopeHash = ownerHash
  state : task.state.terminal = true → task.state = .finished ∧ includeFinished = true

theorem requireOwnedTask_lawful {ownerHash : String} {includeFinished resumeSuspended : Bool} :
    Lawful z (requireOwnedTask z now taskId ownerHash includeFinished resumeSuspended) w fun t w' =>
      Granted w' taskId ownerHash includeFinished t := by
  unfold requireOwnedTask
  apply ensures_bind.mpr
  refine ensures_look.mpr ?_
  cases hfound : taskOf w taskId with
  | none => exact lawful_fail
  | some task =>
    obtain ⟨hmem, hid⟩ := taskOf_some hfound
    refine ensures_ite.mpr ⟨fun _ => lawful_fail, fun howner => ?_⟩
    refine ensures_ite.mpr ⟨fun _ => lawful_fail, fun hexpired => ?_⟩
    refine ensures_ite.mpr ⟨fun _ => lawful_fail, fun hfinished => ?_⟩
    refine ensures_ite.mpr ⟨fun _ => lawful_fail, fun hfinishing => ?_⟩
    have howner' : task.ownerScopeHash = ownerHash := not_not.mp howner
    refine ensures_ite.mpr
      ⟨fun hresume => ?_, fun _ => ensures_pure.mpr ⟨hmem, hid, howner', fun hterminal => ?_⟩⟩
    · rw [Bool.and_eq_true, decide_eq_true_eq] at hresume
      apply (resume_lawful hmem (by rw [hresume.2]; rfl)).mono
      rintro t w' ⟨ht, hsame, hkept, hactive⟩
      refine ⟨ht, hsame.trans hid, hkept.trans howner', fun hterminal => ?_⟩
      rw [hactive] at hterminal
      cases hterminal
    · cases hstate : task.state <;> simp_all [TaskState.terminal]

theorem current_lawful : Lawful z (current taskId) w fun t w' => w' = w ∧ t ∈ w.tasks ∧
    t.taskId = taskId := by
  unfold current
  apply ensures_bind.mpr
  refine ensures_look.mpr ?_
  cases hfound : taskOf w taskId with
  | none => exact lawful_fail
  | some task => exact lawful_pure ⟨rfl, taskOf_some hfound⟩

theorem truthy_owner (hs : Sound w) : truthy (w.taskByTab tabId) = w.taskByTab tabId := by
  cases htab : w.taskByTab tabId with
  | none => rfl
  | some id =>
    obtain ⟨task, htask, hid, -⟩ := (hs.owners id tabId).mp htab
    have hname : id ≠ "" := hid ▸ hs.named task htask
    rw [truthy, Option.filter_some, if_pos (decide_eq_true hname)]

theorem claim_lawful (hs : Sound w) (htask : task ∈ w.tasks) (hopen : task.state.terminal = false) :
    Lawful z (claim task.taskId tabId) w fun _ w' => ∀ found ∈ w'.tasks, found.taskId = task.taskId →
      found.state = task.state ∧ found.ownerScopeHash = task.ownerScopeHash := by
  unfold claim
  apply ensures_bind.mpr
  refine ensures_look.mpr (ensures_ite.mpr ⟨fun _ => lawful_fail, fun hfree => ?_⟩)
  apply lawful_emit
  · refine ⟨⟨task, htask, rfl, hopen⟩, fun other hother => ?_⟩
    rw [truthy_owner hs, hother, Option.any_some, decide_eq_true_eq, not_not] at hfree
    exact hfree
  · intro found hfound hid
    obtain ⟨old, hold, rfl⟩ := mem_change.mp hfound
    split_ifs at hid ⊢ with hsame
    · cases hs.same hold htask hsame
      exact ⟨rfl, rfl⟩
    · exact absurd hid hsame

end Methods

end AccessStack.BrowserTasks
