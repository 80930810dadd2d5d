import AccessStack.Browser.TaskLaws

/-!
# The runs of the browser task registry

Every method is lawful where the runtime calls it, so that the invariant holds
in every state that is reached from the tasks of an accepted registry.
-/

set_option autoImplicit false

namespace AccessStack.BrowserTasks
open AccessStack.Browser AccessStack.Fallible AccessStack.Runs

section Calls

/-- A task id is new. -/
def Fresh (w : State) (taskId : String) : Prop := taskId ≠ "" ∧ taskId ∉ w.tasks.map (·.taskId)

/-- How the runtime calls the registry. -/
def Admissible (w : State) : Call → Prop
  | .create taskId _ => Fresh w taskId
  | .resolveForOpen _ _ created => Fresh w created
  | .attachExistingTab taskId _ => ∀ task ∈ w.tasks, task.taskId = taskId → task.state.terminal = false
  | .completeFinish taskId => ∀ task ∈ w.tasks, task.taskId = taskId → task.state = .finishing
  | .markExpired taskId => ∀ task ∈ w.tasks, task.taskId = taskId → task.state = .finishing
  | _ => True

variable {z : Clock} {now : ℕ} {w : State} {taskId tabId : String} {task : BrowserTask}
  {context : Option OperationContext}

/-- The task belongs to the owner of the context. -/
abbrev Owned (z : Clock) (context : Option OperationContext) (task : BrowserTask) : Prop :=
  task.ownerScopeHash = hashOwner z context

theorem Granted.open {ownerHash : String} (h : Granted w taskId ownerHash false task) :
    task.state.terminal = false := by
  by_contra hterminal
  cases (h.state (Bool.eq_true_of_not_eq_false hterminal)).2

theorem create_lawful (h : Fresh w taskId) :
    Lawful z (create z now taskId context) w fun t _ => Owned z context t := by
  unfold create
  apply ensures_bind.mpr
  exact ensures_emit.mpr ⟨⟨rfl, h.1, h.2⟩, ensures_pure.mpr rfl⟩

theorem granted_lawful {includeFinished resumeSuspended : Bool} :
    Lawful z (requireOwnedTask z now taskId (hashOwner z context) includeFinished resumeSuspended) w
      fun t _ =>
      Owned z context t :=
  requireOwnedTask_lawful.mono fun _ _ h => h.owner

theorem resolveForOpen_lawful {requested : Option String} {created : String} (h : Fresh w created) :
    Lawful z (resolveForOpen z now requested context created) w fun t _ => Owned z context t := by
  unfold resolveForOpen
  cases truthy requested with
  | some taskId => exact granted_lawful
  | none =>
    apply ensures_bind.mpr
    refine ensures_look.mpr ?_
    split
    · exact create_lawful h
    · rename_i task hone
      have hmem : task ∈ w.tasks.filter fun task =>
          task.ownerScopeHash = hashOwner z context && isAccessibleState task.state := by
        rw [hone]
        exact List.mem_cons_self
      obtain ⟨htask, hboth⟩ := List.mem_filter.mp hmem
      rw [Bool.and_eq_true, decide_eq_true_eq] at hboth
      exact (resume_lawful htask (accessible_open hboth.2)).mono fun _ _ h => h.2.2.1.trans hboth.1
    · exact lawful_fail

theorem resolveScoped_lawful {requested : Option String} {includeFinished : Bool} :
    Lawful z (resolveScoped z now requested context includeFinished) w fun t _ => Owned z context t := by
  unfold resolveScoped
  cases truthy requested with
  | some taskId => exact granted_lawful
  | none =>
    apply ensures_bind.mpr
    refine ensures_look.mpr ?_
    split
    · exact lawful_fail
    · rename_i task hone
      have hmem : task ∈ w.tasks.filter fun task => task.ownerScopeHash = hashOwner z context &&
          (isAccessibleState task.state || includeFinished && task.state = .finished) := by
        rw [hone]
        exact List.mem_cons_self
      obtain ⟨htask, hboth⟩ := List.mem_filter.mp hmem
      rw [Bool.and_eq_true, decide_eq_true_eq] at hboth
      refine ensures_ite.mpr ⟨fun haccessible => ?_, fun _ => ensures_pure.mpr hboth.1⟩
      exact (resume_lawful htask (accessible_open haccessible)).mono fun _ _ h => h.2.2.1.trans hboth.1
    · exact lawful_fail

theorem assertTabAccess_lawful :
    Lawful z (assertTabAccess z now tabId context) w fun t _ => Owned z context t := by
  unfold assertTabAccess
  apply ensures_bind.mpr
  refine ensures_look.mpr ?_
  cases truthy (w.taskByTab tabId) with
  | none => exact lawful_fail
  | some taskId => exact granted_lawful

theorem attachTab_lawful (hs : Sound w) :
    Lawful z (attachTab z now taskId tabId context) w fun t _ => Owned z context t := by
  unfold attachTab
  apply requireOwnedTask_lawful.bind hs
  intro granted w₁ hs₁ hgranted
  have hclaim : Lawful z (claim granted.taskId tabId) w₁ fun _ w' => ∀ found ∈ w'.tasks,
    found.taskId = granted.taskId →
      found.state = granted.state ∧ found.ownerScopeHash = granted.ownerScopeHash :=
    claim_lawful hs₁ hgranted.mem hgranted.open
  rw [hgranted.id] at hclaim
  apply hclaim.bind hs₁
  intro _ w₂ hs₂ hkept
  apply current_lawful.bind hs₂
  rintro task w₃ - ⟨rfl, hmem, hid⟩
  obtain ⟨hstate, howner⟩ := hkept task hmem hid
  have hopen : task.state.terminal = false := by
    rw [hstate]
    exact hgranted.open
  apply (revise_lawful ⟨task, hmem, rfl, rfl, rfl, hopen, hopen⟩).mono
  rintro t w' ⟨rfl, -⟩
  exact howner.trans hgranted.owner

theorem attachExistingTab_lawful (hs : Sound w)
    (h : ∀ task ∈ w.tasks, task.taskId = taskId → task.state.terminal = false) :
    Lawful z (attachExistingTab taskId tabId) w fun _ _ => True := by
  unfold attachExistingTab
  apply current_lawful.bind hs
  rintro task w₁ hs₁ ⟨rfl, hmem, rfl⟩
  apply (claim_lawful hs₁ hmem (h task hmem rfl)).bind hs₁
  exact fun _ _ _ _ => current_lawful.mono fun _ _ _ => trivial

theorem detachTab_lawful (hs : Sound w) : Lawful z (detachTab z now tabId) w fun _ _ => True := by
  unfold detachTab
  apply ensures_bind.mpr
  refine ensures_look.mpr ?_
  rw [truthy_owner hs]
  cases htab : w.taskByTab tabId with
  | none => exact lawful_pure trivial
  | some taskId =>
    apply ensures_bind.mpr
    refine ensures_emit.mpr ⟨htab, ensures_bind.mpr (ensures_look.mpr ?_)⟩
    cases hfound : taskOf (w.after (.detached taskId tabId)) taskId with
    | none => exact lawful_pure trivial
    | some task =>
      obtain ⟨hmem, hid⟩ := taskOf_some hfound
      obtain ⟨owner, howner, hsame, hin⟩ := (hs.owners taskId tabId).mp htab
      have hopen : task.state.terminal = false := by
        obtain ⟨old, hold, rfl⟩ := mem_change.mp hmem
        split_ifs at hid with hchanged
        · cases hs.same hold howner (hchanged.trans hsame.symm)
          rw [if_pos hchanged]
          by_contra hterminal
          rw [hs.closed owner howner (Bool.eq_true_of_not_eq_false hterminal)] at hin
          cases hin
        · exact absurd hid hchanged
      apply ensures_bind.mpr
      apply (revise_lawful ⟨task, hmem, rfl, rfl, rfl, hopen, hopen⟩).mono
      exact fun _ _ _ => ensures_pure.mpr trivial

theorem acquireForTask_lawful :
    Lawful z (acquireForTask z now taskId context) w fun granted _ => Owned z context granted.1 := by
  unfold acquireForTask
  apply ensures_bind.mpr
  apply requireOwnedTask_lawful.mono
  intro task w₁ hgranted
  exact ensures_bind.mpr (ensures_look.mpr (ensures_bind.mpr (ensures_emit.mpr ⟨trivial,
    ensures_pure.mpr hgranted.owner⟩)))

theorem acquireForTab_lawful :
    Lawful z (acquireForTab z now tabId context) w fun granted _ => Owned z context granted.1 := by
  unfold acquireForTab
  apply ensures_bind.mpr
  exact assertTabAccess_lawful.mono fun _ _ _ => acquireForTask_lawful

theorem release_lawful {lease : ℕ} : Lawful z (release z now lease) w fun _ _ => True := by
  unfold release
  apply ensures_bind.mpr
  refine ensures_look.mpr ?_
  cases hlease : w.leases[lease]?.filter (!·.released) with
  | none => exact lawful_pure trivial
  | some found =>
    obtain ⟨hfound, hnew⟩ := Option.filter_eq_some_iff.mp hlease
    apply ensures_bind.mpr
    refine ensures_emit.mpr ⟨⟨found, hfound, Bool.not_inj hnew⟩, ensures_bind.mpr (ensures_look.mpr ?_)⟩
    cases htask : (taskOf (w.after (.released lease)) found.taskId).filter (isAccessibleState ·.state) with
    | none => exact lawful_pure trivial
    | some task =>
      obtain ⟨hsome, haccessible⟩ := Option.filter_eq_some_iff.mp htask
      have hopen := accessible_open haccessible
      apply ensures_bind.mpr
      apply (revise_lawful ⟨task, (taskOf_some hsome).1, rfl, rfl, rfl, hopen, hopen⟩).mono
      exact fun _ _ _ => ensures_pure.mpr trivial

theorem beginFinish_lawful : Lawful z (beginFinish z now taskId context) w fun t _ => Owned z context t := by
  unfold beginFinish
  apply ensures_bind.mpr
  apply requireOwnedTask_lawful.mono
  intro task w₁ hgranted
  refine ensures_ite.mpr ⟨fun _ => ensures_pure.mpr hgranted.owner, fun hfinished => ?_⟩
  refine ensures_ite.mpr ⟨fun _ => lawful_fail, fun _ => ?_⟩
  have hopen : task.state.terminal = false := by
    by_contra hterminal
    exact hfinished (hgranted.state (Bool.eq_true_of_not_eq_false hterminal)).1
  have hrevises : Revises w₁ { task with state := .finishing } :=
    ⟨task, hgranted.mem, rfl, rfl, rfl, hopen, rfl⟩
  apply (revise_lawful hrevises).mono
  rintro t w' ⟨rfl, -⟩
  exact hgranted.owner

theorem terminate_lawful {state : TaskState} (hstate : state.terminal = true)
    (h : ∀ task ∈ w.tasks, task.taskId = taskId → task.state = .finishing) :
    Lawful z (terminate z now state taskId) w fun _ _ => True := by
  unfold terminate
  apply ensures_bind.mpr
  apply current_lawful.mono
  rintro task w₁ ⟨rfl, hmem, hid⟩
  exact ensures_bind.mpr
    (ensures_emit.mpr ⟨⟨hstate, task, hmem, hid, h task hmem hid⟩, ensures_pure.mpr trivial⟩)

theorem beginExpiration_lawful : Lawful z (beginExpiration z now taskId) w fun _ _ => True := by
  unfold beginExpiration
  apply ensures_bind.mpr
  refine ensures_look.mpr ?_
  cases htask : (taskOf w taskId).filter (isAccessibleState ·.state) with
  | none => exact lawful_pure trivial
  | some task =>
    obtain ⟨hsome, haccessible⟩ := Option.filter_eq_some_iff.mp htask
    obtain ⟨hmem, hid⟩ := taskOf_some hsome
    apply ensures_bind.mpr
    refine ensures_look.mpr (ensures_ite.mpr ⟨fun _ => lawful_pure trivial, fun hleased => ?_⟩)
    refine ensures_ite.mpr ⟨fun _ => lawful_pure trivial, fun hlater => ?_⟩
    refine ensures_bind.mpr (ensures_emit.mpr ⟨?_, ensures_pure.mpr trivial⟩)
    exact ⟨task, hmem, hid, haccessible, Nat.eq_zero_of_not_pos hleased, Bool.eq_false_iff.mpr hlater⟩

theorem restore_lawful : Lawful z (restoreAfterFailedFinalization z now taskId) w fun _ _ => True := by
  unfold restoreAfterFailedFinalization
  apply ensures_bind.mpr
  refine ensures_look.mpr ?_
  cases htask : (taskOf w taskId).filter (·.state = .finishing) with
  | none => exact lawful_pure trivial
  | some task =>
    obtain ⟨hsome, hfinishing⟩ := Option.filter_eq_some_iff.mp htask
    have hopen : task.state.terminal = false := by
      rw [of_decide_eq_true hfinishing]
      rfl
    have hrevises : Revises w { task with state := .active } :=
      ⟨task, (taskOf_some hsome).1, rfl, rfl, rfl, hopen, rfl⟩
    apply ensures_bind.mpr
    exact (revise_lawful hrevises).mono fun _ _ _ => ensures_pure.mpr trivial

/-- What is returned to a caller with a context belongs to its owner. -/
def Returned (z : Clock) (call : Call) (tasks : List BrowserTask) : Prop :=
  ∀ context, call.context = some context → ∀ task ∈ tasks, Owned z context task

theorem perform_lawful (hs : Sound w) {call : Call} (h : Admissible w call) :
    Lawful z (perform z now call) w fun tasks _ => Returned z call tasks := by
  have hone : ∀ {call : Call} {context : Option OperationContext}, call.context = some context →
      ∀ (t : BrowserTask) (w' : State), Owned z context t →
        Lawful z (pure [t] : Op (List BrowserTask)) w' fun tasks _ => Returned z call tasks := by
    intro call context hcontext t w' howned
    apply lawful_pure
    intro found hfound task htask
    cases hcontext.symm.trans hfound
    rw [List.mem_singleton.mp htask]
    exact howned
  have hnone : ∀ {call : Call}, call.context = none → ∀ (tasks : List BrowserTask) (w' : State),
      Lawful z (pure tasks : Op (List BrowserTask)) w' fun tasks _ => Returned z call tasks := by
    intro call hcontext tasks w'
    apply lawful_pure
    intro context hfound
    cases hcontext.symm.trans hfound
  cases call with
  | accessibleTasks context includeTerminal =>
    apply lawful_look
    intro found hfound task htask
    cases hfound
    exact of_decide_eq_true (List.mem_filter.mp (List.mem_filter.mp htask).1).2
  | expiredCandidates => exact lawful_look nofun
  | resolveForOpen taskId context created =>
    exact ensures_bind.mpr ((resolveForOpen_lawful h).mono (hone rfl))
  | resolveScoped taskId context includeFinished =>
    exact ensures_bind.mpr (resolveScoped_lawful.mono (hone rfl))
  | create taskId context => exact ensures_bind.mpr ((create_lawful h).mono (hone rfl))
  | assertTabAccess tabId context => exact ensures_bind.mpr (assertTabAccess_lawful.mono (hone rfl))
  | attachTab taskId tabId context => exact ensures_bind.mpr ((attachTab_lawful hs).mono (hone rfl))
  | attachExistingTab taskId tabId =>
    exact ensures_bind.mpr ((attachExistingTab_lawful hs h).mono fun t w' _ => hnone rfl [t] w')
  | detachTab tabId => exact ensures_bind.mpr ((detachTab_lawful hs).mono fun _ w' _ => hnone rfl [] w')
  | acquireForTask taskId context =>
    exact ensures_bind.mpr (acquireForTask_lawful.mono fun granted w' howned => hone rfl granted.1 w' howned)
  | acquireForTab tabId context =>
    exact ensures_bind.mpr (acquireForTab_lawful.mono fun granted w' howned => hone rfl granted.1 w' howned)
  | release lease => exact ensures_bind.mpr (release_lawful.mono fun _ w' _ => hnone rfl [] w')
  | beginFinish taskId context => exact ensures_bind.mpr (beginFinish_lawful.mono (hone rfl))
  | completeFinish taskId =>
    exact ensures_bind.mpr ((terminate_lawful rfl h).mono fun t w' _ => hnone rfl [t] w')
  | beginExpiration taskId =>
    exact ensures_bind.mpr (beginExpiration_lawful.mono fun t w' _ => hnone rfl t.toList w')
  | restoreAfterFailedFinalization taskId =>
    exact ensures_bind.mpr (restore_lawful.mono fun t w' _ => hnone rfl t.toList w')
  | markExpired taskId =>
    exact ensures_bind.mpr ((terminate_lawful rfl h).mono fun t w' _ => hnone rfl [t] w')

end Calls

section Leases

variable {z : Clock} {now : ℕ} {w : State} {taskId tabId : String} {task : BrowserTask}
  {context : Option OperationContext} {α : Type} {lease : ℕ} {found : Lease}

/-- The leases after a program that succeeds. -/
def Leases (x : Op α) (w : State) (leases : α → List Lease) : Prop :=
  Ensures (fun _ _ => True) x w (fun a w' => w'.leases = leases a) fun _ _ => True

theorem revise_leases {extendExpiry : Bool} {stopped : AppError → State → Prop} :
    Ensures (fun _ _ => True)
    (revise z now task extendExpiry) w (fun _ w' => w'.leases = w.leases) stopped := by
  unfold revise
  exact ensures_bind.mpr (ensures_emit.mpr ⟨trivial, ensures_pure.mpr rfl⟩)

theorem requireOwnedTask_leases {ownerHash : String} {includeFinished resumeSuspended : Bool} :
    Leases (requireOwnedTask z now taskId ownerHash includeFinished resumeSuspended) w fun _ => w.leases := by
  have hfail : ∀ e : AppError, Leases (fail e : Op BrowserTask) w fun _ => w.leases :=
    fun _ => ensures_fail.mpr trivial
  unfold requireOwnedTask
  apply ensures_bind.mpr
  refine ensures_look.mpr ?_
  cases taskOf w taskId with
  | none => exact hfail _
  | some task =>
    refine ensures_ite.mpr ⟨fun _ => hfail _, fun _ => ?_⟩
    refine ensures_ite.mpr ⟨fun _ => hfail _, fun _ => ?_⟩
    refine ensures_ite.mpr ⟨fun _ => hfail _, fun _ => ?_⟩
    refine ensures_ite.mpr ⟨fun _ => hfail _, fun _ => ?_⟩
    exact ensures_ite.mpr ⟨fun _ => revise_leases, fun _ => ensures_pure.mpr rfl⟩

theorem assertTabAccess_leases : Leases (assertTabAccess z now tabId context) w fun _ => w.leases := by
  unfold assertTabAccess
  apply ensures_bind.mpr
  refine ensures_look.mpr ?_
  cases truthy (w.taskByTab tabId) with
  | none => exact ensures_fail.mpr trivial
  | some taskId => exact requireOwnedTask_leases

theorem acquireForTask_leases :
    Leases (acquireForTask z now taskId context) w fun granted =>
    w.leases ++ [⟨granted.1.taskId, false⟩] := by
  unfold acquireForTask
  apply ensures_bind.mpr
  refine requireOwnedTask_leases.mono ?_ fun _ _ h => h
  intro task w' hkept
  refine ensures_bind.mpr
    (ensures_look.mpr (ensures_bind.mpr (ensures_emit.mpr ⟨trivial, ensures_pure.mpr ?_⟩)))
  show w'.leases ++ [⟨task.taskId, false⟩] = w.leases ++ [⟨task.taskId, false⟩]
  rw [hkept]

theorem acquireForTab_leases :
    Leases (acquireForTab z now tabId context) w fun granted => w.leases ++ [⟨granted.1.taskId, false⟩] := by
  unfold acquireForTab
  apply ensures_bind.mpr
  refine assertTabAccess_leases.mono ?_ fun _ _ h => h
  intro task w' hkept
  have hsame : w'.leases = w.leases := hkept
  rw [← hsame]
  exact acquireForTask_leases

def Call.acquires : Call → Bool
  | .acquireForTask _ _ => true
  | .acquireForTab _ _ => true
  | _ => false

/-- A call that acquires a lease and succeeds hands out one more, of the task it returns. -/
theorem acquire_adds {call : Call} (h : call.acquires = true) {tasks : List BrowserTask}
    (hok : (perform z now call w).1 = .ok tasks) :
    ∃ task, tasks = [task] ∧ (step z w (now, call)).leases = w.leases ++ [⟨task.taskId, false⟩] := by
  have hadds : Ensures (fun _ _ => True) (perform z now call) w
      (fun tasks w' => ∃ task, tasks = [task] ∧ w'.leases = w.leases ++ [⟨task.taskId, false⟩])
          fun _ _ => True := by
    cases call with
    | acquireForTask taskId context =>
      refine ensures_bind.mpr (acquireForTask_leases.mono ?_ fun _ _ h => h)
      exact fun granted w' hleases => ensures_pure.mpr ⟨granted.1, rfl, hleases⟩
    | acquireForTab tabId context =>
      refine ensures_bind.mpr (acquireForTab_leases.mono ?_ fun _ _ h => h)
      exact fun granted w' hleases => ensures_pure.mpr ⟨granted.1, rfl, hleases⟩
    | _ => cases h
  have hsettled := hadds.2
  rwa [hok] at hsettled

/-- A lease is released by its release, the first one and any other. -/
theorem release_marks (hfound : w.leases[lease]? = some found) :
    (step z w (now, .release lease)).leases[lease]? = some ⟨found.taskId, true⟩ := by
  have hmarks : Ensures (fun _ _ => True) (perform z now (.release lease)) w
      (fun _ w' => w'.leases[lease]? = some ⟨found.taskId, true⟩)
      (fun _ w' => w'.leases[lease]? = some ⟨found.taskId, true⟩) := by
    refine ensures_bind.mpr ?_
    unfold release
    refine ensures_bind.mpr (ensures_look.mpr ?_)
    rw [hfound]
    cases hreleased : found.released with
    | true =>
      rw [Option.filter_some, hreleased]
      refine ensures_pure.mpr (ensures_pure.mpr ?_)
      rw [hfound, ← hreleased]
    | false =>
      rw [Option.filter_some, hreleased]
      have hset : (w.after (.released lease)).leases[lease]? = some ⟨found.taskId, true⟩ := by
        have hlt : lease < w.leases.length := (List.getElem?_eq_some_iff.mp hfound).1
        simp only [State.after, hfound]
        rw [List.getElem?_set_self hlt]
      refine ensures_bind.mpr (ensures_emit.mpr ⟨trivial, ensures_bind.mpr (ensures_look.mpr ?_)⟩)
      cases (taskOf (w.after (.released lease)) found.taskId).filter (isAccessibleState ·.state) with
      | none => exact ensures_pure.mpr (ensures_pure.mpr hset)
      | some task =>
        refine ensures_bind.mpr (revise_leases.mono ?_ fun _ _ h => h)
        intro _ w' hkept
        refine ensures_pure.mpr (ensures_pure.mpr ?_)
        rw [hkept]
        exact hset
  have hsettled := hmarks.2
  unfold step
  cases hresult : (perform z now (.release lease) w).1 with
  | ok tasks =>
    rw [hresult] at hsettled
    exact hsettled
  | error e =>
    rw [hresult] at hsettled
    exact hsettled

end Leases

section Construction

variable {tasks : List BrowserTask} {task : BrowserTask} {tabId : String}

theorem construct_tasks (hids : (tasks.map (·.taskId)).Nodup) : (construct tasks).tasks = tasks := by
  show tasks.foldl (fun tasks task => setTask task tasks) [] = tasks
  induction tasks using List.reverseRecOn with
  | nil => rfl
  | append_singleton tasks task ih =>
    rw [List.map_append, List.nodup_append] at hids
    rw [List.foldl_append, ih hids.1]
    apply setTask_fresh
    intro hmem
    exact hids.2.2 _ hmem _ List.mem_cons_self rfl

/-- The task of a tab is the first one that claims it. -/
theorem construct_owner (taskByTab : String → Option String) :
    (tasks.foldl (fun taskByTab task => claimTabs task.taskId task.tabIds taskByTab) taskByTab) tabId =
      (taskByTab tabId).or ((tasks.find? fun task => tabId ∈ task.tabIds).map (·.taskId)) := by
  induction tasks generalizing taskByTab with
  | nil => cases h : taskByTab tabId <;> simp [h]
  | cons task rest ih =>
    rw [List.foldl_cons, ih, List.find?_cons]
    cases h : taskByTab tabId <;> by_cases htab : tabId ∈ task.tabIds <;> simp [claimTabs, h, htab]

theorem construct_sound {d : Registry} {zb : Browser.Environment}
    (hstorage : registryStorageSchema zb d = true) (hissues : registryV6Issues d = []) :
    Sound (construct d.tasks) := by
  have hconsistent := registryV6Issues_nil.mp hissues
  have hfits := fits.mp hstorage
  have htasks := construct_tasks hconsistent.taskIds
  have hsame : ∀ task ∈ d.tasks, ∀ other ∈ d.tasks, ∀ tab, tab ∈ task.tabIds → tab ∈ other.tabIds →
      task.taskId = other.taskId := by
    intro task htask other hother tab htab htab'
    obtain ⟨t, ht, hid, howner⟩ := (hconsistent.task task htask).2.2 tab htab
    obtain ⟨t', ht', hid', howner'⟩ := (hconsistent.task other hother).2.2 tab htab'
    cases List.inj_on_of_nodup_map hconsistent.tabIds ht ht' (hid.trans hid'.symm)
    exact howner.symm.trans howner'
  constructor
  · rw [htasks]
    exact hconsistent.taskIds
  · intro task htask hname
    rw [htasks] at htask
    have hsized := (fitsTask.mp (hfits.tasks task htask)).taskId
    rw [hname] at hsized
    exact absurd hsized (by decide)
  · intro taskId tabId
    have howner : (construct d.tasks).taskByTab tabId =
        (d.tasks.find? fun task => tabId ∈ task.tabIds).map (·.taskId) := by
      show (d.tasks.foldl (fun taskByTab task => claimTabs task.taskId task.tabIds taskByTab)
        fun _ => none) tabId = _
      rw [construct_owner, Option.none_or]
    rw [howner, Holds, htasks]
    constructor
    · intro hfound
      obtain ⟨task, htask, hid⟩ := Option.map_eq_some_iff.mp hfound
      have hin := List.find?_some htask
      exact ⟨task, List.mem_of_find?_eq_some htask, hid, of_decide_eq_true hin⟩
    · rintro ⟨task, htask, rfl, hin⟩
      cases hfound : d.tasks.find? fun task => tabId ∈ task.tabIds with
      | none =>
        have hnone := List.find?_eq_none.mp hfound task htask
        exact absurd (decide_eq_true hin) hnone
      | some first =>
        have hfirst := List.find?_some hfound
        rw [Option.map_some]
        rw [hsame first (List.mem_of_find?_eq_some hfound) task htask tabId (of_decide_eq_true hfirst) hin]
  · intro task htask
    rw [htasks] at htask
    exact (hconsistent.task task htask).1
  · intro task htask
    rw [htasks] at htask
    exact (hconsistent.task task htask).2.1
  · exact fun _ => rfl

end Construction

section Runs

variable (z : Clock) (initialTasks : List BrowserTask)

abbrev Reached (s : State) : Prop :=
  Reaches (step z) (fun s input => Admissible s input.2) (construct initialTasks) s

variable {z initialTasks} {s : State}

/-- A task that an expiration lets finish is not leased and has expired. -/
theorem beginExpiration_finishing {now : ℕ} {taskId : String} :
    ∀ task ∈ (step z s (now, .beginExpiration taskId)).tasks,
    task.state = .finishing → task ∈ s.tasks ∨ ∃ old ∈ s.tasks, old.taskId = task.taskId ∧
      leaseCount s old.taskId = 0 ∧ isLater z now old.expiresAt = false := by
  let Explained (w' : State) : Prop := ∀ task ∈ w'.tasks, task.state = .finishing → task ∈ s.tasks ∨
    ∃ old ∈ s.tasks, old.taskId = task.taskId ∧ leaseCount s old.taskId = 0 ∧
      isLater z now old.expiresAt = false
  have hsame : Explained s := fun task htask _ => Or.inl htask
  have hrun : Ensures (Allowed z) (perform z now (.beginExpiration taskId)) s (fun _ w' => Explained w')
      fun _ w' => Explained w' := by
    apply ensures_bind.mpr
    unfold beginExpiration
    apply ensures_bind.mpr
    refine ensures_look.mpr ?_
    cases hfound : (taskOf s taskId).filter (isAccessibleState ·.state) with
    | none => exact ensures_pure.mpr (ensures_pure.mpr hsame)
    | some found =>
      obtain ⟨hsome, haccessible⟩ := Option.filter_eq_some_iff.mp hfound
      obtain ⟨hmem, hid⟩ := taskOf_some hsome
      apply ensures_bind.mpr
      refine ensures_look.mpr
        (ensures_ite.mpr ⟨fun _ => ensures_pure.mpr (ensures_pure.mpr hsame), fun hleased => ?_⟩)
      refine ensures_ite.mpr ⟨fun _ => ensures_pure.mpr (ensures_pure.mpr hsame), fun hlater => ?_⟩
      have hunleased : leaseCount s taskId = 0 := Nat.eq_zero_of_not_pos hleased
      have hexpired : isLater z now found.expiresAt = false := Bool.eq_false_iff.mpr hlater
      apply ensures_bind.mpr
      refine ensures_emit.mpr ⟨⟨found, hmem, hid, haccessible, hunleased, hexpired⟩, ?_⟩
      refine ensures_pure.mpr (ensures_pure.mpr fun task htask _ => ?_)
      obtain ⟨old, hold, rfl⟩ := mem_change.mp htask
      split_ifs with hchanged
      · exact Or.inr ⟨found, hmem, hid.trans hchanged.symm, hid.symm ▸ hunleased, hexpired⟩
      · exact Or.inl hold
  have hsettled := hrun.2
  cases hresult : (perform z now (.beginExpiration taskId) s).1 with
  | ok tasks =>
    rw [hresult] at hsettled
    exact hsettled
  | error stop =>
    rw [hresult] at hsettled
    exact hsettled

/-- The registry of an accepted list of tasks, whatever is called: the two maps
say the same, no list has duplicates, closed tasks have no tabs, the leases
are counted; and a further call leaves closed tasks as they are, lets a task
finish by expiration only unleased and expired, hands out one lease when it
acquires and marks its lease when it releases, and succeeds with a context
only for the owner of the task. -/
theorem registry_invariant {d : Registry} {zb : Browser.Environment}
    (hstorage : registryStorageSchema zb d = true) (hissues : registryV6Issues d = [])
    (h : Reached z d.tasks s) :
    (∀ taskId tabId, s.taskByTab tabId = some taskId ↔ Holds s taskId tabId) ∧
    (∀ task ∈ s.tasks, task.tabIds.Nodup) ∧
    (∀ task ∈ s.tasks, task.state.terminal = true → task.tabIds = []) ∧
    (∀ taskId, leaseCount s taskId = outstanding s taskId) ∧
    ∀ now call, Admissible s call →
      (∀ task ∈ s.tasks, task.state.terminal = true → task ∈ (step z s (now, call)).tasks) ∧
      (∀ task ∈ s.tasks, ∃ found ∈ (step z s (now, call)).tasks, found.taskId = task.taskId ∧
        found.ownerScopeHash = task.ownerScopeHash) ∧
      (∀ taskId, call = .beginExpiration taskId → ∀ task ∈ (step z s (now, call)).tasks,
        task.state = .finishing →
        task ∈ s.tasks ∨ ∃ old ∈ s.tasks, old.taskId = task.taskId ∧ leaseCount s old.taskId = 0 ∧
          isLater z now old.expiresAt = false) ∧
      (call.acquires = true → ∀ tasks, (perform z now call s).1 = .ok tasks →
        ∃ task, tasks = [task] ∧ (step z s (now, call)).leases = s.leases ++ [⟨task.taskId, false⟩]) ∧
      (∀ lease found, call = .release lease → s.leases[lease]? = some found →
        (step z s (now, call)).leases[lease]? = some ⟨found.taskId, true⟩) ∧
      ∀ context tasks, call.context = some context → (perform z now call s).1 = .ok tasks → ∀ task ∈ tasks,
        task.ownerScopeHash = z.sha256 (ownerScope context) ∧
        ∀ scope, (∀ other, z.sha256 other = z.sha256 scope → other = scope) →
          task.ownerScopeHash = z.sha256 scope → ownerScope context = scope := by
  have hs : Sound s := by
    apply h.invariant
    · exact construct_sound hstorage hissues
    · exact fun w input hw hcall => ((perform_lawful hw hcall).later hw).1
  refine ⟨hs.owners, hs.distinct, hs.closed, hs.counted, fun now call hcall => ?_⟩
  have hlawful : Lawful z (perform z now call) s fun tasks _ => Returned z call tasks :=
    perform_lawful hs hcall
  have hlater := (hlawful.later hs).2
  refine ⟨hlater.closed, hlater.owners, ?_, fun hacquires _ => acquire_adds hacquires, ?_, ?_⟩
  · rintro taskId rfl
    exact beginExpiration_finishing
  · rintro lease found rfl
    exact release_marks
  · intro context tasks hcontext hresult task htask
    have hsettled := hlawful.2
    rw [hresult] at hsettled
    have howned : task.ownerScopeHash = hashOwner z context := hsettled context hcontext task htask
    exact ⟨howned, fun scope hinjective hscope => hinjective _ (howned.symm.trans hscope)⟩

def sampleClock : Clock where
  toISOString := fun now => toString now
  parse := fun text => text.toInt?
  ttlMs := 600000
  sha256 := fun text => text

def sampleRegistry : Registry := ⟨"0", [], [⟨"task-1", "owner", .active, [], "0", "0", "100"⟩], [], []⟩

def sampleDates :
    Browser.Environment := { Browser.sampleEnvironment with isDatetime := fun _ => true,
                                                            inTenMinutes_datetime := rfl }

theorem registry_invariant_sample :
    let s := [(7, Call.attachTab "task-1" "tab-1" (some ⟨some "owner"⟩)),
      (8, Call.acquireForTab "tab-1" (some ⟨some "owner"⟩)), (9, Call.release 0), (10, Call.release 0)].foldl
      (step sampleClock) (construct sampleRegistry.tasks)
    (∀ taskId tabId, s.taskByTab tabId = some taskId ↔ Holds s taskId tabId) ∧ leaseCount s "task-1" = 0 := by
  have hrun : Admitted (step sampleClock) (fun s input => Admissible s input.2)
    (construct sampleRegistry.tasks)
      [(7, Call.attachTab "task-1" "tab-1" (some ⟨some "owner"⟩)),
        (8, Call.acquireForTab "tab-1" (some ⟨some "owner"⟩)), (9, Call.release 0), (10, Call.release 0)] :=
    ⟨trivial, trivial, trivial, trivial, trivial⟩
  have hstorage : registryStorageSchema sampleDates sampleRegistry = true := by decide +kernel
  have hlaw := registry_invariant hstorage (by decide +kernel) (Reaches.refl.events hrun rfl)
  exact ⟨hlaw.1, by decide +kernel⟩

end Runs

end AccessStack.BrowserTasks
