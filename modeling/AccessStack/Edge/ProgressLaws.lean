import AccessStack.Edge.ProgressPlans

/-!
# What the plans and sessions of a run are

The calls of a run tell which plans have been opened and which sessions have
been bound. The stored plans are the last ones of them, and so are the stored
sessions as long as a session that is pushed out is the one bound longest ago.
-/

set_option autoImplicit false

namespace AccessStack.Edge.Progress
open AccessStack.JsonText AccessStack.Text AccessStack.Properties

section Times

/-- A step that has ended has started before. -/
def Timely (now : ℕ) (step : ProgressPlanStep) : Prop :=
  (∀ s ∈ step.startedAt, s ≤ now) ∧ ∀ e ∈ step.endedAt, ∃ s, step.startedAt = some s ∧ s ≤ e

theorem timely_later {now later : ℕ} (hle : now ≤ later) {step : ProgressPlanStep} (h : Timely now step) :
    Timely later step :=
  ⟨fun s hs => (h.1 s hs).trans hle, h.2⟩

theorem earlierStep_mem {previous : List ProgressPlanStep} {text : String} {index : ℕ}
    {before : ProgressPlanStep} (h : earlierStep previous text index = some before) : before ∈ previous := by
  unfold earlierStep at h
  split at h
  · rename_i entry hentry
    split_ifs at h
    · obtain rfl := Option.some.inj h
      exact List.mem_of_getElem? hentry
    · exact List.mem_of_find?_eq_some h
  · exact List.mem_of_find?_eq_some h

theorem timed_timely {now : ℕ} {previous : List ProgressPlanStep} (h : ∀ step ∈ previous, Timely now step)
    (next : List ProgressStep) : ∀ step ∈ timed previous next now, Timely now step := by
  intro step hstep
  obtain ⟨⟨entry, index⟩, -, rfl⟩ := List.mem_map.mp hstep
  have hbefore : ∀ before ∈ earlierStep previous entry.text index, Timely now before :=
    fun before hmem => h before (earlierStep_mem hmem)
  simp only [Timely]
  generalize earlierStep previous entry.text index = before at hbefore
  have hstarted : ∀ s ∈ startedAt before entry.state now, s ≤ now := by
    intro s hs
    unfold startedAt at hs
    split_ifs at hs
    · cases hs
    all_goals
      cases before with
      | none => simp at hs <;> omega
      | some before =>
        have htimely := (hbefore before rfl).1
        cases hcase : before.startedAt with
        | none => simp [hcase] at hs <;> omega
        | some s' =>
          have hsame : s' = s := by simpa [hcase] using hs
          exact hsame ▸ htimely s' hcase
  refine ⟨hstarted, ?_⟩
  intro e he
  unfold endedAt at he
  split_ifs at he with hstate
  · have hlive : ¬ (entry.state = .todo ∨ entry.state = .skipped) := by
      rintro (h | h) <;> rw [h] at hstate <;> simp at hstate
    cases hend : before.bind (·.endedAt) with
    | none =>
      rw [hend, Option.none_or] at he
      obtain ⟨s, hs, rfl⟩ := Option.map_eq_some_iff.mp he
      exact ⟨s, hs, hstarted s hs⟩
    | some e' =>
      have hsame : e' = e := by simpa [hend] using he
      subst hsame
      obtain ⟨before', rfl, hended⟩ := Option.bind_eq_some_iff.mp hend
      obtain ⟨s, hs, hle⟩ := (hbefore before' rfl).2 e' hended
      refine ⟨s, ?_, hle⟩
      rw [startedAt, if_neg hlive]
      simp [hs]
  · cases he

end Times

section History

/-- The plans of a user as they were opened. -/
def openedBy (calls : List Call) (userId : String) : List String :=
  calls.filterMap fun
    | .opened user planId => if user = userId then some planId else none
    | .bound .. => none

def allOpened (calls : List Call) : List String :=
  calls.filterMap fun
    | .opened _ planId => some planId
    | .bound .. => none

def bind (userId : String) (recent : List (String × String)) : Call → List (String × String)
  | .opened .. => recent
  | .bound user session planId => if user = userId then latest recent session planId else recent

/-- The sessions of a user with their plans, in the order of their last bindings. -/
def bindings (calls : List Call) (userId : String) : List (String × String) := calls.foldl (bind userId) []

/-- The sessions that are kept after a binding, and the one that may be pushed out. -/
def competing (calls : List Call) (userId session planId : String) : List (String × String) :=
  latest (lastOf maxSessionPlans (bindings calls userId)) session planId

/-- Whenever there is a session too many, and one of them is named like an array index,
the one with the smallest
index has been bound longest ago. -/
def OldestFirst (calls : List Call) : Prop :=
  ∀ before userId session planId, before ++ [.bound userId session planId] <+: calls →
    maxSessionPlans < (competing before userId session planId).length →
      IndexFirst arrayIndex (competing before userId session planId)

theorem oldestFirst_before {calls more : List Call} (h : OldestFirst (calls ++ more)) : OldestFirst calls :=
  fun before userId session planId hinitial =>
    h before userId session planId (hinitial.trans (List.prefix_append _ _))

theorem openedBy_snoc (calls : List Call) (userId user planId : String) :
    openedBy (calls ++ [.opened user planId]) userId =
      if user = userId then openedBy calls userId ++ [planId] else openedBy calls userId := by
  by_cases h : user = userId <;> simp [openedBy, h]

theorem openedBy_bound (calls : List Call) (userId user session planId : String) :
    openedBy (calls ++ [.bound user session planId]) userId = openedBy calls userId := by
  simp [openedBy]

theorem allOpened_snoc (calls : List Call) (user planId : String) :
    allOpened (calls ++ [.opened user planId]) = allOpened calls ++ [planId] := by simp [allOpened]

theorem allOpened_bound (calls : List Call) (user session planId : String) :
    allOpened (calls ++ [.bound user session planId]) = allOpened calls := by simp [allOpened]

theorem bindings_snoc (calls : List Call) (call : Call) (userId : String) :
    bindings (calls ++ [call]) userId = bind userId (bindings calls userId) call := by simp [bindings]

theorem bindings_distinct (calls : List Call) (userId : String) : Distinct (bindings calls userId) := by
  induction calls using List.reverseRecOn with
  | nil => exact List.nodup_nil
  | append_singleton calls call ih =>
    rw [bindings_snoc]
    cases call with
    | opened => exact ih
    | bound user session planId =>
      rw [bind]
      split_ifs
      · exact distinct_latest ih session planId
      · exact ih

theorem openedBy_sublist (calls : List Call) (userId : String) :
    (openedBy calls userId).Sublist (allOpened calls) := by
  induction calls using List.reverseRecOn with
  | nil => exact .slnil
  | append_singleton calls call ih =>
    cases call with
    | opened user planId =>
      rw [openedBy_snoc, allOpened_snoc]
      split_ifs
      · exact ih.append_right _
      · exact ih.trans (List.sublist_append_left _ _)
    | bound =>
      rw [openedBy_bound, allOpened_bound]
      exact ih

end History

section Invariant

/-- What holds of the storage, told by the calls, at a moment. -/
structure Kept (now : ℕ) (p : Plans) : Prop where
  newest : ∀ userId, (p.of userId).map (·.planId) = lastOf maxPlans (openedBy p.calls userId)
  owners : ∀ planId userId, p.owners planId = some userId ↔ planId ∈ (p.of userId).map (·.planId)
  users : ∀ planId userId, p.owners planId = some userId → userId ≠ ""
  sessions : ∀ userId,
    Tracks arrayIndex (p.assignments userId) (lastOf maxSessionPlans (bindings p.calls userId))
  timely : ∀ userId, ∀ plan ∈ p.of userId, ∀ step ∈ plan.steps, Timely now step
  distinct : (allOpened p.calls).Nodup
  ids : ∀ id ∈ allOpened p.calls, id ≠ ""
  names : ∀ userId, ∀ e ∈ bindings p.calls userId, e.1 ≠ ""

theorem kept_empty (now : ℕ) : Kept now empty := by
  refine ⟨fun _ => rfl, ?_, ?_, fun _ => ⟨.refl _, rfl⟩, ?_, List.nodup_nil, ?_, ?_⟩
  · intro planId userId
    simp [empty, Plans.of]
  · intro planId userId h
    cases h
  · intro userId plan hplan
    simp [empty, Plans.of] at hplan
  · intro id hid
    cases hid
  · intro userId e he
    cases he

theorem kept_later {now later : ℕ} (hle : now ≤ later) {p : Plans} (h : Kept now p) : Kept later p :=
  { h with timely := fun userId plan hplan step hstep => timely_later hle (h.timely userId plan
    hplan step hstep) }

theorem ids_distinct {now : ℕ} {p : Plans} (h : Kept now p) (userId : String) :
    ((p.of userId).map (·.planId)).Nodup := by
  rw [h.newest]
  exact h.distinct.sublist ((List.drop_sublist _ _).trans (openedBy_sublist _ _))

@[simp] theorem put_of_self (p : Plans) (userId : String) (plans : List ProgressPlan) :
    (p.put userId plans).of userId = plans := by
  simp [Plans.put, Plans.of]

theorem put_of_other (p : Plans) {userId other : String} (h : other ≠ userId) (plans : List ProgressPlan) :
    (p.put userId plans).of other = p.of other := by
  simp [Plans.put, Plans.of, h]

theorem replaced_ids (plans : List ProgressPlan) (plan : ProgressPlan) :
    (replaced plans plan).map (·.planId) = plans.map (·.planId) := by
  rw [replaced, List.map_map]
  apply List.map_congr_left
  intro entry _
  by_cases h : entry.planId = plan.planId <;> simp [h]

theorem kept_put {now : ℕ} {p : Plans} (h : Kept now p) (userId : String) {plan : ProgressPlan}
    (hsteps : ∀ step ∈ plan.steps, Timely now step) :
    Kept now (p.put userId (replaced (p.of userId) plan)) := by
  have hids : ∀ user, ((p.put userId (replaced (p.of userId) plan)).of user).map (·.planId) =
      (p.of user).map (·.planId) := by
    intro user
    by_cases hu : user = userId
    · rw [hu, put_of_self, replaced_ids]
    · rw [put_of_other p hu]
  refine ⟨?_, ?_, h.users, h.sessions, ?_, h.distinct, h.ids, h.names⟩
  · intro user
    rw [hids]
    exact h.newest user
  · intro planId user
    rw [hids]
    exact h.owners planId user
  · intro user entry hentry
    by_cases hu : user = userId
    · rw [hu, put_of_self, replaced] at hentry
      obtain ⟨before, hbefore, rfl⟩ := List.mem_map.mp hentry
      split_ifs
      · exact hsteps
      · exact h.timely userId before hbefore
    · rw [put_of_other p hu] at hentry
      exact h.timely user entry hentry

theorem kept_bind {now : ℕ} {p : Plans} (h : Kept now p) (userId : String) {session : Option String}
    (hsession : session ≠ some "") (planId : String)
    (hfirst : OldestFirst (bindSession p userId session planId).calls) :
    Kept now (bindSession p userId session planId) := by
  cases session with
  | none => exact h
  | some session =>
    refine ⟨?_, h.owners, h.users, ?_, h.timely, ?_, ?_, ?_⟩
    · intro user
      simp only [bindSession]
      rw [openedBy_bound]
      exact h.newest user
    · intro user
      simp only [bindSession]
      rw [bindings_snoc, bind]
      by_cases hu : userId = user
      · subst hu
        rw [if_pos rfl]
        have hstored :=
          renew_tracks (h.sessions userId) (bindings_distinct _ _) (hfirst _ _ _ _ (List.prefix_refl _))
        simpa [Plans.assignments] using hstored
      · rw [if_neg hu]
        have hother := h.sessions user
        simpa [Plans.assignments, Function.update_of_ne (Ne.symm hu)] using hother
    · simp only [bindSession]
      rw [allOpened_bound]
      exact h.distinct
    · simp only [bindSession]
      rw [allOpened_bound]
      exact h.ids
    · intro user e he
      simp only [bindSession] at he
      rw [bindings_snoc, bind] at he
      split_ifs at he
      · rcases List.mem_append.mp he with he | he
        · exact h.names user e (List.mem_filter.mp he).1
        · rw [List.mem_singleton.mp he]
          exact fun hempty => hsession (congrArg some hempty)
      · exact h.names user e he

theorem open_of_self (p : Plans) (userId : String) (plan : ProgressPlan) :
    (openPlan p userId plan).of userId = lastOf maxPlans (p.of userId ++ [plan]) := by
      simp [openPlan, Plans.of]

theorem open_of_other (p : Plans) {userId other : String} (h : other ≠ userId) (plan : ProgressPlan) :
    (openPlan p userId plan).of other = p.of other := by simp [openPlan, Plans.of, h]

theorem open_kept (p : Plans) (userId : String) (plan : ProgressPlan) :
    (openPlan p userId plan).of userId = lastOf 19 (p.of userId) ++ [plan] := by
  rw [open_of_self]
  exact lastOf_snoc 19 _ _

theorem kept_open {now : ℕ} {p : Plans} (h : Kept now p) {userId : String} (huser : userId ≠ "")
    {plan : ProgressPlan} (hfresh : plan.planId ∉ allOpened p.calls) (hid : plan.planId ≠ "")
    (hsteps : ∀ step ∈ plan.steps, Timely now step) :
    Kept now (openPlan p userId plan) := by
  have hcalls : (openPlan p userId plan).calls = p.calls ++ [.opened userId plan.planId] := rfl
  have hknown : ∀ user, ∀ id ∈ (p.of user).map (·.planId), id ∈ allOpened p.calls := by
    intro user id hid
    rw [h.newest] at hid
    exact (openedBy_sublist _ _).subset ((List.drop_sublist _ _).subset hid)
  have hsplit : (p.of userId).map (·.planId) =
      ((p.of userId).take ((p.of userId).length + 1 - maxPlans)).map (·.planId) ++
          (lastOf 19 (p.of userId)).map (·.planId) := by
    rw [← List.map_append, lastOf, show (p.of userId).length + 1 - maxPlans =
      (p.of userId).length - 19 from Nat.add_sub_add_right _ 1 19, List.take_append_drop]
  have hdistinct := ids_distinct h userId
  rw [hsplit, List.nodup_append] at hdistinct
  obtain ⟨-, -, hapart⟩ := hdistinct
  have howners : ∀ id, (openPlan p userId plan).owners id = if id = plan.planId then some userId
      else if id ∈ ((p.of userId).take ((p.of userId).length + 1 - maxPlans)).map (·.planId) then none
      else p.owners id := by
    intro id
    by_cases hid : id = plan.planId
    · simp [openPlan, hid]
    · simp [openPlan, hid]
  refine ⟨?_, ?_, ?_, ?_, ?_, ?_, ?_, ?_⟩
  · intro user
    rw [hcalls, openedBy_snoc]
    by_cases hu : userId = user
    · subst hu
      rw [open_kept, if_pos rfl, show maxPlans = 19 + 1 from rfl, lastOf_snoc, List.map_append,
        lastOf_map, h.newest, lastOf_lastOf (by decide)]
      rfl
    · rw [open_of_other p (Ne.symm hu), if_neg hu]
      exact h.newest user
  · intro id user
    rw [howners]
    by_cases hid : id = plan.planId
    · subst hid
      rw [if_pos rfl]
      by_cases hu : user = userId
      · subst hu
        simp [open_kept]
      · rw [open_of_other p hu]
        constructor
        · intro hsame
          exact absurd (Option.some.inj hsame).symm hu
        · intro hmem
          exact absurd (hknown user _ hmem) hfresh
    · rw [if_neg hid]
      by_cases hu : user = userId
      · subst hu
        have hall := h.owners id user
        rw [hsplit, List.mem_append] at hall
        rw [open_kept, List.map_append, List.mem_append]
        have hnew : id ∉ [plan].map (·.planId) := by simpa using hid
        split_ifs with hdropped
        · constructor
          · intro hnone
            cases hnone
          · rintro (hmem | hmem)
            · exact absurd rfl (hapart id hdropped id hmem)
            · exact absurd hmem hnew
        · rw [hall]
          simp only [hdropped, hnew, false_or, or_false]
      · rw [open_of_other p hu]
        split_ifs with hdropped
        · constructor
          · intro hnone
            cases hnone
          · intro hmem
            have howner := (h.owners id userId).mpr (by rw [hsplit]; exact List.mem_append_left _ hdropped)
            rw [(h.owners id user).mpr hmem] at howner
            exact absurd (Option.some.inj howner) hu
        · exact h.owners id user
  · intro id user howner
    rw [howners] at howner
    split_ifs at howner with hid hdropped
    · rw [← Option.some.inj howner]
      exact huser
    · exact h.users id user howner
  · intro user
    rw [hcalls, bindings_snoc]
    exact h.sessions user
  · intro user entry hentry
    by_cases hu : user = userId
    · rw [hu, open_kept] at hentry
      rcases List.mem_append.mp hentry with hentry | hentry
      · exact h.timely userId entry ((List.drop_sublist _ _).subset hentry)
      · rw [List.mem_singleton.mp hentry]
        exact hsteps
    · rw [open_of_other p hu] at hentry
      exact h.timely user entry hentry
  · rw [hcalls, allOpened_snoc, List.nodup_append]
    refine ⟨h.distinct, List.nodup_singleton _, ?_⟩
    intro a ha b hb
    rw [List.mem_singleton.mp hb]
    rintro rfl
    exact hfresh ha
  · intro id hmem
    rw [hcalls, allOpened_snoc] at hmem
    rcases List.mem_append.mp hmem with hmem | hmem
    · exact h.ids id hmem
    · rw [List.mem_singleton.mp hmem]
      exact hid
  · intro user
    rw [hcalls, bindings_snoc]
    exact h.names user

end Invariant

section Runs

inductive Operation where
  | handle (body : Json) (userId : Option String)
  | openForUpdate (body : Json) (userId : Option String)
  | noteUserCard (userId : String) (taskId : Option String)
  | applyUpdate (update : ProgressUpdate) (ownerUserId : Option String)

/-- An operation with the time of its clock and the id that it may give to a plan. -/
structure Turn where
  operation : Operation
  now : ℕ
  uuid : String

def step (p : Plans) (t : Turn) : Plans :=
  match t.operation with
  | .handle body userId => (handle p body userId t.now t.uuid).1
  | .openForUpdate body userId => (openForUpdate p body userId t.now t.uuid).1
  | .noteUserCard userId taskId => (noteUserCard p userId taskId t.now).1
  | .applyUpdate update ownerUserId => (applyUpdate p update ownerUserId t.now).1

def run (turns : List Turn) : Plans := turns.foldl step empty

/-- What one operation can do to the storage. -/
inductive Made (now : ℕ) (uuid : String) (p : Plans) : Plans → Prop where
  | nothing : Made now uuid p p
  | cards (cards : String → Option (List (String × ℕ))) : Made now uuid p { p with cards := cards }
  | changed (userId : String) (current plan : ProgressPlan) (session : Option String) : current ∈
    p.of userId →
      session ≠ some "" →
      (plan.steps = current.steps ∨ ∃ next, plan.steps = timed current.steps next now) →
      Made now uuid p (bindSession (p.put userId (replaced (p.of userId) plan)) userId session plan.planId)
  | opened (userId title : String) (next : List ProgressStep) (session : Option String) : userId ≠ "" →
      session ≠ some "" →
        Made now uuid p
        (bindSession (openPlan p userId (opened title next now uuid)) userId session (newId uuid))

theorem newId_injective {a b : String} (h : newId a = newId b) : a = b := by
  have hlist := congrArg String.toList h
  rw [newId, newId, String.toList_append, String.toList_append, List.append_cancel_left_eq] at hlist
  exact String.toList_injective hlist

theorem newId_nonempty (uuid : String) : newId uuid ≠ "" := by
  intro h
  have hlist := congrArg String.toList h
  rw [newId, String.toList_append] at hlist
  have hlength := congrArg List.length hlist
  rw [List.length_append] at hlength
  simp at hlength

theorem trim_nonempty {s : String} (h : ¬ blank s = true) : trim s ≠ "" := by
  intro hempty
  have hlist := congrArg String.toList hempty
  rw [trim, String.toList_ofList, String.toList_empty, List.rdropWhile_eq_nil_iff] at hlist
  apply h
  rw [blank, List.all_eq_true]
  by_contra hsome
  simp only [not_forall] at hsome
  obtain ⟨c, hc, hspace⟩ := hsome
  have hne : s.toList.dropWhile isSpace ≠ [] := by
    rw [Ne, List.dropWhile_eq_nil_iff]
    exact fun hall => hspace (hall c hc)
  have hhead := List.head_dropWhile_not isSpace hne
  rw [hlist _ (List.head_mem hne)] at hhead
  cases hhead

theorem progressSession_nonempty (body : Json) : progressSession body ≠ some "" := by
  unfold progressSession
  split
  · split
    · split
      · split
        · rename_i value _
          split_ifs with hvalue
          · exact fun h => trim_nonempty hvalue.1 (Option.some.inj h)
          · simp
        · simp
      · simp
    · simp
  · simp

theorem handleProgress_made (p : Plans) (body id : Json) (args : List (String × Json))
    {userId : String} (huser : userId ≠ "") (now : ℕ) (uuid : String) :
    Made now uuid p (handleProgress p body id args userId now uuid).1 := by
  unfold handleProgress
  split
  · split_ifs
    · exact .nothing
    · split
      · exact .nothing
      · rename_i current hcurrent
        exact .changed userId current { current with shownAt := some now } _
          (List.mem_of_find?_eq_some hcurrent)
          (progressSession_nonempty body) (.inl rfl)
  · split
    · exact .nothing
    · exact .opened userId _ _ _ huser (progressSession_nonempty body)

theorem handleUpdate_made (p : Plans) (id : Json) (args : List (String × Json)) (userId : String)
    (now : ℕ) (uuid : String) :
    Made now uuid p (handleUpdate p id args userId now).1 := by
  unfold handleUpdate
  split
  · exact .nothing
  · split
    · exact .nothing
    · rename_i input _ _ current hcurrent
      exact .changed userId current (changed current input.title input.steps now) none
        (List.mem_of_find?_eq_some hcurrent)
        (by simp) (.inr ⟨_, rfl⟩)

theorem handle_made (p : Plans) (body : Json) (userId : Option String) (now : ℕ) (uuid : String) :
    Made now uuid p (handle p body userId now uuid).1 := by
  unfold handle
  split
  · split
    · split_ifs
      · exact .nothing
      · split
        · exact .nothing
        · rename_i user huser
          have hnonempty : user ≠ "" := by simpa using (Option.filter_eq_some_iff.mp huser).2
          simp only [handleTool]
          split_ifs
          · exact .nothing
          · exact .nothing
          · exact handleProgress_made p _ _ _ hnonempty now uuid
          · exact handleUpdate_made p _ _ user now uuid
    · exact .nothing
  · exact .nothing

theorem openForUpdate_made (p : Plans) (body : Json) (userId : Option String) (now : ℕ) (uuid : String) :
    Made now uuid p (openForUpdate p body userId now uuid).1 := by
  unfold openForUpdate
  split
  · rename_i user _ huser
    have hnonempty : user ≠ "" := by simpa using (Option.filter_eq_some_iff.mp huser).2
    split
    · split_ifs
      · exact .nothing
      · exact .opened user _ _ _ hnonempty (progressSession_nonempty _)
    · exact .nothing
  · exact .nothing

theorem applyUpdate_made (p : Plans) (update : ProgressUpdate) (ownerUserId : Option String)
    (now : ℕ) (uuid : String) :
    Made now uuid p (applyUpdate p update ownerUserId now).1 := by
  unfold applyUpdate
  split
  · exact .nothing
  · rename_i userId _
    split_ifs
    · exact .nothing
    · split
      · exact .nothing
      · rename_i current hcurrent
        exact .changed userId current (changed current update.title update.steps now) none
          (List.mem_of_find?_eq_some hcurrent) (by simp) (.inr ⟨_, rfl⟩)

theorem step_made (p : Plans) (t : Turn) : Made t.now t.uuid p (step p t) := by
  unfold step
  split
  · exact handle_made ..
  · exact openForUpdate_made ..
  · exact .cards _
  · exact applyUpdate_made ..

theorem bind_calls (p : Plans) (userId : String) (session : Option String) (planId : String) :
    p.calls <+: (bindSession p userId session planId).calls ∧
      allOpened (bindSession p userId session planId).calls = allOpened p.calls := by
  cases session with
  | none => exact ⟨List.prefix_refl _, rfl⟩
  | some session => exact ⟨List.prefix_append _ _, allOpened_bound _ _ _ _⟩

/-- The calls go on, and at most the plan with the new id is opened. -/
theorem made_calls {now : ℕ} {uuid : String} {p p' : Plans} (h : Made now uuid p p') :
    p.calls <+: p'.calls ∧
    (allOpened p'.calls = allOpened p.calls ∨ allOpened p'.calls = allOpened p.calls ++ [newId uuid]) := by
  cases h with
  | nothing => exact ⟨List.prefix_refl _, .inl rfl⟩
  | cards => exact ⟨List.prefix_refl _, .inl rfl⟩
  | changed userId current plan session =>
    obtain ⟨hcalls, hopened⟩ :=
      bind_calls (p.put userId (replaced (p.of userId) plan)) userId session plan.planId
    exact ⟨hcalls, .inl hopened⟩
  | opened userId title next session =>
    obtain ⟨hcalls, hopened⟩ :=
      bind_calls (openPlan p userId (opened title next now uuid)) userId session (newId uuid)
    refine ⟨(List.prefix_append _ _).trans hcalls, .inr ?_⟩
    rw [hopened]
    exact allOpened_snoc _ _ _

theorem kept_made {now : ℕ} {uuid : String} {p p' : Plans} (h : Kept now p) (hmade : Made now uuid p p')
    (hfresh : newId uuid ∉ allOpened p.calls) (hfirst : OldestFirst p'.calls) : Kept now p' := by
  cases hmade with
  | nothing => exact h
  | cards cards => exact ⟨h.newest, h.owners, h.users, h.sessions, h.timely, h.distinct, h.ids, h.names⟩
  | changed userId current plan session hcurrent hsession hsteps =>
    have hbefore := h.timely userId current hcurrent
    refine kept_bind (kept_put h userId ?_) userId hsession plan.planId hfirst
    rcases hsteps with hsame | ⟨next, hnext⟩
    · rw [hsame]
      exact hbefore
    · rw [hnext]
      exact timed_timely hbefore next
  | opened userId title next session huser hsession =>
    refine kept_bind (kept_open h huser hfresh (newId_nonempty uuid) ?_) userId hsession (newId uuid) hfirst
    exact timed_timely (by simp) next

theorem run_snoc (turns : List Turn) (t : Turn) : run (turns ++ [t]) = step (run turns) t := by simp [run]

theorem run_ids (turns : List Turn) : ∀ id ∈ allOpened (run turns).calls, ∃ t ∈ turns, id = newId t.uuid := by
  induction turns using List.reverseRecOn with
  | nil =>
    intro id hid
    cases hid
  | append_singleton turns t ih =>
    intro id hid
    rw [run_snoc] at hid
    have hbefore : id ∈ allOpened (run turns).calls ∨ id = newId t.uuid := by
      rcases (made_calls (step_made (run turns) t)).2 with hsame | hnew
      · exact .inl (hsame ▸ hid)
      · rw [hnew] at hid
        simpa using hid
    rcases hbefore with hid | rfl
    · obtain ⟨t', ht', rfl⟩ := ih id hid
      exact ⟨t', List.mem_append_left _ ht', rfl⟩
    · exact ⟨t, by simp, rfl⟩

/-- The turns of a run: the ids are fresh and the clock does not go back. -/
structure Orderly (turns : List Turn) : Prop where
  fresh : (turns.map Turn.uuid).Nodup
  clock : (turns.map Turn.now).Pairwise (· ≤ ·)

theorem run_kept {turns : List Turn} (h : Orderly turns) (hfirst : OldestFirst (run turns).calls) {now : ℕ}
    (hnow : ∀ t ∈ turns, t.now ≤ now) : Kept now (run turns) := by
  induction turns using List.reverseRecOn generalizing now with
  | nil => exact kept_empty now
  | append_singleton turns t ih =>
    rw [run_snoc] at hfirst ⊢
    have hmade := step_made (run turns) t
    obtain ⟨more, hmore⟩ := (made_calls hmade).1
    have hbefore : OldestFirst (run turns).calls := oldestFirst_before (hmore.symm ▸ hfirst)
    obtain ⟨hfresh, hclock⟩ := h
    rw [List.map_append, List.pairwise_append] at hclock
    rw [List.map_append, List.nodup_append] at hfresh
    have hkept : Kept t.now (run turns) := by
      refine ih ⟨hfresh.1, hclock.1⟩ hbefore ?_
      intro t' ht'
      exact hclock.2.2 _ (List.mem_map_of_mem ht') _ (by simp)
    refine kept_later (hnow t (by simp)) (kept_made hkept hmade ?_ hfirst)
    intro hid
    obtain ⟨t', ht', hsame⟩ := run_ids turns _ hid
    exact hfresh.2.2 _ (List.mem_map_of_mem ht') _ (by simp) (newId_injective hsame).symm

end Runs

end AccessStack.Edge.Progress
