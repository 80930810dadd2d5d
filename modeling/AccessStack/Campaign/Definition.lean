import AccessStack.Campaign.Ledger

/-!
# Normal forms of campaign definitions

What `normalize` accepts and returns, and that it returns a normal form
unchanged: the actions and dependencies of a normal form are sorted, and the
walk that refuses cycles does not depend on their order.
-/

set_option autoImplicit false

namespace AccessStack.Campaign
open AccessStack.Text AccessStack.Rows AccessStack.JsonText

@[simp] theorem ensure_ok {ok : Bool} {message : String} {u : Unit} :
    ensure ok message = .ok u ↔ ok = true := by
  cases ok <;> simp [ensure]

theorem ensure_bind {α : Type} {ok : Bool} {message : String} {x : Except String α}
    (h : ok = true) : (ensure ok message >>= fun _ => x) = x := by
  rw [h]
  rfl

@[simp] theorem strings_map (values : List String) : strings (values.map .str) = some values := by
  induction values with
  | nil => rfl
  | cons v values ih => simp [strings, ih]

theorem sorted_perm (values : List String) : (sorted values).Perm values :=
  List.perm_insertionSort _ values

theorem sorted_sorted (values : List String) : sorted (sorted values) = sorted values :=
  List.Pairwise.insertionSort_eq (List.pairwise_insertionSort (· ≤ ·) values)

/-- The checks the first loop makes of one task, its name apart. -/
structure StepOk (permissions : List String) (t : CampaignStep) : Prop where
  id : taskIdPattern t.id = true
  action : t.action ∈ campaignActions
  authorized : t.action ∈ permissions
  target : boundValuePattern t.targetResource = true ∧ includesDots t.targetResource = false
  expected : boundValuePattern t.expectedState = true ∧ includesDots t.expectedState = false
  digest : exactly isHexLower 64 t.argumentsDigest = true
  dependencies : t.dependsOn.length ≤ 64

/-- The object has the fields of the step, whatever else it has. -/
structure Reads (fields : List (String × Json)) (t : CampaignStep) : Prop where
  id : textField fields "id" = some t.id
  action : textField fields "action" = some t.action
  dependsOn : arrayField fields "dependsOn" = some (t.dependsOn.map .str)
  target : textField fields "targetResource" = some t.targetResource
  expected : textField fields "expectedState" = some t.expectedState
  digest : textField fields "argumentsDigest" = some t.argumentsDigest

theorem strings_length {items : List Json} {values : List String} (h : strings items = some values) :
    values.length = items.length := by
  induction items generalizing values with
  | nil => simp [strings] at h; simp [← h]
  | cons v items ih =>
    cases v with
    | str s =>
      simp only [strings, Option.map_eq_some_iff] at h
      obtain ⟨rest, hr, rfl⟩ := h
      simp [ih hr]
    | _ => simp [strings] at h

theorem readStep_ok {permissions ids : List String} {task : Json} {t : CampaignStep}
    (h : readStep permissions ids task = .ok t) : StepOk permissions t ∧ t.id ∉ ids := by
  simp only [readStep, bind_ok, ensure_ok, Bool.and_eq_true, Bool.not_eq_true', pure, Except.pure,
    Except.ok.injEq, Option.any_eq_true, Option.isSome_iff_exists, decide_eq_true_eq] at h
  obtain ⟨_, ⟨hid, hnew⟩, _, ⟨ha, hp⟩, _, htarget, _, hexpected, _, hdigest, _, ⟨deps, hdeps, hlen⟩, _,
    ⟨values, hvalues⟩, rfl⟩ := h
  refine ⟨⟨hid, by simpa using ha, by simpa using hp, htarget, hexpected, hdigest, ?_⟩, by simpa using hnew⟩
  simp only [hdeps, Option.bind_some] at hvalues
  simp only [hdeps, Option.bind_some, hvalues, Option.getD_some]
  rw [strings_length hvalues]
  exact hlen

theorem readStep_reads {permissions ids : List String} {fields : List (String × Json)}
    {t : CampaignStep} (hr : Reads fields t) (h : StepOk permissions t) (hnew : t.id ∉ ids) :
    readStep permissions ids (.obj fields) = .ok t := by
  simp only [readStep, hr.id, hr.action, hr.dependsOn, hr.target, hr.expected, hr.digest,
    Option.getD_some, Option.any_some, Option.bind_some, strings_map, Option.isSome_some]
  rw [ensure_bind (by simp [h.id, hnew]), ensure_bind (by simp [h.action, h.authorized]),
    ensure_bind (by simp [h.target]), ensure_bind (by simp [h.expected]),
    ensure_bind (by simp [h.digest]), ensure_bind (by simp [h.dependencies]), ensure_bind rfl]
  rfl

theorem readSteps_ok {permissions ids : List String} {items : List Json} {steps : List CampaignStep}
    (h : readSteps permissions ids items = .ok steps) (hn : ids.Nodup) :
    (ids ++ steps.map (·.id)).Nodup ∧ (∀ t ∈ steps, StepOk permissions t) ∧
      steps.length = items.length := by
  induction items generalizing ids steps with
  | nil =>
    simp only [readSteps, Except.ok.injEq] at h
    subst h
    simpa using hn
  | cons task items ih =>
    simp only [readSteps, bind_ok, pure, Except.pure, Except.ok.injEq] at h
    obtain ⟨t, ht, rest, hrest, rfl⟩ := h
    obtain ⟨hok, hnew⟩ := readStep_ok ht
    have hn' : (ids ++ [t.id]).Nodup := by
      rw [List.nodup_append]
      refine ⟨hn, by simp, ?_⟩
      intro a ha b hb
      rw [List.mem_singleton.mp hb]
      exact fun he => hnew (he ▸ ha)
    obtain ⟨hnodup, hsteps, hlen⟩ := ih hrest hn'
    refine ⟨by simpa using hnodup, ?_, by simp [hlen]⟩
    intro u hu
    rcases List.mem_cons.mp hu with rfl | hu
    · exact hok
    · exact hsteps u hu

/-- The objects carry the fields of the steps. -/
inductive ReadsAll : List Json → List CampaignStep → Prop
  | nil : ReadsAll [] []
  | cons {fields : List (String × Json)} {t : CampaignStep} {items : List Json}
    {steps : List CampaignStep} (h : Reads fields t) (hs : ReadsAll items steps) :
    ReadsAll (.obj fields :: items) (t::steps)

theorem ReadsAll.length {items : List Json} {steps : List CampaignStep} (h : ReadsAll items steps) :
    items.length = steps.length := by
  induction h with
  | nil => rfl
  | cons _ _ ih => simp [ih]

theorem readSteps_reads {permissions ids : List String} {items : List Json}
    {steps : List CampaignStep} (hr : ReadsAll items steps)
    (hok : ∀ t ∈ steps, StepOk permissions t) (hn : (ids ++ steps.map (·.id)).Nodup) :
    readSteps permissions ids items = .ok steps := by
  induction hr generalizing ids with
  | nil => rfl
  | @cons fields t items steps h _ ih =>
    have hn' : ((ids ++ [t.id]) ++ steps.map (·.id)).Nodup := by simpa using hn
    have hnew : t.id ∉ ids := by
      intro hm
      have := (List.nodup_append.mp (List.nodup_append.mp hn').1).2.2 t.id hm t.id (by simp)
      exact this rfl
    have hrest := ih (fun u hu => hok u (List.mem_cons_of_mem t hu)) hn'
    simp only [readSteps, readStep_reads h (hok t List.mem_cons_self) hnew, bind, Except.bind, hrest]
    rfl

section Graph

/-- The dependencies of the tasks: no name twice, no missing or own name. -/
def Linked (tasks : List CampaignStep) : Prop :=
  ∀ t ∈ tasks, t.dependsOn.Nodup ∧ ∀ dep ∈ t.dependsOn, dep ∈ tasks.map (·.id) ∧ dep ≠ t.id

theorem forM_unit {α : Type} {xs : List α} {f : α → Except String Unit} :
    xs.forM f = .ok () ↔ ∀ x ∈ xs, f x = .ok () := by
  induction xs with
  | nil => simp [List.forM, pure, Except.pure]
  | cons x xs ih =>
    show (f x >>= fun _ => xs.forM f) = .ok () ↔ _
    simp only [bind_ok, ih, List.mem_cons, forall_eq_or_imp]
    constructor
    · rintro ⟨_, hx, hxs⟩
      exact ⟨hx, hxs⟩
    · rintro ⟨hx, hxs⟩
      exact ⟨(), hx, hxs⟩

theorem checkDependencies_ok {tasks : List CampaignStep} :
    checkDependencies tasks = .ok () ↔ Linked tasks := by
  simp only [checkDependencies, forM_unit, bind_ok, ensure_ok, Linked, Bool.and_eq_true,
    decide_eq_true_eq, List.contains_iff_mem, bne_iff_ne, exists_and_left, exists_const]

def Acyclic (tasks : List CampaignStep) : Prop :=
  ∃ rank : String → ℕ, ∀ t ∈ tasks, ∀ dep ∈ t.dependsOn, rank dep < rank t.id

theorem visitTasks_ok {tasks : List CampaignStep} (hn : (tasks.map (·.id)).Nodup)
    (hl : Linked tasks) : (∃ done, visitTasks tasks = .ok done) ↔ Acyclic tasks := by
  have hfind : ∀ t ∈ tasks, tasks.find? (·.id == t.id) = some t := by
    intro t ht
    exact find_of_mem hn ht (by simp) (by simp)
  constructor
  · rintro ⟨done, h⟩
    obtain ⟨rank, hr⟩ := Walk.visitAll_ranks h
    refine ⟨rank, fun t ht => ?_⟩
    obtain ⟨children, hc, hlt⟩ := hr t.id (List.mem_map_of_mem ht)
    rw [hfind t ht] at hc
    obtain rfl : t.dependsOn = children := by simpa using hc
    exact hlt
  · rintro ⟨rank, hr⟩
    apply Walk.visitAll_succeeds rank ?_ (by simp)
    intro a ha
    obtain ⟨t, ht, rfl⟩ := List.mem_map.mp ha
    exact ⟨t.dependsOn, by simp [hfind t ht], fun dep hd => ⟨((hl t ht).2 dep hd).1, hr t ht dep hd⟩⟩

def sortedStep (t : CampaignStep) : CampaignStep := { t with dependsOn := sorted t.dependsOn }

theorem linked_sorted {tasks : List CampaignStep} (h : Linked tasks) :
    Linked (tasks.map sortedStep) := by
  have hids : (tasks.map sortedStep).map (·.id) = tasks.map (·.id) := by simp [sortedStep]
  intro t ht
  obtain ⟨u, hu, rfl⟩ := List.mem_map.mp ht
  obtain ⟨hn, hd⟩ := h u hu
  rw [hids]
  refine ⟨(sorted_perm u.dependsOn).nodup_iff.mpr hn, fun dep hdep => ?_⟩
  exact hd dep ((sorted_perm u.dependsOn).mem_iff.mp hdep)

theorem acyclic_sorted {tasks : List CampaignStep} (h : Acyclic tasks) :
    Acyclic (tasks.map sortedStep) := by
  obtain ⟨rank, hr⟩ := h
  refine ⟨rank, fun t ht dep hdep => ?_⟩
  obtain ⟨u, hu, rfl⟩ := List.mem_map.mp ht
  exact hr u hu dep ((sorted_perm u.dependsOn).mem_iff.mp hdep)

theorem stepOk_sorted {permissions : List String} {t : CampaignStep} (h : StepOk permissions t) :
    StepOk (sorted permissions) (sortedStep t) where
  id := h.id
  action := h.action
  authorized := (sorted_perm permissions).mem_iff.mpr h.authorized
  target := h.target
  expected := h.expected
  digest := h.digest
  dependencies := (sorted_perm t.dependsOn).length_eq.trans_le h.dependencies

end Graph

section Normal

/-- What a value returned by `normalize` satisfies. -/
structure Normalized (h : Host) (n : DelegatedCampaignInput) : Prop where
  campaignId : isVersionedUuid n.campaignId = true
  workspaceId : workspaceIdPattern n.workspaceId = true
  objective : 0 < utf16Length n.objective ∧ utf16Length n.objective ≤ 4000
  redacted : h.redactSensitiveText n.objective = n.objective
  actionCount : 0 < n.authorizedActions.length ∧ n.authorizedActions.length ≤ campaignActions.length
  taskCount : 0 < n.tasks.length ∧ n.tasks.length ≤ 64
  actions : n.authorizedActions.Nodup ∧ ∀ a ∈ n.authorizedActions, a ∈ campaignActions
  actionsSorted : sorted n.authorizedActions = n.authorizedActions
  steps : ∀ t ∈ n.tasks, StepOk n.authorizedActions t
  ids : (n.tasks.map (·.id)).Nodup
  linked : Linked n.tasks
  acyclic : Acyclic n.tasks
  stepsSorted : n.tasks.map sortedStep = n.tasks

theorem normalize_ok {h : Host} {input : List (String × Json)} {n : DelegatedCampaignInput}
    (hok : normalize h input = .ok n) :
    Normalized h n ∧ n.campaignId = (textField input "campaignId").getD "" ∧
      n.workspaceId = (textField input "workspaceId").getD "" := by
  simp only [normalize, bind_ok, ensure_ok, pure, Except.pure, Except.ok.injEq, Bool.and_eq_true,
    Option.any_eq_true, decide_eq_true_eq, beq_iff_eq, List.all_eq_true] at hok
  obtain ⟨_, hid, _, hws, _, hobj, _, hred, _, ⟨actions, ha, halen⟩, _, ⟨items, hi, hilen⟩, _,
    ⟨permissions, hp, hnodup, hall⟩, steps, hsteps, _, hdeps, done, hvisit, rfl⟩ := hok
  rw [ha, Option.bind_some] at hp
  simp only [ha, hi, hp, Option.bind_some, Option.getD_some] at hsteps ⊢
  obtain ⟨hids, hstepsOk, hlen⟩ := readSteps_ok hsteps .nil
  have hids' : (steps.map (·.id)).Nodup := by simpa using hids
  have hlinked := checkDependencies_ok.mp hdeps
  have hmap : steps.map (fun t => { t with dependsOn := sorted t.dependsOn }) =
      steps.map sortedStep := rfl
  refine ⟨⟨hid, hws, by rwa [hred], by rw [hred, hred], ?_, ?_, ?_, sorted_sorted permissions, ?_, ?_,
    linked_sorted hlinked, acyclic_sorted ((visitTasks_ok hids' hlinked).mp ⟨done, hvisit⟩), ?_⟩,
    trivial, trivial⟩
  · rw [(sorted_perm permissions).length_eq, strings_length hp]
    exact halen
  · rw [List.length_map, hlen]
    exact hilen
  · refine ⟨(sorted_perm permissions).nodup_iff.mpr hnodup, fun a hm => ?_⟩
    simpa using hall a ((sorted_perm permissions).mem_iff.mp hm)
  · intro t ht
    rw [hmap] at ht
    obtain ⟨u, hu, rfl⟩ := List.mem_map.mp ht
    exact stepOk_sorted (hstepsOk u hu)
  · simpa [List.map_map, Function.comp_def] using hids'
  · simp [sortedStep, sorted_sorted]

/-- A normal form is read back as it is, from whatever objects carry its
steps. -/
theorem normalize_fixed {h : Host} {n : DelegatedCampaignInput} (hn : Normalized h n)
    {input : List (String × Json)} {items : List Json}
    (hid : textField input "campaignId" = some n.campaignId)
    (hws : textField input "workspaceId" = some n.workspaceId)
    (hobj : textField input "objective" = some n.objective)
    (hact : arrayField input "authorizedActions" = some (n.authorizedActions.map .str))
    (htasks : arrayField input "tasks" = some items) (hr : ReadsAll items n.tasks) :
    normalize h input = .ok n := by
  have hsteps : readSteps n.authorizedActions [] items = .ok n.tasks :=
    readSteps_reads hr hn.steps (by simpa using hn.ids)
  obtain ⟨done, hvisit⟩ := (visitTasks_ok hn.ids hn.linked).mpr hn.acyclic
  simp only [normalize, hid, hws, hobj, hact, htasks, Option.getD_some, Option.any_some,
    Option.bind_some, strings_map, List.length_map]
  rw [ensure_bind hn.campaignId, ensure_bind hn.workspaceId, ensure_bind (by simp [hn.objective]),
    ensure_bind (by simp [hn.redacted]), ensure_bind (by simp [hn.actionCount]),
    ensure_bind (by simp [hr.length, hn.taskCount]), ensure_bind (by simpa using hn.actions)]
  simp only [hsteps, checkDependencies_ok.mpr hn.linked, hvisit, bind, Except.bind, pure,
    Except.pure, hn.redacted, hn.actionsSorted, Except.ok.injEq]
  exact congrArg (fun tasks => { n with tasks := tasks }) hn.stepsSorted

end Normal

end AccessStack.Campaign
