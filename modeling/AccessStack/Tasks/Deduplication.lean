import AccessStack.Tasks.Starts

/-!
# No command runs twice

At most one task of a key is active, or may become so when its writes are
done. A start waits for the queue of every task, so it does not miss a record
that is written behind a terminal one when the task before it begins. The pid
of a cancelled task is the write that it can miss.
-/

set_option autoImplicit false

namespace AccessStack.Tasks.Starts
open AccessStack.Runs

section Invariant

/-- The task may be active, now or when its writes are done. -/
def Holds (s : Service) (i : ℕ) (t : Task) : Prop :=
  Alive (tape t.manager) ∨ ∃ key, s.turn = some (.creating key i)

def Unique (s : Service) : Prop :=
  ∀ (i j : ℕ) (t u : Task), s.tasks[i]? = some t → s.tasks[j]? = some u → t.key = u.key →
    Holds s i t → Holds s j u → i = j

/-- What the start in turn has found out. -/
def Ready (tasks : List Task) : Option Turn → Prop
  | some (.listing _) => ∀ t ∈ tasks, Sorted t.rest
  | some (.refreshing key none) => ∀ t ∈ tasks, t.key = key → Dead t.rest
  | some (.pruning key _) => ∀ t ∈ tasks, t.key = key → ¬ Alive (tape t.manager)
  | _ => True

structure Inv (s : Service) : Prop where
  resulting : ∀ t ∈ s.tasks, Resulting t.manager
  waits : ∀ t ∈ s.tasks, Waits t
  unique : Unique s
  ready : Ready s.tasks s.turn

variable {s s' : Service}

/-- Each task comes from one that was there before and could be active. -/
theorem inv_of (h : Inv s)
    (hat : ∀ (j : ℕ) (t' : Task), s'.tasks[j]? = some t' → ∃ t, s.tasks[j]? = some t ∧ t'.key = t.key ∧
      Resulting t'.manager ∧ Waits t' ∧ (Holds s' j t' → Holds s j t))
    (hready : Ready s'.tasks s'.turn) : Inv s' where
  resulting t' ht' := by
    obtain ⟨j, hj⟩ := List.mem_iff_getElem?.mp ht'
    obtain ⟨_, _, _, hresulting, _, _⟩ := hat j t' hj
    exact hresulting
  waits t' ht' := by
    obtain ⟨j, hj⟩ := List.mem_iff_getElem?.mp ht'
    obtain ⟨_, _, _, _, hwaits, _⟩ := hat j t' hj
    exact hwaits
  unique i j t' u' ht' hu' hkey hi hj := by
    obtain ⟨t, ht, htkey, _, _, hold⟩ := hat i t' ht'
    obtain ⟨u, hu, hukey, _, _, hold'⟩ := hat j u' hu'
    exact h.unique i j t u ht hu (htkey.symm.trans (hkey.trans hukey)) (hold hi) (hold' hj)
  ready := hready

/-- Where no start is creating a task, only tapes count. -/
theorem holds_alive {i : ℕ} {t : Task} (hturn : ∀ key id, s.turn ≠ some (.creating key id))
    (h : Holds s i t) :
    Alive (tape t.manager) := by
  rcases h with halive | ⟨key, hcreating⟩
  · exact halive
  · exact absurd hcreating (hturn key i)

theorem inv_initial (found : Found) : Inv (Service.initial found) := by
  have hmem : ∀ t ∈ (Service.initial found).tasks, ∃ f ∈ found.tasks,
      ⟨f.key, f.createdAt, Manager.initial (some f.record), 0⟩ = t := fun t ht => List.mem_map.mp ht
  constructor
  · intro t ht
    obtain ⟨f, _, rfl⟩ := hmem t ht
    intro hexecute
    cases hexecute
  · intro t ht
    obtain ⟨f, _, rfl⟩ := hmem t ht
    simp [Waits, tape, Manager.initial]
  · intro i j t u ht hu hkey hi hj
    simp only [Service.initial, List.getElem?_map, Option.map_eq_some_iff] at ht hu
    obtain ⟨f, hf, rfl⟩ := ht
    obtain ⟨g, hg, rfl⟩ := hu
    have hactive (f : FoundTask) (h : Alive (tape (Manager.initial (some f.record)))) :
        isActive f.record.state = true := by
      obtain ⟨r, hr, hactive⟩ := h
      simp only [tape, Manager.initial, List.map_nil, List.mem_singleton] at hr
      rw [hr] at hactive
      exact hactive
    have hturn : ∀ key id, (Service.initial found).turn ≠ some (.creating key id) := by
      intro key id hcreating
      cases hcreating
    exact found.distinct i j f g hf hg hkey (hactive f (holds_alive hturn hi))
      (hactive g (holds_alive hturn hj))
  · trivial

theorem ready_moves {tasks tasks' : List Task} {turn : Option Turn} (h : Ready tasks turn)
    (hwaits : ∀ t ∈ tasks, Waits t) (hmoves : ∀ t' ∈ tasks', ∃ t ∈ tasks, Moves t t') :
    Ready tasks' turn := by
  unfold Ready at *
  split
  · intro t' ht'
    obtain ⟨t, ht, hmove⟩ := hmoves t' ht'
    exact hmove.sorted (hwaits t ht) (h t ht)
  · intro t' ht' hkey
    obtain ⟨t, ht, hmove⟩ := hmoves t' ht'
    exact hmove.dead (hwaits t ht) (h t ht (hmove.key ▸ hkey))
  · intro t' ht' hkey halive
    obtain ⟨t, ht, hmove⟩ := hmoves t' ht'
    exact h t ht (hmove.key ▸ hkey) (hmove.alive halive)
  · trivial

theorem modify_some {tasks : List Task} {id j : ℕ} {f : Task → Task} {t' : Task}
    (h : (tasks.modify id f)[j]? = some t') :
    ∃ t, tasks[j]? = some t ∧ (id = j ∧ t' = f t ∨ id ≠ j ∧ t' = t) := by
  rw [List.getElem?_modify] at h
  cases ht : tasks[j]? with
  | none =>
    rw [ht] at h
    cases h
  | some t =>
    rw [ht] at h
    refine ⟨t, rfl, ?_⟩
    by_cases hid : id = j
    · simp only [hid, if_true, Option.map_eq_map, Option.map_some, Option.some.injEq] at h
      exact .inl ⟨hid, h.symm⟩
    · simp only [hid, if_false, Option.map_eq_map, Option.map_some, Option.some.injEq] at h
      exact .inr ⟨hid, h.symm⟩

theorem inv_task (h : Inv s) (id : ℕ) (e : Tasks.Event) (htimely : Timely s (.task id e)) :
    Inv (step s (.task id e)) := by
  have hat : ∀ (j : ℕ) (t' : Task), (s.tasks.modify id (·.step e))[j]? = some t' →
      ∃ t, s.tasks[j]? = some t ∧ Moves t t' ∧ Resulting t'.manager := by
    intro j t' ht'
    obtain ⟨t, ht, hcase⟩ := modify_some ht'
    have hmem : t ∈ s.tasks := List.mem_of_getElem? ht
    refine ⟨t, ht, ?_⟩
    rcases hcase with ⟨rfl, rfl⟩ | ⟨_, rfl⟩
    · refine ⟨task_moves (h.waits t hmem) (h.resulting t hmem) ?_, resulting_task (h.resulting t hmem) e⟩
      rintro pid rfl
      simpa [Timely, ht] using htimely
    · exact ⟨.same rfl rfl rfl, h.resulting t' hmem⟩
  apply inv_of h
  · intro j t' ht'
    obtain ⟨t, ht, hmove, hresulting⟩ := hat j t' ht'
    have hwaits := hmove.waits (h.waits t (List.mem_of_getElem? ht))
    exact ⟨t, ht, hmove.key, hresulting, hwaits, Or.imp hmove.alive fun hcreating => hcreating⟩
  · apply ready_moves h.ready h.waits
    intro t' ht'
    obtain ⟨j, hj⟩ := List.mem_iff_getElem?.mp ht'
    obtain ⟨t, ht, hmove, _⟩ := hat j t' hj
    exact ⟨t, List.mem_of_getElem? ht, hmove⟩

attribute [local simp] step in
theorem inv_start (h : Inv s) (key : Key) : Inv (step s (.start key)) := by
  simp only [step]
  split
  · apply inv_of h
    · intro j t' ht'
      simp only [List.getElem?_map, Option.map_eq_some_iff] at ht'
      obtain ⟨t, ht, rfl⟩ := ht'
      have hresulting := h.resulting t (List.mem_of_getElem? ht)
      exact ⟨t, ht, rfl, hresulting, by simp [Waits, tape], fun hholds => .inl (holds_alive (by simp) hholds)⟩
    · intro t' ht'
      obtain ⟨t, ht, rfl⟩ := List.mem_map.mp ht'
      have hlength : ((tape t.manager).drop t.manager.queue.length).length = 1 := by simp [tape]
      obtain ⟨r, hr⟩ := List.length_eq_one_iff.mp hlength
      show Sorted ((tape t.manager).drop t.manager.queue.length)
      rw [hr]
      exact List.pairwise_singleton _ _
  · exact h

section Listing

variable {tasks : List Task} {key : Key} {alive : ℕ → Bool} {now : String} {t : Task}

theorem duplicate_some {i : ℕ} (h : duplicateOf tasks key alive = some i) :
    ∃ t, tasks[i]? = some t ∧ t.key = key ∧ t.listedActive alive = true := by
  simp only [duplicateOf, Option.map_eq_some_iff] at h
  obtain ⟨⟨t, j⟩, hfind, rfl⟩ := h
  have hmem := List.mem_of_find?_eq_some hfind
  have hcond := List.find?_some hfind
  rw [List.mem_insertionSort, List.mem_filter] at hmem
  obtain ⟨hmem, hlisted⟩ := hmem
  simp only [decide_eq_true_eq] at hlisted
  simp only [Bool.and_eq_true, decide_eq_true_eq] at hcond
  refine ⟨t, List.mem_zipIdx_iff_getElem?.mp hmem, ?_, hcond.2⟩
  cases hk : t.key
  cases key
  simp only [hk] at hlisted hcond
  rw [hlisted.1, hlisted.2, hcond.1]

theorem duplicate_none (h : duplicateOf tasks key alive = none) (ht : t ∈ tasks) (hkey : t.key = key) :
    t.listedActive alive = false := by
  simp only [duplicateOf, Option.map_eq_none_iff, List.find?_eq_none] at h
  obtain ⟨i, hi⟩ := List.mem_iff_getElem?.mp ht
  have hmem : (t, i) ∈ tasks.zipIdx := List.mem_zipIdx_iff_getElem?.mpr hi
  have hfalse := h (t, i) (by
    rw [List.mem_insertionSort, List.mem_filter]
    exact ⟨hmem, by simp [hkey]⟩)
  simpa [hkey] using hfalse

theorem refresh_key (t : Task) : (t.refresh alive now).key = t.key := by
  unfold Task.refresh
  split
  · rfl
  · split <;> rfl

/-- The refresh leaves a task as it is, or writes it off behind all its
records. -/
theorem refresh_cases (t : Task) : t.refresh alive now = t ∨
    ∃ record, t.manager.stored = some record ∧ recovers t.manager record (record.pid.any alive) = true ∧
      tape (t.refresh alive now).manager = tape t.manager ++ [some (interruptedRecord record now)] ∧
      (t.refresh alive now).awaited = (tape t.manager).length ∧
      (t.refresh alive now).manager.execute = t.manager.execute ∧
      (t.refresh alive now).manager.current = t.manager.current := by
  cases hstored : t.manager.stored with
  | none => left; simp [Task.refresh, hstored]
  | some record =>
    by_cases hrecovers : recovers t.manager record (record.pid.any alive) = true
    · right
      refine ⟨record, rfl, hrecovers, ?_, ?_, ?_, ?_⟩
      · simp only [Task.refresh, hstored, hrecovers, if_true]
        exact tape_persist _ _ _
      · simp [Task.refresh, hstored, hrecovers, Manager.persist, tape]
      · simp [Task.refresh, hstored, hrecovers, Manager.persist]
      · simp [Task.refresh, hstored, hrecovers, Manager.persist]
    · left
      simp [Task.refresh, hstored, hrecovers]

theorem refresh_resulting (h : Resulting t.manager) : Resulting (t.refresh alive now).manager := by
  rcases refresh_cases t with heq | ⟨record, _, _, _, _, hexecute, hcurrent⟩
  · rw [heq]
    exact h
  · intro hphase
    rw [hcurrent]
    exact h (hexecute ▸ hphase)

theorem refresh_waits (h : Waits t) : Waits (t.refresh alive now) := by
  rcases refresh_cases t with heq | ⟨record, _, _, htape, hawaited, _, _⟩
  · rw [heq]
    exact h
  · simp only [Waits, htape, hawaited, List.length_append, List.length_singleton]
    omega

theorem refresh_alive (h : Alive (tape (t.refresh alive now).manager)) : Alive (tape t.manager) := by
  rcases refresh_cases t with heq | ⟨record, _, _, htape, _, _, _⟩
  · exact heq ▸ h
  · obtain ⟨r, hr, hactive⟩ := h
    rw [htape] at hr
    rcases List.mem_append.mp hr with hr | hr
    · exact ⟨r, hr, hactive⟩
    · rw [List.mem_singleton.mp hr] at hactive
      cases hactive

/-- A task that is not listed as active is written off, or has only terminal
records. -/
theorem refresh_dead (hsorted : Sorted t.rest) (hawaited : t.awaited = 0)
    (hlisted : t.listedActive alive = false) : Dead (t.refresh alive now).rest := by
  rcases refresh_cases t with heq | ⟨record, hstored, hrecovers, htape, hlength, _, _⟩
  · rw [heq]
    simp only [Task.rest, hawaited, List.drop_zero, tape] at hsorted ⊢
    apply dead_sorted_head hsorted
    cases hstored : t.manager.stored with
    | none => rfl
    | some record =>
      have hrecovers : recovers t.manager record (record.pid.any alive) = false := by
        by_contra hrecovers
        rw [Bool.not_eq_false] at hrecovers
        have hchanged : (t.refresh alive now).awaited = (tape t.manager).length := by
          simp [Task.refresh, hstored, hrecovers, Manager.persist, tape]
        rw [heq, hawaited] at hchanged
        simp [tape] at hchanged
      simpa [Task.listedActive, hstored, hrecovers, active] using hlisted
  · intro r hr
    rw [Task.rest, htape, hlength, List.drop_left, List.mem_singleton] at hr
    rw [hr]
    rfl

theorem inv_look (h : Inv s) (hturn : s.turn = some (.listing key)) (hwritten : s.written) :
    Inv (look s key alive now) := by
  have hready : ∀ t ∈ s.tasks, Sorted t.rest := by
    have := h.ready
    rwa [hturn] at this
  have hcase (t : Task) {P : Task → Prop} (hsame : P t) (hfresh : P (t.refresh alive now)) :
      P (if t.key.ownerScopeHash = key.ownerScopeHash then t.refresh alive now else t) := by
    split
    · exact hfresh
    · exact hsame
  apply inv_of h
  · intro j t' ht'
    simp only [look, List.getElem?_map, Option.map_eq_some_iff] at ht'
    obtain ⟨t, ht, rfl⟩ := ht'
    have hmem : t ∈ s.tasks := List.mem_of_getElem? ht
    refine ⟨t, ht, hcase t (P := fun t' => t'.key = t.key) rfl (refresh_key t),
      hcase t (P := fun t' => Resulting t'.manager) (h.resulting t hmem)
        (refresh_resulting (h.resulting t hmem)),
      hcase t (h.waits t hmem) (refresh_waits (h.waits t hmem)), ?_⟩
    intro hholds
    have halive := holds_alive (by simp [look]) hholds
    left
    exact hcase t (P := fun t' => Alive (tape t'.manager) → Alive (tape t.manager)) id refresh_alive halive
  · simp only [look]
    cases hdup : duplicateOf s.tasks key alive with
    | some i => trivial
    | none =>
      intro t' ht' hkey
      obtain ⟨t, ht, rfl⟩ := List.mem_map.mp ht'
      split at hkey
      · rename_i howner
        rw [refresh_key] at hkey
        simp only [howner, if_true]
        exact refresh_dead (hready t ht) (hwritten t ht) (duplicate_none hdup ht hkey)
      · rename_i howner
        exact absurd (congrArg Key.ownerScopeHash hkey) howner

end Listing

/-- The turn goes on and the tasks stay. -/
theorem inv_turn {turn : Option Turn} {answers : List (Key × ℕ)} (h : Inv s)
    (hturn : ∀ key id, turn ≠ some (.creating key id)) (hready : Ready s.tasks turn) :
    Inv ⟨s.tasks, turn, answers⟩ := by
  apply inv_of h
  · intro j t ht
    have hmem : t ∈ s.tasks := List.mem_of_getElem? ht
    exact ⟨t, ht, rfl, h.resulting t hmem, h.waits t hmem, fun hholds => .inl (holds_alive hturn hholds)⟩
  · exact hready

theorem inv_listed (h : Inv s) : Inv (step s .listed) := by
  simp only [step]
  split
  · rename_i key hturn
    split
    · rename_i hwritten
      refine inv_turn h (by simp) ?_
      have hready : ∀ t ∈ s.tasks, t.key = key → Dead t.rest := by
        have := h.ready
        rwa [hturn] at this
      intro t ht hkey
      apply not_alive_dead
      have hdead := hready t ht hkey
      rwa [Task.rest, hwritten t ht, List.drop_zero] at hdead
    · exact h
  · split
    · exact inv_turn h (by simp) trivial
    · exact h
  · exact h

theorem inv_victim (h : Inv s) (id : ℕ) : Inv (step s (.victim id)) := by
  simp only [step]
  split
  · rename_i key hturn
    split
    · refine inv_turn h (by simp) ?_
      have := h.ready
      rwa [hturn] at this
    · exact h
  · exact h

theorem inv_fault (h : Inv s) : Inv (step s .fault) := by
  simp only [step]
  split
  · exact inv_turn h (by simp) trivial
  · exact h

theorem removed_alive {m : Manager} (h : Alive (tape { m with stored := none })) : Alive (tape m) := by
  obtain ⟨r, hr, hactive⟩ := h
  rcases List.mem_cons.mp hr with rfl | hr
  · cases hactive
  · exact ⟨r, List.mem_cons_of_mem _ hr, hactive⟩

theorem inv_remove (h : Inv s) : Inv (step s .remove) := by
  simp only [step]
  split
  · rename_i key id hturn
    have hat : ∀ (j : ℕ) (t' : Task),
        (s.tasks.modify id fun t => { t with manager := { t.manager with stored := none } })[j]? = some t' →
        ∃ t, s.tasks[j]? = some t ∧ t'.key = t.key ∧ Resulting t'.manager ∧ Waits t' ∧
          (Alive (tape t'.manager) → Alive (tape t.manager)) := by
      intro j t' ht'
      obtain ⟨t, ht, hcase⟩ := modify_some ht'
      have hmem : t ∈ s.tasks := List.mem_of_getElem? ht
      have hresulting := h.resulting t hmem
      have hwaits := h.waits t hmem
      rcases hcase with ⟨_, rfl⟩ | ⟨_, rfl⟩
      · exact ⟨t, ht, rfl, hresulting, hwaits, removed_alive⟩
      · exact ⟨t', ht, rfl, hresulting, hwaits, fun halive => halive⟩
    apply inv_of h
    · intro j t' ht'
      obtain ⟨t, ht, hkey, hresulting, hwaits, halive⟩ := hat j t' ht'
      exact ⟨t, ht, hkey, hresulting, hwaits, fun hholds => .inl (halive (holds_alive (by simp) hholds))⟩
    · intro t' ht' hkey hbad
      obtain ⟨j, hj⟩ := List.mem_iff_getElem?.mp ht'
      obtain ⟨t, ht, hsame, _, _, halive⟩ := hat j t' hj
      have hready : ∀ t ∈ s.tasks, t.key = key → ¬ Alive (tape t.manager) := by
        have := h.ready
        rwa [hturn] at this
      exact hready t (List.mem_of_getElem? ht) (hsame ▸ hkey) (halive hbad)
  · exact h

/-- The new task is the only one of its key. -/
theorem inv_create (h : Inv s) (createdAt : ℕ) : Inv (step s (.create createdAt)) := by
  simp only [step]
  split
  · rename_i key hturn
    have hready : ∀ t ∈ s.tasks, t.key = key → ¬ Alive (tape t.manager) := by
      have := h.ready
      rwa [hturn] at this
    have hmem : ∀ t ∈ s.tasks ++ [⟨key, createdAt, Tasks.step (Manager.initial none) .create, 0⟩],
        t ∈ s.tasks ∨ t = ⟨key, createdAt, Tasks.step (Manager.initial none) .create, 0⟩ := by
      intro t ht
      simpa using ht
    refine ⟨?_, ?_, ?_, trivial⟩
    · intro t ht
      rcases hmem t ht with ht | rfl
      · exact h.resulting t ht
      · intro hexecute
        cases hexecute
    · intro t ht
      rcases hmem t ht with ht | rfl
      · exact h.waits t ht
      · simp [Waits, tape, Tasks.step, Manager.initial, Manager.persist]
    · have hold : ∀ (i : ℕ) (t : Task),
          (s.tasks ++ [⟨key, createdAt, Tasks.step (Manager.initial none) .create, 0⟩])[i]? = some t →
          (Alive (tape t.manager) ∨
            ∃ key', some (Turn.creating key s.tasks.length) = some (Turn.creating key' i)) →
          s.tasks[i]? = some t ∧ Alive (tape t.manager) ∨ i = s.tasks.length ∧ t.key = key := by
        intro i t ht hholds
        rcases Nat.lt_or_ge i s.tasks.length with hlt | hge
        · left
          rw [List.getElem?_append_left hlt] at ht
          refine ⟨ht, ?_⟩
          rcases hholds with halive | ⟨key', hcreating⟩
          · exact halive
          · simp only [Option.some.injEq, Turn.creating.injEq] at hcreating
            omega
        · right
          have hlast : i = s.tasks.length := by
            have := (List.getElem?_eq_some_iff.mp ht).1
            simp at this
            omega
          subst hlast
          simp only [List.getElem?_append_right (Nat.le_refl _), Nat.sub_self, List.getElem?_cons_zero,
            Option.some.injEq] at ht
          exact ⟨rfl, ht ▸ rfl⟩
      intro i j t u ht hu hkey hi hj
      rcases hold i t ht hi with ⟨hti, halive⟩ | ⟨rfl, htkey⟩
      · rcases hold j u hu hj with ⟨huj, halive'⟩ | ⟨rfl, hukey⟩
        · exact h.unique i j t u hti huj hkey (.inl halive) (.inl halive')
        · exact absurd halive (hready t (List.mem_of_getElem? hti) (hkey.trans hukey))
      · rcases hold j u hu hj with ⟨huj, halive'⟩ | ⟨rfl, hukey⟩
        · exact absurd halive' (hready u (List.mem_of_getElem? huj) (hkey.symm.trans htkey))
        · rfl
  · exact h

theorem inv_begin (h : Inv s) (now : String) : Inv (step s (.begin now)) := by
  simp only [step]
  split
  · rename_i key id hturn
    split
    · apply inv_of h
      · intro j t' ht'
        obtain ⟨t, ht, hcase⟩ := modify_some ht'
        have hmem : t ∈ s.tasks := List.mem_of_getElem? ht
        have hresulting := h.resulting t hmem
        have hwaits := h.waits t hmem
        rcases hcase with ⟨rfl, rfl⟩ | ⟨_, rfl⟩
        · refine ⟨t, ht, rfl, resulting_step hresulting _, ?_, fun _ => .inr ⟨key, hturn⟩⟩
          unfold Waits at hwaits ⊢
          simp only [Tasks.step]
          split
          · simp only [tape, Manager.persist, List.map_append, List.length_cons,
              List.length_append] at hwaits ⊢
            omega
          · exact hwaits
        · exact ⟨t', ht, rfl, hresulting, hwaits, fun hholds => .inl (holds_alive (by simp) hholds)⟩
      · trivial
    · exact h
  · exact h

theorem inv_step (h : Inv s) (e : Event) (htimely : Timely s e) : Inv (step s e) := by
  cases e with
  | task id event => exact inv_task h id event htimely
  | start key => exact inv_start h key
  | look alive now =>
    simp only [step]
    split
    · rename_i key hturn
      split
      · rename_i hwritten
        exact inv_look h hturn hwritten
      · exact h
    · exact h
  | listed => exact inv_listed h
  | victim id => exact inv_victim h id
  | remove => exact inv_remove h
  | fault => exact inv_fault h
  | create createdAt => exact inv_create h createdAt
  | begin now => exact inv_begin h now

end Invariant

/-- No two tasks of one key are active, and a start that lists an active task
of its key returns that task and creates none. -/
def Deduplicated (s : Service) : Prop :=
  (∀ (i j : ℕ) (t u : Task), s.tasks[i]? = some t → s.tasks[j]? = some u → t.key = u.key →
    active t.manager.stored = true → active u.manager.stored = true → i = j) ∧
  (∀ (key : Key) (alive : ℕ → Bool) (now : String) (i : ℕ) (t : Task),
    s.turn = some (.listing key) → s.written → s.tasks[i]? = some t → t.key = key →
    t.listedActive alive = true →
    (step s (.look alive now)).turn = some (.refreshing key (some i)) ∧
      (step s (.look alive now)).tasks.length = s.tasks.length) ∧
  ∀ (key : Key) (i : ℕ), s.turn = some (.refreshing key (some i)) → s.written →
    step s .listed = { s with turn := none, answers := s.answers ++ [(key, i)] }

section Results

variable {s : Service}

theorem stored_alive {t : Task} (h : active t.manager.stored = true) : Alive (tape t.manager) :=
  ⟨t.manager.stored, List.mem_cons_self, h⟩

theorem listed_stored {t : Task} {alive : ℕ → Bool} (h : t.listedActive alive = true) :
    active t.manager.stored = true := by
  unfold Task.listedActive at h
  unfold active
  cases hstored : t.manager.stored with
  | none =>
    rw [hstored] at h
    cases h
  | some record =>
    simp only [hstored, Option.any_some, Bool.and_eq_true] at h
    exact h.1

theorem listed_duplicate (h : Inv s) {key : Key} {alive : ℕ → Bool} {i : ℕ} {t : Task}
    (ht : s.tasks[i]? = some t) (hkey : t.key = key) (hlisted : t.listedActive alive = true) :
    duplicateOf s.tasks key alive = some i := by
  cases hdup : duplicateOf s.tasks key alive with
  | none =>
    have hfalse := duplicate_none hdup (List.mem_of_getElem? ht) hkey
    rw [hlisted] at hfalse
    cases hfalse
  | some j =>
    obtain ⟨u, hu, hukey, hulisted⟩ := duplicate_some hdup
    have hi : Holds s i t := .inl (stored_alive (listed_stored hlisted))
    have hj : Holds s j u := .inl (stored_alive (listed_stored hulisted))
    rw [h.unique i j t u ht hu (hkey.trans hukey.symm) hi hj]

end Results

theorem starts_deduplicated (found : Found) (s : Service)
    (hrun : Reaches step Timely (Service.initial found) s) : Deduplicated s := by
  have hinv : Inv s := hrun.invariant (inv_initial found) fun s e hs he => inv_step hs e he
  refine ⟨?_, ?_, ?_⟩
  · intro i j t u ht hu hkey hi hj
    exact hinv.unique i j t u ht hu hkey (.inl (stored_alive hi)) (.inl (stored_alive hj))
  · intro key alive now i t hturn hwritten ht hkey hlisted
    simp only [step, hturn, if_pos hwritten, look, List.length_map, and_true]
    rw [listed_duplicate hinv ht hkey hlisted]
  · intro key i hturn hwritten
    simp only [step, hturn, if_pos hwritten]

section Samples

def sampleKey : Key := ⟨"w", none, "c0"⟩

def nothing : Found := ⟨[], fun _ _ _ _ h => by simp at h⟩

/-- The first start, up to the runner. -/
def firstStart : List Event :=
  [.start sampleKey, .look (fun _ => false) "0", .listed, .create 1, .task 0 .drain, .begin "1",
    .task 0 .drain, .task 0 .launch]

/-- The pid of the task is known, and a second start returns the task. -/
def secondStart : List Event :=
  [.task 0 (.pid 7), .task 0 .drain, .start sampleKey, .look (fun _ => false) "2", .listed]

theorem starts_deduplicated_twice :
    let s := (firstStart ++ secondStart).foldl step (Service.initial nothing)
    s.answers = [(sampleKey, 0), (sampleKey, 0)] ∧ s.tasks.length = 1 ∧ Deduplicated s := by
  have hrun : Admitted step Timely (Service.initial nothing) (firstStart ++ secondStart) ∧
      ((firstStart ++ secondStart).foldl step (Service.initial nothing)).answers =
        [(sampleKey, 0), (sampleKey, 0)] ∧
      ((firstStart ++ secondStart).foldl step (Service.initial nothing)).tasks.length = 1 := by decide +kernel
  have h : Reaches step Timely (Service.initial nothing)
      ((firstStart ++ secondStart).foldl step (Service.initial nothing)) := Reaches.events .refl hrun.1 rfl
  exact ⟨hrun.2.1, hrun.2.2, starts_deduplicated nothing _ h⟩

/-- A second start waits for the write of a cancellation. The pid comes behind
it, and the task is active again when the second one has been stored. -/
def revivedEvents : List Event :=
  firstStart ++
    ([.task 0 (.call 0 true), .task 0 (.readerLook 0), .task 0 (.refresh 0 false "2"), .task 0
      (.proceed 0 "2"),
      .start sampleKey, .task 0 (.pid 7), .task 0 .drain, .look (fun _ => false) "3", .listed, .create 3,
      .task 1 .drain, .begin "4", .task 0 .drain] : List Event)

theorem revived_task_duplicated :
    let s := revivedEvents.foldl step (Service.initial nothing)
    s.answers = [(sampleKey, 0), (sampleKey, 1)] ∧ s.tasks.map (fun t => active t.manager.stored) =
      [true, true] ∧
      ∃ s, Reaches step (fun _ _ => True) (Service.initial nothing) s ∧ ¬ Deduplicated s := by
  have hrevived : Admitted step (fun _ _ => True) (Service.initial nothing) revivedEvents ∧
      (revivedEvents.foldl step (Service.initial nothing)).answers = [(sampleKey, 0), (sampleKey, 1)] ∧
      (revivedEvents.foldl step (Service.initial nothing)).tasks.map
        (fun t => active t.manager.stored) = [true, true] ∧
      ((revivedEvents.foldl step (Service.initial nothing)).tasks.map fun t =>
        (t.key, active t.manager.stored)) =
        [(sampleKey, true), (sampleKey, true)] := by decide +kernel
  obtain ⟨hadmitted, hanswers, hstored, hactive⟩ := hrevived
  have hrun : Reaches step (fun _ _ => True) (Service.initial nothing)
      (revivedEvents.foldl step (Service.initial nothing)) := Reaches.events .refl hadmitted rfl
  refine ⟨hanswers, hstored, _, hrun, ?_⟩
  intro hdedup
  obtain ⟨t, rest, htasks, ht, hrest⟩ := List.map_eq_cons_iff.mp hactive
  obtain ⟨u, rest, rfl, hu, _⟩ := List.map_eq_cons_iff.mp hrest
  have hkey : t.key = u.key := (congrArg Prod.fst ht).trans (congrArg Prod.fst hu).symm
  have heq : 0 = 1 := hdedup.1 0 1 t u (by rw [htasks]; rfl) (by rw [htasks]; rfl) hkey
    (congrArg Prod.snd ht) (congrArg Prod.snd hu)
  cases heq

end Samples

end AccessStack.Tasks.Starts
