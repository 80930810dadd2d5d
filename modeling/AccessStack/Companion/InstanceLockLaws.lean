import AccessStack.Companion.InstanceLock

/-!
# Who holds the lock of the companion

Whoever has taken the lock and still runs is the owner of the lock file or has
handed it over. That holds in every run in which a lock is removed and
replaced as it was read, and taken when no earlier owner still runs.
-/

set_option autoImplicit false

namespace AccessStack.InstanceLock
open AccessStack.Runs

section Invariant

/-- The instance runs, and has not released. -/
def Occupied (s : Shared) (i : Instance) : Prop :=
  i.pid ∉ s.dead ∧ i.number ∉ s.released ∧ (i ∈ s.leases ∨ i.number ∉ s.failed)

instance (s : Shared) (i : Instance) : Decidable (Occupied s i) :=
  inferInstanceAs (Decidable (i.pid ∉ s.dead ∧ i.number ∉ s.released ∧ (i ∈ s.leases ∨ i.number ∉ s.failed)))

/-- The lease is held by a process that is alive. -/
def Holding (s : Shared) (i : Instance) : Prop := i ∈ s.leases ∧ i.pid ∉ s.dead ∧ i.number ∉ s.released

theorem Holding.occupied {s : Shared} {i : Instance} (h : Holding s i) :
    Occupied s i := ⟨h.2.1, h.2.2, .inl h.1⟩

/-- Nobody who has handed over the lock still runs. -/
def Superseded (s : Shared) : Prop := ∀ i ∈ s.takers, Occupied s i → ∀ h ∈ s.handovers, h.1 ≠ i.number

instance (s : Shared) : Decidable (Superseded s) :=
  inferInstanceAs (Decidable (∀ i ∈ s.takers, Occupied s i → ∀ h ∈ s.handovers, h.1 ≠ i.number))

structure Sound (env : Env) (s : Shared) : Prop where
  named : ∀ f, s.lock = some f → ∀ r, readRecord f.text = some r → r.instanceId = env.uuid f.owner.number
  staged : ∀ instanceId text, s.handoverFiles instanceId = some text → ∀ r, readRecord text = some r →
    r.instanceId = instanceId
  taken : ∀ f, s.lock = some f → f.owner ∈ s.takers
  fresh : ∀ f, s.lock = some f → ∀ h ∈ s.handovers, h.1 ≠ f.owner.number
  origin : ∀ h ∈ s.handovers, ∃ i ∈ s.takers, i.number = h.1
  stands : ∀ i ∈ s.takers, Occupied s i → (∃ f, s.lock = some f ∧ f.owner = i) ∨ ∃ h ∈ s.handovers,
    h.1 = i.number
  pairs : ∀ i ∈ s.takers, ∀ j ∈ s.takers, Occupied s i → Occupied s j →
    i = j ∨ (i.number, j.number) ∈ s.handovers ∨ (j.number, i.number) ∈ s.handovers
  single : ∀ h ∈ s.handovers, ∀ h' ∈ s.handovers, h.1 = h'.1 → h = h'
  leased : ∀ i ∈ s.leases, i ∈ s.takers
  drawn : ∀ i ∈ s.takers, i.number < s.drawers.length
  dropped : ∀ n ∈ s.failed, n < s.drawers.length

variable {env : Env} {s t : Shared} {number : ℕ} {text : String}

/-- Somebody stops, and nothing else happens to the lock. -/
theorem Sound.shrink (h : Sound env s) (hlock : t.lock = s.lock) (hfiles : t.handoverFiles = s.handoverFiles)
    (htakers : t.takers = s.takers) (hhandovers : t.handovers = s.handovers)
    (hleases : ∀ i ∈ t.leases, i ∈ s.takers) (hdrawers : s.drawers.length ≤ t.drawers.length)
    (hdropped : ∀ n ∈ t.failed, n < t.drawers.length)
    (hoccupied : ∀ i, Occupied t i → Occupied s i) : Sound env t := by
  refine ⟨?_, ?_, ?_, ?_, ?_, ?_, ?_, ?_, ?_, ?_, hdropped⟩
  · rw [hlock]
    exact h.named
  · rw [hfiles]
    exact h.staged
  · rw [hlock, htakers]
    exact h.taken
  · rw [hlock, hhandovers]
    exact h.fresh
  · rw [hhandovers, htakers]
    exact h.origin
  · rw [htakers, hlock, hhandovers]
    exact fun i hi hi_occupied => h.stands i hi (hoccupied i hi_occupied)
  · rw [htakers, hhandovers]
    exact fun i hi j hj hi_occupied hj_occupied =>
      h.pairs i hi j hj (hoccupied i hi_occupied) (hoccupied j hj_occupied)
  · rw [hhandovers]
    exact h.single
  · rw [htakers]
    exact hleases
  · rw [htakers]
    exact fun i hi => (h.drawn i hi).trans_le hdrawers

theorem Sound.staging (h : Sound env s) {handoverFiles : String → Option String}
    (hstaged : ∀ instanceId text, handoverFiles instanceId = some text → ∀ r, readRecord text = some r →
      r.instanceId = instanceId) : Sound env { s with handoverFiles } :=
  ⟨h.named, hstaged, h.taken, h.fresh, h.origin, h.stands, h.pairs, h.single, h.leased, h.drawn, h.dropped⟩

/-- The lock file of somebody who does not run any more is removed. -/
theorem Sound.unlock (h : Sound env s) {released : List ℕ}
    (hoccupied : ∀ i, Occupied { s with lock := none, released } i → Occupied s i)
    (howner : ∀ f, s.lock = some f → ¬ Occupied { s with lock := none, released } f.owner) :
    Sound env { s with lock := none, released } where
  named := nofun
  staged := h.staged
  taken := nofun
  fresh := nofun
  origin := h.origin
  stands := by
    intro i hi hi_occupied
    rcases h.stands i hi (hoccupied i hi_occupied) with ⟨f, hf, rfl⟩ | hhanded
    · exact absurd hi_occupied (howner f hf)
    · exact .inr hhanded
  pairs := fun i hi j hj hi_occupied hj_occupied =>
    h.pairs i hi j hj (hoccupied i hi_occupied) (hoccupied j hj_occupied)
  single := h.single
  leased := h.leased
  drawn := h.drawn
  dropped := h.dropped

theorem Sound.write (h : Sound env s)
    (hnamed : ∀ r, readRecord text = some r → r.instanceId = env.uuid number) :
    Sound env (s.write number text) := by
  unfold Shared.write
  cases hlock : s.lock with
  | none => exact h
  | some f =>
    dsimp only
    split_ifs with howner
    · have hall : ∀ g, some { f with text } = some g → g.owner = f.owner := by
        rintro g hg
        rw [← Option.some.inj hg]
      refine ⟨?_, h.staged, ?_, ?_, h.origin, ?_, h.pairs, h.single, h.leased, h.drawn, h.dropped⟩
      · rintro g hg r hr
        rw [hall g hg, howner]
        cases hg
        exact hnamed r hr
      · intro g hg
        rw [hall g hg]
        exact h.taken f hlock
      · intro g hg
        rw [hall g hg]
        exact h.fresh f hlock
      · intro i hi hi_occupied
        rcases h.stands i hi hi_occupied with ⟨g, hg, rfl⟩ | hhanded
        · cases hlock.symm.trans hg
          exact .inl ⟨_, rfl, rfl⟩
        · exact .inr hhanded
    · exact h

/-- The lock is taken: whoever runs and has it hands it over. -/
theorem Sound.take (i : Instance) (text handoverFromInstanceId : String) (h : Sound env s)
    (hwaiting : ∀ j ∈ s.takers, j.number ≠ i.number) (hsuperseded : Superseded s)
    (hhanding : ∀ f, s.lock = some f → Occupied s f.owner → env.uuid f.owner.number = handoverFromInstanceId)
    (hnamed : ∀ r, readRecord text = some r → r.instanceId = env.uuid i.number)
    (hlock : t.lock = some ⟨i, text⟩)
    (hstaged : ∀ instanceId text, t.handoverFiles instanceId = some text →
      s.handoverFiles instanceId = some text)
    (htakers : t.takers = s.takers ++ [i])
    (hhandovers : t.handovers = s.handovers ++ s.handing env i.number handoverFromInstanceId)
    (hleases : t.leases = s.leases) (hdrawers : t.drawers = s.drawers) (hfailed : t.failed = s.failed)
    (hlast : i.number < s.drawers.length) (hoccupied : ∀ j, Occupied t j ↔ Occupied s j) : Sound env t := by
  have hhanded : ∀ x ∈ s.handing env i.number handoverFromInstanceId, ∃ f, s.lock = some f ∧
      x = (f.owner.number, i.number) := by
    intro x hx
    unfold Shared.handing at hx
    cases hold : s.lock with
    | none =>
      rw [hold] at hx
      exact absurd hx List.not_mem_nil
    | some f =>
      rw [hold] at hx
      dsimp only at hx
      split_ifs at hx
      · exact ⟨f, rfl, List.mem_singleton.mp hx⟩
      · exact absurd hx List.not_mem_nil
  have hgiven : ∀ j ∈ s.takers, Occupied s j → (j.number, i.number) ∈ t.handovers ∧
      ∃ f, s.lock = some f ∧ f.owner = j := by
    intro j hj hj_occupied
    rcases h.stands j hj hj_occupied with ⟨f, hf, rfl⟩ | ⟨x, hx, hfrom⟩
    · refine ⟨?_, f, hf, rfl⟩
      rw [hhandovers, List.mem_append]
      right
      unfold Shared.handing
      rw [hf]
      dsimp only
      rw [if_pos (hhanding f hf hj_occupied)]
      exact List.mem_singleton.mpr rfl
    · exact absurd hfrom (hsuperseded j hj hj_occupied x hx)
  refine ⟨?_, ?_, ?_, ?_, ?_, ?_, ?_, ?_, ?_, ?_, ?_⟩
  · intro f hf
    cases hlock.symm.trans hf
    exact hnamed
  · exact fun instanceId text htext => h.staged instanceId text (hstaged instanceId text htext)
  · intro f hf
    cases hlock.symm.trans hf
    rw [htakers]
    exact List.mem_append_right _ (List.mem_singleton.mpr rfl)
  · intro f hf x hx
    cases hlock.symm.trans hf
    rw [hhandovers] at hx
    rcases List.mem_append.mp hx with hold | hnew
    · obtain ⟨j, hj, hparty⟩ := h.origin x hold
      rw [← hparty]
      exact hwaiting j hj
    · obtain ⟨g, hg, rfl⟩ := hhanded x hnew
      exact hwaiting g.owner (h.taken g hg)
  · intro x hx
    rw [hhandovers] at hx
    rw [htakers]
    rcases List.mem_append.mp hx with hold | hnew
    · obtain ⟨j, hj, hparty⟩ := h.origin x hold
      exact ⟨j, List.mem_append_left _ hj, hparty⟩
    · obtain ⟨g, hg, rfl⟩ := hhanded x hnew
      exact ⟨g.owner, List.mem_append_left _ (h.taken g hg), rfl⟩
  · intro j hj hj_occupied
    rw [htakers] at hj
    rcases List.mem_append.mp hj with hold | hnew
    · exact .inr ⟨_, (hgiven j hold ((hoccupied j).mp hj_occupied)).1, rfl⟩
    · cases List.mem_singleton.mp hnew
      exact .inl ⟨_, hlock, rfl⟩
  · intro a ha b hb ha_occupied hb_occupied
    rw [htakers] at ha hb
    rcases List.mem_append.mp ha with ha_old | ha_new <;> rcases List.mem_append.mp hb with hb_old | hb_new
    · obtain ⟨-, f, hf, rfl⟩ := hgiven a ha_old ((hoccupied a).mp ha_occupied)
      obtain ⟨-, g, hg, rfl⟩ := hgiven b hb_old ((hoccupied b).mp hb_occupied)
      cases hf.symm.trans hg
      exact .inl rfl
    · cases List.mem_singleton.mp hb_new
      exact .inr (.inl (hgiven a ha_old ((hoccupied a).mp ha_occupied)).1)
    · cases List.mem_singleton.mp ha_new
      exact .inr (.inr (hgiven b hb_old ((hoccupied b).mp hb_occupied)).1)
    · exact .inl ((List.mem_singleton.mp ha_new).trans (List.mem_singleton.mp hb_new).symm)
  · intro x hx y hy hsame
    rw [hhandovers] at hx hy
    rcases List.mem_append.mp hx with hx_old | hx_new <;> rcases List.mem_append.mp hy with hy_old | hy_new
    · exact h.single x hx_old y hy_old hsame
    · obtain ⟨g, hg, rfl⟩ := hhanded y hy_new
      exact absurd hsame (h.fresh g hg x hx_old)
    · obtain ⟨g, hg, rfl⟩ := hhanded x hx_new
      exact absurd hsame.symm (h.fresh g hg y hy_old)
    · obtain ⟨f, hf, rfl⟩ := hhanded x hx_new
      obtain ⟨g, hg, rfl⟩ := hhanded y hy_new
      cases hf.symm.trans hg
      rfl
  · intro j hj
    rw [hleases] at hj
    rw [htakers]
    exact List.mem_append_left _ (h.leased j hj)
  · rw [htakers, hdrawers]
    intro j hj
    rcases List.mem_append.mp hj with hold | hnew
    · exact h.drawn j hold
    · rw [List.mem_singleton.mp hnew]
      exact hlast
  · rw [hfailed, hdrawers]
    exact h.dropped

end Invariant

section Promises

/-- A release is of a lease that has been given, and its process is alive. -/
def Present (input : Input) (s : Shared) : Prop :=
  input.pid ∉ s.dead ∧ match input with
    | .acquire _ => True
    | .release lease => lease ∈ s.leases

instance (input : Input) (s : Shared) : Decidable (Present input s) := by
  unfold Present
  cases input <;> infer_instance

/-- The lock is removed and replaced as it was read last, or when its owner
does not run; it is removed as stale when its owner does not run; and it is
taken when nobody who has handed it over before still runs. -/
def Careful (party : ℕ) : Op → Shared → Prop
  | .openLock _, s => s.lock = none → Superseded s
  | .rename _ _, s =>
    (∀ f, s.lock = some f → s.seen party = some f.owner.number ∨ ¬ Occupied s f.owner) ∧ Superseded s
  | .removeStale, s => ∀ f, s.lock = some f → ¬ Occupied s f.owner
  | .removeOwn _, s => ∀ f, s.lock = some f → s.seen party = some f.owner.number
  | _, _ => True

def rules : Machine.Rules Shared Host Death Input (fun e => Option (Answer e)) Failure Unit where
  possible := fun party input e s _ => Present input s ∧ Careful party e s
  allowed := fun _ _ => True

/-- A release removes the lock of its lease, and a lock is taken over from
whom the call names. -/
def Rightful (input : Input) (s : Shared) : Op → Prop
  | .removeOwn lease => ∀ f, s.lock = some f → f.owner.number = lease
  | .rename _ handoverFromInstanceId =>
    ∃ options, input = .acquire options ∧ options.handoverFromInstanceId = some handoverFromInstanceId
  | _ => True

structure Promises (party : ℕ) (input : Input) (e : Op) (s t : Shared) : Prop where
  drawers : ∀ (n p : ℕ), s.drawers[n]? = some p → t.drawers[n]? = some p
  takers : ∀ i ∈ t.takers, i ∈ s.takers ∨ s.drawers[i.number]? = some party
  kept : ∀ i ∈ s.takers, i ∈ t.takers
  failed : ∀ n ∈ t.failed, n ∈ s.failed ∨ s.drawers[n]? = some party
  seen : ∀ p, p ≠ party → t.seen p = s.seen p
  rightful : Rightful input s e

structure Relies (party : ℕ) (_ : Input) (s t : Shared) : Prop where
  drawers : ∀ (n p : ℕ), s.drawers[n]? = some p → t.drawers[n]? = some p
  takers : ∀ i ∈ t.takers, s.drawers[i.number]? = some party → i ∈ s.takers
  kept : ∀ i ∈ s.takers, i ∈ t.takers
  failed : ∀ n ∈ t.failed, s.drawers[n]? = some party → n ∈ s.failed
  seen : t.seen party = s.seen party

theorem promises_relies {party other : ℕ} {input input' : Input} {e : Op} {s t : Shared} (hne : party ≠ other)
    (h : Promises party input e s t) : Relies other input' s t where
  drawers := h.drawers
  takers := fun i hi hother => (h.takers i hi).resolve_right fun hparty =>
    hne (Option.some.inj (hparty.symm.trans hother))
  kept := h.kept
  failed := fun n hn hother => (h.failed n hn).resolve_right fun hparty =>
    hne (Option.some.inj (hparty.symm.trans hother))
  seen := h.seen other (Ne.symm hne)

end Promises

section Calls

/-- What the routine of a call is checked against. -/
abbrev asked (env : Env) (party : ℕ)
    (input : Input) : Routine.Terms Op Shared Host (fun e => Option (Answer e)) :=
  Machine.terms (machine env) rules (Sound env) Relies Promises party input

/-- Nothing is asked when it throws. -/
abbrev Guarding {α : Type} (env : Env) (party : ℕ) (input : Input) (post : α → Shared → Prop)
    (p : Locking α) (s : Shared) :
    Prop := Routine.Guards (asked env party input) post (fun _ _ => True) p s

def Stable (party : ℕ) (input : Input) (fact : Shared → Prop) : Prop := ∀ s t, fact s →
    Relies party input s t → fact t

variable {env : Env} {party : ℕ} {input : Input} {e : Op} {s : Shared} {fact : Shared → Prop}

theorem Promises.same {t : Shared} (hrightful : Rightful input s e) (hdrawers : t.drawers = s.drawers)
    (htakers : t.takers = s.takers) (hfailed : t.failed = s.failed) (hseen : t.seen = s.seen) :
    Promises party input e s t where
  drawers := by
    rw [hdrawers]
    exact fun _ _ => id
  takers := by
    rw [htakers]
    exact fun _ => .inl
  kept := by
    rw [htakers]
    exact fun _ => id
  failed := by
    rw [hfailed]
    exact fun _ => .inl
  seen := by
    rw [hseen]
    exact fun _ _ => rfl
  rightful := hrightful

/-- What a call goes on with. -/
def answered : Option (Answer e) → Locking (Answer e)
  | some answer => .ret answer
  | none => .fail .thrown

theorem guards_call {post : Answer e → Shared → Prop} (hfact : fact s) (hstable : Stable party input fact)
    (hrightful : ∀ s, fact s → Sound env s → Careful party e s → Rightful input s e)
    (h : ∀ s host, fact s → Sound env s → Present input s → Careful party e s →
      Sound env (perform env party e s host).1 ∧ Promises party input e s (perform env party e s host).1 ∧
      ∀ answer, (perform env party e s host).2 = some answer → post answer (perform env party e s host).1) :
    Guarding env party input post (call e) s := by
  refine Routine.guards_act hfact hstable ?_
  rintro t ht hsound host ⟨hpresent, hcareful⟩
  show Sound env (effect env party e t host).1 ∧ Promises party input e t (effect env party e t host).1 ∧
    Routine.Guards (asked env party input) post (fun _ _ => True) (answered (effect env party e t host).2)
      (effect env party e t host).1
  unfold effect
  split_ifs with hfails
  · have hdrawn : ∀ n ∈ t.drawn party, n < t.drawers.length ∧ t.drawers[n]? = some party := by
      intro n hn
      obtain ⟨hrange, hdrawer⟩ := List.mem_filter.mp hn
      exact ⟨List.mem_range.mp hrange, by simpa using hdrawer⟩
    refine ⟨?_, ⟨fun _ _ => id, fun _ => .inl, fun _ => id, ?_, fun _ _ =>
      rfl, hrightful t ht hsound hcareful⟩, trivial⟩
    · refine hsound.shrink rfl rfl rfl rfl hsound.leased le_rfl ?_ ?_
      · intro n hn
        exact (List.mem_append.mp hn).elim (fun hnew => (hdrawn n hnew).1) (hsound.dropped n)
      · rintro i ⟨halive, hreleased, hunfailed⟩
        exact ⟨halive, hreleased, hunfailed.imp_right fun hnot hin => hnot (List.mem_append_right _ hin)⟩
    · intro n hn
      exact (List.mem_append.mp hn).symm.imp_right fun hnew => (hdrawn n hnew).2
  · obtain ⟨hkept, hpromised, hnext⟩ := h t host ht hsound hpresent hcareful
    refine ⟨hkept, hpromised, ?_⟩
    cases hanswer : (perform env party e t host).2 with
    | none => trivial
    | some answer => exact hnext answer hanswer

/-- The operation changes nothing. -/
def Op.calm : Op → Bool
  | .mkdir | .now | .sync | .close | .delay | .processAlive _ => true
  | _ => false

theorem perform_calm (h : e.calm = true) (host : Host) : (perform env party e s host).1 = s := by
  cases e <;> first | rfl | exact absurd h nofun

theorem calm_rightful (h : e.calm = true) : Rightful input s e := by
  cases e <;> trivial

theorem calm_guards (h : e.calm = true) (hfact : fact s) (hstable : Stable party input fact) :
    Guarding env party input (fun _ s => fact s) (call e) s := by
  refine guards_call hfact hstable (fun s _ _ _ => calm_rightful h) ?_
  intro s host hs hsound _ _
  rw [perform_calm h host]
  exact ⟨hsound, .same (calm_rightful h) rfl rfl rfl rfl, fun _ _ => hs⟩

/-- What is read is of the owner of the lock. -/
def Saw (env : Env) (party : ℕ) (record : Option CompanionInstanceRecord) (s : Shared) : Prop :=
  ∀ r, record = some r → ∃ p, s.seen party = some p ∧ r.instanceId = env.uuid p

theorem read_guards (hfact : fact s) (hstable : Stable party input fact)
    (hseen : ∀ s seen, fact s → fact { s with seen }) :
    Guarding env party input (fun record s => fact s ∧ Saw env party record s) (call .read) s := by
  refine guards_call hfact hstable (fun _ _ _ _ => trivial) ?_
  intro s host hs hsound _ _
  refine ⟨hsound.shrink rfl rfl rfl rfl hsound.leased le_rfl hsound.dropped fun _ => id,
    ⟨fun _ _ => id, fun _ => .inl, fun _ => id, fun _ => .inl, ?_, trivial⟩, ?_⟩
  · exact fun p hp => Function.update_of_ne hp _ _
  · intro answer hanswer
    refine ⟨hseen s _ hs, ?_⟩
    rintro r rfl
    obtain ⟨f, hf, hr⟩ := Option.bind_eq_some_iff.mp (Option.some.inj hanswer)
    refine ⟨f.owner.number, ?_, hsound.named f hf r hr⟩
    show Function.update s.seen party (s.lock.map (·.owner.number)) party = _
    rw [Function.update_self, hf]
    rfl

end Calls

section Acquiring

variable {env : Env} {party number : ℕ} {input : Input} {s : Shared} {options : CompanionInstanceLockOptions}
  {i : Instance}

/-- The call has drawn the id, and not taken the lock with it. -/
structure Waiting (party number : ℕ) (s : Shared) : Prop where
  drawn : s.drawers[number]? = some party
  untaken : ∀ i ∈ s.takers, i.number ≠ number
  unfailed : number ∉ s.failed

structure Taken (party : ℕ) (i : Instance) (s : Shared) : Prop where
  drawn : s.drawers[i.number]? = some party
  taken : i ∈ s.takers
  unfailed : i.number ∉ s.failed

theorem waiting_stable : Stable party input (Waiting party number) := by
  intro s t h hrelies
  refine ⟨hrelies.drawers _ _ h.drawn, ?_, fun hfailed => h.unfailed (hrelies.failed number hfailed h.drawn)⟩
  rintro i hi rfl
  exact h.untaken i (hrelies.takers i hi h.drawn) rfl

theorem taken_stable : Stable party input (Taken party i) :=
  fun _ _ h hrelies => ⟨hrelies.drawers _ _ h.drawn, hrelies.kept _ h.taken,
    fun hfailed => h.unfailed (hrelies.failed i.number hfailed h.drawn)⟩

theorem Waiting.seen (h : Waiting party number s) (seen : ℕ → Option ℕ) :
    Waiting party number { s with seen } :=
  ⟨h.drawn, h.untaken, h.unfailed⟩

theorem Waiting.files (h : Waiting party number s) (handoverFiles : String → Option String) :
    Waiting party number { s with handoverFiles } :=
  ⟨h.drawn, h.untaken, h.unfailed⟩

theorem Taken.files (h : Taken party i s) (handoverFiles : String → Option String) :
    Taken party i { s with handoverFiles } :=
  ⟨h.drawn, h.taken, h.unfailed⟩

theorem lt_drawers {n p : ℕ} (h : s.drawers[n]? = some p) : n < s.drawers.length :=
  (List.getElem?_eq_some_iff.mp h).1

attribute [local simp] perform in
theorem openLock_guards (h : Waiting party i.number s) :
    Guarding env party input (fun created s => (created = true → Taken party i s) ∧
      (created = false → Waiting party i.number s)) (call (.openLock i)) s := by
  refine guards_call h waiting_stable (fun _ _ _ _ => trivial) ?_
  intro s host hs hsound _ hcareful
  simp only [perform]
  split_ifs with hlock
  · refine ⟨hsound, .same trivial rfl rfl rfl rfl, ?_⟩
    intro created hcreated
    cases hcreated
    exact ⟨nofun, fun _ => hs⟩
  · have hnone : s.lock = none := by simpa using hlock
    have hempty : readRecord "" = none := by decide
    refine ⟨?_, ⟨fun _ _ => id, ?_, fun i => List.mem_append_left _, fun _ => .inl, fun _ _ =>
      rfl, trivial⟩, ?_⟩
    · refine Sound.take i "" "" hsound hs.untaken (hcareful hnone) ?_ ?_ rfl
        (fun _ _ => id) rfl ?_ rfl rfl rfl
        (lt_drawers hs.drawn) fun _ => Iff.rfl
      · intro f hf
        exact absurd (hnone.symm.trans hf) nofun
      · intro r hr
        exact absurd (hempty.symm.trans hr) nofun
      · show s.handovers = _
        simp [Shared.handing, hnone]
    · intro j hj
      refine (List.mem_append.mp hj).imp_right fun hnew => ?_
      rw [List.mem_singleton.mp hnew]
      exact hs.drawn
    · intro created hcreated
      cases hcreated
      exact ⟨fun _ => ⟨hs.drawn, List.mem_append_right _ (List.mem_singleton.mpr rfl), hs.unfailed⟩, nofun⟩

theorem writeLock_guards {text : String}
    (hnamed : ∀ r, readRecord text = some r → r.instanceId = env.uuid i.number)
    (h : Taken party i s) :
    Guarding env party input (fun _ s => Taken party i s) (call (.writeLock i.number text)) s := by
  refine guards_call h taken_stable (fun _ _ _ _ => trivial) ?_
  intro s host hs hsound _ _
  obtain ⟨hdrawers, htakers, hfailed, hseen⟩ : (s.write i.number text).drawers = s.drawers ∧
      (s.write i.number text).takers = s.takers ∧ (s.write i.number text).failed = s.failed ∧
      (s.write i.number text).seen = s.seen := by
    unfold Shared.write
    split
    · exact ⟨rfl, rfl, rfl, rfl⟩
    · split_ifs <;> exact ⟨rfl, rfl, rfl, rfl⟩
  refine ⟨hsound.write hnamed, .same trivial hdrawers htakers hfailed hseen, ?_⟩
  intro _ _
  show Taken party i (s.write i.number text)
  refine ⟨?_, ?_, ?_⟩
  · rw [hdrawers]
    exact hs.drawn
  · rw [htakers]
    exact hs.taken
  · rw [hfailed]
    exact hs.unfailed

theorem createLease_guards (h : Taken party i s) :
    Guarding env party input (fun _ _ => True) (createLease i) s := by
  refine Routine.Guards.bind (m := fun _ _ => True) ?_ fun _ _ _ => trivial
  refine guards_call h taken_stable (fun _ _ _ _ => trivial) ?_
  intro s host hs hsound _ _
  refine ⟨?_, .same trivial rfl rfl rfl rfl, fun _ _ => trivial⟩
  refine hsound.shrink rfl rfl rfl rfl ?_ le_rfl hsound.dropped ?_
  · intro j hj
    rcases List.mem_append.mp hj with hold | hnew
    · exact hsound.leased j hold
    · rw [List.mem_singleton.mp hnew]
      exact hs.taken
  · rintro j ⟨halive, hreleased, hleased⟩
    refine ⟨halive, hreleased, ?_⟩
    rcases hleased with hin | hunfailed
    · rcases List.mem_append.mp hin with hold | hnew
      · exact .inl hold
      · rw [List.mem_singleton.mp hnew]
        exact .inr hs.unfailed
    · exact .inr hunfailed

/-- What follows is done whether or not the routine has thrown. -/
theorem closing_guards {α : Type} {p : Locking α} {e : Op} {fact : α → Shared → Prop}
    (h : Guarding env party input fact p s)
    (hthrown : ∀ s, Guarding env party input (fun _ _ => True) (call e) s)
    (hdone : ∀ a s, fact a s → Guarding env party input (fun _ s => fact a s) (call e) s) :
    Guarding env party input fact (closing p e) s := by
  unfold closing
  refine Routine.guards_ensuing.mpr (h.mono ?_ ?_)
  · exact fun a s ha => (hdone a s ha).bind fun _ _ h => h
  · exact fun x s _ => (hthrown s).bind fun _ _ _ => trivial

theorem record_named {record : CompanionInstanceRecord} (h : record.instanceId = env.uuid number) :
    ∀ r, readRecord record.text = some r → r.instanceId = env.uuid number := by
  intro r hr
  rw [readRecord_text] at hr
  split_ifs at hr
  cases hr
  exact h

theorem writeRecord_guards {record : CompanionInstanceRecord} (hnamed : record.instanceId = env.uuid i.number)
    (h : Taken party i s) :
    Guarding env party input (fun _ s => Taken party i s)
    (closing (writeRecord i.number record) .close) s := by
  refine closing_guards ?_ (fun s => ?_) fun _ s h => calm_guards rfl h taken_stable
  · refine (writeLock_guards (record_named hnamed) h).bind fun _ s h => ?_
    exact (calm_guards rfl h taken_stable).bind fun _ s h => h
  · have hstable : Stable party input fun _ => True := fun _ _ _ _ => trivial
    exact calm_guards rfl trivial hstable

theorem readExisting_guards (h : Waiting party number s) :
    Guarding env party input (fun record s => Waiting party number s ∧ Saw env party record s)
      readExisting s := by
  have hseen : ∀ (s : Shared) (seen : ℕ → Option ℕ), Waiting party number s →
      Waiting party number { s with seen } :=
    fun _ seen h => h.seen seen
  refine (read_guards h waiting_stable hseen).bind fun existing s ⟨h, hsaw⟩ => ?_
  cases existing with
  | some record => exact ⟨h, hsaw⟩
  | none => exact (calm_guards rfl h waiting_stable).bind fun _ s h => read_guards h waiting_stable hseen

theorem readActive_guards (h : Waiting party number s) :
    Guarding env party input (fun _ s => Waiting party number s) readActive s := by
  refine (readExisting_guards h).bind fun existing s ⟨h, _⟩ => ?_
  cases existing with
  | none => exact h
  | some record => exact (calm_guards rfl h waiting_stable).bind fun _ s h => h

theorem writeHandover_guards {record : CompanionInstanceRecord} (h : Waiting party number s) :
    Guarding env party input (fun _ s => Waiting party number s)
    (call (.writeHandover record.instanceId record.text)) s := by
  refine guards_call h waiting_stable (fun _ _ _ _ => trivial) ?_
  intro s host hs hsound _ _
  simp only [perform]
  split_ifs
  · exact ⟨hsound, .same trivial rfl rfl rfl rfl, nofun⟩
  · refine ⟨hsound.staging ?_, .same trivial rfl rfl rfl rfl, fun _ _ => ⟨hs.drawn, hs.untaken, hs.unfailed⟩⟩
    intro instanceId text htext r hr
    rw [Function.update_apply] at htext
    split_ifs at htext with heq
    · cases htext
      rw [readRecord_text] at hr
      split_ifs at hr
      cases hr
      exact heq.symm
    · exact hsound.staged instanceId text htext r hr

theorem removeHandover_guards {instanceId : String} {fact : Shared → Prop} (hfact : fact s)
    (hstable : Stable party input fact)
    (hfiles : ∀ (s : Shared) (handoverFiles : String → Option String), fact s →
      fact { s with handoverFiles }) :
    Guarding env party input (fun _ s => fact s) (call (.removeHandover instanceId)) s := by
  refine guards_call hfact hstable (fun _ _ _ _ => trivial) ?_
  intro s host hs hsound _ _
  refine ⟨hsound.staging ?_, .same trivial rfl rfl rfl rfl, fun _ _ => hfiles s _ hs⟩
  intro id text htext
  rw [Function.update_apply] at htext
  split_ifs at htext
  exact hsound.staged id text htext

theorem rename_guards {handoverFromInstanceId : String}
    (hoptions : options.handoverFromInstanceId = some handoverFromInstanceId)
    (h : Waiting party i.number s) {p : ℕ} (hp : s.seen party = some p)
    (hfrom : env.uuid p = handoverFromInstanceId) :
    Guarding env party (.acquire options) (fun _ s => Taken party i s)
    (call (.rename i handoverFromInstanceId)) s := by
  have hrightful : ∀ s, Rightful (.acquire options) s (.rename i handoverFromInstanceId) :=
    fun _ => ⟨options, rfl, hoptions⟩
  have hstable : Stable party (.acquire options) fun s => Waiting party i.number s ∧ s.seen party = some p :=
    fun s t h hrelies => ⟨waiting_stable s t h.1 hrelies, hrelies.seen.trans h.2⟩
  refine guards_call ⟨h, hp⟩ hstable (fun s _ _ _ => hrightful s) ?_
  rintro s host ⟨hs, hseen⟩ hsound _ ⟨hread, hsuperseded⟩
  simp only [perform]
  cases htext : s.handoverFiles (env.uuid i.number) with
  | none => exact ⟨hsound, .same (hrightful s) rfl rfl rfl rfl, nofun⟩
  | some text =>
    refine ⟨?_, ⟨fun _ _ => id, ?_, fun i => List.mem_append_left _, fun _ => .inl, fun _ _ =>
      rfl, hrightful s⟩, ?_⟩
    · refine Sound.take i text handoverFromInstanceId hsound hs.untaken hsuperseded ?_
        (hsound.staged _ _ htext) rfl ?_ rfl rfl rfl rfl rfl (lt_drawers hs.drawn) fun _ => Iff.rfl
      · intro f hf hoccupied
        have hsame := (hread f hf).resolve_right (not_not.mpr hoccupied)
        rw [← Option.some.inj (hseen.symm.trans hsame)]
        exact hfrom
      · intro id text' htext'
        show s.handoverFiles id = some text'
        have hupdate : Function.update s.handoverFiles (env.uuid i.number) none id = some text' := htext'
        rw [Function.update_apply] at hupdate
        split_ifs at hupdate
        exact hupdate
    · intro j hj
      refine (List.mem_append.mp hj).imp_right fun hnew => ?_
      rw [List.mem_singleton.mp hnew]
      exact hs.drawn
    · intro _ _
      exact ⟨hs.drawn, List.mem_append_right _ (List.mem_singleton.mpr rfl), hs.unfailed⟩

theorem removeStale_guards (h : Waiting party number s) :
    Guarding env party input (fun _ s => Waiting party number s) (call .removeStale) s := by
  refine guards_call h waiting_stable (fun _ _ _ _ => trivial) ?_
  intro s host hs hsound _ hcareful
  exact ⟨hsound.unlock (fun _ => id) hcareful, .same trivial rfl rfl rfl rfl, fun _ _ =>
    ⟨hs.drawn, hs.untaken, hs.unfailed⟩⟩

end Acquiring

end AccessStack.InstanceLock
