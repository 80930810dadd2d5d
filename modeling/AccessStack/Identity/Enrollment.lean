import AccessStack.Identity.Serving

/-!
# Enrollments that may be cut short

A turn may end after any of its events. What the index of emails and the list
of users say of the records is kept by every event, so that at most one
administrator is active, and until the first administrator is enrolled nobody
can do anything else.
-/

set_option autoImplicit false

namespace AccessStack.Identity
open AccessStack.Text AccessStack.OAuth AccessStack.Emits AccessStack.Runs

section Cuts

variable (z : Environment)

/-- A turn of which only the first events happen. -/
structure Cut where
  turn : Turn
  kept : ℕ

def Moment.cut (m : Moment) (c : Cut) : Moment :=
  ⟨((serve z c.turn.now c.turn.random c.turn.call m.state).2.take c.kept).foldl State.after m.state,
    c.turn.now⟩

/-- The clock does not go back, and the id of a user is new. -/
structure Timely (m : Moment) (t : Turn) : Prop where
  clock : m.now ≤ t.now
  user : Uncreated t.userId m.state.log

abbrev CutReached (legacy : List PendingLogin) (m : Moment) : Prop :=
  Reaches (Moment.cut z) (fun m c => Timely m c.turn) (.initial legacy) m

variable {z} {m : Moment} {t : Turn} {c : Cut}

/-- What every event of a turn keeps holds wherever the turn is cut. -/
theorem prefix_invariant {I : State → Prop} (huser : Uncreated t.userId m.state.log) (hstart : I m.state)
    (hstep : ∀ fresh w e, I w → (t.call.isEnrollment = true → fresh) → Allowed z t False fresh w e →
      I (w.after e)) :
    ∀ done, done <+: (serve z t.now t.random t.call m.state).2 → I (done.foldl State.after m.state) := by
  rcases t with ⟨call, now, random⟩
  cases call with
  | completeEnrollment request =>
    have hmeets : Meets (Allowed z ⟨.completeEnrollment request, now, random⟩ False True)
        (completeEnrollment z now random request) m.state fun _ _ => True :=
      (completeEnrollment_meets m.state request rfl False.elim fun _ => huser).mono fun _ _ _ => trivial
    exact hmeets.1.invariant hstart fun w e hw he => hstep True w e hw (fun _ => trivial) he
  | _ =>
    apply (serve_meets m.state False.elim False.elim).1.invariant hstart
    exact fun w e hw he => hstep False w e hw (fun h => by cases h) he

theorem cut_invariant {I : State → Prop} (htimely : Timely m c.turn) (hstart : I m.state)
    (hstep : ∀ fresh w e, I w → (c.turn.call.isEnrollment = true → fresh) → Allowed z c.turn False fresh w e →
      I (w.after e)) : I (m.cut z c).state :=
  prefix_invariant htimely.user hstart hstep _ (List.take_prefix _ _)

theorem next_invariant {I : State → Prop} (htimely : Timely m t) (hstart : I m.state)
    (hstep : ∀ fresh w e, I w → (t.call.isEnrollment = true → fresh) → Allowed z t False fresh w e →
      I (w.after e)) :
    I (m.next z t).state :=
  prefix_invariant htimely.user hstart hstep _ List.prefix_rfl

end Cuts

section Index

variable (z : Environment)

/-- The record of a user, with an email that the index has. -/
structure Entry (s : Store) (userId : String) (user : StoredUpdateControlUser) : Prop where
  stored : s.users userId = some user
  email : ∃ field, user.email = normalizeEmail z field
  role : ∃ role, normalizeRole user.role = some role

structure Indexed (w : State) : Prop where
  named : Uncreated "" w.log
  keyed : ∀ userId user, w.store.users userId = some user → user.id = userId ∧ ¬ Uncreated userId w.log
  emails : ∀ hash userId, w.store.emails hash = some userId → ¬ Uncreated userId w.log
  listed : ∀ userId ∈ w.store.userIds, ∃ user, Entry z w.store userId user ∧
    w.store.emails (z.sha256Base64Url user.email) = some userId
  nodup : w.store.userIds.Nodup
  created : ∀ user origin, w.log.getLast? = some (.created user origin) → Entry z w.store user.id user ∧
    user.id ∉ w.store.userIds ∧ userOfEmail z w.store user.email = none
  indexed : ∀ hash userId, w.log.getLast? = some (.indexed hash userId) → userId ∉ w.store.userIds ∧
    ∃ user, Entry z w.store userId user ∧ w.store.emails (z.sha256Base64Url user.email) = some userId
  last : ∀ ids, w.log.getLast? = some (.listed ids) → w.store.userIds = ids

variable {z} {t : Turn} {w w' : State} {e : Event} {quiet fresh : Prop} {userId : String}

theorem Uncreated.anti {log log' : List Event} (h : Uncreated userId log') (hgrown : ∀ e ∈ log, e ∈ log') :
    Uncreated userId log :=
  fun user origin hmem => h user origin (hgrown _ hmem)

theorem Uncreated.after (h : Uncreated userId w.log) (he : ∀ user origin, e ≠ .created user origin) :
    Uncreated userId (w.after e).log := by
  intro user origin hmem
  rcases List.mem_append.mp hmem with hbefore | hlast
  · exact h user origin hbefore
  · exact absurd (List.mem_singleton.mp hlast).symm (he user origin)

theorem getLast_after : (w.after e).log.getLast? = some e := List.getLast?_concat

theorem known_after (h : ¬ Uncreated userId w.log) : ¬ Uncreated userId (w.after e).log :=
  fun hun => h (hun.anti fun _ hmem => List.mem_append_left _ hmem)

/-- An event that is not about users, their emails or their list. -/
theorem Indexed.frame (h : Indexed z w) (husers : (w.after e).store.users = w.store.users)
    (hemails : (w.after e).store.emails = w.store.emails) (hids : (w.after e).store.userIds = w.store.userIds)
    (hcreated : ∀ user origin, e ≠ .created user origin) (hindexed : ∀ hash userId, e ≠ .indexed hash userId)
    (hlisted : ∀ ids, e ≠ .listed ids) : Indexed z (w.after e) where
  named := h.named.after hcreated
  keyed := by
    rw [husers]
    exact fun userId user huser => ⟨(h.keyed userId user huser).1, known_after (h.keyed userId user huser).2⟩
  emails := by
    rw [hemails]
    exact fun hash userId hid => known_after (h.emails hash userId hid)
  listed := by
    rw [hids, hemails]
    intro userId hmem
    obtain ⟨user, hentry, hemail⟩ := h.listed userId hmem
    exact ⟨user, ⟨husers ▸ hentry.stored, hentry.email, hentry.role⟩, hemail⟩
  nodup := by
    rw [hids]
    exact h.nodup
  created := by
    intro user origin hlast
    rw [getLast_after, Option.some.injEq] at hlast
    exact absurd hlast (hcreated user origin)
  indexed := by
    intro hash userId hlast
    rw [getLast_after, Option.some.injEq] at hlast
    exact absurd hlast (hindexed hash userId)
  last := by
    intro ids hlast
    rw [getLast_after, Option.some.injEq] at hlast
    exact absurd hlast (hlisted ids)

theorem normalizeEmail_normalizeEmail (z : Environment) (value : String) :
    normalizeEmail z (normalizeEmail z value) = normalizeEmail z value :=
  z.toLowerCase_trim value

theorem Entry.known {user : StoredUpdateControlUser} (hentry : Entry z w.store userId user)
    (h : Indexed z w) :
    ¬ Uncreated userId w.log :=
  (h.keyed userId user hentry.stored).2

theorem Entry.userAt {s : Store} {user : StoredUpdateControlUser} (hentry : Entry z s userId user) :
    ∃ role, userAt z s userId = some (withRole user role) := by
  obtain ⟨role, hrole⟩ := hentry.role
  exact ⟨roleOf z user role, userAt_eq_some.mpr ⟨user, role, hentry.stored, hrole, rfl⟩⟩

/-- A record that is written apart from the index leaves what emails lead to. -/
theorem userOfEmail_update {s : Store} {place email : String} {user : StoredUpdateControlUser}
    (h : ∀ hash, s.emails hash ≠ some place) :
    userOfEmail z { s with users := Function.update s.users place (some user) } email =
      userOfEmail z s email := by
  simp only [userOfEmail]
  cases hfilter : (s.emails (z.sha256Base64Url (normalizeEmail z email))).filter (· ≠ "") with
  | none => rfl
  | some found =>
    obtain ⟨hfound, -⟩ := Option.filter_eq_some_iff.mp hfilter
    have hne : found ≠ place := fun heq => h _ (heq ▸ hfound)
    simp only [Option.bind_some, AccessStack.Identity.userAt]
    rw [Function.update_of_ne hne]

theorem userId_ne_empty (t : Turn) : t.userId ≠ "" := by
  intro heq
  have hlength := congrArg String.length heq
  rw [Turn.userId, String.length_append] at hlength
  simp at hlength

theorem indexed_created {user : StoredUpdateControlUser} {origin : Origin} (h : Indexed z w) (hfresh : fresh)
    (he : Allowed z t quiet fresh w (.created user origin)) : Indexed z (w.after (.created user origin)) := by
  obtain ⟨-, -, hnew, hid, -, -, hemail, hrole, habsent, -⟩ := he
  have hun : Uncreated user.id w.log := hid ▸ hnew hfresh
  have hknown : ¬ Uncreated user.id (w.after (.created user origin)).log :=
    fun hun => hun user origin (List.mem_append_right _ List.mem_cons_self) rfl
  have hother : ∀ userId, ¬ Uncreated userId w.log → userId ≠ user.id := fun userId hk heq => hk (heq ▸ hun)
  constructor
  · intro found from' hmem
    rcases List.mem_append.mp hmem with hbefore | hlast
    · exact h.named found from' hbefore
    · cases List.mem_singleton.mp hlast
      rw [hid]
      exact userId_ne_empty t
  · intro userId found hfound
    rcases update_some_eq hfound with ⟨rfl, rfl⟩ | hold
    · exact ⟨rfl, hknown⟩
    · exact ⟨(h.keyed userId found hold).1, known_after (h.keyed userId found hold).2⟩
  · exact fun hash userId hstored => known_after (h.emails hash userId hstored)
  · intro userId hmem
    obtain ⟨found, hentry, hindex⟩ := h.listed userId hmem
    have hne := hother userId (hentry.known h)
    exact ⟨found, ⟨(Function.update_of_ne hne _ _).trans hentry.stored, hentry.email, hentry.role⟩, hindex⟩
  · exact h.nodup
  · intro found from' hlast
    rw [getLast_after, Option.some.injEq] at hlast
    cases hlast
    refine ⟨⟨Function.update_self _ _ _, hemail, hrole⟩, ?_, ?_⟩
    · intro hmem
      obtain ⟨found, hentry, -⟩ := h.listed user.id hmem
      exact hother user.id (hentry.known h) rfl
    · rw [← habsent]
      exact userOfEmail_update fun hash hstored => hother user.id (h.emails hash user.id hstored) rfl
  · intro hash userId hlast
    rw [getLast_after] at hlast
    cases hlast
  · intro ids hlast
    rw [getLast_after] at hlast
    cases hlast

theorem indexed_indexed {hash : String} (h : Indexed z w)
    (he : Allowed z t quiet fresh w (.indexed hash userId)) :
    Indexed z (w.after (.indexed hash userId)) := by
  obtain ⟨-, user, origin, hlast, rfl, rfl⟩ := he
  obtain ⟨hentry, hunlisted, habsent⟩ := h.created user origin hlast
  constructor
  · exact h.named.after nofun
  · exact fun userId found hfound =>
      ⟨(h.keyed userId found hfound).1, known_after (h.keyed userId found hfound).2⟩
  · intro hash userId hstored
    rcases update_some_eq hstored with ⟨rfl, rfl⟩ | hold
    · exact known_after (hentry.known h)
    · exact known_after (h.emails hash userId hold)
  · intro userId hmem
    obtain ⟨found, hfound, hindex⟩ := h.listed userId hmem
    refine ⟨found, ⟨hfound.stored, hfound.email, hfound.role⟩, ?_⟩
    have hne : z.sha256Base64Url found.email ≠ z.sha256Base64Url user.email := by
      -- the index leads from the email of the new user to the one that is listed
      intro heq
      obtain ⟨field, hfield⟩ := hentry.email
      obtain ⟨role, huser⟩ := hfound.userAt
      have hname : userId ≠ "" := fun hempty => hfound.known h (hempty ▸ h.named)
      rw [userOfEmail, hfield, normalizeEmail_normalizeEmail, ← hfield, ← heq, hindex, Option.filter_some,
        if_pos (decide_eq_true hname), Option.bind_some, huser] at habsent
      cases habsent
    exact (Function.update_of_ne hne _ _).trans hindex
  · exact h.nodup
  · intro found from' hlast
    rw [getLast_after] at hlast
    cases hlast
  · intro hash userId heq
    rw [getLast_after, Option.some.injEq] at heq
    cases heq
    exact ⟨hunlisted, user, ⟨hentry.stored, hentry.email, hentry.role⟩, Function.update_self _ _ _⟩
  · intro ids hlast
    rw [getLast_after] at hlast
    cases hlast

theorem indexed_listed {ids : List String} (h : Indexed z w) (he : Allowed z t quiet fresh w (.listed ids)) :
    Indexed z (w.after (.listed ids)) := by
  obtain ⟨-, hash, userId, hlast, rfl⟩ := he
  obtain ⟨hunlisted, user, hentry, hindex⟩ := h.indexed hash userId hlast
  constructor
  · exact h.named.after nofun
  · exact fun userId found hfound =>
      ⟨(h.keyed userId found hfound).1, known_after (h.keyed userId found hfound).2⟩
  · exact fun hash userId hstored => known_after (h.emails hash userId hstored)
  · intro found hmem
    rcases List.mem_append.mp hmem with hbefore | hnew
    · obtain ⟨old, hold, hemail⟩ := h.listed found hbefore
      exact ⟨old, ⟨hold.stored, hold.email, hold.role⟩, hemail⟩
    · rw [List.mem_singleton.mp hnew]
      exact ⟨user, ⟨hentry.stored, hentry.email, hentry.role⟩, hindex⟩
  · show (w.store.userIds ++ [userId]).Nodup
    rw [← List.concat_eq_append, List.nodup_concat]
    exact ⟨hunlisted, h.nodup⟩
  · intro found from' hlast
    rw [getLast_after] at hlast
    cases hlast
  · intro hash found hlast
    rw [getLast_after] at hlast
    cases hlast
  · intro ids heq
    rw [getLast_after, Option.some.injEq] at heq
    cases heq
    rfl

/-- A record that is written again stays under its key and keeps its email. -/
theorem userStored_place {place : String} {user : StoredUpdateControlUser} (h : Indexed z w)
    (he : Allowed z t quiet fresh w (.userStored place user)) :
    ∃ value old, w.store.users place = some value ∧
      userAt z w.store place = some old ∧ user.id = place ∧ user.email = value.email ∧
      (∃ role, normalizeRole user.role = some role) ∧ old.status = value.status ∧
      (user.status = old.status ∨ (old.role = .admin → 2 ≤ adminCount z w.store)) := by
  obtain ⟨key, old, hold, hplace, hid, hemail, hrole, hstatus⟩ := he
  obtain ⟨value, role, hvalue, -, rfl⟩ := userAt_eq_some.mp hold
  have hkey : value.id = key := (h.keyed key value hvalue).1
  have heq : place = key := by
    rcases hplace with rfl | rfl
    · rfl
    · exact hkey
  subst heq
  exact ⟨value, _, hvalue, hold, hid.trans hkey, hemail, hrole, rfl, hstatus⟩

theorem indexed_userStored {place : String} {user : StoredUpdateControlUser} (h : Indexed z w)
    (he : Allowed z t quiet fresh w (.userStored place user)) :
    Indexed z (w.after (.userStored place user)) := by
  obtain ⟨value, old, hvalue, -, hid, hemail, hrole, -⟩ := userStored_place h he
  constructor
  · exact h.named.after nofun
  · intro userId found hfound
    rcases update_some_eq hfound with ⟨rfl, rfl⟩ | hold
    · exact ⟨hid, known_after (h.keyed _ _ hvalue).2⟩
    · exact ⟨(h.keyed userId found hold).1, known_after (h.keyed userId found hold).2⟩
  · exact fun hash userId hstored => known_after (h.emails hash userId hstored)
  · intro userId hmem
    obtain ⟨found, hentry, hindex⟩ := h.listed userId hmem
    by_cases heq : userId = place
    · subst heq
      have hsame : found = value := Option.some.inj (hentry.stored.symm.trans hvalue)
      refine ⟨user, ⟨Function.update_self _ _ _, ?_, hrole⟩, ?_⟩
      · rw [hemail, ← hsame]
        exact hentry.email
      · rw [hemail, ← hsame]
        exact hindex
    · exact ⟨found, ⟨(Function.update_of_ne heq _ _).trans hentry.stored, hentry.email, hentry.role⟩, hindex⟩
  · exact h.nodup
  · intro found from' hlast
    rw [getLast_after] at hlast
    cases hlast
  · intro hash found hlast
    rw [getLast_after] at hlast
    cases hlast
  · intro ids hlast
    rw [getLast_after] at hlast
    cases hlast

theorem indexed_step (h : Indexed z w) (hfresh : t.call.isEnrollment = true → fresh)
    (he : Allowed z t quiet fresh w e) : Indexed z (w.after e) := by
  cases e with
  | created user origin => exact indexed_created h (hfresh he.1) he
  | indexed hash userId => exact indexed_indexed h he
  | listed ids => exact indexed_listed h he
  | userStored place user => exact indexed_userStored h he
  | forgotten key => cases key <;> exact h.frame rfl rfl rfl (by simp) (by simp) (by simp)
  | _ => exact h.frame rfl rfl rfl (by simp) (by simp) (by simp)

end Index

section Administrators

variable {z : Environment} {t : Turn} {w w' : State} {e : Event} {quiet fresh : Prop} {userId : String}

theorem filterMap_length_le_one {α β : Type} {g : α → Option β} {l : List α} (hnodup : l.Nodup)
    (h : ∀ a ∈ l, ∀ b ∈ l, g a ≠ none → g b ≠ none → a = b) : (l.filterMap g).length ≤ 1 := by
  induction l with
  | nil => exact Nat.zero_le 1
  | cons a l ih =>
    rw [List.nodup_cons] at hnodup
    have hrest : ∀ b ∈ l, ∀ c ∈ l, g b ≠ none → g c ≠ none → b = c :=
      fun b hb c hc => h b (List.mem_cons_of_mem _ hb) c (List.mem_cons_of_mem _ hc)
    cases hg : g a with
    | none =>
      rw [List.filterMap_cons_none hg]
      exact ih hnodup.2 hrest
    | some found =>
      have hnone : l.filterMap g = [] := by
        rw [List.filterMap_eq_nil_iff]
        intro b hb
        by_contra hgb
        have heq := h a List.mem_cons_self b (List.mem_cons_of_mem _ hb) (by rw [hg]; exact nofun) hgb
        exact hnodup.1 (heq ▸ hb)
      rw [List.filterMap_cons_some hg, hnone]
      rfl

/-- The user is the administrator whose email is configured, and active. -/
def AdminAt (z : Environment) (s : Store) (userId : String) : Prop :=
  ∃ user, userAt z s userId = some user ∧ user.isActiveAdmin = true

theorem admin_email {user : UpdateControlUser} {value : StoredUpdateControlUser} {role : UpdateControlRole}
    (huser : user = withRole value (roleOf z value role)) (hadmin : user.isActiveAdmin = true) :
    normalizeEmail z value.email = normalizeEmail z z.config.bootstrapAdminEmail ∧
    value.status = .active := by
  rw [UserOf.isActiveAdmin, Bool.and_eq_true, decide_eq_true_eq, decide_eq_true_eq] at hadmin
  obtain ⟨hstatus, hrole⟩ := hadmin
  rw [huser] at hstatus hrole
  refine ⟨?_, hstatus⟩
  by_contra hother
  rw [withRole, roleOf_eq, if_neg hother] at hrole
  cases hrole

theorem Indexed.admin_unique (h : Indexed z w) {other : String} (hlisted : userId ∈ w.store.userIds)
    (hadmin : AdminAt z w.store userId) (hother : other ∈ w.store.userIds)
    (hadmin' : AdminAt z w.store other) :
    userId = other := by
  have hindex : ∀ id ∈ w.store.userIds, AdminAt z w.store id →
      w.store.emails (z.sha256Base64Url (normalizeEmail z z.config.bootstrapAdminEmail)) = some id := by
    intro id hid hat
    obtain ⟨value, hentry, hemail⟩ := h.listed id hid
    obtain ⟨user, huser, hactive⟩ := hat
    obtain ⟨found, role, hfound, -, heq⟩ := userAt_eq_some.mp huser
    have hsame : found = value := Option.some.inj (hfound.symm.trans hentry.stored)
    obtain ⟨field, hfield⟩ := hentry.email
    rw [← (admin_email heq hactive).1, hsame, hfield, normalizeEmail_normalizeEmail, ← hfield]
    exact hemail
  have hboth := (hindex userId hlisted hadmin).symm.trans (hindex other hother hadmin')
  exact Option.some.inj hboth

theorem Indexed.adminCount_le_one (h : Indexed z w) : adminCount z w.store ≤ 1 := by
  rw [adminCount, List.filter_filterMap]
  apply filterMap_length_le_one h.nodup
  intro a ha b hb hga hgb
  have hadmin : ∀ id, (userAt z w.store id).filter UserOf.isActiveAdmin ≠ none → AdminAt z w.store id := by
    intro id hne
    obtain ⟨user, huser⟩ := Option.ne_none_iff_exists'.mp hne
    obtain ⟨hat, hactive⟩ := Option.filter_eq_some_iff.mp huser
    exact ⟨user, hat, hactive⟩
  exact h.admin_unique ha (hadmin a hga) hb (hadmin b hgb)

/-- A record that is written again keeps its administrator. -/
theorem adminAt_userStored {place : String} {user : StoredUpdateControlUser} (h : Indexed z w)
    (he : Allowed z t quiet fresh w (.userStored place user)) (hadmin : AdminAt z w.store userId) :
    AdminAt z (w.after (.userStored place user)).store userId := by
  obtain ⟨value, old, hvalue, hold, hid, hemail, ⟨role, hrole⟩, hstatus, hkept⟩ := userStored_place h he
  obtain ⟨admin, hat, hactive⟩ := hadmin
  by_cases heq : userId = place
  · subst heq
    have hsame : admin = old := Option.some.inj (hat.symm.trans hold)
    subst hsame
    obtain ⟨found, foundRole, hfound, -, hwith⟩ := userAt_eq_some.mp hat
    have hvalueEq : found = value := Option.some.inj (hfound.symm.trans hvalue)
    subst hvalueEq
    obtain ⟨hadminEmail, hstored⟩ := admin_email hwith hactive
    have hadminRole : admin.role = .admin := by
      rw [UserOf.isActiveAdmin, Bool.and_eq_true] at hactive
      exact of_decide_eq_true hactive.2
    have hsameStatus : user.status = .active := by
      rcases hkept with hsame | hmany
      · rw [hsame, hstatus, hstored]
      · exact absurd (hmany hadminRole) (by have := h.adminCount_le_one; omega)
    refine ⟨withRole user (roleOf z user role), ?_, ?_⟩
    · exact userAt_eq_some.mpr ⟨user, role, Function.update_self _ _ _, hrole, rfl⟩
    · rw [roleOf_eq, hemail, if_pos hadminEmail, UserOf.isActiveAdmin, Bool.and_eq_true]
      exact ⟨decide_eq_true hsameStatus, rfl⟩
  · refine ⟨admin, ?_, hactive⟩
    rw [← hat]
    simp only [userAt, State.after, Store.after]
    rw [Function.update_of_ne heq]

end Administrators

section Progress

variable (z : Environment)

/-- An active administrator is listed and has a credential. -/
def Completed (s : Store) : Prop :=
  ∃ userId ∈ s.userIds, AdminAt z s userId ∧ ∃ credential, s.credentials userId = some credential

/-- Nobody has been enrolled: the only records of users are left from
enrollments of the administrator. -/
structure Unattended (w : State) : Prop where
  credentials : ∀ userId, w.store.credentials userId = none
  sessions : ∀ key, w.store.sessions key = none
  invitations : ∀ hash, w.store.invitations hash = none
  enrollments : ∀ state pending, w.store.enrollments state = some pending → pending.kind = .bootstrap
  accepted : ∀ factor credential now, .accepted factor credential now ∉ w.log
  presented : ∀ key session user now, .presented key session user now ∉ w.log
  users : ∀ userId user, w.store.users userId = some user →
    normalizeEmail z user.email = normalizeEmail z z.config.bootstrapAdminEmail ∧ user.status = .active ∧
      ∃ role, normalizeRole user.role = some role

variable {z} {t : Turn} {m : Moment} {w w' : State} {e : Event} {quiet fresh : Prop} {userId : String}

theorem Unattended.adminAt {user : StoredUpdateControlUser} (h : Unattended z w)
    (huser : w.store.users userId = some user) : AdminAt z w.store userId := by
  obtain ⟨hemail, hstatus, role, hrole⟩ := h.users userId user huser
  refine ⟨withRole user (roleOf z user role), userAt_eq_some.mpr ⟨user, role, huser, hrole, rfl⟩, ?_⟩
  rw [roleOf_eq, if_pos hemail, UserOf.isActiveAdmin, Bool.and_eq_true]
  exact ⟨decide_eq_true hstatus, rfl⟩

/-- An event that enrolls and admits nobody. -/
theorem Unattended.frame (h : Unattended z w)
    (hcredentials : (w.after e).store.credentials = w.store.credentials)
    (hsessions : ∀ key, (w.after e).store.sessions key = none)
    (hinvitations : ∀ hash, (w.after e).store.invitations hash = none)
    (henrollments : ∀ state pending, (w.after e).store.enrollments state = some pending →
      pending.kind = .bootstrap)
    (husers : ∀ userId user, (w.after e).store.users userId = some user →
      normalizeEmail z user.email = normalizeEmail z z.config.bootstrapAdminEmail ∧ user.status = .active ∧
        ∃ role, normalizeRole user.role = some role)
    (haccepted : ∀ factor credential now, .accepted factor credential now ≠ e)
    (hpresented : ∀ key session user now, .presented key session user now ≠ e) :
    Unattended z (w.after e) where
  credentials := by
    rw [hcredentials]
    exact h.credentials
  sessions := hsessions
  invitations := hinvitations
  enrollments := henrollments
  accepted := by
    intro factor credential now hmem
    rcases List.mem_append.mp hmem with hbefore | hlast
    · exact h.accepted factor credential now hbefore
    · exact haccepted factor credential now (List.mem_singleton.mp hlast)
  presented := by
    intro key session user now hmem
    rcases List.mem_append.mp hmem with hbefore | hlast
    · exact h.presented key session user now hbefore
    · exact hpresented key session user now (List.mem_singleton.mp hlast)
  users := husers

theorem update_none_of_none {α β : Type} [DecidableEq α] {f : α → Option β} (h : ∀ a, f a = none) (a x : α) :
    Function.update f a none x = none := by
  by_cases hx : x = a
  · rw [hx]
    exact Function.update_self _ _ _
  · rw [Function.update_of_ne hx]
    exact h x

theorem unattended_step (h : Unattended z w) (hindexed : Indexed z w) (he : Allowed z t quiet fresh w e)
    (henrolled : ∀ credential counter, e ≠ .enrolled credential counter) : Unattended z (w.after e) := by
  have hframe : (w.after e).store.credentials = w.store.credentials →
      (∀ key, (w.after e).store.sessions key = none) → (∀ hash, (w.after e).store.invitations hash = none) →
      (w.after e).store.enrollments = w.store.enrollments → (w.after e).store.users = w.store.users →
      (∀ factor credential now, .accepted factor credential now ≠ e) →
      (∀ key session user now, .presented key session user now ≠ e) → Unattended z (w.after e) := by
    intro hcredentials hsessions hinvitations henrollments husers
    exact h.frame hcredentials hsessions hinvitations (by rw [henrollments]; exact h.enrollments)
      (by rw [husers]; exact h.users)
  cases e with
  | created user origin =>
    obtain ⟨-, -, -, -, hstatus, -, -, hrole, -, horigin⟩ := he
    refine h.frame rfl h.sessions h.invitations h.enrollments ?_ (by simp) (by simp)
    intro userId found hfound
    rcases update_some_eq hfound with ⟨-, rfl⟩ | hold
    · cases origin with
      | bootstrap =>
        refine ⟨?_, hstatus, hrole⟩
        rw [horigin.2, normalizeEmail_normalizeEmail]
      | invitation hash =>
        obtain ⟨invitation, hstored⟩ := horigin
        rw [h.invitations] at hstored
        cases hstored
    · exact h.users userId found hold
  | userStored place user =>
    obtain ⟨value, old, hvalue, hold, hid, hemail, hrole, hstatus, hkept⟩ := userStored_place hindexed he
    obtain ⟨hadmin, hactive, -⟩ := h.users place value hvalue
    refine h.frame rfl h.sessions h.invitations h.enrollments ?_ (by simp) (by simp)
    intro userId found hfound
    rcases update_some_eq hfound with ⟨-, rfl⟩ | hbefore
    · refine ⟨hemail ▸ hadmin, ?_, hrole⟩
      rcases hkept with hsame | hmany
      · rw [hsame, hstatus, hactive]
      · obtain ⟨admin, hat, hisAdmin⟩ := h.adminAt hvalue
        rw [Option.some.inj (hat.symm.trans hold), UserOf.isActiveAdmin, Bool.and_eq_true] at hisAdmin
        exact absurd (hmany (of_decide_eq_true hisAdmin.2)) (by have := hindexed.adminCount_le_one; omega)
    · exact h.users userId found hbefore
  | enrolled credential counter => exact absurd rfl (henrolled credential counter)
  | failed credential now =>
    obtain ⟨-, old, hold, -⟩ := he
    rw [h.credentials] at hold
    cases hold
  | accepted factor credential now =>
    obtain ⟨-, -, old, hold, -⟩ := he
    rw [h.credentials] at hold
    cases hold
  | invited hash invitation =>
    obtain ⟨-, ⟨old, hold⟩ | ⟨-, key, session, user, hpresented, -⟩⟩ := he
    · rw [h.invitations] at hold
      cases hold
    · exact absurd hpresented (h.presented _ _ _ _)
  | invitationClosed hash =>
    exact hframe rfl h.sessions (update_none_of_none h.invitations hash) rfl rfl (by simp) (by simp)
  | enrollmentStored pending =>
    obtain ⟨-, hjoin⟩ := he
    refine h.frame rfl h.sessions h.invitations ?_ h.users (by simp) (by simp)
    intro state found hfound
    rcases update_some_eq hfound with ⟨-, rfl⟩ | hold
    · cases hkind : pending.kind with
      | bootstrap => rfl
      | join =>
        obtain ⟨hash, invitation, -, hstored⟩ := hjoin hkind
        rw [h.invitations] at hstored
        cases hstored
    · exact h.enrollments state found hold
  | enrollmentClosed state =>
    exact h.frame rfl h.sessions h.invitations
      (fun place pending hfound => h.enrollments place pending (update_none_eq hfound)) h.users
        (by simp) (by simp)
  | sessionOpened key session =>
    obtain ⟨-, factor, credential, haccepted, -⟩ := he
    exact absurd haccepted (h.accepted _ _ _)
  | sessionClosed key =>
    exact hframe rfl (update_none_of_none h.sessions key) h.invitations rfl rfl (by simp) (by simp)
  | presented key session user now =>
    obtain ⟨-, hsession, -⟩ := he
    rw [h.sessions] at hsession
    cases hsession
  | forgotten key =>
    cases key with
    | adminSession hash =>
      exact hframe rfl (update_none_of_none h.sessions (.admin hash)) h.invitations rfl rfl
        (by simp) (by simp)
    | _ => exact hframe rfl h.sessions h.invitations rfl rfl (by simp) (by simp)
  | _ => exact hframe rfl h.sessions h.invitations rfl rfl (by simp) (by simp)

/-- The credential of the administrator completes the enrollment. -/
theorem completed_enrolled {credential : TotpCredential} {counter : ℕ} (h : Unattended z w)
    (hindexed : Indexed z w) (he : Allowed z t quiet fresh w (.enrolled credential counter)) :
    Completed z (w.after (.enrolled credential counter)).store := by
  obtain ⟨-, before, secret, hlast, -⟩ := he
  have hids := hindexed.last _ hlast
  have hmem : credential.userId ∈ w.store.userIds := by
    rw [hids]
    exact List.mem_append_right _ List.mem_cons_self
  obtain ⟨user, hentry, -⟩ := hindexed.listed _ hmem
  exact ⟨credential.userId, hmem, h.adminAt hentry.stored, credential, Function.update_self _ _ _⟩

theorem completed_frame (h : Completed z w.store) (hids : (w.after e).store.userIds = w.store.userIds)
    (hadmin : ∀ userId ∈ w.store.userIds, AdminAt z w.store userId → AdminAt z (w.after e).store userId)
    (hcredentials : ∀ userId credential, w.store.credentials userId = some credential →
      ∃ later, (w.after e).store.credentials userId = some later) : Completed z (w.after e).store := by
  obtain ⟨userId, hmem, hat, credential, hcredential⟩ := h
  exact ⟨userId, hids ▸ hmem, hadmin userId hmem hat, hcredentials userId credential hcredential⟩

theorem update_some_of_some {α β : Type} [DecidableEq α] {f : α → Option β} {x : α} {b : β} (h : f x = some b)
    (a : α) (c : β) : ∃ later, Function.update f a (some c) x = some later := by
  by_cases hx : x = a
  · rw [hx]
    exact ⟨c, Function.update_self _ _ _⟩
  · rw [Function.update_of_ne hx]
    exact ⟨b, h⟩

theorem completed_step (h : Completed z w.store) (hindexed : Indexed z w)
    (hfresh : t.call.isEnrollment = true → fresh) (he : Allowed z t quiet fresh w e) :
    Completed z (w.after e).store := by
  have hsame : ∀ (userId : String) (credential : TotpCredential), w.store.credentials userId =
    some credential →
      ∃ later, w.store.credentials userId = some later := fun _ credential hc => ⟨credential, hc⟩
  cases e with
  | created user origin =>
    obtain ⟨hcall, -, hnew, hid, -⟩ := he
    refine completed_frame h rfl ?_ hsame
    intro userId hmem hadmin
    obtain ⟨found, hentry, -⟩ := hindexed.listed userId hmem
    have hne : userId ≠ user.id := fun heq => hentry.known hindexed (heq ▸ hid ▸ hnew (hfresh hcall))
    obtain ⟨admin, hat, hactive⟩ := hadmin
    refine ⟨admin, ?_, hactive⟩
    rw [← hat]
    simp only [userAt, State.after, Store.after]
    rw [Function.update_of_ne hne]
  | listed ids =>
    obtain ⟨-, hash, newId, -, rfl⟩ := he
    obtain ⟨userId, hmem, hat, credential, hcredential⟩ := h
    exact ⟨userId, List.mem_append_left _ hmem, hat, credential, hcredential⟩
  | userStored place user => exact completed_frame h rfl (fun _ _ => adminAt_userStored hindexed he) hsame
  | enrolled credential counter =>
    exact completed_frame h rfl (fun _ _ hat => hat) fun _ _ hc => update_some_of_some hc _ _
  | failed credential now =>
    exact completed_frame h rfl (fun _ _ hat => hat) fun _ _ hc => update_some_of_some hc _ _
  | accepted factor credential now =>
    exact completed_frame h rfl (fun _ _ hat => hat) fun _ _ hc => update_some_of_some hc _ _
  | forgotten key => cases key <;> exact completed_frame h rfl (fun _ _ hat => hat) hsame
  | _ => exact completed_frame h rfl (fun _ _ hat => hat) hsame

/-- Until the administrator is enrolled, nobody is. -/
structure Progressed (z : Environment) (w : State) : Prop where
  indexed : Indexed z w
  progress : Unattended z w ∨ Completed z w.store

theorem progressed_step (h : Progressed z w) (hfresh : t.call.isEnrollment = true → fresh)
    (he : Allowed z t quiet fresh w e) : Progressed z (w.after e) := by
  refine ⟨indexed_step h.indexed hfresh he, ?_⟩
  rcases h.progress with hnobody | hdone
  · cases e with
    | enrolled credential counter => exact .inr (completed_enrolled hnobody h.indexed he)
    | _ => exact .inl (unattended_step hnobody h.indexed he (by simp))
  · exact .inr (completed_step hdone h.indexed hfresh he)

variable {legacy : List PendingLogin}

theorem progressed_initial : Progressed z (Moment.initial legacy).state := by
  apply foldl_invariant
  · refine ⟨?_, .inl ?_⟩
    · constructor
      case nodup => exact List.nodup_nil
      case named => exact fun _ _ hmem => absurd hmem List.not_mem_nil
      all_goals intros; contradiction
    · constructor
      case accepted => exact fun _ _ _ => List.not_mem_nil
      case presented => exact fun _ _ _ _ => List.not_mem_nil
      all_goals intros; first | rfl | contradiction
  · intro w e hw he
    obtain ⟨pending, -, rfl⟩ := List.mem_map.mp he
    have hallowed :
      Allowed z ⟨.beginBootstrapEnrollment, 0, { sampleRandoms '0' with state := pending.state }⟩
        False False w (.loginStored pending) := rfl
    exact progressed_step hw (fun h => by cases h) hallowed

theorem progressed_reached (h : CutReached z legacy m) : Progressed z m.state := by
  apply h.invariant
  · exact progressed_initial
  · intro m c hm htimely
    exact cut_invariant htimely hm fun fresh w e hw hfresh he => progressed_step hw hfresh he

end Progress

end AccessStack.Identity
