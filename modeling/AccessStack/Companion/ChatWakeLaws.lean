import AccessStack.Companion.ChatWake

/-!
# What an attempt knows

A text shows every event it is made of, if there are not too many of a kind.
The groups of an attempt are parts of what is open. Whatever an attempt or a
call does, nothing but a queued event is new.
-/

set_option autoImplicit false

namespace AccessStack.ChatWake
open AccessStack.Runs AccessStack.Text AccessStack.JsonText

section Texts

/-- The id that a note is about. -/
def ChatWakeEvent.id? : ChatWakeEvent → Option String
  | .message _ _ _ => none
  | .task taskId _ _ _ => some taskId
  | .checks watchId _ _ _ _ => some watchId
  | .handback tabId _ => some tabId
  | .update updateId _ _ => some updateId

/-- The text has the words of a message, and a note with the id of any other event. -/
structure Shown (text : String) (event : ChatWakeEvent) : Prop where
  noted : event.note.toList <:+: text.toList
  named : ∀ id, event.id? = some id → id.toList <:+: event.note.toList

/-- There are not more of a kind than a text takes. -/
structure Rendered (events : List ChatWakeEvent) : Prop where
  handbacks : (events.filter ChatWakeEvent.isHandback).length ≤ maxHandbacks
  tasks : (events.filter ChatWakeEvent.isTask).length ≤ maxTasks
  checks : (events.filter ChatWakeEvent.isChecks).length ≤ maxChecks
  updates : (events.filter ChatWakeEvent.isUpdate).length ≤ maxUpdates

instance (events : List ChatWakeEvent) : Decidable (Rendered events) :=
  decidable_of_iff ((events.filter ChatWakeEvent.isHandback).length ≤ maxHandbacks ∧
      (events.filter ChatWakeEvent.isTask).length ≤ maxTasks ∧
        (events.filter ChatWakeEvent.isChecks).length ≤ maxChecks ∧
      (events.filter ChatWakeEvent.isUpdate).length ≤ maxUpdates)
    ⟨fun h => ⟨h.1, h.2.1, h.2.2.1, h.2.2.2⟩, fun h => ⟨h.1, h.2, h.3, h.4⟩⟩

theorem infix_intercalate {sep text : String} {texts : List String} (h : text ∈ texts) :
    text.toList <:+: (sep.intercalate texts).toList := by
  induction texts with
  | nil => exact absurd h List.not_mem_nil
  | cons first rest ih =>
    cases rest with
    | nil =>
      rw [List.mem_singleton.mp h, String.intercalate_singleton]
    | cons second rest =>
      rw [String.intercalate_cons_cons, String.toList_append, String.toList_append]
      rcases List.mem_cons.mp h with rfl | hrest
      · rw [List.append_assoc]
        exact (List.prefix_append _ _).isInfix
      · exact (ih hrest).trans (List.suffix_append _ _).isInfix

theorem mem_notesOf {events : List ChatWakeEvent} {ofKind : ChatWakeEvent → Bool} {limit : ℕ}
    {event : ChatWakeEvent} (hlimit : (events.filter ofKind).length ≤ limit)
    (hevent : event ∈ events) (hkind : ofKind event = true) :
    event.note ∈ notesOf events ofKind limit := by
  unfold notesOf
  rw [List.take_of_length_le hlimit]
  exact List.mem_map_of_mem (List.mem_filter.mpr ⟨hevent, hkind⟩)

theorem mem_wakeNotes {events : List ChatWakeEvent} (h : Rendered events) {event : ChatWakeEvent}
    (hevent : event ∈ events) (hnote : event.isMessage = false) : event.note ∈ wakeNotes events := by
  unfold wakeNotes
  rw [List.mem_append, List.mem_append, List.mem_append]
  cases event with
  | message => exact absurd hnote nofun
  | handback => exact .inl (.inl (.inl (mem_notesOf h.handbacks hevent rfl)))
  | task => exact .inl (.inl (.inr (mem_notesOf h.tasks hevent rfl)))
  | checks => exact .inl (.inr (mem_notesOf h.checks hevent rfl))
  | update => exact .inr (mem_notesOf h.updates hevent rfl)

theorem note_named (event : ChatWakeEvent) (id : String) (hid : event.id? = some id) :
    id.toList <:+: event.note.toList := by
  have hlater : ∀ before after : List Char, id.toList <:+: after → id.toList <:+: before ++ after :=
    fun before after h => h.trans (List.suffix_append _ _).isInfix
  have hhere : ∀ after : List Char, id.toList <:+: id.toList ++ after := fun after =>
    (List.prefix_append _ _).isInfix
  cases event with
  | message => exact absurd hid nofun
  | task taskId workspaceId state exitCode =>
    obtain rfl : taskId = id := Option.some.inj hid
    unfold ChatWakeEvent.note
    simp only [String.toList_append, List.append_assoc]
    exact hlater _ _ (hhere _)
  | checks watchId workspaceId repository commitSha state =>
    obtain rfl : watchId = id := Option.some.inj hid
    unfold ChatWakeEvent.note
    simp only [String.toList_append, List.append_assoc]
    refine hlater _ _ (hlater _ _ (hlater _ _ (hlater _ _ (hlater _ _ (hlater _ _ (hlater _ _ ?_))))))
    exact hhere _
  | handback tabId reason =>
    obtain rfl : tabId = id := Option.some.inj hid
    unfold ChatWakeEvent.note
    simp only [String.toList_append, List.append_assoc]
    exact hlater _ _ (hhere _)
  | update updateId workspaceId state =>
    obtain rfl : updateId = id := Option.some.inj hid
    unfold ChatWakeEvent.note
    simp only [String.toList_append, List.append_assoc]
    exact hlater _ _ (hhere _)

theorem text_shows {events : List ChatWakeEvent} (h : Rendered events) {event : ChatWakeEvent}
    (hevent : event ∈ events) :
    Shown (chatWakeText events) event := by
  refine ⟨?_, note_named event⟩
  unfold chatWakeText
  cases hmessage : event.isMessage with
  | true =>
    cases hempty : event.note.isEmpty with
    | true =>
      rw [String.isEmpty_iff.mp hempty]
      exact List.nil_infix
    | false =>
      apply infix_intercalate
      apply List.mem_append_left
      refine List.mem_filter.mpr ⟨List.mem_map_of_mem (List.mem_filter.mpr ⟨hevent, hmessage⟩), ?_⟩
      rw [hempty]
      rfl
  | false =>
    have hnote := mem_wakeNotes h hevent hmessage
    have hsome : wakeNotes events ≠ [] := List.ne_nil_of_mem hnote
    dsimp only
    rw [if_neg hsome]
    exact (infix_intercalate hnote).trans
      (infix_intercalate (List.mem_append_right _ (List.mem_singleton.mpr rfl)))

end Texts

section Groups

variable {options : Options} {owners : Queued → Option String} {events : List Queued}

/-- A part of the events, of one owner if owners are known. -/
structure GroupOf (options : Options) (owners : Queued → Option String) (events : List Queued)
    (g : Group) : Prop where
  part : g.2.Sublist events
  owned : options.routed = true → ∀ e ∈ g.2, ∃ owner, g.1 = some owner ∧ owners e = some owner

theorem GroupOf.append (e : Queued) {g : Group} (h : GroupOf options owners events g) :
    GroupOf options owners (events ++ [e]) g :=
  ⟨h.part.trans (List.sublist_append_left _ _), h.owned⟩

theorem addToGroup_groupOf {groups : List Group} (h : ∀ g ∈ groups, GroupOf options owners events g)
    {owner : Option String} {e : Queued}
    (howner : options.routed = true → ∃ c, owner = some c ∧ owners e = some c) :
    ∀ g ∈ addToGroup groups owner e, GroupOf options owners (events ++ [e]) g := by
  intro g hg
  unfold addToGroup at hg
  split_ifs at hg
  · obtain ⟨g', hg', rfl⟩ := List.mem_map.mp hg
    split_ifs with hsame
    · refine ⟨(h g' hg').part.append (List.Sublist.refl _), ?_⟩
      intro hrouted e' he'
      rcases List.mem_append.mp he' with hold | hnew
      · exact (h g' hg').owned hrouted e' hold
      · obtain ⟨c, hc, hown⟩ := howner hrouted
        rw [List.mem_singleton.mp hnew]
        exact ⟨c, hsame.trans hc, hown⟩
    · exact (h g' hg').append e
  · rcases List.mem_append.mp hg with hold | hnew
    · exact (h g hold).append e
    · rw [List.mem_singleton.mp hnew]
      refine ⟨List.sublist_append_right _ _, ?_⟩
      intro hrouted e' he'
      rw [List.mem_singleton.mp he']
      exact howner hrouted

theorem placeEvent_groupOf {groups : List Group} (h : ∀ g ∈ groups, GroupOf options owners events g)
    (e : Queued) :
    ∀ g ∈ placeEvent options owners groups e, GroupOf options owners (events ++ [e]) g := by
  unfold placeEvent
  split_ifs with hrouted
  · split
    · exact fun g hg => (h g hg).append e
    · rename_i owner howner
      exact addToGroup_groupOf h fun _ => ⟨owner, rfl, howner⟩
  · exact addToGroup_groupOf h fun hnot => absurd hnot hrouted

theorem groupEvents_groupOf (options : Options) (owners : Queued → Option String) (events : List Queued) :
    ∀ g ∈ groupEvents options owners events, GroupOf options owners events g := by
  unfold groupEvents
  induction events using List.reverseRecOn with
  | nil => exact fun g hg => absurd hg List.not_mem_nil
  | append_singleton events e ih =>
    rw [List.foldl_append, List.foldl_cons, List.foldl_nil]
    exact placeEvent_groupOf ih e

end Groups

section Schedule

variable (options : Options) (s : State) (delayMs now : ℤ)

/-- Nothing but the timer is set. -/
theorem schedule_cases : ∃ timer, s.schedule options delayMs now = { s with timer } := by
  unfold State.schedule
  split_ifs
  · exact ⟨s.timer, rfl⟩
  · exact ⟨_, rfl⟩

@[simp] theorem schedule_pending : (s.schedule options delayMs now).pending = s.pending := by
  obtain ⟨timer, h⟩ := schedule_cases options s delayMs now
  rw [h]

@[simp] theorem schedule_running : (s.schedule options delayMs now).running = s.running := by
  obtain ⟨timer, h⟩ := schedule_cases options s delayMs now
  rw [h]

@[simp] theorem schedule_sentTasks : (s.schedule options delayMs now).sentTasks = s.sentTasks := by
  obtain ⟨timer, h⟩ := schedule_cases options s delayMs now
  rw [h]

@[simp] theorem schedule_queued : (s.schedule options delayMs now).queued = s.queued := by
  obtain ⟨timer, h⟩ := schedule_cases options s delayMs now
  rw [h]

@[simp] theorem schedule_sent : (s.schedule options delayMs now).sent = s.sent := by
  obtain ⟨timer, h⟩ := schedule_cases options s delayMs now
  rw [h]

@[simp] theorem schedule_gone : (s.schedule options delayMs now).gone = s.gone := by
  obtain ⟨timer, h⟩ := schedule_cases options s delayMs now
  rw [h]

@[simp] theorem schedule_attempts : (s.schedule options delayMs now).attempts = s.attempts := by
  obtain ⟨timer, h⟩ := schedule_cases options s delayMs now
  rw [h]

@[simp] theorem schedule_disables : (s.schedule options delayMs now).disables = s.disables := by
  obtain ⟨timer, h⟩ := schedule_cases options s delayMs now
  rw [h]

@[simp] theorem schedule_enabled : (s.schedule options delayMs now).enabled = s.enabled := by
  obtain ⟨timer, h⟩ := schedule_cases options s delayMs now
  rw [h]

@[simp] theorem schedule_closed : (s.schedule options delayMs now).closed = s.closed := by
  obtain ⟨timer, h⟩ := schedule_cases options s delayMs now
  rw [h]

end Schedule

section Attempts

variable {options : Options} {s t : State} {a a' : Attempt} {host : Host}
  {outcome : ChatWakeOutcome} {e : Queued}

def State.flying (s : State) : Option Attempt :=
  match s.running with
  | some (.delivering a) => some a
  | _ => none

@[simp] theorem schedule_flying (delayMs now : ℤ) : (s.schedule options delayMs now).flying = s.flying := by
  unfold State.flying
  rw [schedule_running]

theorem flying_some (h : s.flying = some a) : s.running = some (.delivering a) := by
  unfold State.flying at h
  split at h
  · rename_i hrunning
    cases h
    exact hrunning
  · exact absurd h nofun

/-- The groups are parts of what was open, and every message that was open is among it. -/
structure Flying (options : Options) (a : Attempt) : Prop where
  nodup : a.stillOpen.Nodup
  snapped : ∀ e ∈ a.stillOpen, e ∈ a.snapshot
  batch : GroupOf options a.owners a.stillOpen (a.conversationId, a.batch)
  groups : ∀ g ∈ a.groups, GroupOf options a.owners a.stillOpen g
  messages : ∀ e ∈ a.snapshot, e.event.isMessage = true → a.isOpen e = true → e ∈ a.stillOpen

/-- The attempt goes on with another group or place. -/
structure Attempt.Continues (a a' : Attempt) : Prop where
  number : a'.number = a.number
  snapshot : a'.snapshot = a.snapshot
  stillOpen : a'.stillOpen = a.stillOpen
  isOpen : a'.isOpen = a.isOpen
  owners : a'.owners = a.owners
  disables : a'.disables = a.disables
  batch : (a'.conversationId, a'.batch) = (a.conversationId, a.batch) ∨
    (a'.conversationId, a'.batch) ∈ a.groups
  groups : ∀ g ∈ a'.groups, g ∈ a.groups

theorem Flying.continues (h : Flying options a) (hcontinues : a.Continues a') : Flying options a' := by
  refine ⟨?_, ?_, ?_, ?_, ?_⟩
  · rw [hcontinues.stillOpen]
    exact h.nodup
  · rw [hcontinues.stillOpen, hcontinues.snapshot]
    exact h.snapped
  · rw [hcontinues.owners, hcontinues.stillOpen]
    rcases hcontinues.batch with hsame | hnext
    · rw [hsame]
      exact h.batch
    · exact h.groups _ hnext
  · rw [hcontinues.owners, hcontinues.stillOpen]
    exact fun g hg => h.groups g (hcontinues.groups g hg)
  · rw [hcontinues.snapshot, hcontinues.isOpen, hcontinues.stillOpen]
    exact h.messages

theorem nextGroup_cases (options : Options) (s : State) (host : Host) (a : Attempt) (groups : List Group)
    (hgroups : ∀ g ∈ groups, g ∈ a.groups) :
    (∀ g ∈ groups, host.targets g.1 = 0) ∧ s.nextGroup options host a groups = s.giveUp options a host.now ∨
    ∃ a', a.Continues a' ∧
    s.nextGroup options host a groups = { s with running := some (.delivering a') } := by
  induction groups with
  | nil => exact .inl ⟨nofun, rfl⟩
  | cons g groups ih =>
    obtain ⟨conversationId, batch⟩ := g
    obtain ⟨hfirst, hrest⟩ := List.forall_mem_cons.mp hgroups
    unfold State.nextGroup
    split_ifs with hnone
    · rcases ih hrest with ⟨hall, heq⟩ | hcontinues
      · exact .inl ⟨List.forall_mem_cons.mpr ⟨hnone, hall⟩, heq⟩
      · exact .inr hcontinues
    · exact .inr ⟨{ a with conversationId, batch, targetsLeft := host.targets conversationId - 1, groups },
        ⟨rfl, rfl, rfl, rfl, rfl, rfl, .inr hfirst, hrest⟩, rfl⟩

/-- The attempt ends with this outcome, and nothing has been sent. -/
def Attempt.Last (a : Attempt) (outcome : ChatWakeOutcome) (host : Host) : Prop :=
  outcome ≠ .sent ∧ (outcome = .busy ∨ outcome = .typing ∨ a.targetsLeft = 0) ∧ ∀ g ∈ a.groups,
    host.targets g.1 = 0

instance (a : Attempt) (outcome : ChatWakeOutcome) (host : Host) : Decidable (a.Last outcome host) :=
  inferInstanceAs (Decidable (outcome ≠ .sent ∧ (outcome = .busy ∨ outcome = .typing ∨ a.targetsLeft = 0) ∧
    ∀ g ∈ a.groups, host.targets g.1 = 0))

theorem delivered_cases (ha : s.flying = some a) (outcome : ChatWakeOutcome) (host : Host) :
    outcome = .sent ∧ s.delivered options outcome host = s.acknowledge options a host.now ∨
    a.Last outcome host ∧ s.delivered options outcome host = s.giveUp options a host.now ∨
    outcome ≠ .sent ∧ ∃ a', a.Continues a' ∧
      s.delivered options outcome host = { s with running := some (.delivering a') } := by
  have hnext := nextGroup_cases options s host a a.groups fun _ => id
  unfold State.delivered
  rw [flying_some ha]
  cases outcome with
  | sent => exact .inl ⟨rfl, rfl⟩
  | busy =>
    rcases hnext with ⟨hall, heq⟩ | hcontinues
    · exact .inr (.inl ⟨⟨nofun, .inl rfl, hall⟩, heq⟩)
    · exact .inr (.inr ⟨nofun, hcontinues⟩)
  | typing =>
    rcases hnext with ⟨hall, heq⟩ | hcontinues
    · exact .inr (.inl ⟨⟨nofun, .inr (.inl rfl), hall⟩, heq⟩)
    · exact .inr (.inr ⟨nofun, hcontinues⟩)
  | unavailable | elsewhere | failed =>
    dsimp only
    split_ifs with hleft
    · rcases hnext with ⟨hall, heq⟩ | hcontinues
      · exact .inr (.inl ⟨⟨nofun, .inr (.inr hleft), hall⟩, heq⟩)
      · exact .inr (.inr ⟨nofun, hcontinues⟩)
    · exact .inr (.inr ⟨nofun, { a with targetsLeft := a.targetsLeft - 1 },
        ⟨rfl, rfl, rfl, rfl, rfl, rfl, .inl rfl, fun _ => id⟩, rfl⟩)

theorem open_message (he : e ∈ s.pending) (hmessage : e.event.isMessage = true)
    (hopen : host.isOpen e = true) :
    e ∈ s.openEvents options host := by
  refine List.mem_filter.mpr ⟨he, ?_⟩
  rw [hmessage, hopen]
  rfl

theorem attempt_flying (hnodup : s.pending.Nodup) (host : Host) :
    Flying options (s.attempt options host) where
  nodup := hnodup.filter _
  snapped := fun _ he => (List.mem_filter.mp he).1
  batch := ⟨List.nil_sublist _, fun _ _ he => absurd he List.not_mem_nil⟩
  groups := groupEvents_groupOf options _ _
  messages := fun _ he hmessage hopen => open_message he hmessage hopen

theorem run_cases (options : Options) (s : State) (host : Host) :
    (s.enabled = false ∨ s.pending = []) ∧ s.run options host = { s with running := some .ended } ∨
    s.enabled = true ∧ s.openEvents options host = [] ∧
      s.run options host = { s with attempts := s.attempts + 1, pending := [], running := some .ended } ∨
    s.enabled = true ∧ ∃ a, (s.attempt options host).Continues a ∧
      (s.run options host = ({ s with attempts := s.attempts + 1 }).giveUp options
        (s.attempt options host) host.now ∨
        s.run options host = { s with attempts := s.attempts + 1, running := some (.delivering a) }) := by
  unfold State.run
  dsimp only
  split_ifs with hidle hnone
  · left
    refine ⟨?_, rfl⟩
    simpa using hidle
  · right
    left
    simp only [Bool.or_eq_true, Bool.not_eq_true', not_or, Bool.not_eq_false] at hidle
    exact ⟨hidle.1, List.isEmpty_iff.mp hnone, rfl⟩
  · right
    right
    simp only [Bool.or_eq_true, Bool.not_eq_true', not_or, Bool.not_eq_false] at hidle
    refine ⟨hidle.1, ?_⟩
    rcases nextGroup_cases options { s with attempts := s.attempts + 1 } host
      (s.attempt options host) _ fun _ => id with
      ⟨-, heq⟩ | ⟨a, hcontinues, heq⟩
    · exact ⟨s.attempt options host, ⟨rfl, rfl, rfl, rfl, rfl, rfl, .inl rfl, fun _ => id⟩, .inl heq⟩
    · exact ⟨a, hcontinues, .inr heq⟩

end Attempts

section Moves

variable {options : Options} {s : State} {a : Attempt} {host : Host} {e : Queued}

/-- The event is not taken for one that is pending or has been sent. -/
def State.accepts (s : State) (event : ChatWakeEvent) : Bool :=
  s.enabled && !s.closed && !(taskReceiptKey event).any fun key =>
    key ∈ receiptKeys s.sentTasks || s.pending.any fun e => taskReceiptKey e.event = some key

theorem queue_cases (options : Options) (s : State) (event : ChatWakeEvent) (now : ℤ) :
    s.accepts event = false ∧ queue options s event now = s ∨
    s.accepts event = true ∧ ∃ dropped, (maxEvents ≤ s.pending.length ∨ dropped = 0) ∧
    dropped ≤ s.pending.length ∧
      queue options s event now =
        ({ s with pending := (s.pending ++ [(⟨s.queued, event, now⟩ : Queued)]).drop dropped,
                  queued := s.queued + 1 }).schedule
          options 0 now := by
  unfold queue State.accepts
  split_ifs with hoff hknown
  · left
    refine ⟨?_, rfl⟩
    rcases (Bool.or_eq_true _ _).mp hoff with hdisabled | hclosed
    · rw [Bool.not_eq_true'] at hdisabled
      rw [hdisabled]
      rfl
    · rw [hclosed]
      simp
  · left
    refine ⟨?_, rfl⟩
    rw [hknown]
    simp
  · right
    simp only [Bool.or_eq_true, Bool.not_eq_true', not_or, Bool.not_eq_false, Bool.not_eq_true] at hoff
    rw [Bool.not_eq_true] at hknown
    refine ⟨by rw [hoff.1, hoff.2, hknown]; rfl, _, ?_, ?_, rfl⟩
    · rw [List.length_append, List.length_singleton]
      omega
    · rw [List.length_append, List.length_singleton]
      simp only [maxEvents]
      omega

theorem mem_dropped {pending : List Queued} {new : Queued} {dropped : ℕ}
    (h : e ∈ (pending ++ [new]).drop dropped) :
    e ∈ pending ∨ e = new :=
  (List.mem_append.mp (List.mem_of_mem_drop h)).imp_right List.mem_singleton.mp

theorem giveUp_pending (options : Options) (s : State) (a : Attempt) (now : ℤ) :
    (s.giveUp options a now).pending = a.stillOpen ++ s.pending.filter (· ∉ a.snapshot) := by
  unfold State.giveUp
  rw [schedule_pending]

theorem giveUp_flying (options : Options) (s : State) (a : Attempt) (now : ℤ) :
    (s.giveUp options a now).flying = none := by
  unfold State.giveUp
  rw [schedule_flying]
  rfl

theorem Attempt.stays_iff : a.stays e = true ↔ e ∉ a.snapshot ∨ e ∉ a.batch ∧ e ∈ a.stillOpen := by
  simp [Attempt.stays]

theorem acknowledge_pending (options : Options) (s : State) (a : Attempt) (now : ℤ) :
    (s.acknowledge options a now).pending = s.pending.filter a.stays := by
  unfold State.acknowledge
  rw [schedule_pending]

theorem acknowledge_flying (options : Options) (s : State) (a : Attempt) (now : ℤ) :
    (s.acknowledge options a now).flying = none := by
  unfold State.acknowledge
  rw [schedule_flying]
  rfl

theorem delivered_idle (h : s.flying = none) (outcome : ChatWakeOutcome) (host : Host) :
    s.delivered options outcome host = s := by
  unfold State.delivered
  split
  · rename_i a hrunning
    unfold State.flying at h
    rw [hrunning] at h
    exact absurd h nofun
  · rfl

/-- What a step can do. -/
inductive Moves (options : Options) (s : State) : Input → State → Prop
  | ignored (input : Input) (hinput : ∀ event now, input = .queue event now → s.accepts event = false) :
    Moves options s input s
  | queued (event : ChatWakeEvent) (now : ℤ) (dropped : ℕ) (haccepts : s.accepts event = true)
    (hdropped : maxEvents ≤ s.pending.length ∨ dropped = 0) (hle : dropped ≤ s.pending.length) :
    Moves options s (.queue event now)
      (({ s with
          pending := (s.pending ++ [(⟨s.queued, event, now⟩ : Queued)]).drop dropped
          queued := s.queued + 1 }).schedule options 0 now)
  | resolved (tabId : String) : Moves options s (.resolveHandback tabId) (resolveHandback s tabId)
  | enabled : Moves options s (.setEnabled true) { s with enabled := true }
  | disabled : Moves options s (.setEnabled false) (setEnabled s false)
  | closed : Moves options s .close (close s)
  | delayed (host : Host) (htimer : s.timer.isSome = true) (hrunning : s.running.isSome = true) :
    Moves options s (.fire host) { s with timer := none, rerun := true }
  | idle (host : Host) (htimer : s.timer.isSome = true) (hrunning : s.running = none)
    (hidle : s.enabled = false ∨ s.pending = []) :
    Moves options s (.fire host) { s with timer := none, running := some .ended }
  | emptied (host : Host) (htimer : s.timer.isSome = true) (hrunning : s.running = none)
    (hon : s.enabled = true)
    (hnone : s.openEvents options host = []) :
    Moves options s (.fire host)
      { s with timer := none, attempts := s.attempts + 1, pending := [], running := some .ended }
  | nowhere (host : Host) (htimer : s.timer.isSome = true) (hrunning : s.running = none)
    (hon : s.enabled = true) :
    Moves options s (.fire host)
      (({ s with timer := none, attempts := s.attempts + 1 }).giveUp options
        (s.attempt options host) host.now)
  | started (host : Host) (a : Attempt) (htimer : s.timer.isSome = true) (hrunning : s.running = none)
    (hon : s.enabled = true) (hcontinues : (s.attempt options host).Continues a) :
    Moves options s (.fire host)
      { s with timer := none, attempts := s.attempts + 1, running := some (.delivering a) }
  | sent (host : Host) (a : Attempt) (ha : s.flying = some a) :
    Moves options s (.delivered .sent host) (s.acknowledge options a host.now)
  | gaveUp (outcome : ChatWakeOutcome) (host : Host) (a : Attempt) (ha : s.flying = some a)
    (hlast : a.Last outcome host) : Moves options s (.delivered outcome host) (s.giveUp options a host.now)
  | continued (outcome : ChatWakeOutcome) (host : Host) (a a' : Attempt) (ha : s.flying = some a)
    (hnot : outcome ≠ .sent) (hcontinues : a.Continues a') :
    Moves options s (.delivered outcome host) { s with running := some (.delivering a') }
  | finished (now : ℤ) (hended : s.running = some .ended) (hrerun : s.rerun = false) :
    Moves options s (.finish now) { s with running := none }
  | again (now : ℤ) (hended : s.running = some .ended) (hrerun : s.rerun = true) :
    Moves options s (.finish now) (({ s with running := none, rerun := false }).schedule options 0 now)

theorem step_moves (options : Options) (s : State) (input : Input) :
    Moves options s input (step options s input) := by
  cases input with
  | queue event now =>
    rcases queue_cases options s event now with ⟨hrefused, heq⟩ | ⟨haccepts, dropped, hdropped, hle, heq⟩ <;>
      rw [show step options s (.queue event now) = _ from heq]
    · refine .ignored _ fun event' now' h => ?_
      cases h
      exact hrefused
    · exact .queued event now dropped haccepts hdropped hle
  | resolveHandback tabId => exact .resolved tabId
  | setEnabled enabled =>
    cases enabled with
    | true => exact .enabled
    | false => exact .disabled
  | close => exact .closed
  | fire host =>
    show Moves options s (.fire host) (s.fire options host)
    unfold State.fire State.start
    split_ifs with htimer hrunning
    · exact .delayed host htimer hrunning
    · have hnone : s.running = none := Option.not_isSome_iff_eq_none.mp hrunning
      rcases run_cases options { s with timer := none } host with
        ⟨hidle, heq⟩ | ⟨hon, hopen, heq⟩ | ⟨hon, a, hcontinues, heq | heq⟩ <;> rw [heq]
      · exact .idle host htimer hnone hidle
      · exact .emptied host htimer hnone hon hopen
      · exact .nowhere host htimer hnone hon
      · exact .started host a htimer hnone hon hcontinues
    · exact .ignored _ nofun
  | delivered outcome host =>
    show Moves options s (.delivered outcome host) (s.delivered options outcome host)
    cases ha : s.flying with
    | none =>
      rw [delivered_idle ha]
      exact .ignored _ nofun
    | some a =>
      rcases delivered_cases ha outcome host with
        ⟨rfl, heq⟩ | ⟨hlast, heq⟩ | ⟨hnot, a', hcontinues, heq⟩ <;> rw [heq]
      · exact .sent host a ha
      · exact .gaveUp outcome host a ha hlast
      · exact .continued outcome host a a' ha hnot hcontinues
  | finish now =>
    show Moves options s (.finish now) (s.finish options now)
    unfold State.finish
    split
    · rename_i hended
      split_ifs with hrerun
      · exact .again now hended hrerun
      · exact .finished now hended (Bool.eq_false_of_not_eq_true hrerun)
    · exact .ignored _ nofun

end Moves

section Known

variable {options : Options} {s : State} {a a' : Attempt} {host : Host} {e e' : Queued} {now : ℤ}

/-- The event is pending, or open in the attempt in progress. -/
def Known (s : State) (e : Queued) : Prop := e ∈ s.pending ∨ ∃ a, s.flying = some a ∧ e ∈ a.stillOpen

theorem known_giveUp (h : Known (s.giveUp options a now) e) : e ∈ a.stillOpen ∨ e ∈ s.pending := by
  rcases h with hpending | ⟨a', ha', -⟩
  · rw [giveUp_pending] at hpending
    exact (List.mem_append.mp hpending).imp_right fun hmem => (List.mem_filter.mp hmem).1
  · rw [giveUp_flying] at ha'
    exact absurd ha' nofun

/-- Nothing is new but an event that has been queued. -/
theorem step_known (options : Options) (s : State) (input : Input) (h : Known (step options s input) e) :
    Known s e ∨ ∃ event now, input = .queue event now ∧ s.accepts event = true ∧
    e = ⟨s.queued, event, now⟩ := by
  have hmoves := step_moves options s input
  generalize step options s input = t at hmoves h
  cases hmoves with
  | ignored => exact .inl h
  | queued event now dropped haccepts =>
    rcases h with hpending | ⟨a, ha, hopen⟩
    · rw [schedule_pending] at hpending
      rcases mem_dropped hpending with hold | hnew
      · exact .inl (.inl hold)
      · exact .inr ⟨event, now, rfl, haccepts, hnew⟩
    · rw [schedule_flying] at ha
      exact .inl (.inr ⟨a, ha, hopen⟩)
  | resolved tabId => exact .inl (h.imp_left fun hpending => (List.mem_filter.mp hpending).1)
  | enabled => exact .inl h
  | disabled => exact .inl (h.imp_left fun hpending => absurd hpending List.not_mem_nil)
  | closed => exact .inl h
  | delayed => exact .inl h
  | idle =>
    rcases h with hpending | ⟨a, ha, -⟩
    · exact .inl (.inl hpending)
    · exact absurd ha nofun
  | emptied =>
    rcases h with hpending | ⟨a, ha, -⟩
    · exact absurd hpending List.not_mem_nil
    · exact absurd ha nofun
  | nowhere host =>
    left
    left
    rcases known_giveUp h with hopen | hpending
    · exact (List.mem_filter.mp hopen).1
    · exact hpending
  | started host a htimer hrunning hon hcontinues =>
    left
    left
    rcases h with hpending | ⟨a', ha', hopen⟩
    · exact hpending
    · cases ha'
      rw [hcontinues.stillOpen] at hopen
      exact (List.mem_filter.mp hopen).1
  | sent host a ha =>
    left
    left
    rcases h with hpending | ⟨a', ha', -⟩
    · rw [acknowledge_pending] at hpending
      exact (List.mem_filter.mp hpending).1
    · rw [acknowledge_flying] at ha'
      exact absurd ha' nofun
  | gaveUp outcome host a ha =>
    left
    rcases known_giveUp h with hopen | hpending
    · exact .inr ⟨a, ha, hopen⟩
    · exact .inl hpending
  | continued outcome host a a' ha hnot hcontinues =>
    left
    rcases h with hpending | ⟨a'', ha'', hopen⟩
    · exact .inl hpending
    · cases ha''
      rw [hcontinues.stillOpen] at hopen
      exact .inr ⟨a, ha, hopen⟩
  | finished =>
    rcases h with hpending | ⟨a, ha, -⟩
    · exact .inl (.inl hpending)
    · exact absurd ha nofun
  | again =>
    rcases h with hpending | ⟨a, ha, -⟩
    · rw [schedule_pending] at hpending
      exact .inl (.inl hpending)
    · rw [schedule_flying] at ha
      exact absurd ha nofun

/-- An attempt goes on, or starts with what is pending. -/
theorem step_flying (options : Options) (s : State) (input : Input)
    (h : (step options s input).flying = some a) :
    (∃ a', s.flying = some a' ∧ a'.Continues a) ∨
      ∃ host, input = .fire host ∧ s.flying = none ∧ s.enabled = true ∧
      (s.attempt options host).Continues a := by
  have hsame : (a' : Attempt) → a'.Continues a' :=
    fun a' => ⟨rfl, rfl, rfl, rfl, rfl, rfl, .inl rfl, fun _ => id⟩
  have hmoves := step_moves options s input
  generalize step options s input = t at hmoves h
  cases hmoves with
  | ignored | resolved | enabled | disabled | closed | delayed => exact .inl ⟨a, h, hsame a⟩
  | queued =>
    rw [schedule_flying] at h
    exact .inl ⟨a, h, hsame a⟩
  | started host a' htimer hrunning hon hcontinues =>
    cases h
    refine .inr ⟨host, rfl, ?_, hon, hcontinues⟩
    unfold State.flying
    rw [hrunning]
  | continued outcome host a' a'' ha hnot hcontinues =>
    cases h
    exact .inl ⟨a', ha, hcontinues⟩
  | idle | emptied | finished => exact absurd h nofun
  | nowhere | gaveUp =>
    rw [giveUp_flying] at h
    exact absurd h nofun
  | sent =>
    rw [acknowledge_flying] at h
    exact absurd h nofun
  | again =>
    rw [schedule_flying] at h
    exact absurd h nofun

end Known

section Sound

variable {options : Options} {s : State} {a : Attempt}

/-- Events are told apart by their numbers, and the attempt in progress knows its own. -/
structure Sound (options : Options) (s : State) : Prop where
  numbered : ∀ e, Known s e → e.number < s.queued
  identified : ∀ e e', Known s e → Known s e' → e.number = e'.number → e = e'
  nodup : s.pending.Nodup
  flying : ∀ a, s.flying = some a → Flying options a

theorem queued_le (options : Options) (s : State) (input : Input) :
    s.queued ≤ (step options s input).queued := by
  have hmoves := step_moves options s input
  generalize step options s input = t at hmoves
  cases hmoves with
  | queued =>
    rw [schedule_queued]
    exact Nat.le_succ _
  | nowhere | gaveUp => rw [State.giveUp, schedule_queued]
  | sent => rw [State.acknowledge, schedule_queued]
  | again => rw [schedule_queued]
  | _ => exact Nat.le_refl _

theorem giveUp_nodup (hnodup : s.pending.Nodup) (hopen : a.stillOpen.Nodup)
    (hsnapped : ∀ e ∈ a.stillOpen, e ∈ a.snapshot) (now : ℤ) : (s.giveUp options a now).pending.Nodup := by
  rw [giveUp_pending]
  refine List.nodup_append.mpr ⟨hopen, hnodup.filter _, ?_⟩
  rintro e he e' he' rfl
  have hnew := (List.mem_filter.mp he').2
  exact of_decide_eq_true hnew (hsnapped e he)

theorem step_nodup (h : Sound options s) (input : Input) : (step options s input).pending.Nodup := by
  have hmoves := step_moves options s input
  generalize step options s input = t at hmoves
  cases hmoves with
  | queued event now dropped =>
    rw [schedule_pending]
    refine List.Nodup.sublist (List.drop_sublist _ _)
      (List.nodup_append.mpr ⟨h.nodup, List.nodup_singleton _, ?_⟩)
    intro e he e' hnew heq
    have hnumber := h.numbered e (.inl he)
    rw [heq, List.mem_singleton.mp hnew] at hnumber
    exact absurd hnumber (Nat.lt_irrefl _)
  | resolved => exact h.nodup.filter _
  | disabled | emptied => exact List.nodup_nil
  | nowhere host =>
    have hsnapped : ∀ e ∈ s.openEvents options host, e ∈ s.pending := fun e he => (List.mem_filter.mp he).1
    exact giveUp_nodup (s := { s with timer := none, attempts := s.attempts + 1 })
      (a := s.attempt options host) h.nodup
      (h.nodup.filter _) hsnapped _
  | sent host a ha =>
    rw [acknowledge_pending]
    exact h.nodup.filter _
  | gaveUp outcome host a ha =>
    have hflying := h.flying a ha
    exact giveUp_nodup h.nodup hflying.nodup hflying.snapped _
  | again =>
    rw [schedule_pending]
    exact h.nodup
  | _ => exact h.nodup

theorem step_sound (h : Sound options s) (input : Input) : Sound options (step options s input) where
  numbered := by
    intro e he
    rcases step_known options s input he with hold | ⟨event, now, rfl, haccepts, rfl⟩
    · exact Nat.lt_of_lt_of_le (h.numbered e hold) (queued_le options s input)
    · rcases queue_cases options s event now with ⟨hrefused, -⟩ | ⟨-, dropped, -, -, heq⟩
      · rw [haccepts] at hrefused
        exact absurd hrefused nofun
      · rw [show step options s (.queue event now) = _ from heq, schedule_queued]
        exact Nat.lt_succ_self _
  identified := by
    intro e e' he he' hnumber
    rcases step_known options s input he with hold | ⟨event, now, rfl, -, rfl⟩
    · rcases step_known options s input he' with hold' | ⟨event', now', -, -, rfl⟩
      · exact h.identified e e' hold hold' hnumber
      · exact absurd hnumber (Nat.ne_of_lt (h.numbered e hold))
    · rcases step_known options s _ he' with hold' | ⟨event', now', hsame, -, rfl⟩
      · exact absurd hnumber.symm (Nat.ne_of_lt (h.numbered e' hold'))
      · cases hsame
        rfl
  nodup := step_nodup h input
  flying := by
    intro a ha
    rcases step_flying options s input ha with ⟨a', ha', hcontinues⟩ | ⟨host, -, -, -, hcontinues⟩
    · exact (h.flying a' ha').continues hcontinues
    · exact (attempt_flying h.nodup host).continues hcontinues

theorem initial_sound (options : Options) (sentTasks : List (String × ℤ)) :
    Sound options (State.initial sentTasks) where
  numbered := fun _ he => he.elim (fun hmem => absurd hmem List.not_mem_nil) fun ⟨_, ha, _⟩ => absurd ha nofun
  identified := fun _ _ he => he.elim (fun hmem => absurd hmem List.not_mem_nil) fun ⟨_, ha, _⟩ =>
    absurd ha nofun
  nodup := List.nodup_nil
  flying := fun _ ha => absurd ha nofun

end Sound

end AccessStack.ChatWake
