import AccessStack.Companion.ChatWakeLaws

/-!
# What a sent text answers for

What is passed on as sent stands in the text, went to its own conversation and
leaves a receipt. A task that has a receipt is not written again, as long as
the receipt is kept. Two things break it: more events of a kind than a text
takes, and a task that is queued again while an attempt has it in hand.
-/

set_option autoImplicit false

namespace AccessStack.ChatWake
open AccessStack.Runs AccessStack.Text AccessStack.JsonText

section Receipts

variable {options : Options} {sentTasks : List (String × ℤ)} {events : List Queued} {sentAt : ℤ}
variable {receipt : String × ℤ} {key : String} {e : Queued}

def taskKeys (events : List Queued) : List String := events.filterMap fun e => taskReceiptKey e.event

theorem mem_taskKeys : key ∈ taskKeys events ↔ ∃ e ∈ events, taskReceiptKey e.event = some key :=
  List.mem_filterMap

theorem recordTask_keeps (h : receipt ∈ sentTasks) : receipt ∈ recordTask sentAt sentTasks e := by
  unfold recordTask
  split
  · exact h
  · split_ifs
    · exact h
    · exact List.mem_append_left _ h

theorem recordTask_new (h : receipt ∈ recordTask sentAt sentTasks e) :
    receipt ∈ sentTasks ∨ receipt.2 = sentAt ∧ taskReceiptKey e.event = some receipt.1 := by
  unfold recordTask at h
  split at h
  · exact .inl h
  · rename_i key hkey
    split_ifs at h
    · exact .inl h
    · rcases List.mem_append.mp h with hold | hnew
      · exact .inl hold
      · rw [List.mem_singleton.mp hnew]
        exact .inr ⟨rfl, hkey⟩

theorem recordTask_known (hkey : taskReceiptKey e.event = some key) :
    key ∈ receiptKeys (recordTask sentAt sentTasks e) := by
  unfold recordTask
  rw [hkey]
  dsimp only
  split_ifs with hknown
  · exact hknown
  · exact List.mem_map.mpr ⟨(key, sentAt), List.mem_append_right _ (List.mem_singleton.mpr rfl), rfl⟩

theorem recordTasks_keeps (h : receipt ∈ sentTasks) :
    receipt ∈ events.foldl (recordTask sentAt) sentTasks := by
  induction events generalizing sentTasks with
  | nil => exact h
  | cons e events ih => exact ih (recordTask_keeps h)

theorem recordTasks_new (h : receipt ∈ events.foldl (recordTask sentAt) sentTasks) :
    receipt ∈ sentTasks ∨ receipt.2 = sentAt ∧ receipt.1 ∈ taskKeys events := by
  induction events generalizing sentTasks with
  | nil => exact .inl h
  | cons e events ih =>
    rcases ih h with hfirst | ⟨hat, hrest⟩
    · refine (recordTask_new hfirst).imp_right fun ⟨hat, hkey⟩ => ⟨hat, ?_⟩
      exact mem_taskKeys.mpr ⟨e, List.mem_cons_self, hkey⟩
    · obtain ⟨e', he', hkey⟩ := mem_taskKeys.mp hrest
      exact .inr ⟨hat, mem_taskKeys.mpr ⟨e', List.mem_cons_of_mem _ he', hkey⟩⟩

theorem recordTasks_known (h : key ∈ taskKeys events) :
    key ∈ receiptKeys (events.foldl (recordTask sentAt) sentTasks) := by
  induction events generalizing sentTasks with
  | nil => exact absurd h List.not_mem_nil
  | cons e events ih =>
    obtain ⟨e', he', hkey⟩ := mem_taskKeys.mp h
    rcases List.mem_cons.mp he' with rfl | hrest
    · have hknown : key ∈ receiptKeys (recordTask sentAt sentTasks e') := recordTask_known hkey
      obtain ⟨receipt, hreceipt, hsame⟩ := List.mem_map.mp hknown
      have hkept : receipt ∈ events.foldl (recordTask sentAt) (recordTask sentAt sentTasks e') :=
        recordTasks_keeps hreceipt
      exact List.mem_map.mpr ⟨receipt, hkept, hsame⟩
    · exact ih (mem_taskKeys.mpr ⟨e', hrest, hkey⟩)

/-- A task that had no receipt gets one of now. -/
theorem recordTasks_fresh (h : key ∈ taskKeys events) (hfresh : key ∉ receiptKeys sentTasks) :
    (key, sentAt) ∈ events.foldl (recordTask sentAt) sentTasks := by
  have hknown : key ∈ receiptKeys (events.foldl (recordTask sentAt) sentTasks) := recordTasks_known h
  obtain ⟨receipt, hreceipt, rfl⟩ := List.mem_map.mp hknown
  rcases recordTasks_new hreceipt with hold | ⟨rfl, -⟩
  · exact absurd (List.mem_map_of_mem hold) hfresh
  · exact hreceipt

theorem prune_sub {now : ℤ} (h : receipt ∈ pruneTaskReceipts now sentTasks) : receipt ∈ sentTasks :=
  (List.mem_filter.mp (List.mem_of_mem_drop h)).1

theorem prune_keeps {now : ℤ} (h : receipt ∈ sentTasks) (hyoung : now - receipt.2 < taskReceiptRetentionMs)
    (hfew : sentTasks.length ≤ maxTaskReceipts) : receipt ∈ pruneTaskReceipts now sentTasks := by
  unfold pruneTaskReceipts
  dsimp only
  rw [Nat.sub_eq_zero_of_le ((List.length_filter_le _ _).trans hfew), List.drop_zero]
  exact List.mem_filter.mpr ⟨h, decide_eq_true hyoung⟩

theorem recordSentTasks_sub (h : receipt ∈ recordSentTasks options sentTasks events sentAt) :
    receipt ∈ events.foldl (recordTask sentAt) sentTasks := by
  unfold recordSentTasks at h
  dsimp only at h
  split_ifs at h
  · exact prune_sub h
  · exact h

/-- A receipt is forgotten when it is too old or there are too many. -/
theorem recordSentTasks_keeps (h : receipt ∈ events.foldl (recordTask sentAt) sentTasks) :
    receipt ∈ recordSentTasks options sentTasks events sentAt ∨
      options.receiptFile = true ∧ (taskReceiptRetentionMs ≤ sentAt - receipt.2 ∨
        maxTaskReceipts < (events.foldl (recordTask sentAt) sentTasks).length) := by
  unfold recordSentTasks
  dsimp only
  split_ifs with hprune
  · rcases Int.lt_or_le (sentAt - receipt.2) taskReceiptRetentionMs with hyoung | hold
    · rcases Nat.lt_or_ge maxTaskReceipts (events.foldl (recordTask sentAt) sentTasks).length with
        hmany | hfew
      · exact .inr ⟨((Bool.and_eq_true _ _).mp hprune).2, .inr hmany⟩
      · exact .inl (prune_keeps h hyoung hfew)
    · exact .inr ⟨((Bool.and_eq_true _ _).mp hprune).2, .inl hold⟩
  · exact .inl h

end Receipts

section Notices

variable {options : Options} {s : State} {a : Attempt} {e : Queued} {input : Input}

/-- What is passed on as sent, and what leaves `pending` with it, has been said
in the conversation it belongs to. What was no longer open leaves with any
outcome. -/
structure Truthful (options : Options) (r : Sent) : Prop where
  shown : ∀ e ∈ r.events, Shown r.text e.event
  removed : ∀ e ∈ r.removed, e ∈ r.events ∨ e ∈ r.notOpen
  recorded : ∀ key ∈ r.recorded, key ∈ taskKeys r.events
  own : options.routed = true → ∀ e ∈ r.events, ∃ c, r.conversationId = some c ∧ r.owners e = some c
  once : (taskKeys r.events).Nodup
  fresh : ∀ key ∈ taskKeys r.events, key ∉ r.retained

/-- By the time of `r'` the receipts of `r` are too old, or there are too many. -/
def Forgot (options : Options) (r r' : Sent) : Prop :=
  options.receiptFile = true ∧ (taskReceiptRetentionMs ≤ r'.sentAt - r.sentAt ∨ maxTaskReceipts < r'.receipts)

/-- No task is in two texts, unless its receipt has been forgotten in between. -/
def WrittenOnce (options : Options) (sent : List Sent) : Prop :=
  ∀ before r after, sent = before ++ r :: after → ∀ r' ∈ before, ∀ key ∈ taskKeys r'.events,
    key ∈ taskKeys r.events →
    ∃ r'' ∈ before, Forgot options r' r''

/-- A task is not queued again while an attempt has it in hand, and what is
sent has no more of a kind than a text takes. -/
def Clear (s : State) : Input → Prop
  | .queue event _ => s.accepts event = true → ∀ a, s.flying = some a → ∀ e ∈ a.stillOpen, ∀ key,
    taskReceiptKey event = some key → taskReceiptKey e.event ≠ some key
  | .delivered .sent _ => ∀ a, s.flying = some a → Rendered (a.batch.map (·.event))
  | _ => True

structure Honest (options : Options) (s : State) : Prop where
  sound : Sound options s
  distinct : ∀ e e' key, Known s e → Known s e' → taskReceiptKey e.event = some key →
    taskReceiptKey e'.event = some key →
    e = e'
  unsent : ∀ e key, Known s e → taskReceiptKey e.event = some key → key ∉ receiptKeys s.sentTasks
  truthful : ∀ r ∈ s.sent, Truthful options r
  receipts : ∀ r ∈ s.sent, ∀ key ∈ taskKeys r.events, (key, r.sentAt) ∈ s.sentTasks ∨ ∃ r' ∈ s.sent,
    Forgot options r r'
  once : WrittenOnce options s.sent

theorem step_sent (options : Options) (s : State) (input : Input) :
    (step options s input).sent = s.sent ∧ (step options s input).sentTasks = s.sentTasks ∨
      ∃ host a, input = .delivered .sent host ∧ s.flying = some a ∧
        step options s input = s.acknowledge options a host.now := by
  have hmoves := step_moves options s input
  generalize step options s input = t at hmoves
  cases hmoves with
  | queued => exact .inl ⟨schedule_sent .., schedule_sentTasks ..⟩
  | nowhere => exact .inl ⟨schedule_sent .., schedule_sentTasks ..⟩
  | gaveUp => exact .inl ⟨schedule_sent .., schedule_sentTasks ..⟩
  | again => exact .inl ⟨schedule_sent .., schedule_sentTasks ..⟩
  | sent host a ha => exact .inr ⟨host, a, rfl, ha, rfl⟩
  | _ => exact .inl ⟨rfl, rfl⟩

theorem accepted_unsent {event : ChatWakeEvent} {key : String} (h : s.accepts event = true)
    (hkey : taskReceiptKey event = some key) :
    key ∉ receiptKeys s.sentTasks ∧ ∀ e ∈ s.pending, taskReceiptKey e.event ≠ some key := by
  unfold State.accepts at h
  rw [hkey] at h
  simp only [Option.any_some, Bool.and_eq_true, Bool.not_eq_true', Bool.or_eq_false_iff,
    decide_eq_false_iff_not, List.any_eq_false, decide_eq_true_eq] at h
  exact h.2

theorem step_distinct (h : Honest options s) (hclear : Clear s input) (e e' : Queued) (key : String)
    (he : Known (step options s input) e) (he' : Known (step options s input) e')
    (hkey : taskReceiptKey e.event = some key) (hkey' : taskReceiptKey e'.event = some key) : e = e' := by
  have hnew : ∀ event now e, input = .queue event now → s.accepts event = true →
    taskReceiptKey event = some key →
      Known s e → taskReceiptKey e.event ≠ some key := by
    rintro event now e rfl haccepts hevent (hpending | ⟨a, ha, hopen⟩)
    · exact (accepted_unsent haccepts hevent).2 e hpending
    · exact hclear haccepts a ha e hopen key hevent
  rcases step_known options s input he with hold | ⟨event, now, hinput, haccepts, rfl⟩
  · rcases step_known options s input he' with hold' | ⟨event, now, hinput, haccepts, rfl⟩
    · exact h.distinct e e' key hold hold' hkey hkey'
    · exact absurd hkey (hnew event now e hinput haccepts hkey' hold)
  · rcases step_known options s input he' with hold' | ⟨event', now', hinput', -, rfl⟩
    · exact absurd hkey' (hnew event now e' hinput haccepts hkey hold')
    · rw [hinput] at hinput'
      cases hinput'
      rfl

/-- What is still pending after a text is not what the text was about. -/
theorem acknowledged_other (h : Honest options s) (ha : s.flying = some a) {now : ℤ}
    (he : e ∈ (s.acknowledge options a now).pending) {key : String}
    (hkey : taskReceiptKey e.event = some key) :
    key ∉ taskKeys a.batch := by
  intro hbatch
  obtain ⟨e', he', hkey'⟩ := mem_taskKeys.mp hbatch
  have hflying := h.sound.flying a ha
  have hopen : e' ∈ a.stillOpen := hflying.batch.part.subset he'
  rw [acknowledge_pending] at he
  obtain ⟨hpending, hstays⟩ := List.mem_filter.mp he
  have hsame : e = e' := h.distinct e e' key (.inl hpending) (.inr ⟨a, ha, hopen⟩) hkey hkey'
  rw [hsame] at hstays
  rcases Attempt.stays_iff.mp hstays with hnew | ⟨hother, -⟩
  · exact hnew (hflying.snapped e' hopen)
  · exact hother he'

theorem step_unsent (h : Honest options s) (e : Queued) (key : String)
    (he : Known (step options s input) e) (hkey : taskReceiptKey e.event = some key) :
    key ∉ receiptKeys (step options s input).sentTasks := by
  rcases step_sent options s input with ⟨-, hsame⟩ | ⟨host, a, rfl, ha, heq⟩
  · rw [hsame]
    rcases step_known options s input he with hold | ⟨event, now, -, haccepts, rfl⟩
    · exact h.unsent e key hold hkey
    · exact (accepted_unsent haccepts hkey).1
  · have hold : Known s e := by
      refine (step_known options s _ he).resolve_right ?_
      rintro ⟨event, now, hinput, -⟩
      cases hinput
    rw [heq] at he ⊢
    rcases he with hpending | ⟨a', ha', -⟩
    · intro hreceipt
      rw [State.acknowledge, schedule_sentTasks] at hreceipt
      obtain ⟨receipt, hmem, rfl⟩ := List.mem_map.mp hreceipt
      rcases recordTasks_new (recordSentTasks_sub hmem) with hbefore | ⟨-, hbatch⟩
      · exact h.unsent e receipt.1 hold hkey (List.mem_map_of_mem hbefore)
      · exact acknowledged_other h ha hpending hkey hbatch
    · rw [acknowledge_flying] at ha'
      cases ha'

theorem acknowledge_sent (options : Options) (s : State) (a : Attempt) (now : ℤ) :
    (s.acknowledge options a now).sent = s.sent ++ [s.notice options a now] := by
  unfold State.acknowledge
  rw [schedule_sent]

theorem acknowledge_sentTasks (options : Options) (s : State) (a : Attempt) (now : ℤ) :
    (s.acknowledge options a now).sentTasks = recordSentTasks options s.sentTasks a.batch now := by
  unfold State.acknowledge
  rw [schedule_sentTasks]

theorem batch_nodup (h : Honest options s) (ha : s.flying = some a) : (taskKeys a.batch).Nodup := by
  have hflying := h.sound.flying a ha
  have hknown : ∀ e ∈ a.batch, Known s e := fun e he => .inr ⟨a, ha, hflying.batch.part.subset he⟩
  refine List.pairwise_filterMap.mpr ((hflying.nodup.sublist hflying.batch.part).imp_of_mem ?_)
  rintro e e' he he' hne key hkey _ hkey' rfl
  exact hne (h.distinct e e' key (hknown e he) (hknown e' he') hkey hkey')

theorem notice_truthful (h : Honest options s) (ha : s.flying = some a)
    (hrendered : Rendered (a.batch.map (·.event))) (now : ℤ) : Truthful options (s.notice options a now) where
  shown := fun e he => text_shows hrendered (List.mem_map_of_mem he)
  removed := by
    intro e he
    obtain ⟨-, hgone⟩ := List.mem_filter.mp he
    have hnot : ¬a.stays e = true := (Bool.not_eq_true' _).mp hgone ▸ Bool.false_ne_true
    rw [Attempt.stays_iff, not_or, not_not, not_and] at hnot
    rcases Decidable.em (e ∈ a.batch) with hbatch | hother
    · exact .inl hbatch
    · exact .inr (List.mem_filter.mpr ⟨hnot.1, decide_eq_true (hnot.2 hother)⟩)
  recorded := by
    intro key hkey
    obtain ⟨hrecorded, hnew⟩ := List.mem_filter.mp hkey
    obtain ⟨receipt, hreceipt, rfl⟩ := List.mem_map.mp hrecorded
    rcases recordTasks_new (recordSentTasks_sub hreceipt) with hold | ⟨-, hbatch⟩
    · exact absurd (List.mem_map_of_mem hold) (of_decide_eq_true hnew)
    · exact hbatch
  own := (h.sound.flying a ha).batch.owned
  once := batch_nodup h ha
  fresh := by
    intro key hkey
    obtain ⟨e, he, hevent⟩ := mem_taskKeys.mp hkey
    have hopen : e ∈ a.stillOpen := (h.sound.flying a ha).batch.part.subset he
    exact h.unsent e key (.inr ⟨a, ha, hopen⟩) hevent

/-- What had a receipt before a text has it after, or it is forgotten now. -/
theorem receipts_kept (h : Honest options s) (ha : s.flying = some a)
    (hrendered : Rendered (a.batch.map (·.event))) (now : ℤ) :
    ∀ r ∈ s.sent ++ [s.notice options a now], ∀ key ∈ taskKeys r.events,
      (key, r.sentAt) ∈ recordSentTasks options s.sentTasks a.batch now ∨
        ∃ r' ∈ s.sent ++ [s.notice options a now], Forgot options r r' := by
  have hkept : ∀ r key, (key, r.sentAt) ∈ a.batch.foldl (recordTask now) s.sentTasks →
      (key, r.sentAt) ∈ recordSentTasks options s.sentTasks a.batch now ∨
        ∃ r' ∈ s.sent ++ [s.notice options a now], Forgot options r r' := by
    intro r key hreceipt
    have hrecorded : (key, r.sentAt) ∈ recordSentTasks options s.sentTasks a.batch now ∨ _ :=
      recordSentTasks_keeps hreceipt
    rcases hrecorded with hkept | hforgot
    · exact .inl hkept
    · exact .inr ⟨s.notice options a now, List.mem_append_right _ (List.mem_singleton.mpr rfl), hforgot⟩
  intro r hr key hkey
  rcases List.mem_append.mp hr with hold | hnew
  · rcases h.receipts r hold key hkey with hreceipt | ⟨r', hr', hforgot⟩
    · exact hkept r key (recordTasks_keeps hreceipt)
    · exact .inr ⟨r', List.mem_append_left _ hr', hforgot⟩
  · obtain rfl := List.mem_singleton.mp hnew
    exact hkept _ key (recordTasks_fresh hkey ((notice_truthful h ha hrendered now).fresh key hkey))

theorem WrittenOnce.append {sent : List Sent} {r : Sent} (h : WrittenOnce options sent)
    (hlast : ∀ r' ∈ sent, ∀ key ∈ taskKeys r'.events, key ∈ taskKeys r.events → ∃ r'' ∈ sent,
      Forgot options r' r'') :
    WrittenOnce options (sent ++ [r]) := by
  intro before r₁ after heq
  rcases List.eq_nil_or_concat after with rfl | ⟨after, last, rfl⟩
  · obtain ⟨rfl, hr⟩ := List.append_inj' heq rfl
    cases hr
    exact hlast
  · rw [List.concat_eq_append, ← List.cons_append, ← List.append_assoc] at heq
    obtain ⟨hsent, -⟩ := List.append_inj' heq rfl
    exact h before r₁ after hsent

theorem notice_once (h : Honest options s) (ha : s.flying = some a) (now : ℤ) :
    WrittenOnce options (s.sent ++ [s.notice options a now]) := by
  refine h.once.append fun r hr key hkey hagain => ?_
  rcases h.receipts r hr key hkey with hreceipt | hforgot
  · obtain ⟨e, he, hevent⟩ := mem_taskKeys.mp hagain
    have hopen : e ∈ a.stillOpen := (h.sound.flying a ha).batch.part.subset he
    exact absurd (List.mem_map_of_mem hreceipt) (h.unsent e key (.inr ⟨a, ha, hopen⟩) hevent)
  · exact hforgot

theorem step_honest (h : Honest options s) (hclear : Clear s input) :
    Honest options (step options s input) := by
  have hsound := step_sound h.sound input
  have hdistinct := step_distinct h hclear
  have hunsent : ∀ e key, Known (step options s input) e → taskReceiptKey e.event = some key →
      key ∉ receiptKeys (step options s input).sentTasks := step_unsent h
  rcases step_sent options s input with ⟨hsent, htasks⟩ | ⟨host, a, rfl, ha, heq⟩
  · refine ⟨hsound, hdistinct, hunsent, ?_, ?_, ?_⟩ <;> rw [hsent]
    · exact h.truthful
    · rw [htasks]
      exact h.receipts
    · exact h.once
  · have hrendered := hclear a ha
    have hnotice : (step options s (.delivered .sent host)).sent = s.sent ++
        [s.notice options a host.now] := by
      rw [heq, acknowledge_sent]
    refine ⟨hsound, hdistinct, hunsent, ?_, ?_, ?_⟩ <;> rw [hnotice]
    · intro r hr
      rcases List.mem_append.mp hr with hold | hnew
      · exact h.truthful r hold
      · rw [List.mem_singleton.mp hnew]
        exact notice_truthful h ha hrendered host.now
    · rw [heq, acknowledge_sentTasks]
      exact receipts_kept h ha hrendered host.now
    · exact notice_once h ha host.now

theorem initial_honest (options : Options) (sentTasks : List (String × ℤ)) :
    Honest options (State.initial sentTasks) where
  sound := initial_sound options sentTasks
  distinct := fun _ _ _ he => he.elim (fun hmem => absurd hmem List.not_mem_nil) fun ⟨_, ha, _⟩ =>
    absurd ha nofun
  unsent := fun _ _ he => he.elim (fun hmem => absurd hmem List.not_mem_nil) fun ⟨_, ha, _⟩ => absurd ha nofun
  truthful := nofun
  receipts := nofun
  once := by
    intro before r after heq
    exact absurd heq.symm (List.append_ne_nil_of_right_ne_nil _ (List.cons_ne_nil _ _))

theorem sent_truthful (options : Options) (sentTasks : List (String × ℤ)) (s : State)
    (h : Reaches (step options) Clear (State.initial sentTasks) s) :
    (∀ r ∈ s.sent, Truthful options r) ∧ WrittenOnce options s.sent := by
  have hhonest : Honest options s :=
    h.invariant (initial_honest options sentTasks) fun _ _ hs hclear => step_honest hs hclear
  exact ⟨hhonest.truthful, hhonest.once⟩

def anyOptions : Options := ⟨false, false, 30000, 60000, 86400000⟩
def anyHost : Host := ⟨0, fun _ => true, fun _ => none, fun _ => 1⟩

def oneTask : ChatWakeEvent := .task "t" (some "w") .succeeded (some 0)

/-- A condition that can be evaluated: nothing is queued while an attempt has
events in hand, and a text that is sent says all of its events. -/
def clears (s : State) (input : Input) : Bool :=
  s.flying.all fun a =>
    match input with
    | .queue _ _ => false
    | .delivered _ _ => decide (Rendered (a.batch.map (·.event)))
    | _ => true

theorem clear_of_clears (h : clears s input = true) : Clear s input := by
  cases input with
  | queue event now =>
    intro _ a ha
    rw [clears, ha] at h
    cases h
  | delivered outcome host =>
    cases outcome with
    | sent =>
      intro a ha
      rw [clears, ha] at h
      exact of_decide_eq_true h
    | _ => trivial
  | _ => trivial

def routedOptions : Options := ⟨true, false, 30000, 60000, 86400000⟩

/-- The tabs belong to one conversation, everything else to another. -/
def routedHost : Host :=
  ⟨0, fun _ => true, fun e => some (if e.event.isHandback then "tabs" else "work"), fun _ => 1⟩

def oneMessage : ChatWakeEvent := .message "m" " oi " none
def oneTab : ChatWakeEvent := .handback "1" none
def oneCheck : ChatWakeEvent := .checks "c" "w" "r" "0123456789" .passed

/-- Events of four kinds and two conversations go out in two texts. -/
def mixedRun : List Input :=
  [.queue oneMessage 0, .queue oneTab 0, .queue oneTask 0, .queue oneCheck 0, .fire routedHost,
    .delivered .sent routedHost, .finish 0, .fire routedHost, .delivered .sent routedHost]

def mixedState : State := mixedRun.foldl (step routedOptions) (State.initial [])

theorem sent_truthful_sample :
    mixedState.sent.map (fun r => (r.conversationId, r.events.map (·.event))) =
      [(some "work", [oneMessage, oneTask, oneCheck]), (some "tabs", [oneTab])] ∧
    (∀ r ∈ mixedState.sent, Truthful routedOptions r) ∧ WrittenOnce routedOptions mixedState.sent := by
  have hrun : Admitted (step routedOptions) (fun s input => clears s input = true)
    (State.initial []) mixedRun ∧
      mixedState.sent.map (fun r => (r.conversationId, r.events.map (·.event))) =
        [(some "work", [oneMessage, oneTask, oneCheck]), (some "tabs", [oneTab])] := by decide +kernel
  have hreached : Reaches (step routedOptions) (fun s input => clears s input = true)
      (State.initial []) mixedState :=
    .events .refl hrun.1 rfl
  exact ⟨hrun.2, sent_truthful routedOptions [] mixedState (hreached.mono fun _ _ => clear_of_clears)⟩

def handbacks : List ChatWakeEvent := ["1", "2", "3", "4"].map fun tabId => .handback tabId none

theorem note_handback (tabId : String) : (ChatWakeEvent.handback tabId none).note.toList =
    "[MCP V3] A aba ".toList ++ tabId.toList ++ " foi devolvida".toList ++ "".toList ++
      ". Chame browser_wait com forUser nessa aba para recebê-la.".toList := by
  show ("[MCP V3] A aba " ++ tabId ++ " foi devolvida" ++ "" ++
    ". Chame browser_wait com forUser nessa aba para recebê-la.").toList = _
  rw [String.toList_append, String.toList_append, String.toList_append, String.toList_append]

theorem text_handbacks : (chatWakeText handbacks).toList = "\n\n".toList.intercalate ["\n".toList.intercalate
    (["1", "2", "3"].map fun tabId => (ChatWakeEvent.handback tabId none).note.toList)] := by
  have hmessages : handbacks.filter ChatWakeEvent.isMessage = [] := rfl
  have hnotes : wakeNotes handbacks =
      ["1", "2", "3"].map fun tabId => (ChatWakeEvent.handback tabId none).note := rfl
  have hne : wakeNotes handbacks ≠ [] := by simp [hnotes]
  rw [chatWakeText, hmessages, if_neg hne, hnotes]
  simp only [String.toList_intercalate, List.map_cons, List.map_nil, List.filter_nil, List.nil_append]

theorem fourth_unsaid : '4' ∉ (chatWakeText handbacks).toList := by
  rw [text_handbacks]
  simp only [List.map_cons, List.map_nil, note_handback]
  decide +kernel

/-- Four tabs are given back: one more than a text takes. -/
def handbackRun : List Input :=
  (["1", "2", "3", "4"].map fun tabId => Input.queue (.handback tabId none) 0) ++
    [.fire anyHost, .delivered .sent anyHost]

def handbackState : State := handbackRun.foldl (step anyOptions) (State.initial [])

/-- The attempt has the task in hand when it is queued again. -/
def againRun : List Input :=
  [.queue oneTask 0, .fire anyHost, .setEnabled false, .setEnabled true, .queue oneTask
    0, .delivered .sent anyHost, .finish 0, .fire anyHost, .delivered .sent anyHost]

def againState : State := againRun.foldl (step anyOptions) (State.initial [])

theorem handback_unsaid_task_twice :
    (Reaches (step anyOptions) (fun _ _ => True) (State.initial []) handbackState ∧
      ∃ r ∈ handbackState.sent, ∃ e ∈ r.events, e ∈ r.removed ∧ ¬Shown r.text e.event) ∧
    Reaches (step anyOptions) (fun _ _ => True) (State.initial []) againState ∧
      ¬WrittenOnce anyOptions againState.sent := by
  have hany : ∀ events s, Admitted (step anyOptions) (fun _ _ => True) s events := by
    intro events
    induction events with
    | nil => exact fun _ => trivial
    | cons e events ih => exact fun s => ⟨trivial, ih _⟩
  have hunsaid : ∃ r ∈ handbackState.sent, ∃ e ∈ r.events, e ∈ r.removed ∧
      e.event = .handback "4" none ∧ r.text = chatWakeText handbacks := by
    refine ⟨_, List.mem_cons_self, ?_⟩
    refine ⟨_, List.mem_cons_of_mem _ (List.mem_cons_of_mem _ (List.mem_cons_of_mem _ List.mem_cons_self)),
      ?_, rfl, rfl⟩
    decide +kernel
  have htwo : againState.sent.length = 2 := by decide +kernel
  have hkeys : againState.sent.map (fun r => taskKeys r.events) =
      List.replicate 2 [(taskReceiptKey oneTask).getD ""] := by
    decide +kernel
  refine ⟨⟨.events .refl (hany _ _) rfl, ?_⟩, .events .refl (hany _ _) rfl, ?_⟩
  · obtain ⟨r, hr, e, he, hremoved, hevent, htext⟩ := hunsaid
    refine ⟨r, hr, e, he, hremoved, fun h => fourth_unsaid ?_⟩
    rw [← htext]
    refine h.noted.subset ?_
    rw [hevent, note_handback]
    simp
  · intro honce
    obtain ⟨r, r', hsent⟩ := List.length_eq_two.mp htwo
    rw [hsent] at hkeys honce
    simp only [List.map_cons, List.map_nil, List.replicate, List.cons.injEq] at hkeys
    obtain ⟨r'', -, hfile, -⟩ :=
      honce [r] r' [] rfl r (List.mem_singleton.mpr rfl) ((taskReceiptKey oneTask).getD "")
      (hkeys.1 ▸ List.mem_singleton.mpr rfl) (hkeys.2.1 ▸ List.mem_singleton.mpr rfl)
    exact absurd hfile nofun

end Notices

end AccessStack.ChatWake
