import AccessStack.Edge.ProgressLaws

/-!
# What the progress plans promise

The newest plans and the newest sessions are kept. For the sessions this holds
while each session that is pushed out is the one bound longest ago: an object
lists the names that are array indices first, whenever they were bound.
-/

set_option autoImplicit false

namespace AccessStack.Edge.Progress
open AccessStack.JsonText AccessStack.Text AccessStack.Properties

section Updates

/-- Only the named plan differs, and only where its owner is the given one. -/
structure OnlyNamed (p p' : Plans) (planId : String) (ownerUserId : Option String) : Prop where
  owners : p'.owners = p.owners
  sessions : p'.sessions = p.sessions
  cards : p'.cards = p.cards
  plans : ∀ userId, List.Forall₂ (fun before after => after = before ∨
    before.planId = planId ∧ after.planId = planId ∧
      (ownerUserId = none ∨ ownerUserId = some userId)) (p.of userId) (p'.of userId)

theorem onlyNamed_refl (p : Plans) (planId : String) (ownerUserId : Option String) :
    OnlyNamed p p planId ownerUserId :=
  ⟨rfl, rfl, rfl, fun _ => List.forall₂_same.mpr fun _ _ => .inl rfl⟩

theorem applyUpdate_only (p : Plans) (update : ProgressUpdate) (ownerUserId : Option String) (now : ℕ) :
    OnlyNamed p (applyUpdate p update ownerUserId now).1 update.planId ownerUserId := by
  unfold applyUpdate
  split
  · exact onlyNamed_refl ..
  · rename_i userId _
    split_ifs with howner
    · exact onlyNamed_refl ..
    · split
      · exact onlyNamed_refl ..
      · rename_i current hcurrent
        have hname : current.planId = update.planId := by simpa using List.find?_some hcurrent
        refine ⟨rfl, rfl, rfl, ?_⟩
        intro user
        by_cases hu : user = userId
        · subst hu
          rw [put_of_self, replaced, List.forall₂_map_right_iff, List.forall₂_same]
          intro entry _
          by_cases hid : entry.planId = (changed current update.title update.steps now).planId
          · right
            rw [if_pos hid]
            refine ⟨hid.trans hname, hname, ?_⟩
            cases ownerUserId with
            | none => exact .inl rfl
            | some owner =>
              right
              by_contra hne
              exact howner ⟨owner, rfl, fun hsame => hne (congrArg some hsame)⟩
          · left
            rw [if_neg hid]
        · rw [put_of_other p hu]
          exact List.forall₂_same.mpr fun _ _ => .inl rfl

end Updates

section Promises

structure Promised (p : Plans) : Prop where
  newest : ∀ userId, (p.of userId).map (·.planId) = lastOf maxPlans (openedBy p.calls userId)
  owners : ∀ planId userId, p.owners planId = some userId ↔ planId ∈ (p.of userId).map (·.planId)
  updates : ∀ update ownerUserId now,
    OnlyNamed p (applyUpdate p update ownerUserId now).1 update.planId ownerUserId
  sessions : ∀ userId session planId, (session, planId) ∈ lastOf maxSessionPlans (bindings p.calls userId) →
    planId ∈ (p.of userId).map (·.planId) → planForSession p userId (some session) = some planId
  ended : ∀ userId, ∀ plan ∈ p.of userId, ∀ step ∈ plan.steps, ∀ e ∈ step.endedAt, ∃ s,
    step.startedAt = some s ∧ s ≤ e

theorem filter_nonempty {s : String} (h : s ≠ "") : (some s).filter (· ≠ "") = some s := by
  simp [Option.filter, h]

theorem promised_of_kept {now : ℕ} {p : Plans} (h : Kept now p) : Promised p := by
  refine ⟨h.newest, h.owners, applyUpdate_only p, ?_, fun userId plan hplan step hstep =>
    (h.timely userId plan hplan step hstep).2⟩
  intro userId session planId hrecent hkept
  have hmem : (session, planId) ∈ bindings p.calls userId := (List.drop_sublist _ _).subset hrecent
  have hstored : Distinct (p.assignments userId) := by
    refine ((h.sessions userId).perm.map Prod.fst).nodup_iff.mpr ?_
    exact distinct_sublist (List.drop_sublist _ _) (bindings_distinct p.calls userId)
  have hget := get_of_mem hstored ((h.sessions userId).perm.mem_iff.mpr hrecent)
  have hid : planId ≠ "" := by
    rw [h.newest] at hkept
    exact h.ids planId ((openedBy_sublist p.calls userId).subset ((List.drop_sublist _ _).subset hkept))
  have hany : (p.of userId).any (·.planId = planId) = true := by
    obtain ⟨plan, hplan, hname⟩ := List.mem_map.mp hkept
    exact List.any_eq_true.mpr ⟨plan, hplan, by simpa using hname⟩
  rw [planForSession, filter_nonempty (h.names userId _ hmem)]
  simp only [hget, filter_nonempty hid, hany, if_true]

/-- Every state of a run keeps the newest, while the oldest sessions are the ones pushed out. -/
theorem run_promised (turns : List Turn) (h : Orderly turns) (hfirst : OldestFirst (run turns).calls) :
    Promised (run turns) := by
  obtain ⟨now, hnow⟩ : ∃ now, ∀ t ∈ turns, t.now ≤ now := by
    refine ⟨(turns.map Turn.now).sum, ?_⟩
    intro t ht
    exact List.single_le_sum (fun _ _ => Nat.zero_le _) _ (List.mem_map_of_mem ht)
  exact promised_of_kept (run_kept h hfirst hnow)

theorem bindings_length (calls : List Call) (userId : String) :
    (bindings calls userId).length ≤ calls.length := by
  induction calls using List.reverseRecOn with
  | nil => exact Nat.le_refl _
  | append_singleton calls call ih =>
    rw [bindings_snoc, List.length_append, List.length_singleton]
    cases call with
    | opened => exact ih.trans (Nat.le_succ _)
    | bound user session planId =>
      rw [bind]
      split_ifs
      · rw [latest, List.length_append, List.length_singleton]
        exact Nat.succ_le_succ ((List.length_filter_le _ _).trans ih)
      · exact ih.trans (Nat.le_succ _)

theorem oldestFirst_few {calls : List Call} (h : calls.length ≤ maxSessionPlans) : OldestFirst calls := by
  intro before userId session planId hprefix hmany
  have hlength := hprefix.length_le
  have hbindings := bindings_length before userId
  have hkept : (lastOf maxSessionPlans (bindings before userId)).length ≤ (bindings before userId).length :=
    List.Sublist.length_le (List.drop_sublist _ _)
  have hless : (remove (lastOf maxSessionPlans (bindings before userId)) session).length ≤
      (lastOf maxSessionPlans (bindings before userId)).length := List.length_filter_le _ _
  rw [List.length_append, List.length_singleton] at hlength
  rw [competing, latest, List.length_append, List.length_singleton] at hmany
  omega

end Promises

section Starts

def startBody (session : String) : Json :=
  .obj [("method", .str "tools/call"), ("params", .obj [("name", .str "mcp_update"),
    ("arguments", .obj [("action", .str "start")]), ("_meta", .obj [("openai/session", .str session)])])]

def start (session : String) (now : ℕ) : Turn :=
  ⟨.openForUpdate (startBody session) (some "user"), now, session⟩

theorem start_session {session : String} (hblank : blank session = false)
    (hlength : utf16Length session ≤ 200) (htrim : trim session = session) :
    progressSession (startBody session) = some session := by
  simp [progressSession, startBody, field, orElse, hblank, hlength, htrim]

theorem start_step (p : Plans) {session : String}
    (h : progressSession (startBody session) = some session) (now : ℕ) :
    step p (start session now) =
      bindSession (openPlan p "user" (opened "Atualizando o MCP" updateSteps now session)) "user"
        (some session) (newId session) := by
  have hcall : openForUpdate p (startBody session) (some "user") now session =
      (bindSession (openPlan p "user" (opened "Atualizando o MCP" updateSteps now session)) "user"
        (progressSession (startBody session)) (newId session), some (newId session)) := by
    unfold openForUpdate
    rw [filter_nonempty (by simp), startBody]
    simp [toolCall, field, text?, opened]
  show (openForUpdate p (startBody session) (some "user") now session).1 = _
  rw [hcall, h]

theorem bind_of (p : Plans) (userId : String) (session : Option String) (planId user : String) :
    (bindSession p userId session planId).of user = p.of user := by
  cases session <;> rfl

/-- Sessions whose names are no numbers. -/
def chat (n : ℕ) : String := String.ofList (List.replicate (n+1) 's')

theorem chat_injective {m n : ℕ} (h : chat m = chat n) : m = n := by
  have hlength := congrArg (fun s => s.toList.length) h
  simpa [chat] using hlength

theorem chat_session {n : ℕ} (h : n < 200) : progressSession (startBody (chat n)) = some (chat n) := by
  apply start_session
  · simp [blank, chat, isSpace]
  · simp [utf16Length, chat]
    omega
  · have hspace : isSpace 's' = false := by decide
    have hdrop : (List.replicate (n+1) 's').dropWhile isSpace = List.replicate (n+1) 's' := by
      rw [List.replicate_succ, List.dropWhile_cons_of_neg (by simp [hspace])]
    rw [trim, chat, String.toList_ofList, hdrop, List.rdropWhile, List.reverse_replicate, hdrop,
      List.reverse_replicate]

theorem chat_plain (n : ℕ) : arrayIndex (chat n) = none := by
  simp [arrayIndex, chat, List.replicate_succ]

/-- The first user starts twice in one session, and a runtime tells of the second plan. -/
def sampleTurns : List Turn :=
  [⟨.openForUpdate (startBody "chat") (some "first"), 0, "1"⟩,
    ⟨.openForUpdate (startBody "chat") (some "second"), 1, "2"⟩,
    ⟨.openForUpdate (startBody "chat") (some "first"), 2, "3"⟩,
    ⟨.applyUpdate ⟨newId "3", none, [⟨"Pronto", .done, none, none⟩]⟩ (some "first"), 3, "4"⟩,
    ⟨.noteUserCard "second" none, 4, "5"⟩]

theorem run_promised_sample : Orderly sampleTurns ∧ (run sampleTurns).calls.length = 6 ∧
    planForSession (run sampleTurns) "first" (some "chat") = some (newId "3") ∧
    planForSession (run sampleTurns) "second" (some "chat") = some (newId "2") ∧
    Promised (run sampleTurns) := by
  have hrun : (run sampleTurns).calls.length = 6 ∧
      planForSession (run sampleTurns) "first" (some "chat") = some (newId "3") ∧
      planForSession (run sampleTurns) "second" (some "chat") = some (newId "2") := by decide +kernel
  have horderly : Orderly sampleTurns := ⟨by decide +kernel, by decide⟩
  have hfew : OldestFirst (run sampleTurns).calls := by
    apply oldestFirst_few
    rw [hrun.1]
    decide
  exact ⟨horderly, hrun.1, hrun.2.1, hrun.2.2, run_promised _ horderly hfew⟩

theorem five_session : progressSession (startBody "5") = some "5" :=
  start_session (by simp [blank, isSpace]) (by simp [utf16Length]) (by simp [trim, isSpace, List.rdropWhile])

/-- So many conversations start an update, and then one whose session is named like an array index. -/
def chats (n : ℕ) : List Turn := (List.range n).map fun i => start (chat i) 0

def crowded : List Turn := chats 100 ++ [start "5" 0]

theorem step_assignments (p : Plans) {session : String}
    (h : progressSession (startBody session) = some session) (now : ℕ) :
    (step p (start session now)).assignments "user" =
      renew arrayIndex maxSessionPlans (p.assignments "user") session (newId session) := by
  rw [start_step p h]
  simp [bindSession, Plans.assignments, openPlan]

theorem chats_assignments {n : ℕ} (h : n ≤ 100) :
    (run (chats n)).assignments "user" = (List.range n).map fun i => (chat i, newId (chat i)) := by
  induction n with
  | zero => rfl
  | succ n ih =>
    have hturns : chats (n+1) = chats n ++ [start (chat n) 0] := by simp [chats, List.range_succ]
    rw [hturns, run_snoc, step_assignments _ (chat_session (by omega)), ih (by omega), renew_plain,
      List.range_succ, List.map_append]
    · rfl
    · intro e he
      obtain ⟨i, -, rfl⟩ := List.mem_map.mp he
      rw [IsIndex, chat_plain]
      simp
    · exact chat_plain n
    · intro e he
      obtain ⟨i, hi, rfl⟩ := List.mem_map.mp he
      intro hsame
      have hin := chat_injective hsame
      rw [List.mem_range] at hi
      omega
    · rw [List.length_map, List.length_range, maxSessionPlans]
      omega

theorem crowded_orderly : Orderly crowded := by
  constructor
  · have huuids : crowded.map Turn.uuid = (List.range 100).map chat ++ ["5"] := by
      simp [crowded, chats, start]
    rw [huuids, List.nodup_append]
    refine ⟨(List.nodup_map_iff fun _ _ => chat_injective).mpr List.nodup_range, List.nodup_singleton _, ?_⟩
    intro a ha b hb
    obtain ⟨i, -, rfl⟩ := List.mem_map.mp ha
    rw [List.mem_singleton.mp hb]
    intro hsame
    have hhead := congrArg (fun s => s.toList.head?) hsame
    simp [chat, List.replicate_succ] at hhead
  · have hclock : crowded.map Turn.now = List.replicate 101 0 := by
      rw [List.eq_replicate_iff]
      refine ⟨by simp [crowded, chats], ?_⟩
      intro b hb
      obtain ⟨t, ht, rfl⟩ := List.mem_map.mp hb
      simp only [crowded, chats, List.mem_append, List.mem_map, List.mem_singleton] at ht
      rcases ht with ⟨i, -, rfl⟩ | rfl <;> rfl
    rw [hclock]
    exact List.pairwise_replicate.mpr (.inr (Nat.le_refl 0))

theorem crowded_last : run crowded = step (run (chats 100)) (start "5" 0) := by rw [crowded, run_snoc]

theorem crowded_assignments : (run crowded).assignments "user" = (List.range 100).map fun i =>
    (chat i, newId (chat i)) := by
  rw [crowded_last, step_assignments _ five_session, chats_assignments (Nat.le_refl _)]
  apply renew_lost
  · intro e he
    obtain ⟨i, -, rfl⟩ := List.mem_map.mp he
    rw [IsIndex, chat_plain]
    simp
  · simp [arrayIndex]
  · intro e he
    obtain ⟨i, -, rfl⟩ := List.mem_map.mp he
    intro hsame
    have hhead := congrArg (fun s => s.toList.head?) hsame
    simp [chat, List.replicate_succ] at hhead
  · rw [List.length_map, List.length_range, maxSessionPlans]

theorem crowded_bound : ("5", newId "5") ∈ lastOf maxSessionPlans (bindings (run crowded).calls "user") := by
  rw [crowded_last, start_step _ five_session]
  simp only [bindSession]
  rw [bindings_snoc, bind, if_pos rfl]
  exact last_mem 99 _ _

theorem crowded_open : newId "5" ∈ ((run crowded).of "user").map (·.planId) := by
  rw [crowded_last, start_step _ five_session, bind_of, open_kept, List.map_append, List.mem_append]
  right
  simp [opened]

theorem unassigned {p : Plans} {userId session : String}
    (h : Properties.get (p.assignments userId) session = none) :
    planForSession p userId (some session) = none := by
  by_cases hsession : session = ""
  · simp [planForSession, hsession, Option.filter]
  · rw [planForSession, filter_nonempty hsession]
    simp [h]

theorem crowded_lost : planForSession (run crowded) "user" (some "5") = none := by
  apply unassigned
  rw [crowded_assignments, Properties.get, Option.map_eq_none_iff, List.find?_eq_none]
  intro e he hsame
  obtain ⟨i, -, rfl⟩ := List.mem_map.mp he
  have hname : chat i = "5" := by simpa using hsame
  have hhead := congrArg (fun s => s.toList.head?) hname
  simp [chat, List.replicate_succ] at hhead

theorem index_session_lost : Orderly crowded ∧ ¬ Promised (run crowded) := by
  refine ⟨crowded_orderly, ?_⟩
  intro h
  have hsession := h.sessions "user" "5" (newId "5") crowded_bound crowded_open
  rw [crowded_lost] at hsession
  cases hsession

end Starts
end AccessStack.Edge.Progress
