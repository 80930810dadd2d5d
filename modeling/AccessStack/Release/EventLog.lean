import AccessStack.Release.Effects
import AccessStack.Release.Enabled

/-!
# The event log

Every event of a run has one row in `run_events` and one in `audit_log`. The
rows are appended by two writes alone, which also advance the sequence number
of the run, so that the numbers have no gap and no repetition and paging
through them loses nothing.
-/

set_option autoImplicit false

namespace AccessStack.Release
open AccessStack.Text AccessStack.Rows AccessStack.JsonText

def Ledger.eventsOf (L : Ledger) (runId : String) : List EventRow :=
  L.runEvents.filter (·.runId == runId)

def Ledger.auditOf (L : Ledger) (runId : String) : List AuditRow :=
  L.auditLog.filter (·.runId == runId)

/-- What an event and its audit row have in common. -/
def EventRow.record (e : EventRow) : String × ℕ × EventType × String × String :=
  (e.runId, e.seq, e.eventType, e.payloadJson, e.occurredAt)

def AuditRow.record (a : AuditRow) : String × ℕ × EventType × String × String :=
  (a.runId, a.eventSeq, a.action, a.detailsJson, a.occurredAt)

section Appended
variable {h : Host} {L : Ledger} {w : Write}

/-- The event rows a write appends. -/
def Write.events (h : Host) (L : Ledger) : Write → List EventRow
  | .log run t payload _ now => [{
      runId := run.runId, seq := run.lastSeq+1, eventId := h.randomUUID L.draws, eventType := t
      payloadJson := canonicalJson h payload, occurredAt := now }]
  | .complete run _ now => [{
      runId := run.runId, seq := run.lastSeq+1, eventId := h.randomUUID L.draws
      eventType := .runSucceeded, payloadJson := canonicalJson h (.obj []), occurredAt := now }]
  | _ => []

theorem events_perform :
    (perform h L w).runEvents = L.runEvents ++ w.events h L ∧
      (perform h L w).auditLog.map AuditRow.record =
        L.auditLog.map AuditRow.record ++ (w.events h L).map EventRow.record := by
  cases w with
  | log run t payload actorId now =>
    refine ⟨rfl, ?_⟩
    simp only [perform, Ledger.logEvent, List.map_append]
    rfl
  | complete run actorId now =>
    refine ⟨rfl, ?_⟩
    simp only [perform, Ledger.logEvent, List.map_append]
    rfl
  | begin row key now =>
    simp only [perform, insertAttempt, afterOperation]
    split <;> simp [Write.events, Ledger.setStep]
  | finish a input sha now =>
    simp only [perform]
    split <;> simp [Write.events, finishAttempt, failRun, Ledger.setRun, Ledger.setStep,
      Ledger.setAttempt]
  | settle a d outcome now => cases outcome <;> simp [perform, settleOutcome, Write.events,
      setMeasuredGate, Ledger.setStep, Ledger.setAttempt]
  | resume r now =>
    simp only [perform, resumeIfNoUnknownOperations]
    split <;> simp [Write.events, Ledger.setRun]
  | decide r g input sha ids now =>
    simp only [perform]
    split <;> simp [Write.events, insertDecision, failRun, Ledger.setRun, Ledger.setGate]
  | _ => simp [perform, Write.events, insertRun, Ledger.setRun, loseOutcome, setMeasuredGate,
      Ledger.setStep, Ledger.setAttempt, insertReconciliation]

def Write.lastSeq (r : RunRow) : Write → ℕ
  | .log run _ _ _ _ => if r.runId = run.runId then run.lastSeq+1 else r.lastSeq
  | .complete run _ _ => if r.runId = run.runId then run.lastSeq+1 else r.lastSeq
  | _ => r.lastSeq

theorem runs_lastSeq (hw : ∀ b q t, w ≠ .insertRun b q t) :
    (perform h L w).releaseRuns.map (fun r => (r.runId, r.lastSeq)) =
      L.releaseRuns.map (fun r => (r.runId, w.lastSeq r)) := by
  cases w with
  | insertRun b q t => exact absurd rfl (hw b q t)
  | log run t payload actorId now =>
    refine map_update_eq fun r => ?_
    by_cases hr : r.runId = run.runId <;> simp [Write.lastSeq, hr]
  | complete run actorId now =>
    simp only [perform, Ledger.logEvent, succeedRun, Ledger.setRun]
    rw [map_update_eq (q := fun r => (r.runId, (Write.complete run actorId now).lastSeq r))]
    · exact map_update _ _ _ _ fun _ => rfl
    · intro r
      by_cases hr : r.runId = run.runId <;> simp [Write.lastSeq, hr]
  | begin row key now =>
    simp only [perform, insertAttempt, afterOperation]
    split <;> rfl
  | finish a input sha now =>
    simp only [perform]
    split
    · rfl
    · exact map_update _ _ _ _ fun _ => rfl
  | settle a d outcome now => cases outcome <;> rfl
  | resume r now =>
    simp only [perform, resumeIfNoUnknownOperations]
    split
    · rfl
    · exact map_update _ _ _ _ fun r => by split <;> rfl
  | decide r g input sha ids now =>
    simp only [perform]
    split
    · exact map_update _ _ _ _ fun _ => rfl
    · rfl
  | start runId now => exact map_update _ _ _ _ fun _ => rfl
  | lose a mark d now => exact map_update _ _ _ _ fun _ => rfl
  | evidence rows => rfl
  | note a op input sha now => rfl

theorem seq_before (hk : (L.releaseRuns.map (·.runId)).Nodup) {r' : RunRow}
    (hr : r' ∈ (perform h L w).releaseRuns) :
    (∃ r ∈ L.releaseRuns, r.runId = r'.runId ∧ r'.status = w.runStatus L r ∧
      r'.lastSeq = w.lastSeq r) ∨
      ∃ b q t, w = .insertRun b q t ∧ r'.status = .planned ∧ r'.lastSeq = 0 ∧
        r'.runId = h.randomUUID L.draws := by
  by_cases hw : ∃ b q t, w = .insertRun b q t
  · obtain ⟨b, q, t, rfl⟩ := hw
    rcases List.mem_append.mp hr with hr | hr
    · exact .inl ⟨r', hr, rfl, rfl, rfl⟩
    · obtain rfl := List.mem_singleton.mp hr
      exact .inr ⟨b, q, t, rfl, rfl, rfl, rfl⟩
  · push Not at hw
    obtain ⟨r, hrm, hid, hst⟩ | ⟨b, q, t, he, _⟩ := run_before hr
    · have hm : (r'.runId, r'.lastSeq) ∈ L.releaseRuns.map fun r => (r.runId, w.lastSeq r) :=
        runs_lastSeq hw ▸ List.mem_map_of_mem hr
      obtain ⟨q, hq, he⟩ := List.mem_map.mp hm
      obtain rfl : q = r :=
        List.inj_on_of_nodup_map hk hq hrm ((congrArg (·.1) he : q.runId = r'.runId).trans hid.symm)
      exact .inl ⟨q, hq, hid, hst, (congrArg (·.2) he : w.lastSeq q = r'.lastSeq).symm⟩
    · exact absurd he (hw b q t)

end Appended

/-- The sequence numbers of every run are `1, …, lastSeq`, each event has its
audit row, and the payloads are JSON texts. -/
structure Sequenced (L : Ledger) : Prop where
  numbers : ∀ r ∈ L.releaseRuns, (L.eventsOf r.runId).map (·.seq) = List.range' 1 r.lastSeq
  audited : L.auditLog.map AuditRow.record = L.runEvents.map EventRow.record
  texts : ∀ e ∈ L.runEvents, ∃ v, e.payloadJson = stringify v

theorem eventsOf_perform {h : Host} {L : Ledger} {w : Write} (runId : String) :
    (perform h L w).eventsOf runId = L.eventsOf runId ++ (w.events h L).filter (·.runId == runId) := by
  rw [Ledger.eventsOf, events_perform.1, List.filter_append]
  rfl

theorem numbers_perform {o : Orchestrator} {L : Ledger} {w : Write} (hL : Written o L)
    (hg : Guard o L w) (hn : NoCollision o.host (perform o.host L w))
    (hs : ∀ r ∈ L.releaseRuns, (L.eventsOf r.runId).map (·.seq) = List.range' 1 r.lastSeq) :
    ∀ r ∈ (perform o.host L w).releaseRuns,
      ((perform o.host L w).eventsOf r.runId).map (·.seq) = List.range' 1 r.lastSeq := by
  have hk := hL.keyed
  -- The two appending writes number the event of the run they have read.
  have happend : ∀ (run r : RunRow) (e : EventRow), L.run? run.runId = some run →
      r ∈ L.releaseRuns → e.runId = run.runId → e.seq = run.lastSeq+1 →
      (L.eventsOf r.runId ++ [e].filter (·.runId == r.runId)).map (·.seq) =
        List.range' 1 (if r.runId = run.runId then run.lastSeq+1 else r.lastSeq) := by
    intro run r e hrun hr he hseq
    by_cases hid : r.runId = run.runId
    · obtain rfl : r = run := List.inj_on_of_nodup_map hk.runs hr (run_mem hrun) hid
      rw [if_pos rfl, List.map_append, hs r hr, List.range'_concat]
      simp [he, hseq, Nat.add_comm]
    · have hne : (e.runId == r.runId) = false := by
        rw [he]
        simpa using Ne.symm hid
      simp [hid, hne, hs r hr]
  intro r' hr'
  rw [eventsOf_perform]
  obtain ⟨r, hr, hid, _, hseq⟩ | ⟨b, q, t, rfl, _, hseq, hid⟩ := seq_before hk.runs hr'
  · rw [hseq, ← hid]
    cases w with
    | log run t payload actorId now => exact happend run r _ hg.1 hr rfl rfl
    | complete run actorId now => exact happend run r _ hg.1 hr rfl rfl
    | _ => simpa [Write.events, Write.lastSeq] using hs r hr
  · have hnone : L.eventsOf r'.runId = [] := by
      refine List.filter_eq_nil_iff.mpr fun e he hm => ?_
      obtain ⟨r, hr, heq⟩ := List.mem_map.mp (hk.eventRun e he)
      have : r.runId = o.host.randomUUID L.draws := heq.trans ((beq_iff_eq.mp hm).trans hid)
      exact fresh_not_drawn hn (Nat.lt_succ_self L.draws) (this ▸ hk.runDrawn r hr)
    rw [hnone, hseq]
    rfl

theorem Written.sequenced {o : Orchestrator} {L : Ledger} (h : Written o L) : Sequenced L := by
  induction h with
  | opened h =>
    rw [opened_ledger h]
    constructor <;> simp
  | @write L w hL hg hn ih =>
    refine ⟨numbers_perform hL hg hn ih.numbers, ?_, ?_⟩
    · rw [events_perform.2, events_perform.1, List.map_append, ih.audited]
    · rw [events_perform.1]
      intro e he
      rcases List.mem_append.mp he with he | he
      · exact ih.texts e he
      · cases w with
        | log run t payload actorId now =>
          obtain rfl := List.mem_singleton.mp he
          exact ⟨_, rfl⟩
        | complete run actorId now =>
          obtain rfl := List.mem_singleton.mp he
          exact ⟨_, rfl⟩
        | _ => cases he

theorem events_performAll (h : Host) (L : Ledger) (ws : List Write) :
    L.runEvents <+: (performAll h L ws).runEvents := by
  induction ws generalizing L with
  | nil => exact List.prefix_rfl
  | cons w ws ih =>
    refine List.IsPrefix.trans ?_ (ih (perform h L w))
    rw [events_perform.1]
    exact List.prefix_append _ _

/-- A call only appends events. -/
theorem events_step {o : Orchestrator} {L : Ledger} (hL : Written o L) (op : Op) :
    L.runEvents <+: (step o L op).runEvents := by
  obtain ⟨ws, ⟨_, heq⟩, _⟩ := step_commits hL.keyed op
  rw [← heq]
  exact events_performAll o.host L ws

section Paging

/-- Pages of the given sizes, each from the last sequence number of the one
before. -/
def replayPages (L : Ledger) (runId : String) : ℤ → List ℤ → Fallible (List ReleaseRunEvent)
  | _, [] => .ok []
  | afterSeq, limit::limits => do
    let page ← replayEvents L runId afterSeq limit
    let rest ← replayPages L runId (page.getLast?.elim afterSeq fun e => e.seq) limits
    return page ++ rest

/-- Rows numbered `m+1, …, m+n` that come after `m+k` are those from the
`k`-th on. -/
theorem numbered_after {events : List EventRow} {m n k : ℕ}
    (h : events.map (·.seq) = List.range' (m+1) n) (hk : m ≤ k) :
    events.filter (fun e => decide (k < e.seq)) = events.drop (k-m) := by
  induction events generalizing m n with
  | nil => simp
  | cons e events ih =>
    cases n with
    | zero => simp at h
    | succ n =>
      rw [List.range'_succ, List.map_cons, List.cons.injEq] at h
      obtain ⟨hseq, hrest⟩ := h
      by_cases hlt : k = m
      · subst hlt
        rw [Nat.sub_self, List.drop_zero]
        refine List.filter_eq_self.mpr fun f hf => ?_
        have hmem : f.seq ∈ List.range' (k+1) (n+1) := by
          rw [List.range'_succ, ← hrest, ← hseq, ← List.map_cons]
          exact List.mem_map_of_mem hf
        simpa using (List.mem_range'_1.mp hmem).1
      · have hstep : k-m = (k-(m+1))+1 := by omega
        rw [hstep, List.drop_succ_cons, List.filter_cons_of_neg (by simp; omega)]
        exact ih hrest (by omega)

theorem numbered_sorted {events : List EventRow} {m n : ℕ}
    (h : events.map (·.seq) = List.range' m n) : orderBy (·.seq) events = events := by
  refine List.Pairwise.insertionSort_eq ?_
  have hpair : (events.map (·.seq)).Pairwise (· ≤ ·) := by
    rw [h]
    have hlt : (List.range' m n).Pairwise (· < ·) := List.pairwise_lt_range'
    exact hlt.imp fun h => le_of_lt h
  exact List.pairwise_map.mp hpair

theorem replay_page {L : Ledger} {r : RunRow} (hr : HasRun L r.runId)
    (hs : (L.eventsOf r.runId).map (·.seq) = List.range' 1 r.lastSeq) (k : ℕ) {limit : ℤ}
    (h1 : 1 ≤ limit) (h2 : limit ≤ 1000) :
    replayEvents L r.runId k limit =
      .ok ((((L.eventsOf r.runId).drop k).take limit.toNat).map runEvent) := by
  obtain ⟨run, hrun⟩ := hasRun_iff.mpr hr.2
  have hfilter : (L.runEvents.filter fun e => e.runId == r.runId && decide ((k : ℤ) < e.seq)) =
      (L.eventsOf r.runId).drop k := by
    rw [← Nat.sub_zero k, ← numbered_after (m := 0) hs (Nat.zero_le k), Ledger.eventsOf,
      List.filter_filter]
    refine List.filter_congr fun e _ => ?_
    rw [Bool.and_comm]
    simp
  have hsorted : orderBy (·.seq) ((L.eventsOf r.runId).drop k) = (L.eventsOf r.runId).drop k := by
    refine numbered_sorted (m := 1+k) (n := r.lastSeq-k) ?_
    rw [List.map_drop, hs, List.drop_range']
    simp
  have hnonneg : ¬(k : ℤ) < 0 := not_lt.mpr (Int.natCast_nonneg k)
  have hlow : ¬limit < 1 := not_lt.mpr h1
  have hhigh : ¬1000 < limit := not_lt.mpr h2
  simp only [replayEvents, hfilter, hsorted]
  simp [validateRunId, hr.1, hnonneg, hlow, hhigh, requireRun, hrun, bind, Except.bind, failIf, pure,
    Except.pure]

/-- The next page starts after the last event of this one. -/
theorem numbered_last {events : List EventRow} {n k j : ℕ}
    (h : events.map (·.seq) = List.range' 1 n) :
    ((((events.drop k).take j).map runEvent).getLast?.elim (k : ℤ) fun e => e.seq) =
      (k+min j (n-k) : ℕ) := by
  have hseqs : ((events.drop k).take j).map (·.seq) = List.range' (1+k) (min j (n-k)) := by
    rw [List.map_take, List.map_drop, h, List.drop_range', Nat.mul_one]
    rcases le_total j (n-k) with hle | hle
    · rw [List.take_range'_of_length_ge hle, min_eq_left hle]
    · rw [List.take_range'_of_length_le hle, min_eq_right hle]
  have hlast : (((events.drop k).take j).map runEvent).getLast?.elim (k : ℤ) (fun e => e.seq) =
      (((events.drop k).take j).map (·.seq)).getLast?.elim (k : ℤ) (fun n : ℕ => (n : ℤ)) := by
    rw [List.getLast?_map, List.getLast?_map]
    cases ((events.drop k).take j).getLast? <;> rfl
  rw [hlast, hseqs, List.getLast?_range']
  split
  · rename_i hz
    simp [hz]
  · simp only [Option.elim_some]
    omega

/-- Paging gives the events in order, as many as the pages hold. -/
theorem replay_pages {L : Ledger} {r : RunRow} (hr : HasRun L r.runId)
    (hs : (L.eventsOf r.runId).map (·.seq) = List.range' 1 r.lastSeq) (limits : List ℤ) (k : ℕ)
    (hlim : ∀ limit ∈ limits, 1 ≤ limit ∧ limit ≤ 1000) :
    replayPages L r.runId k limits =
      .ok ((((L.eventsOf r.runId).drop k).take (limits.map Int.toNat).sum).map runEvent) := by
  induction limits generalizing k with
  | nil => simp [replayPages]
  | cons limit limits ih =>
    obtain ⟨h1, h2⟩ := hlim limit List.mem_cons_self
    have hrest := ih (k+min limit.toNat (r.lastSeq-k))
      fun l hl => hlim l (List.mem_cons_of_mem limit hl)
    have hlength : (L.eventsOf r.runId).length = r.lastSeq := by
      simpa using congrArg List.length hs
    have hdrop : (L.eventsOf r.runId).drop (k+min limit.toNat (r.lastSeq-k)) =
        ((L.eventsOf r.runId).drop k).drop limit.toNat := by
      rw [List.drop_drop]
      by_cases hle : limit.toNat ≤ r.lastSeq-k
      · rw [min_eq_left hle]
      · rw [List.drop_eq_nil_of_le (by omega), List.drop_eq_nil_of_le (by omega)]
    simp only [replayPages, replay_page hr hs k h1 h2, bind, Except.bind, numbered_last hs, hrest,
      pure, Except.pure]
    rw [List.map_cons, List.sum_cons, List.take_add, List.map_append, hdrop]

end Paging

end AccessStack.Release
