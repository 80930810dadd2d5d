import AccessStack.Shell.FileSink

/-!
# When the persisted log depends on the chunks

What has been written is told by the lines that have ended and the one that
has not. It is the same for all ways of cutting the bytes exactly where no
newline comes after too many characters.
-/

set_option autoImplicit false

namespace AccessStack.Shell.FileSink
open AccessStack.Utf8

section Steps

variable (transform : Transform)

def Long (line : Text) : Prop := maxRedactionLineChars < length line

instance (line : Text) : Decidable (Long line) := inferInstanceAs (Decidable (_ < _))

/-- What is written in the place of a line that has not ended. -/
def marker (line : Text) : List Text := if Long line then [omittedOutputLine] else []

def logged (writes : List Text) : Log := writes.foldl (Log.write transform) ⟨[], false⟩

/-- The sink has written these texts and is in this line. -/
structure At (writes : List Text) (line : Text) (s : Sink) : Prop where
  inside : newline ∉ line
  log : s.log = logged transform (writes ++ marker line)
  dropping : s.log.failed = false → s.droppingOversizedLine = decide (Long line)
  pending : s.log.failed = false → s.pending = if Long line then [] else line

theorem length_append (text more : Text) : length (text ++ more) = length text + length more := by
  simp [length]

theorem long_append {line : Text} (h : Long line) (more : Text) : Long (line ++ more) := by
  unfold Long at *
  rw [length_append]
  omega

theorem write_failed {log : Log} (h : log.failed = true) (value : Text) :
    log.write transform value = log := by
  simp [Log.write, h]

theorem writes_failed {log : Log} (h : log.failed = true) (writes : List Text) :
    writes.foldl (Log.write transform) log = log := by
  induction writes with
  | nil => rfl
  | cons value writes ih => rw [List.foldl_cons, write_failed transform h, ih]

theorem logged_append (writes more : List Text) :
    logged transform (writes ++ more) = more.foldl (Log.write transform)
    (logged transform writes) := List.foldl_append

section Turns

variable {fuel : ℕ} {s : Sink} {text : Text} (hnil : text ≠ [])
include hnil

theorem turn_dropped (hdropping : s.droppingOversizedLine = true)
    (hfind : text.findIdx? (· == newline) = none) :
    consumeLoop transform (fuel+1) s text = s := by
  simp [consumeLoop, hnil, hdropping, hfind]

theorem turn_resumed (hdropping : s.droppingOversizedLine = true) {i : ℕ}
    (hfind : text.findIdx? (· == newline) = some i) :
    consumeLoop transform (fuel+1) s text =
      consumeLoop transform fuel { s with droppingOversizedLine := false } (text.drop (i+1)) := by
  simp [consumeLoop, hnil, hdropping, hfind]

theorem turn_line (hdropping : s.droppingOversizedLine = false) {i : ℕ}
    (hfind : text.findIdx? (· == newline) = some i) :
    consumeLoop transform (fuel+1) s text =
      consumeLoop transform fuel { s with log := s.log.write transform (text.take (i+1)) }
      (text.drop (i+1)) := by
  simp [consumeLoop, hnil, hdropping, hfind]

theorem turn_last (hdropping : s.droppingOversizedLine = false)
    (hfind : text.findIdx? (· == newline) = none) :
    consumeLoop transform (fuel+1) s text =
      if Long text then { s with log := s.log.write transform omittedOutputLine,
                                 droppingOversizedLine := true }
      else { s with pending := text } := by
  simp [consumeLoop, hnil, hdropping, hfind, Long]

end Turns

theorem consume_failed (fuel : ℕ) {s : Sink} (h : s.log.failed = true) (text : Text) :
    (consumeLoop transform fuel s text).log = s.log := by
  induction fuel generalizing s text with
  | zero => rfl
  | succ fuel ih =>
    by_cases hnil : text = []
    · simp [consumeLoop, hnil]
    · cases hdropping : s.droppingOversizedLine with
      | true =>
        cases hfind : text.findIdx? (· == newline) with
        | none => rw [turn_dropped transform hnil hdropping hfind]
        | some i =>
          rw [turn_resumed transform hnil hdropping hfind]
          exact ih (s := { s with droppingOversizedLine := false }) h _
      | false =>
        cases hfind : text.findIdx? (· == newline) with
        | none =>
          rw [turn_last transform hnil hdropping hfind]
          split_ifs
          · exact write_failed transform h _
          · rfl
        | some i =>
          rw [turn_line transform hnil hdropping hfind, write_failed transform h]
          exact ih h _

/-- The loop leaves the decoder alone. -/
theorem consume_decoder (fuel : ℕ) (s : Sink) (text : Text) :
    (consumeLoop transform fuel s text).decoder = s.decoder ∧
    (consumeLoop transform fuel s text).ended = s.ended := by
  induction fuel generalizing s text with
  | zero => exact ⟨rfl, rfl⟩
  | succ fuel ih =>
    by_cases hnil : text = []
    · simp [consumeLoop, hnil]
    · cases hdropping : s.droppingOversizedLine with
      | true =>
        cases hfind : text.findIdx? (· == newline) with
        | none => rw [turn_dropped transform hnil hdropping hfind]; exact ⟨rfl, rfl⟩
        | some i =>
          rw [turn_resumed transform hnil hdropping hfind]
          exact ih _ _
      | false =>
        cases hfind : text.findIdx? (· == newline) with
        | none =>
          rw [turn_last transform hnil hdropping hfind]
          split_ifs <;> exact ⟨rfl, rfl⟩
        | some i =>
          rw [turn_line transform hnil hdropping hfind]
          exact ih _ _

/-- The end of the loop, in the line that has not ended. -/
def settle (s : Sink) (line : Text) : Sink :=
  if Long line then { s with log := s.log.write transform omittedOutputLine, droppingOversizedLine := true }
  else { s with pending := line }

theorem consume_lines (fuel : ℕ) {s : Sink} (hdropping : s.droppingOversizedLine = false)
    (hpending : s.pending = []) (text : Text) (hfuel : text.length < fuel) :
    consumeLoop transform fuel s text =
      settle transform { s with log := (cut text).1.foldl (Log.write transform) s.log } (cut text).2 := by
  induction fuel generalizing s text with
  | zero => omega
  | succ fuel ih =>
    by_cases hnil : text = []
    · subst hnil
      have hshort : ¬ Long (cut []).2 := by decide
      rw [settle, if_neg hshort]
      obtain ⟨decoder, pending, dropping, ended, log⟩ := s
      change pending = [] at hpending
      subst hpending
      rfl
    · cases hfind : text.findIdx? (· == newline) with
      | none =>
        rw [turn_last transform hnil hdropping hfind, cut_plain (newline_absent hfind)]
        rfl
      | some i =>
        obtain ⟨before, after, htext, hbefore, htake, hdrop⟩ := newline_split hfind
        have hcut : cut text = ((before ++ [newline]) :: (cut after).1, (cut after).2) := by
          rw [htext, cut_line hbefore]
        have hlength : after.length < fuel := by
          rw [htext, List.length_append, List.length_cons] at hfuel
          omega
        rw [turn_line transform hnil hdropping hfind, htake, hdrop, hcut, List.foldl_cons]
        exact ih (s := { s with log := s.log.write transform (before ++ [newline]) }) hdropping
          hpending after hlength

theorem consume_dropped (fuel : ℕ) {s : Sink} (hdropping : s.droppingOversizedLine = true) {text : Text}
    (h : newline ∉ text) : consumeLoop transform (fuel+1) s text = s := by
  by_cases hnil : text = []
  · simp [consumeLoop, hnil]
  · cases hfind : text.findIdx? (· == newline) with
    | none => exact turn_dropped transform hnil hdropping hfind
    | some i =>
      obtain ⟨before, after, htext, -⟩ := newline_split hfind
      exact absurd (by simp [htext]) h

theorem consume_resumed (fuel : ℕ) {s : Sink} (hdropping : s.droppingOversizedLine = true) {before : Text}
    (h : newline ∉ before) (after : Text) :
    consumeLoop transform (fuel+1) s (before ++ newline :: after) =
      consumeLoop transform fuel { s with droppingOversizedLine := false } after := by
  cases hfind : (before ++ newline :: after).findIdx? (· == newline) with
  | none => exact absurd (by simp) (newline_absent hfind)
  | some i =>
    obtain ⟨before', after', htext, hbefore', -, hdrop⟩ := newline_split hfind
    have hsame := congrArg cut htext
    rw [cut_line h, cut_line hbefore'] at hsame
    have hfirst : before = before' := by simpa using (List.cons.inj (Prod.mk.inj hsame).1).1
    subst hfirst
    have hafter : after = after' := by simpa using htext
    subst hafter
    rw [turn_resumed transform (by simp) hdropping hfind, hdrop]

theorem at_settled {writes : List Text} {s : Sink} (hlog : s.log = logged transform writes)
    (hdropping : s.droppingOversizedLine = false) (hpending : s.pending = []) {line : Text}
    (hline : newline ∉ line) :
    At transform writes line (settle transform s line) := by
  by_cases hlong : Long line
  · have hmarker : marker line = [omittedOutputLine] := if_pos hlong
    rw [settle, if_pos hlong]
    refine ⟨hline, ?_, fun _ => by simp [hlong], fun _ => by simp [hlong, hpending]⟩
    rw [hmarker, logged_append, ← hlog]
    rfl
  · have hmarker : marker line = [] := if_neg hlong
    rw [settle, if_neg hlong]
    refine ⟨hline, ?_, fun _ => by simp [hlong, hdropping], fun _ => by simp [hlong]⟩
    rw [hmarker, List.append_nil]
    exact hlog

/-- Writes are added at the end. -/
theorem marker_prefix {line : Text} (hline : newline ∉ line) {more : Text}
    (hlong : Long line → newline ∉ more) :
    ∃ rest, (cut (line ++ more)).1 ++ marker (cut (line ++ more)).2 = marker line ++ rest := by
  by_cases h : Long line
  · have hplain : newline ∉ line ++ more := by simp [hline, hlong h]
    refine ⟨[], ?_⟩
    rw [cut_plain hplain, marker, if_pos (long_append h more), marker, if_pos h]
    rfl
  · refine ⟨(cut (line ++ more)).1 ++ marker (cut (line ++ more)).2, ?_⟩
    rw [show marker line = [] from if_neg h]
    rfl

theorem at_failed {writes : List Text} {line : Text} {s t : Sink} (h : At transform writes line s)
    (hfailed : s.log.failed = true) (hsame : t.log = s.log) {more : Text}
    (hlong : Long line → newline ∉ more) :
    At transform (writes ++ (cut (line ++ more)).1) (cut (line ++ more)).2 t := by
  obtain ⟨hline, hlog, -, -⟩ := h
  obtain ⟨rest, hrest⟩ := marker_prefix hline hlong
  have habsurd : ∀ P : Prop, t.log.failed = false → P := by
    intro P hfalse
    rw [hsame, hfailed] at hfalse
    cases hfalse
  refine ⟨cut_last _, ?_, habsurd _, habsurd _⟩
  rw [hsame, List.append_assoc, hrest, ← List.append_assoc, logged_append, ← hlog,
    writes_failed transform hfailed]

/-- More text, where the line that is left out does not end in it. -/
theorem at_consume {writes : List Text} {line : Text} {s : Sink} (h : At transform writes line s)
    (more : Text) (hlong : Long line → newline ∉ more) :
    At transform (writes ++ (cut (line ++ more)).1) (cut (line ++ more)).2 (consume transform s more) := by
  cases hfailed : s.log.failed with
  | true =>
    have hsame : (consume transform s more).log = s.log :=
      consume_failed transform _ (s := { s with pending := [] }) hfailed _
    exact at_failed transform h hfailed hsame hlong
  | false =>
    obtain ⟨hline, hlog, hdropping, hpending⟩ := h
    have hdropping := hdropping hfailed
    have hpending := hpending hfailed
    by_cases hl : Long line
    · rw [if_pos hl] at hpending
      have hplain : newline ∉ line ++ more := by simp [hline, hlong hl]
      have hdropped : (Sink.droppingOversizedLine { s with pending := [] }) = true := by simp [hdropping, hl]
      have hstays : consume transform s more = { s with pending := [] } := by
        rw [consume, hpending]
        exact consume_dropped transform _ hdropped (hlong hl)
      have hmore := long_append hl more
      rw [hstays, cut_plain hplain]
      refine ⟨hplain, ?_, fun _ => by simp [hdropping, hl, hmore], fun _ => by simp [hmore]⟩
      simp only [List.append_nil]
      rw [show marker (line ++ more) = marker line by simp [marker, hl, hmore]]
      exact hlog
    · rw [if_neg hl] at hpending
      have hmarker : marker line = [] := if_neg hl
      rw [hmarker, List.append_nil] at hlog
      rw [consume, hpending, consume_lines transform _ (by simp [hdropping, hl]) rfl _ (Nat.lt_succ_self _)]
      apply at_settled
      · rw [logged_append, ← hlog]
      · simp [hdropping, hl]
      · rfl
      · exact cut_last _

/-- A line that is left out ends, and writing goes on behind it. -/
theorem at_resumed {writes : List Text} {line : Text} {s : Sink} (h : At transform writes line s)
    (hfailed : s.log.failed = false) (hlong : Long line) {before : Text}
    (hbefore : newline ∉ before) (after : Text) :
    At transform (writes ++ omittedOutputLine :: (cut after).1) (cut after).2
      (consume transform s (before ++ newline :: after)) := by
  obtain ⟨hline, hlog, hdropping, hpending⟩ := h
  have hdropped : (Sink.droppingOversizedLine { s with pending := [] }) = true := by
    simp [hdropping hfailed, hlong]
  have hempty : s.pending = [] := by simp [hpending hfailed, hlong]
  have hmarker : marker line = [omittedOutputLine] := if_pos hlong
  rw [hmarker] at hlog
  rw [consume, hempty, List.nil_append, consume_resumed transform _ hdropped hbefore,
    consume_lines transform _ rfl rfl _ (by simp; omega)]
  apply at_settled
  · rw [hlog, ← logged_append, List.append_assoc]
    rfl
  · rfl
  · rfl
  · exact cut_last _

/-- The line that is written at the end. -/
def ending (line : Text) : Text := if Long line then omittedOutputLine else line

theorem at_end {writes : List Text} {line : Text} {s : Sink} (h : At transform writes line s) :
    (if s.droppingOversizedLine then s.log else s.log.write transform s.pending) =
      logged transform (writes ++ [ending line]) := by
  obtain ⟨-, hlog, hdropping, hpending⟩ := h
  have hlast : logged transform (writes ++ [ending line]) =
      (logged transform writes).write transform (ending line) :=
    logged_append transform writes [ending line]
  by_cases hlong : Long line
  · have hmarker : marker line = [ending line] := by simp [marker, ending, hlong]
    rw [hmarker] at hlog
    rw [← hlog]
    cases hfailed : s.log.failed with
    | true => rw [write_failed transform hfailed, ite_self]
    | false => simp [hdropping hfailed, hlong]
  · have hmarker : marker line = [] := if_neg hlong
    have hending : ending line = line := if_neg hlong
    rw [hmarker, List.append_nil] at hlog
    rw [hlast, ← hlog, hending]
    cases hfailed : s.log.failed with
    | true => rw [write_failed transform hfailed, write_failed transform hfailed, ite_self]
    | false => simp [hdropping hfailed, hpending hfailed, hlong]

end Steps

section Runs

variable (transform : Transform)

/-- The text that the decoder has put out. -/
def visible (bytes : List ℕ) : Text := (run start bytes).1.map Piece.char

/-- What is still to be decoded at the end. -/
def remaining (bytes : List ℕ) : Text := (finish (run start bytes).2).map Piece.char

theorem visible_append (bytes more : List ℕ) :
    visible (bytes ++ more) = visible bytes ++ (run (run start bytes).2 more).1.map Piece.char := by
  rw [visible, run_append, List.map_append]
  rfl

theorem decode_visible (bytes : List ℕ) : decode bytes = visible bytes ++ remaining bytes := List.map_append

theorem remaining_plain (bytes : List ℕ) : newline ∉ remaining bytes := by
  intro hmem
  have hchar := finish_char hmem
  revert hchar
  decide

/-- A newline comes after more characters of its line than are kept. -/
def Late (bytes : List ℕ) : Prop :=
  ∃ before after, bytes = before ++ after ∧ Long (cut (visible before)).2 ∧ newline ∈ after

/-- A sink that has taken these bytes. -/
structure Taken (bytes : List ℕ) (s : Sink) : Prop where
  place : At transform (cut (visible bytes)).1 (cut (visible bytes)).2 s
  ended : s.ended = false
  decoder : s.log.failed = false → s.decoder = (run start bytes).2

theorem taken_opened : Taken transform [] opened := by
  refine ⟨⟨by simp [visible, run, cut], rfl, fun _ => by decide, fun _ => by decide⟩, rfl, fun _ => rfl⟩

theorem taken_write {bytes : List ℕ} {s : Sink} (h : Taken transform bytes s) (chunk : List ℕ)
    (hlong : Long (cut (visible bytes)).2 → newline ∉ chunk) :
    Taken transform (bytes ++ chunk) (write transform s chunk) := by
  obtain ⟨hat, hended, hdecoder⟩ := h
  have hbegun := (begun_run .nothing bytes).1
  have hnewline : Long (cut (visible bytes)).2 → newline ∉ (run (run start bytes).2 chunk).1.map Piece.char :=
    fun hl => mt (mem_run_ascii hbegun chunk (by decide)).mp (hlong hl)
  have hcut : cut (visible (bytes ++ chunk)) = ((cut (visible bytes)).1 ++
      (cut ((cut (visible bytes)).2 ++ (run (run start bytes).2 chunk).1.map Piece.char)).1,
      (cut ((cut (visible bytes)).2 ++ (run (run start bytes).2 chunk).1.map Piece.char)).2) := by
    rw [visible_append, cut_append]
  cases hfailed : s.log.failed with
  | true =>
    have hstays : write transform s chunk = s := by simp [write, hfailed]
    rw [hstays]
    refine ⟨?_, hended, ?_⟩
    · rw [hcut]
      exact at_failed transform hat hfailed rfl hnewline
    · rw [hfailed]
      intro hfalse
      cases hfalse
  | false =>
    have hrun : write transform s chunk =
      consume transform { s with decoder := (run (run start bytes).2 chunk).2 }
        ((run (run start bytes).2 chunk).1.map Piece.char) := by
      simp [write, hended, hfailed, hdecoder hfailed]
    have hat' : At transform (cut (visible bytes)).1 (cut (visible bytes)).2
        { s with decoder := (run (run start bytes).2 chunk).2 } :=
          ⟨hat.inside, hat.log, hat.dropping, hat.pending⟩
    rw [hrun]
    refine ⟨?_, ?_, ?_⟩
    · rw [hcut]
      exact at_consume transform hat' _ hnewline
    · exact (consume_decoder transform _ _ _).2.trans hended
    · intro _
      rw [run_append]
      exact (consume_decoder transform _ _ _).1

theorem taken_run {bytes : List ℕ} {s : Sink} (h : Taken transform bytes s) (chunks : List (List ℕ))
    (hlate : ¬ Late (bytes ++ chunks.flatten)) :
    Taken transform (bytes ++ chunks.flatten) (chunks.foldl (write transform) s) := by
  induction chunks generalizing bytes s with
  | nil => simpa using h
  | cons chunk chunks ih =>
    have hlong : Long (cut (visible bytes)).2 → newline ∉ chunk := by
      intro hl hmem
      exact hlate ⟨bytes, chunk ++ chunks.flatten, by simp, hl, List.mem_append_left _ hmem⟩
    have hsplit : bytes ++ (chunk :: chunks).flatten = (bytes ++ chunk) ++ chunks.flatten := by simp
    rw [hsplit] at hlate ⊢
    exact ih (taken_write transform h chunk hlong) hlate

/-- The texts that are written for these bytes. -/
def finalWrites (bytes : List ℕ) : List Text := (cut (decode bytes)).1 ++ [ending (cut (decode bytes)).2]

theorem close_at {writes : List Text} {line : Text} {bytes : List ℕ} {s : Sink}
    (h : At transform writes line s) (hended : s.ended = false)
    (hdecoder : s.log.failed = false → s.decoder = (run start bytes).2) :
    (close transform s).log = logged transform (writes ++ (cut (line ++ remaining bytes)).1 ++
      [ending (cut (line ++ remaining bytes)).2]) := by
  have hplain : Long line → newline ∉ remaining bytes := fun _ => remaining_plain bytes
  have hlast : At transform (writes ++ (cut (line ++ remaining bytes)).1) (cut (line ++ remaining bytes)).2
      (consume transform { s with ended := true, decoder := start } ((finish s.decoder).map Piece.char)) := by
    cases hfailed : s.log.failed with
    | true =>
      have hsame : (consume transform { s with ended := true, decoder := start }
          ((finish s.decoder).map Piece.char)).log = s.log :=
        consume_failed transform _ (s := { s with ended := true, decoder := start, pending := [] }) hfailed _
      exact at_failed transform h hfailed hsame hplain
    | false =>
      have hopen : At transform writes line { s with ended := true, decoder := start } :=
        ⟨h.inside, h.log, h.dropping, h.pending⟩
      rw [hdecoder hfailed]
      exact at_consume transform hopen _ hplain
  rw [← at_end transform hlast]
  simp [close, hended]

theorem taken_close {bytes : List ℕ} {s : Sink} (h : Taken transform bytes s) :
    (close transform s).log = logged transform (finalWrites bytes) := by
  obtain ⟨hat, hended, hdecoder⟩ := h
  rw [close_at transform hat hended hdecoder, finalWrites, decode_visible,
    cut_append (visible bytes) (remaining bytes)]

/-- Where no newline comes late, the file is told by the bytes. -/
theorem persisted_bytes {bytes : List ℕ} (hlate : ¬ Late bytes) {chunks : List (List ℕ)}
    (h : chunks.flatten = bytes) :
    persisted transform chunks = (logged transform (finalWrites bytes)).file := by
  have hrun := taken_run transform (taken_opened transform) chunks (by simpa [h] using hlate)
  rw [List.nil_append, h] at hrun
  rw [persisted, taken_close transform hrun]

end Runs

section Dependence

theorem logged_plain (writes : List Text) : logged none writes = ⟨writes.flatten, false⟩ := by
  have hrun : ∀ file, writes.foldl (Log.write none) ⟨file, false⟩ = ⟨file ++ writes.flatten, false⟩ := by
    induction writes with
    | nil => simp
    | cons value writes ih =>
      intro file
      have hwrite : Log.write none ⟨file, false⟩ value = ⟨file ++ value, false⟩ := by
        by_cases hnil : value = []
        · simp [Log.write, hnil]
        · simp [Log.write, hnil]
      rw [List.foldl_cons, hwrite, ih, List.flatten_cons, List.append_assoc]
  exact hrun []

theorem persisted_whole (bytes : List ℕ) : persisted none [bytes] = (finalWrites bytes).flatten := by
  have hshort : ¬ Long (cut (visible [])).2 := by decide
  have htaken := taken_write none (taken_opened none) bytes fun hl => absurd hl hshort
  rw [List.nil_append] at htaken
  rw [persisted, List.foldl_cons, List.foldl_nil, taken_close none htaken, logged_plain]

theorem length_le (text : Text) : length text ≤ 2 * text.length := by
  induction text with
  | nil => exact Nat.le_refl _
  | cons c text ih =>
    have hcons : length (c :: text) = (if c < 0x10000 then 1 else 2) + length text := rfl
    rw [hcons, List.length_cons]
    split_ifs <;> omega

theorem omitted_short : omittedOutputLine.length = 54 := by decide +kernel

/-- After two chunks, where the newline comes late in the second one. -/
theorem resumed_two {before after : List ℕ} (hlong : Long (cut (visible before)).2) {x y : Text}
    (hsplit : (run (run start before).2 after).1.map Piece.char = x ++ newline :: y) (hx : newline ∉ x) :
    At none ((cut (visible before)).1 ++ omittedOutputLine :: (cut y).1) (cut y).2
        (write none (write none opened before) after) ∧
      (write none (write none opened before) after).ended = false ∧
      (write none (write none opened before) after).decoder = (run start (before ++ after)).2 := by
  have hshort : ¬ Long (cut (visible [])).2 := by decide
  have htaken := taken_write none (taken_opened none) before fun hl => absurd hl hshort
  rw [List.nil_append] at htaken
  obtain ⟨hat, hended, hdecoder⟩ := htaken
  generalize write none opened before = s at hat hended hdecoder
  have hfailed : s.log.failed = false := by rw [hat.log, logged_plain]
  have hrun : write none s after = consume none { s with decoder := (run (run start before).2 after).2 }
      (x ++ newline :: y) := by
    rw [← hsplit]
    simp [write, hended, hfailed, hdecoder hfailed]
  have hat' : At none (cut (visible before)).1 (cut (visible before)).2
      { s with decoder := (run (run start before).2 after).2 } :=
        ⟨hat.inside, hat.log, hat.dropping, hat.pending⟩
  rw [hrun, run_append]
  exact ⟨at_resumed none hat' hfailed hlong hx y, (consume_decoder none _ _ _).2.trans hended,
    (consume_decoder none _ _ _).1⟩

/-- The file of these two chunks is without a line that the file of one chunk has. -/
theorem persisted_two {before after : List ℕ} (hlong : Long (cut (visible before)).2)
    (hnewline : newline ∈ after) :
    ∃ (left : List Text) (line : Text) (right : List Text),
      finalWrites (before ++ after) = left ++ line :: right ∧ omittedOutputLine.length < line.length ∧
        persisted none [before, after] = (left ++ omittedOutputLine :: right).flatten := by
  have hmem := (mem_run_ascii (begun_run .nothing before).1 after (by decide)).mpr hnewline
  obtain ⟨x, y, hsplit, hx⟩ := List.eq_append_cons_of_mem hmem
  obtain ⟨hat, hended, hdecoder⟩ := resumed_two hlong hsplit hx
  have hclose := close_at none hat hended fun _ => hdecoder
  have hdecode : decode (before ++ after) = visible before ++
      (x ++ newline :: (y ++ remaining (before ++ after))) := by
    rw [decode_visible, visible_append, hsplit]
    simp
  have hplain : newline ∉ (cut (visible before)).2 ++ x := by simp [cut_last, hx]
  have hcut : cut (decode (before ++ after)) =
      ((cut (visible before)).1 ++ ((cut (visible before)).2 ++ x ++ [newline]) :: ((cut y).1 ++
        (cut ((cut y).2 ++ remaining (before ++ after))).1),
            (cut ((cut y).2 ++ remaining (before ++ after))).2) := by
    rw [hdecode, cut_append, ← List.append_assoc, cut_line hplain, cut_append]
  refine ⟨(cut (visible before)).1, (cut (visible before)).2 ++ x ++ [newline], (cut y).1 ++
    (cut ((cut y).2 ++ remaining (before ++ after))).1 ++
      [ending (cut ((cut y).2 ++ remaining (before ++ after))).2], ?_, ?_, ?_⟩
  · rw [finalWrites, hcut]
    simp
  · have htwice := length_le (cut (visible before)).2
    have hmany : maxRedactionLineChars < length (cut (visible before)).2 := hlong
    unfold maxRedactionLineChars at hmany
    rw [omitted_short]
    simp only [List.length_append, List.length_singleton]
    omega
  · rw [persisted, List.foldl_cons, List.foldl_cons, List.foldl_nil, hclose, logged_plain]
    simp

theorem persisted_differs {before after : List ℕ} (hlong : Long (cut (visible before)).2)
    (hnewline : newline ∈ after) :
    persisted none [before ++ after] ≠ persisted none [before, after] := by
  obtain ⟨left, line, right, hwrites, hlonger, htwo⟩ := persisted_two hlong hnewline
  intro hsame
  rw [persisted_whole, hwrites, htwo] at hsame
  have hlength := congrArg List.length hsame
  simp only [List.flatten_append, List.flatten_cons, List.length_append] at hlength
  omega

/-- The file is the same for all chunks exactly where no newline comes late. -/
theorem chunking_iff (bytes : List ℕ) :
    (∀ (transform : Transform) (cs ds : List (List ℕ)), cs.flatten = bytes → ds.flatten = bytes →
      persisted transform cs = persisted transform ds) ↔ ¬ Late bytes := by
  constructor
  · rintro hsame ⟨before, after, rfl, hlong, hnewline⟩
    exact persisted_differs hlong hnewline (hsame none [before ++ after] [before, after] (by simp) (by simp))
  · intro hlate transform cs ds hcs hds
    rw [persisted_bytes transform hlate hcs, persisted_bytes transform hlate hds]

/-- A line of 64001 characters is left out where its newline comes in a chunk of its own. -/
theorem long_line_depends :
    persisted none [List.replicate 64001 0x61 ++ [newline]] ≠
      persisted none [List.replicate 64001 0x61, [newline]] := by
  have htext : ∀ c ∈ List.replicate 64001 0x61, IsScalar c := by
    intro c hc
    rw [List.eq_of_mem_replicate hc]
    exact .inl (by decide)
  have hbytes : encodeText (List.replicate 64001 0x61) = List.replicate 64001 0x61 := by
    have hone : ∀ n, encodeText (List.replicate n 0x61) = List.replicate n 0x61 := by
      intro n
      induction n with
      | zero => rfl
      | succ n ih =>
        show Units.scalarBytes 0x61 ++ encodeText (List.replicate n 0x61) = _
        rw [ih]
        rfl
    exact hone 64001
  have hvisible : visible (List.replicate 64001 0x61) = List.replicate 64001 0x61 := by
    have hrun := run_text htext
    rw [hbytes] at hrun
    rw [visible, hrun, List.map_map]
    exact List.map_id _
  apply persisted_differs
  · have hplain : newline ∉ List.replicate 64001 0x61 := by
      intro hmem
      exact absurd (List.eq_of_mem_replicate hmem) (by decide)
    rw [hvisible, cut_plain hplain]
    show maxRedactionLineChars < length (List.replicate 64001 0x61)
    have hlength : length (List.replicate 64001 0x61) = 64001 := by
      rw [length, List.map_replicate, List.sum_replicate]
      rfl
    rw [hlength]
    decide
  · exact List.mem_singleton_self _

end Dependence

end AccessStack.Shell.FileSink
