import AccessStack.Utf8

/-!
# The persisted log of a command

`createSafeFileSink` decodes the chunks of a pipe, and writes whole lines after
a transformation. A line that is too long is left out, but only where its end
is not yet to be seen. A text is the list of its characters.
-/

set_option autoImplicit false

namespace AccessStack.Shell.FileSink
open AccessStack.Utf8

abbrev Text : Type := List ℕ

section Sink

def newline : ℕ := 0x0a

def charsOf (s : String) : Text := s.toList.map Char.toNat

/-- The length in UTF-16 units. -/
def length (text : Text) : ℕ := (text.map fun c => if c < 0x10000 then 1 else 2).sum

def maxRedactionLineChars : ℕ := 64000

def omittedOutputLine : Text := charsOf "[output line omitted: exceeded safe redaction buffer]\n"

/-- The file, and whether a write has failed. -/
structure Log where
  file : Text
  failed : Bool
  deriving DecidableEq

/-- The transformation of a line, which gives nothing where it throws. -/
abbrev Transform : Type := Option (Text → Option Text)

def Log.write (transform : Transform) (log : Log) (value : Text) : Log :=
  if log.failed ∨ value = [] then log
  else
    match (match transform with | none => some value | some f => f value) with
    | some written => { log with file := log.file ++ written }
    | none => { log with failed := true }

structure Sink where
  decoder : State
  pending : Text
  droppingOversizedLine : Bool
  ended : Bool
  log : Log
  deriving DecidableEq

def opened : Sink := ⟨start, [], false, false, ⟨[], false⟩⟩

/-- The loop, of which each turn takes a character away or is the last. -/
def consumeLoop (transform : Transform) : ℕ → Sink → Text → Sink
  | 0, s, _ => s
  | fuel+1, s, text =>
    if text = [] then s
    else if s.droppingOversizedLine then
      match text.findIdx? (· == newline) with
      | none => s
      | some newlineIndex =>
        consumeLoop transform fuel { s with droppingOversizedLine := false } (text.drop (newlineIndex + 1))
    else
      match text.findIdx? (· == newline) with
      | some newlineIndex =>
        consumeLoop transform fuel { s with log := s.log.write transform (text.take (newlineIndex + 1)) }
          (text.drop (newlineIndex + 1))
      | none =>
        if length text > maxRedactionLineChars then
          { s with log := s.log.write transform omittedOutputLine, droppingOversizedLine := true }
        else { s with pending := text }

def consume (transform : Transform) (s : Sink) (value : Text) : Sink :=
  consumeLoop transform ((s.pending ++ value).length + 1) { s with pending := [] } (s.pending ++ value)

def write (transform : Transform) (s : Sink) (chunk : List ℕ) : Sink :=
  if s.ended ∨ s.log.failed then s
  else consume transform { s with decoder := (run s.decoder chunk).2 }
    ((run s.decoder chunk).1.map Piece.char)

def close (transform : Transform) (s : Sink) : Sink :=
  if s.ended then s
  else
    let last := consume transform { s with ended := true, decoder := start }
      ((finish s.decoder).map Piece.char)
    let log := if last.droppingOversizedLine then last.log else last.log.write transform last.pending
    { last with log := log, pending := [] }

/-- The file after the chunks and the end. -/
def persisted (transform : Transform) (chunks : List (List ℕ)) : Text :=
  (close transform (chunks.foldl (write transform) opened)).log.file

end Sink

section Lines

/-- The lines that have ended, each with its newline, and the one that has not. -/
def cut : Text → List Text × Text
  | [] => ([], [])
  | c::cs =>
    if c = newline then ([c] :: (cut cs).1, (cut cs).2)
    else
      match (cut cs).1 with
      | [] => ([], c :: (cut cs).2)
      | line::lines => ((c :: line) :: lines, (cut cs).2)

theorem cut_plain {text : Text} (h : newline ∉ text) : cut text = ([], text) := by
  induction text with
  | nil => rfl
  | cons c text ih =>
    have hc : c ≠ newline := fun heq => h (by simp [heq])
    have hrest := ih fun hmem => h (List.mem_cons_of_mem _ hmem)
    rw [cut, if_neg hc, hrest]

theorem cut_line {before : Text} (h : newline ∉ before) (after : Text) :
    cut (before ++ newline :: after) = ((before ++ [newline]) :: (cut after).1, (cut after).2) := by
  induction before with
  | nil => rfl
  | cons c before ih =>
    have hc : c ≠ newline := fun heq => h (by simp [heq])
    have hrest := ih fun hmem => h (List.mem_cons_of_mem _ hmem)
    rw [List.cons_append, cut, if_neg hc, hrest]
    rfl

/-- What comes later is cut together with the line that has not ended. -/
theorem cut_append (text more : Text) :
    cut (text ++ more) =
      ((cut text).1 ++ (cut ((cut text).2 ++ more)).1, (cut ((cut text).2 ++ more)).2) := by
  induction text with
  | nil => rfl
  | cons c text ih =>
    by_cases hc : c = newline
    · rw [List.cons_append, cut, if_pos hc, cut, if_pos hc, ih]
      rfl
    · rw [List.cons_append, cut, if_neg hc, ih, cut, if_neg hc]
      cases hlines : (cut text).1 with
      | nil =>
        rw [List.cons_append, cut, if_neg hc]
        simp
      | cons line lines => simp

theorem cut_last (text : Text) : newline ∉ (cut text).2 := by
  induction text with
  | nil => simp [cut]
  | cons c text ih =>
    rw [cut]
    split_ifs with hc
    · exact ih
    · cases hlines : (cut text).1 with
      | nil =>
        intro hmem
        rcases List.mem_cons.mp hmem with heq | hmem
        · exact hc heq.symm
        · exact ih hmem
      | cons line lines => exact ih

theorem newline_split {text : Text} {i : ℕ} (h : text.findIdx? (· == newline) = some i) :
    ∃ before after, text = before ++ newline :: after ∧ newline ∉ before ∧
    text.take (i+1) = before ++ [newline] ∧
      text.drop (i+1) = after := by
  rw [List.findIdx?_eq_some_iff_getElem] at h
  obtain ⟨hlt, hat, hbefore⟩ := h
  have hget : text[i] = newline := by simpa using hat
  refine ⟨text.take i, text.drop (i+1), ?_, ?_, ?_, rfl⟩
  · rw [← hget, ← List.drop_eq_getElem_cons hlt, List.take_append_drop]
  · intro hmem
    obtain ⟨j, hj, hjget⟩ := List.mem_iff_getElem.mp hmem
    rw [List.length_take] at hj
    have hne := hbefore j (by omega)
    rw [List.getElem_take] at hjget
    simp [hjget] at hne
  · rw [List.take_succ_eq_append_getElem hlt, hget]

theorem newline_absent {text : Text} (h : text.findIdx? (· == newline) = none) : newline ∉ text := by
  rw [List.findIdx?_eq_none_iff] at h
  intro hmem
  have hne := h newline hmem
  simp at hne

end Lines

end AccessStack.Shell.FileSink
