import Mathlib

/-!
# The status that git prints

`parsePorcelainStatus` cuts the output at its NULs; a renamed entry takes the
next field as the path it came from. Every backslash of a path is read as a
separator. `relativizeGitEntry` keeps the entries whose paths, both of them,
lie under the root. The two status characters and the blank after them are
one unit each.
-/

set_option autoImplicit false

namespace AccessStack.GitStatus

section Code

structure ParsedGitStatus where
  path : List Char
  indexStatus : Char
  workTreeStatus : Char
  originalPath : Option (List Char)
  untracked : Bool
  deriving DecidableEq

/-- `replaceAll("\\", "/")` -/
def slashes (path : List Char) : List Char := path.map fun c => if c = '\\' then '/' else c

def isRenamed (indexStatus workTreeStatus : Char) : Bool :=
  [indexStatus, workTreeStatus].any fun status => status = 'R' || status = 'C'

/-- The entry of a field that is not empty, and of the fields after it. -/
def fieldEntry (field : List Char) (rest : List (List Char)) : ParsedGitStatus :=
  let indexStatus := (field[0]?).getD ' '
  let workTreeStatus := (field[1]?).getD ' '
  { path := slashes (field.drop 3)
    indexStatus
    workTreeStatus
    originalPath := if isRenamed indexStatus workTreeStatus then rest.head?.map slashes else none
    untracked := indexStatus = '?' && workTreeStatus = '?' }

/-- The loop over the fields. -/
def entries : List (List Char) → List ParsedGitStatus
  | [] => []
  | field::rest =>
    if field.isEmpty then entries rest
    else
      let entry := fieldEntry field rest
      entry :: entries (if isRenamed entry.indexStatus entry.workTreeStatus then rest.tail else rest)
  termination_by fields => fields.length
  decreasing_by
    · exact Nat.lt_succ_self _
    · split
      · rw [List.length_tail, List.length_cons]
        omega
      · exact Nat.lt_succ_self _

def parsePorcelainStatus (output : List Char) : List ParsedGitStatus :=
  if output.isEmpty then [] else entries (output.splitOn '\x00')

def toRootRelativePath (rootPrefix candidate : List Char) : Option (List Char) :=
  let normalized := slashes candidate
  if rootPrefix = ['.'] then some normalized
  else if !(rootPrefix ++ ['/']).isPrefixOf normalized then none
  else some (normalized.drop (rootPrefix.length + 1))

/-- The status, and the path in the repository. -/
def relativizeGitEntry (entry : ParsedGitStatus) (rootPrefix : List Char) :
    Option (ParsedGitStatus × List Char) :=
  match toRootRelativePath rootPrefix entry.path with
  | none => none
  | some relativePath =>
    match entry.originalPath with
    | none => some ({ entry with path := relativePath, originalPath := none }, entry.path)
    | some originalPath =>
      match toRootRelativePath rootPrefix originalPath with
      | none => none
      | some relativeOriginalPath =>
        some ({ entry with path := relativePath, originalPath := some relativeOriginalPath }, entry.path)

end Code

section Records

/-- A record as git means it. -/
structure GitRecord where
  indexStatus : Char
  workTreeStatus : Char
  path : List Char
  originalPath : Option (List Char)
  deriving DecidableEq

def statusLetters : List Char := [' ', 'M', 'T', 'A', 'D', 'R', 'C', 'U', '?', '!']

def isPath (path : List Char) : Prop := path ≠ [] ∧ '\x00' ∉ path

structure GitRecord.Valid (r : GitRecord) : Prop where
  indexStatus : r.indexStatus ∈ statusLetters
  workTreeStatus : r.workTreeStatus ∈ statusLetters
  path : isPath r.path
  original : r.originalPath.isSome = isRenamed r.indexStatus r.workTreeStatus
  originalPath : ∀ path ∈ r.originalPath, isPath path

def GitRecord.encode (r : GitRecord) : List Char :=
  r.indexStatus :: r.workTreeStatus :: ' ' :: r.path ++ '\x00' ::
    match r.originalPath with
    | none => []
    | some originalPath => originalPath ++ ['\x00']

def encode (records : List GitRecord) : List Char := records.flatMap GitRecord.encode

/-- The entry of a record: its backslashes are separators. -/
def GitRecord.entry (r : GitRecord) : ParsedGitStatus where
  path := slashes r.path
  indexStatus := r.indexStatus
  workTreeStatus := r.workTreeStatus
  originalPath := r.originalPath.map slashes
  untracked := r.indexStatus = '?' && r.workTreeStatus = '?'

variable {r : GitRecord} {records : List GitRecord}

theorem letter_ne_nul {c : Char} (h : c ∈ statusLetters) : c ≠ '\x00' := by
  rintro rfl
  exact absurd h (by decide)

def GitRecord.field (r : GitRecord) : List Char := r.indexStatus :: r.workTreeStatus :: ' ' :: r.path

theorem field_nul (h : r.Valid) : '\x00' ∉ r.field := by
  unfold GitRecord.field
  simp only [List.mem_cons, not_or]
  exact ⟨(letter_ne_nul h.indexStatus).symm, (letter_ne_nul h.workTreeStatus).symm, by decide, h.path.2⟩

/-- The fields of a record, and what comes after them. -/
theorem split_record (h : r.Valid) (rest : List Char) :
    (r.encode ++ rest).splitOn '\x00' = r.field :: (r.originalPath.toList ++ rest.splitOn '\x00') := by
  have hfield : ∀ tail : List Char, (r.field ++ '\x00' :: tail).splitOn '\x00' =
      r.field :: tail.splitOn '\x00' :=
    List.splitOn_append_cons_self_of_not_mem (field_nul h)
  cases horiginal : r.originalPath with
  | none =>
    have hencode : r.encode ++ rest = r.field ++ '\x00' :: rest := by
      simp [GitRecord.encode, GitRecord.field, horiginal]
    rw [hencode, hfield]
    rfl
  | some originalPath =>
    have hnul : '\x00' ∉ originalPath := (h.originalPath originalPath horiginal).2
    have hencode : r.encode ++ rest = r.field ++ '\x00' :: (originalPath ++ '\x00' :: rest) := by
      simp [GitRecord.encode, GitRecord.field, horiginal]
    rw [hencode, hfield, List.splitOn_append_cons_self_of_not_mem hnul]
    rfl

theorem entry_renamed (h : r.Valid) (rest : List (List Char)) :
    (if isRenamed r.indexStatus r.workTreeStatus then (r.originalPath.toList ++ rest).head?.map
      slashes else none) =
        r.originalPath.map slashes ∧
      (if isRenamed r.indexStatus r.workTreeStatus then (r.originalPath.toList ++ rest).tail
        else r.originalPath.toList ++ rest) = rest := by
  have horiginal := h.original
  cases hpath : r.originalPath with
  | none =>
    rw [hpath] at horiginal
    rw [← horiginal]
    exact ⟨rfl, rfl⟩
  | some originalPath =>
    rw [hpath] at horiginal
    rw [← horiginal]
    exact ⟨rfl, rfl⟩

theorem fieldEntry_record (h : r.Valid) (rest : List (List Char)) :
    fieldEntry r.field (r.originalPath.toList ++ rest) = r.entry := by
  show ParsedGitStatus.mk _ _ _ _ _ = ParsedGitStatus.mk _ _ _ _ _
  congr 1
  exact (entry_renamed h rest).1

attribute [local simp] entries in
theorem entries_record (h : r.Valid) (rest : List (List Char)) :
    entries (r.field :: (r.originalPath.toList ++ rest)) = r.entry :: entries rest := by
  rw [entries, if_neg (by simp [GitRecord.field])]
  dsimp only
  rw [fieldEntry_record h]
  congr 2
  exact (entry_renamed h rest).2

theorem entries_records (h : ∀ r ∈ records, r.Valid) :
    entries ((encode records).splitOn '\x00') = records.map GitRecord.entry := by
  induction records with
  | nil =>
    have hnone : (encode []).splitOn '\x00' = [[]] := rfl
    rw [hnone, entries, entries]
    rfl
  | cons r records ih =>
    obtain ⟨hr, hrest⟩ := List.forall_mem_cons.mp h
    have hsplit : (encode (r::records)).splitOn '\x00' = _ := split_record hr (encode records)
    rw [hsplit, entries_record hr, ih hrest]
    rfl

theorem parse_records (h : ∀ r ∈ records, r.Valid) :
    parsePorcelainStatus (encode records) = records.map GitRecord.entry := by
  unfold parsePorcelainStatus
  split_ifs with hempty
  · cases records with
    | nil => rfl
    | cons r records => exact absurd hempty (by simp [encode, GitRecord.encode])
  · exact entries_records h

end Records

section Root

variable {rootPrefix candidate path relative : List Char}

/-- The path lies under the root, and what is left of it there. -/
def Under (rootPrefix path relative : List Char) : Prop :=
  rootPrefix = ['.'] ∧ path = relative ∨ rootPrefix ≠ ['.'] ∧ path = rootPrefix ++ '/' :: relative

theorem slashes_slashes (path : List Char) : slashes (slashes path) = slashes path := by
  unfold slashes
  rw [List.map_map]
  apply List.map_congr_left
  intro c _
  dsimp only [Function.comp_apply]
  split_ifs <;> rfl

theorem slashes_plain (h : '\\' ∉ path) : slashes path = path := by
  have hsame : ∀ c ∈ path, (if c = '\\' then '/' else c) = id c := by
    rintro c hc
    rw [if_neg fun heq : c = '\\' => h (heq ▸ hc), id]
  unfold slashes
  rw [List.map_congr_left hsame, List.map_id]

theorem toRootRelativePath_iff :
    toRootRelativePath rootPrefix candidate = some relative ↔
    Under rootPrefix (slashes candidate) relative := by
  unfold toRootRelativePath Under
  dsimp only
  split_ifs with hroot hprefix
  · simp [hroot]
  · simp only [hroot, false_and, ne_eq, not_false_eq_true, true_and, false_or]
    refine ⟨nofun, fun hpath => ?_⟩
    rw [Bool.not_eq_true', hpath] at hprefix
    have hyes : (rootPrefix ++ ['/']).isPrefixOf (rootPrefix ++ '/' :: relative) = true := by
      rw [List.isPrefixOf_iff_prefix]
      exact ⟨relative, by simp⟩
    rw [hyes] at hprefix
    exact absurd hprefix nofun
  · simp only [hroot, false_and, ne_eq, not_false_eq_true, true_and, false_or]
    rw [Bool.not_eq_true', Bool.not_eq_false, List.isPrefixOf_iff_prefix] at hprefix
    obtain ⟨rest, hrest⟩ := hprefix
    have hlength : rootPrefix.length + 1 = (rootPrefix ++ ['/']).length := by
      rw [List.length_append, List.length_singleton]
    rw [← hrest, hlength, List.drop_left, Option.some_inj, List.append_assoc, List.append_cancel_left_eq]
    exact ⟨fun heq => congrArg ('/' :: ·) heq, fun heq => (List.cons.inj heq).2⟩

/-- An entry is kept if both its paths lie under the root. -/
theorem relativize_iff (entry : ParsedGitStatus) (rootPrefix : List Char)
    (result : ParsedGitStatus × List Char) :
    relativizeGitEntry entry rootPrefix = some result ↔
      ∃ path originalPath, Under rootPrefix (slashes entry.path) path ∧
        Option.Rel (fun original relative => Under rootPrefix (slashes original) relative) entry.originalPath
          originalPath ∧
        result = ({ entry with path, originalPath }, entry.path) := by
  unfold relativizeGitEntry
  cases hpath : toRootRelativePath rootPrefix entry.path with
  | none =>
    refine ⟨nofun, ?_⟩
    rintro ⟨path, originalPath, hunder, -, -⟩
    rw [toRootRelativePath_iff.mpr hunder] at hpath
    exact absurd hpath nofun
  | some relativePath =>
    have hunder : ∀ path, Under rootPrefix (slashes entry.path) path ↔ path = relativePath := by
      intro path
      rw [← toRootRelativePath_iff, hpath, Option.some_inj]
      exact eq_comm
    simp only [hunder]
    cases horiginal : entry.originalPath with
    | none =>
      refine ⟨fun h => ⟨relativePath, none, rfl, .none, (Option.some.inj h).symm⟩, ?_⟩
      rintro ⟨path, originalPath, rfl, hrel, rfl⟩
      cases hrel
      rfl
    | some original =>
      dsimp only
      cases hrelative : toRootRelativePath rootPrefix original with
      | none =>
        refine ⟨nofun, ?_⟩
        rintro ⟨path, originalPath, -, hrel, -⟩
        cases hrel with
        | some hrel =>
          rw [toRootRelativePath_iff.mpr hrel] at hrelative
          exact absurd hrelative nofun
      | some relativeOriginal =>
        have hrel : Under rootPrefix (slashes original) relativeOriginal :=
          toRootRelativePath_iff.mp hrelative
        refine ⟨fun h => ⟨relativePath, some relativeOriginal, rfl, .some hrel, (Option.some.inj h).symm⟩, ?_⟩
        rintro ⟨path, originalPath, rfl, hrel', rfl⟩
        cases hrel' with
        | some hrel' =>
          rw [toRootRelativePath_iff.mpr hrel', Option.some_inj] at hrelative
          rw [hrelative]

/-- What is reported of the records that git prints. -/
theorem status_reported (records : List GitRecord) (h : ∀ r ∈ records, r.Valid) :
    parsePorcelainStatus (encode records) = records.map GitRecord.entry ∧
    (∀ r ∈ records, '\\' ∉ r.path → (∀ path ∈ r.originalPath, '\\' ∉ path) →
      r.entry.path = r.path ∧ r.entry.originalPath = r.originalPath) ∧
    ∀ rootPrefix, ∀ r ∈ records, ∀ result,
      relativizeGitEntry r.entry rootPrefix = some result ↔
        ∃ path originalPath, Under rootPrefix (slashes r.path) path ∧
          Option.Rel (fun original relative => Under rootPrefix (slashes original) relative)
            r.originalPath originalPath ∧
          result = ({ r.entry with path, originalPath }, slashes r.path) := by
  refine ⟨parse_records h, fun r hr hpath horiginal => ⟨slashes_plain hpath, ?_⟩,
    fun rootPrefix r hr result => ?_⟩
  · show r.originalPath.map slashes = r.originalPath
    cases hsome : r.originalPath with
    | none => rfl
    | some path => rw [Option.map_some, slashes_plain (horiginal path hsome)]
  · rw [relativize_iff]
    have hpath : slashes r.entry.path = slashes r.path := slashes_slashes r.path
    have hrel : ∀ originalPath : Option (List Char),
        Option.Rel (fun original relative => Under rootPrefix (slashes original) relative)
          r.entry.originalPath
            originalPath ↔
          Option.Rel (fun original relative => Under rootPrefix (slashes original) relative) r.originalPath
            originalPath := by
      intro originalPath
      show Option.Rel _ (r.originalPath.map slashes) originalPath ↔ _
      cases r.originalPath with
      | none => rfl
      | some original =>
        rw [Option.map_some]
        constructor
        · rintro (hunder | _)
          rw [slashes_slashes] at hunder
          exact .some hunder
        · rintro (hunder | _)
          rw [← slashes_slashes] at hunder
          exact .some hunder
    simp only [hpath, hrel]
    rfl

def modified (path : String) : GitRecord := ⟨' ', 'M', path.toList, none⟩

def renamedInto : GitRecord := ⟨'R', ' ', "in/new".toList, some "out/old".toList⟩

theorem status_reported_sample :
    parsePorcelainStatus (encode [modified "a b", renamedInto]) =
      [(modified "a b").entry, renamedInto.entry] := by
  refine (status_reported [modified "a b", renamedInto] ?_).1
  intro r hr
  simp only [List.mem_cons, List.not_mem_nil, or_false] at hr
  rcases hr with rfl | rfl
  · refine ⟨by decide, by decide, ⟨by decide, by decide⟩, by decide, fun path hpath => absurd hpath nofun⟩
  · refine ⟨by decide, by decide, ⟨by decide, by decide⟩, by decide, fun path hpath => ?_⟩
    cases hpath
    exact ⟨by decide, by decide⟩

/-- Two names become one, and a renamed entry under the root is left out. -/
theorem backslash_and_rename :
    (∀ r ∈ [modified "a\\b", modified "a/b", renamedInto], r.Valid) ∧
    parsePorcelainStatus (encode [modified "a\\b", modified "a/b"]) =
      [(modified "a/b").entry, (modified "a/b").entry] ∧
    (modified "a\\b").path ≠ (modified "a/b").path ∧
    Under "in".toList renamedInto.path "new".toList ∧
    relativizeGitEntry renamedInto.entry "in".toList = none := by
  have hvalid : ∀ r ∈ [modified "a\\b", modified "a/b", renamedInto], r.Valid := by
    intro r hr
    simp only [List.mem_cons, List.not_mem_nil, or_false] at hr
    rcases hr with rfl | rfl | rfl
    · exact ⟨by decide, by decide, ⟨by decide, by decide⟩, by decide, fun path hpath => absurd hpath nofun⟩
    · exact ⟨by decide, by decide, ⟨by decide, by decide⟩, by decide, fun path hpath => absurd hpath nofun⟩
    · refine ⟨by decide, by decide, ⟨by decide, by decide⟩, by decide, fun path hpath => ?_⟩
      cases hpath
      exact ⟨by decide, by decide⟩
  refine ⟨hvalid, ?_, by decide, ?_, by decide⟩
  · rw [parse_records fun r hr => hvalid r (List.mem_append_left [renamedInto] hr)]
    decide
  · exact .inr ⟨by decide, by decide⟩

end Root

end AccessStack.GitStatus
