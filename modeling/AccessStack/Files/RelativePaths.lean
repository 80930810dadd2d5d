import AccessStack.Files.MutableTree

/-!
# Relative paths on both platforms

`normalizeRelativePath` as a function of texts, on a POSIX system and on
Windows, with the parts of `path` that `toNativeAbsolute` and `isContained`
rest on. A resolved path is its device and its names. Windows compares names
without regard to case.
-/

set_option autoImplicit false

namespace AccessStack.Files.Platforms
open AccessStack.FileTree AccessStack.Rows

section Platforms

inductive Platform where
  | posix | win32
  deriving DecidableEq

def isSeparator (platform : Platform) (c : Char) : Bool := c = '/' || (platform = .win32 && c = '\\')

def separator (platform : Platform) : Char :=
  match platform with
  | .posix => '/'
  | .win32 => '\\'

/-- `path.isAbsolute` -/
def isAbsolute (platform : Platform) (path : List Char) : Bool :=
  match platform, path with
  | _, [] => false
  | .posix, c::_ => c = '/'
  | .win32, letter::colon::c::_ =>
    isSeparator .win32 letter || (letter.isAlpha && colon = ':' && isSeparator .win32 c)
  | .win32, c::_ => isSeparator .win32 c

end Platforms

section Normalization

/-- `/[. ]$/` -/
def endsBadly (segment : List Char) : Bool := segment.getLast? = some '.' || segment.getLast? = some ' '

/-- The loop over the segments. -/
def outputSegments (platform : Platform) : List String → Except FileError (List String)
  | [] => .ok []
  | segment::rest =>
    if segment = "" ∨ segment = "." then outputSegments platform rest
    else if segment = ".." then .error (.app "INVALID_PATH" "Path traversal is not allowed.")
    else if platform = .win32 ∧ (':' ∈ segment.toList ∨ endsBadly segment.toList = true) then
      .error (.app "INVALID_PATH" "Path contains an invalid Windows segment.")
    else (outputSegments platform rest).map (segment::·)

def looksAbsolute (platform : Platform) (input : List Char) : Bool :=
  isAbsolute platform input || isAbsolute .win32 input || isAbsolute .posix input ||
    ['\\', '\\'].isPrefixOf input || isDrive input

def normalizeRelativePath (platform : Platform) (input : String)
    (allowDot : Bool) : Except FileError String :=
  if input = "" ∨ '\x00' ∈ input.toList then
    .error (.app "INVALID_PATH" "Path must be a non-empty relative path.")
  else if looksAbsolute platform input.toList then
    .error (.app "INVALID_PATH" "Absolute paths are not allowed.")
  else if ['/', '/'].isPrefixOf (input.toList.map portableChar) then
    .error (.app "INVALID_PATH" "UNC paths are not allowed.")
  else
    match outputSegments platform (splitSegments input) with
    | .error e => .error e
    | .ok [] =>
      if allowDot then .ok "." else .error (.app "INVALID_PATH" "Path must identify a file or directory.")
    | .ok (segment::rest) => .ok (portable (segment::rest))

end Normalization

section Resolution

inductive Device where
  | drive (letter : Char)
  | share (server name : List Char)
  deriving DecidableEq

/-- A path argument: the device and the names in it, and whether it begins at a root. -/
structure Parsed where
  device : Option Device
  absolute : Bool
  names : List String

def splitNames (platform : Platform) (text : List Char) : List String :=
  (text.splitOnP (isSeparator platform)).map String.ofList

/-- The names of a share, `\\server\name`, and what is behind them. -/
def readShare (text : List Char) : Option (Device × List Char) :=
  let server := text.takeWhile fun c => !isSeparator .win32 c
  let behind := (text.dropWhile fun c => !isSeparator .win32 c).dropWhile (isSeparator .win32)
  let name := behind.takeWhile fun c => !isSeparator .win32 c
  if server = [] ∨ name = [] then none else some (.share server name, behind.drop name.length)

def parsePath (platform : Platform) (path : List Char) : Parsed :=
  match platform, path with
  | .posix, path => ⟨none, isAbsolute .posix path, splitNames .posix path⟩
  | .win32, c::d::rest =>
    if isSeparator .win32 c && isSeparator .win32 d then
      match readShare rest with
      | some (device, behind) => ⟨some device, true, splitNames .win32 behind⟩
      | none => ⟨none, true, splitNames .win32 rest⟩
    else if c.isAlpha && d = ':' then
      ⟨some (.drive c), (rest.head?).any (isSeparator .win32), splitNames .win32 rest⟩
    else ⟨none, isSeparator .win32 c, splitNames .win32 (c::d::rest)⟩
  | .win32, path => ⟨none, isAbsolute .win32 path, splitNames .win32 path⟩

/-- What `path.resolve` keeps while it reads its arguments from the last one on. -/
structure Partial where
  device : Option Device
  absolute : Bool
  names : List String

variable (platform : Platform) (fold : List Char → List Char)

def foldDevice : Device → List (List Char)
  | .drive letter => [fold [letter, ':']]
  | .share server name => [[], [], fold server, fold name]

def settled (p : Partial) : Bool := p.absolute && (platform = .posix || p.device.isSome)

def prepend (p : Partial) (path : Parsed) : Partial :=
  if settled platform p then p
  else if ∃ d ∈ path.device, ∃ e ∈ p.device, foldDevice fold d ≠ foldDevice fold e then p
  else if p.absolute then { p with device := p.device.or path.device }
  else ⟨p.device.or path.device, path.absolute, path.names ++ p.names⟩

/-- A resolved path. -/
structure Place where
  device : Option Device
  names : List String

/-- `path.resolve`; the directory of the process for a device comes last. -/
def resolve (cwd : Option Device → List Char) (paths : List (List Char)) : Place :=
  let read := paths.reverse.foldl (fun p path => prepend platform fold p (parsePath platform path))
    ⟨none, false, []⟩
  let all := prepend platform fold read (parsePath platform (cwd read.device))
  ⟨all.device, resolveNames all.names⟩

/-- The parts of a resolved path between its separators. -/
def Place.parts (p : Place) : List (List Char) :=
  (match p.device with
    | none => [[]]
    | some (.drive letter) => [[letter, ':']]
    | some (.share server name) => [[], [], server, name]) ++ p.names.map String.toList

def common : List (List Char) → List (List Char) → ℕ
  | s::ss, t::ts => if fold s = fold t then common ss ts + 1 else 0
  | _, _ => 0

def Place.text (p : Place) : List Char :=
  [separator platform].intercalate p.parts ++ (if p.names = [] then [separator platform] else [])

/-- `path.relative` of two resolved paths -/
def relative (source target : Place) : List Char :=
  let shared := common fold source.parts target.parts
  if shared = 0 then target.text platform
  else [separator platform].intercalate
    (List.replicate (source.parts.length - shared) ['.', '.'] ++ target.parts.drop shared)

def isContained (base target : Place) : Bool :=
  let relative := relative platform fold base target
  relative = [] || (!(['.', '.', separator platform].isPrefixOf relative) && relative != ['.', '.'] &&
    !isAbsolute platform relative)

def toNativeAbsolute (cwd : Option Device → List Char) (rootPath relativePath : String) : Place :=
  if relativePath = "." then resolve platform fold cwd [rootPath.toList]
  else resolve platform fold cwd (rootPath.toList :: relativePath.toList.splitOn '/')

end Resolution

section Segments

variable {platform : Platform}

/-- A segment that is kept. -/
structure Kept (platform : Platform) (segment : String) : Prop where
  name : isName segment = true
  windows : platform = .win32 → ':' ∉ segment.toList ∧ endsBadly segment.toList = false

theorem kept_ne {segment : String} (h : Kept platform segment) :
    segment ≠ "" ∧ segment ≠ "." ∧ segment ≠ ".." := by
  have hname := h.name
  simp only [isName, ne_eq, decide_not, Bool.and_eq_true, Bool.not_eq_true', decide_eq_false_iff_not] at hname
  exact ⟨hname.1.1, hname.1.2, hname.2⟩

theorem outputSegments_ok {segments kept : List String} (h : outputSegments platform segments = .ok kept) :
    (∀ segment ∈ kept, Kept platform segment) ∧ kept ⊆ segments ∧
      kept.head? = segments.find? fun segment => segment ≠ "" ∧ segment ≠ "." := by
  induction segments generalizing kept with
  | nil =>
    cases h
    simp
  | cons segment rest ih =>
    rw [outputSegments] at h
    split_ifs at h with hskip hup hwindows
    · obtain ⟨hkept, hsubset, hhead⟩ := ih h
      refine ⟨hkept, List.Subset.trans hsubset (List.subset_cons_self _ _), ?_⟩
      rw [hhead, List.find?_cons_of_neg]
      simp only [decide_eq_true_eq, not_and, ne_eq]
      rcases hskip with hskip | hskip <;> simp [hskip]
    · cases hrest : outputSegments platform rest with
      | error e =>
        rw [hrest] at h
        cases h
      | ok more =>
        rw [hrest] at h
        obtain ⟨hkept, hsubset, -⟩ := ih hrest
        obtain rfl : segment :: more = kept := Except.ok.inj h
        simp only [not_or] at hskip
        refine ⟨?_, List.cons_subset_cons _ hsubset, ?_⟩
        · intro s hs
          rcases List.mem_cons.mp hs with rfl | hs
          · refine ⟨by simp [isName, hskip.1, hskip.2, hup], ?_⟩
            intro hplatform
            simp only [not_and, not_or, Bool.not_eq_true] at hwindows
            exact hwindows hplatform
          · exact hkept s hs
        · rw [List.find?_cons_of_pos (by simp [hskip.1, hskip.2])]
          rfl

theorem outputSegments_kept {segments : List String} (h : ∀ segment ∈ segments, Kept platform segment) :
    outputSegments platform segments = .ok segments := by
  induction segments with
  | nil => rfl
  | cons segment rest ih =>
    have hsegment := h segment List.mem_cons_self
    obtain ⟨hempty, hdot, hup⟩ := kept_ne hsegment
    have hwindows : ¬ (platform = .win32 ∧ (':' ∈ segment.toList ∨ endsBadly segment.toList = true)) := by
      rintro ⟨hplatform, hcolon | hbad⟩
      · exact (hsegment.windows hplatform).1 hcolon
      · rw [(hsegment.windows hplatform).2] at hbad
        cases hbad
    rw [outputSegments, if_neg (by simp [hempty, hdot]), if_neg hup, if_neg hwindows,
      ih fun s hs => h s (List.mem_cons_of_mem _ hs)]
    rfl

theorem portable_toList (segments : List String) :
    (portable segments).toList = ['/'].intercalate (segments.map String.toList) := by
  rw [portable, String.toList_intercalate]
  rfl

theorem portable_split {segments : List String} (hne : segments ≠ [])
    (hslash : ∀ s ∈ segments, '/' ∉ s.toList) :
    ((portable segments).toList.splitOn '/') = segments.map String.toList := by
  rw [portable_toList, List.splitOn_intercalate]
  · intro l hl
    obtain ⟨s, hs, rfl⟩ := List.mem_map.mp hl
    exact hslash s hs
  · simpa using hne

theorem mem_portable {segments : List String} {c : Char} (h : c ∈ (portable segments).toList) :
    c = '/' ∨ ∃ s ∈ segments, c ∈ s.toList := by
  rw [portable_toList] at h
  induction segments with
  | nil => simp at h
  | cons s rest ih =>
    cases rest with
    | nil =>
      right
      exact ⟨s, List.mem_cons_self, by simpa using h⟩
    | cons t rest =>
      rw [List.map_cons, List.map_cons, List.intercalate_cons_cons, List.mem_append, List.mem_append] at h
      rcases h with (h | h) | h
      · exact .inr ⟨s, List.mem_cons_self, h⟩
      · exact .inl (List.mem_singleton.mp h)
      · rcases ih h with hslash | ⟨u, hu, hc⟩
        · exact .inl hslash
        · exact .inr ⟨u, List.mem_cons_of_mem _ hu, hc⟩

theorem portable_segments {segments : List String} (hne : segments ≠ [])
    (hplain : ∀ s ∈ segments, '/' ∉ s.toList ∧ '\\' ∉ s.toList) :
    splitSegments (portable segments) = segments := by
  have hmap : (portable segments).toList.map portableChar = (portable segments).toList := by
    have hsame : ∀ c ∈ (portable segments).toList, portableChar c = id c := by
      intro c hc
      apply if_neg
      rintro rfl
      rcases mem_portable hc with hslash | ⟨s, hs, hback⟩
      · cases hslash
      · exact (hplain s hs).2 hback
    rw [List.map_congr_left hsame, List.map_id]
  rw [splitSegments_eq, hmap]
  have hsplit := portable_split hne fun s hs => (hplain s hs).1
  rw [List.splitOn] at hsplit
  rw [hsplit, List.map_map]
  exact (List.map_congr_left fun s _ => String.ofList_toList).trans (List.map_id _)

end Segments

end AccessStack.Files.Platforms
