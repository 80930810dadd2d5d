import AccessStack.Files.Authorization

/-!
# Authorization of a whole directory

`authorizeMutableTree` looks at everything below a directory before it is
removed, moved or copied. The directories that are still to be read are on a
stack. The path of an entry is a text again, and its name becomes a part of it.
-/

set_option autoImplicit false

namespace AccessStack.Files
open AccessStack.FileTree AccessStack.Rows

section Walk

structure MutablePath where
  logicalPath : String
  kind : Option PathKind
  canonicalPath : Option Location

/-- A directory that is still to be read. -/
structure PendingDirectory where
  logicalPath : String
  canonicalPath : Location

/-- The entries of each directory. A name is not empty, no way up and has no slash in it. -/
structure Listing (t : Tree) where
  names : Location → List String
  complete : ∀ loc name, name ∈ names loc ↔ (t.nodes (loc ++ [name])).isSome = true
  legal : ∀ loc, ∀ name ∈ names loc, isName name = true ∧ '/' ∉ name.toList ∧ '\x00' ∉ name.toList

def subtreeSuffix : List Char := ['/', '*', '*']

/-- The patterns for the roots of the blocked subtrees. -/
def subtreeBlockedPatterns (blockedGlobs : List String) : List String :=
  (blockedGlobs.filter fun pattern => subtreeSuffix.isSuffixOf pattern.toList).map fun pattern =>
    String.ofList (pattern.toList.take (pattern.toList.length - 3))

variable (glob : String → String → Bool) (ws : ResolvedWorkspace) {t : Tree} (listing : Listing t)
  (maxListedFiles : ℕ)

def isSubtreeBlocked (relativePath : String) : Bool :=
  (subtreeBlockedPatterns ws.blockedGlobs).any fun pattern =>
    glob pattern (if relativePath = "." then "" else relativePath)

def isSymbolicLink (t : Tree) (loc : Location) : Bool :=
  match t.nodes loc with
  | some (.link _ _) => true
  | _ => false

def readdir (loc : Location) : Except FileError (List String) :=
  match t.nodes loc with
  | none => .error (.errno .enoent)
  | some .dir => .ok (listing.names loc)
  | some _ => .error (.errno .enotdir)

/-- An entry that is a directory is still to be read. -/
def visitEntry (t : Tree) (current : PendingDirectory)
    (name : String) : Except FileError (Option PendingDirectory) := do
  let logicalPath := current.logicalPath ++ "/" ++ name
  let _ ← authorizeWriteLogical glob ws logicalPath
  if isSubtreeBlocked glob ws logicalPath then
    .error (.app "BLOCKED_PATH" "Directory subtree is blocked by workspace policy.")
  else if isSymbolicLink t (current.canonicalPath ++ [name]) then
    .error (.app "BLOCKED_PATH" "Recursive mutation cannot traverse symbolic links.")
  else do
    let authorized ← authorizeExisting glob ws t logicalPath none false none
    return if authorized.kind = .directory then some ⟨logicalPath, authorized.canonicalPath⟩ else none

/-- The count and the stack after the entries, unless there are too many. -/
def visitEntries (t : Tree) (current : PendingDirectory) :
    List String → ℕ → List PendingDirectory → Except FileError (Option (ℕ × List PendingDirectory))
  | [], count, stack => .ok (some (count, stack))
  | name::rest, count, stack =>
    if maxListedFiles < count + 1 then .ok none
    else do
      let found ← visitEntry glob ws t current name
      visitEntries t current rest (count + 1) (found.toList ++ stack)

/-- The loop over the stack; its fuel bounds the turns. -/
def walk : ℕ → ℕ → List PendingDirectory → Option (Except FileError Bool)
  | 0, _, _ => none
  | _+1, _, [] => some (.ok true)
  | fuel+1, count, current::stack =>
    match (readdir listing current.canonicalPath).bind fun entries =>
        visitEntries glob ws maxListedFiles t current entries count stack with
    | .error e => some (.error e)
    | .ok none => some (.ok false)
    | .ok (some (count, stack)) => walk fuel count stack

def authorizeMutableTree (root : MutablePath) : Option (Except FileError Bool) :=
  match root.kind, root.canonicalPath with
  | some .directory, some loc =>
    walk glob ws listing maxListedFiles (maxListedFiles + 2) 0 [⟨root.logicalPath, loc⟩]
  | _, _ => some (.ok false)

end Walk

section Termination

variable {glob : String → String → Bool} {ws : ResolvedWorkspace} {t : Tree} {listing : Listing t}
  {maxListedFiles : ℕ}

attribute [local simp] visitEntries in
/-- Each entry takes a place of the count and puts at most one directory on the stack. -/
theorem visitEntries_measure {current : PendingDirectory} {names : List String} {count count' : ℕ}
    {stack stack' : List PendingDirectory}
    (h : visitEntries glob ws maxListedFiles t current names count stack = .ok (some (count', stack'))) :
    count ≤ count' ∧ (count ≤ maxListedFiles → count' ≤ maxListedFiles) ∧
      count + stack'.length ≤ count' + stack.length := by
  induction names generalizing count stack with
  | nil =>
    cases h
    exact ⟨Nat.le_refl _, id, Nat.le_refl _⟩
  | cons name rest ih =>
    rw [visitEntries] at h
    split at h
    · cases h
    · rename_i hroom
      obtain ⟨found, -, hrest⟩ := bind_ok.mp h
      obtain ⟨hcount, hmax, hstack⟩ := ih hrest
      have hfound : found.toList.length ≤ 1 := by cases found <;> simp
      rw [List.length_append] at hstack
      exact ⟨by omega, fun _ => hmax (by omega), by omega⟩

attribute [local simp] walk in
theorem walk_terminates {fuel count : ℕ} {stack : List PendingDirectory} (hcount : count ≤ maxListedFiles)
    (h : maxListedFiles - count + stack.length < fuel) :
    ∃ result, walk glob ws listing maxListedFiles fuel count stack = some result := by
  induction fuel generalizing count stack with
  | zero => omega
  | succ fuel ih =>
    cases stack with
    | nil => exact ⟨_, rfl⟩
    | cons current stack =>
      rw [walk]
      split
      · exact ⟨_, rfl⟩
      · exact ⟨_, rfl⟩
      · rename_i count' stack' hvisited
        obtain ⟨entries, -, hentries⟩ := bind_ok.mp hvisited
        obtain ⟨hle, hmax, hstack⟩ := visitEntries_measure hentries
        rw [List.length_cons] at h
        have hroom := hmax hcount
        exact ih hroom (by omega)

theorem authorizeMutableTree_terminates (root : MutablePath) :
    ∃ result, authorizeMutableTree glob ws listing maxListedFiles root = some result := by
  unfold authorizeMutableTree
  split
  · exact walk_terminates (Nat.zero_le _) (by simp)
  · exact ⟨_, rfl⟩

end Termination

section Texts

/-- The text of a path below another one. -/
def below (text : String) (names : List String) : String :=
  names.foldl (fun path name => path ++ "/" ++ name) text

theorem below_snoc (text : String) (names : List String) (name : String) :
    below text (names ++ [name]) = below text names ++ "/" ++ name := by simp [below]

def portableChar (c : Char) : Char := if c = '\\' then '/' else c

theorem splitSegments_eq (input : String) :
    splitSegments input = ((input.toList.map portableChar).splitOnP (· == '/')).map String.ofList := rfl

theorem splitSegments_append (text more : String) :
    splitSegments (text ++ "/" ++ more) = splitSegments text ++ splitSegments more := by
  have hslash : "/".toList.map portableChar = ['/'] := by simp [portableChar]
  have hall : (text ++ "/" ++ more).toList.map portableChar =
      text.toList.map portableChar ++ '/' :: more.toList.map portableChar := by
    rw [String.toList_append, String.toList_append, List.map_append, List.map_append, hslash,
      List.append_assoc]
    rfl
  rw [splitSegments_eq, hall, List.splitOnP_append_cons _ _ (by simp), List.map_append]
  rfl

theorem splitSegments_plain {name : String} (hslash : '/' ∉ name.toList) (hback : '\\' ∉ name.toList) :
    splitSegments name = [name] := by
  have hmap : name.toList.map portableChar = name.toList := by
    have hsame : ∀ c ∈ name.toList, portableChar c = id c := by
      intro c hc
      exact if_neg (by rintro rfl; exact hback hc)
    rw [List.map_congr_left hsame, List.map_id]
  rw [splitSegments_eq, hmap, List.splitOnP_eq_singleton, List.map_singleton, String.ofList_toList]
  intro c hc
  simp only [beq_eq_false_iff_ne, ne_eq]
  rintro rfl
  exact hslash hc

theorem mem_splitOnP {α : Type} {p : α → Bool} {l piece : List α} (h : piece ∈ l.splitOnP p) {c : α}
    (hc : c ∈ piece) :
    p c = false ∧ c ∈ l := by
  induction l generalizing piece with
  | nil =>
    rw [List.splitOnP_nil, List.mem_singleton] at h
    subst h
    cases hc
  | cons d l ih =>
    rw [List.splitOnP_cons_eq_if_modifyHead] at h
    split_ifs at h with hd
    · rcases List.mem_cons.mp h with rfl | h
      · cases hc
      · exact ⟨(ih h hc).1, List.mem_cons_of_mem _ (ih h hc).2⟩
    · obtain ⟨head, rest, hsplit⟩ := List.exists_cons_of_ne_nil (List.splitOnP_ne_nil p l)
      rw [hsplit] at h
      rcases List.mem_cons.mp h with rfl | h
      · rcases List.mem_cons.mp hc with rfl | hc
        · exact ⟨by simpa using hd, List.mem_cons_self⟩
        · have hin := ih (hsplit ▸ List.mem_cons_self) hc
          exact ⟨hin.1, List.mem_cons_of_mem _ hin.2⟩
      · have hin := ih (hsplit ▸ List.mem_cons_of_mem _ h) hc
        exact ⟨hin.1, List.mem_cons_of_mem _ hin.2⟩

theorem splitSegments_chars {input segment : String} (h : segment ∈ splitSegments input) :
    '/' ∉ segment.toList ∧ '\\' ∉ segment.toList := by
  rw [splitSegments_eq] at h
  obtain ⟨piece, hpiece, rfl⟩ := List.mem_map.mp h
  rw [String.toList_ofList]
  constructor
  · intro hc
    simpa using (mem_splitOnP hpiece hc).1
  · intro hc
    obtain ⟨c, -, hchar⟩ := List.mem_map.mp (mem_splitOnP hpiece hc).2
    unfold portableChar at hchar
    split_ifs at hchar with hback
    · cases hchar
    · exact hback hchar

theorem collectSegments_append (segments more : List String) :
    collectSegments (segments ++ more) =
      (collectSegments segments).bind fun path => (collectSegments more).map (path ++ ·) := by
  induction segments with
  | nil =>
    rw [List.nil_append, collectSegments]
    cases collectSegments more <;> rfl
  | cons segment rest ih =>
    rw [List.cons_append, collectSegments, collectSegments]
    split_ifs
    · exact ih
    · rfl
    · rw [ih]
      cases collectSegments rest with
      | error e => rfl
      | ok path => cases collectSegments more <;> rfl

theorem collectSegments_mem {segments path : List String}
    (h : collectSegments segments = .ok path) : path ⊆ segments := by
  induction segments generalizing path with
  | nil =>
    cases h
    exact List.Subset.refl _
  | cons segment rest ih =>
    rw [collectSegments] at h
    split_ifs at h
    · exact List.Subset.trans (ih h) (List.subset_cons_self _ _)
    · cases hrest : collectSegments rest with
      | error e =>
        rw [hrest] at h
        cases h
      | ok more =>
        rw [hrest] at h
        cases h
        exact List.cons_subset_cons _ (ih hrest)

/-- What has been normalized has no separator in its names. -/
theorem normalizeRelativePath_plain {input : String} {allowDot : Bool} {path : List String}
    (h : normalizeRelativePath input allowDot = .ok path) :
    ∀ name ∈ path, '/' ∉ name.toList ∧ '\\' ∉ name.toList := by
  unfold normalizeRelativePath at h
  split_ifs at h
  obtain ⟨segments, hsegments, h⟩ := bind_ok.mp h
  split_ifs at h
  cases h
  intro name hname
  exact splitSegments_chars (collectSegments_mem hsegments hname)

/-- More names behind a path leave it as it is. -/
theorem normalizeRelativePath_append {text : String} {path : List String}
    (h : normalizeRelativePath text false = .ok path) {more : String} (hnull : '\x00' ∉ more.toList) :
    normalizeRelativePath (text ++ "/" ++ more) false = (collectSegments (splitSegments more)).map
      (path ++ ·) := by
  have hpath := normalizeRelativePath_ne_nil h
  unfold normalizeRelativePath at h
  split_ifs at h with hempty habsolute
  obtain ⟨segments, hsegments, hrest⟩ := bind_ok.mp h
  split_ifs at hrest
  obtain rfl : segments = path := Except.ok.inj hrest
  simp only [not_or] at hempty habsolute
  obtain ⟨c, cs, htext⟩ := List.exists_cons_of_ne_nil (show text.toList ≠ [] by simpa using hempty.1)
  have hall : (text ++ "/" ++ more).toList = c :: (cs ++ '/' :: more.toList) := by
    rw [String.toList_append, String.toList_append, htext]
    simp
  have hnonempty : ¬ ((text ++ "/" ++ more) = "" ∨ (text ++ "/" ++ more).toList.contains '\x00' = true) := by
    rintro (hnil | hzero)
    · rw [hnil] at hall
      cases hall
    · have hbefore : '\x00' ∉ c :: cs := by
        rw [← htext]
        simpa using hempty.2
      rw [hall, ← List.cons_append] at hzero
      simp only [List.contains_eq_mem, List.mem_append, List.mem_cons, decide_eq_true_eq] at hzero
      rcases hzero with (hzero | hzero) | hzero | hzero
      · exact hbefore (hzero ▸ List.mem_cons_self)
      · exact hbefore (List.mem_cons_of_mem _ hzero)
      · cases hzero
      · exact hnull hzero
  have hrelative :
    ¬ ((text ++ "/" ++ more).toList.head? = some '/' ∨ (text ++ "/" ++ more).toList.head? = some '\\' ∨
      isDrive (text ++ "/" ++ more).toList = true) := by
    rw [htext] at habsolute
    rw [hall]
    rintro (hroot | hroot | hdrive)
    · exact habsolute.1 hroot
    · exact habsolute.2.1 hroot
    · cases cs with
      | nil => simp [isDrive] at hdrive
      | cons d cs => exact habsolute.2.2 hdrive
  rw [normalizeRelativePath, if_neg hnonempty, if_neg hrelative, splitSegments_append,
    collectSegments_append, hsegments]
  cases collectSegments (splitSegments more) with
  | error e => rfl
  | ok path =>
    have hne : ¬ (segments ++ path = [] ∧ false = false) := by simp [hpath]
    show (if segments ++ path = [] ∧ false = false then _ else _) = _
    rw [if_neg hne]
    rfl

theorem normalizeRelativePath_name {text : String} {path : List String}
    (h : normalizeRelativePath text false = .ok path) {name : String} (hname : isName name = true)
    (hslash : '/' ∉ name.toList) (hback : '\\' ∉ name.toList) (hnull : '\x00' ∉ name.toList) :
    normalizeRelativePath (text ++ "/" ++ name) false = .ok (path ++ [name]) := by
  simp only [isName, ne_eq, decide_not, Bool.and_eq_true, Bool.not_eq_true', decide_eq_false_iff_not] at hname
  obtain ⟨⟨hempty, hdot⟩, hdots⟩ := hname
  rw [normalizeRelativePath_append h hnull, splitSegments_plain hslash hback, collectSegments,
    if_neg (by simp [hempty, hdot]), if_neg hdots]
  rfl

theorem below_text (text : String) {names : List String} (hnull : ∀ name ∈ names, '\x00' ∉ name.toList) :
    below text names = text ∨ ∃ more, below text names = text ++ "/" ++ more ∧ '\x00' ∉ more.toList := by
  induction names using List.reverseRecOn with
  | nil => exact .inl rfl
  | append_singleton names name ih =>
    have hname := hnull name (by simp)
    rw [below_snoc]
    rcases ih fun n hn => hnull n (List.mem_append_left _ hn) with hsame | ⟨more, hmore, hzero⟩
    · exact .inr ⟨name, by rw [hsame], hname⟩
    · refine .inr ⟨more ++ "/" ++ name, by rw [hmore]; simp only [String.append_assoc], ?_⟩
      simp only [String.toList_append, List.mem_append]
      rintro ((hz | hz) | hz)
      · exact hzero hz
      · simp at hz
      · exact hname hz

/-- The names behind a path are read behind it. -/
theorem normalizeRelativePath_below {text : String} {path : List String}
    (h : normalizeRelativePath text false = .ok path) {names : List String}
    (hnull : ∀ name ∈ names, '\x00' ∉ name.toList) {whole : List String}
    (hwhole : normalizeRelativePath (below text names) false = .ok whole) : path <+: whole := by
  rcases below_text text hnull with hsame | ⟨more, hmore, hzero⟩
  · rw [hsame, h] at hwhole
    exact Except.ok.inj hwhole ▸ List.prefix_refl _
  · rw [hmore, normalizeRelativePath_append h hzero] at hwhole
    cases hmoreNames : collectSegments (splitSegments more) with
    | error e =>
      rw [hmoreNames] at hwhole
      cases hwhole
    | ok names =>
      rw [hmoreNames] at hwhole
      exact Except.ok.inj hwhole ▸ List.prefix_append _ _

end Texts

section Existing

variable {glob : String → String → Bool} {ws : ResolvedWorkspace} {t : Tree}

/-- What is authorized is there, and its kind is that of its node. -/
theorem authorizeExisting_ok {input : String} {a : AuthorizedPath}
    (h : authorizeExisting glob ws t input none false none = .ok a) :
    normalizeRelativePath input false = .ok a.logicalPath ∧
      realpath t (toNativeAbsolute ws.rootPath a.logicalPath) = .ok a.canonicalPath ∧
      (a.kind = .directory ↔ t.nodes a.canonicalPath = some .dir) := by
  obtain ⟨path, hlogical, h⟩ := bind_ok.mp h
  obtain ⟨path', hpath, hpolicy⟩ := bind_ok.mp hlogical
  have hsame : path' = path := by
    split at hpolicy
    · cases hpolicy
    · split_ifs at hpolicy
      exact Except.ok.inj hpolicy
  subst hsame
  split at h
  · cases h
  cases hreal : realpath t (toNativeAbsolute ws.rootPath path') with
  | error e => simp [hreal] at h
  | ok loc =>
    obtain ⟨node, hnode, hlink⟩ := realpath_node hreal
    simp only [hreal, stat_realpath hreal hnode, if_true] at h
    split at h
    · cases h
    split at h
    · cases h
    split at h
    · cases h
    cases node with
    | link absolute target => exact absurd rfl (hlink absolute target)
    | file content =>
      cases h
      exact ⟨hpath, hreal, by simp [hnode]⟩
    | dir =>
      cases h
      exact ⟨hpath, hreal, by simp [hnode]⟩

end Existing

end AccessStack.Files
