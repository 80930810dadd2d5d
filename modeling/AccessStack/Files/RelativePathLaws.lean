import AccessStack.Files.RelativePaths

/-!
# What a normalized path is

Its segments are kept as they are, and below any root it stays inside. It is
normalized again exactly where its first segment does not look like a drive:
the input is only looked at before its empty segments and dots are dropped.
-/

set_option autoImplicit false

namespace AccessStack.Files.Platforms
open AccessStack.FileTree AccessStack.Rows

section Texts

theorem intercalate_head (sep : Char) (a : List Char) (rest : List (List Char)) :
    ∃ more, [sep].intercalate (a :: rest) = a ++ more ∧ (more = [] ∨ ∃ m, more = sep :: m) := by
  cases rest with
  | nil => exact ⟨[], by simp, .inl rfl⟩
  | cons b rest =>
    refine ⟨sep :: [sep].intercalate (b :: rest), ?_, .inr ⟨_, rfl⟩⟩
    rw [List.intercalate_cons_cons, List.append_assoc]
    rfl

theorem isDrive_append {a more : List Char} (ha : a ≠ []) (hmore : more = [] ∨ ∃ m, more = '/' :: m) :
    isDrive (a ++ more) = isDrive a := by
  match a with
  | [] => exact absurd rfl ha
  | [c] =>
    rcases hmore with rfl | ⟨m, rfl⟩
    · rfl
    · simp [isDrive]
  | c::d::a => rfl

attribute [local simp] isAbsolute in
theorem looksAbsolute_drive (platform : Platform) {c : Char} (hslash : c ≠ '/') (hback : c ≠ '\\')
    (l : List Char) :
    looksAbsolute platform (c :: l) = isDrive (c :: l) := by
  have hposix : isAbsolute .posix (c :: l) = false := by simp [isAbsolute, hslash]
  have hprefix : ['\\', '\\'].isPrefixOf (c :: l) = false := by simp [List.isPrefixOf, Ne.symm hback]
  have hwin : isAbsolute .win32 (c :: l) = true → isDrive (c :: l) = true := by
    match l with
    | [] => simp [isAbsolute, isSeparator, hslash, hback]
    | [d] => simp [isAbsolute, isSeparator, hslash, hback]
    | d::e::l =>
      intro h
      simp [isAbsolute, isSeparator, hslash, hback] at h
      simp [isDrive, h.1.1, h.1.2]
  have hboth : (isAbsolute platform (c :: l) || isAbsolute .win32 (c :: l)) = isAbsolute .win32 (c :: l) := by
    cases platform with
    | posix => rw [hposix, Bool.false_or]
    | win32 => rw [Bool.or_self]
  rw [looksAbsolute, hboth, hposix, hprefix, Bool.or_false, Bool.or_false]
  cases hcase : isAbsolute .win32 (c :: l) with
  | false => rw [Bool.false_or]
  | true => rw [Bool.true_or, hwin hcase]

end Texts

section Normalized

variable {platform : Platform} {input p : String} {allowDot : Bool}

/-- The first segment of the input that is kept. -/
def firstSegment (input : String) : Option String :=
  (splitSegments input).find? fun segment => segment ≠ "" ∧ segment ≠ "."

/-- The segments of a normalized path. -/
structure Segments (platform : Platform) (input : String) (segment : String) (rest : List String) : Prop where
  kept : ∀ s ∈ segment :: rest, Kept platform s
  plain : ∀ s ∈ segment :: rest, '/' ∉ s.toList ∧ '\\' ∉ s.toList
  null : ∀ s ∈ segment :: rest, '\x00' ∉ s.toList
  first : firstSegment input = some segment

theorem segment_null {segment : String} (hnull : '\x00' ∉ input.toList) (h : segment ∈ splitSegments input) :
    '\x00' ∉ segment.toList := by
  rw [splitSegments_eq] at h
  obtain ⟨piece, hpiece, rfl⟩ := List.mem_map.mp h
  rw [String.toList_ofList]
  intro hc
  obtain ⟨c, hin, hchar⟩ := List.mem_map.mp (mem_splitOnP hpiece hc).2
  unfold portableChar at hchar
  split_ifs at hchar
  · cases hchar
  · exact hnull (hchar ▸ hin)

theorem normalized_segments (h : normalizeRelativePath platform input allowDot = .ok p) :
    p = "." ∧ allowDot = true ∧ firstSegment input = none ∨
      ∃ segment rest, p = portable (segment :: rest) ∧ Segments platform input segment rest := by
  unfold normalizeRelativePath at h
  split at h
  · cases h
  rename_i hinput
  split at h
  · cases h
  split at h
  · cases h
  split at h
  · cases h
  · rename_i hnone
    split at h
    · rename_i hdot
      exact .inl ⟨(Except.ok.inj h).symm, hdot, (outputSegments_ok hnone).2.2.symm⟩
    · cases h
  · rename_i segment rest hsegments
    obtain ⟨hkept, hsubset, hhead⟩ := outputSegments_ok hsegments
    simp only [not_or] at hinput
    refine .inr ⟨segment, rest, (Except.ok.inj h).symm, hkept, ?_, ?_, ?_⟩
    · intro s hs
      exact splitSegments_chars (hsubset hs)
    · intro s hs
      exact segment_null hinput.2 (hsubset hs)
    · exact hhead.symm

theorem segments_text {segment : String} {rest : List String} (h : Segments platform input segment rest) :
    ∃ c a more, segment.toList = c :: a ∧ c ≠ '/' ∧ c ≠ '\\' ∧ (portable (segment :: rest)).toList =
      c :: (a ++ more) ∧
      isDrive (c :: (a ++ more)) = isDrive segment.toList := by
  have hne : segment.toList ≠ [] := by simpa using (kept_ne (h.kept segment List.mem_cons_self)).1
  obtain ⟨c, a, hsegment⟩ := List.exists_cons_of_ne_nil hne
  obtain ⟨more, htext, hmore⟩ := intercalate_head '/' segment.toList (rest.map String.toList)
  have hplain := h.plain segment List.mem_cons_self
  rw [hsegment] at hplain
  refine ⟨c, a, more, hsegment, ?_, ?_, ?_, ?_⟩
  · rintro rfl
    exact hplain.1 List.mem_cons_self
  · rintro rfl
    exact hplain.2 List.mem_cons_self
  · rw [portable_toList, List.map_cons, htext, hsegment]
    rfl
  · rw [hsegment, ← List.cons_append]
    exact isDrive_append (List.cons_ne_nil _ _) hmore

theorem normalized_again {segment : String} {rest : List String} (h : Segments platform input segment rest) :
    normalizeRelativePath platform (portable (segment :: rest)) allowDot = .ok (portable (segment :: rest)) ↔
      isDrive segment.toList = false := by
  obtain ⟨c, a, more, -, hslash, hback, htext, hdrive⟩ := segments_text h
  have hinput : ¬ (portable (segment :: rest) = "" ∨ '\x00' ∈ (portable (segment :: rest)).toList) := by
    rintro (hnil | hzero)
    · rw [hnil] at htext
      cases htext
    · rcases mem_portable hzero with hzero | ⟨s, hs, hzero⟩
      · cases hzero
      · exact h.null s hs hzero
  have habsolute : looksAbsolute platform (portable (segment :: rest)).toList = isDrive segment.toList := by
    rw [htext, looksAbsolute_drive platform hslash hback, hdrive]
  have hshare : ¬ ['/', '/'].isPrefixOf ((portable (segment :: rest)).toList.map portableChar) = true := by
    rw [htext, List.map_cons, portableChar, if_neg hback]
    simp [List.isPrefixOf, Ne.symm hslash]
  rw [normalizeRelativePath, if_neg hinput, habsolute]
  cases hcase : isDrive segment.toList with
  | true => simp
  | false =>
    rw [if_neg (by simp), if_neg hshare, portable_segments (List.cons_ne_nil _ _) h.plain,
      outputSegments_kept h.kept]
    simp

theorem dot_again : normalizeRelativePath platform "." true = .ok "." := by
  cases platform <;> decide +kernel

end Normalized

section Containment

variable {platform : Platform} {fold : List Char → List Char} {cwd : Option Device → List Char}

theorem splitNames_plain {a : List Char} (h : ∀ c ∈ a, isSeparator platform c = false) :
    splitNames platform a = [String.ofList a] := by
  rw [splitNames, List.splitOnP_eq_singleton h]
  rfl

theorem plain_separator {a : List Char} (h : '/' ∉ a ∧ '\\' ∉ a) :
    ∀ c ∈ a, isSeparator platform c = false := by
  intro c hc
  have hslash : c ≠ '/' := by rintro rfl; exact h.1 hc
  have hback : c ≠ '\\' := by rintro rfl; exact h.2 hc
  simp [isSeparator, hslash, hback]

/-- A segment is read as one name. -/
theorem parsePath_segment {segment : String} (hkept : Kept platform segment)
    (hplain : '/' ∉ segment.toList ∧ '\\' ∉ segment.toList) :
    parsePath platform segment.toList = ⟨none, false, [segment]⟩ := by
  have hseparator : ∀ q : Platform, ∀ c ∈ segment.toList, isSeparator q c = false :=
    fun _ => plain_separator hplain
  have hnames := splitNames_plain (hseparator platform)
  rw [String.ofList_toList] at hnames
  cases platform with
  | posix =>
    have habsolute : isAbsolute .posix segment.toList = false := by
      cases hcase : segment.toList with
      | nil => rfl
      | cons c a =>
        rw [hcase] at hplain
        have hslash : c ≠ '/' := by rintro rfl; exact hplain.1 List.mem_cons_self
        simp [isAbsolute, hslash]
    rw [parsePath, habsolute, hnames]
  | win32 =>
    have hcolon := (hkept.windows rfl).1
    match hcase : segment.toList with
    | [] =>
      rw [hcase] at hnames
      simp [parsePath, isAbsolute, hnames]
    | [c] =>
      have hc := hseparator .win32 c (by simp [hcase])
      rw [hcase] at hnames
      simp [parsePath, isAbsolute, hnames, hc]
    | c::d::a =>
      have hc := hseparator .win32 c (by simp [hcase])
      have hd : d ≠ ':' := by
        rintro rfl
        exact hcolon (by simp [hcase])
      rw [hcase] at hnames
      simp [parsePath, hnames, hc, hd]

theorem prepend_names (p : Partial) (hp : p.device = none ∧ p.absolute = false) (segment : String) :
    prepend platform fold p ⟨none, false, [segment]⟩ = ⟨none, false, segment :: p.names⟩ := by
  obtain ⟨device, absolute, names⟩ := p
  obtain ⟨rfl, rfl⟩ := hp
  simp [prepend, settled]

theorem read_segments {segments : List String} (hkept : ∀ s ∈ segments, Kept platform s)
    (hplain : ∀ s ∈ segments, '/' ∉ s.toList ∧ '\\' ∉ s.toList) (names : List String) :
    (segments.map String.toList).reverse.foldl
      (fun p path => prepend platform fold p (parsePath platform path))
      ⟨none, false, names⟩ = ⟨none, false, segments ++ names⟩ := by
  induction segments using List.reverseRecOn generalizing names with
  | nil => rfl
  | append_singleton segments segment ih =>
    rw [List.map_append, List.reverse_append, List.foldl_append]
    have hone : List.foldl (fun p path => prepend platform fold p (parsePath platform path))
      ⟨none, false, names⟩
        ([segment].map String.toList).reverse = ⟨none, false, segment :: names⟩ := by
      simp only [List.map_cons, List.map_nil, List.reverse_cons, List.reverse_nil, List.nil_append,
        List.foldl_cons, List.foldl_nil]
      rw [parsePath_segment (hkept segment (by simp)) (hplain segment (by simp))]
      exact prepend_names ⟨none, false, names⟩ ⟨rfl, rfl⟩ segment
    rw [hone, ih (fun s hs => hkept s (List.mem_append_left _ hs))
      (fun s hs => hplain s (List.mem_append_left _ hs)), List.append_assoc]
    rfl

theorem letter_separator {c : Char} (h : c.isAlpha = true) : isSeparator .win32 c = false := by
  simp only [isSeparator, Bool.or_eq_false_iff, decide_eq_false_iff_not, Bool.and_eq_false_iff]
  constructor
  · rintro rfl
    exact absurd h (by decide)
  · right
    rintro rfl
    exact absurd h (by decide)

theorem parsePath_absolute (platform : Platform) (path : List Char) :
    (parsePath platform path).absolute = isAbsolute platform path := by
  match platform, path with
  | .posix, _ => rfl
  | .win32, [] => rfl
  | .win32, [c] => rfl
  | .win32, c::d::rest =>
    simp only [parsePath]
    split_ifs with hshare hdrive
    · have hc : isSeparator .win32 c = true := by
        rw [Bool.and_eq_true] at hshare
        exact hshare.1
      have habsolute : isAbsolute .win32 (c :: d :: rest) = true := by
        cases rest <;> simp [isAbsolute, hc]
      rw [habsolute]
      cases readShare rest <;> rfl
    · rw [Bool.and_eq_true, decide_eq_true_eq] at hdrive
      have hc := letter_separator hdrive.1
      cases rest <;> simp [isAbsolute, hc, hdrive.1, hdrive.2]
    · cases rest with
      | nil => rfl
      | cons e rest =>
        have hno : (c.isAlpha && decide (d = ':') && isSeparator .win32 e) = false := by
          rw [Bool.not_eq_true] at hdrive
          rw [hdrive, Bool.false_and]
        simp only [isAbsolute, hno, Bool.or_false]

theorem resolveNames_append (names : List String) {segments : List String}
    (h : ∀ s ∈ segments, isName s = true) :
    resolveNames (names ++ segments) = resolveNames names ++ segments := by
  induction segments using List.reverseRecOn with
  | nil => rw [List.append_nil, List.append_nil]
  | append_singleton segments segment ih =>
    have hname := h segment (by simp)
    simp only [isName, ne_eq, decide_not, Bool.and_eq_true, Bool.not_eq_true',
      decide_eq_false_iff_not] at hname
    obtain ⟨⟨hempty, hdot⟩, hdots⟩ := hname
    rw [← List.append_assoc, resolveNames_snoc, if_neg (by simp [hempty, hdot]), if_neg hdots,
      ih fun s hs => h s (List.mem_append_left _ hs), List.append_assoc]

/-- Names behind a root stand behind it in the resolved path. -/
theorem resolve_segments {root : List Char} (hroot : isAbsolute platform root = true) {segments : List String}
    (hkept : ∀ s ∈ segments, Kept platform s) (hplain : ∀ s ∈ segments, '/' ∉ s.toList ∧ '\\' ∉ s.toList) :
    resolve platform fold cwd (root :: segments.map String.toList) =
      ⟨(resolve platform fold cwd [root]).device, (resolve platform fold cwd [root]).names ++ segments⟩ := by
  have habsolute : (parsePath platform root).absolute = true := (parsePath_absolute platform root).trans hroot
  have hread : (root :: segments.map String.toList).reverse.foldl
      (fun p path => prepend platform fold p (parsePath platform path)) ⟨none, false, []⟩ =
      ⟨(parsePath platform root).device, true, (parsePath platform root).names ++ segments⟩ := by
    rw [List.reverse_cons, List.foldl_append, read_segments hkept hplain, List.append_nil]
    simp [prepend, settled, habsolute]
  have hone : [root].reverse.foldl (fun p path => prepend platform fold p (parsePath platform path))
    ⟨none, false, []⟩ =
      ⟨(parsePath platform root).device, true, (parsePath platform root).names⟩ := by
    simp [prepend, settled, habsolute]
  have hcwd : ∀ names last, prepend platform fold ⟨(parsePath platform root).device, true, names⟩ last =
      ⟨(prepend platform fold ⟨(parsePath platform root).device, true, []⟩ last).device, true, names⟩ := by
    intro names last
    unfold prepend settled
    simp only
    split_ifs <;> rfl
  have hnames : ∀ names, resolveNames (names ++ segments) = resolveNames names ++ segments := by
    intro names
    exact resolveNames_append names fun s hs => (hkept s hs).name
  simp only [resolve, hread, hone]
  rw [hcwd ((parsePath platform root).names ++ segments), hcwd (parsePath platform root).names]
  simp only [hnames]

attribute [local simp] common in
theorem common_append (ss ts : List (List Char)) : common fold ss (ss ++ ts) = ss.length := by
  induction ss with
  | nil => cases ts <;> rfl
  | cons s ss ih => rw [List.cons_append, common, if_pos rfl, ih, List.length_cons]

theorem parts_append (device : Option Device) (names segments : List String) :
    (Place.mk device (names ++ segments)).parts = (Place.mk device names).parts ++
      segments.map String.toList := by
  simp [Place.parts]

theorem parts_nonempty (p : Place) : p.parts ≠ [] := by
  obtain ⟨device, names⟩ := p
  match device with
  | none => simp [Place.parts]
  | some (.drive letter) => simp [Place.parts]
  | some (.share server name) => simp [Place.parts]

theorem relative_below (device : Option Device) (names segments : List String) :
    relative platform fold ⟨device, names⟩ ⟨device, names ++ segments⟩ =
      [separator platform].intercalate (segments.map String.toList) := by
  have hne : (Place.mk device names).parts.length ≠ 0 := by simpa using parts_nonempty ⟨device, names⟩
  rw [relative, parts_append, common_append]
  simp only [if_neg hne, Nat.sub_self, List.replicate_zero, List.nil_append, List.drop_left]

theorem segment_inside {segment : String} (hkept : Kept platform segment)
    (hplain : '/' ∉ segment.toList ∧ '\\' ∉ segment.toList) {more : List Char}
    (hmore : more = [] ∨ ∃ m, more = separator platform :: m) :
    ['.', '.', separator platform].isPrefixOf (segment.toList ++ more) = false ∧ segment.toList ++
      more ≠ ['.', '.'] ∧
      isAbsolute platform (segment.toList ++ more) = false := by
  have hseparator : ∀ c ∈ segment.toList, isSeparator platform c = false := plain_separator hplain
  have hsep : separator platform ∉ segment.toList := by
    cases platform with
    | posix => exact hplain.1
    | win32 => exact hplain.2
  have hdot : separator platform ≠ '.' := by cases platform <;> decide
  obtain ⟨hempty, hone, htwo⟩ := kept_ne hkept
  have htwoChars : segment.toList ≠ ['.', '.'] := by
    intro hdots
    apply htwo
    rw [← String.ofList_toList (s := segment), hdots]
  match hcase : segment.toList with
  | [] => exact absurd (String.toList_eq_nil_iff.mp hcase) hempty
  | [c] =>
    rw [hcase] at hseparator
    have hc := hseparator c List.mem_cons_self
    rcases hmore with rfl | ⟨m, rfl⟩
    · refine ⟨by simp [List.isPrefixOf], by simp, ?_⟩
      cases platform with
      | posix => simpa [isAbsolute, isSeparator] using hc
      | win32 => simpa [isAbsolute] using hc
    · refine ⟨?_, ?_, ?_⟩
      · simp [List.isPrefixOf, Ne.symm hdot]
      · simp [hdot]
      · cases platform with
        | posix => simpa [isAbsolute, isSeparator] using hc
        | win32 => cases m <;> simp [isAbsolute, hc, separator]
  | c::d::rest =>
    rw [hcase] at hseparator hsep htwoChars
    have hc := hseparator c List.mem_cons_self
    refine ⟨?_, ?_, ?_⟩
    · rw [Bool.eq_false_iff]
      intro hprefix
      rw [List.isPrefixOf_iff_prefix, List.cons_append, List.cons_append] at hprefix
      obtain ⟨hdot1, hprefix⟩ := List.cons_prefix_cons.mp hprefix
      obtain ⟨hdot2, hprefix⟩ := List.cons_prefix_cons.mp hprefix
      cases rest with
      | nil => exact htwoChars (by rw [← hdot1, ← hdot2])
      | cons e rest =>
        obtain ⟨he, -⟩ := List.cons_prefix_cons.mp hprefix
        exact hsep (by simp [he])
    · intro hdots
      simp only [List.cons_append, List.cons.injEq, List.append_eq_nil_iff] at hdots
      obtain ⟨rfl, rfl, rfl, -⟩ := hdots
      exact htwoChars rfl
    · cases platform with
      | posix => simpa [isAbsolute, isSeparator] using hc
      | win32 =>
        have hd : d ≠ ':' := by
          rintro rfl
          exact (hkept.windows rfl).1 (by simp [hcase])
        cases hrest : rest ++ more with
        | nil => simp [isAbsolute, hrest, hc]
        | cons e tail => simp [isAbsolute, hrest, hc, hd]

theorem contained_below (device : Option Device) (names : List String) {segments : List String}
    (hkept : ∀ s ∈ segments, Kept platform s) (hplain : ∀ s ∈ segments, '/' ∉ s.toList ∧ '\\' ∉ s.toList) :
    isContained platform fold ⟨device, names⟩ ⟨device, names ++ segments⟩ = true := by
  rw [isContained, relative_below]
  cases segments with
  | nil => simp
  | cons segment rest =>
    obtain ⟨more, htext, hmore⟩ :=
      intercalate_head (separator platform) segment.toList (rest.map String.toList)
    obtain ⟨hup, hparent, habsolute⟩ :=
      segment_inside (hkept segment List.mem_cons_self) (hplain segment List.mem_cons_self) hmore
    rw [List.map_cons, htext, hup, habsolute]
    simp [hparent]

end Containment

section Results

variable (platform : Platform) (fold : List Char → List Char) (cwd : Option Device → List Char)
  (allowDot : Bool)

structure Canonical (p : String) : Prop where
  segments : p = "." ∧ allowDot = true ∨ ∀ s ∈ p.toList.splitOn '/', s ≠ [] ∧ s ≠ ['.'] ∧ s ≠ ['.', '.']
  again : normalizeRelativePath platform p allowDot = .ok p
  contained : ∀ root : String, isAbsolute platform root.toList = true →
    isContained platform fold (resolve platform fold cwd [root.toList])
      (toNativeAbsolute platform fold cwd root p) = true

theorem toNativeAbsolute_portable {platform : Platform} {fold : List Char → List Char}
    {cwd : Option Device → List Char} (root : String) {segments : List String} (hne : segments ≠ [])
    (hkept : ∀ s ∈ segments, Kept platform s) (hplain : ∀ s ∈ segments, '/' ∉ s.toList ∧ '\\' ∉ s.toList) :
    toNativeAbsolute platform fold cwd root (portable segments) =
      resolve platform fold cwd (root.toList :: segments.map String.toList) := by
  have hsplit := portable_split hne fun s hs => (hplain s hs).1
  have hdot : portable segments ≠ "." := by
    intro hdot
    rw [hdot] at hsplit
    have hone : ".".toList.splitOn '/' = [['.']] := by decide +kernel
    rw [hone] at hsplit
    cases segments with
    | nil => exact hne rfl
    | cons s rest =>
      have hs : s.toList = ['.'] := by
        rw [List.map_cons] at hsplit
        exact (List.cons.inj hsplit).1.symm
      apply (kept_ne (hkept s List.mem_cons_self)).2.1
      rw [← String.ofList_toList (s := s), hs]
  rw [toNativeAbsolute, if_neg hdot, hsplit]

/-- A path that has been normalized is canonical exactly if its first segment is not like a drive. -/
theorem canonical_iff (input p : String) (h : normalizeRelativePath platform input allowDot = .ok p) :
    Canonical platform fold cwd allowDot p ↔ ∀ segment ∈ firstSegment input,
      isDrive segment.toList = false := by
  rcases normalized_segments h with ⟨rfl, rfl, hnone⟩ | ⟨segment, rest, rfl, hsegments⟩
  · rw [hnone]
    refine ⟨fun _ => by simp, fun _ => ⟨.inl ⟨rfl, rfl⟩, dot_again, ?_⟩⟩
    intro root hroot
    have hself : isContained platform fold ⟨(resolve platform fold cwd [root.toList]).device, _⟩
        ⟨_, (resolve platform fold cwd [root.toList]).names ++ []⟩ = true :=
          contained_below _ _ (by simp) (by simp)
    rw [List.append_nil] at hself
    rw [toNativeAbsolute, if_pos rfl]
    exact hself
  · rw [hsegments.first]
    constructor
    · intro hcanonical s hs
      obtain rfl := Option.some.inj hs
      exact (normalized_again hsegments).mp hcanonical.again
    · intro hdrive
      refine ⟨.inr ?_, (normalized_again hsegments).mpr (hdrive segment rfl), ?_⟩
      · intro l hl
        rw [portable_split (List.cons_ne_nil _ _) fun s hs => (hsegments.plain s hs).1] at hl
        obtain ⟨s, hs, rfl⟩ := List.mem_map.mp hl
        obtain ⟨hempty, hdot, hdots⟩ := kept_ne (hsegments.kept s hs)
        refine ⟨by simpa using hempty, ?_, ?_⟩
        · intro hchars
          exact hdot (by rw [← String.ofList_toList (s := s), hchars])
        · intro hchars
          exact hdots (by rw [← String.ofList_toList (s := s), hchars])
      · intro root hroot
        rw [toNativeAbsolute_portable root (List.cons_ne_nil _ _) hsegments.kept hsegments.plain,
          resolve_segments hroot hsegments.kept hsegments.plain]
        exact contained_below _ _ hsegments.kept hsegments.plain

theorem canonical_sample : normalizeRelativePath .posix "src//./a:b" false = .ok "src/a:b" ∧
    Canonical .posix id (fun _ => ['/']) false "src/a:b" := by
  have hrun : normalizeRelativePath .posix "src//./a:b" false = .ok "src/a:b" ∧
      ∀ segment ∈ firstSegment "src//./a:b", isDrive segment.toList = false := by decide +kernel
  exact ⟨hrun.1, (canonical_iff .posix id (fun _ => ['/']) false "src//./a:b" "src/a:b" hrun.1).mpr hrun.2⟩

/-- The dot before a drive is dropped, and what is left is refused. -/
theorem drive_exposed : normalizeRelativePath .posix "./c:x" false = .ok "c:x" ∧
    normalizeRelativePath .posix "c:x" false = .error
      (.app "INVALID_PATH" "Absolute paths are not allowed.") := by
  decide +kernel

end Results

section Posix

theorem outputSegments_posix (segments : List String) :
    outputSegments .posix segments = collectSegments segments := by
  induction segments with
  | nil => rfl
  | cons segment rest ih =>
    rw [outputSegments, collectSegments, ih]
    simp

theorem looksAbsolute_posix (l : List Char) :
    looksAbsolute .posix l = true ↔ l.head? = some '/' ∨ l.head? = some '\\' ∨ isDrive l = true := by
  cases l with
  | nil => simp [looksAbsolute, isAbsolute, isDrive]
  | cons c l =>
    by_cases hslash : c = '/'
    · simp [looksAbsolute, isAbsolute, hslash]
    · by_cases hback : c = '\\'
      · subst hback
        have hwin : isAbsolute .win32 ('\\' :: l) = true := by
          cases l with
          | nil => rfl
          | cons d rest => cases rest <;> rfl
        simp [looksAbsolute, hwin]
      · rw [looksAbsolute_drive .posix hslash hback]
        simp [hslash, hback]

/-- On a POSIX system this is the function that the authorizations use, with the path as a text. -/
theorem normalizeRelativePath_posix (input : String) (allowDot : Bool) :
    normalizeRelativePath .posix input allowDot = (Files.normalizeRelativePath input allowDot).map shown := by
  rw [normalizeRelativePath, Files.normalizeRelativePath]
  have hcontains : (input = "" ∨ input.toList.contains '\x00' = true) ↔ input = "" ∨
    '\x00' ∈ input.toList := by simp
  by_cases hinput : input = "" ∨ '\x00' ∈ input.toList
  · rw [if_pos hinput, if_pos (hcontains.mpr hinput)]
    rfl
  have hgiven := fun h => hinput (hcontains.mp h)
  rw [if_neg hinput, if_neg hgiven]
  by_cases habsolute : looksAbsolute .posix input.toList = true
  · rw [if_pos habsolute, if_pos ((looksAbsolute_posix _).mp habsolute)]
    rfl
  have hrelative := fun h => habsolute ((looksAbsolute_posix input.toList).mpr h)
  have hshare : ¬ ['/', '/'].isPrefixOf (input.toList.map portableChar) = true := by
    intro hprefix
    apply hrelative
    cases hcase : input.toList with
    | nil =>
      rw [hcase] at hprefix
      cases hprefix
    | cons c l =>
      rw [hcase, List.map_cons, List.isPrefixOf_iff_prefix] at hprefix
      have hc : portableChar c = '/' := (List.cons_prefix_cons.mp hprefix).1.symm
      unfold portableChar at hc
      split_ifs at hc with hback
      · exact .inr (.inl (by rw [hback]; rfl))
      · exact .inl (by rw [hc]; rfl)
  rw [if_neg habsolute, if_neg hrelative, if_neg hshare, outputSegments_posix]
  cases collectSegments (splitSegments input) with
  | error e => rfl
  | ok path =>
    cases path with
    | nil => cases allowDot <;> rfl
    | cons segment rest => cases allowDot <;> rfl

end Posix

end AccessStack.Files.Platforms
