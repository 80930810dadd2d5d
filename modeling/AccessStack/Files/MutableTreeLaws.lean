import AccessStack.Files.MutableTree

/-!
# What the authorization of a directory covers

Each entry that is counted has passed, and each directory that has passed is
read or still on the stack. A name with a backslash stands for another path,
so a tree is covered exactly where no name below it has one.
-/

set_option autoImplicit false

namespace AccessStack.Files
open AccessStack.FileTree AccessStack.Rows

section Coverage

/-- An entry at some depth below a directory, by its names from there. -/
def IsEntry (t : Tree) (base : Location) (names : List String) : Prop :=
  names ≠ [] ∧ (t.nodes (base ++ names)).isSome = true

variable (glob : String → String → Bool) (ws : ResolvedWorkspace) (t : Tree) (maxListedFiles : ℕ)
  (a : AuthorizedPath)

/-- The text that names an entry below the directory. -/
def entryText (names : List String) : String := below (portable a.logicalPath) names

structure Passed (names : List String) : Prop where
  write : ∃ path, authorizeWriteLogical glob ws (entryText a names) = .ok path
  existing : ∃ b, authorizeExisting glob ws t (entryText a names) none false none = .ok b ∧
    b.canonicalPath = a.canonicalPath ++ names
  subtree : isSubtreeBlocked glob ws (entryText a names) = false
  link : isSymbolicLink t (a.canonicalPath ++ names) = false

structure Covered : Prop where
  passed : ∀ names, IsEntry t a.canonicalPath names → Passed glob ws t a names
  few : {names | IsEntry t a.canonicalPath names}.encard ≤ maxListedFiles

/-- No name of an entry below the directory has a backslash. -/
def PlainNames : Prop := ∀ names, IsEntry t a.canonicalPath names → ∀ name ∈ names, '\\' ∉ name.toList

end Coverage

section Steps

variable {glob : String → String → Bool} {ws : ResolvedWorkspace} {t : Tree} {listing : Listing t}
  {maxListedFiles : ℕ} {a : AuthorizedPath}

theorem entryText_snoc (names : List String) (name : String) :
    entryText a (names ++ [name]) = entryText a names ++ "/" ++ name := below_snoc ..

/-- The text of a directory leads to it. -/
structure Reached (ws : ResolvedWorkspace) (t : Tree) (a : AuthorizedPath) (names : List String) : Prop where
  text : normalizeRelativePath (entryText a names) false = .ok (a.logicalPath ++ names)
  path : realpath t (toNativeAbsolute ws.rootPath (a.logicalPath ++ names)) = .ok (a.canonicalPath ++ names)
  directory : t.nodes (a.canonicalPath ++ names) = some .dir

def pendingAt (a : AuthorizedPath) (names : List String) : PendingDirectory :=
  ⟨entryText a names, a.canonicalPath ++ names⟩

theorem isSymbolicLink_false {loc : Location} (h : isSymbolicLink t loc = false) {node : Node}
    (hnode : t.nodes loc = some node) :
    ∀ absolute target, node ≠ .link absolute target := by
  rintro absolute target rfl
  simp [isSymbolicLink, hnode] at h

theorem toNativeAbsolute_snoc (rootPath : List String) {path : List String} (hpath : path ≠ [])
    {name : String} (hname : isName name = true) :
    toNativeAbsolute rootPath (path ++ [name]) = toNativeAbsolute rootPath path ++ [name] := by
  rw [toNativeAbsolute, toNativeAbsolute, if_neg hpath, if_neg (by simp), ← List.append_assoc,
    resolveNames_append _ (by simpa using hname)]

theorem reached_logical {names : List String} (h : Reached ws t a names) : a.logicalPath ++ names ≠ [] :=
  normalizeRelativePath_ne_nil h.text

/-- The checks of an entry are about the entry, and a directory goes on the stack. -/
theorem visitEntry_ok (hplain : PlainNames t a) {names : List String}
    (hreached : Reached ws t a names) {name : String}
    (hname : name ∈ listing.names (a.canonicalPath ++ names)) {found : Option PendingDirectory}
    (h : visitEntry glob ws t (pendingAt a names) name = .ok found) :
    Passed glob ws t a (names ++ [name]) ∧
      (∀ d, found = some d ↔ d = pendingAt a (names ++ [name]) ∧ Reached ws t a (names ++ [name])) := by
  obtain ⟨hlegal, hslash, hnull⟩ := listing.legal _ name hname
  have hthere := (listing.complete _ name).mp hname
  rw [List.append_assoc] at hthere
  have hback : '\\' ∉ name.toList := hplain (names ++ [name]) ⟨by simp, hthere⟩ name (by simp)
  have htext :
      normalizeRelativePath
      (entryText a (names ++ [name])) false = .ok (a.logicalPath ++ (names ++ [name])) := by
    rw [entryText_snoc, ← List.append_assoc]
    exact normalizeRelativePath_name hreached.text hlegal hslash hback hnull
  obtain ⟨written, hwrite, h⟩ := bind_ok.mp h
  split at h
  · cases h
  split at h
  · cases h
  rename_i hsubtree hlink
  obtain ⟨b, hexisting, h⟩ := bind_ok.mp h
  have hsame : (pendingAt a names).logicalPath ++ "/" ++ name = entryText a (names ++ [name]) :=
    (entryText_snoc _ _).symm
  rw [hsame] at hwrite hsubtree hexisting h
  obtain ⟨hnormal, hreal, hkind⟩ := authorizeExisting_ok hexisting
  have hlogical : a.logicalPath ++ (names ++ [name]) = b.logicalPath :=
    Except.ok.inj (htext.symm.trans hnormal)
  have hplace : (pendingAt a names).canonicalPath ++ [name] = a.canonicalPath ++
    (names ++ [name]) := List.append_assoc ..
  rw [hplace] at hlink
  have hnolink : isSymbolicLink t (a.canonicalPath ++ (names ++ [name])) = false := by simpa using hlink
  obtain ⟨node, hnode⟩ := Option.isSome_iff_exists.mp hthere
  have hresolved : realpath t (toNativeAbsolute ws.rootPath (a.logicalPath ++ (names ++ [name]))) =
      .ok (a.canonicalPath ++ (names ++ [name])) := by
    rw [← List.append_assoc, toNativeAbsolute_snoc _ (reached_logical hreached) hlegal, ← List.append_assoc]
    rw [← List.append_assoc] at hnode
    refine realpath_entry hreached.path hreached.directory hlegal hnode ?_
    exact isSymbolicLink_false hnolink (by rw [← List.append_assoc]; exact hnode)
  have hcanonical : b.canonicalPath = a.canonicalPath ++ (names ++ [name]) := by
    rw [← hlogical, hresolved] at hreal
    exact (Except.ok.inj hreal).symm
  refine ⟨⟨⟨_, hwrite⟩, ⟨b, hexisting, hcanonical⟩, by simpa using hsubtree, hnolink⟩, ?_⟩
  intro d
  rw [hcanonical] at hkind
  obtain rfl : _ = found := Except.ok.inj h
  split_ifs with hdirectory
  · rw [hcanonical]
    constructor
    · rintro hd
      exact ⟨(Option.some.inj hd).symm, htext, hresolved, hkind.mp hdirectory⟩
    · rintro ⟨rfl, -⟩
      rfl
  · constructor
    · rintro hd
      cases hd
    · rintro ⟨-, hreached'⟩
      exact absurd (hkind.mpr hreached'.directory) hdirectory

theorem visitEntries_ok (hplain : PlainNames t a) {names : List String} (hreached : Reached ws t a names)
    {entries : List String} (hentries : ∀ name ∈ entries, name ∈ listing.names (a.canonicalPath ++ names))
    {count count' : ℕ} {stack stack' : List PendingDirectory}
    (h : visitEntries glob ws maxListedFiles t
      (pendingAt a names) entries count stack = .ok (some (count', stack'))) :
    count' = count + entries.length ∧ (∀ name ∈ entries, Passed glob ws t a (names ++ [name])) ∧
      ∀ d, d ∈ stack' ↔ d ∈ stack ∨
        ∃ name ∈ entries, d = pendingAt a (names ++ [name]) ∧ Reached ws t a (names ++ [name]) := by
  induction entries generalizing count stack with
  | nil =>
    cases h
    simp
  | cons name rest ih =>
    rw [visitEntries] at h
    split at h
    · cases h
    obtain ⟨found, hfound, hrest⟩ := bind_ok.mp h
    obtain ⟨hpassed, hd⟩ := visitEntry_ok hplain hreached (hentries name List.mem_cons_self) hfound
    obtain ⟨hcount, hmore, hstack⟩ := ih (fun n hn => hentries n (List.mem_cons_of_mem _ hn)) hrest
    refine ⟨by rw [hcount, List.length_cons]; omega, ?_, ?_⟩
    · intro n hn
      rcases List.mem_cons.mp hn with rfl | hn
      · exact hpassed
      · exact hmore n hn
    · intro d
      rw [hstack, List.mem_append, Option.mem_toList, hd]
      constructor
      · rintro ((⟨hname, hdir⟩ | hbefore) | ⟨n, hn, hfound'⟩)
        · exact .inr ⟨name, List.mem_cons_self, hname, hdir⟩
        · exact .inl hbefore
        · exact .inr ⟨n, List.mem_cons_of_mem _ hn, hfound'⟩
      · rintro (hbefore | ⟨n, hn, hfound'⟩)
        · exact .inl (.inr hbefore)
        · rcases List.mem_cons.mp hn with rfl | hn
          · exact .inl (.inl hfound')
          · exact .inr ⟨n, hn, hfound'⟩

end Steps

section Exploration

variable {glob : String → String → Bool} {ws : ResolvedWorkspace} {t : Tree} {listing : Listing t}
  {maxListedFiles : ℕ} {a : AuthorizedPath}

/-- The entries that are done have passed; a directory among them is on the stack or has been read. -/
structure Explored (glob : String → String → Bool) (ws : ResolvedWorkspace) (listing : Listing t)
    (a : AuthorizedPath) (done : List (List String)) (count : ℕ) (stack : List PendingDirectory) : Prop where
  counted : done.length = count
  passed : ∀ names ∈ done, Passed glob ws t a names
  pending : ∀ d ∈ stack, ∃ names, d = pendingAt a names ∧ Reached ws t a names
  read : ∀ names, names = [] ∨ names ∈ done → t.nodes (a.canonicalPath ++ names) = some .dir →
    pendingAt a names ∈ stack ∨ ∀ name ∈ listing.names (a.canonicalPath ++ names), names ++ [name] ∈ done

theorem pendingAt_injective {names names' : List String}
    (h : pendingAt a names = pendingAt a names') : names = names' :=
  List.append_cancel_left (congrArg PendingDirectory.canonicalPath h)

theorem explored_next (hplain : PlainNames t a) {done : List (List String)} {count count' : ℕ}
    {names : List String} {stack stack' : List PendingDirectory} (hreached : Reached ws t a names)
    (h : Explored glob ws listing a done count (pendingAt a names :: stack))
    (hvisited : visitEntries glob ws maxListedFiles t (pendingAt a names)
      (listing.names (a.canonicalPath ++ names)) count stack =
      .ok (some (count', stack'))) :
    Explored glob ws listing a
      (done ++ (listing.names (a.canonicalPath ++ names)).map (names ++ [·])) count' stack' := by
  obtain ⟨hcount, hpassed, hstack⟩ := visitEntries_ok hplain hreached (fun _ hn => hn) hvisited
  refine ⟨?_, ?_, ?_, ?_⟩
  · rw [List.length_append, List.length_map, h.counted, hcount]
  · intro entry hentry
    rcases List.mem_append.mp hentry with hentry | hentry
    · exact h.passed entry hentry
    · obtain ⟨name, hname, rfl⟩ := List.mem_map.mp hentry
      exact hpassed name hname
  · intro d hd
    rcases (hstack d).mp hd with hbefore | ⟨name, -, hname, hdir⟩
    · exact h.pending d (List.mem_cons_of_mem _ hbefore)
    · exact ⟨_, hname, hdir⟩
  · intro entry hentry hdir
    have hold : entry = [] ∨ entry ∈ done → pendingAt a entry ∈ stack' ∨
        ∀ name ∈ listing.names (a.canonicalPath ++ entry),
          entry ++ [name] ∈ done ++ (listing.names (a.canonicalPath ++ names)).map (names ++ [·]) := by
      intro hdone
      rcases h.read entry hdone hdir with hpending | hread
      · rcases List.mem_cons.mp hpending with hself | hpending
        · right
          intro name hname
          obtain rfl := pendingAt_injective hself
          exact List.mem_append_right _ (List.mem_map_of_mem hname)
        · exact .inl ((hstack _).mpr (.inl hpending))
      · exact .inr fun name hname => List.mem_append_left _ (hread name hname)
    rcases hentry with hroot | hentry
    · exact hold (.inl hroot)
    rcases List.mem_append.mp hentry with hentry | hentry
    · exact hold (.inr hentry)
    · left
      obtain ⟨name, hname, rfl⟩ := List.mem_map.mp hentry
      refine (hstack _).mpr (.inr ⟨name, hname, rfl, ?_⟩)
      obtain ⟨hlegal, hslash, hnull⟩ := listing.legal _ name hname
      have hthere : IsEntry t a.canonicalPath (names ++ [name]) := ⟨by simp, by rw [hdir]; rfl⟩
      have hback : '\\' ∉ name.toList := hplain _ hthere name (by simp)
      refine ⟨?_, ?_, hdir⟩
      · rw [entryText_snoc, ← List.append_assoc]
        exact normalizeRelativePath_name hreached.text hlegal hslash hback hnull
      · rw [← List.append_assoc,
          toNativeAbsolute_snoc _ (reached_logical hreached) hlegal, ← List.append_assoc]
        rw [← List.append_assoc] at hdir
        exact realpath_entry hreached.path hreached.directory hlegal hdir (by simp)

theorem walk_explored (hplain : PlainNames t a) {fuel count : ℕ} {stack : List PendingDirectory}
    {done : List (List String)} (h : Explored glob ws listing a done count stack)
    (hroom : count ≤ maxListedFiles)
    (hwalk : walk glob ws listing maxListedFiles fuel count stack = some (.ok true)) :
    ∃ done' count', count' ≤ maxListedFiles ∧ Explored glob ws listing a done' count' [] := by
  induction fuel generalizing count stack done with
  | zero => cases hwalk
  | succ fuel ih =>
    cases stack with
    | nil => exact ⟨done, count, hroom, h⟩
    | cons current stack =>
      obtain ⟨names, rfl, hreached⟩ := h.pending current List.mem_cons_self
      have hread :
          readdir listing
          (pendingAt a names).canonicalPath = .ok (listing.names (a.canonicalPath ++ names)) := by
        have hdir : t.nodes (pendingAt a names).canonicalPath = some .dir := hreached.directory
        rw [readdir, hdir]
        rfl
      rw [walk, hread] at hwalk
      split at hwalk
      · cases hwalk
      · cases hwalk
      · rename_i count' stack' hvisited
        have hentries : visitEntries glob ws maxListedFiles t (pendingAt a names)
            (listing.names (a.canonicalPath ++ names)) count stack = .ok (some (count', stack')) := hvisited
        exact ih (explored_next hplain hreached h hentries) ((visitEntries_measure hentries).2.1 hroom) hwalk

/-- With an empty stack everything below the directory is done. -/
theorem explored_all {done : List (List String)} {count : ℕ}
    (h : Explored glob ws listing a done count []) {names : List String}
    (hentry : IsEntry t a.canonicalPath names) : names ∈ done := by
  induction names using List.reverseRecOn with
  | nil => exact absurd rfl hentry.1
  | append_singleton names name ih =>
    have hthere := hentry.2
    rw [← List.append_assoc] at hthere
    have hdir := t.parents _ _ hthere
    have hdone : names = [] ∨ names ∈ done := by
      by_cases hnil : names = []
      · exact .inl hnil
      · exact .inr (ih ⟨hnil, by rw [hdir]; rfl⟩)
    rcases h.read names hdone hdir with hpending | hread
    · cases hpending
    · exact hread name ((listing.complete _ name).mpr hthere)

theorem covered_of_plain (hplain : PlainNames t a)
    (hexisting : authorizeExisting glob ws t (portable a.logicalPath) none false none = .ok a)
    (hdirectory : a.kind = .directory)
    (htrue : authorizeMutableTree glob ws listing maxListedFiles
      ⟨portable a.logicalPath, some a.kind, some a.canonicalPath⟩ =
      some (.ok true)) : Covered glob ws t maxListedFiles a := by
  obtain ⟨htext, hreal, hkind⟩ := authorizeExisting_ok hexisting
  have hroot : Reached ws t a [] := by
    refine ⟨?_, ?_, ?_⟩
    · rw [List.append_nil]
      exact htext
    · rw [List.append_nil, List.append_nil]
      exact hreal
    · rw [List.append_nil]
      exact hkind.mp hdirectory
  have hstart : Explored glob ws listing a [] 0 [pendingAt a []] := by
    refine ⟨rfl, by simp, ?_, ?_⟩
    · intro d hd
      exact ⟨[], List.mem_singleton.mp hd, hroot⟩
    · rintro names (rfl | hnames) -
      · exact .inl List.mem_cons_self
      · cases hnames
  have hwalk : walk glob ws listing maxListedFiles (maxListedFiles + 2) 0 [pendingAt a []] =
      some (.ok true) := by
    rw [hdirectory] at htrue
    rw [pendingAt, List.append_nil]
    exact htrue
  obtain ⟨done, count, hroom, hexplored⟩ := walk_explored hplain hstart (Nat.zero_le _) hwalk
  refine ⟨fun names hentry => hexplored.passed names (explored_all hexplored hentry), ?_⟩
  have hsubset : {names | IsEntry t a.canonicalPath names} ⊆ (done.toFinset : Set (List String)) := by
    intro names hentry
    simpa using explored_all hexplored hentry
  calc {names | IsEntry t a.canonicalPath names}.encard ≤
    (done.toFinset : Set (List String)).encard := Set.encard_le_encard hsubset
    _ = done.toFinset.card := Set.encard_coe_eq_coe_finsetCard _
    _ ≤ done.length := by exact_mod_cast List.toFinset_card_le done
    _ ≤ maxListedFiles := by exact_mod_cast hexplored.counted.le.trans hroom

end Exploration

section Backslashes

variable {glob : String → String → Bool} {ws : ResolvedWorkspace} {t : Tree} {listing : Listing t}
  {maxListedFiles : ℕ} {a : AuthorizedPath}

theorem toNativeAbsolute_append (rootPath : List String) {path : List String} (hpath : path ≠ [])
    {names : List String} (hnames : ∀ name ∈ names, isName name = true) :
    toNativeAbsolute rootPath (path ++ names) = toNativeAbsolute rootPath path ++ names := by
  rw [toNativeAbsolute, toNativeAbsolute, if_neg hpath, if_neg (by simp [hpath]), ← List.append_assoc,
    resolveNames_append _ hnames]

theorem entry_legal (listing : Listing t) {base : Location} {names : List String}
    (h : (t.nodes (base ++ names)).isSome = true) : ∀ name ∈ names, '\x00' ∉ name.toList := by
  induction names using List.reverseRecOn with
  | nil => simp
  | append_singleton names name ih =>
    rw [← List.append_assoc] at h
    have hdir := t.parents _ _ h
    intro n hn
    rcases List.mem_append.mp hn with hn | hn
    · exact ih (by rw [hdir]; rfl) n hn
    · rw [List.mem_singleton.mp hn]
      exact (listing.legal _ name ((listing.complete _ name).mpr h)).2.2

theorem plain_of_covered (listing : Listing t)
    (hexisting : authorizeExisting glob ws t (portable a.logicalPath) none false none = .ok a)
    (hcovered : Covered glob ws t maxListedFiles a) : PlainNames t a := by
  intro names hentry name hname
  obtain ⟨b, hb, hcanonical⟩ := (hcovered.passed names hentry).existing
  obtain ⟨htext, hreal, -⟩ := authorizeExisting_ok hexisting
  obtain ⟨hbtext, hbreal, -⟩ := authorizeExisting_ok hb
  obtain ⟨rest, hrest⟩ := normalizeRelativePath_below htext (entry_legal listing hentry.2) hbtext
  have hplain := normalizeRelativePath_plain hbtext
  have hnames := normalizeRelativePath_names hbtext
  rw [← hrest] at hplain hnames hbreal
  have hlegal : ∀ n ∈ rest, isName n = true := fun n hn => hnames n (List.mem_append_right _ hn)
  rw [toNativeAbsolute_append _ (normalizeRelativePath_ne_nil htext) hlegal] at hbreal
  have hlinks : ∀ above name, above ++ [name] <+: rest → ∀ absolute target,
      t.nodes (a.canonicalPath ++ above ++ [name]) ≠ some (.link absolute target) := by
    intro above name _ absolute target hnode
    rw [List.append_assoc] at hnode
    exact isSymbolicLink_false (hcovered.passed _ ⟨by simp, by rw [hnode]; rfl⟩).link hnode absolute
      target rfl
  have hplace := realpath_straight hreal hlegal hlinks hbreal
  rw [hcanonical, List.append_cancel_left_eq] at hplace
  rw [hplace] at hname
  exact (hplain name (List.mem_append_right _ hname)).2

end Backslashes

/-- The walk ends, and where it returns true, it has covered the tree exactly if no name has a backslash. -/
theorem authorizeMutableTree_covers (glob : String → String → Bool) (ws : ResolvedWorkspace)
    (t : Tree) (listing : Listing t) (maxListedFiles : ℕ) (a : AuthorizedPath)
    (hexisting : authorizeExisting glob ws t (portable a.logicalPath) none false none = .ok a)
    (hdirectory : a.kind = .directory) :
    ∃ result, authorizeMutableTree glob ws listing maxListedFiles
      ⟨portable a.logicalPath, some a.kind, some a.canonicalPath⟩ =
        some result ∧
      (result = .ok true → (Covered glob ws t maxListedFiles a ↔ PlainNames t a)) := by
  obtain ⟨result, hresult⟩ : ∃ result, authorizeMutableTree glob ws listing maxListedFiles
      ⟨portable a.logicalPath, some a.kind, some a.canonicalPath⟩ = some result :=
        authorizeMutableTree_terminates _
  refine ⟨result, hresult, ?_⟩
  rintro rfl
  exact ⟨plain_of_covered listing hexisting, fun hplain =>
    covered_of_plain hplain hexisting hdirectory hresult⟩

section Aliased

/-- The listing of a tree whose entries are known. -/
def listingOf (t : Tree) (entries : List Location)
    (hentries : ∀ loc name, loc ++ [name] ∈ entries ↔ (t.nodes (loc ++ [name])).isSome = true)
    (hlegal : ∀ entry ∈ entries, ∀ name ∈ entry, isName name = true ∧ '/' ∉ name.toList ∧
      '\x00' ∉ name.toList) :
    Listing t where
  names loc := entries.filterMap fun entry => if entry.dropLast = loc then entry.getLast? else none
  complete loc name := by
    rw [← hentries, List.mem_filterMap]
    constructor
    · rintro ⟨entry, hentry, hname⟩
      split_ifs at hname with hloc
      obtain ⟨above, rfl⟩ := List.getLast?_eq_some_iff.mp hname
      rw [List.dropLast_concat] at hloc
      exact hloc ▸ hentry
    · intro hentry
      exact ⟨_, hentry, by simp⟩
  legal loc name hname := by
    obtain ⟨entry, hentry, hname⟩ := List.mem_filterMap.mp hname
    split_ifs at hname
    exact hlegal entry hentry name (List.mem_of_getLast? hname)

/-- `/w/d` has a directory `a\b`, with a link in it, beside the directory `a`, with a file `b` in it. -/
def slashedTree : Tree :=
  let start := workspaceTree.set ["w"] "d" (some .dir) workspace_dir (by decide)
  let slashed := start.set ["w", "d"] "a\\b" (some .dir) (by decide +kernel) (by decide +kernel)
  let plain := slashed.set ["w", "d"] "a" (some .dir) (by decide +kernel) (by decide +kernel)
  let file := plain.set ["w", "d", "a"] "b" (some (.file "text")) (by decide +kernel) (by decide +kernel)
  file.set ["w", "d", "a\\b"] "up" (some (.link true [])) (by decide +kernel) (by decide +kernel)

def slashedListing : Listing slashedTree :=
  listingOf slashedTree [["w"], ["w", "d"], ["w", "d", "a\\b"], ["w", "d", "a"],
    ["w", "d", "a", "b"], ["w", "d", "a\\b", "up"]]
    (by
      intro loc name
      generalize hentry : loc ++ [name] = entry
      have hne : entry ≠ [] := by rw [← hentry]; simp
      simp only [slashedTree, workspaceTree, Tree.set, Tree.empty, Function.update_apply,
        List.nil_append, List.cons_append, hne, if_false]
      split_ifs <;> simp_all)
    (by decide +kernel)

def slashedStart : AuthorizedPath := ⟨["d"], ["w", "d"], ["w", "d"], ["d"], .directory⟩

/-- The link is not seen, and the directory may be removed. -/
theorem slashed_link_unseen :
    authorizeExisting (fun _ _ => false) openWorkspace slashedTree "d" none false none = .ok slashedStart ∧
      authorizeMutableTree (fun _ _ => false) openWorkspace slashedListing 100
        ⟨"d", some .directory, some ["w", "d"]⟩ =
        some (.ok true) ∧
      slashedTree.nodes ["w", "d", "a\\b", "up"] = some (.link true []) ∧
      ¬ Covered (fun _ _ => false) openWorkspace slashedTree 100 slashedStart := by
  have hrun : authorizeExisting (fun _ _ => false) openWorkspace slashedTree "d" none false
    none = .ok slashedStart ∧
      authorizeMutableTree (fun _ _ => false) openWorkspace slashedListing 100
        ⟨"d", some .directory, some ["w", "d"]⟩ =
        some (.ok true) ∧
      slashedTree.nodes ["w", "d", "a\\b", "up"] = some (.link true []) := by decide +kernel
  obtain ⟨hstart, hauthorized, hlink⟩ := hrun
  refine ⟨hstart, hauthorized, hlink, ?_⟩
  intro hcovered
  have hpassed := (hcovered.passed ["a\\b", "up"] ⟨by simp, by rw [slashedStart]; simp [hlink]⟩).link
  rw [slashedStart] at hpassed
  simp [isSymbolicLink, hlink] at hpassed

/-- Where the entries of a tree are known, its names are plain if theirs are. -/
theorem plain_of_entries {t : Tree} {a : AuthorizedPath} {entries : List Location}
    (hentries : ∀ loc name, loc ++ [name] ∈ entries ↔ (t.nodes (loc ++ [name])).isSome = true)
    (hplain : ∀ entry ∈ entries, ∀ name ∈ entry, '\\' ∉ name.toList) : PlainNames t a := by
  rintro names ⟨hne, hsome⟩ name hname
  obtain ⟨above, last, rfl⟩ := (List.eq_nil_or_concat' names).resolve_left hne
  rw [← List.append_assoc] at hsome
  have hentry := (hentries _ _).mpr hsome
  rw [List.append_assoc] at hentry
  exact hplain _ hentry name (List.mem_append_right _ hname)

/-- `/w/d` has a directory `a` with a file `b` in it, and nothing else. -/
def plainTree : Tree :=
  let start := workspaceTree.set ["w"] "d" (some .dir) workspace_dir (by decide)
  let plain := start.set ["w", "d"] "a" (some .dir) (by decide +kernel) (by decide +kernel)
  plain.set ["w", "d", "a"] "b" (some (.file "text")) (by decide +kernel) (by decide +kernel)

def plainEntries : List Location := [["w"], ["w", "d"], ["w", "d", "a"], ["w", "d", "a", "b"]]

theorem plainTree_entries (loc : Location) (name : String) :
    loc ++ [name] ∈ plainEntries ↔ (plainTree.nodes (loc ++ [name])).isSome = true := by
  generalize hentry : loc ++ [name] = entry
  have hne : entry ≠ [] := by rw [← hentry]; simp
  simp only [plainEntries, plainTree, workspaceTree, Tree.set, Tree.empty, Function.update_apply,
    List.nil_append, List.cons_append, hne, if_false]
  split_ifs <;> simp_all

def plainListing : Listing plainTree := listingOf plainTree plainEntries plainTree_entries (by decide +kernel)

/-- A tree with plain names is covered; of the other one nothing is promised. -/
theorem slashed_terminates :
    authorizeMutableTree (fun _ _ => false) openWorkspace plainListing 100
        ⟨portable ["d"], some .directory, some ["w", "d"]⟩ = some (.ok true) ∧
    Covered (fun _ _ => false) openWorkspace plainTree 100 slashedStart ∧
    ∃ result, authorizeMutableTree (fun _ _ => false) openWorkspace slashedListing 100
        ⟨portable ["d"], some .directory, some ["w", "d"]⟩ = some result ∧
      (result = .ok true → (Covered (fun _ _ => false) openWorkspace slashedTree 100 slashedStart ↔
        PlainNames slashedTree slashedStart)) := by
  have hrun : authorizeExisting (fun _ _ => false) openWorkspace plainTree
    (portable ["d"]) none false none = .ok slashedStart ∧
      authorizeExisting (fun _ _ => false) openWorkspace slashedTree
        (portable ["d"]) none false none = .ok slashedStart ∧
      authorizeMutableTree (fun _ _ => false) openWorkspace plainListing 100
        ⟨portable ["d"], some .directory, some ["w", "d"]⟩ = some (.ok true) := by decide +kernel
  obtain ⟨hplain, hslashed, htrue⟩ := hrun
  obtain ⟨result, hresult, hcovered⟩ :=
    authorizeMutableTree_covers (fun _ _ => false) openWorkspace plainTree plainListing 100
      slashedStart hplain rfl
  have hok : result = .ok true := Option.some.inj (hresult.symm.trans htrue)
  have hnames : PlainNames plainTree slashedStart := plain_of_entries plainTree_entries (by decide +kernel)
  exact ⟨htrue, (hcovered hok).mpr hnames,
    authorizeMutableTree_covers (fun _ _ => false) openWorkspace slashedTree slashedListing 100
      slashedStart hslashed rfl⟩

end Aliased

end AccessStack.Files
