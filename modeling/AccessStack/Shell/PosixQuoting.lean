import AccessStack.Shell.Quoting

/-!
# Words that are quoted for a POSIX shell

A word in single quotes, with each quote in it written outside of them after a
backslash, is read back as it was. The loop that looks for metacharacters and
the one that builds the words are in the same quotes at every character.
-/

set_option autoImplicit false

namespace AccessStack.Shell.Commands
open AccessStack.Units AccessStack.Shell

section Halves

/-- The halves of a pair are no quotes, blanks or metacharacters. -/
structure Ordinary (u : UInt16) : Prop where
  quote : u ≠ quoteMark
  double : u ≠ doubleMark
  slash : u ≠ backslash
  blank : isBlank u = false
  metacharacter : posixMetacharacter u = false

theorem ordinary_of_bounds {u : UInt16} (h : 0xd800 ≤ u.toNat ∧ u.toNat ≤ 0xdfff) : Ordinary u := by
  have hne : ∀ v : UInt16, v.toNat < 0xd800 ∨ 0xdfff < v.toNat → u ≠ v := by
    rintro v hv rfl
    omega
  refine ⟨hne _ (by decide), hne _ (by decide), hne _ (by decide), ?_, ?_⟩
  · have hrange : ¬ u ≤ 0x200a := by
      rw [UInt16.le_iff_toNat_le]
      show ¬ u.toNat ≤ 0x200a
      omega
    simp only [isBlank, List.contains_cons, List.contains_nil, Bool.or_false, Bool.or_eq_false_iff,
      beq_eq_false_iff_ne, hrange, decide_false, Bool.and_false]
    and_intros <;> exact hne _ (by decide)
  · simp only [posixMetacharacter, among, List.any_cons, List.any_nil, Bool.or_false, Bool.or_eq_false_iff,
      beq_eq_false_iff_ne]
    have hsmall : ∀ n : ℕ, n < 0xd800 → u.toNat ≠ n := by omega
    and_intros <;> exact hsmall _ (by decide)

theorem high_ordinary {u : UInt16} (h : isHigh u = true) : Ordinary u := by
  simp only [isHigh, Bool.and_eq_true, decide_eq_true_eq, UInt16.le_iff_toNat_le] at h
  have hbounds : 0xd800 ≤ u.toNat ∧ u.toNat ≤ 0xdbff := h
  exact ordinary_of_bounds (by omega)

theorem low_ordinary {u : UInt16} (h : isLow u = true) : Ordinary u := by
  simp only [isLow, Bool.and_eq_true, decide_eq_true_eq, UInt16.le_iff_toNat_le] at h
  have hbounds : 0xdc00 ≤ u.toNat ∧ u.toNat ≤ 0xdfff := h
  exact ordinary_of_bounds (by omega)

theorem tokenize_escaped {s : Tokenizer} (h : s.escaped = true) (character : Text) :
    tokenizeStep .posix s character = { s with words := s.words.add character, escaped := false } := by
  simp [tokenizeStep, h]

theorem scan_escaped {s : Scan} (hfound : s.found = false) (h : s.escaped = true) (character : Text) :
    scanStep posixMetacharacter .posix s character = { s with escaped := false } := by
  simp [scanStep, hfound, h]

theorem tokenize_ordinary {u : UInt16} (h : Ordinary u) {s : Tokenizer} (hescaped : s.escaped = false) :
    tokenizeStep .posix s [u] = { s with words := s.words.add [u] } := by
  simp [tokenizeStep, hescaped, h.quote, h.double, h.slash, h.blank]

theorem tokenizeStep_pair (s : Tokenizer) (u v : UInt16) (hu : isHigh u = true) (hv : isLow v = true) :
    tokenizeStep .posix s [u, v] = tokenizeStep .posix (tokenizeStep .posix s [u]) [v] := by
  have hfirst := high_ordinary hu
  have hsecond := low_ordinary hv
  cases hescaped : s.escaped with
  | true =>
    rw [tokenize_escaped hescaped, tokenize_escaped hescaped, tokenize_ordinary hsecond rfl]
    simp [Words.add]
  | false =>
    have hnext : Tokenizer.escaped { s with words := s.words.add [u] } = false := hescaped
    rw [tokenize_ordinary hfirst hescaped, tokenize_ordinary hsecond hnext]
    simp [tokenizeStep, hescaped, hfirst.blank, hsecond.blank, Words.add]

theorem scan_ordinary {u : UInt16} (h : Ordinary u) {s : Scan} (hescaped : s.escaped = false) :
    scanStep posixMetacharacter .posix s [u] = s := by
  simp [scanStep, hescaped, h.quote, h.double, h.slash, h.metacharacter]

theorem scanStep_pair (s : Scan) (u v : UInt16) (hu : isHigh u = true) (hv : isLow v = true) :
    scanStep posixMetacharacter .posix s [u, v] =
      scanStep posixMetacharacter .posix (scanStep posixMetacharacter .posix s [u]) [v] := by
  have hfirst := high_ordinary hu
  have hsecond := low_ordinary hv
  cases hfound : s.found with
  | true => simp [scanStep, hfound]
  | false =>
    cases hescaped : s.escaped with
    | true => rw [scan_escaped hfound hescaped, scan_escaped hfound hescaped, scan_ordinary hsecond rfl]
    | false =>
      rw [scan_ordinary hfirst hescaped, scan_ordinary hsecond hescaped]
      simp [scanStep, hescaped, hfirst.metacharacter, hsecond.metacharacter]

end Halves

section Rendered

/-- A quote in a word: the quotes are closed, an escaped one follows, and they are opened again. -/
def requoted (word : Text) : Text :=
  word.flatMap fun u => if u = quoteMark then [quoteMark, backslash, quoteMark, quoteMark] else [u]

def posixQuoted (word : Text) : Text := quoteMark :: requoted word ++ [quoteMark]

def tokenizeUnits (s : Tokenizer) (us : Text) : Tokenizer := us.foldl (fun s u => tokenizeStep .posix s [u]) s

def scanUnits (s : Scan) (us : Text) : Scan :=
  us.foldl (fun s u => scanStep posixMetacharacter .posix s [u]) s

theorem tokenizing_units (us : Text) :
    tokenizing .posix (characters us) = tokenizeUnits ⟨noWords, none, false⟩ us :=
  foldl_characters tokenizeStep_pair us _

theorem scan_units (us : Text) :
    scan posixMetacharacter .posix (characters us) = scanUnits ⟨none, false, false⟩ us :=
  foldl_characters scanStep_pair us _

theorem tokenizeUnits_append (s : Tokenizer) (us vs : Text) :
    tokenizeUnits s (us ++ vs) = tokenizeUnits (tokenizeUnits s us) vs := List.foldl_append

theorem scanUnits_append (s : Scan) (us vs : Text) : scanUnits s (us ++ vs) = scanUnits (scanUnits s us) vs :=
  List.foldl_append

/-- Inside of the quotes the word is taken over, and afterwards they are still open. -/
theorem tokenize_requoted (word : Text) (tokens : List Text) (token : Text) :
    tokenizeUnits ⟨⟨tokens, token, true⟩, some .single, false⟩ (requoted word) =
      ⟨⟨tokens, token ++ word, true⟩, some .single, false⟩ := by
  induction word generalizing token with
  | nil => simp [requoted, tokenizeUnits]
  | cons u word ih =>
    have hstep : tokenizeUnits ⟨⟨tokens, token, true⟩, some .single, false⟩
        (if u = quoteMark then [quoteMark, backslash, quoteMark, quoteMark] else [u]) =
        ⟨⟨tokens, token ++ [u], true⟩, some .single, false⟩ := by
      by_cases hu : u = quoteMark
      · subst hu
        rfl
      · rw [if_neg hu]
        simp [tokenizeUnits, tokenizeStep, hu, Words.add]
    have hsplit : requoted (u :: word) =
        (if u = quoteMark then [quoteMark, backslash, quoteMark, quoteMark] else [u]) ++ requoted word := rfl
    rw [hsplit, tokenizeUnits_append, hstep, ih]
    simp

theorem scan_requoted (word : Text) :
    scanUnits ⟨some .single, false, false⟩ (requoted word) = ⟨some .single, false, false⟩ := by
  induction word with
  | nil => rfl
  | cons u word ih =>
    have hstep : scanUnits ⟨some .single, false, false⟩
        (if u = quoteMark then [quoteMark, backslash, quoteMark, quoteMark] else [u]) =
        ⟨some .single, false, false⟩ := by
      by_cases hu : u = quoteMark
      · subst hu
        rfl
      · rw [if_neg hu]
        simp [scanUnits, scanStep, hu]
    have hsplit : requoted (u :: word) =
        (if u = quoteMark then [quoteMark, backslash, quoteMark, quoteMark] else [u]) ++ requoted word := rfl
    rw [hsplit, scanUnits_append, hstep, ih]

theorem tokenize_quoted (word : Text) (tokens : List Text) :
    tokenizeUnits ⟨⟨tokens, [], false⟩, none, false⟩ (posixQuoted word) =
      ⟨⟨tokens, word, true⟩, none, false⟩ := by
  show tokenizeUnits ⟨⟨tokens, [], true⟩, some .single, false⟩ (requoted word ++ [quoteMark]) = _
  rw [tokenizeUnits_append, tokenize_requoted]
  rfl

theorem scan_quoted (word : Text) :
    scanUnits ⟨none, false, false⟩ (posixQuoted word) = ⟨none, false, false⟩ := by
  show scanUnits ⟨some .single, false, false⟩ (requoted word ++ [quoteMark]) = _
  rw [scanUnits_append, scan_requoted]
  rfl

theorem joinWords_cons {word : Text} {words : List Text} (h : words ≠ []) :
    joinWords (word :: words) = word ++ space :: joinWords words := by
  rw [joinWords, List.intercalate_cons_of_ne_nil h]
  simp [joinWords]

theorem tokenize_words {words : List Text} (hne : words ≠ []) (tokens : List Text) :
    ∃ w, tokenizeUnits ⟨⟨tokens, [], false⟩, none, false⟩ (joinWords (words.map posixQuoted)) =
      ⟨w, none, false⟩ ∧
      w.flush.tokens = tokens ++ words := by
  induction words generalizing tokens with
  | nil => exact absurd rfl hne
  | cons word words ih =>
    by_cases hlast : words = []
    · subst hlast
      refine ⟨⟨tokens, word, true⟩, ?_, by simp [Words.flush]⟩
      rw [joinWords, List.map_singleton, List.intercalate_singleton]
      exact tokenize_quoted word tokens
    · obtain ⟨w, hrest, htokens⟩ := ih hlast (tokens ++ [word])
      refine ⟨w, ?_, by rw [htokens]; simp⟩
      rw [List.map_cons, joinWords_cons (by simpa using hlast), tokenizeUnits_append, tokenize_quoted]
      exact hrest

theorem scan_posixWords (words : List Text) :
    scanUnits ⟨none, false, false⟩ (joinWords (words.map posixQuoted)) = ⟨none, false, false⟩ := by
  induction words with
  | nil => rfl
  | cons word words ih =>
    by_cases hlast : words = []
    · subst hlast
      rw [joinWords, List.map_singleton, List.intercalate_singleton]
      exact scan_quoted word
    · rw [List.map_cons, joinWords_cons (by simpa using hlast), scanUnits_append, scan_quoted]
      exact ih

theorem joinWords_quoted (word : Text) (words : List Text) :
    ∃ middle, joinWords ((word :: words).map posixQuoted) = quoteMark :: middle ++ [quoteMark] := by
  induction words generalizing word with
  | nil =>
    refine ⟨requoted word, ?_⟩
    rw [joinWords, List.map_singleton, List.intercalate_singleton]
    rfl
  | cons next words ih =>
    obtain ⟨middle, hmiddle⟩ := ih next
    refine ⟨requoted word ++ quoteMark :: space :: quoteMark :: middle, ?_⟩
    rw [List.map_cons, joinWords_cons (by simp), hmiddle]
    simp [posixQuoted]

theorem trim_quoted {text middle : Text} (h : text = quoteMark :: middle ++ [quoteMark]) :
    trim text = text := by
  subst h
  apply trim_eq_self
  · intro u hu
    have hmark : u = quoteMark := by simpa [eq_comm] using hu
    rw [hmark, quoteMark_notBlank]
  · intro u hu
    have hmark : u = quoteMark := by
      rw [List.getLast?_append] at hu
      simpa [eq_comm] using hu
    rw [hmark, quoteMark_notBlank]

/-- Quoted words are read back as they were. -/
theorem analyze_quoted (shell : ShellName) {executable : Text} (argv : List Text) (hne : executable ≠ []) :
    analyzeLexicalCommand shell (joinWords ((executable :: argv).map posixQuoted)) posixMetacharacter .posix =
      argvAnalysis shell executable argv := by
  obtain ⟨middle, hmiddle⟩ := joinWords_quoted executable argv
  obtain ⟨w, htokens, hwords⟩ := tokenize_words (List.cons_ne_nil executable argv) []
  have hscan := scan_posixWords (executable :: argv)
  have htrim := trim_quoted hmiddle
  generalize joinWords ((executable :: argv).map posixQuoted) = text at *
  have hlength : text.length ≠ 0 := by simp [hmiddle]
  have hrun : tokenizing .posix (characters text) = ⟨w, none, false⟩ := by
    rw [tokenizing_units]
    exact htokens
  have htokenize : tokenize text .posix = .ok (executable :: argv) := by simp [tokenize, hrun, hwords]
  have hfound : containsUnquoted text posixMetacharacter .posix = false := by
    rw [containsUnquoted, scan_units, hscan]
  simp only [analyzeLexicalCommand, htrim, htokenize, hfound]
  rw [if_neg hlength]
  simp [hne]

end Rendered

section Agreement

/-- The two loops are in the same quotes while no metacharacter has been found. -/
def Agree (s : Scan) (t : Tokenizer) : Prop := s.found = false → s.quote = t.quote ∧ s.escaped = t.escaped

theorem found_stays (s : Scan) (character : Text) (h : s.found = true) :
    scanStep posixMetacharacter .posix s character = s := by
  simp [scanStep, h]

theorem agree_step {s : Scan} {t : Tokenizer} (h : Agree s t) (character : Text) :
    Agree (scanStep posixMetacharacter .posix s character) (tokenizeStep .posix t character) := by
  intro hfound
  have hbefore : s.found = false := by
    by_contra hne
    rw [found_stays s character (by simpa using hne)] at hfound
    exact hne hfound
  obtain ⟨hquote, hescaped⟩ := h hbefore
  obtain ⟨quote, escaped, found⟩ := s
  obtain ⟨words, quote', escaped'⟩ := t
  change quote = quote' at hquote
  change escaped = escaped' at hescaped
  subst hquote hescaped
  revert hfound
  unfold scanStep tokenizeStep
  split_ifs <;> simp_all

theorem agree_run (before : List Text) :
    Agree (scan posixMetacharacter .posix before) (tokenizing .posix before) := by
  unfold scan tokenizing
  have hrun : ∀ (s : Scan) (t : Tokenizer), Agree s t →
      Agree (before.foldl (scanStep posixMetacharacter .posix) s) (before.foldl (tokenizeStep .posix) t) := by
    induction before with
    | nil => exact fun s t h => h
    | cons character before ih => exact fun s t h => ih _ _ (agree_step h character)
  exact hrun _ _ fun _ => ⟨rfl, rfl⟩

theorem metacharacter_plain {character : Text} (h : character.any posixMetacharacter = true) :
    character ≠ [backslash] ∧ character ≠ [quoteMark] ∧ character ≠ [doubleMark] := by
  refine ⟨?_, ?_, ?_⟩ <;> rintro rfl <;> revert h <;> decide

theorem found_run {s : Scan} (h : s.found = true) (after : List Text) :
    after.foldl (scanStep posixMetacharacter .posix) s = s := by
  induction after with
  | nil => rfl
  | cons character after ih => rw [List.foldl_cons, found_stays s character h, ih]

/-- Where the whole text has no metacharacter, no part of it has one outside of quotes and escapes. -/
theorem not_found {before after : List Text} {character : Text}
    (h : (scan posixMetacharacter .posix (before ++ character :: after)).found = false) :
    (scan posixMetacharacter .posix before).found = false ∧
      (character.any posixMetacharacter = true →
        (scan posixMetacharacter .posix before).quote ≠ none ∨
        (scan posixMetacharacter .posix before).escaped = true) := by
  have hsplit : scan posixMetacharacter .posix (before ++ character :: after) =
      after.foldl (scanStep posixMetacharacter .posix)
        (scanStep posixMetacharacter .posix (scan posixMetacharacter .posix before) character) := by
    simp [scan, List.foldl_append]
  rw [hsplit] at h
  have hnext :
      (scanStep posixMetacharacter .posix (scan posixMetacharacter .posix before) character).found =
      false := by
    by_contra hne
    rw [found_run (by simpa using hne)] at h
    exact hne h
  have hbefore : (scan posixMetacharacter .posix before).found = false := by
    by_contra hne
    rw [found_stays _ character (by simpa using hne)] at hnext
    exact hne hnext
  refine ⟨hbefore, ?_⟩
  intro hmeta
  by_contra hplain
  rw [not_or, not_not, Bool.not_eq_true] at hplain
  obtain ⟨hslash, hquote, hdouble⟩ := metacharacter_plain hmeta
  simp [scanStep, hbefore, hplain.1, hplain.2, hslash, hquote, hdouble, hmeta] at hnext

theorem argv_scan {shell : ShellName} {command : Text} {executable : Text} {argv : List Text}
    (h : (analyzeLexicalCommand shell command posixMetacharacter .posix).execution =
      some (.argv executable argv)) :
    (scan posixMetacharacter .posix (characters (trim command))).found = false := by
  by_contra hfound
  have hcontains : containsUnquoted (trim command) posixMetacharacter .posix = true := by
    simpa [containsUnquoted] using hfound
  revert h
  unfold analyzeLexicalCommand
  simp only [hcontains, if_true]
  split_ifs
  · simp [invalidAnalysis]
  · split <;> simp [invalidAnalysis]

def posixShell : ShellName → Bool
  | .powershell | .pwsh | .cmd => false
  | .sh | .bash | .wsl | .gitBash => true

theorem posix_analysis {shell : ShellName} (h : posixShell shell = true) (command : Text) :
    analyzeSimpleShellCommand shell command =
      some (analyzeLexicalCommand shell command posixMetacharacter .posix) := by
  cases shell <;> first | rfl | cases h

/-- Quoted words are read back, and a trimmed command that is taken as words has its
metacharacters in quotes or
behind a backslash, where both loops see them. -/
theorem posix_exact :
    (∀ (executable : Text) (argv : List Text), executable ≠ [] →
      analyzeSimpleShellCommand .bash (joinWords ((executable :: argv).map posixQuoted)) =
        some (argvAnalysis .bash executable argv)) ∧
    (∀ (shell : ShellName) (command : Text) (analysis : ShellCommandAnalysis) (executable : Text)
      (argv : List Text),
      posixShell shell = true → analyzeSimpleShellCommand shell command = some analysis →
      analysis.execution = some (.argv executable argv) →
      ∀ before character after, characters (trim command) = before ++ character :: after →
        (scan posixMetacharacter .posix before).quote = (tokenizing .posix before).quote ∧
        (scan posixMetacharacter .posix before).escaped = (tokenizing .posix before).escaped ∧
        (character.any posixMetacharacter = true →
          (tokenizing .posix before).quote ≠ none ∨ (tokenizing .posix before).escaped = true)) := by
  constructor
  · intro executable argv hne
    rw [posix_analysis rfl, analyze_quoted .bash argv hne]
  · intro shell command analysis executable argv hshell hanalysis hargv before character after hsplit
    rw [posix_analysis hshell, Option.some_inj] at hanalysis
    subst hanalysis
    have hfound := argv_scan hargv
    rw [hsplit] at hfound
    obtain ⟨hbefore, hmeta⟩ := not_found hfound
    obtain ⟨hquote, hescaped⟩ := agree_run before hbefore
    rw [hquote, hescaped] at hmeta
    exact ⟨hquote, hescaped, hmeta⟩

theorem posix_exact_sample :
    analyzeSimpleShellCommand .bash (joinWords (([0x61, 0x27, 0x62] :: [[], [0x20, 0x24]]).map posixQuoted)) =
      some (argvAnalysis .bash [0x61, 0x27, 0x62] [[], [0x20, 0x24]]) ∧
    ((scan posixMetacharacter .posix []).quote = (tokenizing .posix []).quote ∧
      (scan posixMetacharacter .posix []).escaped = (tokenizing .posix []).escaped ∧
      (([0x6c] : Text).any posixMetacharacter = true →
        (tokenizing .posix []).quote ≠ none ∨ (tokenizing .posix []).escaped = true)) :=
  ⟨posix_exact.1 [0x61, 0x27, 0x62] _ (by decide),
    posix_exact.2 .bash [0x6c, 0x73] (argvAnalysis .bash [0x6c, 0x73] []) [0x6c, 0x73] [] rfl
      (by decide +kernel) rfl
      [] [0x6c] [[0x73]] rfl⟩

/-- A line break at the end of a command is trimmed away and not seen. -/
theorem trailing_break_accepted :
    ∃ (command : Text) (analysis : ShellCommandAnalysis) (before : List Text) (character : Text)
      (after : List Text),
      analyzeSimpleShellCommand .bash command = some analysis ∧ analysis.execution =
        some (.argv [0x6c, 0x73] []) ∧
      characters command = before ++ character :: after ∧ character.any posixMetacharacter = true ∧
      (tokenizing .posix before).quote = none ∧ (tokenizing .posix before).escaped = false :=
  ⟨[0x6c, 0x73, 0xa], argvAnalysis .bash [0x6c, 0x73] [], [[0x6c], [0x73]], [0xa],
    [], by decide +kernel, rfl, rfl, by decide +kernel, rfl, rfl⟩

end Agreement

end AccessStack.Shell.Commands
