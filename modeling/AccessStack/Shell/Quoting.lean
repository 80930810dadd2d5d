import AccessStack.Shell.CommandAnalysis

/-!
# Words that are quoted for PowerShell

A text in single quotes, with each quote in it doubled, is read back as one
word. The commands of a release are such words and plain ones.
-/

set_option autoImplicit false

namespace AccessStack.Shell.Commands
open AccessStack.Units AccessStack.Shell

section Builders

def space : UInt16 := 0x20

def joinWords (words : List Text) : Text := [space].intercalate words

def doubled (value : Text) : Text := value.flatMap fun u =>
    if u = quoteMark then [quoteMark, quoteMark] else [u]

def quotePowerShell (value : Text) : Text := quoteMark :: doubled value ++ [quoteMark]

/-- `String` of a number that the schema takes as a natural one. -/
def numberText (n : ℕ) : Text := (Nat.toDigits 10 n).map fun c => UInt16.ofNat c.toNat

inductive Platform where
  | win32 | other
  deriving DecidableEq

structure EdgeRecoveryConfig where
  taskName : Text
  runtimeRoot : Text
  edgeBaseUrl : Text
  connectorTokenFile : Text
  policyPath : Text
  allowedOrigins : Text
  maxConcurrentRequests : ℕ
  delaySeconds : ℕ

def powershellHead : List Text :=
  [ofString "pwsh.exe", ofString "-NoLogo", ofString "-NoProfile", ofString "-NonInteractive",
    ofString "-ExecutionPolicy", ofString "Bypass", ofString "-File"]

def buildPrepareCommand (platform : Platform) (updater repository installationRoot tag : Text) : Text :=
  match platform with
  | .win32 => joinWords (powershellHead ++ [quotePowerShell updater,
      ofString "-Repository", quotePowerShell repository,
      ofString "-InstallationRoot", quotePowerShell installationRoot,
      ofString "-Tag", quotePowerShell tag,
      ofString "-Execute"])
  | .other => joinWords [ofString "bash", quotePowerShell updater,
      ofString "--repository", quotePowerShell repository,
      ofString "--installation-root", quotePowerShell installationRoot,
      ofString "--tag", quotePowerShell tag,
      ofString "--execute"]

def buildLocalPromoteCommand (handoff installationRoot stateRoot releaseId : Text) : Text :=
  joinWords (powershellHead ++ [quotePowerShell handoff,
    ofString "-InstallationRoot", quotePowerShell installationRoot,
    ofString "-StateRoot", quotePowerShell stateRoot,
    ofString "-Tag", quotePowerShell (ofString "v" ++ releaseId),
    ofString "-Execute"])

def buildPromoteCommand (platform : Platform) (cutover installationRoot projectRoot releaseId : Text)
    (config : EdgeRecoveryConfig) : Text :=
  match platform with
  | .win32 => joinWords (powershellHead ++ [quotePowerShell cutover,
      ofString "-InstallationRoot", quotePowerShell installationRoot,
      ofString "-ProjectRoot", quotePowerShell projectRoot,
      ofString "-ExpectedReleaseId", quotePowerShell releaseId,
      ofString "-EdgeRuntimeRoot", quotePowerShell config.runtimeRoot,
      ofString "-EdgeBaseUrl", quotePowerShell config.edgeBaseUrl,
      ofString "-ConnectorTokenFile", quotePowerShell config.connectorTokenFile,
      ofString "-PolicyPath", quotePowerShell config.policyPath,
      ofString "-AllowedOrigins", quotePowerShell config.allowedOrigins,
      ofString "-EdgeTaskName", quotePowerShell config.taskName,
      ofString "-Execute"])
  | .other => joinWords [ofString "bash", quotePowerShell cutover,
      ofString "--installation-root", quotePowerShell installationRoot,
      ofString "--project-root", quotePowerShell projectRoot,
      ofString "--expected-release-id", quotePowerShell releaseId,
      ofString "--edge-runtime-root", quotePowerShell config.runtimeRoot,
      ofString "--edge-base-url", quotePowerShell config.edgeBaseUrl,
      ofString "--connector-token-file", quotePowerShell config.connectorTokenFile,
      ofString "--policy-path", quotePowerShell config.policyPath,
      ofString "--allowed-origins", quotePowerShell config.allowedOrigins,
      ofString "--edge-task-name", quotePowerShell config.taskName,
      ofString "--max-concurrent-requests", numberText config.maxConcurrentRequests,
      ofString "--handover-delay-seconds", numberText config.delaySeconds,
      ofString "--execute"]

end Builders

section WordsRead

def plainUnit (u : UInt16) : Bool :=
  !(isBlank u) && u != quoteMark && u != doubleMark && !(powershellUnsupported u)

/-- A word without blanks, quotes and characters that PowerShell gives a meaning. -/
structure Plain (word : Text) : Prop where
  nonempty : word ≠ []
  units : ∀ u ∈ word, plainUnit u = true

/-- A word of a command as it is written. -/
inductive Word where
  | plain (word : Text)
  | quoted (value : Text)
  | number (n : ℕ)

def Word.text : Word → Text
  | .plain word => word
  | .quoted value => quotePowerShell value
  | .number n => numberText n

def Word.value : Word → Text
  | .plain word => word
  | .quoted value => value
  | .number n => numberText n

def Word.Valid : Word → Prop
  | .plain word => Plain word
  | _ => True

@[simp] theorem Word.plain_valid (word : Text) : (Word.plain word).Valid ↔ Plain word := Iff.rfl

@[simp] theorem Word.quoted_valid (value : Text) : (Word.quoted value).Valid ↔ True := Iff.rfl

@[simp] theorem Word.number_valid (n : ℕ) : (Word.number n).Valid ↔ True := Iff.rfl

/-- The rest of a command after a word. -/
def Ends : Text → Prop
  | [] => True
  | u::_ => u = space

theorem plainUnit_parts {u : UInt16} (h : plainUnit u = true) :
    isBlank u = false ∧ u ≠ quoteMark ∧ u ≠ doubleMark ∧ powershellUnsupported u = false := by
  simp only [plainUnit, Bool.and_eq_true, Bool.not_eq_true', bne_iff_ne] at h
  obtain ⟨⟨⟨hblank, hquote⟩, hdouble⟩, hunsupported⟩ := h
  exact ⟨hblank, hquote, hdouble, hunsupported⟩

theorem quoteMark_notBlank : isBlank quoteMark = false := by decide

theorem digit_plain : ∀ n < 58, 48 ≤ n → plainUnit (UInt16.ofNat n) = true := by decide +kernel

theorem numberText_plain (n : ℕ) : Plain (numberText n) := by
  constructor
  · have hlength := Nat.length_toDigits_pos (b := 10) (n := n)
    intro hnil
    rw [numberText, List.map_eq_nil_iff] at hnil
    rw [hnil] at hlength
    cases hlength
  · intro u hu
    obtain ⟨c, hc, rfl⟩ := List.mem_map.mp hu
    have hdigit := Nat.isDigit_of_mem_toDigits (by decide) (by decide) hc
    simp only [Char.isDigit, Bool.and_eq_true, decide_eq_true_eq, UInt32.le_iff_toNat_le] at hdigit
    have hbounds : 48 ≤ c.toNat ∧ c.toNat ≤ 57 := hdigit
    exact digit_plain c.toNat (by omega) hbounds.1

theorem ofString_literal {cs : List Char} (h : ∀ c ∈ cs, c.toNat < 0x80) :
    ofString (String.ofList cs) = cs.map fun c => UInt16.ofNat c.toNat := by
  rw [ofString, String.toList_ofList, List.map_eq_flatMap]
  apply List.flatMap_congr
  intro c hc
  have hascii := h c hc
  rw [scalarUnits, if_pos (by omega)]

theorem dot_literal : ofString "." = [0x2e] := by
  have hascii : ∀ c ∈ ['.'], c.toNat < 0x80 := List.forall_mem_singleton.mpr (by decide)
  exact ofString_literal hascii

def plainChar (c : Char) : Bool := decide (c.toNat < 0x80) && plainUnit (UInt16.ofNat c.toNat)

theorem plain_literal {cs : List Char} (h : (!cs.isEmpty && cs.all plainChar) = true) :
    Plain (ofString (String.ofList cs)) := by
  rw [Bool.and_eq_true, List.all_eq_true] at h
  obtain ⟨hne, hall⟩ := h
  rw [ofString_literal fun c hc => of_decide_eq_true (Bool.and_eq_true_iff.mp (hall c hc)).1]
  refine ⟨by simpa using hne, ?_⟩
  intro u hu
  obtain ⟨c, hc, rfl⟩ := List.mem_map.mp hu
  exact (Bool.and_eq_true_iff.mp (hall c hc)).2

theorem space_blank : isBlank space = true := by decide

theorem space_ne_quote : space ≠ quoteMark := by decide

attribute [local simp] scanPowerShell in
theorem scan_plain (word rest : Text) (h : ∀ u ∈ word, plainUnit u = true) (w : Words) :
    scanPowerShell (word ++ rest) none w =
      scanPowerShell rest none { w with token := w.token ++ word,
                                        tokenStarted := w.tokenStarted || !word.isEmpty } := by
  induction word generalizing w with
  | nil => simp
  | cons u word ih =>
    obtain ⟨hblank, hquote, hdouble, hunsupported⟩ := plainUnit_parts (h u List.mem_cons_self)
    have hrest := ih (fun v hv => h v (List.mem_cons_of_mem _ hv)) (w.add [u])
    rw [List.cons_append, scanPowerShell, if_neg (by simp [hblank]), if_neg (by simp [hquote, hdouble]),
      if_neg (by simp [hunsupported]), hrest]
    simp [Words.add]

theorem scan_plainWord {word : Text} (h : Plain word) (rest : Text) (tokens : List Text) :
    scanPowerShell (word ++ rest) none ⟨tokens, [], false⟩ =
      scanPowerShell rest none ⟨tokens, word, true⟩ := by
  obtain ⟨hne, hplain⟩ := h
  have hempty : word.isEmpty = false := by simpa using hne
  rw [scan_plain word rest hplain]
  simp [hempty]

theorem scan_inside {u : UInt16} (hu : u ≠ quoteMark) (us : Text) (w : Words) :
    scanPowerShell (u::us) (some .single) w = scanPowerShell us (some .single)
    { w with token := w.token ++ [u] } := by
  cases us <;> simp [scanPowerShell, hu]

/-- The quoted text is taken as it was before its quotes were doubled. -/
theorem scan_doubled (value rest : Text) (hrest : Ends rest) (w : Words) :
    scanPowerShell (doubled value ++ quoteMark :: rest) (some .single) w =
      scanPowerShell rest none { w with token := w.token ++ value } := by
  induction value generalizing w with
  | nil =>
    cases rest with
    | nil => simp [doubled, scanPowerShell]
    | cons v vs =>
      have hv : v = space := hrest
      subst hv
      show scanPowerShell (quoteMark :: space :: vs) (some .single) w = _
      rw [scanPowerShell, if_pos rfl]
      simp [space_ne_quote, space_blank]
  | cons u value ih =>
    by_cases hu : u = quoteMark
    · subst hu
      have hsplit : doubled (quoteMark :: value) ++ quoteMark :: rest =
          quoteMark :: quoteMark :: (doubled value ++ quoteMark :: rest) := by simp [doubled]
      rw [hsplit, scanPowerShell, if_pos rfl]
      simp only [if_true]
      rw [ih]
      simp
    · have hsplit : doubled (u :: value) ++ quoteMark :: rest =
          u :: (doubled value ++ quoteMark :: rest) := by
        simp [doubled, hu]
      rw [hsplit, scan_inside hu, ih]
      simp

theorem scan_word {word : Word} (hvalid : word.Valid) {rest : Text} (hrest : Ends rest) (tokens : List Text) :
    scanPowerShell (word.text ++ rest) none ⟨tokens, [], false⟩ =
      scanPowerShell rest none ⟨tokens, word.value, true⟩ := by
  cases word with
  | plain word => exact scan_plainWord hvalid rest tokens
  | number n => exact scan_plainWord (numberText_plain n) rest tokens
  | quoted value =>
    have hopen : scanPowerShell (quotePowerShell value ++ rest) none ⟨tokens, [], false⟩ =
        scanPowerShell (doubled value ++ quoteMark :: rest) (some .single) ⟨tokens, [], true⟩ := by
      have hsplit : quotePowerShell value ++ rest = quoteMark :: (doubled value ++ quoteMark :: rest) := by
        simp [quotePowerShell]
      rw [hsplit, scanPowerShell, if_neg (by simp [quoteMark_notBlank]), if_pos (.inl rfl)]
      simp [Words.start]
    rw [Word.text, hopen, scan_doubled value rest hrest]
    simp [Word.value]

/-- The words of a command one after the other. -/
theorem scan_words {words : List Word} (hne : words ≠ []) (hvalid : ∀ word ∈ words, word.Valid)
    (tokens : List Text) :
    ∃ w, scanPowerShell (joinWords (words.map Word.text)) none ⟨tokens, [], false⟩ = some (none, w) ∧
      w.flush.tokens = tokens ++ words.map Word.value := by
  induction words generalizing tokens with
  | nil => exact absurd rfl hne
  | cons word words ih =>
    have hword : word.Valid := hvalid word List.mem_cons_self
    by_cases hlast : words = []
    · subst hlast
      refine ⟨⟨tokens, word.value, true⟩, ?_, by simp [Words.flush]⟩
      have hends : Ends [] := trivial
      have hscan := scan_word hword hends tokens
      rw [List.append_nil] at hscan
      show scanPowerShell ([space].intercalate [word.text]) none _ = _
      rw [List.intercalate_singleton, hscan, scanPowerShell]
    · obtain ⟨w, hscan, htokens⟩ :=
        ih hlast (fun v hv => hvalid v (List.mem_cons_of_mem _ hv)) (tokens ++ [word.value])
      refine ⟨w, ?_, by rw [htokens]; simp⟩
      have hjoin : joinWords ((word :: words).map Word.text) =
          word.text ++ space :: joinWords (words.map Word.text) := by
        rw [joinWords, List.map_cons, List.intercalate_cons_of_ne_nil (by simpa using hlast)]
        simp [joinWords]
      rw [hjoin, scan_word hword (show Ends (space :: _) from rfl), scanPowerShell, if_pos space_blank]
      exact hscan

theorem plain_ends {word : Text} (h : Plain word) :
    word ≠ [] ∧ (∀ u ∈ word.head?, isBlank u = false) ∧ ∀ u ∈ word.getLast?, isBlank u = false := by
  obtain ⟨hne, hplain⟩ := h
  refine ⟨hne, ?_, ?_⟩
  · intro u hu
    exact (plainUnit_parts (hplain u (List.mem_of_mem_head? hu))).1
  · intro u hu
    exact (plainUnit_parts (hplain u (List.mem_of_mem_getLast? hu))).1

theorem text_ends {word : Word} (hvalid : word.Valid) :
    word.text ≠ [] ∧ (∀ u ∈ word.text.head?, isBlank u = false) ∧ ∀ u ∈ word.text.getLast?,
      isBlank u = false := by
  cases word with
  | plain word => exact plain_ends hvalid
  | number n => exact plain_ends (numberText_plain n)
  | quoted value =>
    refine ⟨by simp [Word.text, quotePowerShell], ?_, ?_⟩
    · intro u hu
      have hmark : u = quoteMark := by simpa [Word.text, quotePowerShell, eq_comm] using hu
      rw [hmark, quoteMark_notBlank]
    · intro u hu
      have hlast : (Word.text (.quoted value)).getLast? = some quoteMark := by
        rw [Word.text, quotePowerShell, List.getLast?_append]
        rfl
      rw [hlast] at hu
      cases hu
      exact quoteMark_notBlank

theorem joinWords_ends {words : List Word} (hne : words ≠ []) (hvalid : ∀ word ∈ words, word.Valid) :
    joinWords (words.map Word.text) ≠ [] ∧
    (∀ u ∈ (joinWords (words.map Word.text)).head?, isBlank u = false) ∧
      ∀ u ∈ (joinWords (words.map Word.text)).getLast?, isBlank u = false := by
  induction words with
  | nil => exact absurd rfl hne
  | cons word words ih =>
    obtain ⟨hword, hfirst, hlast⟩ := text_ends (hvalid word List.mem_cons_self)
    by_cases hnil : words = []
    · subst hnil
      show [space].intercalate [word.text] ≠ [] ∧ _
      rw [joinWords, List.map_singleton, List.intercalate_singleton]
      exact ⟨hword, hfirst, hlast⟩
    · obtain ⟨hrest, -, hend⟩ := ih hnil fun v hv => hvalid v (List.mem_cons_of_mem _ hv)
      have hjoin : joinWords ((word :: words).map Word.text) =
          word.text ++ space :: joinWords (words.map Word.text) := by
        rw [joinWords, List.map_cons, List.intercalate_cons_of_ne_nil (by simpa using hnil)]
        simp [joinWords]
      rw [hjoin]
      refine ⟨by simp, ?_, ?_⟩
      · intro u hu
        rw [List.head?_append_of_ne_nil _ hword] at hu
        exact hfirst u hu
      · intro u hu
        rw [List.getLast?_append_of_ne_nil _ (List.cons_ne_nil _ _), List.getLast?_cons_of_ne_nil hrest] at hu
        exact hend u hu

/-- A command of valid words is read back as these words. -/
theorem analyze_words (shell : ShellName) (executable : Text) (words : List Word) (hplain : Plain executable)
    (hdot : executable ≠ ofString ".") (hvalid : ∀ word ∈ words, word.Valid) :
    analyzeSimplePowerShellCommand shell (joinWords (executable :: words.map Word.text)) =
      some (argvAnalysis shell executable (words.map Word.value)) := by
  have hall : ∀ word ∈ Word.plain executable :: words, word.Valid := by
    intro word hword
    rcases List.mem_cons.mp hword with rfl | hword
    · exact hplain
    · exact hvalid word hword
  obtain ⟨w, hscan, htokens⟩ := scan_words (List.cons_ne_nil _ _) hall []
  obtain ⟨hne, hfirst, hlast⟩ := joinWords_ends (List.cons_ne_nil _ _) hall
  have htrim := trim_eq_self hfirst hlast
  have hlength : (joinWords ((Word.plain executable :: words).map Word.text)).length ≠ 0 := by simpa using hne
  show analyzeSimplePowerShellCommand shell (joinWords ((Word.plain executable :: words).map Word.text)) = _
  change scanPowerShell _ none noWords = _ at hscan
  simp only [analyzeSimplePowerShellCommand, htrim, hscan]
  rw [if_neg hlength, htokens]
  simp [Word.value, hplain.nonempty, hdot]

end WordsRead

section ReleaseCommands

/-- What the commands of a release give to PowerShell before the script. -/
def powershellArguments : List Text := powershellHead.tail

theorem not_dot {cs : List Char} (h : cs.all plainChar = true) (hlength : cs.length ≠ 1) :
    ofString (String.ofList cs) ≠ ofString "." := by
  rw [dot_literal, ofString_literal fun c hc =>
    of_decide_eq_true (Bool.and_eq_true_iff.mp (List.all_eq_true.mp h c hc)).1]
  intro heq
  have hone := congrArg List.length heq
  rw [List.length_map] at hone
  exact hlength hone

theorem powershell_plain : Plain (ofString "pwsh.exe") ∧ ofString "pwsh.exe" ≠ ofString "." :=
  ⟨plain_literal rfl, not_dot rfl (by decide)⟩

theorem bash_plain : Plain (ofString "bash") ∧ ofString "bash" ≠ ofString "." :=
  ⟨plain_literal rfl, not_dot rfl (by decide)⟩

theorem arguments_valid : ∀ word ∈ powershellArguments.map Word.plain, word.Valid := by
  simp only [powershellArguments, powershellHead, List.tail_cons, List.map_cons, List.map_nil,
    List.forall_mem_cons, List.not_mem_nil, false_implies, implies_true, Word.plain_valid, and_true]
  and_intros <;> exact plain_literal rfl

theorem analyze_powershell (shell : ShellName) (words : List Word) (hvalid : ∀ word ∈ words, word.Valid) :
    analyzeSimplePowerShellCommand shell (joinWords (powershellHead ++ words.map Word.text)) =
      some (argvAnalysis shell (ofString "pwsh.exe") (powershellArguments ++ words.map Word.value)) := by
  obtain ⟨hplain, hdot⟩ := powershell_plain
  have hall : ∀ word ∈ powershellArguments.map Word.plain ++ words, word.Valid := by
    intro word hword
    rcases List.mem_append.mp hword with hhead | hword
    · exact arguments_valid word hhead
    · exact hvalid word hword
  have hread :=
    analyze_words shell (ofString "pwsh.exe") (powershellArguments.map Word.plain ++ words) hplain hdot hall
  rw [List.map_append, List.map_append, List.map_map, List.map_map] at hread
  have htext : Word.text ∘ Word.plain = id := rfl
  have hvalue : Word.value ∘ Word.plain = id := rfl
  rw [htext, hvalue, List.map_id] at hread
  exact hread

theorem analyze_bash (shell : ShellName) (words : List Word) (hvalid : ∀ word ∈ words, word.Valid) :
    analyzeSimplePowerShellCommand shell (joinWords (ofString "bash" :: words.map Word.text)) =
      some (argvAnalysis shell (ofString "bash") (words.map Word.value)) :=
  analyze_words shell (ofString "bash") words bash_plain.1 bash_plain.2 hvalid

/-- Quoting is undone by the analyser for all texts, and so the commands of a release carry theirs. -/
theorem quoted_words_carried :
    (∀ (shell : ShellName) (executable : Text) (args : List Text), Plain executable →
      executable ≠ ofString "." →
      analyzeSimplePowerShellCommand shell (joinWords (executable :: args.map quotePowerShell)) =
        some (argvAnalysis shell executable args)) ∧
    (∀ (shell : ShellName) (updater repository installationRoot tag : Text),
      analyzeSimplePowerShellCommand shell
        (buildPrepareCommand .win32 updater repository installationRoot tag) =
        some (argvAnalysis shell (ofString "pwsh.exe")
          (powershellArguments ++ [updater, ofString "-Repository",
          repository, ofString "-InstallationRoot", installationRoot, ofString "-Tag", tag,
            ofString "-Execute"])) ∧
      analyzeSimplePowerShellCommand shell
        (buildPrepareCommand .other updater repository installationRoot tag) =
        some (argvAnalysis shell (ofString "bash") [updater, ofString "--repository", repository,
          ofString "--installation-root", installationRoot, ofString "--tag", tag, ofString "--execute"])) ∧
    (∀ (shell : ShellName) (handoff installationRoot stateRoot releaseId : Text),
      analyzeSimplePowerShellCommand shell
        (buildLocalPromoteCommand handoff installationRoot stateRoot releaseId) =
        some (argvAnalysis shell (ofString "pwsh.exe")
          (powershellArguments ++ [handoff, ofString "-InstallationRoot",
          installationRoot, ofString "-StateRoot", stateRoot, ofString "-Tag", ofString "v" ++ releaseId,
          ofString "-Execute"]))) ∧
    (∀ (shell : ShellName) (cutover installationRoot projectRoot releaseId : Text)
      (config : EdgeRecoveryConfig),
      analyzeSimplePowerShellCommand shell
          (buildPromoteCommand .win32 cutover installationRoot projectRoot releaseId config) =
        some (argvAnalysis shell (ofString "pwsh.exe") (powershellArguments ++ [cutover,
          ofString "-InstallationRoot", installationRoot, ofString "-ProjectRoot", projectRoot,
          ofString "-ExpectedReleaseId", releaseId, ofString "-EdgeRuntimeRoot", config.runtimeRoot,
          ofString "-EdgeBaseUrl", config.edgeBaseUrl, ofString "-ConnectorTokenFile",
            config.connectorTokenFile,
          ofString "-PolicyPath", config.policyPath, ofString "-AllowedOrigins", config.allowedOrigins,
          ofString "-EdgeTaskName", config.taskName, ofString "-Execute"])) ∧
      analyzeSimplePowerShellCommand shell
          (buildPromoteCommand .other cutover installationRoot projectRoot releaseId config) =
        some (argvAnalysis shell (ofString "bash") [cutover,
          ofString "--installation-root", installationRoot, ofString "--project-root", projectRoot,
          ofString "--expected-release-id", releaseId, ofString "--edge-runtime-root", config.runtimeRoot,
          ofString "--edge-base-url", config.edgeBaseUrl, ofString "--connector-token-file",
            config.connectorTokenFile,
          ofString "--policy-path", config.policyPath, ofString "--allowed-origins", config.allowedOrigins,
          ofString "--edge-task-name", config.taskName,
          ofString "--max-concurrent-requests", numberText config.maxConcurrentRequests,
          ofString "--handover-delay-seconds", numberText config.delaySeconds, ofString "--execute"])) := by
  refine ⟨?_, ?_, ?_, ?_⟩
  · intro shell executable args hplain hdot
    have hvalid : ∀ word ∈ args.map Word.quoted, word.Valid := by
      intro word hword
      obtain ⟨value, -, rfl⟩ := List.mem_map.mp hword
      trivial
    have hread := analyze_words shell executable (args.map Word.quoted) hplain hdot hvalid
    rw [List.map_map, List.map_map] at hread
    simpa [Function.comp_def, Word.text, Word.value] using hread
  · intro shell updater repository installationRoot tag
    refine ⟨analyze_powershell shell [.quoted updater, .plain (ofString "-Repository"), .quoted repository,
        .plain (ofString "-InstallationRoot"), .quoted installationRoot, .plain
          (ofString "-Tag"), .quoted tag, .plain (ofString "-Execute")] ?_,
      analyze_bash shell [.quoted updater, .plain (ofString "--repository"), .quoted repository,
        .plain (ofString "--installation-root"), .quoted installationRoot, .plain
          (ofString "--tag"), .quoted tag,
        .plain (ofString "--execute")] ?_⟩ <;> simp <;> and_intros <;> exact plain_literal rfl
  · intro shell handoff installationRoot stateRoot releaseId
    refine analyze_powershell shell
      [.quoted handoff, .plain (ofString "-InstallationRoot"), .quoted installationRoot,
      .plain (ofString "-StateRoot"), .quoted stateRoot, .plain (ofString "-Tag"),
      .quoted (ofString "v" ++ releaseId), .plain (ofString "-Execute")] ?_
    simp
    and_intros <;> exact plain_literal rfl
  · intro shell cutover installationRoot projectRoot releaseId config
    refine ⟨analyze_powershell shell
      [.quoted cutover, .plain (ofString "-InstallationRoot"), .quoted installationRoot,
        .plain (ofString "-ProjectRoot"), .quoted projectRoot, .plain (ofString "-ExpectedReleaseId"),
        .quoted releaseId, .plain (ofString "-EdgeRuntimeRoot"), .quoted config.runtimeRoot,
        .plain (ofString "-EdgeBaseUrl"), .quoted config.edgeBaseUrl, .plain (ofString "-ConnectorTokenFile"),
        .quoted config.connectorTokenFile, .plain (ofString "-PolicyPath"), .quoted config.policyPath,
        .plain (ofString "-AllowedOrigins"), .quoted config.allowedOrigins, .plain (ofString "-EdgeTaskName"),
        .quoted config.taskName, .plain (ofString "-Execute")] ?_,
      analyze_bash shell [.quoted cutover, .plain (ofString "--installation-root"), .quoted installationRoot,
        .plain (ofString "--project-root"), .quoted projectRoot, .plain (ofString "--expected-release-id"),
        .quoted releaseId, .plain (ofString "--edge-runtime-root"), .quoted config.runtimeRoot,
        .plain (ofString "--edge-base-url"), .quoted config.edgeBaseUrl, .plain
          (ofString "--connector-token-file"),
        .quoted config.connectorTokenFile, .plain (ofString "--policy-path"), .quoted config.policyPath,
        .plain (ofString "--allowed-origins"), .quoted config.allowedOrigins, .plain
          (ofString "--edge-task-name"),
        .quoted config.taskName, .plain
          (ofString "--max-concurrent-requests"), .number config.maxConcurrentRequests,
        .plain (ofString "--handover-delay-seconds"), .number config.delaySeconds,
        .plain (ofString "--execute")] ?_⟩ <;> simp <;> and_intros <;> exact plain_literal rfl

theorem quoted_words_sample :
    analyzeSimplePowerShellCommand .pwsh (joinWords (ofString "Set-Content" ::
        [ofString "it's $here", ofString "", ofString "a\nb"].map quotePowerShell)) =
      some (argvAnalysis .pwsh (ofString "Set-Content")
        [ofString "it's $here", ofString "", ofString "a\nb"]) :=
  quoted_words_carried.1 .pwsh (ofString "Set-Content") _ (plain_literal rfl) (not_dot rfl (by decide))

end ReleaseCommands

end AccessStack.Shell.Commands
