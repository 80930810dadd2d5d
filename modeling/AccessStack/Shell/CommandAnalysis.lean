import AccessStack.Units
import AccessStack.Shell.Confirmation

/-!
# The analysis of simple commands

A command is lowered to its words where it uses nothing but words and quotes.
The texts are strings of UTF-16 code units. The analyser of PowerShell goes by
units, the one of the other shells by characters.
-/

set_option autoImplicit false

namespace AccessStack.Shell.Commands
open AccessStack.Units AccessStack.Shell

abbrev Text : Type := List UInt16

inductive Execution where
  | argv (executable : Text) (argv : List Text)
  | script (script : Text)
  deriving DecidableEq

structure Diagnostic where
  code : String
  message : String
  deriving DecidableEq

structure ShellCommandAnalysis where
  shell : ShellName
  valid : Bool
  execution : Option Execution
  diagnostics : List Diagnostic
  usesShellFeatures : Bool
  deriving DecidableEq

def invalidAnalysis (shell : ShellName) (message : String) : ShellCommandAnalysis where
  shell := shell
  valid := false
  execution := none
  diagnostics := [⟨"syntax_error", message⟩]
  usesShellFeatures := true

def argvAnalysis (shell : ShellName) (executable : Text) (argv : List Text) : ShellCommandAnalysis where
  shell := shell
  valid := true
  execution := some (.argv executable argv)
  diagnostics := []
  usesShellFeatures := false

inductive Quote where
  | single | double
  deriving DecidableEq

/-- The words that are complete and the one that is being read. -/
structure Words where
  tokens : List Text
  token : Text
  tokenStarted : Bool
  deriving DecidableEq

def noWords : Words := ⟨[], [], false⟩

def Words.flush (w : Words) : Words := if w.tokenStarted then ⟨w.tokens ++ [w.token], [], false⟩ else w

def Words.add (w : Words) (c : Text) : Words := { w with token := w.token ++ c, tokenStarted := true }

def Words.start (w : Words) : Words := { w with tokenStarted := true }

def among (cs : List Char) (u : UInt16) : Bool := cs.any fun c => u.toNat == c.toNat

def quoteMark : UInt16 := 0x27
def doubleMark : UInt16 := 0x22
def backslash : UInt16 := 0x5c

section PowerShell

def powershellUnsupported (u : UInt16) : Bool :=
  among ['|', '&', ';', '<', '>', '\x60', '$', '*', '?', '\x7b', '\x7d', '(', ')', '[', ']', '#',
    ',', '@', '%', '\r', '\n'] u

def isTokenBoundary : Text → Bool
  | [] => true
  | u::_ => isBlank u

/-- The loop over the units; nothing is the result where it gives up. -/
def scanPowerShell : Text → Option Quote → Words → Option (Option Quote × Words)
  | [], quote, w => some (quote, w)
  | u::us, some .single, w =>
    if u = quoteMark then
      match us with
      | v::vs =>
        if v = quoteMark then scanPowerShell vs (some .single) { w with token := w.token ++ [quoteMark] }
        else if isBlank v then scanPowerShell (v::vs) none w
        else none
      | [] => scanPowerShell [] none w
    else scanPowerShell us (some .single) { w with token := w.token ++ [u] }
  | u::us, some .double, w =>
    if u = doubleMark then
      if isTokenBoundary us then scanPowerShell us none w else none
    else if among ['$', '\x60'] u then none
    else scanPowerShell us (some .double) { w with token := w.token ++ [u] }
  | u::us, none, w =>
    if isBlank u then scanPowerShell us none w.flush
    else if u = quoteMark ∨ u = doubleMark then
      if w.tokenStarted then none
      else scanPowerShell us (some (if u = quoteMark then .single else .double)) w.start
    else if powershellUnsupported u then none
    else scanPowerShell us none (w.add [u])

def analyzeSimplePowerShellCommand (shell : ShellName) (command : Text) : Option ShellCommandAnalysis :=
  let value := trim command
  if value.length = 0 then some (invalidAnalysis shell "Command must not be empty.")
  else
    match scanPowerShell value none noWords with
    | none => none
    | some (some _, _) => some (invalidAnalysis shell "PowerShell command contains an unterminated quote.")
    | some (none, w) =>
      match w.flush.tokens with
      | [] => some (invalidAnalysis shell "Command executable is missing.")
      | executable::argv =>
        if executable = [] then some (invalidAnalysis shell "Command executable is missing.")
        else if executable = ofString "." then none
        else some (argvAnalysis shell executable argv)

end PowerShell

section Lexical

inductive Grammar where
  | cmd | posix
  deriving DecidableEq

structure Scan where
  quote : Option Quote
  escaped : Bool
  found : Bool
  deriving DecidableEq

def toggle (quote : Option Quote) (kind : Quote) : Option Quote :=
  if quote = some kind then none else some kind

/-- One character of the loop that returns at the first metacharacter outside of quotes. -/
def scanStep (metacharacters : UInt16 → Bool) (grammar : Grammar) (s : Scan) (character : Text) : Scan :=
  if s.found then s
  else if s.escaped then { s with escaped := false }
  else if grammar = .posix ∧ character = [backslash] ∧ s.quote ≠ some .single then { s with escaped := true }
  else if character = [quoteMark] ∧ s.quote ≠ some .double ∧ grammar = .posix then
    { s with quote := toggle s.quote .single }
  else if character = [doubleMark] ∧ s.quote ≠ some .single then { s with quote := toggle s.quote .double }
  else if s.quote = none ∧ character.any metacharacters then { s with found := true }
  else s

def scan (metacharacters : UInt16 → Bool) (grammar : Grammar) (characters : List Text) : Scan :=
  characters.foldl (scanStep metacharacters grammar) ⟨none, false, false⟩

def containsUnquoted (value : Text) (metacharacters : UInt16 → Bool) (grammar : Grammar) : Bool :=
  (scan metacharacters grammar (characters value)).found

structure Tokenizer where
  words : Words
  quote : Option Quote
  escaped : Bool
  deriving DecidableEq

def tokenizeStep (grammar : Grammar) (s : Tokenizer) (character : Text) : Tokenizer :=
  if s.escaped then { s with words := s.words.add character, escaped := false }
  else if grammar = .posix ∧ character = [backslash] ∧ s.quote ≠ some .single then
    { s with words := s.words.start, escaped := true }
  else if grammar = .posix ∧ character = [quoteMark] ∧ s.quote ≠ some .double then
    { s with words := s.words.start, quote := toggle s.quote .single }
  else if character = [doubleMark] ∧ s.quote ≠ some .single then
    { s with words := s.words.start, quote := toggle s.quote .double }
  else if s.quote = none ∧ character.any isBlank then { s with words := s.words.flush }
  else { s with words := s.words.add character }

def tokenizing (grammar : Grammar) (characters : List Text) : Tokenizer :=
  characters.foldl (tokenizeStep grammar) ⟨noWords, none, false⟩

def tokenize (value : Text) (grammar : Grammar) : Except String (List Text) :=
  let s := tokenizing grammar (characters value)
  if s.escaped ∨ s.quote.isSome then .error "Command contains an unterminated escape or quote."
  else .ok s.words.flush.tokens

def analyzeLexicalCommand (shell : ShellName) (command : Text) (metacharacters : UInt16 → Bool)
    (grammar : Grammar) : ShellCommandAnalysis :=
  let trimmed := trim command
  if trimmed.length = 0 then invalidAnalysis shell "Command must not be empty."
  else
    match tokenize trimmed grammar with
    | .error message => invalidAnalysis shell message
    | .ok [] => invalidAnalysis shell "Command syntax is invalid."
    | .ok (executable::argv) =>
      if containsUnquoted trimmed metacharacters grammar then
        { shell := shell, valid := true, execution := some (.script command), diagnostics := [],
          usesShellFeatures := true }
      else if executable = [] then invalidAnalysis shell "Command executable is missing."
      else argvAnalysis shell executable argv

def cmdMetacharacter (u : UInt16) : Bool := among ['&', '|', '<', '>', '^', '(', ')', '%', '!', '\r', '\n'] u

def posixMetacharacter (u : UInt16) : Bool :=
  among ['|', '&', ';', '<', '>', '\x60', '$', '*', '?', '\x7b', '\x7d', '(', ')', '[', ']', '\r', '\n'] u

def analyzeSimpleShellCommand (shell : ShellName) (command : Text) : Option ShellCommandAnalysis :=
  match shell with
  | .powershell | .pwsh => analyzeSimplePowerShellCommand shell command
  | .cmd => some (analyzeLexicalCommand shell command cmdMetacharacter .cmd)
  | .sh | .bash | .wsl | .gitBash => some (analyzeLexicalCommand shell command posixMetacharacter .posix)

end Lexical

end AccessStack.Shell.Commands
