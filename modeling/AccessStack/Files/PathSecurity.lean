import AccessStack.FileTree

/-!
# Path security

`PathSecurity` and `FileService.writeFile` on a POSIX system. A logical path
is the list of its segments, empty for `"."`, and an absolute path the list
of its names. `Minimatch` is any predicate on a pattern and a path. Nothing
else changes the file system during a call, and a write fails if the random
name of its temporary file is taken.
-/

set_option autoImplicit false

namespace AccessStack.Files
open AccessStack.FileTree

section Policies

inductive PathKind where
  | file | directory
  deriving DecidableEq

structure ResolvedAllowedRoot where
  logicalPath : List String
  canonicalPath : Location
  kind : PathKind
  deriving DecidableEq

/-- A blocked glob is not empty, so that one that is found is a policy rule. -/
structure ResolvedWorkspace where
  rootPath : List String
  canonicalRootPath : Location
  allowedRoots : List ResolvedAllowedRoot
  blockedGlobs : List String
  allowWrites : List (List String)
  maxFileBytes : ℕ
  rules : ∀ pattern ∈ blockedGlobs, pattern ≠ ""
  deriving DecidableEq

structure BlockedDetails where
  path : String
  policyRule : String
  operation : Option String
  safeAlternative : Option String
  deriving DecidableEq

/-- `blocked` is the error `BLOCKED_PATH` with details; their reason is always
`blocked_by_workspace_policy`. -/
inductive FileError where
  | app (code message : String)
  | blocked (message : String) (details : BlockedDetails)
  | errno (e : Errno)
  deriving DecidableEq

/-- The text of a logical path; `"."` is matched as the empty text. -/
def portable (path : List String) : String := "/".intercalate path

def shown (path : List String) : String := if path = [] then "." else portable path

def isContained (base target : Location) : Bool := base.isPrefixOf target

def logicalContains (base target : List String) : Bool := base.isPrefixOf target

end Policies

section Normalization

def isDrive : List Char → Bool
  | letter::colon::_ => letter.isAlpha && colon = ':'
  | _ => false

/-- The loop over the segments. -/
def collectSegments : List String → Except FileError (List String)
  | [] => .ok []
  | segment::rest =>
    if segment = "" ∨ segment = "." then collectSegments rest
    else if segment = ".." then .error (.app "INVALID_PATH" "Path traversal is not allowed.")
    else (collectSegments rest).map (segment::·)

def splitSegments (input : String) : List String :=
  ((input.toList.map fun c => if c = '\\' then '/' else c).splitOn '/').map String.ofList

def normalizeRelativePath (input : String) (allowDot : Bool) : Except FileError (List String) :=
  if input = "" ∨ input.toList.contains '\x00' then
    .error (.app "INVALID_PATH" "Path must be a non-empty relative path.")
  else if input.toList.head? = some '/' ∨ input.toList.head? = some '\\' ∨ isDrive input.toList then
    .error (.app "INVALID_PATH" "Absolute paths are not allowed.")
  else do
    let segments ← collectSegments (splitSegments input)
    if segments = [] ∧ allowDot = false then
      .error (.app "INVALID_PATH" "Path must identify a file or directory.")
    else return segments

/-- `path.resolve` of an absolute path -/
def resolveNames (names : List String) : List String :=
  names.foldl (fun done name =>
    if name = "" ∨ name = "." then done
    else if name = ".." then done.dropLast
    else done ++ [name]) []

def toNativeAbsolute (rootPath relativePath : List String) : List String :=
  if relativePath = [] then rootPath else resolveNames (rootPath ++ relativePath)

end Normalization

section Security

variable (glob : String → String → Bool) (ws : ResolvedWorkspace)

def readableGeneratedGlobs : List String :=
  ["**/node_modules/**", "**/bin/**", "**/obj/**", "**/dist/**", "**/build/**", "**/coverage/**"]

def matchedBlockedPattern (path : List String) (readGenerated : Bool) : Option String :=
  ws.blockedGlobs.find? fun pattern =>
    !(readGenerated && readableGeneratedGlobs.contains pattern) && glob pattern (portable path)

def isBlocked (path : List String) : Bool := (matchedBlockedPattern glob ws path false).isSome

def isWithinLogicalAllowedRoot (path : List String) : Bool :=
  ws.allowedRoots.any fun root =>
    if root.kind = .file then root.logicalPath = path else logicalContains root.logicalPath path

def isAllowedWritePath (path : List String) : Bool :=
  ws.allowWrites.any fun root => logicalContains root path || logicalContains path root

/-- `isRealEnvironmentFile` -/
def isRealEnvironmentFile (path : List String) : Bool :=
  let name := path.getLastD ""
  name = ".env" || (".env.".toList.isPrefixOf name.toList &&
    !([".env.example", ".env.sample", ".env.template"].contains name))

def blockedPathError (path : List String) (policyRule message : String) (operation : Option String) :
    FileError :=
  .blocked message {
    path := shown path, policyRule, operation
    safeAlternative := if operation = some "read_file" && isRealEnvironmentFile path then
      some "run_workspace_validation(secret-scan)" else none }

def authorizeLogical (input : String) (allowDot : Bool) (operation : Option String)
    (readGenerated : Bool) : Except FileError (List String) := do
  let path ← normalizeRelativePath input allowDot
  match matchedBlockedPattern glob ws path readGenerated with
  | some rule => .error (blockedPathError path rule "Path is blocked by workspace policy." operation)
  | none =>
    if isWithinLogicalAllowedRoot ws path then return path
    else .error (.app "PATH_OUTSIDE_ALLOWED_ROOTS" "Path is outside the workspace allowed roots.")

def authorizeWriteLogical (input : String) : Except FileError (List String) := do
  let path ← normalizeRelativePath input false
  if isBlocked glob ws path then
    .error (.app "BLOCKED_PATH" "Path is blocked by workspace policy.")
  else if !isWithinLogicalAllowedRoot ws path then
    .error (.app "PATH_OUTSIDE_ALLOWED_ROOTS" "Path is outside the workspace allowed roots.")
  else if !isAllowedWritePath ws path then
    .error (.app "WRITE_NOT_ALLOWED" "Path is outside the workspace allowWrites policy.")
  else return path

/-- The loop over the ancestors of a path, the shortest first. -/
def assertCreatableAncestors (path : List String) : Except FileError Unit :=
  (path.inits.tail.dropLast).forM fun ancestor =>
    if isBlocked glob ws ancestor then
      .error (.app "BLOCKED_PATH" "Path is blocked by workspace policy.")
    else if !isAllowedWritePath ws ancestor then
      .error (.app "WRITE_NOT_ALLOWED" "Path is outside the workspace allowWrites policy.")
    else .ok ()

structure AuthorizedWritePath where
  logicalPath : List String
  absolutePath : List String
  created : Bool
  deriving DecidableEq

variable (t : Tree)

/-- Whether the target has to be created. -/
def probeTarget (logicalPath absolutePath : List String) : Except FileError Bool :=
  match stat t absolutePath with
  | .ok (.file _) => .ok false
  | .ok _ => .error (.app "NOT_A_FILE" "Requested path is not a file.")
  | .error _ => do
    assertCreatableAncestors glob ws logicalPath
    return true

def authorizeWriteTarget (input : String) : Except FileError AuthorizedWritePath := do
  let logicalPath ← authorizeWriteLogical glob ws input
  let absolutePath := toNativeAbsolute ws.rootPath logicalPath
  let created ← probeTarget glob ws t logicalPath absolutePath
  match realpath t absolutePath.dropLast with
  | .error _ =>
    if created then return ⟨logicalPath, absolutePath, created⟩
    else .error (.app "INVALID_PATH" "Unable to resolve parent directory.")
  | .ok parentCanonical =>
    if !isContained ws.canonicalRootPath parentCanonical then
      .error (.app "PATH_OUTSIDE_WORKSPACE" "Resolved parent path is outside the workspace.")
    else if created then return ⟨logicalPath, absolutePath, created⟩
    else
      match realpath t absolutePath with
      | .error e => .error (.errno e)
      | .ok canonicalPath =>
        if !isContained ws.canonicalRootPath canonicalPath then
          .error (.app "PATH_OUTSIDE_WORKSPACE" "Resolved path is outside the workspace.")
        else return ⟨logicalPath, absolutePath, created⟩

structure AuthorizedPath where
  logicalPath : List String
  absolutePath : List String
  canonicalPath : Location
  canonicalRelativePath : List String
  kind : PathKind
  deriving DecidableEq

def authorizeExistingInternal (input : String) (expectedKind : Option PathKind) (allowDot : Bool)
    (enforceBlockedPolicy : Bool) (operation : Option String) (readGenerated : Bool) :
    Except FileError AuthorizedPath := do
  let logicalPath ← (if enforceBlockedPolicy then
    authorizeLogical glob ws input allowDot operation readGenerated
    else normalizeRelativePath input allowDot)
  if !isWithinLogicalAllowedRoot ws logicalPath then
    .error (.app "PATH_OUTSIDE_ALLOWED_ROOTS" "Path is outside the workspace allowed roots.")
  else
    let absolutePath := toNativeAbsolute ws.rootPath logicalPath
    match realpath t absolutePath with
    | .error _ => .error (.app "FILE_NOT_FOUND" "Requested path does not exist.")
    | .ok canonicalPath =>
      if !isContained ws.canonicalRootPath canonicalPath then
        .error (.app "PATH_OUTSIDE_WORKSPACE" "Resolved path is outside the workspace.")
      else if !ws.allowedRoots.any (fun root => isContained root.canonicalPath canonicalPath) then
        .error (.app "PATH_OUTSIDE_ALLOWED_ROOTS" "Resolved path is outside the workspace allowed roots.")
      else
        let canonicalRelativePath := canonicalPath.drop ws.canonicalRootPath.length
        let canonicalPolicyRule := if enforceBlockedPolicy then
          matchedBlockedPattern glob ws canonicalRelativePath readGenerated else none
        match canonicalPolicyRule with
        | some rule =>
          .error (blockedPathError logicalPath rule "Resolved path is blocked by workspace policy." operation)
        | none =>
          match stat t canonicalPath with
          | .error e => .error (.errno e)
          | .ok (.link _ _) => .error (.app "INVALID_PATH" "Path type is not supported.")
          | .ok (.file _) =>
            if expectedKind = some .directory then
              .error (.app "NOT_A_DIRECTORY" "Requested path is not a directory.")
            else return ⟨logicalPath, absolutePath, canonicalPath, canonicalRelativePath, .file⟩
          | .ok .dir =>
            if expectedKind = some .file then
              .error (.app "NOT_A_FILE" "Requested path is not a file.")
            else return ⟨logicalPath, absolutePath, canonicalPath, canonicalRelativePath, .directory⟩

def authorizeExisting (input : String) (expectedKind : Option PathKind) (allowDot : Bool)
    (operation : Option String) : Except FileError AuthorizedPath :=
  authorizeExistingInternal glob ws t input expectedKind allowDot true operation false

end Security

section Service

structure WriteFileResult where
  path : List String
  sizeBytes : ℕ
  created : Bool
  deriving DecidableEq

/-- The tree after a write and the locations it has created or changed. -/
structure Written where
  result : WriteFileResult
  tree : Tree
  touched : List Location

def liftErrno {α : Type} : Except Errno α → Except FileError α
  | .ok a => .ok a
  | .error e => .error (.errno e)

def writeFile (glob : String → String → Bool) (ws : ResolvedWorkspace) (t : Tree)
    (input content random : String) : Except FileError Written := do
  let authorized ← authorizeWriteTarget glob ws t input
  if ws.maxFileBytes < content.utf8ByteSize then
    .error (.app "FILE_TOO_LARGE" "File exceeds the configured size limit.")
  else do
    let parentDirectory := authorized.absolutePath.dropLast
    let temporary := ".vs-code-gpt-" ++ random ++ ".tmp"
    let (t1, made) ← liftErrno (mkdirs t parentDirectory.reverse)
    let (t2, temp) ← liftErrno (create t1 parentDirectory temporary content)
    let (t3, target) ← liftErrno (rename t2 parentDirectory temporary
      (authorized.absolutePath.getLastD ""))
    return {
      result := ⟨authorized.logicalPath, content.utf8ByteSize, authorized.created⟩
      tree := t3, touched := made ++ [temp, target] }

end Service

end AccessStack.Files
