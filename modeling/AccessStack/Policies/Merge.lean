import AccessStack.Keys
import AccessStack.Text

/-!
# Merging workspace policies

`mergeWorkspacePolicies` puts the explicit policies and the discovered folders
into one policy file and one catalog. A map from canonical path keys to
workspaces is filled in two loops and a catalog grows beside it. The map stays
in the result as the model's own.
-/

set_option autoImplicit false

namespace AccessStack.Policies
open AccessStack.Keys AccessStack.Text

section Data

structure WorkspaceLimits where
  maxFileBytes : ℕ
  maxSearchResults : ℕ
  maxSearchSnippetBytes : ℕ
  maxDiffBytes : ℕ
  maxListedFiles : ℕ
  deriving DecidableEq

/-- `Partial<WorkspaceLimits>`: the finite numbers that are given. -/
structure LimitsOverride where
  maxFileBytes : Option ℚ
  maxSearchResults : Option ℚ
  maxSearchSnippetBytes : Option ℚ
  maxDiffBytes : Option ℚ
  maxListedFiles : Option ℚ
  deriving DecidableEq

inductive WorkspaceKind where
  | repository
  | aggregate
  deriving DecidableEq

inductive PermissionProfile where
  | planningReadonly
  | planningHandoff
  | builderReview
  | restrictedArea
  | fullRepoReadonly
  | fullRepoWrite
  deriving DecidableEq

inductive ConfirmationMode where
  | standard
  | trustedWorkspace
  deriving DecidableEq

inductive ShellName where
  | powershell
  | pwsh
  | cmd
  | sh
  | bash
  | wsl
  | gitBash
  deriving DecidableEq

def supportedShells : List ShellName := [.powershell, .pwsh, .cmd, .sh, .bash, .wsl, .gitBash]

structure WorkspacePolicy where
  id : String
  name : String
  rootPath : String
  workspaceKind : Option WorkspaceKind
  enabled : Bool
  permissionProfile : PermissionProfile
  confirmationMode : ConfirmationMode
  allowedRoots : List String
  blockedGlobs : List String
  limits : WorkspaceLimits
  allowWrites : List String
  allowShell : List String
  allowedShells : List ShellName
  deriving DecidableEq

structure ExplicitPolicyInput where
  workspace : WorkspacePolicy
  canonicalRootPath : String
  deriving DecidableEq

structure DiscoveredWorkspaceCandidate where
  name : String
  rootPath : String
  canonicalRootPath : String
  trusted : Bool
  deriving DecidableEq

inductive WorkspaceCatalogSource where
  | explicit
  | discovered
  | denyIndex
  deriving DecidableEq

structure WorkspaceCatalogEntryMeta where
  source : WorkspaceCatalogSource
  id : String
  name : String
  rootPath : String
  canonicalRootPath : String
  trusted : Bool
  enabled : Bool
  deriving DecidableEq

structure MergeWorkspacePoliciesOptions where
  includeOpenWorkspaces : Option Bool
  alwaysExposeExplicit : Option Bool
  requireTrustedWorkspace : Option Bool
  discoveredLimitsOverride : Option LimitsOverride
  enableProjectWrites : Option Bool
  projectRootPath : Option String
  enableDevelopmentWrites : Option Bool
  developmentRootPath : Option String

/-- What the language and the platform do. `inOrder` is `localeCompare` at
most zero, `shortHash` the first eight digits of the SHA-256 of a text. -/
structure Platform where
  windows : Bool
  toLowerCase : String → String
  toLocaleLowerCase : String → String
  shortHash : String → String
  inOrder : String → String → Bool

end Data

section Paths

variable (platform : Platform)

def stripSlashes (filePath : String) : List Char :=
  (filePath.toList.map fun c => if c = '\\' then '/' else c).rdropWhile (· = '/')

def normalizePathKey (filePath : String) : String :=
  let normalized := String.ofList (stripSlashes filePath)
  if platform.windows then platform.toLowerCase normalized else normalized

def canonicalPathKey (filePath : String) : String := normalizePathKey platform filePath

def leafName (filePath : String) : String := String.ofList ((stripSlashes filePath).rtakeWhile (· ≠ '/'))

/-- `replace(/[^a-z0-9]+/g, "-")` -/
def dashRuns : Bool → List Char → List Char
  | _, [] => []
  | inRun, c::cs =>
    if c.isDigit || ('a' ≤ c && c ≤ 'z') then c :: dashRuns false cs
    else if inRun then dashRuns true cs
    else '-' :: dashRuns true cs

def slugify (value : String) : String :=
  let dashed := dashRuns false (platform.toLowerCase (trim value)).toList
  let slug := ((dashed.dropWhile (· = '-')).rdropWhile (· = '-')).take 32
  if slug = [] then "workspace" else String.ofList slug

def buildDiscoveredId (candidate : DiscoveredWorkspaceCandidate) : String :=
  let base := slugify platform candidate.name ++ "-" ++ platform.shortHash candidate.canonicalRootPath
  String.ofList (base.toList.map fun c => if c.isAlphanum || ['.', '_', '-'].contains c then c else '-')

/-- The id of a candidate whose first id is taken. -/
def buildCollisionId (candidate : DiscoveredWorkspaceCandidate) : String :=
  buildDiscoveredId platform candidate ++ "-" ++
    platform.shortHash (candidate.canonicalRootPath ++ ":collision")

def implicitTechnicalWorkspaceNames : List String :=
  ["build", "coverage", "dist", "docker", "node_modules", "releases", "runtime", "test", "tests",
    "temp", "tmp"]

def isImplicitTechnicalWorkspaceCandidate (candidate : DiscoveredWorkspaceCandidate) : Bool :=
  [candidate.name, leafName candidate.rootPath, leafName candidate.canonicalRootPath].any fun value =>
    let name := platform.toLocaleLowerCase (trim value)
    name.toList.head? = some '.' || name ∈ implicitTechnicalWorkspaceNames

end Paths

section Limits

def discoveredWorkspaceLimitCeilings : WorkspaceLimits := ⟨64000, 100, 20000, 500000, 500⟩

/-- A positive override lowers the ceiling. -/
def clampLimit (ceiling : ℕ) : Option ℚ → ℚ
  | none => ceiling
  | some value => if 0 < value then min value ceiling else ceiling

def integerLimit (limit : ℚ) : Except String ℕ :=
  if limit.den = 1 ∧ 0 < limit.num then .ok limit.num.toNat else .error "Invalid workspace limits."

def clampDiscoveredLimits (override : Option LimitsOverride) : Except String WorkspaceLimits := do
  let ceilings := discoveredWorkspaceLimitCeilings
  match override with
  | none => return ceilings
  | some override =>
    let maxFileBytes ← integerLimit (clampLimit ceilings.maxFileBytes override.maxFileBytes)
    let maxSearchResults ← integerLimit (clampLimit ceilings.maxSearchResults override.maxSearchResults)
    let maxSearchSnippetBytes ← integerLimit
      (clampLimit ceilings.maxSearchSnippetBytes override.maxSearchSnippetBytes)
    let maxDiffBytes ← integerLimit (clampLimit ceilings.maxDiffBytes override.maxDiffBytes)
    let maxListedFiles ← integerLimit (clampLimit ceilings.maxListedFiles override.maxListedFiles)
    return ⟨maxFileBytes, maxSearchResults, maxSearchSnippetBytes, maxDiffBytes, maxListedFiles⟩

end Limits

section Writes

variable (platform : Platform) (options : MergeWorkspacePoliciesOptions)

def isUnderConfiguredRoot (canonicalRootPath rootPath : String) : Bool :=
  let rootKey := canonicalPathKey platform rootPath
  let pathKey := canonicalPathKey platform canonicalRootPath
  pathKey = rootKey || (rootKey ++ "/").toList.isPrefixOf pathKey.toList

/-- A root is configured where it is switched on and not empty. -/
def configuredRoot (enabled : Option Bool) (rootPath : Option String) : Option String :=
  if enabled = some true then rootPath.filter (!·.isEmpty) else none

def isAutoWriteEligible (canonicalRootPath : String) : Bool :=
  (configuredRoot options.enableProjectWrites options.projectRootPath).any
      (isUnderConfiguredRoot platform canonicalRootPath) ||
    (configuredRoot options.enableDevelopmentWrites options.developmentRootPath).any
      (isUnderConfiguredRoot platform canonicalRootPath)

def isConfiguredProjectRoot (canonicalRootPath : String) : Bool :=
  (configuredRoot options.enableProjectWrites options.projectRootPath).any fun rootPath =>
    canonicalPathKey platform canonicalRootPath = canonicalPathKey platform rootPath

def withAutoWriteAccess (workspace : WorkspacePolicy) (canonicalRootPath : String) : WorkspacePolicy :=
  if !isAutoWriteEligible platform options canonicalRootPath then workspace
  else
    { workspace with
      workspaceKind :=
        if isConfiguredProjectRoot platform options
          canonicalRootPath then some .aggregate else workspace.workspaceKind
      permissionProfile := .fullRepoWrite
      allowWrites := ["."]
      allowShell := ["."]
      allowedShells := supportedShells }

end Writes

section Merge

variable (platform : Platform) (options : MergeWorkspacePoliciesOptions)

/-- `Map.set` -/
def setKey {β : Type} (entries : List (String × β)) (key : String) (value : β) : List (String × β) :=
  if key ∈ entries.map (·.1) then entries.map fun entry => if entry.1 = key then (key, value) else entry
  else entries ++ [(key, value)]

structure Merging where
  merged : List (String × WorkspacePolicy)
  catalog : List WorkspaceCatalogEntryMeta
  usedIds : List String

def ExplicitPolicyInput.key (entry : ExplicitPolicyInput) : String :=
  canonicalPathKey platform entry.canonicalRootPath

def DiscoveredWorkspaceCandidate.key (candidate : DiscoveredWorkspaceCandidate) : String :=
  canonicalPathKey platform candidate.canonicalRootPath

/-- `explicitByPath.get` -/
def explicitByPath (entries : List ExplicitPolicyInput) (key : String) : Option ExplicitPolicyInput :=
  lookup (·.key platform) entries key

def denyPaths (entries : List ExplicitPolicyInput) : List String :=
  (entries.filter (!·.workspace.enabled)).map (·.key platform)

def ExplicitPolicyInput.catalogEntry (entry : ExplicitPolicyInput) (source : WorkspaceCatalogSource)
    (canonicalRootPath : String) (trusted : Bool) : WorkspaceCatalogEntryMeta :=
  ⟨source, entry.workspace.id, entry.workspace.name, entry.workspace.rootPath, canonicalRootPath, trusted,
    source ≠ .denyIndex⟩

/-- The first loop over the explicit entries. -/
def indexed (entries : List ExplicitPolicyInput) : Merging where
  merged := []
  catalog := (entries.filter (!·.workspace.enabled)).map fun entry =>
    entry.catalogEntry .denyIndex entry.canonicalRootPath true
  usedIds := entries.map (·.workspace.id)

def discoveredId (candidate : DiscoveredWorkspaceCandidate) (usedIds : List String) : String :=
  if buildDiscoveredId platform candidate ∈ usedIds then buildCollisionId platform candidate
  else buildDiscoveredId platform candidate

def createDiscoveredWorkspace (candidate : DiscoveredWorkspaceCandidate) (limits : WorkspaceLimits)
    (usedIds : List String) : WorkspacePolicy where
  id := discoveredId platform candidate usedIds
  name := candidate.name
  rootPath := candidate.rootPath
  workspaceKind := some .repository
  enabled := true
  permissionProfile := .planningReadonly
  confirmationMode := .standard
  allowedRoots := ["."]
  blockedGlobs := []
  limits := limits
  allowWrites := []
  allowShell := []
  allowedShells := [.powershell]

def Merging.push (m : Merging) (key : String) (workspace : WorkspacePolicy)
    (entry : WorkspaceCatalogEntryMeta) : Merging :=
  { m with merged := setKey m.merged key workspace, catalog := m.catalog ++ [entry] }

/-- A candidate that is passed over before its path is looked up. -/
def passedOver (entries : List ExplicitPolicyInput) (candidate : DiscoveredWorkspaceCandidate) : Bool :=
  (options.requireTrustedWorkspace.getD true && !candidate.trusted) ||
    candidate.key platform ∈ denyPaths platform entries

/-- A turn of the loop over the discovered candidates. -/
def mergeCandidate (entries : List ExplicitPolicyInput) (limits : WorkspaceLimits) (m : Merging)
    (candidate : DiscoveredWorkspaceCandidate) : Merging :=
  let key := candidate.key platform
  if passedOver platform options entries candidate then m
  else
    match explicitByPath platform entries key with
    | some explicit =>
      if explicit.workspace.enabled then
        m.push key (withAutoWriteAccess platform options explicit.workspace candidate.canonicalRootPath)
          (explicit.catalogEntry .explicit candidate.canonicalRootPath candidate.trusted)
      else m
    | none =>
      if isImplicitTechnicalWorkspaceCandidate platform candidate then m
      else
        let created := createDiscoveredWorkspace platform candidate limits m.usedIds
        let workspace := withAutoWriteAccess platform options created candidate.canonicalRootPath
        { m with usedIds := m.usedIds ++ [created.id] }.push key workspace
          ⟨.discovered, workspace.id, workspace.name, workspace.rootPath,
            candidate.canonicalRootPath, candidate.trusted, true⟩

/-- A turn of the loop that always exposes explicit entries. -/
def exposeExplicit (m : Merging) (entry : ExplicitPolicyInput) : Merging :=
  let key := entry.key platform
  if !entry.workspace.enabled then m
  else if key ∈ m.merged.map (·.1) then m
  else
    m.push key (withAutoWriteAccess platform options entry.workspace entry.canonicalRootPath)
      (entry.catalogEntry .explicit entry.canonicalRootPath true)

structure MergeWorkspacePoliciesResult where
  workspaces : List WorkspacePolicy
  catalog : List WorkspaceCatalogEntryMeta
  merged : List (String × WorkspacePolicy)

/-- Both loops. -/
def merging (entries : List ExplicitPolicyInput) (discovered : List DiscoveredWorkspaceCandidate)
    (limits : WorkspaceLimits) : Merging :=
  let opened :=
    if options.includeOpenWorkspaces.getD true then
      discovered.foldl (mergeCandidate platform options entries limits) (indexed entries)
    else indexed entries
  if options.alwaysExposeExplicit.getD false then entries.foldl
    (exposeExplicit platform options) opened else opened

def mergeWorkspacePolicies (entries : List ExplicitPolicyInput)
    (discovered : List DiscoveredWorkspaceCandidate) :
    Except String MergeWorkspacePoliciesResult := do
  let limits ← clampDiscoveredLimits options.discoveredLimitsOverride
  let m := merging platform options entries discovered limits
  let workspaces := (m.merged.map (·.2)).mergeSort fun left right => platform.inOrder left.id right.id
  if workspaces.isEmpty then throw "MERGE_EMPTY_POLICY: no workspaces available after merge"
  return ⟨workspaces, m.catalog, m.merged⟩

end Merge

end AccessStack.Policies
