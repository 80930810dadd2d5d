import AccessStack.Text

/-!
# Routing to runtimes

Which companion a call goes to, which runtime owns a workspace, and how a
workspace id is chosen that no other runtime uses.
-/

set_option autoImplicit false

namespace AccessStack.Accounts
open AccessStack.Text

section Devices

structure CompanionRouteCandidate (T : Type) where
  target : T
  deviceId : String
  workspaceIds : List String
  deriving DecidableEq

inductive DeviceRouteSelection (T : Type) where
  | selected (candidate : CompanionRouteCandidate T)
  | absent
  | ambiguous
  deriving DecidableEq

inductive WorkspaceRouteSelection (T : Type) where
  | companion (candidate : CompanionRouteCandidate T)
  | primary
  | absent
  | collision
  deriving DecidableEq

variable {T : Type}

def selectCompanionDevice (candidates : List (CompanionRouteCandidate T))
    (requestedDeviceId : Option String) :
    DeviceRouteSelection T :=
  let eligible := match requestedDeviceId with
    | none => candidates
    | some deviceId => candidates.filter (·.deviceId = deviceId)
  match eligible with
  | [] => .absent
  | [candidate] => .selected candidate
  | _ => .ambiguous

def selectWorkspaceRuntime (candidates : List (CompanionRouteCandidate T)) (workspaceId : String)
    (primaryWorkspaceIds : List String) : WorkspaceRouteSelection T :=
  match candidates.filter fun candidate => workspaceId ∈ candidate.workspaceIds with
  | _::_::_ => .collision
  | [candidate] => if workspaceId ∈ primaryWorkspaceIds then .collision else .companion candidate
  | [] => if workspaceId ∈ primaryWorkspaceIds then .primary else .absent

theorem selectWorkspaceRuntime_collision {candidates : List (CompanionRouteCandidate T)}
    {workspaceId : String} {primaryWorkspaceIds : List String}
    (hone : ∀ a ∈ candidates, ∀ b ∈ candidates, workspaceId ∈ a.workspaceIds →
      workspaceId ∈ b.workspaceIds → a = b)
    (hdistinct : candidates.Nodup)
    (hprimary : ∀ a ∈ candidates, workspaceId ∈ a.workspaceIds → workspaceId ∉ primaryWorkspaceIds) :
    selectWorkspaceRuntime candidates workspaceId primaryWorkspaceIds ≠ .collision := by
  have hmem : ∀ a ∈ candidates.filter (fun candidate => decide (workspaceId ∈ candidate.workspaceIds)),
      a ∈ candidates ∧ workspaceId ∈ a.workspaceIds := by
    intro a ha
    simpa using ha
  have hnodup := hdistinct.filter fun candidate => decide (workspaceId ∈ candidate.workspaceIds)
  unfold selectWorkspaceRuntime
  split
  · rename_i a b rest hmatching
    rw [hmatching] at hmem hnodup
    have ha := hmem a (by simp)
    have hb := hmem b (by simp)
    have hsame := hone a ha.1 b hb.1 ha.2 hb.2
    simp [hsame] at hnodup
  · rename_i a hmatching
    rw [hmatching] at hmem
    have ha := hmem a (by simp)
    simp [hprimary a ha.1 ha.2]
  · split_ifs <;> simp

end Devices

section WorkspaceIds

inductive RuntimeScope where
  | localDevice | remote
  deriving DecidableEq

def RuntimeScope.name : RuntimeScope → String
  | .localDevice => "local"
  | .remote => "remote"

/-- The code units `charCodeAt` reads. -/
def utf16Units (value : String) : List ℕ :=
  value.toList.flatMap fun c =>
    if c.toNat < 0x10000 then [c.toNat]
    else [0xd800 + (c.toNat - 0x10000) / 0x400, 0xdc00 + (c.toNat - 0x10000) % 0x400]

def stableWorkspaceKeyHash (value : String) : String :=
  let hash := (utf16Units value).foldl (fun hash unit => ((hash ^^^ unit) * 0x01000193) % 2^32) 0x811c9dc5
  String.ofList ((Nat.toDigits 16 hash).leftpad 8 '0')

def isWorkspaceId (value : String) : Bool :=
  bounded Char.isAlphanum (fun c => c.isAlphanum || ['.', '_', '-'].contains c) 199 value

def workspaceSuffix (scope : RuntimeScope) (hash : String) (attempt : ℕ) : String :=
  if attempt = 0 then "-" ++ scope.name ++ "-" ++ hash
  else "-" ++ scope.name ++ "-" ++ hash ++ "-" ++ toString (attempt + 1)

def workspaceCandidate (requested : String) (scope : RuntimeScope) (hash : String) (attempt : ℕ) : String :=
  let suffix := workspaceSuffix scope hash attempt
  let start := ((requested.toList.take (max 1 (200 - suffix.length))).rdropWhile
    fun c => ['.', '_', '-'].contains c)
  (if start = [] then "repository" else String.ofList start) ++ suffix

def selectAvailableRuntimeWorkspaceId (requestedWorkspaceId stableKey : String)
    (reservedWorkspaceIds : List String) (scope : RuntimeScope) : Except String String :=
  let requested := trim requestedWorkspaceId
  if !isWorkspaceId requested then .error "Runtime workspace id is invalid."
  else if requested ∉ reservedWorkspaceIds then .ok requested
  else
    match ((List.range 4096).map
      (workspaceCandidate requested scope (stableWorkspaceKeyHash stableKey))).find?
      (· ∉ reservedWorkspaceIds) with
    | some candidate => .ok candidate
    | none => .error "Runtime workspace id namespace is exhausted."

def selectAvailableCompanionWorkspaceId (requestedWorkspaceId stableKey : String)
    (reservedWorkspaceIds : List String) : Except String String :=
  selectAvailableRuntimeWorkspaceId requestedWorkspaceId stableKey reservedWorkspaceIds .localDevice

theorem selectAvailable_free {requestedWorkspaceId stableKey : String} {reservedWorkspaceIds : List String}
    {scope : RuntimeScope} {workspaceId : String}
    (h : selectAvailableRuntimeWorkspaceId requestedWorkspaceId stableKey reservedWorkspaceIds scope =
      .ok workspaceId) : workspaceId ∉ reservedWorkspaceIds := by
  unfold selectAvailableRuntimeWorkspaceId at h
  generalize (List.range 4096).map (workspaceCandidate (trim requestedWorkspaceId) scope
    (stableWorkspaceKeyHash stableKey)) = candidates at h
  simp only at h
  split at h
  · cases h
  split at h
  · rename_i hfree
    cases h
    exact hfree
  split at h
  · rename_i candidate hfound
    cases h
    simpa using List.find?_some hfound
  · cases h

end WorkspaceIds

end AccessStack.Accounts
