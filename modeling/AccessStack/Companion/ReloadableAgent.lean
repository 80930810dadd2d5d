import AccessStack.Runs

/-!
# The agent that follows policy reloads

`ReloadableLocalAgent`: reloads whose constructions end in any order, calls
through the executor proxy and the operations of the Oracle ports. An agent
is named by the number of the reload that built it. What a port makes of a
result after the check of the generation is up to the event. A port looks at
its input before it looks for the agent: an operation of a port is one whose
input has passed, and the others throw whatever the policy is.
-/

set_option autoImplicit false

namespace AccessStack.ReloadableAgent
open AccessStack.Runs

section State

inductive Outcome where
  | building
  | installed
  | failed
  | withoutPolicy
  deriving DecidableEq

structure Reload where
  policy : Option String
  outcome : Outcome
  deriving DecidableEq

structure Operation where
  property : String
  workspaceId : String
  deriving DecidableEq

inductive Answer where
  | workspaces (list : List String)
  | key (text : String)
  | thrown (code message : String)
  | served (agent : ℕ)
  deriving DecidableEq

/-- `started` counts the reloads that had started. -/
structure Call where
  operation : Operation
  started : ℕ
  answer : Answer
  deriving DecidableEq

inductive Port where
  | readMainHead
  | readCommitChecks
  | workflowOperation
  | verifyLightweightTag
  deriving DecidableEq

/-- A workflow asks the policy of the host first. -/
def Port.checks : Port → ℕ
  | .readMainHead | .readCommitChecks => 1
  | .workflowOperation | .verifyLightweightTag => 2

def Port.offline : Port → String
  | .readMainHead | .readCommitChecks => "Oracle source host offline."
  | .workflowOperation | .verifyLightweightTag => "Oracle workflow host offline."

def Port.changed : Port → String
  | .readMainHead | .readCommitChecks => "Oracle source policy changed during read."
  | .workflowOperation | .verifyLightweightTag => "Oracle workflow policy changed during operation."

/-- `between` two checked operations, `since` so many reloads had started. -/
inductive Phase where
  | running (active epoch : ℕ)
  | between (since : ℕ)
  | returned (ended : ℕ)
  | thrown (message : String)
  deriving DecidableEq

structure PortCall where
  port : Port
  left : ℕ
  started : ℕ
  phase : Phase
  deriving DecidableEq

structure State where
  current : Option ℕ
  currentAgent : Option ℕ
  generation : ℕ
  reloads : List Reload
  calls : List Call
  ports : List PortCall
  deriving DecidableEq

def State.initial : State := ⟨none, none, 0, [], [], []⟩

end State

section Service

def State.ready (s : State) : Bool := s.current.isSome

def notMaterialized : String := "No local MCP V3 repository is materialized on this device."

/-- What the proxy answers without an agent. -/
def offline (operation : Operation) : Answer :=
  if operation.property = "listWorkspaces" then .workspaces []
  else if operation.property = "resolveWorkspaceConcurrencyKey" then
    .key ("unavailable:" ++ operation.workspaceId)
  else .thrown "WORKSPACE_NOT_FOUND" notMaterialized

def State.execute (s : State) (operation : Operation) : Answer :=
  match s.current with
  | none => offline operation
  | some active => .served active

/-- `protectRepositoryOperations`: the message when it refuses. -/
def State.protect (s : State) : Option String :=
  if s.ready then none else some "Repository operations require a validated workspace policy."

/-- `checked` up to its await. -/
def State.enter (s : State) (port : Port) : Phase :=
  match s.currentAgent with
  | none => .thrown port.offline
  | some active => .running active s.generation

/-- `checked` after its await. -/
def State.leave (s : State) (port : Port) (left active epoch : ℕ) (accepted : Bool) : Phase :=
  if epoch ≠ s.generation || s.currentAgent ≠ some active then .thrown port.changed
  else if !accepted then .thrown "ORACLE_RELEASE_REFUSED"
  else if left = 0 then .returned s.reloads.length
  else .between s.reloads.length

inductive Event where
  | reload (policy : Option String)
  | built (number : ℕ)
  | failed (number : ℕ)
  | execute (operation : Operation)
  | callPort (port : Port)
  | resolved (number : ℕ) (accepted : Bool)
  | rejected (number : ℕ)
  | goOn (number : ℕ)
  deriving DecidableEq

def reload (s : State) (policy : Option String) : State :=
  { s with
    currentAgent := none
    current := none
    generation := s.generation + 1
    reloads := s.reloads ++ [⟨policy, if policy.isNone then .withoutPolicy else .building⟩] }

/-- The construction of a reload ends. -/
def settle (s : State) (number : ℕ) (installs : Bool) : State :=
  match s.reloads[number]? with
  | some ⟨policy, .building⟩ =>
    if installs then
      { s with
        currentAgent := some number
        current := some number
        reloads := s.reloads.set number ⟨policy, .installed⟩ }
    else { s with reloads := s.reloads.set number ⟨policy, .failed⟩ }
  | _ => s

def State.advance (s : State) (number : ℕ) (p : PortCall) : State := { s with ports := s.ports.set number p }

def State.resolve (s : State) (number : ℕ) (accepted : Bool) : State :=
  match s.ports[number]? with
  | some ⟨port, left, started, .running active epoch⟩ =>
    s.advance number ⟨port, left, started, s.leave port left active epoch accepted⟩
  | _ => s

def State.reject (s : State) (number : ℕ) : State :=
  match s.ports[number]? with
  | some ⟨port, left, started, .running _ _⟩ => s.advance number ⟨port, left, started, .thrown "rejected"⟩
  | _ => s

def State.goOn (s : State) (number : ℕ) : State :=
  match s.ports[number]? with
  | some ⟨port, left, started, .between _⟩ => s.advance number ⟨port, left - 1, started, s.enter port⟩
  | _ => s

def step (s : State) : Event → State
  | .reload policy => reload s policy
  | .built number => settle s number true
  | .failed number => settle s number false
  | .execute operation => { s with calls := s.calls ++ [⟨operation, s.reloads.length, s.execute operation⟩] }
  | .callPort port =>
    { s with ports := s.ports ++ [⟨port, port.checks - 1, s.reloads.length, s.enter port⟩] }
  | .resolved number accepted => s.resolve number accepted
  | .rejected number => s.reject number
  | .goOn number => s.goOn number

/-- A construction of a reload that starts while a port call is between its
operations does not end before the call goes on: that is queued first. -/
def Queued (s : State) : Event → Prop
  | .built number => ∀ p ∈ s.ports, ∀ since, p.phase = .between since → number < since
  | _ => True

/-- No construction ends when a later reload has started. -/
def Latest (s : State) : Event → Prop
  | .built number => number + 1 = s.reloads.length
  | _ => True

end Service

end AccessStack.ReloadableAgent
