import AccessStack.Text
import AccessStack.Rows
import AccessStack.Walk

/-!
# Workflow blueprints and their validation

The release vocabulary of `types.ts` and the acceptance test of
`validate-blueprint.ts`. The test reads a blueprint in the order of the
source: identity, stages, gates, steps, dependencies, and last a depth-first
walk along `dependsOn`. It never follows `requiredGates` or `healthGateId`.
-/

set_option autoImplicit false

namespace AccessStack.Release
open AccessStack.Text AccessStack.Rows

inductive RunStatus where
  | planned | running | pausedOutcomeUnknown | failed | succeeded
  deriving DecidableEq

inductive StepStatus where
  | pending | inProgress | outcomeUnknown | failed | succeeded
  deriving DecidableEq

inductive AttemptStatus where
  | intentRecorded | outcomeUnknown | resolvedNotApplied | failed | succeeded
  deriving DecidableEq

inductive GateStatus where
  | pending | passed | failed | outcomeUnknown
  deriving DecidableEq

inductive Stage where
  | buildRelease | deployment | homologation
  deriving DecidableEq

inductive Action where
  | resolveMainCommit | verifyCanonicalCi | publishReleaseTag | buildAndSignRelease
  | publishSignedRelease | verifyReleaseAssets | deployEdge | verifyEdgeHealth
  | prepareOracle | prepareWindows | validateOracleCandidate | validateWindowsCandidate
  | promoteOracle | verifyOracleHealth | promoteWindows | verifyWindowsHealth
  | reconcileFinalPointers | smokeCatalog | cleanupKnownTemporaryResidue
  deriving DecidableEq

inductive ExecutionClass where
  | readOnly | externalEffect
  deriving DecidableEq

inductive StepOutcome where
  | succeeded | failed
  deriving DecidableEq

inductive GateOutcome where
  | passed | failed
  deriving DecidableEq

inductive ReconciliationOutcome where
  | applied | notApplied | stillUnknown
  deriving DecidableEq

def releaseStages : List Stage := [.buildRelease, .deployment, .homologation]

def releaseActions : List Action :=
  [.resolveMainCommit, .verifyCanonicalCi, .publishReleaseTag, .buildAndSignRelease,
    .publishSignedRelease, .verifyReleaseAssets, .deployEdge, .verifyEdgeHealth,
    .prepareOracle, .prepareWindows, .validateOracleCandidate, .validateWindowsCandidate,
    .promoteOracle, .verifyOracleHealth, .promoteWindows, .verifyWindowsHealth,
    .reconcileFinalPointers, .smokeCatalog, .cleanupKnownTemporaryResidue]

structure StepDefinition where
  id : String
  stage : Stage
  action : Action
  executionClass : ExecutionClass
  dependsOn : List String
  requiredGates : List String
  healthGateId : Option String
  deriving DecidableEq

structure HealthGateDefinition where
  id : String
  stage : Stage
  requiredEvidenceKinds : List String
  deriving DecidableEq

structure Blueprint where
  id : String
  version : ℤ
  name : String
  historicalReference : String
  stages : List Stage
  gates : List HealthGateDefinition
  steps : List StepDefinition
  deriving DecidableEq

/-- `definition.healthGateId` as a condition: the empty string counts as
absent, like `undefined`. -/
def StepDefinition.measuredGate (s : StepDefinition) : Option String :=
  s.healthGateId.filter (· ≠ "")

inductive ErrorCode where
  | invalidArgument | blueprintNotFound | blueprintInvalid | blueprintVersionConflict
  | runNotFound | stepNotFound | gateNotFound | invalidTransition
  | dependencyNotSatisfied | gateNotPassed | reconciliationRequired
  | idempotencyKeyConflict | operationNotFound | evidenceNotFound
  | ledgerPathInvalid | ledgerSchemaInvalid
  deriving DecidableEq

structure OrchestratorError where
  code : ErrorCode
  message : String
  deriving DecidableEq

abbrev Fallible := Except OrchestratorError

def fail {α : Type} (code : ErrorCode) (message : String) : Fallible α :=
  .error ⟨code, message⟩

def failIf (c : Bool) (code : ErrorCode) (message : String) : Fallible Unit :=
  if c then fail code message else .ok ()

@[simp] theorem failIf_ok {c : Bool} {code : ErrorCode} {message : String} {u : Unit} :
    failIf c code message = .ok u ↔ c = false := by
  cases c <;> simp [failIf, fail]

def isIdentifier (value : String) : Bool :=
  bounded Char.isLower (fun c => c.isLower || c.isDigit || c = '_' || c = '-') 79 value

def stageName : Stage → String
  | .buildRelease => "build_release"
  | .deployment => "deployment"
  | .homologation => "homologation"

/-- The gate loop; `seen` holds the ids of the gates before. -/
def checkGates (stages : List Stage) : List String → List HealthGateDefinition → Fallible Unit
  | _, [] => .ok ()
  | seen, gate::rest => do
    failIf (!isIdentifier gate.id || seen.contains gate.id || !stages.contains gate.stage ||
        gate.requiredEvidenceKinds.isEmpty || !decide gate.requiredEvidenceKinds.Nodup ||
        gate.requiredEvidenceKinds.any (fun kind => !isIdentifier kind))
      .blueprintInvalid ("Invalid or duplicate health gate " ++ gate.id ++ ".")
    checkGates stages (seen ++ [gate.id]) rest

/-- The step loop; `seen` holds the ids of the steps before. -/
def checkSteps (stages : List Stage) (gates : List String) :
    List String → List StepDefinition → Fallible Unit
  | _, [] => .ok ()
  | seen, step::rest => do
    failIf (!isIdentifier step.id || seen.contains step.id || !stages.contains step.stage ||
        !releaseActions.contains step.action ||
        !([.readOnly, .externalEffect] : List ExecutionClass).contains step.executionClass)
      .blueprintInvalid ("Invalid or duplicate workflow step " ++ step.id ++ ".")
    failIf (step.measuredGate.any fun gateId => !gates.contains gateId)
      .blueprintInvalid ("Step " ++ step.id ++ " references an unknown health gate.")
    failIf (step.requiredGates.any fun gateId => !gates.contains gateId)
      .blueprintInvalid ("Step " ++ step.id ++ " requires an unknown health gate.")
    checkSteps stages gates (seen ++ [step.id]) rest

def checkDependencies (steps : List StepDefinition) : Fallible Unit :=
  steps.forM fun step => failIf
    (step.dependsOn.any fun dependency =>
      !(steps.map (·.id)).contains dependency || dependency == step.id)
    .blueprintInvalid ("Step " ++ step.id ++ " has an invalid dependency.")

/-- The walk of `assertAcyclic`. Its set `visiting` is the path of the walk;
the fuel exceeds the number of steps, so it bounds no accepted path. -/
def assertAcyclic (blueprint : Blueprint) : Fallible (List String) :=
  Walk.visitAll (fun stepId => (blueprint.steps.find? (·.id == stepId)).map (·.dependsOn))
    (fun stepId => ⟨.blueprintInvalid, "Workflow dependency cycle includes " ++ stepId ++ "."⟩)
    (fun stepId => ⟨.blueprintInvalid, "Missing step " ++ stepId ++ "."⟩)
    (blueprint.steps.length+1) (blueprint.steps.map (·.id))

def validateWorkflowBlueprint (blueprint : Blueprint) : Fallible Unit := do
  failIf (!isIdentifier blueprint.id || blueprint.version < 1 || blank blueprint.name ||
      blank blueprint.historicalReference)
    .blueprintInvalid "Blueprint identity and version are invalid."
  failIf (blueprint.stages.length ≠ releaseStages.length)
    .blueprintInvalid "Blueprint must declare all canonical release stages."
  releaseStages.forM fun stage => failIf (!blueprint.stages.contains stage)
    .blueprintInvalid ("Blueprint is missing stage " ++ stageName stage ++ ".")
  checkGates blueprint.stages [] blueprint.gates
  checkSteps blueprint.stages (blueprint.gates.map (·.id)) [] blueprint.steps
  checkDependencies blueprint.steps
  let _ ← assertAcyclic blueprint

/-- What acceptance says about the declarations of a blueprint. -/
structure Wellformed (b : Blueprint) : Prop where
  identity : isIdentifier b.id = true ∧ 1 ≤ b.version
  gateIds : (b.gates.map (·.id)).Nodup
  gates : ∀ g ∈ b.gates, isIdentifier g.id = true ∧ g.requiredEvidenceKinds ≠ [] ∧
    ∀ kind ∈ g.requiredEvidenceKinds, isIdentifier kind = true
  stepIds : (b.steps.map (·.id)).Nodup
  steps : ∀ s ∈ b.steps, isIdentifier s.id = true ∧
    (∀ g ∈ s.measuredGate, g ∈ b.gates.map (·.id)) ∧
    ∀ g ∈ s.requiredGates, g ∈ b.gates.map (·.id)
  dependencies : ∀ s ∈ b.steps, ∀ d ∈ s.dependsOn, d ∈ b.steps.map (·.id) ∧ d ≠ s.id
  acyclic : ∃ rank : String → ℕ, ∀ s ∈ b.steps, ∀ d ∈ s.dependsOn, rank d < rank s.id

theorem checkGates_ok {stages : List Stage} {seen : List String}
    {gates : List HealthGateDefinition} (h : checkGates stages seen gates = .ok ())
    (hs : seen.Nodup) :
    (seen ++ gates.map (·.id)).Nodup ∧ ∀ g ∈ gates, isIdentifier g.id = true ∧
      g.requiredEvidenceKinds ≠ [] ∧ ∀ kind ∈ g.requiredEvidenceKinds, isIdentifier kind = true := by
  induction gates generalizing seen with
  | nil => simpa using hs
  | cons g gates ih =>
    simp only [checkGates, bind_ok, failIf_ok, Bool.or_eq_false_iff, Bool.not_eq_false',
      List.isEmpty_eq_false_iff, List.any_eq_false, Bool.not_eq_true'] at h
    obtain ⟨_, ⟨⟨⟨⟨⟨h1, h2⟩, _⟩, h4⟩, _⟩, h6⟩, h⟩ := h
    have hn : (seen ++ [g.id]).Nodup := by
      rw [List.nodup_append]
      refine ⟨hs, by simp, ?_⟩
      rintro a ha b hb rfl
      obtain rfl := List.mem_singleton.mp hb
      simp [ha] at h2
    obtain ⟨hn', hg⟩ := ih h hn
    refine ⟨by simpa using hn', ?_⟩
    intro k hk
    rcases List.mem_cons.mp hk with rfl | hk
    · exact ⟨h1, h4, fun kind hm => by simpa using h6 kind hm⟩
    · exact hg k hk

theorem checkSteps_ok {stages : List Stage} {gates seen : List String}
    {steps : List StepDefinition} (h : checkSteps stages gates seen steps = .ok ())
    (hs : seen.Nodup) :
    (seen ++ steps.map (·.id)).Nodup ∧ ∀ s ∈ steps, isIdentifier s.id = true ∧
      (∀ g ∈ s.measuredGate, g ∈ gates) ∧ ∀ g ∈ s.requiredGates, g ∈ gates := by
  induction steps generalizing seen with
  | nil => simpa using hs
  | cons s steps ih =>
    simp only [checkSteps, bind_ok, failIf_ok, Bool.or_eq_false_iff, Bool.not_eq_false',
      List.any_eq_false, Bool.not_eq_true'] at h
    obtain ⟨_, ⟨⟨⟨⟨h1, h2⟩, _⟩, _⟩, _⟩, _, h3, _, h4, h⟩ := h
    have hn : (seen ++ [s.id]).Nodup := by
      rw [List.nodup_append]
      refine ⟨hs, by simp, ?_⟩
      rintro a ha b hb rfl
      obtain rfl := List.mem_singleton.mp hb
      simp [ha] at h2
    obtain ⟨hn', hg⟩ := ih h hn
    refine ⟨by simpa using hn', ?_⟩
    intro t ht
    rcases List.mem_cons.mp ht with rfl | ht
    · refine ⟨h1, ?_, fun g hg => by simpa using h4 g hg⟩
      intro g hg
      cases hm : t.measuredGate with
      | none => simp [hm] at hg
      | some g' =>
        obtain rfl : g' = g := by simpa [hm] using hg
        simpa [hm] using h3
    · exact hg t ht

theorem forM_ok {α : Type} {xs : List α} {f : α → Fallible Unit}
    (h : xs.forM f = .ok ()) : ∀ x ∈ xs, f x = .ok () := by
  induction xs with
  | nil => simp
  | cons x xs ih =>
    simp only [List.forM, bind_ok] at h
    obtain ⟨_, hx, h⟩ := h
    intro y hy
    rcases List.mem_cons.mp hy with rfl | hy
    · exact hx
    · exact ih h y hy

theorem find_step {steps : List StepDefinition} (hn : (steps.map (·.id)).Nodup)
    {s : StepDefinition} (hs : s ∈ steps) : steps.find? (·.id == s.id) = some s :=
  find_of_mem hn hs (by simp) (by simp)

/-- The walk refuses exactly the cycles along `dependsOn`. -/
theorem assertAcyclic_iff {b : Blueprint} (hn : (b.steps.map (·.id)).Nodup)
    (hd : ∀ s ∈ b.steps, ∀ d ∈ s.dependsOn, d ∈ b.steps.map (·.id)) :
    (∃ done, assertAcyclic b = .ok done) ↔
      ∃ rank : String → ℕ, ∀ s ∈ b.steps, ∀ d ∈ s.dependsOn, rank d < rank s.id := by
  constructor
  · rintro ⟨done, h⟩
    obtain ⟨rank, hr⟩ := Walk.visitAll_ranks h
    refine ⟨rank, fun s hs => ?_⟩
    obtain ⟨children, hc, hlt⟩ := hr s.id (List.mem_map_of_mem hs)
    rw [find_step hn hs] at hc
    obtain rfl : s.dependsOn = children := by simpa using hc
    exact hlt
  · rintro ⟨rank, hr⟩
    refine Walk.visitAll_succeeds rank ?_ (by simp)
    intro a ha
    obtain ⟨s, hs, rfl⟩ := List.mem_map.mp ha
    exact ⟨s.dependsOn, by simp [find_step hn hs], fun d h => ⟨hd s hs d h, hr s hs d h⟩⟩

theorem accepted_wellformed {b : Blueprint} (h : validateWorkflowBlueprint b = .ok ()) :
    Wellformed b := by
  simp only [validateWorkflowBlueprint, bind_ok, failIf_ok, Bool.or_eq_false_iff,
    Bool.not_eq_false', decide_eq_false_iff_not, not_lt] at h
  obtain ⟨_, ⟨⟨⟨h1, h2⟩, _⟩, _⟩, _, _, _, _, _, hg, _, hs, _, hd, done, ha, _⟩ := h
  obtain ⟨hgn, hgs⟩ := checkGates_ok hg .nil
  obtain ⟨hsn, hss⟩ := checkSteps_ok hs .nil
  have hdeps : ∀ s ∈ b.steps, ∀ d ∈ s.dependsOn, d ∈ b.steps.map (·.id) ∧ d ≠ s.id := by
    intro s hm d hdm
    have := forM_ok hd s hm
    simp only [failIf_ok, List.any_eq_false, Bool.not_eq_true, Bool.or_eq_false_iff,
      Bool.not_eq_false', beq_eq_false_iff_ne, List.contains_iff_mem] at this
    exact this d hdm
  exact {
    identity := ⟨h1, h2⟩
    gateIds := by simpa using hgn
    gates := hgs
    stepIds := by simpa using hsn
    steps := hss
    dependencies := hdeps
    acyclic := (assertAcyclic_iff (by simpa using hsn) (fun s hm d hdm => (hdeps s hm d hdm).1)).mp
      ⟨done, ha⟩ }

end AccessStack.Release
