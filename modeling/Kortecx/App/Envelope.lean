import Kortecx.Gateway.Seams
import Kortecx.Lib.Text

/-!
A saved App: the blueprint, which is a graph of steps, and the rail of what the App refers
to. A step names the skills, connections, datasets and other Apps it uses; the rail
declares them.
-/

namespace Kortecx.App

open Lib Warrant Std

/-- The kind a step declares; a text that is no kind is kept until it is refused. -/
inductive StepKind where
  | pure
  | model
  | tool
  | http
  | wait
  | conditional
  | exec
  | other (text : String)
deriving DecidableEq, Repr

/-- A step of a blueprint. `args` is the object of arguments of a tool call, as text; the
empty text is no arguments. -/
structure StepSpec where
  kind : Option StepKind := none
  modelId : String := ""
  prompt : String := ""
  toolContract : ExtTreeMap String String := ∅
  params : ExtTreeMap String String := ∅
  args : String := ""
  maxTurns : Option UInt32 := none
  maxToolCalls : Option UInt32 := none
  skills : List String := []
  connections : List String := []
  datasets : List String := []
  apps : List String := []
deriving DecidableEq

/-- An edge, by the positions of its ends. Nothing bounds the numbers an author writes. -/
structure EdgeSpec where
  parent : UInt32
  child : UInt32
  edge : String := "data"
  nonCascade : Bool := false
deriving DecidableEq, Repr

structure DagSpec where
  seed : UInt32 := 0
  steps : List StepSpec
  edges : List EdgeSpec := []
  dynamic : Bool := false
  contextBundles : List String := []
deriving DecidableEq

structure SkillRef where
  name : String
  instructionsRef : String
  tools : ExtTreeMap String String := ∅
deriving DecidableEq

structure ConnectionRef where
  descriptor : String
  credentialRef : String := ""
deriving DecidableEq, Repr

structure DatasetRef where
  datasetRef : String
  casRefs : List String := []
deriving DecidableEq, Repr

/-- A named piece of content an App carries: a context, prompt, rule or memory. -/
structure ArtifactRef where
  name : String
  contentRef : String
deriving DecidableEq, Repr

/-- Whether the tools an App wishes for are the declared ones or all its caller may use. -/
inductive Reach where
  | explicit
  | inheritPrincipal
deriving DecidableEq, Repr

/-- A saved App. `blueprint` is absent for a hosted App and an error for a value that is no
graph. -/
structure AppEnvelope where
  blueprint : Option (Except String DagSpec)
  skills : List SkillRef := []
  connections : List ConnectionRef := []
  datasets : List DatasetRef := []
  apps : List String := []
  modelRoute : String := ""
  reach : Reach := .explicit
  requestedGrants : ExtTreeMap String String := ∅
  secretScope : List String := []
  bundleHandles : List String := []
  datasetRefs : List String := []
  context : List ArtifactRef := []
  prompts : List ArtifactRef := []
  rules : List ArtifactRef := []
  memory : List ArtifactRef := []
  contextRefs : List String := []
  branchHandle : String := ""
  codified : Bool := false

/-- A piece of context, by its label and the content it stands for. -/
@[ext]
structure ContextItemRef where
  name : String
  contentRef : ByteVec 32
deriving DecidableEq, Repr

def isModelStep (s : StepSpec) : Bool :=
  match s.kind with
  | some kind => kind = .model
  | none => s.modelId ≠ "" || s.prompt ≠ ""

namespace DagSpec

/-- The steps without an incoming edge. -/
def roots (dag : DagSpec) : List Nat :=
  (List.range dag.steps.length).filter fun i => i ∉ dag.edges.map (·.child.toNat)

/-- The steps without an outgoing edge. -/
def sinks (dag : DagSpec) : List Nat :=
  (List.range dag.steps.length).filter fun i => i ∉ dag.edges.map (·.parent.toNat)

def entryAgenticStepIndex (dag : DagSpec) : Option Nat :=
  (List.range dag.steps.length).find? fun i =>
    (dag.steps[i]?).any isModelStep && i ∉ dag.edges.map (·.child.toNat)

def modifyStep (dag : DagSpec) (i : Nat) (change : StepSpec → StepSpec) : DagSpec :=
  { dag with steps := dag.steps.modify i change }

/-- Every edge joins two steps of the graph. -/
def EdgesInRange (dag : DagSpec) : Prop :=
  ∀ e ∈ dag.edges, e.parent.toNat < dag.steps.length ∧ e.child.toNat < dag.steps.length

instance decidableEdgesInRange (dag : DagSpec) : Decidable dag.EdgesInRange :=
  inferInstanceAs (Decidable (∀ e ∈ dag.edges, _))

variable {dag : DagSpec} {i : Nat}

theorem mem_sinks :
    i ∈ dag.sinks ↔ i < dag.steps.length ∧ ∀ e ∈ dag.edges, e.parent.toNat ≠ i := by
  simp [sinks]

end DagSpec

/-- The steps that name something, compared without regard to the case of ASCII letters. -/
def stepsNaming (perStep : List (List String)) (name : String) : List Nat :=
  (List.range perStep.length).filter fun i =>
    ((perStep[i]?).getD []).any fun n => eqIgnoreAsciiCase n name

/-- Of those, the model steps: only they can act on what they name. -/
def modelStepsNaming (perStep : List (List String)) (name : String) (dag : DagSpec) : List Nat :=
  (stepsNaming perStep name).filter fun i => (dag.steps[i]?).any isModelStep

/-- What the steps bind, by their positions. -/
structure AppBindings where
  skills : List (List String)
  connections : List (List String)
  datasets : List (List String)
  apps : List (List String)

/-- The bindings are taken off the blueprint before anything else reads it. -/
def AppBindings.takeFrom (dag : DagSpec) : AppBindings × DagSpec :=
  ({ skills := dag.steps.map (·.skills)
     connections := dag.steps.map (·.connections)
     datasets := dag.steps.map (·.datasets)
     apps := dag.steps.map (·.apps) },
    { dag with
      steps := dag.steps.map fun s =>
        { s with skills := [], connections := [], datasets := [], apps := [] } })

end Kortecx.App
