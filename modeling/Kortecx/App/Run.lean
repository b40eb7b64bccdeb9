import Kortecx.App.Author

/-!
The two kinds of runs that are composed and authored: of a saved App, and of a saved
workflow. A workflow goes the way of an App, but first its model steps that share a model
are put in an order.
-/

namespace Kortecx.App

open Lib Gateway Warrant

/-- The steps an edge list leads to from one node are queued, each once. A child past the
steps is an index out of bounds. -/
def enqueueChildren (n : Nat) (edges : List EdgeSpec) (node : Nat) (queue seen : List Nat) :
    Option (List Nat × List Nat) :=
  edges.foldlM (fun (acc : List Nat × List Nat) e =>
    if e.parent.toNat ≠ node then some acc
    else if n ≤ e.child.toNat then none
    else if e.child.toNat ∈ acc.2 then some acc
    else some (acc.1 ++ [e.child.toNat], e.child.toNat :: acc.2)) (queue, seen)

/-- The search through a queue. Each step is queued at most once, and the start once more, so
that `n + 2` rounds empty the queue. -/
def searchQueue (n : Nat) (edges : List EdgeSpec) (target : Nat) :
    Nat → List Nat → List Nat → Option Bool
  | 0, _, _ => some false
  | _ + 1, [], _ => some false
  | rounds + 1, node :: queue, seen =>
    if node = target then some true
    else
      match enqueueChildren n edges node queue seen with
      | none => none
      | some (queue, seen) => searchQueue n edges target rounds queue seen

def DagSpec.reachable (dag : DagSpec) (source target : Nat) : Option Bool :=
  searchQueue dag.steps.length dag.edges target (dag.steps.length + 2) [source] []

/-- One pair of steps on the same model: ordered by an edge, unless it is ordered already. -/
def DagSpec.sequencePair (dag : DagSpec) (pair : Nat × Nat) : Option DagSpec :=
  match dag.reachable pair.1 pair.2 with
  | none => none
  | some true => some dag
  | some false =>
    match dag.reachable pair.2 pair.1 with
    | none => none
    | some true => some dag
    | some false =>
      some { dag with
        edges := dag.edges ++
          [{ parent := u32OrMax pair.1, child := u32OrMax pair.2, edge := "control"
             nonCascade := true }] }

/-- The model steps in groups by their model, the models in the order of their names. -/
def DagSpec.modelGroups (dag : DagSpec) : List (List Nat) :=
  let ids := ((dag.steps.filter isModelStep).map (·.modelId)).dedup.insertionSort (· ≤ ·)
  ids.map fun id =>
    (List.range dag.steps.length).filter fun i =>
      (dag.steps[i]?).any fun s => isModelStep s && s.modelId = id

def sequenceSameRouteModelSteps (dag : DagSpec) : Option DagSpec :=
  (dag.modelGroups.flatMap fun indices => indices.zip indices.tail).foldlM DagSpec.sequencePair dag

/-- Sequencing adds edges and leaves the rest. -/
theorem sequencePair_steps {dag : DagSpec}
    (h : dag.sequencePair pair = some dag') : dag'.steps = dag.steps := by
  unfold DagSpec.sequencePair at h
  split at h
  · cases h
  · cases h; rfl
  split at h
  · cases h
  · cases h; rfl
  · cases h; rfl

theorem sequenceSameRoute_steps
    (h : sequenceSameRouteModelSteps dag = some dag') : dag'.steps = dag.steps := by
  unfold sequenceSameRouteModelSteps at h
  generalize (dag.modelGroups.flatMap fun indices => indices.zip indices.tail) = pairs at h
  induction pairs generalizing dag with
  | nil => cases h; rfl
  | cons pair rest ih =>
    rw [List.foldlM_cons] at h
    cases hpair : dag.sequencePair pair with
    | none => rw [hpair] at h; cases h
    | some next =>
      rw [hpair] at h
      exact (ih h).trans (sequencePair_steps hpair)

/-- What a run starts from: a saved App or a saved workflow, by its handle. -/
inductive RunTarget where
  | app (handle : String)
  | workflow (handle : String)
deriving DecidableEq, Repr

abbrev WorkflowCatalog := String → String → Except String (Option (Except String AppEnvelope))

section Run

variable (host : AppHost) (workflows : WorkflowCatalog)

/-- A workflow made ready. An edge that points past its steps makes the search of the
sequencing fail, and the run with it. -/
def prepareWorkflow (party handle : String) (args : List UInt8) (requireApproval : Bool) :
    Except AppRunError Prepared :=
  match workflows party handle with
  | .error e => .error (.internal ("workflows.db read: " ++ e))
  | .ok none => .error .notAuthorized
  | .ok (some (.error e)) => .error (.internal ("stored workflow envelope invalid: " ++ e))
  | .ok (some (.ok env)) => do
    let prepared ← prepareEnv host party env handle args requireApproval
    match sequenceSameRouteModelSteps prepared.dag with
    | none => .error (.internal "index out of bounds")
    | some dag => return { prepared with dag }

def prepareRoot (party : String) (target : RunTarget) (args : List UInt8)
    (requireApproval : Bool) : Except AppRunError Prepared :=
  match target with
  | .app handle => prepareApp host party handle args requireApproval
  | .workflow handle => prepareWorkflow host workflows party handle args requireApproval

def RunTarget.handle : RunTarget → String
  | .app handle => handle
  | .workflow handle => handle

/-- The root of a run with everything it calls. The callees come from the catalog of Apps,
whatever the root is. -/
def composeRun (party : String) (target : RunTarget) (args : List UInt8)
    (requireApproval : Bool) : Except AppRunError Prepared := do
  let root ← prepareRoot host workflows party target args requireApproval
  resolveComposes (fun callee => prepareApp host party callee [] requireApproval)
    MAX_APP_COMPOSE_DEPTH root [target.handle]

def authorRun (author : AuthorHost) (party : String) (target : RunTarget) (args : List UInt8)
    (requireApproval : Bool) : Except AppRunError BoundRecipe := do
  let composed ← composeRun host workflows party target args requireApproval
  authorPrepared author party composed

end Run

theorem composeRun_ok {host : AppHost} {workflows : WorkflowCatalog}
    (h : composeRun host workflows party target args requireApproval = .ok p) :
    ∃ root, prepareRoot host workflows party target args requireApproval = .ok root ∧
      resolveComposes (fun callee => prepareApp host party callee [] requireApproval)
        MAX_APP_COMPOSE_DEPTH root [target.handle] = .ok p := by
  unfold composeRun at h
  cases hroot : prepareRoot host workflows party target args requireApproval with
  | error e => rw [hroot] at h; cases h
  | ok root =>
    rw [hroot] at h
    exact ⟨root, rfl, h⟩

/-- The run of an App is its composition. -/
theorem composeRun_app (host : AppHost) (workflows : WorkflowCatalog) (party handle : String)
    (args : List UInt8) (requireApproval : Bool) :
    composeRun host workflows party (.app handle) args requireApproval =
      composeApp host party handle args requireApproval := by
  simp only [composeRun, composeApp, prepareRoot, RunTarget.handle, bind, Except.bind]
  cases prepareApp host party handle args requireApproval <;> rfl

end Kortecx.App
