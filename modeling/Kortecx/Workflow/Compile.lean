import Kortecx.Mote.Definition
import Kortecx.Lib.TopoSort
import Kortecx.Lib.Reader

/-!
The pass that turns a workflow into a graph of Motes. The edges are checked, the steps are
sorted so that each comes after its parents, the least index first, and each step becomes a
Mote whose identity is computed from its definition, its parents' identities and its rank.
-/

namespace Kortecx.Workflow

open Lib Mote Warrant Std Function

inductive StepRole where
  | plain
  | critic (producer : Nat)
  | topologyShaper
  | deterministicCritic (producer : Nat) (check : CheckSpec)

def StepRole.producer : StepRole → Option Nat
  | .critic producer => some producer
  | .deterministicCritic producer _ => some producer
  | _ => none

def StepRole.check : StepRole → Option CheckSpec
  | .deterministicCritic _ check => some check
  | _ => none

def StepRole.isTopologyShaper : StepRole → Bool
  | .topologyShaper => true
  | _ => false

structure StepDef where
  logicRef : LogicRef
  modelId : ModelId
  promptTemplateHash : PromptTemplateHash
  toolContract : ExtTreeMap ToolName ToolVersion := ∅
  ndClass : NdClass
  configSubset : ExtTreeMap ConfigKey ConfigVal := ∅
  effectPattern : EffectPattern
  inferenceParams : InferenceParams := {}
  role : StepRole
  warrant : WarrantSpec
  capability : ToolName

structure StepEdge where
  parent : Nat
  child : Nat
  edge : EdgeMeta
deriving DecidableEq

/-- The steps are a vector, so there are fewer than `2 ^ 63` of them. -/
structure WorkflowDef where
  steps : List StepDef
  edges : List StepEdge
  seed : UInt32
  length_steps : steps.length < 2 ^ 63

inductive CompileError where
  | stepIndexOutOfRange (index : Nat)
  | cycle (index : Nat)
  | invalidCritic (critic producer : Nat)
  | duplicateEdge (parent child : Nat)
deriving DecidableEq, Repr

/-- The Motes of a graph and the parents they declare, by identity. -/
structure MoteGraph where
  nodes : ExtTreeMap MoteId Mote := ∅
  edges : ExtTreeMap MoteId (List ParentRef) := ∅

def MoteGraph.insert (g : MoteGraph) (m : Mote) : MoteGraph where
  nodes := g.nodes.insert m.id m
  edges := g.edges.insert m.id m.parents

structure CompiledMote where
  mote : Mote
  warrant : WarrantSpec
  capability : ToolName
  stepIndex : Nat

structure CompiledWorkflow where
  motes : List CompiledMote
  graph : MoteGraph

structure Adjacency where
  indegree : Nat → Nat := fun _ => 0
  children : Nat → List Nat := fun _ => []
  parentsOf : Nat → List (Nat × EdgeMeta) := fun _ => []

def Adjacency.push (adj : Adjacency) (e : StepEdge) : Adjacency where
  indegree := update adj.indegree e.child (adj.indegree e.child + 1)
  children := update adj.children e.parent (adj.children e.parent ++ [e.child])
  parentsOf := update adj.parentsOf e.child (adj.parentsOf e.child ++ [(e.parent, e.edge)])

/-- One edge is checked and added; `seen` are the pairs before it. -/
def addEdge (n : Nat) (acc : Adjacency × List (Nat × Nat)) (e : StepEdge) :
    Except CompileError (Adjacency × List (Nat × Nat)) :=
  if n ≤ e.parent then .error (.stepIndexOutOfRange e.parent)
  else if n ≤ e.child then .error (.stepIndexOutOfRange e.child)
  else if (e.parent, e.child) ∈ acc.2 then .error (.duplicateEdge e.parent e.child)
  else .ok (acc.1.push e, (e.parent, e.child) :: acc.2)

def checkProducer (n : Nat) (s : StepDef) : Except CompileError Unit :=
  match s.role.producer with
  | some producer =>
    if n ≤ producer then .error (.stepIndexOutOfRange producer) else .ok ()
  | none => .ok ()

def checkProducers (n : Nat) : List StepDef → Except CompileError Unit
  | [] => .ok ()
  | s :: rest => do
    checkProducer n s
    checkProducers n rest

def buildAdjacency (d : WorkflowDef) : Except CompileError Adjacency := do
  let acc ← d.edges.foldlM (addEdge d.steps.length) ({}, [])
  checkProducers d.steps.length d.steps
  return acc.1

def topoOrder (n : Nat) (adj : Adjacency) : Except CompileError (List Nat) :=
  let sorted := TopoSort.sort (List.range n) adj.indegree adj.children
  if sorted.order.length = n then .ok sorted.order
  else .error (.cycle (((List.range n).find? fun i => 0 < sorted.indegree i).getD 0))

def resolveCritic (s : StepDef) (stepIdx : Nat) (moteIds : Nat → Option MoteId) :
    Except CompileError (Option MoteId) :=
  match s.role.producer with
  | some producer =>
    match moteIds producer with
    | some id => .ok (some id)
    | none => .error (.invalidCritic stepIdx producer)
  | none => .ok none

def resolveParent (stepIdx : Nat) (moteIds : Nat → Option MoteId) (parent : Nat × EdgeMeta) :
    Except CompileError ParentRef :=
  match moteIds parent.1 with
  | none => .error (.cycle stepIdx)
  | some parentId => .ok ⟨parentId, parent.2⟩

def ParentLe (a b : ParentRef) : Prop :=
  (compare a.parentId b.parentId).isLE

instance : DecidableRel ParentLe :=
  fun a b => inferInstanceAs (Decidable ((compare a.parentId b.parentId).isLE = true))

def resolveParents (stepIdx : Nat) (parentsOf : Nat → List (Nat × EdgeMeta))
    (moteIds : Nat → Option MoteId) : Except CompileError (List ParentRef) := do
  let parents ← (parentsOf stepIdx).mapM (resolveParent stepIdx moteIds)
  return parents.insertionSort ParentLe

def moteDefFor (s : StepDef) (criticFor : Option MoteId) : MoteDef where
  criticCheck := s.role.check
  logicRef := s.logicRef
  modelId := s.modelId
  promptTemplateHash := s.promptTemplateHash
  toolContract := s.toolContract
  ndClass := s.ndClass
  configSubset := s.configSubset
  effectPattern := s.effectPattern
  criticFor := criticFor
  isTopologyShaper := s.role.isTopologyShaper
  inferenceParams := s.inferenceParams
  schemaVersion := MOTE_DEF_SCHEMA_VERSION

def rankU64 (rank : Nat) : UInt64 :=
  UInt64.ofNat (min rank (2 ^ 64 - 1))

def entrypointInputId (ids : Identity) (seed : UInt32) (rank : UInt64) : InputDataId :=
  ids.blake3 (utf8Bytes "kx-workflow/input-data-id/entrypoint/v1" ++ leBytes 4 seed.toNat ++
    leBytes 8 rank.toNat)

def childInputId (ids : Identity) (parents : List ParentRef) : InputDataId :=
  ids.blake3 (utf8Bytes "kx-workflow/input-data-id/child/v1" ++ parents.flatMap fun p =>
    p.parentId.bytes.toList ++ [p.edge.kind.asU8, if p.edge.nonCascade then 1 else 0])

def moteFor (ids : Identity) (seed : UInt32) (s : StepDef) (rank : Nat) (criticFor : Option MoteId)
    (parents : List ParentRef) : Mote :=
  let inputDataId :=
    if parents.isEmpty then entrypointInputId ids seed (rankU64 rank)
    else childInputId ids parents
  Mote.new ids (moteDefFor s criticFor) inputDataId (leBytes 8 (rankU64 rank).toNat) parents

structure Compiling where
  moteIds : Nat → Option MoteId := fun _ => none
  motes : List CompiledMote := []
  graph : MoteGraph := {}

def Compiling.push (c : Compiling) (cm : CompiledMote) : Compiling where
  moteIds := update c.moteIds cm.stepIndex (some cm.mote.id)
  motes := c.motes ++ [cm]
  graph := c.graph.insert cm.mote

def compileStep (ids : Identity) (d : WorkflowDef) (adj : Adjacency) (c : Compiling)
    (stepIdx : Nat) : Except CompileError Compiling :=
  match d.steps[stepIdx]? with
  -- The order lists existing steps only.
  | none => .error (.stepIndexOutOfRange stepIdx)
  | some s => do
    let criticFor ← resolveCritic s stepIdx c.moteIds
    let parents ← resolveParents stepIdx adj.parentsOf c.moteIds
    return c.push
      { mote := moteFor ids d.seed s c.motes.length criticFor parents
        warrant := s.warrant
        capability := s.capability
        stepIndex := stepIdx }

def compile (ids : Identity) (d : WorkflowDef) : Except CompileError CompiledWorkflow := do
  let adj ← buildAdjacency d
  let order ← topoOrder d.steps.length adj
  let c ← order.foldlM (compileStep ids d adj) {}
  return ⟨c.motes, c.graph⟩

end Kortecx.Workflow
