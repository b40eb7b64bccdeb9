import Kortecx.Coordinator.Routing
import Kortecx.Warrant.Narrow
import Kortecx.Workflow.Exact

/-!
A plan is what a model may write: roles, intents, critics and edges. Lowering gives each step
the warrant and the recipe of its role and wires each critic to what it judges. The compiler
can then refuse the plan only for its edges, and no Mote of it exceeds the parent's warrant.
-/

namespace Kortecx.Planner

open Lib List Mote Warrant Workflow

abbrev RoleId := String

inductive PlanStepKind where
  | plain
  | critic
  | deterministicCritic
  | topologyShaper
deriving DecidableEq, Repr

structure PlanStep where
  role : RoleId
  intent : String
  kind : PlanStepKind := .plain
  producer : Option Nat := none

/-- Parent and child. -/
abbrev PlanEdge := Nat × Nat

/-- The steps are a vector, so there are fewer than `2 ^ 63` of them. -/
structure Plan where
  steps : List PlanStep
  edges : List PlanEdge := []
  length_steps : steps.length < 2 ^ 63

structure RoleRecipe where
  logicRef : LogicRef
  modelId : ModelId
  promptTemplateHash : PromptTemplateHash
  toolContract : Std.ExtTreeMap ToolName ToolVersion := ∅
  capability : ToolName
  ndClass : NdClass
  effectPattern : EffectPattern
  inferenceParams : InferenceParams := {}
  deterministicCheck : Option CheckSpec := none

/-- The errors of lowering; those of decoding a plan are left out. -/
inductive PlanError where
  | invalidProducer (step : Nat) (producer : Option Nat)
  | unknownRole (role : RoleId)
  | unknownRecipe (role : RoleId)
  | missingCheck (role : RoleId)
  | ungrantableTool (role : RoleId) (tool : String)
  | ungrantable (role : RoleId) (source : NarrowingError)
  | compile (e : CompileError)

/-- The step a critic judges. -/
def PlanStep.judged (s : PlanStep) : Option Nat :=
  match s.kind with
  | .critic | .deterministicCritic => s.producer
  | _ => none

namespace Plan

variable (plan : Plan)

def criticEdges : List PlanEdge :=
  (List.range plan.steps.length).filterMap fun i =>
    ((plan.steps[i]?).bind PlanStep.judged).map fun producer => (producer, i)

/-- The declared edges come first; the edge of a critic is added if it is not among them. -/
def wires : List PlanEdge :=
  plan.edges ++ plan.criticEdges.filter (!plan.edges.contains ·)

end Plan

section Lower

variable (parent : WarrantSpec) (roles : RoleId → Option Role)
  (recipes : RoleId → Option RoleRecipe)

def resolveStep (roleId : RoleId) : Except PlanError (WarrantSpec × RoleRecipe) :=
  match roles roleId with
  | none => .error (.unknownRole roleId)
  | some role => do
    let warrant ← (intersect parent role).mapError (.ungrantable roleId)
    match recipes roleId with
    | none => .error (.unknownRecipe roleId)
    | some recipe =>
      match recipe.toolContract.toList.find? fun tool =>
          (⟨tool.1, tool.2⟩ : ToolGrant) ∉ warrant.toolGrants with
      | some tool => .error (.ungrantableTool roleId s!"{tool.1}@{tool.2}")
      | none => .ok (warrant, recipe)

def validProducer (i : Nat) : Option Nat → Except PlanError Nat
  | some producer =>
    if producer < i then .ok producer else .error (.invalidProducer i (some producer))
  | none => .error (.invalidProducer i none)

def stepRoleFor (i : Nat) (s : PlanStep) (recipe : RoleRecipe) : Except PlanError StepRole :=
  match s.kind with
  | .plain => .ok .plain
  | .topologyShaper => .ok .topologyShaper
  | .critic => do
    let producer ← validProducer i s.producer
    return .critic producer
  | .deterministicCritic => do
    let producer ← validProducer i s.producer
    match recipe.deterministicCheck with
    | none => .error (.missingCheck s.role)
    | some check => return .deterministicCritic producer check

def lowerStep (i : Nat) (s : PlanStep) : Except PlanError StepDef := do
  let (warrant, recipe) ← resolveStep parent roles recipes s.role
  let role ← stepRoleFor i s recipe
  return {
    logicRef := recipe.logicRef
    modelId := recipe.modelId
    promptTemplateHash := recipe.promptTemplateHash
    toolContract := recipe.toolContract
    ndClass := recipe.ndClass
    configSubset := (∅ : Std.ExtTreeMap ConfigKey ConfigVal).insert Coordinator.PROMPT_KEY
      (utf8Bytes s.intent)
    effectPattern := recipe.effectPattern
    inferenceParams := recipe.inferenceParams
    role
    warrant
    capability := recipe.capability }

/-- A step is referred to by its position, so an edge that leaves the steps fails here as its
lookup does. -/
def addPlanEdge (n : Nat) (edges : List PlanEdge) (edge : PlanEdge) :
    Except CompileError (List PlanEdge) :=
  if n ≤ edge.1 then .error (.stepIndexOutOfRange edge.1)
  else if n ≤ edge.2 then .error (.stepIndexOutOfRange edge.2)
  else if edges.contains edge then .error (.duplicateEdge edge.1 edge.2)
  else .ok (edges ++ [edge])

def dataEdge (edge : PlanEdge) : StepEdge :=
  ⟨edge.1, edge.2, ⟨.data, false⟩⟩

/-- All edges are data edges, so they are added as pairs. -/
def lowerPlan (plan : Plan) (seed : UInt32) : Except PlanError WorkflowDef :=
  match hsteps : plan.steps.zipIdx.mapM fun step =>
      lowerStep parent roles recipes step.2 step.1 with
  | .error e => .error e
  | .ok steps => do
    let edges ← (plan.wires.foldlM (addPlanEdge steps.length) []).mapError .compile
    return {
      steps
      edges := edges.map dataEdge
      seed
      length_steps := (mapM_zipIdx_ok hsteps).1 ▸ plan.length_steps }

def compilePlan (ids : Identity) (plan : Plan) (seed : UInt32) :
    Except PlanError CompiledWorkflow := do
  let wf ← lowerPlan parent roles recipes plan seed
  (compile ids wf).mapError .compile

end Lower

variable {parent : WarrantSpec} {roles : RoleId → Option Role}
  {recipes : RoleId → Option RoleRecipe} {i n : Nat} {s : PlanStep} {plan : Plan}

theorem error_of_mapError {x : Except CompileError α}
    (h : x.mapError PlanError.compile = .error (.compile e)) : x = .error e := by
  cases x with
  | error _ => simpa [Except.mapError] using h
  | ok _ => cases h

theorem resolveStep_ok (h : resolveStep parent roles recipes roleId = .ok (w, recipe)) :
    w.Within parent ∧ ∀ name version, recipe.toolContract[name]? = some version →
      (⟨name, version⟩ : ToolGrant) ∈ w.toolGrants := by
  unfold resolveStep at h
  split at h
  · cases h
  obtain ⟨warrant, hwarrant, h⟩ := except_bind_eq_ok.1 h
  split at h
  · cases h
  split at h
  · cases h
  rename_i hgranted
  cases h
  refine ⟨.of_intersect (except_mapError_eq_ok.1 hwarrant), fun name version hget => ?_⟩
  have htool := find?_eq_none.1 hgranted _
    (Std.ExtTreeMap.mem_toList_iff_getElem?_eq_some.2 hget)
  simpa using htool

theorem validProducer_ok (h : validProducer i named = .ok producer) :
    named = some producer ∧ producer < i := by
  unfold validProducer at h
  split at h
  · split_ifs at h with hlt
    cases h
    exact ⟨rfl, hlt⟩
  · cases h

/-- A critic judges an earlier step, the one its step names. -/
structure Judging (i : Nat) (s : PlanStep) (role : StepRole) : Prop where
  producer : role.producer = s.judged
  earlier : ∀ producer, s.judged = some producer → producer < i
  named : s.kind = .critic ∨ s.kind = .deterministicCritic →
    ∃ producer, s.producer = some producer ∧ s.judged = some producer

theorem judging_of_stepRoleFor (h : stepRoleFor i s recipe = .ok role) : Judging i s role := by
  unfold stepRoleFor at h
  split at h
  case h_1 hkind | h_2 hkind =>
    cases h
    constructor <;> simp [PlanStep.judged, hkind, StepRole.producer]
  all_goals
    rename_i hkind
    obtain ⟨producer, hproducer, h⟩ := except_bind_eq_ok.1 h
    obtain ⟨hnamed, hlt⟩ := validProducer_ok hproducer
  · cases h
    constructor <;> simp [PlanStep.judged, hkind, StepRole.producer, hnamed, hlt]
  · split at h
    · cases h
    cases h
    constructor <;> simp [PlanStep.judged, hkind, StepRole.producer, hnamed, hlt]

/-- What a step of a plan is lowered to. -/
structure Lowered (parent : WarrantSpec) (i : Nat) (s : PlanStep) (d : StepDef) : Prop
    extends Judging i s d.role where
  warrant : d.warrant.Within parent
  tools : ∀ name version, d.toolContract[name]? = some version →
    (⟨name, version⟩ : ToolGrant) ∈ d.warrant.toolGrants

theorem lowered_of_lowerStep (h : lowerStep parent roles recipes i s = .ok d) :
    Lowered parent i s d := by
  obtain ⟨⟨w, recipe⟩, hresolved, h⟩ := except_bind_eq_ok.1 h
  obtain ⟨role, hrole, h⟩ := except_bind_eq_ok.1 h
  cases h
  obtain ⟨hwithin, htools⟩ := resolveStep_ok hresolved
  exact ⟨judging_of_stepRoleFor hrole, hwithin, htools⟩

/-- No branch of a step's lowering gives an error of the compiler. -/
theorem lowerStep_ne_compile : lowerStep parent roles recipes i s ≠ .error (.compile err) := by
  intro h
  simp only [lowerStep, resolveStep, stepRoleFor, validProducer, Except.mapError, bind,
    Except.bind, pure, Except.pure] at h
  repeat' split at h
  all_goals grind

theorem mem_criticEdges :
    (p, i) ∈ plan.criticEdges ↔ ∃ s, plan.steps[i]? = some s ∧ s.judged = some p := by
  simp only [Plan.criticEdges, mem_filterMap, mem_range, Option.map_eq_some_iff, Prod.mk.injEq,
    Option.bind_eq_some_iff]
  constructor
  · rintro ⟨_, _, _, hs, rfl, rfl⟩
    exact hs
  · rintro ⟨s, hs, hjudged⟩
    exact ⟨i, (List.getElem?_eq_some_iff.1 hs).1, p, ⟨s, hs, hjudged⟩, rfl, rfl⟩

theorem nodup_criticEdges (plan : Plan) : plan.criticEdges.Nodup := by
  apply nodup_range.filterMap
  intro i j pair hi hj
  simp only [Option.mem_def, Option.map_eq_some_iff] at hi hj
  obtain ⟨_, _, rfl⟩ := hi
  obtain ⟨_, _, hpair⟩ := hj
  exact (congrArg Prod.snd hpair).symm

theorem mem_wires : edge ∈ plan.wires ↔ edge ∈ plan.edges ++ plan.criticEdges := by
  by_cases hedge : edge ∈ plan.edges <;> simp [Plan.wires, hedge]

/-- Only a declared edge can be there twice. -/
theorem two_le_count_edges (h : 2 ≤ plan.wires.count edge) : 2 ≤ plan.edges.count edge := by
  rw [Plan.wires, count_append] at h
  by_cases hedge : edge ∈ plan.edges
  · have hnew : edge ∉ plan.criticEdges.filter (!plan.edges.contains ·) := by simp [hedge]
    rwa [count_eq_zero.2 hnew] at h
  · have honce := nodup_iff_count_le_one.1
      ((nodup_criticEdges plan).filter (!plan.edges.contains ·)) edge
    rw [count_eq_zero.2 hedge] at h
    omega

theorem foldlM_addPlanEdge_ok {edges rest wired : List PlanEdge} (hnodup : edges.Nodup)
    (h : rest.foldlM (addPlanEdge n) edges = .ok wired) :
    (∀ edge ∈ rest, edge.1 < n ∧ edge.2 < n) ∧ wired = edges ++ rest ∧ wired.Nodup := by
  induction rest generalizing edges with
  | nil =>
    cases h
    simpa using hnodup
  | cons edge rest ih =>
    rw [foldlM_cons] at h
    obtain ⟨next, hadd, h⟩ := except_bind_eq_ok.1 h
    unfold addPlanEdge at hadd
    split_ifs at hadd with hparent hchild hknown
    cases hadd
    obtain ⟨hrest, rfl, hall⟩ := ih (hnodup.append (nodup_singleton _) (by simpa using hknown)) h
    exact ⟨forall_mem_cons.2 ⟨⟨not_le.1 hparent, not_le.1 hchild⟩, hrest⟩, by simp, hall⟩

/-- What lowering makes of a plan: a step for each step, and its edges with those of its
critics. -/
structure LoweredPlan (parent : WarrantSpec) (plan : Plan) (wf : WorkflowDef) : Prop where
  length : wf.steps.length = plan.steps.length
  steps : ∀ i d, wf.steps[i]? = some d → ∃ s, plan.steps[i]? = some s ∧ Lowered parent i s d
  edges : wf.edges = plan.wires.map dataEdge
  range : ∀ edge ∈ plan.wires, edge.1 < wf.steps.length ∧ edge.2 < wf.steps.length
  nodup : plan.wires.Nodup

theorem lowered_of_mapM
    (hsteps : (plan.steps.zipIdx.mapM fun step => lowerStep parent roles recipes step.2 step.1) =
      .ok steps) :
    steps.length = plan.steps.length ∧ ∀ i d, steps[i]? = some d →
      ∃ s, plan.steps[i]? = some s ∧ Lowered parent i s d := by
  obtain ⟨hlength, hat⟩ := mapM_zipIdx_ok hsteps
  refine ⟨hlength, fun i d hd => ?_⟩
  obtain ⟨s, hs, hlowered⟩ := hat i d hd
  exact ⟨s, hs, lowered_of_lowerStep hlowered⟩

theorem loweredPlan_of_lowerPlan (h : lowerPlan parent roles recipes plan seed = .ok wf) :
    LoweredPlan parent plan wf := by
  unfold lowerPlan at h
  split at h
  · cases h
  rename_i steps hsteps
  obtain ⟨edges, hedges, h⟩ := except_bind_eq_ok.1 h
  cases h
  obtain ⟨hlength, hlowered⟩ := lowered_of_mapM hsteps
  obtain ⟨hrange, rfl, hnodup⟩ :=
    foldlM_addPlanEdge_ok nodup_nil (except_mapError_eq_ok.1 hedges)
  exact ⟨hlength, hlowered, rfl, hrange, hnodup⟩

/-- Only the plan's own edges can make lowering fail as an edge does. -/
theorem lowerPlan_compile_error
    (h : lowerPlan parent roles recipes plan seed = .error (.compile err)) :
    (∃ edge ∈ plan.edges, ∃ ref ∈ [edge.1, edge.2], plan.steps.length ≤ ref ∧
      err = .stepIndexOutOfRange ref) ∨
    ∃ edge, 2 ≤ plan.edges.count edge ∧ err = .duplicateEdge edge.1 edge.2 := by
  unfold lowerPlan at h
  split at h
  · rename_i hsteps
    cases h
    obtain ⟨_, _, hstep⟩ := exists_error_of_mapM hsteps
    exact absurd hstep lowerStep_ne_compile
  rename_i steps hsteps
  obtain ⟨hlength, hlowered⟩ := lowered_of_mapM hsteps
  rcases except_bind_eq_error.1 h with hedges | ⟨_, _, hpure⟩
  swap
  · cases hpure
  obtain ⟨before, edge, later, wired, hsplit, hbefore, hfail⟩ :=
    exists_error_of_foldlM (error_of_mapError hedges)
  obtain ⟨_, rfl, _⟩ := foldlM_addPlanEdge_ok nodup_nil hbefore
  -- a critic and what it judges are steps of the plan
  have hdeclared : ∀ ref ∈ [edge.1, edge.2], steps.length ≤ ref → edge ∈ plan.edges := by
    intro ref href hout
    have hedge : edge ∈ plan.wires := by simp [hsplit]
    refine (mem_append.1 (mem_wires.1 hedge)).resolve_right fun hcritic => ?_
    obtain ⟨s, hs, hjudged⟩ := mem_criticEdges.1 hcritic
    have hi := (List.getElem?_eq_some_iff.1 hs).1
    obtain ⟨s', hs', hstep⟩ := hlowered edge.2 _ (List.getElem?_eq_getElem (hlength ▸ hi))
    cases hs.symm.trans hs'
    have hearlier := hstep.earlier _ hjudged
    simp only [mem_cons, not_mem_nil, or_false] at href
    omega
  unfold addPlanEdge at hfail
  split_ifs at hfail with hparent hchild hknown
  · cases hfail
    exact .inl ⟨edge, hdeclared edge.1 (by simp) hparent, _, by simp, hlength ▸ hparent, rfl⟩
  · cases hfail
    exact .inl ⟨edge, hdeclared edge.2 (by simp) hchild, _, by simp, hlength ▸ hchild, rfl⟩
  · cases hfail
    refine .inr ⟨edge, two_le_count_edges ?_, rfl⟩
    have hfirst := count_pos_iff.2 (contains_iff_mem.1 hknown)
    rw [hsplit, count_append, count_cons_self]
    omega

namespace LoweredPlan

variable {wf : WorkflowDef} (hwf : LoweredPlan parent plan wf)

include hwf

theorem pairs_eq : wf.pairs = plan.wires := by
  rw [WorkflowDef.pairs, hwf.edges, map_map]
  exact map_id _

theorem critic_wired (hproducer : wf.producerOf i = some producer) :
    (producer, i) ∈ plan.wires := by
  obtain ⟨d, hd, hrole⟩ := Option.bind_eq_some_iff.1 hproducer
  obtain ⟨s, hs, hlowered⟩ := hwf.steps i d hd
  exact mem_wires.2 (mem_append_right _ (mem_criticEdges.2 ⟨s, hs, hlowered.producer ▸ hrole⟩))

theorem cycle_of_error (herr : compile ids wf = .error err) :
    (∃ i, err = .cycle i) ∧ ¬ TopoSort.Acyclic (plan.edges ++ plan.criticEdges) := by
  have hrange : ∀ e ∈ wf.edges, e.parent < wf.steps.length ∧ e.child < wf.steps.length := by
    intro e he
    rw [hwf.edges] at he
    obtain ⟨edge, hedge, rfl⟩ := mem_map.1 he
    exact hwf.range edge hedge
  have hcycle := cycle_of_compile_error hrange (hwf.pairs_eq ▸ hwf.nodup)
    (fun i producer hproducer => hwf.pairs_eq ▸ hwf.critic_wired hproducer) herr
  rw [hwf.pairs_eq] at hcycle
  simpa only [TopoSort.Acyclic, mem_wires] using hcycle

/-- A critic has the Mote it judges among its parents. -/
theorem judged_parent (hc : compile ids wf = .ok c) (hcm : cm ∈ c.motes)
    (hproducer : wf.producerOf cm.stepIndex = some producer) :
    ∃ judged ∈ c.motes, judged.stepIndex = producer ∧
      cm.mote.def.criticFor = some judged.mote.id ∧
      (⟨judged.mote.id, ⟨.data, false⟩⟩ : ParentRef) ∈ cm.mote.parents := by
  obtain ⟨judged, hjudged, hindex, hfor⟩ := (compile_from hc cm hcm).2 producer hproducer
  have hedge : dataEdge (producer, cm.stepIndex) ∈ wf.edges :=
    hwf.edges ▸ mem_map_of_mem (hwf.critic_wired hproducer)
  obtain ⟨other, hother, hsame, hparent⟩ := compile_parent hc hedge hcm rfl
  have heq : other = judged := inj_on_of_nodup_map
    (nodup_of_isLeast (compile_wires hc).1) hother hjudged (hsame.trans hindex.symm)
  exact ⟨judged, hjudged, hindex, hfor, heq ▸ hparent⟩

end LoweredPlan

/-- Compiling a plan fails only for an edge that leaves the steps, an edge that is given twice,
or a cycle. What it compiles has a Mote for each step, within the parent's warrant, with granted
tools only and with what it judges as a parent. -/
theorem compilePlan_exact (parent : WarrantSpec) (roles : RoleId → Option Role)
    (recipes : RoleId → Option RoleRecipe) (ids : Identity) (plan : Plan) (seed : UInt32) :
    (∀ e, compilePlan parent roles recipes ids plan seed = .error (.compile e) →
      (∃ edge ∈ plan.edges, ∃ ref ∈ [edge.1, edge.2], plan.steps.length ≤ ref ∧
        e = .stepIndexOutOfRange ref) ∨
      (∃ edge, 2 ≤ plan.edges.count edge ∧ e = .duplicateEdge edge.1 edge.2) ∨
      (∃ i, e = .cycle i) ∧ ¬ TopoSort.Acyclic (plan.edges ++ plan.criticEdges)) ∧
    ∀ c, compilePlan parent roles recipes ids plan seed = .ok c →
      (c.motes.map (·.stepIndex)).Perm (List.range plan.steps.length) ∧
      ∀ cm ∈ c.motes, ∃ s, plan.steps[cm.stepIndex]? = some s ∧ cm.warrant.Contained parent ∧
        (∀ name version, cm.mote.def.toolContract[name]? = some version →
          (⟨name, version⟩ : ToolGrant) ∈ cm.warrant.toolGrants) ∧
        (s.kind = .critic ∨ s.kind = .deterministicCritic →
          ∃ judged ∈ c.motes, s.producer = some judged.stepIndex ∧
            cm.mote.def.criticFor = some judged.mote.id ∧
            (⟨judged.mote.id, ⟨.data, false⟩⟩ : ParentRef) ∈ cm.mote.parents) := by
  constructor
  · intro e he
    rcases except_bind_eq_error.1 he with hlowered | ⟨wf, hlowered, he⟩
    · rcases lowerPlan_compile_error hlowered with hrange | hduplicate
      · exact .inl hrange
      · exact .inr (.inl hduplicate)
    · have hwf := loweredPlan_of_lowerPlan hlowered
      exact .inr (.inr (hwf.cycle_of_error (error_of_mapError he)))
  · intro c hc
    obtain ⟨wf, hlowered, hc⟩ := except_bind_eq_ok.1 hc
    have hwf := loweredPlan_of_lowerPlan hlowered
    have hcompiled := except_mapError_eq_ok.1 hc
    refine ⟨hwf.length ▸ (compile_wires hcompiled).1.1.1, fun cm hcm => ?_⟩
    obtain ⟨d, criticFor, hd, hwarrant, hdef⟩ := (compile_from hcompiled cm hcm).1
    obtain ⟨s, hs, hstep⟩ := hwf.steps _ _ hd
    rw [hwarrant, hdef]
    refine ⟨s, hs, hstep.warrant.contained, hstep.tools, fun hcritic => ?_⟩
    obtain ⟨producer, hproducer, hjudged⟩ := hstep.named hcritic
    have hrole : wf.producerOf cm.stepIndex = some producer := by
      rw [WorkflowDef.producerOf, hd, Option.bind_some, hstep.producer, hjudged]
    obtain ⟨judged, hmem, hindex, hfor, hparent⟩ := hwf.judged_parent hcompiled hcm hrole
    exact ⟨judged, hmem, hindex ▸ hproducer, hdef ▸ hfor, hparent⟩

end Kortecx.Planner
