import Kortecx.App.Blocks
import Kortecx.App.Grounding
import Kortecx.App.Run
import Kortecx.Workflow.Exact

/-!
Where a credential goes. The scope of a step is computed in the App the step belongs to,
moves with the step through the join, and is put on the warrant of the Mote that the step
was compiled to. A warrant without tools has no secrets at all.
-/

namespace Kortecx.App

open Lib Gateway List Mote
open Warrant Workflow Policy

variable {host : AppHost} {party : String} {args : List UInt8} {requireApproval : Bool}

section Scope

theorem allows_narrowScope :
    (∃ scope, narrowScope provided scopeNames = some scope ∧ scope.Allows c) ↔
      c ∈ provided ∧ (scopeNames = [] ∨ c ∈ scopeNames) := by
  have hallowed : c ∈ (if scopeNames = [] then provided else scopeNames.filter (· ∈ provided)) ↔
      c ∈ provided ∧ (scopeNames = [] ∨ c ∈ scopeNames) := by
    by_cases hempty : scopeNames = []
    · simp [hempty]
    · simp [hempty, and_comm]
  rw [← hallowed]
  unfold narrowScope
  generalize (if scopeNames = [] then provided else scopeNames.filter (· ∈ provided)) = allowed
  by_cases hnone : allowed = []
  · simp [hnone]
  · simp [hnone, AllowScope.Allows, SecretScope.allowList]

theorem exists_allows_of_narrowScope (h : narrowScope provided scopeNames = some scope) :
    ∃ c, scope.Allows c := by
  unfold narrowScope at h
  generalize (if scopeNames = [] then provided else scopeNames.filter (· ∈ provided)) = allowed at h
  by_cases hnone : allowed = []
  · simp [hnone] at h
  rw [if_neg hnone] at h
  cases h
  obtain ⟨c, hc⟩ := exists_mem_of_ne_nil _ hnone
  exact ⟨c, by simpa [AllowScope.Allows, SecretScope.allowList] using hc⟩

def Reaches (blueprint : DagSpec) (i : Nat) (descriptor : String) : Prop :=
  (∃ s, blueprint.steps[i]? = some s ∧ ∃ name ∈ s.connections, eqIgnoreAsciiCase name descriptor) ∨
    ∀ s ∈ blueprint.steps, ∀ name ∈ s.connections, ¬ eqIgnoreAsciiCase name descriptor

theorem stepsNaming_eq_nil :
    stepsNaming perStep name = [] ↔
      ∀ names ∈ perStep, ∀ n ∈ names, ¬ eqIgnoreAsciiCase n name := by
  unfold stepsNaming
  rw [filter_eq_nil_iff]
  constructor
  · intro h names hnames n hn heq
    obtain ⟨i, hi, rfl⟩ := mem_iff_getElem.1 hnames
    apply h i (mem_range.2 hi)
    rw [List.getElem?_eq_getElem hi, Option.getD_some, any_eq_true]
    exact ⟨n, hn, heq⟩
  · intro h i hi
    have hi := mem_range.1 hi
    rw [List.getElem?_eq_getElem hi, Option.getD_some, Bool.not_eq_true, any_eq_false]
    intro n hn
    exact h _ (getElem_mem hi) n hn

variable {providedBy : List (String × Option String)} {registered : List RegisteredConnection}

theorem mem_providedAt {blueprint : DagSpec} :
    c ∈ providedAt providedBy (blueprint.steps.map (·.connections)) i ↔
      ∃ descriptor, (descriptor, some c) ∈ providedBy ∧ Reaches blueprint i descriptor := by
  have hbound : ∀ descriptor,
      ((((blueprint.steps.map (·.connections))[i]?).getD []).any fun name =>
        eqIgnoreAsciiCase name descriptor) = true ↔
      ∃ s, blueprint.steps[i]? = some s ∧
        ∃ name ∈ s.connections, eqIgnoreAsciiCase name descriptor := by
    intro descriptor
    rw [List.getElem?_map]
    cases blueprint.steps[i]? with
    | none | some _ => simp
  unfold providedAt
  simp only [mem_filterMap, mem_append, mem_filter, decide_eq_true_eq,
    stepsNaming_eq_nil, forall_mem_map, hbound]
  constructor
  · rintro ⟨⟨descriptor, credential⟩, hmem, hcredential⟩
    cases hcredential
    rcases hmem with ⟨hmem, hfree⟩ | ⟨hmem, hnamed⟩
    · exact ⟨descriptor, hmem, .inr hfree⟩
    · exact ⟨descriptor, hmem, .inl hnamed⟩
  · rintro ⟨descriptor, hmem, hreaches⟩
    refine ⟨(descriptor, some c), ?_, rfl⟩
    rcases hreaches with hnamed | hfree
    · exact .inr ⟨hmem, hnamed⟩
    · exact .inl ⟨hmem, hfree⟩

/-- The App gives the step a credential: it refers to a connection that provides it, the
connection is named by this step or by none, and the scope of the App does not leave it out. -/
def Entitled (host : AppHost) (env : AppEnvelope) (blueprint : DagSpec) (i : Nat)
    (c : SecretRef) : Prop :=
  (∃ registered, host.connections = .ok registered ∧
    ∃ ref ∈ env.connections, connectionCredential registered ref = .ok (ref.descriptor, some c) ∧
      Reaches blueprint i ref.descriptor) ∧
  (env.secretScope = [] ∨ c ∈ env.secretScope)

variable {env : AppEnvelope} {handle : String} {prepared : Prepared}

theorem connectionCredential_descriptor
    (h : connectionCredential registered ref = .ok provided) : provided.1 = ref.descriptor := by
  unfold connectionCredential at h
  split at h
  · split at h
    · cases h; rfl
    · cases h
  split at h
  · cases h; rfl
  · cases h

/-- What is provided comes from the connections the App refers to. -/
theorem mem_connectionCredentials (h : connectionCredentials registered refs = .ok providedBy) :
    (descriptor, c) ∈ providedBy ↔
      ∃ ref ∈ refs, connectionCredential registered ref = .ok (descriptor, c) := by
  have hall := mapM_eq_ok_iff.1 h
  clear h
  induction hall with
  | nil => simp
  | @cons ref provided refs providedBy hfirst _ ih =>
    simp only [mem_cons, ih, exists_eq_or_imp, hfirst, Except.ok.injEq]
    rw [eq_comm]

theorem Stages.scopeAt_eq (stages : Stages host party env handle args requireApproval prepared)
    (hi : i < prepared.dag.steps.length) :
    prepared.scopeAt i = narrowScope (providedAt stages.providedBy
      (stages.blueprint.steps.map (·.connections)) i) env.secretScope := by
  have hlength := stages.adds.length
  have hscopes := congrArg (fun p => p.perStep.secretScope) stages.prepared_eq
  rw [Prepared.scopeAt, hscopes]
  simp only [perStepSecretScopes]
  rw [getElem?_map_range (by omega)]
  rfl

/-- The scope of a step is exactly what its App entitles it to. -/
theorem Stages.allows_scopeAt (stages : Stages host party env handle args requireApproval prepared)
    (hi : i < prepared.dag.steps.length) (c : SecretRef) :
    (∃ scope, prepared.scopeAt i = some scope ∧ scope.Allows c) ↔
      Entitled host env stages.blueprint i c := by
  rw [stages.scopeAt_eq hi, allows_narrowScope, mem_providedAt]
  obtain ⟨registered, hregistered, hprovided⟩ := stages.provided_eq
  apply and_congr_left
  intro _
  constructor
  · rintro ⟨descriptor, hmem, hreaches⟩
    obtain ⟨ref, href, hcredential⟩ := (mem_connectionCredentials hprovided).1 hmem
    have hdescriptor := connectionCredential_descriptor hcredential
    subst hdescriptor
    exact ⟨registered, hregistered, ref, href, hcredential, hreaches⟩
  · rintro ⟨registered', hregistered', ref, href, hcredential, hreaches⟩
    rw [hregistered] at hregistered'
    cases hregistered'
    exact ⟨ref.descriptor, (mem_connectionCredentials hprovided).2 ⟨ref, href, hcredential⟩,
      hreaches⟩

end Scope

variable {author : AuthorHost}

section Warrants

/-- The warrant has no secrets, and no tools unless it is a tool step's or an agentic one's. -/
theorem servedBlueprintBase_plain (execClass : ExecutorClass) (serveModel : Option ModelId) :
    (servedBlueprintBase execClass serveModel).secretScope = .none ∧
      (servedBlueprintBase execClass serveModel).toolGrants = ∅ := by
  cases serveModel with
  | none | some _ => exact ⟨rfl, rfl⟩

/-- The step fires the bundled `http` tool on its own. -/
def AuthorStep.IsHttp (s : AuthorStep) : Prop :=
  s.kind = .tool ∧ "http" ∈ s.toolContract

variable {base : WarrantSpec} {s : AuthorStep} {i : Nat}

theorem agenticStepWarrant_secrets
    (h : agenticStepWarrant base contract registry = .ok w) : w.secretScope = .none := by
  unfold agenticStepWarrant at h
  split at h
  · cases h
  simp only [bind, Except.bind, pure, Except.pure] at h
  split at h
  · cases h
  · cases h; rfl

theorem resolveModelRoute_secrets {id : String}
    (h : resolveModelRoute author base modelId = .ok (id, routed)) :
    routed.secretScope = base.secretScope := by
  unfold resolveModelRoute at h
  split at h
  · cases h
  split at h
  · cases h
    split <;> rfl
  split at h
  · cases h
    split <;> rfl
  · cases h

theorem modelStepDef_ok (h : modelStepDef author base s = .ok d) :
    d.configSubset = ∅ ∧ (s.toolContract.isEmpty → d.ndClass = .pure) ∧
      (base.secretScope = .none → d.warrant.secretScope = .none) := by
  unfold modelStepDef at h
  simp only [bind, Except.bind, pure, Except.pure] at h
  split at h
  · cases h
  rename_i routed hrouted
  split at h
  · cases h
    exact ⟨rfl, fun _ => rfl, (resolveModelRoute_secrets hrouted).trans⟩
  rename_i htools
  split at h
  · cases h
  split at h
  · cases h
  split at h
  · cases h
  rename_i w hw
  cases h
  exact ⟨rfl, fun hempty => absurd hempty htools, fun _ => agenticStepWarrant_secrets hw⟩

theorem toolStepDef_ok (h : toolStepDef author base i s = .ok d) :
    d.ndClass = .worldMutating ∧
    ∃ name version required, s.toolContract.toList = [(name, version)] ∧
      (if name = "http" then
          httpScopes author s (toolStepWarrant base ⟨name, version⟩ required)
        else .ok (toolStepWarrant base ⟨name, version⟩ required)) = .ok d.warrant := by
  unfold toolStepDef at h
  split at h
  · cases h
  split at h
  case h_1 => cases h
  case h_3 => cases h
  case h_2 name version htools =>
    split at h
    · cases h
    rename_i required _
    simp only [bind, Except.bind, pure, Except.pure] at h
    split at h
    · cases h
    by_cases hname : name = "http"
    · simp only [if_pos hname] at h
      split at h
      · cases h
      rename_i w hw
      cases h
      refine ⟨rfl, name, version, required, htools, ?_⟩
      rw [if_pos hname]
      exact hw
    · simp only [if_neg hname] at h
      cases h
      refine ⟨rfl, name, version, required, htools, ?_⟩
      rw [if_neg hname]
      rfl

theorem mem_of_toList_eq_singleton {tools : ToolMap} (h : tools.toList = [(name, version)]) :
    tool ∈ tools ↔ tool = name := by
  rw [← Std.ExtTreeMap.mem_keys, ← Std.ExtTreeMap.map_fst_toList_eq_keys, h]
  exact mem_singleton

theorem toolStepDef_secrets (hhttp : "http" ∉ s.toolContract)
    (h : toolStepDef author base i s = .ok d) : d.warrant.secretScope = .none := by
  obtain ⟨-, name, version, required, htools, hwarrant⟩ := toolStepDef_ok h
  have hname : name ≠ "http" := by
    rintro rfl
    exact hhttp ((mem_of_toList_eq_singleton htools).2 rfl)
  rw [if_neg hname] at hwarrant
  rw [← Except.ok.inj hwarrant]
  rfl

theorem httpScopes_grants (h : httpScopes author s w = .ok w') : w'.toolGrants = w.toolGrants := by
  unfold httpScopes at h
  split at h
  · cases h
  · cases h; rfl

theorem toolStepDef_grants
    (h : toolStepDef author base i s = .ok d) : d.warrant.toolGrants.isEmpty = false := by
  obtain ⟨-, name, version, required, -, hwarrant⟩ := toolStepDef_ok h
  have hgrants : d.warrant.toolGrants = .ofList [(⟨name, version⟩ : ToolGrant)] := by
    split at hwarrant
    · exact httpScopes_grants hwarrant
    rw [← Except.ok.inj hwarrant]
    rfl
  rw [hgrants]
  simp

/-- Only an `http` call brings a secret of its own; and it has a tool. -/
theorem stepDef_secrets (h : stepDef author i s = .ok d) :
    (¬ s.IsHttp → d.warrant.secretScope = .none) ∧
      (d.warrant.toolGrants.isEmpty → d.warrant.secretScope = .none) := by
  have hbase := (servedBlueprintBase_plain author.execClass author.serveModel).1
  obtain ⟨d', hmade, rfl⟩ := except_map_eq_ok.1 h
  have hwarrant : (withParams s d').warrant = d'.warrant := rfl
  rw [hwarrant]
  cases hkind : s.kind with
  | pure =>
    rw [hkind] at hmade
    simp only [pureStepDef] at hmade
    split at hmade
    · cases hmade
    cases hmade
    exact ⟨fun _ => hbase, fun _ => hbase⟩
  | model =>
    rw [hkind] at hmade
    have hsecrets := (modelStepDef_ok hmade).2.2 hbase
    exact ⟨fun _ => hsecrets, fun _ => hsecrets⟩
  | exec =>
    rw [hkind] at hmade
    cases hmade
  | tool =>
    rw [hkind] at hmade
    refine ⟨fun hhttp => ?_, fun hempty => ?_⟩
    · exact toolStepDef_secrets (fun hcontract => hhttp ⟨hkind, hcontract⟩) hmade
    · have hgrants := toolStepDef_grants hmade
      rw [hempty] at hgrants
      cases hgrants

/-- Narrowing leaves the tools and the secrets that were proposed. -/
theorem intersect_tools_secrets (h : intersect parent role = .ok w) :
    w.toolGrants = role.spec.toolGrants ∧ w.secretScope = role.spec.secretScope := by
  unfold intersect at h
  simp only at h
  iterate 6
    split at h
    · cases h
  cases h
  exact ⟨rfl, rfl⟩

/-- What becomes of the warrant of a compiled step. -/
theorem admitWarrant_secrets (h : admitWarrant effective perStep cm = .ok w) :
    w.toolGrants = cm.warrant.toolGrants ∧
      w.secretScope = if cm.warrant.toolGrants.isEmpty then cm.warrant.secretScope
        else ((perStep.secretScope[cm.stepIndex]?).join).getD cm.warrant.secretScope := by
  unfold admitWarrant at h
  by_cases hempty : cm.warrant.toolGrants.isEmpty
  · simp only [hempty, if_true, bind, Except.bind, pure, Except.pure] at h ⊢
    cases hnarrowed : intersect effective ⟨"blueprint-step", 0, cm.warrant, ""⟩ with
    | error e =>
      rw [hnarrowed] at h
      cases h
    | ok narrowed =>
      rw [hnarrowed] at h
      have hsame : narrowed.toolGrants = cm.warrant.toolGrants ∧
          narrowed.secretScope = cm.warrant.secretScope := by
        exact intersect_tools_secrets hnarrowed
      simp only [Except.mapError, hsame.1, hempty, if_true] at h
      cases h
      exact hsame
  · simp only [hempty, if_false, bind, Except.bind, pure, Except.pure, Bool.false_eq_true] at h ⊢
    split at h
    · rename_i scope hscope
      cases h
      rw [hscope]
      exact ⟨rfl, rfl⟩
    · rename_i hscope
      cases h
      rw [hscope]
      exact ⟨rfl, rfl⟩

theorem admitWarrant_net (h : admitWarrant effective perStep cm = .ok w)
    (htools : cm.warrant.toolGrants.isEmpty = false) : w.netScope = cm.warrant.netScope := by
  unfold admitWarrant at h
  simp only [htools, Bool.false_eq_true, if_false, bind, Except.bind, pure, Except.pure] at h
  split at h <;> cases h <;> rfl

end Warrants

section Authored

variable {p : Prepared} {bound : BoundRecipe} {steps : List AuthorStep} {edges : List AuthorEdge}

/-- The steps of a graph that was lowered, one for one. -/
theorem authorStepsOf_steps (h : authorStepsOf author dag = .ok (steps, edges)) :
    steps.length = dag.steps.length ∧ ∀ i s, steps[i]? = some s → ∃ spec requested,
      dag.steps[i]? = some spec ∧ toRequestStep i spec = .ok requested ∧
        authorStepOf author requested = .ok s := by
  unfold authorStepsOf at h
  simp only [bind, Except.bind, pure, Except.pure] at h
  split at h
  · cases h
  rename_i requested hrequested
  split at h
  · cases h
  split at h
  · cases h
  rename_i authored hauthored
  split at h
  · cases h
  cases h
  have hauthored := mapM_eq_ok_iff.1 hauthored
  have hlength := hauthored.length_eq
  obtain ⟨hcount, hspecs⟩ := mapM_zipIdx_ok hrequested
  refine ⟨by omega, ?_⟩
  intro i s hs
  obtain ⟨hi, rfl⟩ := List.getElem?_eq_some_iff.1 hs
  have hauthoredAt := hauthored.get (by omega) hi
  obtain ⟨spec, hspec, hrequestedAt⟩ := hspecs i _ (List.getElem?_eq_getElem (by omega))
  exact ⟨spec, _, hspec, hrequestedAt, hauthoredAt⟩

theorem foldlM_addStepEdge_ok (h : edges.foldlM (addStepEdge n) done = .ok wired) :
    wired = done ++ edges.map AuthorEdge.stepEdge := by
  induction edges generalizing done with
  | nil =>
    cases h
    exact (append_nil _).symm
  | cons e edges ih =>
    rw [foldlM_cons] at h
    obtain ⟨next, hnext, h⟩ := except_bind_eq_ok.1 h
    obtain ⟨edge, hedge, hnext⟩ := except_bind_eq_ok.1 hnext
    have hadded : next = done ++ [e.stepEdge] := by
      have hedge : edge = e.stepEdge := by
        unfold authorEdge at hedge
        split_ifs at hedge
        all_goals
          cases hedge
          simp [AuthorEdge.stepEdge, *]
      split at hnext
      · cases hnext
      · rw [← hedge]
        exact (Except.ok.inj hnext).symm
    rw [ih h, hadded, append_assoc]
    rfl

/-- The edges of a workflow, and its definitions, one for each step, with the context of the
step. -/
theorem buildWorkflow_defs (h : buildWorkflow author party steps edges bundles extraItems perStep =
      .ok (defs, wired, effective)) :
    wired = edges.map AuthorEdge.stepEdge ∧ defs.length = steps.length ∧
      ∀ i d, defs[i]? = some d → ∃ s made items, steps[i]? = some s ∧
        stepDef author i s = .ok made ∧ d = injectItems author made items := by
  obtain ⟨made, hmade, h⟩ := except_bind_eq_ok.1 h
  obtain ⟨_, hwired, h⟩ := except_bind_eq_ok.1 h
  split at h
  · cases h
  obtain ⟨_, _, h⟩ := except_bind_eq_ok.1 h
  cases h
  obtain ⟨hlength, hdefs⟩ := mapM_zipIdx_ok hmade
  refine ⟨foldlM_addStepEdge_ok hwired, by rw [length_mapIdx, hlength], ?_⟩
  intro i d hd
  rw [List.getElem?_mapIdx] at hd
  obtain ⟨d', hd', rfl⟩ := Option.map_eq_some_iff.1 hd
  obtain ⟨s, hs, hstep⟩ := hdefs i d' hd'
  exact ⟨s, d', _, hs, hstep, rfl⟩

theorem injectItems_warrant :
    (injectItems author d items).warrant = d.warrant := by
  unfold injectItems
  split <;> rfl

/-- How a graph was authored: the workflow it was lowered to, and the Motes that was compiled
to, which are admitted one after the other. -/
structure Authoring (author : AuthorHost) (party : String) (p : Prepared) (bound : BoundRecipe)
    where
  steps : List AuthorStep
  edges : List AuthorEdge
  workflow : WorkflowDef
  effective : WarrantSpec
  compiled : CompiledWorkflow
  nonempty : steps ≠ []
  few : steps.length ≤ MAX_BLUEPRINT_STEPS
  steps_eq : authorStepsOf author p.dag = .ok (steps, edges)
  built_eq : buildWorkflow author party steps edges p.contextBundles p.contextItems p.perStep =
    .ok (workflow.steps, workflow.edges, effective)
  seed_eq : workflow.seed = p.dag.seed
  compiled_eq : compile author.ids workflow = .ok compiled
  motes_eq : compiled.motes.mapM (fun cm => do
    let warrant ← admitWarrant effective p.perStep cm
    return (cm.mote, warrant)) = .ok bound.motes

theorem authoring_of_authorPrepared (h : authorPrepared author party p = .ok bound) :
    Nonempty (Authoring author party p bound) := by
  obtain ⟨⟨steps, edges⟩, hsteps, h⟩ := except_bind_eq_ok.1 h
  have hsteps := except_mapError_eq_ok.1 hsteps
  have h := except_mapError_eq_ok.1 h
  unfold authorWithContextItems at h
  split at h
  · cases h
  split at h
  · cases h
  rename_i hne
  split at h
  · cases h
  rename_i hfew
  split at h
  · cases h
  obtain ⟨⟨defs, wired, effective⟩, hbuilt, h⟩ := except_bind_eq_ok.1 h
  dsimp only at h
  split at h
  case isFalse => cases h
  case isTrue hlength =>
    split at h
    · cases h
    rename_i compiled hcompiled
    obtain ⟨motes, hmotes, h⟩ := except_bind_eq_ok.1 h
    cases h
    exact ⟨⟨steps, edges, _, effective, compiled, hne, not_lt.1 hfew, hsteps, hbuilt, rfl,
      hcompiled, hmotes⟩⟩

/-- The step fires the bundled `http` tool on its own. -/
def StepSpec.IsHttp (s : StepSpec) : Prop :=
  s.resolveKind = .ok .http ∨ s.resolveKind = .ok .tool ∧ "http" ∈ s.toolContract

theorem isHttp_of_authored (hrequested : toRequestStep i spec = .ok requested)
    (hauthored : authorStepOf author requested = .ok s) (hhttp : s.IsHttp) : spec.IsHttp := by
  obtain ⟨_, _, hrequested⟩ := except_bind_eq_ok.1 hrequested
  obtain ⟨kind, hkind, hrequested⟩ := except_bind_eq_ok.1 hrequested
  cases hrequested
  obtain ⟨htool, hcontract⟩ := hhttp
  unfold authorStepOf at hauthored
  cases kind with
  | tool =>
    cases hauthored
    exact .inr ⟨hkind, hcontract⟩
  | http => exact .inl hkind
  | wait =>
    simp only at hauthored
    split at hauthored
    · cases hauthored; cases htool
    · cases hauthored
  | conditional =>
    simp only at hauthored
    split at hauthored
    · cases hauthored; cases htool
    · cases hauthored
  | _ =>
    cases hauthored <;> cases htool

variable (run : Authoring author party p bound)

/-- The Mote of a step and its warrant: what the step was compiled to, at its place in the
run. -/
def Authoring.Binds (i : Nat) (mote : Kortecx.Mote.Mote) (w : WarrantSpec) : Prop :=
  ∃ cm, (cm, mote, w) ∈ run.compiled.motes.zip bound.motes ∧ cm.stepIndex = i ∧ cm.mote = mote

def Authoring.order : List Nat :=
  run.compiled.motes.map (·.stepIndex)

structure FromStep (i : Nat) (mote : Kortecx.Mote.Mote) (w : WarrantSpec) where
  spec : StepSpec
  requested : WorkflowStep
  step : AuthorStep
  made : StepDef
  items : List ContextItemRef
  cm : CompiledMote
  criticFor : Option MoteId
  spec_eq : p.dag.steps[i]? = some spec
  requested_eq : toRequestStep i spec = .ok requested
  step_eq : authorStepOf author requested = .ok step
  made_eq : stepDef author i step = .ok made
  cm_mem : cm ∈ run.compiled.motes
  mote_eq : cm.mote = mote
  index_eq : cm.stepIndex = i
  warrant_eq : cm.warrant = made.warrant
  def_eq : mote.def = moteDefFor (injectItems author made items) criticFor
  admit_eq : admitWarrant run.effective p.perStep cm = .ok w

namespace Authoring

theorem length_steps : run.workflow.steps.length = p.dag.steps.length :=
  (buildWorkflow_defs run.built_eq).2.1.trans (authorStepsOf_steps run.steps_eq).1

theorem edges_eq : run.workflow.edges = p.dag.edges.map EdgeSpec.stepEdge :=
  (buildWorkflow_defs run.built_eq).1.trans (authorStepsOf_edges run.steps_eq)

include run in
theorem length_le : p.dag.steps.length ≤ MAX_BLUEPRINT_STEPS := by
  rw [← (authorStepsOf_steps run.steps_eq).1]
  exact run.few

/-- The steps are compiled in an order in which every edge points forward. -/
theorem topological : TopoSort.IsTopological (List.range p.dag.steps.length)
    (p.dag.edges.map fun e => (e.parent.toNat, e.child.toNat)) run.order := by
  have hleast := (compile_wires run.compiled_eq).1.1
  rw [WorkflowDef.pairs, run.edges_eq, run.length_steps, map_map] at hleast
  exact hleast

theorem admitted : Forall₂ (fun cm (made : Kortecx.Mote.Mote × WarrantSpec) => cm.mote = made.1 ∧
    admitWarrant run.effective p.perStep cm = .ok made.2) run.compiled.motes bound.motes := by
  refine (mapM_eq_ok_iff.1 run.motes_eq).imp ?_
  intro cm made hmade
  obtain ⟨w, hadmit, hpair⟩ := except_bind_eq_ok.1 hmade
  cases hpair
  exact ⟨rfl, hadmit⟩

theorem exists_binds_of_mem (hcm : cm ∈ run.compiled.motes) :
    ∃ w, run.Binds cm.stepIndex cm.mote w := by
  obtain ⟨k, hk, rfl⟩ := mem_iff_getElem.1 hcm
  have hk' : k < bound.motes.length := run.admitted.length_eq ▸ hk
  have hmade := run.admitted.get hk hk'
  rw [get_eq_getElem, get_eq_getElem] at hmade
  refine ⟨bound.motes[k].2, _, mem_iff_getElem.2 ⟨k, ?_, ?_⟩, rfl, rfl⟩
  · rw [length_zip]
    omega
  · rw [getElem_zip, hmade.1]

theorem exists_binds (hi : i < p.dag.steps.length) : ∃ mote w, run.Binds i mote w := by
  obtain ⟨cm, hcm, rfl⟩ := mem_map.1 (run.topological.1.mem_iff.2 (mem_range.2 hi))
  exact ⟨cm.mote, run.exists_binds_of_mem hcm⟩

/-- The last Mote of a run is that of the step that was compiled last. -/
theorem exists_last : ∃ i mote w, run.order.getLast? = some i ∧
    bound.motes.getLast? = some (mote, w) ∧ run.Binds i mote w := by
  have hlength := run.admitted.length_eq
  have hcount : run.compiled.motes.length = p.dag.steps.length := by
    simpa [order] using run.topological.1.length_eq
  have hpos : 0 < run.compiled.motes.length := by
    rw [hcount, ← (authorStepsOf_steps run.steps_eq).1]
    exact length_pos_iff.2 run.nonempty
  have hlast : run.compiled.motes.length - 1 < run.compiled.motes.length := by omega
  have hlast' : run.compiled.motes.length - 1 < bound.motes.length := by omega
  have hmade := run.admitted.get hlast hlast'
  rw [get_eq_getElem, get_eq_getElem] at hmade
  refine ⟨_, bound.motes[run.compiled.motes.length - 1].1,
    bound.motes[run.compiled.motes.length - 1].2, ?_, ?_,
    run.compiled.motes[run.compiled.motes.length - 1],
    mem_iff_getElem.2 ⟨run.compiled.motes.length - 1, ?_, ?_⟩, rfl, hmade.1⟩
  · rw [order, getLast?_eq_getElem?, length_map, List.getElem?_map,
      List.getElem?_eq_getElem hlast]
    rfl
  · rw [getLast?_eq_getElem?, ← hlength, List.getElem?_eq_getElem hlast']
  · rw [length_zip]
    omega
  · rw [getElem_zip]

variable {run}

theorem Binds.source (h : run.Binds i mote w) : Nonempty (FromStep run i mote w) := by
  obtain ⟨cm, hzip, rfl, rfl⟩ := h
  have hcm := (of_mem_zip hzip).1
  have hadmit := ((forall₂_iff_zip.1 run.admitted).2 hzip).2
  obtain ⟨d, criticFor, hd, hwarrant, hdef⟩ := (compile_from run.compiled_eq cm hcm).1
  obtain ⟨s, made, items, hs, hstepDef, rfl⟩ := (buildWorkflow_defs run.built_eq).2.2 _ d hd
  obtain ⟨spec, requested, hspec, hrequested, hauthored⟩ :=
    (authorStepsOf_steps run.steps_eq).2 _ s hs
  rw [injectItems_warrant] at hwarrant
  exact ⟨⟨spec, requested, s, made, items, cm, criticFor, hspec, hrequested, hauthored, hstepDef,
    hcm, rfl, rfl, hwarrant, hdef, hadmit⟩⟩

/-- An edge makes the Mote of its one end a parent of the other. -/
theorem Binds.parent (he : e ∈ p.dag.edges) (h : run.Binds e.child.toNat mote w) :
    ∃ parent w', run.Binds e.parent.toNat parent w' ∧
      ⟨parent.id, e.stepEdge.edge⟩ ∈ mote.parents := by
  obtain ⟨cm, hzip, hchild, rfl⟩ := h
  have hedge : e.stepEdge ∈ run.workflow.edges := run.edges_eq ▸ mem_map_of_mem he
  obtain ⟨parent, hparent, hindex, hin⟩ :=
    compile_parent run.compiled_eq hedge (of_mem_zip hzip).1 hchild
  obtain ⟨w', hbinds⟩ := run.exists_binds_of_mem hparent
  rw [hindex] at hbinds
  exact ⟨parent.mote, w', hbinds, hin⟩

end Authoring

variable {run}

/-- The warrants of an authored graph: without tools there is no secret, and with tools the
secrets are those bound to the step, an `http` call apart. -/
theorem FromStep.secrets (source : FromStep run i mote w) :
    (w.toolGrants.isEmpty → w.secretScope = .none) ∧
      (w.toolGrants.isEmpty = false → ¬ source.spec.IsHttp →
        w.secretScope = (p.scopeAt i).getD .none) := by
  obtain ⟨hplain, hempty⟩ := stepDef_secrets source.made_eq
  rw [← source.warrant_eq] at hplain hempty
  obtain ⟨hgrants, hsecrets⟩ := admitWarrant_secrets source.admit_eq
  rw [hgrants]
  constructor
  · intro hnone
    rw [hsecrets, if_pos hnone, hempty hnone]
  · intro hsome hhttp
    have hnone := hplain fun hs =>
      hhttp (isHttp_of_authored source.requested_eq source.step_eq hs)
    rw [hsecrets, hsome, if_neg Bool.false_ne_true, hnone, source.index_eq]
    rfl

end Authored

/-- The envelope a block was made from: for the root what the run started from, and for a callee
the App that its caller names in the call. -/
def OwnEnvelope (host : AppHost) (workflows : WorkflowCatalog) (party : String)
    (target : RunTarget) (requireApproval : Bool) (blocks : List Block) (b : Block)
    (env : AppEnvelope) : Prop :=
  match b.call, target with
  | some (caller, targets), _ => ∃ a ∈ blocks, a.offset = caller ∧
      ∃ stored, (stored, targets) ∈ a.own.composes ∧
        host.apps party stored = .ok (some (.ok env)) ∧
        prepareApp host party stored [] requireApproval = .ok b.own
  | none, .app handle => host.apps party handle = .ok (some (.ok env))
  | none, .workflow handle => workflows party handle = .ok (some (.ok env))

/-- A run that was authored: what it starts from, the blocks of its graph, and how that was
authored. -/
structure RunOf (host : AppHost) (workflows : WorkflowCatalog) (author : AuthorHost)
    (party : String) (target : RunTarget) (args : List UInt8) (requireApproval : Bool)
    (bound : BoundRecipe) where
  root : Prepared
  composed : Prepared
  blocks : List Block
  authoring : Authoring author party composed bound
  root_eq : prepareRoot host workflows party target args requireApproval = .ok root
  composed_eq : composeRun host workflows party target args requireApproval = .ok composed
  inBlocks : InBlocks (fun callee => prepareApp host party callee [] requireApproval) root
    root.composes composed blocks

section Runs

variable {workflows : WorkflowCatalog} {target : RunTarget}

/-- The root of a run has the steps and the bindings of the envelope it was made from. -/
theorem prepareRoot_ok
    (h : prepareRoot host workflows party target args requireApproval = .ok root) :
    ∃ env handle prepared, (match target with
        | .app handle => host.apps party handle = .ok (some (.ok env))
        | .workflow handle => workflows party handle = .ok (some (.ok env))) ∧
      prepareEnv host party env handle args requireApproval = .ok prepared ∧
      root.dag.steps = prepared.dag.steps ∧ root.perStep = prepared.perStep := by
  cases target with
  | app handle =>
    obtain ⟨env, hfound, hprepared⟩ := prepareApp_ok h
    exact ⟨env, handle, root, hfound, hprepared, rfl, rfl⟩
  | workflow handle =>
    simp only [prepareRoot, prepareWorkflow] at h
    split at h
    · cases h
    · cases h
    · cases h
    rename_i env hfound
    obtain ⟨prepared, hprepared, h⟩ := except_bind_eq_ok.1 h
    split at h
    · cases h
    rename_i dag hdag
    cases h
    exact ⟨env, handle, prepared, hfound, hprepared, sequenceSameRoute_steps hdag, rfl⟩

/-- Every block of a run has the steps and the bindings of its own envelope. -/
theorem InBlocks.ownEnvelope
    (h : InBlocks (fun callee => prepareApp host party callee [] requireApproval) root
      root.composes p blocks)
    (hroot : prepareRoot host workflows party target args requireApproval = .ok root)
    (hb : b ∈ blocks) :
    ∃ env handle given prepared,
      OwnEnvelope host workflows party target requireApproval blocks b env ∧
      prepareEnv host party env handle given requireApproval = .ok prepared ∧
      b.own.dag.steps = prepared.dag.steps ∧ b.own.perStep = prepared.perStep := by
  cases hcall : b.call with
  | none =>
    have hown := congrArg Block.own (h.eq_root hb hcall)
    obtain ⟨env, handle, prepared, hfound, hprepared, hsteps, hbinds⟩ := prepareRoot_ok hroot
    refine ⟨env, handle, args, prepared, ?_, hprepared, ?_, ?_⟩
    · unfold OwnEnvelope
      rw [hcall]
      cases target <;> exact hfound
    · rw [hown]; exact hsteps
    · rw [hown]; exact hbinds
  | some call =>
    obtain ⟨_, _, a, ha, hcaller, callee, hnamed, hprepare⟩ := h.called b hb call.1 call.2 hcall
    obtain ⟨env, hfound, hprepared⟩ := prepareApp_ok hprepare
    refine ⟨env, callee, [], b.own, ?_, hprepared, rfl, rfl⟩
    unfold OwnEnvelope
    rw [hcall]
    rw [h.calls_eq ha] at hnamed
    exact ⟨a, ha, hcaller, callee, hnamed, hfound, hprepare⟩

theorem runOf_of_authorRun
    (h : authorRun host workflows author party target args requireApproval = .ok bound) :
    Nonempty (RunOf host workflows author party target args requireApproval bound) := by
  obtain ⟨p, hcomposed, hauthored⟩ := except_bind_eq_ok.1 h
  obtain ⟨root, hroot, hresolve⟩ := composeRun_ok hcomposed
  obtain ⟨blocks, hblocks⟩ := joinRule_inBlocks.of_resolveComposes
    (fun _ _ _ _ _ _ _ => trivial) trivial hresolve
  obtain ⟨authoring⟩ := authoring_of_authorPrepared hauthored
  exact ⟨⟨root, p, blocks, authoring, hroot, hcomposed, hblocks⟩⟩

variable (run : RunOf host workflows author party target args requireApproval bound)

/-- The credentials bound to the steps of a block, in the run, are those its own App entitles
them to. -/
theorem RunOf.entitled (hb : b ∈ run.blocks) :
    ∃ env blueprint,
      OwnEnvelope host workflows party target requireApproval run.blocks b env ∧
      env.blueprint = some (.ok blueprint) ∧
      blueprint.steps.length = b.own.dag.steps.length ∧
      ∀ i < b.own.dag.steps.length,
        (∀ c, (∃ scope, run.composed.scopeAt (b.offset + i) = some scope ∧ scope.Allows c) ↔
          Entitled host env blueprint i c) ∧
        ∀ scope, run.composed.scopeAt (b.offset + i) = some scope → ∃ c, scope.Allows c := by
  obtain ⟨env, handle, given, prepared, henv, hprepared, hsteps, hbinds⟩ :=
    run.inBlocks.ownEnvelope run.root_eq hb
  obtain ⟨stages⟩ := stages_of_prepareEnv hprepared
  refine ⟨env, stages.blueprint, henv, blueprintOf_ok stages.blueprint_eq, ?_, ?_⟩
  · rw [hsteps, stages.adds.length]
  intro i hi
  have hscope : run.composed.scopeAt (b.offset + i) = prepared.scopeAt i := by
    rw [run.inBlocks.scopes b hb i hi, Prepared.scopeAt, Prepared.scopeAt, hbinds]
  rw [hsteps] at hi
  rw [hscope]
  refine ⟨stages.allows_scopeAt hi, ?_⟩
  rw [stages.scopeAt_eq hi]
  exact fun _ => exists_allows_of_narrowScope

theorem RunOf.lt_of_block (hb : b ∈ run.blocks) (hi : i < b.own.dag.steps.length) :
    b.offset + i < run.composed.dag.steps.length := by
  have hend := (run.inBlocks.consecutive.le_length hb).2
  have hlength := run.inBlocks.length_eq
  omega

end Runs

/-- In every run that is authored, a step with tools has exactly the credentials its own App
entitles it to, an `http` call apart, and a step without tools has none. -/
theorem credentials_exact (host : AppHost) (workflows : WorkflowCatalog) (author : AuthorHost)
    (party : String) (target : RunTarget) (args : List UInt8) (requireApproval : Bool)
    {bound : BoundRecipe}
    (h : authorRun host workflows author party target args requireApproval = .ok bound) :
    ∃ run : RunOf host workflows author party target args requireApproval bound,
      run.authoring.order.Perm (List.range run.composed.dag.steps.length) ∧
      ∀ b ∈ run.blocks, ∃ env blueprint,
        OwnEnvelope host workflows party target requireApproval run.blocks b env ∧
        env.blueprint = some (.ok blueprint) ∧
        blueprint.steps.length = b.own.dag.steps.length ∧
        ∀ i < b.own.dag.steps.length,
          (∃ mote w, run.authoring.Binds (b.offset + i) mote w) ∧
          ∀ mote w, run.authoring.Binds (b.offset + i) mote w →
            (w.toolGrants.isEmpty = false →
              (∀ spec, run.composed.dag.steps[b.offset + i]? = some spec → ¬ spec.IsHttp) →
              ∀ c, w.secretScope.Allows c ↔ Entitled host env blueprint i c) ∧
            (w.toolGrants.isEmpty → ∀ c, ¬ w.secretScope.Allows c) := by
  obtain ⟨run⟩ := runOf_of_authorRun h
  refine ⟨run, run.authoring.topological.1, ?_⟩
  intro b hb
  obtain ⟨env, blueprint, henv, hblueprint, hlength, hentitled⟩ := run.entitled hb
  refine ⟨env, blueprint, henv, hblueprint, hlength, ?_⟩
  intro i hi
  refine ⟨run.authoring.exists_binds (run.lt_of_block hb hi), ?_⟩
  intro mote w hbinds
  obtain ⟨source⟩ := hbinds.source
  obtain ⟨hempty, hstamped⟩ := source.secrets
  constructor
  · intro hsome hhttp c
    rw [hstamped hsome (hhttp _ source.spec_eq), ← (hentitled i hi).1 c]
    cases run.composed.scopeAt (b.offset + i) with
    | none => simp [AllowScope.Allows]
    | some scope => simp
  · intro hnone c
    rw [hempty hnone]
    exact id

def connectedStep (connections : List String) : StepSpec where
  kind := some .model
  prompt := "Look it up."
  toolContract := (∅ : ToolMap).insert "fs-read" "1"
  connections

def connectedApp : AppEnvelope where
  blueprint := some (.ok { steps := [connectedStep [], connectedStep ["CRM"]] })
  connections := [⟨"crm", "crm-key"⟩, ⟨"wiki", "wiki-key"⟩]

def connectedHost : AppHost :=
  { twoAppHost connectedApp calleeB with
    connections := .ok [⟨"crm", some "crm-key"⟩, ⟨"wiki", some "wiki-key"⟩] }

def toolAuthor : AuthorHost :=
  { bundleAuthor with
    ids := reviewIds
    useOf := fun _ => some {}
    serveModel := some "m"
    registry := some openHost.tools }

def boundSecrets (bound : Except AppRunError BoundRecipe) : Option (List SecretScope) :=
  bound.toOption.map fun b => b.motes.map (·.2.secretScope)

theorem credentials_exact_connected :
    boundSecrets (authorRun connectedHost (fun _ _ => .ok none) toolAuthor "ann" (.app "a") []
        false) =
      some [.allowList (.ofList ["wiki-key"]), .allowList (.ofList ["crm-key", "wiki-key"])] ∧
    ∃ bound, authorRun connectedHost (fun _ _ => .ok none) toolAuthor "ann" (.app "a") [] false =
        .ok bound ∧
      ∃ run : RunOf connectedHost (fun _ _ => .ok none) toolAuthor "ann" (.app "a") [] false bound,
        run.authoring.order.Perm (List.range run.composed.dag.steps.length) := by
  have hsecrets : boundSecrets (authorRun connectedHost (fun _ _ => .ok none) toolAuthor "ann"
        (.app "a") [] false) =
      some [.allowList (.ofList ["wiki-key"]), .allowList (.ofList ["crm-key", "wiki-key"])] := by
    decide +kernel
  refine ⟨hsecrets, ?_⟩
  obtain ⟨bound, hbound, _⟩ := Option.map_eq_some_iff.1 hsecrets
  have hbound := toOption_eq_some.1 hbound
  obtain ⟨run, horder, _⟩ := credentials_exact connectedHost (fun _ _ => .ok none) toolAuthor "ann"
    (.app "a") [] false hbound
  exact ⟨bound, hbound, run, horder⟩

/-- The arguments of a tool call as its step declares them. -/
def StepSpec.callArgs (s : StepSpec) : List UInt8 :=
  utf8Bytes (if s.args = "" then "\x7b\x7d" else s.args)

theorem authored_of_isHttp (hrequested : toRequestStep i spec = .ok requested)
    (hauthored : authorStepOf author requested = .ok s) (hhttp : spec.IsHttp) :
    s.IsHttp ∧ toolArgs s = spec.callArgs := by
  obtain ⟨_, _, hrequested⟩ := except_bind_eq_ok.1 hrequested
  obtain ⟨kind, hkind, hrequested⟩ := except_bind_eq_ok.1 hrequested
  cases hrequested
  rcases hhttp with hhttp | ⟨htool, hcontract⟩
  · cases hkind.symm.trans hhttp
    simp only [authorStepOf] at hauthored
    split at hauthored
    · cases hauthored
    cases hauthored
    exact ⟨⟨rfl, by simp⟩, by simp [toolArgs, StepSpec.requestParams, StepSpec.callArgs]⟩
  · cases hkind.symm.trans htool
    cases hauthored
    exact ⟨⟨rfl, hcontract⟩, by simp [toolArgs, StepSpec.requestParams, StepSpec.callArgs]⟩

/-- An `http` call is given the host it dials and the secret it names. -/
theorem stepDef_http (h : stepDef author i s = .ok d) (hhttp : s.IsHttp)
    (hargs : author.httpArgsScopes (toolArgs s) = .ok (dialed, some name)) :
    d.warrant.toolGrants.isEmpty = false ∧
      d.warrant.netScope = .egressAllowlist (.ofList [dialed]) ∧
      d.warrant.secretScope = .allowList (.ofList [name]) := by
  obtain ⟨d', hmade, rfl⟩ := except_map_eq_ok.1 h
  rw [hhttp.1] at hmade
  have hgrants := toolStepDef_grants hmade
  refine ⟨hgrants, ?_⟩
  obtain ⟨-, tool, version, required, htools, hwarrant⟩ := toolStepDef_ok hmade
  obtain rfl := (mem_of_toList_eq_singleton htools).1 hhttp.2
  rw [if_pos rfl, httpScopes, hargs] at hwarrant
  have hmadeWarrant : (withParams s d').warrant = d'.warrant := rfl
  rw [hmadeWarrant, ← Except.ok.inj hwarrant]
  exact ⟨rfl, rfl⟩

/-- An authored `http` step reaches the host of its url and no other. It has the secret it names
exactly if its App entitles the step to that secret or to none at all: what the step is entitled to
replaces what it was given. -/
theorem http_secret_kept_iff (host : AppHost) (workflows : WorkflowCatalog) (author : AuthorHost)
    (party : String) (target : RunTarget) (args : List UInt8) (requireApproval : Bool)
    {bound : BoundRecipe}
    (h : authorRun host workflows author party target args requireApproval = .ok bound) :
    ∃ run : RunOf host workflows author party target args requireApproval bound,
      run.authoring.order.Perm (List.range run.composed.dag.steps.length) ∧
      ∀ b ∈ run.blocks, ∃ env blueprint,
        OwnEnvelope host workflows party target requireApproval run.blocks b env ∧
        env.blueprint = some (.ok blueprint) ∧
        blueprint.steps.length = b.own.dag.steps.length ∧
        ∀ i < b.own.dag.steps.length, ∀ spec,
          run.composed.dag.steps[b.offset + i]? = some spec → spec.IsHttp →
          ∀ dialed name, author.httpArgsScopes spec.callArgs = .ok (dialed, some name) →
            (∃ mote w, run.authoring.Binds (b.offset + i) mote w) ∧
            ∀ mote w, run.authoring.Binds (b.offset + i) mote w →
              w.netScope = .egressAllowlist (.ofList [dialed]) ∧
              (w.secretScope.Allows name ↔
                ((∃ c, Entitled host env blueprint i c) → Entitled host env blueprint i name)) := by
  obtain ⟨run⟩ := runOf_of_authorRun h
  refine ⟨run, run.authoring.topological.1, ?_⟩
  intro b hb
  obtain ⟨env, blueprint, henv, hblueprint, hlength, hentitled⟩ := run.entitled hb
  refine ⟨env, blueprint, henv, hblueprint, hlength, ?_⟩
  intro i hi spec hspec hhttp dialed name hargs
  refine ⟨run.authoring.exists_binds (run.lt_of_block hb hi), ?_⟩
  intro mote w hbinds
  obtain ⟨source⟩ := hbinds.source
  cases hspec.symm.trans source.spec_eq
  obtain ⟨hstep, hcall⟩ := authored_of_isHttp source.requested_eq source.step_eq hhttp
  rw [← hcall] at hargs
  obtain ⟨htools, hnet, hsecret⟩ := stepDef_http source.made_eq hstep hargs
  rw [← source.warrant_eq] at htools hnet hsecret
  obtain ⟨-, hadmitted⟩ := admitWarrant_secrets source.admit_eq
  rw [htools, if_neg Bool.false_ne_true, source.index_eq, hsecret] at hadmitted
  refine ⟨(admitWarrant_net source.admit_eq htools).trans hnet, ?_⟩
  obtain ⟨hallows, hsome⟩ := hentitled i hi
  simp only [← hallows]
  rw [hadmitted]
  change ((run.composed.scopeAt (b.offset + i)).getD _).Allows name ↔ _
  cases hscope : run.composed.scopeAt (b.offset + i) with
  | none => simp [AllowScope.Allows]
  | some scope =>
    have hany := hsome scope hscope
    simp [hany]

def httpStep (connections : List String) : StepSpec where
  kind := some .http
  args := "\x7b\"url\": \"https://api.example\", \"secret_name\": \"api-key\"\x7d"
  connections

/-- Two `http` steps, and a connection that is bound to the first of them. -/
def dialingHost : AppHost :=
  { connectedHost with
    apps := fun _ _ => .ok (some (.ok
      { blueprint := some (.ok { steps := [httpStep ["crm"], httpStep []] })
        connections := [⟨"crm", "crm-key"⟩] })) }

def httpAuthor : AuthorHost :=
  { toolAuthor with
    registry := some fun _ => some readsData
    httpArgsScopes := fun _ => .ok ("api.example", some "api-key") }

theorem http_secret_kept_iff_dialing :
    ∃ bound,
      authorRun dialingHost (fun _ _ => .ok none) httpAuthor "ann" (.app "a") [] false =
        .ok bound ∧
      ∃ run : RunOf dialingHost (fun _ _ => .ok none) httpAuthor "ann" (.app "a") [] false bound,
        run.authoring.order.Perm (List.range run.composed.dag.steps.length) := by
  have hauthored : (authorRun dialingHost (fun _ _ => .ok none) httpAuthor "ann" (.app "a") []
      false).toOption.isSome = true := by
    decide +kernel
  obtain ⟨bound, hbound⟩ := isSome_toOption.1 hauthored
  obtain ⟨run, horder, _⟩ := http_secret_kept_iff dialingHost
    (fun _ _ => .ok none) httpAuthor "ann" (.app "a") [] false hbound
  exact ⟨bound, hbound, run, horder⟩

/-- Both steps name `api-key`; the one with a connection has the credential of that instead. -/
theorem http_secret_replaced :
    (∀ connections, (httpStep connections).IsHttp) ∧
    httpAuthor.httpArgsScopes (httpStep ["crm"]).callArgs = .ok ("api.example", some "api-key") ∧
    boundSecrets (authorRun dialingHost (fun _ _ => .ok none) httpAuthor "ann" (.app "a") [] false) =
      some [.allowList (.ofList ["crm-key"]), .allowList (.ofList ["api-key"])] ∧
    ¬ (SecretScope.allowList (.ofList ["crm-key"])).Allows "api-key" :=
  ⟨fun _ => .inl rfl, rfl, by decide +kernel, by simp [AllowScope.Allows]⟩

end Kortecx.App
