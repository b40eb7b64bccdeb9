import Kortecx.App.Compose
import Kortecx.Coordinator.Routing
import Kortecx.Warrant.Narrow
import Kortecx.Workflow.Compile

/-!
Authoring: a graph that is ready is lowered to a request, the request to steps with
server-built warrants, and the steps are compiled to Motes. Context goes onto the steps
before they are compiled, credentials onto the warrants after.
-/

namespace Kortecx.App

open Lib Gateway Mote Warrant Workflow Policy Coordinator

def COND_PREDICATE_KEY : String := "kx.cond.predicate"
def JOIN_SELECT_KEY : String := "kx.cond.join"
def MAX_BLUEPRINT_STEPS : Nat := 64
def MAX_BLUEPRINT_EDGES : Nat := 256
def REACT_MAX_TURNS : UInt32 := 32
def REACT_MAX_TOOL_CALLS : UInt32 := 20
def REACT_DEFAULT_MAX_TOOL_CALLS : UInt32 := 20
def MODEL_LOGIC_REF : LogicRef := .replicate 32 0x3c
def SERVED_MODEL_WALL_CLOCK_MS : UInt64 := 120000

abbrev ParamMap := Std.ExtTreeMap String (List UInt8)

structure WorkflowStep where
  kind : StepKind
  modelId : String
  prompt : String
  toolContract : ToolMap
  params : ParamMap

inductive AuthorStepKind where
  | pure
  | model
  | exec
  | tool
deriving DecidableEq, Repr

structure AuthorStep where
  kind : AuthorStepKind
  modelId : String
  prompt : String
  toolContract : ToolMap
  params : ParamMap

structure AuthorEdge where
  parent : UInt32
  child : UInt32
  data : Bool
  nonCascade : Bool
deriving DecidableEq, Repr

/-- What authoring is wired to: the hash, the grants and the registry of tools, the models that
are served, the readers of the JSON that steps carry, and the store of bundles. -/
structure AuthorHost where
  ids : Identity
  useOf : String → Option WarrantSpec
  execClass : ExecutorClass
  serveModel : Option ModelId
  serveModelIds : List ModelId
  registry : Option ToolRegistry
  validateArgs : ToolGrant → List UInt8 → Except String Unit
  httpArgsScopes : List UInt8 → Except String (Host × Option SecretRef)
  jsonU32 : List UInt8 → Option UInt32
  delayMs : List UInt8 → Option UInt64
  predicateOk : List UInt8 → Bool
  bundles : Option (String → String → Except String (Option (List ContextItemRef)))
  encodeContextItems : List ContextItemRef → List UInt8

/-- The kind of a step: inferred from its fields, or the declared one if the fields agree. -/
def StepSpec.resolveKind (s : StepSpec) : Except String StepKind :=
  let hasModel := s.modelId ≠ "" || s.prompt ≠ ""
  let hasTool := !s.toolContract.isEmpty
  let hasArgs := s.args ≠ ""
  let conflict (declared why : String) : Except String StepKind :=
    .error (s!"step kind {declared.quote} conflicts with its fields (" ++ why ++ ")")
  match s.kind with
  | none => .ok (if hasModel then .model else if hasTool then .tool else .pure)
  | some .pure =>
    if hasModel || hasTool || hasArgs then
      conflict "pure" ("a \x60pure\x60 step carries only params (no model_id / prompt / " ++
        "tool_contract / args)")
    else .ok .pure
  | some .model =>
    if hasArgs then
      conflict "model" ("\x60args\x60 are tool-only; a \x60model\x60 step uses \x60prompt\x60 " ++
        "+ an optional \x60tool_contract\x60")
    else .ok .model
  | some .tool =>
    if hasModel then
      conflict "tool" ("a \x60tool\x60 step has no model_id / prompt; name the tool in " ++
        "\x60tool_contract\x60")
    else .ok .tool
  | some .http =>
    if hasModel || hasTool then
      conflict "http" ("an \x60http\x60 step has no model_id / prompt / tool_contract; declare " ++
        "the dial in \x60args\x60 (\x7burl, method?, body?, secret_name?, ...\x7d)")
    else .ok .http
  | some .wait =>
    if hasModel || hasTool || hasArgs then
      conflict "wait" ("a \x60wait\x60 step carries only params[\"kx.wait.delay_ms\"] " ++
        "(no model / tool / args)")
    else .ok .wait
  | some .conditional =>
    if hasModel || hasTool || hasArgs then
      conflict "conditional" ("a \x60conditional\x60 step carries only " ++
        "params[\"kx.cond.predicate\"] (no model / tool / args)")
    else .ok .conditional
  | some .exec =>
    .error ("step kind \x60exec\x60 is reserved (a registered body is not yet runnable); " ++
      "use pure|model|tool|http|wait")
  | some (.other text) =>
    .error s!"step kind must be pure|model|tool|http|wait, got {text.quote}"

/-- Bindings mean nothing to a workflow; an App's are taken off before this. -/
def refuseAppOnlyBindings (i : Nat) (s : StepSpec) : Except String Unit :=
  let named := (if s.skills = [] then [] else ["skills"]) ++
    (if s.connections = [] then [] else ["connections"]) ++
    (if s.datasets = [] then [] else ["datasets"]) ++ (if s.apps = [] then [] else ["apps"])
  if named = [] then .ok ()
  else
    .error (s!"step {i} declares " ++ " + ".intercalate named ++ " — a per-step capability list " ++
      "is an App-envelope BINDING that names an entry in the App's \x60references\x60, and " ++
      "\x60RunApp\x60 is what resolves it. A workflow has no references to name into: author " ++
      "this as an App (kx app new / the SDK \x60app(...)\x60), or grant the step a tool " ++
      "directly via \x60tool_contract\x60")

def u32Text (n : UInt32) : List UInt8 := utf8Bytes (toString n.toNat)

/-- The params of a step as a request carries them: the arguments of a tool call and the
budget of an agentic step are among them. -/
def StepSpec.requestParams (s : StepSpec) (kind : StepKind) : ParamMap :=
  let params : ParamMap := s.params.map fun _ text => utf8Bytes text
  let params := if kind = .tool || kind = .http then
      params.insert TOOL_ARGS_KEY (utf8Bytes (if s.args = "" then "\x7b\x7d" else s.args))
    else params
  if kind = .model && !s.toolContract.isEmpty then
    let params := match s.maxTurns with
      | some n => params.insert REACT_MAX_TURNS_KEY (u32Text n)
      | none => params
    match s.maxToolCalls with
    | some n => params.insert REACT_MAX_TOOL_CALLS_KEY (u32Text n)
    | none => params
  else params

def toRequestStep (i : Nat) (s : StepSpec) : Except String WorkflowStep := do
  refuseAppOnlyBindings i s
  let kind ← s.resolveKind
  return { kind, modelId := s.modelId, prompt := s.prompt, toolContract := s.toolContract
           params := s.requestParams kind }

def toRequestEdge (e : EdgeSpec) : Except String AuthorEdge :=
  if e.edge = "data" then .ok ⟨e.parent, e.child, true, e.nonCascade⟩
  else if e.edge = "control" then .ok ⟨e.parent, e.child, false, e.nonCascade⟩
  else .error s!"edge must be data|control, got {e.edge.quote}"

section Parse

variable (host : AuthorHost)

/-- A step of the authoring vocabulary: the sugar kinds become plain ones. -/
def authorStepOf (s : WorkflowStep) : Except String AuthorStep :=
  let step (kind : AuthorStepKind) (toolContract : ToolMap) : AuthorStep :=
    { kind, modelId := s.modelId, prompt := s.prompt, toolContract, params := s.params }
  match s.kind with
  | .pure => .ok (step .pure s.toolContract)
  | .model => .ok (step .model s.toolContract)
  | .exec => .ok (step .exec s.toolContract)
  | .tool => .ok (step .tool s.toolContract)
  | .http =>
    if !s.toolContract.isEmpty then
      .error ("an HTTP step binds the bundled http@1 tool; it must not carry its own " ++
        "tool_contract")
    else .ok (step .tool ((∅ : ToolMap).insert "http" "1"))
  | .wait =>
    if ((s.params[WAIT_DELAY_MS_KEY]?).bind host.delayMs).any (0 < ·) then
      .ok (step .pure s.toolContract)
    else
      .error (s!"a WAIT step requires params[{WAIT_DELAY_MS_KEY.quote}] = a positive integer " ++
        "millisecond delay")
  | .conditional =>
    if s.params.contains COND_PREDICATE_KEY then .ok (step .pure s.toolContract)
    else
      .error (s!"a CONDITIONAL step requires params[{COND_PREDICATE_KEY.quote}] = \x7b\"op\": " ++
        "\"equals\"|\"contains\"|\"json_path_eq\", \"value\": <text>, \"path\": <required for " ++
        "json_path_eq>, \"negate\"?: bool\x7d")
  | .other _ =>
    .error "WorkflowStep.kind must be PURE, MODEL, EXEC, TOOL, HTTP, WAIT, or CONDITIONAL"

def checkSkipLeak (steps : List AuthorStep) (edges : List AuthorEdge) : Except String Unit :=
  match edges.find? fun e =>
      match steps[e.parent.toNat]?, steps[e.child.toNat]? with
      | some parent, some child =>
        parent.params.contains SKIP_GUARD_KEY && e.data &&
          !(child.params.contains SKIP_GUARD_KEY || child.params.contains JOIN_SELECT_KEY)
      | _, _ => false with
  | none => .ok ()
  | some e =>
    .error (s!"step {e.parent} is inside a conditional arm but feeds step {e.child}, which is " ++
      s!"neither in an arm nor a join — route arm outputs through a {JOIN_SELECT_KEY.quote} = " ++
      "\"first_non_skip\" join")

def authorStepsOf (dag : DagSpec) : Except String (List AuthorStep × List AuthorEdge) := do
  let requested ← dag.steps.zipIdx.mapM fun step => toRequestStep step.2 step.1
  let edges ← dag.edges.mapM toRequestEdge
  let steps ← requested.mapM (authorStepOf host)
  checkSkipLeak steps edges
  return (steps, edges)

end Parse

section Steps

variable (host : AuthorHost)

def demoWarrant (execClass : ExecutorClass) : WarrantSpec where
  moteClass := .pure
  ndClass := .pure
  fsScope := { mounts := (∅ : Std.ExtTreeMap PathBuf FsMode).insert ["/", "tmp", "in"] .readOnly }
  netScope := .egressAllowlist (.ofList ["api.example.com:443"])
  syscallProfileRef := ⟨.replicate 32 4⟩
  modelRoute :=
    { modelId := "llama-3.1-8b-instruct-q4_k_m", maxInputTokens := 4096, maxOutputTokens := 512
      maxCalls := 3 }
  resourceCeiling :=
    { cpuMilli := 1000, memBytes := 1073741824, wallClockMs := 30000, fdCount := 64
      diskBytes := 268435456 }
  environmentRef := some ⟨.replicate 32 8⟩
  executorClass := execClass

def servedBlueprintBase (execClass : ExecutorClass) (serveModel : Option ModelId) : WarrantSpec :=
  let w := demoWarrant execClass
  match serveModel with
  | none => w
  | some modelId =>
    { w with
      modelRoute := { w.modelRoute with
        modelId, maxCalls := max w.modelRoute.maxCalls REACT_MAX_TURNS }
      resourceCeiling := { w.resourceCeiling with wallClockMs := SERVED_MODEL_WALL_CLOCK_MS } }

def netScopeUnion : NetScope → NetScope → NetScope
  | .none, other => other
  | other, .none => other
  | .egressAllowlist x, .egressAllowlist y => .egressAllowlist (x.insertMany y.toList)

def toolStepWarrant (base : WarrantSpec) (tool : ToolGrant) (required : ToolRequirement) :
    WarrantSpec where
  moteClass := .readOnlyNondet
  ndClass := .readOnlyNondet
  fsScope := required.fsScopeRequired
  netScope := required.netScopeRequired
  syscallProfileRef := required.syscallProfileRef
  toolGrants := .ofList [tool]
  modelRoute := base.modelRoute
  resourceCeiling := base.resourceCeiling
  environmentRef := none
  executorClass := base.executorClass

def uniteTool (registry : ToolRegistry) (scopes : FsScope × NetScope) (declared : String × String) :
    Except BinderError (FsScope × NetScope) :=
  match registry ⟨declared.1, declared.2⟩ with
  | none =>
    .error (.invalidArgs s!"agentic step references unregistered tool {declared.1}@{declared.2}")
  | some required =>
    if required.syscallProfileRef ≠ EMPTY_SYSCALL_PROFILE then
      .error (.invalidArgs (s!"tool {declared.1}@{declared.2} requires a sandboxed syscall " ++
        "profile and cannot be granted to a deterministic-agentic step"))
    else
      match fsScopeUnion scopes.1 required.fsScopeRequired with
      | none =>
        .error (.invalidArgs (s!"tool {declared.1}@{declared.2} has an fs scope incompatible " ++
          "with the agentic step's other tools"))
      | some fs => .ok (fs, netScopeUnion scopes.2 required.netScopeRequired)

def agenticStepWarrant (base : WarrantSpec) (contract : ToolMap) (registry : ToolRegistry) :
    Except BinderError WarrantSpec :=
  if contract.isEmpty then
    .error (.invalidArgs "a deterministic-agentic step must declare at least one tool")
  else do
    let (fsScope, netScope) ← contract.toList.foldlM (uniteTool registry) ({}, .none)
    return {
      moteClass := .readOnlyNondet
      ndClass := .readOnlyNondet
      fsScope
      netScope
      syscallProfileRef := EMPTY_SYSCALL_PROFILE
      toolGrants := .ofList (contract.toList.map fun tool => (⟨tool.1, tool.2⟩ : ToolGrant))
      modelRoute := base.modelRoute
      resourceCeiling := base.resourceCeiling
      environmentRef := none
      executorClass := base.executorClass }

def budgetOf (s : AuthorStep) (key : String) (absent : UInt32) : Except BinderError UInt32 :=
  match s.params[key]? with
  | none => .ok absent
  | some bytes =>
    match host.jsonU32 bytes with
    | some n => .ok n
    | none =>
      .error (.invalidArgs
        s!"agentic budget \x60{key}\x60 must be a canonical-JSON unsigned integer")

def validateAgenticBudget (s : AuthorStep) : Except BinderError Unit := do
  let maxTurns ← budgetOf host s REACT_MAX_TURNS_KEY REACT_MAX_TURNS
  let maxToolCalls ← budgetOf host s REACT_MAX_TOOL_CALLS_KEY REACT_DEFAULT_MAX_TOOL_CALLS
  if maxTurns = 0 ∨ REACT_MAX_TURNS < maxTurns ∨ maxToolCalls = 0 ∨
      REACT_MAX_TOOL_CALLS < maxToolCalls then
    .error (.invalidArgs
      "agentic budget must satisfy 0 < max_turns <= 8 AND 0 < max_tool_calls <= 20")
  else .ok ()

def resolveModelRoute (base : WarrantSpec) (modelId : String) :
    Except BinderError (ModelId × WarrantSpec) :=
  match host.serveModel with
  | none =>
    .error (.invalidArgs
      "MODEL steps require a served model (run \x60kx serve\x60 on a build with inference)")
  | some served =>
    let routed (id : ModelId) : ModelId × WarrantSpec :=
      (id, if id = served then base
        else { base with modelRoute := { base.modelRoute with modelId := id } })
    if modelId = "" then .ok (routed served)
    else if modelId ∈ host.serveModelIds then .ok (routed modelId)
    else
      .error (.invalidArgs (s!"MODEL step model_id {modelId.quote} is not a served model " ++
        "(serve it with \x60kx serve\x60)"))

/-- A step with the defaults of the synthesis layer. -/
def synthesize (logicRef : LogicRef) (modelId : ModelId) (ndClass : NdClass)
    (effectPattern : EffectPattern) (warrant : WarrantSpec) (capability : ToolName) : StepDef :=
  { logicRef, modelId, promptTemplateHash := .replicate 32 0, ndClass, effectPattern
    role := .plain, warrant, capability }

def pureStepDef (base : WarrantSpec) (i : Nat) (s : AuthorStep) : Except BinderError StepDef :=
  if (s.params[COND_PREDICATE_KEY]?).any fun raw => !host.predicateOk raw then
    .error (.invalidArgs (s!"conditional predicate malformed: params[{COND_PREDICATE_KEY.quote}] " ++
      "must be \x7b\"op\": \"equals\"|\"contains\"|\"json_path_eq\", \"value\": <text>, \"path\": " ++
      "<required for json_path_eq>, \"negate\"?: bool\x7d"))
  else
    let buf := utf8Bytes "kx-blueprint/pure/v1" ++ leBytes 8 i ++
      s.params.toList.flatMap fun param => utf8Bytes param.1 ++ param.2
    .ok (synthesize (host.ids.blake3 buf) base.modelRoute.modelId .pure .idempotentByConstruction
      base "blueprint")

def modelStepDef (base : WarrantSpec) (s : AuthorStep) : Except BinderError StepDef := do
  let (routeId, stepBase) ← resolveModelRoute host base s.modelId
  if s.toolContract.isEmpty then
    return synthesize MODEL_LOGIC_REF routeId .pure .idempotentByConstruction stepBase "blueprint"
  match host.registry with
  | none =>
    .error (.invalidArgs ("this serve has no tool registry; deterministic-agentic " ++
      "(\x60@tool\x60) steps are unavailable"))
  | some registry =>
    validateAgenticBudget host s
    let warrant ← agenticStepWarrant stepBase s.toolContract registry
    return { synthesize MODEL_LOGIC_REF routeId .readOnlyNondet .stageThenCommit warrant
        "blueprint" with
      toolContract := s.toolContract }

def toolArgs (s : AuthorStep) : List UInt8 :=
  (s.params[TOOL_ARGS_KEY]?).getD (utf8Bytes "\x7b\x7d")

/-- The dial an `http` call declares, and the one secret it names. -/
def httpScopes (s : AuthorStep) (warrant : WarrantSpec) : Except BinderError WarrantSpec :=
  match host.httpArgsScopes (toolArgs s) with
  | .error e => .error (.invalidArgs ("http step args: " ++ e))
  | .ok (dialed, secretName) =>
    .ok { warrant with
      netScope := .egressAllowlist (.ofList [dialed])
      secretScope := match secretName with
        | some name => .allowList (.ofList [name])
        | none => warrant.secretScope }

def toolStepDef (base : WarrantSpec) (i : Nat) (s : AuthorStep) : Except BinderError StepDef :=
  match host.registry with
  | none => .error (.invalidArgs "this serve has no tool registry; TOOL steps are unavailable")
  | some registry =>
    match s.toolContract.toList with
    | [] =>
      .error (.invalidArgs "TOOL step must name exactly one (tool_id, tool_version)")
    | [(name, version)] =>
      match registry ⟨name, version⟩ with
      | none =>
        .error (.invalidArgs s!"TOOL step references unregistered tool {name}@{version}")
      | some required => do
        (host.validateArgs ⟨name, version⟩ (toolArgs s)).mapError fun e =>
          .invalidArgs (s!"tool args invalid for {name}@{version}: " ++ e)
        let buf := utf8Bytes "kx-blueprint/tool/v1" ++ leBytes 8 i ++ utf8Bytes name ++
          utf8Bytes "@" ++ utf8Bytes version
        let warrant := toolStepWarrant base ⟨name, version⟩ required
        let warrant ← if name = "http" then httpScopes host s warrant else .ok warrant
        return { synthesize (host.ids.blake3 buf) base.modelRoute.modelId .worldMutating
            .stageThenCommit warrant name with
          toolContract := (∅ : Std.ExtTreeMap ToolName ToolVersion).insert name version }
    | _ => .error (.invalidArgs "TOOL step must name exactly one tool")

/-- The params of a step become its configuration. A model step has its prompt there, a tool
step its arguments. -/
def withParams (s : AuthorStep) (d : StepDef) : StepDef :=
  let config := s.params.toList.foldl (fun config param => config.insert param.1 param.2)
    d.configSubset
  let config := if s.kind = .model then config.insert PROMPT_KEY (utf8Bytes s.prompt) else config
  let config := if s.kind = .tool && !config.contains TOOL_ARGS_KEY then
      config.insert TOOL_ARGS_KEY (utf8Bytes "\x7b\x7d")
    else config
  { d with configSubset := config }

def stepDef (i : Nat) (s : AuthorStep) : Except BinderError StepDef :=
  let base := servedBlueprintBase host.execClass host.serveModel
  let made := match s.kind with
    | .pure => pureStepDef host base i s
    | .model => modelStepDef host base s
    | .exec =>
      .error (.invalidArgs "EXEC step authoring is reserved (PR-1 supports PURE + MODEL)")
    | .tool => toolStepDef host base i s
  made.map (withParams s)

end Steps

section Author

variable (host : AuthorHost)

def bundleItems (get : String → String → Except String (Option (List ContextItemRef)))
    (party handle : String) : Except BinderError (List ContextItemRef) :=
  match get party handle with
  | .error _ => .error (.invalidArgs s!"context bundle \x27{handle}\x27 lookup failed")
  | .ok none => .error (.invalidArgs s!"context bundle \x27{handle}\x27 not found")
  | .ok (some items) => .ok items

/-- The items of the bundles a run is grounded in, which must all be found. -/
def resolveContextItems (party : String) (handles : List String) :
    Except BinderError (List ContextItemRef) :=
  if handles = [] then .ok []
  else
    match host.bundles with
    | none => .error (.invalidArgs "context bundles are not available on this gateway")
    | some get =>
      (handles.mapM (bundleItems get party)).map List.flatten

/-- What goes onto a step: the run-wide items if the step has no parent, and its own. -/
def itemsFor (edges : List AuthorEdge) (runWide : List ContextItemRef) (perStep : PerStepBinds)
    (i : Nat) : List ContextItemRef :=
  (if i ∈ edges.map (·.child.toNat) then [] else runWide) ++ (perStep.contextItems[i]?).getD []

def injectItems (d : StepDef) (items : List ContextItemRef) : StepDef :=
  if items = [] then d
  else
    { d with
        configSubset := d.configSubset.insert CONTEXT_ITEMS_KEY (host.encodeContextItems items) }

def compileErrorText : CompileError → String
  | .stepIndexOutOfRange i => s!"step index {i} is out of range for this workflow"
  | .cycle i => s!"workflow DAG contains a cycle involving step {i}"
  | .invalidCritic critic producer =>
    s!"critic step {critic} references producer step {producer}, which does not precede it"
  | .duplicateEdge parent child => s!"duplicate edge from step {parent} to step {child}"

def authorEdge (n : Nat) (e : AuthorEdge) : Except BinderError StepEdge :=
  if n ≤ e.parent.toNat then .error (.invalidArgs s!"edge parent index {e.parent} out of range")
  else if n ≤ e.child.toNat then .error (.invalidArgs s!"edge child index {e.child} out of range")
  else
    .ok ⟨e.parent.toNat, e.child.toNat,
      if e.data then ⟨.data, false⟩ else ⟨.control, e.nonCascade⟩⟩

/-- An edge that joins a pair a second time is refused. -/
def addStepEdge (n : Nat) (edges : List StepEdge) (e : AuthorEdge) :
    Except BinderError (List StepEdge) := do
  let edge ← authorEdge n e
  if edges.any fun e' => e'.parent = edge.parent && e'.child = edge.child then
    .error (.invalidArgs ("edge: " ++ compileErrorText (.duplicateEdge edge.parent edge.child)))
  else .ok (edges ++ [edge])

/-- The warrant a Mote is submitted under. A warrant with tools was built here and is taken as
it is, with the credentials bound to its step; any other is narrowed by the party's. -/
def admitWarrant (effective : WarrantSpec) (perStep : PerStepBinds) (cm : CompiledMote) :
    Except BinderError WarrantSpec := do
  let warrant ← if cm.warrant.toolGrants.isEmpty then
      (intersect effective ⟨"blueprint-step", 0, cm.warrant, ""⟩).mapError fun _ => .notAuthorized
    else .ok cm.warrant
  if warrant.toolGrants.isEmpty then return warrant
  match (perStep.secretScope[cm.stepIndex]?).join with
  | some scope => return { warrant with secretScope := scope }
  | none => return warrant

def buildWorkflow (party : String) (steps : List AuthorStep) (edges : List AuthorEdge)
    (contextBundles : List String) (extraItems : List ContextItemRef) (perStep : PerStepBinds) :
    Except BinderError (List StepDef × List StepEdge × WarrantSpec) := do
  let defs ← steps.zipIdx.mapM fun step => stepDef host step.2 step.1
  let wired ← edges.foldlM (addStepEdge steps.length) []
  match host.useOf party with
  | none => .error .notAuthorized
  | some effective => do
    let bundled ← resolveContextItems host party contextBundles
    let runWide := bundled ++ extraItems
    return (defs.mapIdx fun i d => injectItems host d (itemsFor edges runWide perStep i), wired,
      effective)

def authorWithContextItems (party : String) (seed : UInt32) (steps : List AuthorStep)
    (edges : List AuthorEdge) (dynamic : Bool) (contextBundles : List String)
    (extraItems : List ContextItemRef) (perStep : PerStepBinds) :
    Except BinderError BoundRecipe :=
  if dynamic then
    .error (.invalidArgs "dynamic execution mode is reserved (PR-1 is frozen-only)")
  else if steps = [] then .error (.invalidArgs "a blueprint needs at least one step")
  else if MAX_BLUEPRINT_STEPS < steps.length then
    .error (.invalidArgs s!"too many steps (max {MAX_BLUEPRINT_STEPS})")
  else if MAX_BLUEPRINT_EDGES < edges.length then
    .error (.invalidArgs s!"too many edges (max {MAX_BLUEPRINT_EDGES})")
  else do
    let (defs, wired, effective) ←
      buildWorkflow host party steps edges contextBundles extraItems perStep
    if hlength : defs.length < 2 ^ 63 then
      match compile host.ids { steps := defs, edges := wired, seed, length_steps := hlength } with
      | .error e => .error (.invalidArgs ("compile: " ++ compileErrorText e))
      | .ok compiled =>
        let motes ← compiled.motes.mapM fun cm => do
          let warrant ← admitWarrant effective perStep cm
          return (cm.mote, warrant)
        return {
          recipeFingerprint :=
            host.ids.blake3 (compiled.motes.flatMap fun cm => cm.mote.id.bytes.toList)
          motes
          reactSeed := false }
    -- Not reached: there are as many definitions as steps.
    else .error (.internal "")

def authorPrepared (party : String) (p : Prepared) : Except AppRunError BoundRecipe := do
  let (steps, edges) ← (authorStepsOf host p.dag).mapError .invalidArgs
  (authorWithContextItems host party p.dag.seed steps edges p.dag.dynamic p.contextBundles
    p.contextItems p.perStep).mapError mapBinderErr

end Author

end Kortecx.App
