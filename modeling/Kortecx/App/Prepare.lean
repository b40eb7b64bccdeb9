import Kortecx.App.Tools

/-!
One App made ready to run, under its own envelope: the context it is grounded in, the
credentials each of its steps may use, the tools its wishes are granted, and the other Apps
its steps call.
-/

namespace Kortecx.App

open Lib Gateway Warrant Policy

structure RegisteredConnection where
  endpoint : String
  credentialRef : Option String
deriving DecidableEq, Repr

/-- A dataset an App is grounded in: its declared name and the corpus it carries. -/
structure DatasetBinding where
  declared : String
  casRefs : List String
deriving DecidableEq, Repr

/-- What the host is wired to. `projectRail` resolves the files of a project branch that an App
of either mode carries; `datasets` resolves declared datasets to ingested ones,
and is absent in a build without retrieval. -/
structure AppHost where
  tools : ToolHost
  policy : Option PoliciesDb
  apps : String → String → Except String (Option (Except String AppEnvelope))
  projectRail : String → String → Bool → Except AppRunError (List ContextItemRef)
  decodeHex32 : String → Option (ByteVec 32)
  containsRef : ByteVec 32 → Bool
  connections : Except String (List RegisteredConnection)
  serveModelIds : List String
  parseArgs : List UInt8 → Except String (List (String × String))
  datasets : Option (List DatasetBinding → Except AppRunError (List String))

/-- What is bound to single steps, by their positions; a list may be short. -/
structure PerStepBinds where
  contextItems : List (List ContextItemRef)
  secretScope : List (Option SecretScope)

/-- An App ready to be joined with others or to run alone. -/
structure Prepared where
  dag : DagSpec
  contextItems : List ContextItemRef
  perStep : PerStepBinds
  contextBundles : List String
  composes : List (String × List Nat)

def mapBinderErr : BinderError → AppRunError
  | .notAuthorized => .notAuthorized
  | .invalidArgs d => .invalidArgs d
  | .internal d => .internal d

section Secrets

variable (registered : List RegisteredConnection)

def endpointCredential (descriptor : String) : Option String :=
  (registered.reverse.find? (·.endpoint = descriptor)).map (·.credentialRef.getD "")

def connectionCredential (ref : ConnectionRef) : Except AppRunError (String × Option String) :=
  let provided (credential : String) : String × Option String :=
    (ref.descriptor, if credential = "" then none else some credential)
  if ref.credentialRef = "" then
    match endpointCredential registered ref.descriptor with
    | some credential => .ok (provided credential)
    | none => .error (.missingIntegration ref.descriptor)
  else if registered.any (·.credentialRef = some ref.credentialRef) then
    .ok (provided ref.credentialRef)
  else .error (.missingIntegration ref.credentialRef)

def connectionCredentials (refs : List ConnectionRef) :
    Except AppRunError (List (String × Option String)) :=
  refs.mapM (connectionCredential registered)

def checkSecretScope (providedBy : List (String × Option String)) (scopeNames : List String) :
    Except AppRunError Unit :=
  match scopeNames.find? (· ∉ providedBy.filterMap (·.2)) with
  | some name =>
    .error (.invalidArgs (s!"guards.secret_scope names {name.quote} but no referenced " ++
      "connection provides that credential"))
  | none => .ok ()

end Secrets

def narrowScope (provided scopeNames : List String) : Option SecretScope :=
  let allowed := if scopeNames = [] then provided else scopeNames.filter (· ∈ provided)
  if allowed = [] then none else some (.allowList (Std.ExtTreeSet.ofList allowed))

def providedAt (providedBy : List (String × Option String)) (bindings : List (List String))
    (i : Nat) : List String :=
  let unbound := providedBy.filter fun connection => stepsNaming bindings connection.1 = []
  let bound := providedBy.filter fun connection =>
    ((bindings[i]?).getD []).any fun name => eqIgnoreAsciiCase name connection.1
  (unbound ++ bound).filterMap (·.2)

def perStepSecretScopes (providedBy : List (String × Option String))
    (bindings : List (List String)) (scopeNames : List String) (stepCount : Nat) :
    List (Option SecretScope) :=
  (List.range stepCount).map fun i => narrowScope (providedAt providedBy bindings i) scopeNames

def collectDatasetBindings (env : AppEnvelope) : List DatasetBinding :=
  let declared := env.datasets.map (fun d => ⟨d.datasetRef, d.casRefs⟩) ++
    env.datasetRefs.map (fun name => ⟨name, []⟩)
  declared.foldl (fun out (binding : DatasetBinding) =>
    if binding.declared = "" ∨ binding.declared ∈ out.map (·.declared) then out
    else out ++ [binding]) []

/-- The instructions of skills as context; a body that is not in the store refuses the run. -/
def skillContextItems (host : AppHost) (skills : List SkillRef) :
    Except AppRunError (List ContextItemRef) :=
  skills.mapM fun skill =>
    match host.decodeHex32 skill.instructionsRef with
    | none =>
      .error (.invalidArgs
        s!"skill {skill.name.quote} instructions_ref is not a 64-hex content ref")
    | some bytes =>
      if host.containsRef bytes then .ok ⟨"skill:" ++ skill.name, bytes⟩
      else
        .error (.invalidArgs (s!"skill {skill.name.quote} instructions (" ++
          String.ofList (skill.instructionsRef.toList.take 12) ++
          "…) not found in the content store; add the skill body first " ++
          "(kx skills add / PutContent), then re-run"))

def decodePresentRef (host : AppHost) (field contentRef : String) :
    Except AppRunError (ByteVec 32) :=
  match host.decodeHex32 contentRef with
  | none => .error (.invalidArgs s!"{field} is not a 64-hex content ref: {contentRef.quote}")
  | some bytes =>
    if host.containsRef bytes then .ok bytes
    else
      .error (.invalidArgs (s!"{field} (" ++ String.ofList (contentRef.toList.take 12) ++
        "…) not found in the content store; upload it first " ++
        "(kx content put / PutContent), then re-run"))

def artifactItems (host : AppHost) (label : String) (artifacts : List ArtifactRef) :
    Except AppRunError (List ContextItemRef) :=
  artifacts.mapM fun a => do
    let bytes ← decodePresentRef host label a.contentRef
    return ⟨label ++ ":" ++ a.name, bytes⟩

def contextRailItems (host : AppHost) (party : String) (env : AppEnvelope) :
    Except AppRunError (List ContextItemRef) := do
  let context ← artifactItems host "context" env.context
  let prompts ← artifactItems host "prompt" env.prompts
  let rules ← artifactItems host "rule" env.rules
  let memory ← artifactItems host "memory" env.memory
  let refs ← env.contextRefs.mapM fun ref => do
    let bytes ← decodePresentRef host "context_ref" ref
    return ⟨"ref:" ++ String.ofList (ref.toList.take 12), bytes⟩
  let project ← host.projectRail party env.branchHandle env.codified
  return context ++ prompts ++ rules ++ memory ++ refs ++ project

def injectAppArgs (host : AppHost) (dag : DagSpec) (args : List UInt8) :
    Except AppRunError DagSpec :=
  if args = [] then .ok dag
  else
    match host.parseArgs args with
    | .error e => .error (.invalidArgs ("app args must be a JSON object of strings: " ++ e))
    | .ok [] => .ok dag
    | .ok parsed =>
      match dag.steps.findIdx? isModelStep with
      | none => .ok dag
      | some i =>
        let block := "\n".intercalate (parsed.map fun arg => s!"- {arg.1}: {arg.2}")
        .ok (dag.modifyStep i fun s =>
          { s with prompt := trim (s!"{s.prompt}\n\nInputs:\n" ++ block) })

def pinModelRoute (host : AppHost) (dag : DagSpec) (route : String) : Except AppRunError DagSpec :=
  if route = "" then .ok dag
  else if route ∉ host.serveModelIds then .error (.unservedModelRoute route)
  else
    .ok { dag with
      steps := dag.steps.map fun s =>
        if isModelStep s && s.modelId = "" then { s with modelId := route } else s }

def steerStepDatasetPrompt (dag : DagSpec) (i : Nat) (names : List String) : DagSpec :=
  if names = [] then dag
  else
    let directive := "Grounding: use the \x60retrieve\x60 tool to search the dataset(s) [" ++
      ", ".intercalate names ++ "] for relevant passages BEFORE answering, and ground your " ++
      "answer in what you retrieve."
    dag.modifyStep i fun s => { s with prompt := trim (s!"{s.prompt}\n\n" ++ directive) }

def steerDatasetPrompt (dag : DagSpec) (names : List String) : DagSpec :=
  match dag.entryAgenticStepIndex with
  | none => dag
  | some i => steerStepDatasetPrompt dag i names

def retrieveGrant : ToolMap := (∅ : ToolMap).insert "retrieve" "1"

/-- Grounding in datasets grants the tool that searches them, to the steps that name the
dataset or else to the entry step. -/
def foldDatasetRag (host : AppHost) (bindings : List DatasetBinding) (targets : List (List Nat))
    (dag : DagSpec) : Except AppRunError DagSpec :=
  match host.datasets with
  | none => .ok dag
  | some resolve =>
    match resolve bindings with
    | .error e => .error e
    | .ok resolved =>
      let grounded := resolved.zip targets
      let appWide := (grounded.filter (·.2 = [])).map (·.1)
      let dag := if appWide = [] then dag
        else steerDatasetPrompt (dag.foldSkillTools retrieveGrant) appWide
      .ok ((List.range dag.steps.length).foldl (fun dag i =>
        let names := (grounded.filter (i ∈ ·.2)).map (·.1)
        if names = [] then dag
        else steerStepDatasetPrompt (dag.foldStepTools i retrieveGrant) i names) dag)

def REACT_REQUIRE_APPROVAL_KEY : String := "require_approval"

def stampApproval (dag : DagSpec) (requireApproval : Bool) : DagSpec :=
  if requireApproval then
    match dag.entryAgenticStepIndex with
    | none => dag
    | some i =>
      dag.modifyStep i fun s =>
        { s with params := s.params.insert REACT_REQUIRE_APPROVAL_KEY "true" }
  else dag

def effectiveToolWish (reach : Reach) (declared : ToolMap) (ceiling : List ToolGrant) : ToolMap :=
  match reach with
  | .explicit => declared
  | .inheritPrincipal => ceilingWish ceiling

def splitSkills (skills : List SkillRef) (bindings : List (List String)) (dag : DagSpec) :
    List SkillRef × List (List SkillRef) :=
  (skills.filter fun skill => modelStepsNaming bindings skill.name dag = [],
    (List.range dag.steps.length).map fun i =>
      skills.filter fun skill => i ∈ modelStepsNaming bindings skill.name dag)

/-- The wishes, app-wide and per step, are met under the grants of the caller. -/
def foldWishes (host : AppHost) (party : String) (dag : DagSpec) (wish : ToolMap)
    (perStepWish : List ToolMap) : Except AppRunError DagSpec :=
  if wish.isEmpty && perStepWish.all (·.isEmpty) then .ok dag
  else
    match partyToolAuthority host.tools party with
    | .error e => .error (mapBinderErr e)
    | .ok allowlist =>
      let dag := dag.intersectOnto host.tools allowlist none wish
      .ok ((List.range perStepWish.length).foldl (fun dag i =>
        dag.intersectOnto host.tools allowlist (some i) ((perStepWish[i]?).getD ∅)) dag)

def checkCalls (env : AppEnvelope) (calls : List (List String)) : Except AppRunError Unit :=
  match (List.range calls.length).findSome? fun i =>
      (((calls[i]?).getD []).find? fun handle =>
        !env.apps.any (eqIgnoreAsciiCase · handle)).map (i, ·) with
  | none => .ok ()
  | some (i, handle) =>
    .error (.uncomposableApp handle (s!"step {i} calls it, but the app does not declare it in " ++
      "references.apps — declare it (the SDK \x60save()\x60 does this from the graph; " ++
      "\x60with_app\x60/\x60withApp\x60 does it offline)"))

def blueprintOf (env : AppEnvelope) (handle : String) : Except AppRunError DagSpec :=
  match env.blueprint with
  | none =>
    .error (.invalidArgs (s!"app {handle.quote} is a hosted (experience) app with no " ++
      "blueprint; it cannot be run via RunApp, nor composed by another app"))
  | some (.error e) => .error (.invalidArgs ("app blueprint is not a DagSpec: " ++ e))
  | some (.ok dag) => .ok dag

def reachCeiling (host : AppHost) (party : String) (reach : Reach) :
    Except AppRunError (List ToolGrant) :=
  match reach with
  | .explicit => .ok []
  | .inheritPrincipal =>
    (principalToolCeiling host.tools host.policy party).mapError mapBinderErr

/-- The tools that go onto the steps of a blueprint: its wishes, then its grounding. -/
def foldTools (host : AppHost) (party : String) (env : AppEnvelope) (binds : AppBindings)
    (dag : DagSpec) : Except AppRunError DagSpec := do
  let skills := splitSkills env.skills binds.skills dag
  let ceiling ← reachCeiling host party env.reach
  let wish := effectiveToolWish env.reach (combinedToolWish skills.1 env.requestedGrants) ceiling
  let dag ← foldWishes host party dag wish (skills.2.map skillWishUnion)
  let bindings := collectDatasetBindings env
  if bindings = [] then return dag
  foldDatasetRag host bindings
    (bindings.map fun b => modelStepsNaming binds.datasets b.declared dag) dag

def prepareEnv (host : AppHost) (party : String) (env : AppEnvelope) (handle : String)
    (args : List UInt8) (requireApproval : Bool) : Except AppRunError Prepared := do
  let rail ← contextRailItems host party env
  let registered ← host.connections.mapError fun e => .internal ("connections.db read: " ++ e)
  let providedBy ← connectionCredentials registered env.connections
  checkSecretScope providedBy env.secretScope
  let blueprint ← blueprintOf env handle
  let (binds, dag) := AppBindings.takeFrom blueprint
  let dag ← injectAppArgs host dag args
  let dag ← pinModelRoute host dag env.modelRoute
  let skills := splitSkills env.skills binds.skills dag
  let unboundItems ← skillContextItems host skills.1
  let boundItems ← skills.2.mapM (skillContextItems host)
  let dag ← foldTools host party env binds dag
  let dag := stampApproval dag requireApproval
  checkCalls env binds.apps
  return {
    dag := { dag with contextBundles := [] }
    contextItems := rail ++ unboundItems
    perStep :=
      { contextItems := boundItems
        secretScope := perStepSecretScopes providedBy binds.connections env.secretScope
          blueprint.steps.length }
    contextBundles := blueprint.contextBundles ++ env.bundleHandles
    composes := env.apps.map fun handle =>
      (handle, modelStepsNaming binds.apps handle dag) }

/-- The caller's App of a handle, made ready. An App that is absent and one that is not the
caller's are told apart for no one. -/
def prepareApp (host : AppHost) (party handle : String) (args : List UInt8)
    (requireApproval : Bool) : Except AppRunError Prepared :=
  match host.apps party handle with
  | .error e => .error (.internal ("apps.db read: " ++ e))
  | .ok none => .error .notAuthorized
  | .ok (some (.error e)) => .error (.internal ("stored envelope invalid: " ++ e))
  | .ok (some (.ok env)) => prepareEnv host party env handle args requireApproval

end Kortecx.App
