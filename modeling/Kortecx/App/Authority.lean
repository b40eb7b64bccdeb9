import Kortecx.App.Prepare

/-!
Which tools an App can gain. What is granted on behalf of a wish is always within the
caller's grants, fireable and known. The role a policy puts on the caller is looked at only
when the ceiling itself is the wish; a wish that is spelled out goes past it, and so does
the search tool that comes with a dataset.
-/

namespace Kortecx.App

open Lib Gateway Warrant Policy List

def InCeiling (host : AppHost) (party : String) (tool : ToolGrant) : Prop :=
  ∃ ceiling, principalToolCeiling host.tools host.policy party = .ok ceiling ∧ tool ∈ ceiling

def retrieveTool : ToolGrant := ⟨"retrieve", "1"⟩

/-- The grants of the party, the serve and the registry let the tool through. -/
def Granted (host : AppHost) (party : String) (tool : ToolGrant) : Prop :=
  ∃ authority, partyToolAuthority host.tools party = .ok authority ∧
    Grantable host.tools authority tool

variable {host : AppHost} {party : String} {env : AppEnvelope}

section Folds

variable {P : ToolGrant → Prop} {dag dag' : DagSpec} {tool : ToolGrant} {names : List String}

/-- The ceiling has what is granted and the policy lets through. -/
theorem inCeiling_iff :
    InCeiling host party tool ↔
      Permits (policyLeg host.policy party) tool ∧ Granted host party tool := by
  constructor
  · rintro ⟨ceiling, hceiling, hmem⟩
    obtain ⟨authority, hauthority, hgrants, hpolicy, hrest⟩ := (mem_ceiling hceiling).1 hmem
    exact ⟨hpolicy, authority, hauthority, hgrants, hrest⟩
  · rintro ⟨hpolicy, authority, hauthority, hgrants, hrest⟩
    have hceiling : ∃ ceiling, principalToolCeiling host.tools host.policy party = .ok ceiling := by
      unfold principalToolCeiling
      rw [hauthority]
      exact ⟨_, rfl⟩
    obtain ⟨ceiling, hceiling⟩ := hceiling
    exact ⟨ceiling, hceiling,
      (mem_ceiling hceiling).2 ⟨authority, hauthority, hgrants, hpolicy, hrest⟩⟩

/-- A prompt that says something keeps a model step one. -/
theorem isModelStep_of_prompt {text : String} (htext : ∃ c ∈ text.toList, isWhiteSpace c = false)
    (h : isModelStep s = true) : isModelStep { s with prompt := trim text } = true := by
  have hprompt := trim_ne_empty htext
  unfold isModelStep at h ⊢
  cases hkind : s.kind with
  | none => simp [hprompt]
  | some kind =>
    rw [hkind] at h
    exact h

theorem adds_injectAppArgs (h : injectAppArgs host dag args = .ok dag') :
    Adds P dag dag' := by
  unfold injectAppArgs at h
  split at h
  · cases h
    exact Adds.refl dag
  split at h
  · cases h
  · cases h
    exact Adds.refl dag
  split at h
  · cases h
    exact Adds.refl dag
  cases h
  refine Adds.of_modifyStep_prompt (fun _ => ?_) fun _ => rfl
  exact isModelStep_of_prompt ⟨'I', by simp [toString], by decide⟩

theorem adds_pinModelRoute (h : pinModelRoute host dag route = .ok dag') :
    Adds P dag dag' := by
  unfold pinModelRoute at h
  split_ifs at h
  · cases h
    exact Adds.refl dag
  cases h
  apply Adds.of_map
  · intro s hs
    split
    · cases hkind : s.kind <;> simp_all [isModelStep]
    · exact hs
  · intro s
    split <;> rfl

theorem adds_steerStepDatasetPrompt :
    Adds P dag (steerStepDatasetPrompt dag i names) := by
  unfold steerStepDatasetPrompt
  split
  · exact Adds.refl dag
  · refine Adds.of_modifyStep_prompt (fun _ => ?_) fun _ => rfl
    exact isModelStep_of_prompt ⟨'G', by simp [toString], by decide⟩

theorem adds_steerDatasetPrompt :
    Adds P dag (steerDatasetPrompt dag names) := by
  unfold steerDatasetPrompt
  split
  · exact Adds.refl dag
  · exact adds_steerStepDatasetPrompt

theorem adds_stampApproval :
    Adds P dag (stampApproval dag requireApproval) := by
  unfold stampApproval
  split
  · split
    · exact Adds.refl dag
    · refine Adds.of_modifyStep_prompt ?_ fun _ => rfl
      exact fun _ hs => hs
  · exact Adds.refl dag

theorem allTools_retrieveGrant (h : P retrieveTool) : AllTools P retrieveGrant :=
  allTools_empty.insert h

theorem adds_foldl {steps : List Nat}
    (hchange : ∀ dag i, Adds P dag (change dag i)) : Adds P dag (steps.foldl change dag) :=
  foldlRecOn (motive := fun dag' => Adds P dag dag') steps change (Adds.refl dag)
    fun _ hdag i _ => hdag.trans (hchange _ i)

theorem adds_foldDatasetRag
    (hretrieve : P retrieveTool) (h : foldDatasetRag host bindings targets dag = .ok dag') :
    Adds P dag dag' := by
  unfold foldDatasetRag at h
  split at h
  · cases h
    exact Adds.refl dag
  split at h
  · cases h
  cases h
  have hgrant := allTools_retrieveGrant hretrieve
  have hwide : ∀ names : List String, Adds P dag
      (if names = [] then dag
        else steerDatasetPrompt (dag.foldSkillTools retrieveGrant) names) := by
    intro names
    split
    · exact Adds.refl dag
    · exact (Adds.foldSkillTools hgrant).trans adds_steerDatasetPrompt
  apply (hwide _).trans
  apply adds_foldl
  intro dag i
  dsimp only
  split
  · exact Adds.refl dag
  · exact (Adds.foldStepTools hgrant).trans adds_steerStepDatasetPrompt

theorem adds_foldWishes (h : foldWishes host party dag wish perStepWish = .ok dag') :
    Adds (Granted host party) dag dag' := by
  unfold foldWishes at h
  split at h
  · cases h
    exact Adds.refl dag
  split at h
  · cases h
  rename_i authority hauthority
  cases h
  have hone : ∀ (dag : DagSpec) (idx : Option Nat) (w : ToolMap),
      Adds (Granted host party) dag (dag.intersectOnto host.tools authority idx w) :=
    fun dag idx w => Adds.intersectOnto.mono fun tool htool => ⟨authority, hauthority, htool⟩
  exact (hone dag none wish).trans (adds_foldl fun dag i => hone dag _ _)

/-- The tools the folds add are granted, apart from the search tool of a dataset. -/
theorem adds_foldTools (h : foldTools host party env binds dag = .ok dag') :
    Adds (fun tool => Granted host party tool ∨ tool = retrieveTool) dag dag' := by
  unfold foldTools at h
  simp only [bind, Except.bind, pure, Except.pure] at h
  split at h
  · cases h
  split at h
  · cases h
  rename_i wished hwished
  have hwishes : Adds (fun tool => Granted host party tool ∨ tool = retrieveTool) dag wished :=
    (adds_foldWishes hwished).mono fun _ => .inl
  split at h
  · cases h
    exact hwishes
  · exact hwishes.trans (adds_foldDatasetRag (.inr rfl) h)

end Folds

section Prepared

variable {handle : String} {args : List UInt8} {requireApproval : Bool} {prepared : Prepared}

structure Stages (host : AppHost) (party : String) (env : AppEnvelope) (handle : String)
    (args : List UInt8) (requireApproval : Bool) (prepared : Prepared) where
  blueprint : DagSpec
  given : DagSpec
  routed : DagSpec
  tooled : DagSpec
  rail : List ContextItemRef
  providedBy : List (String × Option String)
  unboundItems : List ContextItemRef
  boundItems : List (List ContextItemRef)
  blueprint_eq : blueprintOf env handle = .ok blueprint
  inject_eq : injectAppArgs host (AppBindings.takeFrom blueprint).2 args = .ok given
  route_eq : pinModelRoute host given env.modelRoute = .ok routed
  tools_eq : foldTools host party env (AppBindings.takeFrom blueprint).1 routed = .ok tooled
  prepared_eq : prepared =
    { dag := { stampApproval tooled requireApproval with contextBundles := [] }
      contextItems := rail ++ unboundItems
      perStep :=
        { contextItems := boundItems
          secretScope := perStepSecretScopes providedBy (AppBindings.takeFrom blueprint).1.connections
            env.secretScope blueprint.steps.length }
      contextBundles := blueprint.contextBundles ++ env.bundleHandles
      composes := env.apps.map fun handle => (handle,
        modelStepsNaming (AppBindings.takeFrom blueprint).1.apps handle
          (stampApproval tooled requireApproval)) }
  provided_eq : ∃ registered, host.connections = .ok registered ∧
    connectionCredentials registered env.connections = .ok providedBy
  items_eq : (splitSkills env.skills (AppBindings.takeFrom blueprint).1.skills routed).2.mapM
    (skillContextItems host) = .ok boundItems

/-- An App that was made ready went through the stages, and its steps name only Apps that are
declared. -/
theorem stages_of_prepareEnv
    (h : prepareEnv host party env handle args requireApproval = .ok prepared) :
    ∃ stages : Stages host party env handle args requireApproval prepared,
      checkCalls env (AppBindings.takeFrom stages.blueprint).1.apps = .ok () := by
  obtain ⟨rail, _, h⟩ := except_bind_eq_ok.1 h
  obtain ⟨registered, hregistered, h⟩ := except_bind_eq_ok.1 h
  obtain ⟨providedBy, hprovided, h⟩ := except_bind_eq_ok.1 h
  obtain ⟨_, _, h⟩ := except_bind_eq_ok.1 h
  obtain ⟨blueprint, hblueprint, h⟩ := except_bind_eq_ok.1 h
  obtain ⟨given, hgiven, h⟩ := except_bind_eq_ok.1 h
  obtain ⟨routed, hrouted, h⟩ := except_bind_eq_ok.1 h
  obtain ⟨unboundItems, _, h⟩ := except_bind_eq_ok.1 h
  obtain ⟨boundItems, hitems, h⟩ := except_bind_eq_ok.1 h
  obtain ⟨tooled, htooled, h⟩ := except_bind_eq_ok.1 h
  obtain ⟨_, hcalls, h⟩ := except_bind_eq_ok.1 h
  cases h
  have hconnections : host.connections = .ok registered := except_mapError_eq_ok.1 hregistered
  refine ⟨{
    blueprint, given, routed, tooled, rail, providedBy, unboundItems, boundItems
    blueprint_eq := hblueprint
    inject_eq := hgiven
    route_eq := hrouted
    tools_eq := htooled
    prepared_eq := rfl
    provided_eq := ⟨registered, hconnections, hprovided⟩
    items_eq := hitems }, hcalls⟩

theorem adds_takeFrom (dag : DagSpec) :
    Adds P dag (AppBindings.takeFrom dag).2 :=
  Adds.of_map (fun _ hs => hs) fun _ => rfl

theorem blueprintOf_ok (h : blueprintOf env handle = .ok blueprint) :
    env.blueprint = some (.ok blueprint) := by
  unfold blueprintOf at h
  split at h
  · cases h
  · cases h
  rename_i hfound
  cases h
  exact hfound

/-- Making an App ready adds tools to its steps, each granted or the search tool. -/
theorem Stages.adds (stages : Stages host party env handle args requireApproval prepared) :
    Adds (fun tool => Granted host party tool ∨ tool = retrieveTool) stages.blueprint
      prepared.dag := by
  have hadds : Adds (fun tool => Granted host party tool ∨ tool = retrieveTool) stages.blueprint
      (stampApproval stages.tooled requireApproval) :=
    (((adds_takeFrom stages.blueprint).trans (adds_injectAppArgs stages.inject_eq)).trans
      (adds_pinModelRoute stages.route_eq)).trans
      ((adds_foldTools stages.tools_eq).trans adds_stampApproval)
  have hdag := congrArg Prepared.dag stages.prepared_eq
  rw [hdag]
  exact ⟨hadds.edges, hadds.length, hadds.contract, hadds.model⟩

end Prepared

/-- A tool that is not pinned on its step by the blueprint is in the ceiling of the party
exactly if the role on the party allows it and, should it be the search tool of a dataset, it
is granted. -/
theorem prepared_tool_inCeiling_iff (host : AppHost) (party : String) (env : AppEnvelope)
    (handle : String) (args : List UInt8) (requireApproval : Bool) {prepared : Prepared}
    (hprepared : prepareEnv host party env handle args requireApproval = .ok prepared) :
    ∃ blueprint, env.blueprint = some (.ok blueprint) ∧
      prepared.dag.steps.length = blueprint.steps.length ∧
      ∀ (i : Nat) (pinned ready : StepSpec), blueprint.steps[i]? = some pinned →
        prepared.dag.steps[i]? = some ready →
        ∀ id version, ready.toolContract[id]? = some version →
          pinned.toolContract[id]? ≠ some version →
          (InCeiling host party ⟨id, version⟩ ↔
            Permits (policyLeg host.policy party) ⟨id, version⟩ ∧
              ((⟨id, version⟩ : ToolGrant) = retrieveTool → Granted host party retrieveTool)) := by
  obtain ⟨stages⟩ := stages_of_prepareEnv hprepared
  refine ⟨stages.blueprint, blueprintOf_ok stages.blueprint_eq, stages.adds.length, ?_⟩
  intro i pinned ready hpinned hready id version hversion hadded
  rw [inCeiling_iff]
  apply and_congr_right
  intro _
  constructor
  · exact fun hgranted heq => heq ▸ hgranted
  · intro hsearch
    rcases stages.adds.contract i pinned ready hpinned hready id version hversion with
      hold | hgranted | heq
    · exact absurd hold hadded
    · exact hgranted
    · exact heq ▸ hsearch heq

/-- A host with the two tools, on which `bob` is under a role with one of them. -/
def narrowedHost : AppHost where
  tools := openHost
  policy := some (bobRuled [readTool] [])
  apps _ _ := .ok none
  projectRail _ _ _ := .ok []
  decodeHex32 _ := some (.replicate 32 1)
  containsRef _ := true
  connections := .ok []
  serveModelIds := []
  parseArgs _ := .ok []
  datasets := none

def askingApp (tool : ToolGrant) : AppEnvelope where
  blueprint := some (.ok { steps := [{ kind := some .model, prompt := "Answer." }] })
  requestedGrants := (∅ : ToolMap).insert tool.toolId tool.toolVersion

def firstContract (prepared : Except AppRunError Prepared) : Option (List (String × String)) :=
  (prepared.toOption.bind (·.dag.steps.head?)).map (·.toolContract.toList)

theorem prepared_tool_inCeiling_iff_reader :
    firstContract (prepareEnv narrowedHost "bob" (askingApp readTool) "kx/apps/ask" [] false) =
      some [("fs-read", "1")] ∧ InCeiling narrowedHost "bob" readTool := by
  refine ⟨by decide +kernel, ?_⟩
  have hready : ∃ prepared ready, prepareEnv narrowedHost "bob" (askingApp readTool) "kx/apps/ask"
      [] false = .ok prepared ∧ prepared.dag.steps[0]? = some ready ∧
      ready.toolContract["fs-read"]? = some "1" := ⟨_, _, rfl, rfl, by decide +kernel⟩
  obtain ⟨prepared, ready, hprepared, hready, hversion⟩ := hready
  obtain ⟨blueprint, hblueprint, -, hexact⟩ := prepared_tool_inCeiling_iff narrowedHost "bob"
    (askingApp readTool) "kx/apps/ask" [] false hprepared
  cases hblueprint
  exact (hexact 0 _ ready rfl hready "fs-read" "1" hversion (by simp)).2
    ⟨by decide +kernel, fun heq => absurd heq (by decide)⟩

/-- `bob` may use `fs-read` only, yet an App whose steering asks for the shell gets it. -/
theorem prepared_tool_outside_ceiling :
    (principalToolCeiling narrowedHost.tools narrowedHost.policy "bob").toOption =
      some [readTool] ∧
    firstContract (prepareEnv narrowedHost "bob" (askingApp shellTool) "kx/apps/ask" [] false) =
      some [("shell", "1")] := by
  decide +kernel

end Kortecx.App
