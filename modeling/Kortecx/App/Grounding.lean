import Kortecx.App.Author
import Kortecx.App.Sealed
import Kortecx.Lib.Reader

/-!
The context of a composed run. What an App binds to its steps and what it declares for its
whole run stays on its own steps. The bundles of the root are the exception: they are
resolved for the run, after the join, and go onto the steps that are roots then.
-/

namespace Kortecx.App

open Lib Gateway Warrant Policy Workflow List

def DagSpec.withoutCalls (dag : DagSpec) : DagSpec :=
  { dag with steps := dag.steps.map fun s => { s with apps := [] } }

def AppEnvelope.withoutCalls (env : AppEnvelope) : AppEnvelope :=
  { env with
    blueprint := env.blueprint.map fun parsed => parsed.map DagSpec.withoutCalls
    apps := [] }

/-- An edge as it is compiled. An edge of data always cascades. -/
def EdgeSpec.stepEdge (e : EdgeSpec) : StepEdge :=
  ⟨e.parent.toNat, e.child.toNat,
    if e.edge = "data" then ⟨.data, false⟩ else ⟨.control, e.nonCascade⟩⟩

def AuthorEdge.stepEdge (e : AuthorEdge) : StepEdge :=
  ⟨e.parent.toNat, e.child.toNat, if e.data then ⟨.data, false⟩ else ⟨.control, e.nonCascade⟩⟩

section Injected

variable {bundled : List ContextItemRef} {p : Prepared} {i : Nat} {author : AuthorHost}
  {steps : List AuthorStep} {edges : List AuthorEdge}

/-- The edges of a graph that was lowered, as they are compiled. -/
theorem authorStepsOf_edges (h : authorStepsOf author dag = .ok (steps, edges)) :
    edges.map AuthorEdge.stepEdge = dag.edges.map EdgeSpec.stepEdge := by
  unfold authorStepsOf at h
  simp only [bind, Except.bind, pure, Except.pure] at h
  split at h
  · cases h
  split at h
  · cases h
  rename_i hedges
  split at h
  · cases h
  split at h
  · cases h
  cases h
  apply map_eq_of_mapM_ok hedges
  intro e _ lowered hlowered
  unfold toRequestEdge at hlowered
  split at hlowered
  case isTrue hdata => cases hlowered; simp [AuthorEdge.stepEdge, EdgeSpec.stepEdge, hdata]
  case isFalse hdata =>
    split at hlowered
    · cases hlowered; simp [AuthorEdge.stepEdge, EdgeSpec.stepEdge, hdata]
    · cases hlowered

theorem getElem?_map_range {α : Type} {f : Nat → α} {n i : Nat} (hi : i < n) :
    ((List.range n).map f)[i]? = some (f i) := by
  rw [List.getElem?_map, List.getElem?_range hi, Option.map_some]

end Injected

variable {host : AppHost} {args : List UInt8} {requireApproval : Bool}

section Alone

variable {party : String} {env : AppEnvelope} {handle : String} {prepared : Prepared}

theorem blueprintOf_withoutCalls (h : blueprintOf env handle = .ok dag) :
    blueprintOf env.withoutCalls handle = .ok dag.withoutCalls := by
  have hfound := blueprintOf_ok h
  simp only [blueprintOf, AppEnvelope.withoutCalls, hfound, Option.map_some]
  rfl

theorem takeFrom_withoutCalls (dag : DagSpec) :
    AppBindings.takeFrom dag.withoutCalls =
      ({ (AppBindings.takeFrom dag).1 with apps := dag.steps.map fun _ => [] },
        (AppBindings.takeFrom dag).2) := by
  simp [AppBindings.takeFrom, DagSpec.withoutCalls, Function.comp_def]

theorem checkCalls_of_none (h : ∀ call ∈ calls, call = []) :
    checkCalls env calls = .ok () := by
  have hnone : ((List.range calls.length).findSome? fun i =>
      (((calls[i]?).getD []).find? fun handle =>
        !env.apps.any (eqIgnoreAsciiCase · handle)).map (i, ·)) = none := by
    rw [List.findSome?_eq_none_iff]
    intro i hi
    have hlt := mem_range.1 hi
    rw [List.getElem?_eq_getElem hlt, Option.getD_some, h _ (getElem_mem hlt)]
    rfl
  rw [checkCalls, hnone]

/-- An App that is made ready without its calls differs in the calls only. -/
theorem prepareEnv_withoutCalls
    (h : prepareEnv host party env handle args requireApproval = .ok prepared) :
    prepareEnv host party env.withoutCalls handle args requireApproval =
      .ok { prepared with composes := [] } := by
  have hrail : contextRailItems host party env.withoutCalls = contextRailItems host party env := rfl
  have hfold : ∀ dag (binds : AppBindings) apps,
      foldTools host party env.withoutCalls { binds with apps } dag =
        foldTools host party env binds dag := fun _ _ _ => rfl
  unfold prepareEnv at h ⊢
  simp only [bind, Except.bind, pure, Except.pure] at h ⊢
  rw [hrail]
  split at h
  · cases h
  split at h
  · cases h
  rename_i registered _
  split at h
  · cases h
  rename_i providedBy hprovided
  have hprovided' : connectionCredentials registered env.withoutCalls.connections =
      .ok providedBy := hprovided
  simp only [hprovided']
  split at h
  · cases h
  rename_i hscope
  have hscope' : checkSecretScope providedBy env.withoutCalls.secretScope = .ok _ := hscope
  simp only [hscope']
  split at h
  · cases h
  rename_i blueprint hblueprint
  simp only [blueprintOf_withoutCalls hblueprint, takeFrom_withoutCalls]
  split at h
  · cases h
  rename_i given _
  split at h
  · cases h
  rename_i routed hrouted
  have hrouted' : pinModelRoute host given env.withoutCalls.modelRoute = .ok routed := hrouted
  simp only [hrouted']
  split at h
  · cases h
  rename_i unboundItems hunbound
  have hunbound' : skillContextItems host (splitSkills env.withoutCalls.skills
      (AppBindings.takeFrom blueprint).1.skills routed).1 = .ok unboundItems := hunbound
  simp only [hunbound']
  split at h
  · cases h
  rename_i boundItems hbound
  have hbound' : (splitSkills env.withoutCalls.skills
      (AppBindings.takeFrom blueprint).1.skills routed).2.mapM (skillContextItems host) =
      .ok boundItems := hbound
  simp only [hbound', hfold]
  split at h
  · cases h
  split at h
  · cases h
  cases h
  rw [checkCalls_of_none (by simp)]
  have hlength : blueprint.withoutCalls.steps.length = blueprint.steps.length := length_map _
  rw [hlength]
  rfl

end Alone

/-- The block is an App of the catalog that was made ready, and `alone` is that App made ready
without its calls, with the arguments of the run if it is the root's. -/
def Alone (host : AppHost) (party handle : String) (args : List UInt8) (requireApproval : Bool)
    (b : Block) (alone : Prepared) : Prop :=
  ∃ stored env, host.apps party stored = .ok (some (.ok env)) ∧
    (b.call = none → stored = handle) ∧
    prepareEnv host party env stored (if b.call = none then args else []) requireApproval =
      .ok b.own ∧
    prepareEnv host party env.withoutCalls stored (if b.call = none then args else [])
      requireApproval = .ok alone

section Blocks

variable {party handle : String} {root p : Prepared} {blocks : List Block}

variable {b : Block}

theorem InBlocks.alone
    (h : InBlocks (fun callee => prepareApp host party callee [] requireApproval) root
      root.composes p blocks) (hroot : prepareApp host party handle args requireApproval = .ok root)
    (hb : b ∈ blocks) :
    Alone host party handle args requireApproval b { b.own with composes := [] } := by
  cases hcall : b.call with
  | none =>
    have hown := h.eq_root hb hcall
    obtain ⟨env, hfound, hprepared⟩ := prepareApp_ok hroot
    refine ⟨handle, env, hfound, fun _ => rfl, ?_⟩
    rw [if_pos hcall, hown]
    exact ⟨hprepared, prepareEnv_withoutCalls hprepared⟩
  | some call =>
    obtain ⟨_, _, _, _, _, callee, _, hprepare⟩ := h.called b hb call.1 call.2 hcall
    obtain ⟨env, hfound, hprepared⟩ := prepareApp_ok hprepare
    have hsome : b.call ≠ none := by
      rw [hcall]
      exact Option.some_ne_none call
    refine ⟨callee, env, hfound, fun hnone => absurd hnone hsome, ?_⟩
    rw [if_neg hsome]
    exact ⟨hprepared, prepareEnv_withoutCalls hprepared⟩

end Blocks

def bundleAuthor : AuthorHost where
  ids := { blake3 := fun _ => .replicate 32 0, canonical := fun _ => [] }
  useOf _ := none
  execClass := .bwrap
  serveModel := none
  serveModelIds := []
  registry := none
  validateArgs _ _ := .ok ()
  httpArgsScopes _ := .error ""
  jsonU32 _ := none
  delayMs _ := none
  predicateOk _ := false
  bundles := some fun _ handle =>
    .ok (if handle = "notes" then some [⟨"note", .replicate 32 7⟩] else none)
  encodeContextItems _ := []

end Kortecx.App
