import Kortecx.App.Layout
import Kortecx.App.Authority

/-!
Composed Apps stay apart. In a composition every App keeps its block, and the edges of its
blueprint lie inside, exactly if none of the Apps that are composed has an edge that points past
its own steps. Such an edge is not refused where it is written: after the join it may point
at a step of another App.
-/

namespace Kortecx.App

open Lib Gateway Warrant Policy Relation

variable {host : AppHost} {args : List UInt8} {requireApproval : Bool}

section Shape

variable {party : String} {env : AppEnvelope} {handle : String} {prepared : Prepared}

theorem prepareApp_ok (h : prepareApp host party handle args requireApproval = .ok prepared) :
    ∃ env, host.apps party handle = .ok (some (.ok env)) ∧
      prepareEnv host party env handle args requireApproval = .ok prepared := by
  unfold prepareApp at h
  split at h
  · cases h
  · cases h
  · cases h
  rename_i env hfound
  exact ⟨env, hfound, h⟩

theorem composeApp_ok (h : composeApp host party handle args requireApproval = .ok p) :
    ∃ root, prepareApp host party handle args requireApproval = .ok root ∧
      resolveComposes (fun callee => prepareApp host party callee [] requireApproval)
        MAX_APP_COMPOSE_DEPTH root [handle] = .ok p := by
  unfold composeApp at h
  split at h
  · cases h
  rename_i root hroot
  exact ⟨root, hroot, h⟩

end Shape

/-- The App was made ready from a stored envelope: it has the steps and the edges of the
blueprint, and calls each App the envelope declares from the model steps that name it. -/
def FromCatalog (host : AppHost) (party : String) (own : Prepared) : Prop :=
  ∃ handle env blueprint, host.apps party handle = .ok (some (.ok env)) ∧
    env.blueprint = some (.ok blueprint) ∧
    own.dag.steps.length = blueprint.steps.length ∧ own.dag.edges = blueprint.edges ∧
    own.composes = env.apps.map fun callee =>
      (callee, modelStepsNaming (blueprint.steps.map (·.apps)) callee own.dag)

/-- No blueprint of the party's catalog has an edge that points past its own steps. -/
def CatalogInRange (host : AppHost) (party : String) : Prop :=
  ∀ handle env blueprint, host.apps party handle = .ok (some (.ok env)) →
    env.blueprint = some (.ok blueprint) → blueprint.EdgesInRange

section Catalog

variable {party handle : String} {own : Prepared}

theorem fromCatalog_of_prepareApp
    (h : prepareApp host party handle args requireApproval = .ok own) :
    FromCatalog host party own := by
  obtain ⟨env, hfound, hprepared⟩ := prepareApp_ok h
  obtain ⟨stages⟩ := stages_of_prepareEnv hprepared
  refine ⟨handle, env, stages.blueprint, hfound, blueprintOf_ok stages.blueprint_eq,
    stages.adds.length, stages.adds.edges, ?_⟩
  have hcomposes := congrArg Prepared.composes stages.prepared_eq
  have hdag := congrArg Prepared.dag stages.prepared_eq
  rw [hcomposes, hdag]
  rfl

theorem lt_of_mem_modelStepsNaming
    (h : i ∈ modelStepsNaming perStep name dag) : i < dag.steps.length := by
  have hsome := (List.mem_filter.1 h).2
  by_contra hge
  rw [List.getElem?_eq_none (by omega)] at hsome
  cases hsome

/-- An App that was made ready calls from its own steps. -/
theorem FromCatalog.wellBuilt (h : FromCatalog host party own) (hrange : own.dag.EdgesInRange) :
    WellBuilt own := by
  obtain ⟨handle, env, blueprint, _, _, _, _, hcomposes⟩ := h
  refine ⟨hrange, ?_⟩
  intro call hcall t ht
  rw [hcomposes] at hcall
  obtain ⟨callee, _, rfl⟩ := List.mem_map.1 hcall
  exact lt_of_mem_modelStepsNaming ht

theorem FromCatalog.inRange (h : FromCatalog host party own) (hrange : CatalogInRange host party) :
    own.dag.EdgesInRange := by
  obtain ⟨handle, env, blueprint, hfound, hblueprint, hlength, hedges, _⟩ := h
  have hblueprintRange := hrange handle env blueprint hfound hblueprint
  unfold DagSpec.EdgesInRange
  rw [hedges, hlength]
  exact hblueprintRange

/-- Every block of a composition is an App of the catalog. -/
theorem InBlocks.fromCatalog
    (h : InBlocks (fun callee => prepareApp host party callee [] requireApproval) root calls p
      blocks) (hroot : prepareApp host party handle args requireApproval = .ok root)
    (hb : b ∈ blocks) : FromCatalog host party b.own := by
  cases hcall : b.call with
  | none =>
    rw [h.eq_root hb hcall]
    exact fromCatalog_of_prepareApp hroot
  | some call =>
    obtain ⟨_, _, _, _, _, callee, _, hprepare⟩ := h.called b hb call.1 call.2 hcall
    exact fromCatalog_of_prepareApp hprepare

end Catalog

/-- A model step of the one App names the other. -/
def Calls (host : AppHost) (party : String) (requireApproval : Bool) (caller callee : Prepared) :
    Prop :=
  ∃ call ∈ caller.composes, call.2 ≠ [] ∧
    prepareApp host party call.1 [] requireApproval = .ok callee

/-- The edges of an App, and of every App it composes at any depth, stay among its own
steps. -/
def ComposedInRange (host : AppHost) (party : String) (requireApproval : Bool) (root : Prepared) :
    Prop :=
  ∀ own, ReflTransGen (Calls host party requireApproval) root own → own.dag.EdgesInRange

section Composed

variable {party handle : String} {root p : Prepared} {blocks : List Block}

theorem CatalogInRange.composed (h : CatalogInRange host party)
    (hroot : prepareApp host party handle args requireApproval = .ok root) :
    ComposedInRange host party requireApproval root := by
  intro own hown
  rcases ReflTransGen.cases_tail hown with rfl | ⟨_, _, _, _, _, hprepare⟩
  · exact (fromCatalog_of_prepareApp hroot).inRange h
  · exact (fromCatalog_of_prepareApp hprepare).inRange h

theorem laidOut_of_composedInRange
    (hroot : prepareApp host party handle args requireApproval = .ok root)
    (hrange : ComposedInRange host party requireApproval root) (h : resolveComposes
      (fun callee => prepareApp host party callee [] requireApproval) levels root chain = .ok p) :
    ∃ blocks, LaidOut (fun callee => prepareApp host party callee [] requireApproval) root
      root.composes p blocks := by
  let Good (own : Prepared) : Prop :=
    FromCatalog host party own ∧ ReflTransGen (Calls host party requireApproval) root own
  have hrule : JoinRule (fun callee => prepareApp host party callee [] requireApproval) Good
      (LaidOut fun callee => prepareApp host party callee [] requireApproval) :=
    joinRule_laidOut.mono fun own hown => hown.1.wellBuilt (hrange own hown.2)
  refine hrule.of_resolveComposes ?_ ⟨fromCatalog_of_prepareApp hroot, .refl⟩ h
  intro own hown call hcall hne callee hprepare
  exact ⟨fromCatalog_of_prepareApp hprepare, hown.2.tail ⟨call, hcall, hne, hprepare⟩⟩

/-- Every App that is composed has a block. -/
theorem InBlocks.exists_block
    (h : InBlocks (fun callee => prepareApp host party callee [] requireApproval) root
      root.composes p blocks) (hown : ReflTransGen (Calls host party requireApproval) root own) :
    ∃ b ∈ blocks, b.own = own := by
  induction hown with
  | refl => exact ⟨_, h.root_mem, rfl⟩
  | tail _ hcalls ih =>
    obtain ⟨a, ha, rfl⟩ := ih
    obtain ⟨call, hcall, hne, hprepare⟩ := hcalls
    rw [← h.calls_eq ha] at hcall
    obtain ⟨b, hb, _, hprepare'⟩ := h.answered a ha call hcall hne
    exact ⟨b, hb, Except.ok.inj (hprepare'.symm.trans hprepare)⟩

/-- An end that lies in its block after it was moved there was one of the App's own steps. -/
theorem lt_of_moved {x : UInt32} {offset n : Nat}
    (hge : offset ≤ (x + UInt32.ofNat offset).toNat)
    (hlt : (x + UInt32.ofNat offset).toNat < offset + n) : x.toNat < n := by
  have hx := x.toNat_lt
  rw [UInt32.toNat_add, UInt32.toNat_ofNat'] at hge hlt
  omega

theorem LaidOut.composedInRange
    (h : LaidOut (fun callee => prepareApp host party callee [] requireApproval) root
      root.composes p blocks) : ComposedInRange host party requireApproval root := by
  intro own hown e he
  obtain ⟨b, hb, rfl⟩ := h.toInBlocks.exists_block hown
  obtain ⟨hparent, hchild⟩ := h.inside b hb _ (List.mem_map_of_mem he)
  exact ⟨lt_of_moved hparent.1 hparent.2, lt_of_moved hchild.1 hchild.2⟩

end Composed

/-- A composition is laid out in one block for each App that was joined in exactly if the Apps
that are composed keep their edges among their own steps. -/
theorem composed_laidOut (host : AppHost) (party handle : String) (args : List UInt8)
    (requireApproval : Bool) {p : Prepared}
    (h : composeApp host party handle args requireApproval = .ok p) :
    ∃ root, prepareApp host party handle args requireApproval = .ok root ∧
      ((∃ blocks, LaidOut (fun callee => prepareApp host party callee [] requireApproval) root
          root.composes p blocks ∧ ∀ b ∈ blocks, FromCatalog host party b.own) ↔
        ComposedInRange host party requireApproval root) := by
  obtain ⟨root, hroot, hresolve⟩ := composeApp_ok h
  refine ⟨root, hroot, ?_, ?_⟩
  · rintro ⟨blocks, hblocks, _⟩
    exact hblocks.composedInRange
  · intro hrange
    obtain ⟨blocks, hblocks⟩ := laidOut_of_composedInRange hroot hrange hresolve
    exact ⟨blocks, hblocks, fun b hb => hblocks.toInBlocks.fromCatalog hroot hb⟩

def callingStep (prompt : String) (apps : List String) : StepSpec :=
  { kind := some .model, prompt, apps }

/-- A plain step and one that calls `b`, with an edge from the first to the numbered step. -/
def callerOfB (child : UInt32) : AppEnvelope where
  blueprint := some (.ok
    { steps := [{ kind := some .pure }, callingStep "Ask b." ["b"]]
      edges := [{ parent := 0, child }] })
  apps := ["b"]

def calleeB : AppEnvelope where
  blueprint := some (.ok { steps := [callingStep "Answer." []] })

/-- A host whose catalog has two Apps, of which `a` calls `b`. -/
def twoAppHost (a b : AppEnvelope) : AppHost where
  tools := openHost
  policy := none
  apps _ handle :=
    .ok (if handle = "a" then some (.ok a) else if handle = "b" then some (.ok b) else none)
  projectRail _ _ _ := .ok []
  decodeHex32 _ := some (.replicate 32 1)
  containsRef _ := true
  connections := .ok []
  serveModelIds := []
  parseArgs _ := .ok []
  datasets := none

theorem mem_of_twoAppHost {a b env : AppEnvelope}
    (h : (twoAppHost a b).apps party handle = .ok (some (.ok env))) : env ∈ [a, b] := by
  have h : (if handle = "a" then some (.ok a) else if handle = "b" then some (.ok b)
      else none) = some (Except.ok (ε := String) env) := Except.ok.inj h
  split_ifs at h <;> cases h <;> simp

theorem catalogInRange_twoAppHost {a b : AppEnvelope}
    (ha : a.blueprint = some (.ok dagA)) (hb : b.blueprint = some (.ok dagB))
    (hrangeA : dagA.EdgesInRange) (hrangeB : dagB.EdgesInRange) :
    CatalogInRange (twoAppHost a b) party := by
  intro handle env blueprint hfound hblueprint
  rcases List.mem_pair.1 (mem_of_twoAppHost hfound) with rfl | rfl
  · cases ha.symm.trans hblueprint
    exact hrangeA
  · cases hb.symm.trans hblueprint
    exact hrangeB

theorem composed_laidOut_twoApps : ∃ p,
    composeApp (twoAppHost (callerOfB 1) calleeB) "ann" "a" [] false = .ok p ∧
    ∃ root blocks, LaidOut
      (fun callee => prepareApp (twoAppHost (callerOfB 1) calleeB) "ann" callee [] false)
      root root.composes p blocks := by
  have hrange : CatalogInRange (twoAppHost (callerOfB 1) calleeB) "ann" :=
    catalogInRange_twoAppHost rfl rfl (by decide) (by decide)
  obtain ⟨p, hcomposed⟩ := isSome_toOption.1 (by decide +kernel :
    (composeApp (twoAppHost (callerOfB 1) calleeB) "ann" "a" [] false).toOption.isSome)
  obtain ⟨root, hroot, hlaidOut⟩ := composed_laidOut
    (twoAppHost (callerOfB 1) calleeB) "ann" "a" [] false hcomposed
  obtain ⟨blocks, hblocks, _⟩ := hlaidOut.2 (hrange.composed hroot)
  exact ⟨p, hcomposed, root, blocks, hblocks⟩

/-- The blueprint of `a` has two steps and an edge from its first step to a third. In the
composition the third step is that of `b`, and the edge attaches to it. -/
theorem edge_attaches_to_callee :
    (composeApp (twoAppHost (callerOfB 2) calleeB) "ann" "a" [] false).toOption.map (·.dag) =
      some {
        steps := [{ kind := some .pure }, callingStep "Ask b." [], callingStep "Answer." []]
        edges := [{ parent := 0, child := 2 }, { parent := 2, child := 1 }] } := by
  decide +kernel

end Kortecx.App
