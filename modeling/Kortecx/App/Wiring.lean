import Kortecx.App.Credentials

/-!
What a composed run computes. Its result is that of the App that was run: the last Mote belongs to
a step of the root that nothing reads. And a step that names an App reads all sinks of a copy of
it if it is a model step, and is not given a copy otherwise.
-/

namespace Kortecx.App

open Lib Kortecx.Gateway Warrant Policy List Relation

/-- The id under which the result of a run is looked up: that of its last Mote. -/
def terminalMoteId (bound : BoundRecipe) : Option Mote.MoteId :=
  bound.motes.getLast?.map (·.1.id)

/-- A copy of an App in the graph of a run: the App with all it calls, its steps from a position
on. -/
structure CopyAt (host : AppHost) (party : String) (requireApproval : Bool) (p : Prepared)
    (callee : String) (copy : Prepared) (offset : Nat) : Prop where
  composed : ∃ own levels chain, prepareApp host party callee [] requireApproval = .ok own ∧
    resolveComposes (fun callee => prepareApp host party callee [] requireApproval) levels own
      chain = .ok copy
  steps : ∀ k < copy.dag.steps.length, p.dag.steps[offset + k]? = copy.dag.steps[k]?

section Join

variable {me p : Prepared} {handle : String} {targets : List Nat}

/-- What a join adds to, it keeps. -/
def Grows (me p : Prepared) : Prop :=
  me.dag.steps <+: p.dag.steps ∧ me.dag.edges ⊆ p.dag.edges

theorem Grows.refl (p : Prepared) : Grows p p :=
  ⟨prefix_rfl, Subset.refl _⟩

theorem Grows.trans (h : Grows me p) (h' : Grows p q) : Grows me q :=
  ⟨h.1.trans h'.1, fun _ he => h'.2 (h.2 he)⟩

theorem Grows.getElem? (h : Grows me p) (hi : i < me.dag.steps.length) :
    p.dag.steps[i]? = me.dag.steps[i]? := by
  obtain ⟨rest, hrest⟩ := h.1
  rw [← hrest, List.getElem?_append_left hi]

theorem joinCallee_grows (h : joinCallee me handle targets callee = .ok p) :
    Grows me p ∧ (∀ k < callee.dag.steps.length,
      p.dag.steps[me.dag.steps.length + k]? = callee.dag.steps[k]?) ∧
    ∀ t ∈ targets, ∀ sink ∈ callee.dag.sinks,
      { parent := u32OrMax (me.dag.steps.length + sink), child := u32OrMax t } ∈ p.dag.edges := by
  obtain ⟨_, _, rfl⟩ := joinCallee_ok h
  simp only [Grows, spliceCallee, pin_dag]
  refine ⟨⟨prefix_append _ _, fun e he => ?_⟩, fun k _ => ?_, fun t ht sink hsink => ?_⟩
  · exact mem_append_left _ (mem_append_left _ he)
  · rw [List.getElem?_append_right (by omega), Nat.add_sub_cancel_left]
  · exact mem_append_right _ (mem_flatMap.2 ⟨t, ht, mem_map_of_mem hsink⟩)

theorem grows_of_foldlM {f : Prepared → String × List Nat → Except AppRunError Prepared}
    (hf : ∀ me call p, f me call = .ok p → Grows me p) {calls : List (String × List Nat)}
    (h : calls.foldlM f me = .ok p) : Grows me p := by
  induction calls generalizing me with
  | nil =>
    cases h
    exact .refl p
  | cons call calls ih =>
    rw [foldlM_cons] at h
    obtain ⟨next, hnext, h⟩ := except_bind_eq_ok.1 h
    exact (hf me call next hnext).trans (ih h)

variable {prepare : String → Except AppRunError Prepared} {root : Prepared}

/-- Each call with a step that makes it is joined: a copy of the callee lies in the graph, and
its sinks lead to the steps that call. -/
theorem exists_copy (h : resolveComposes prepare levels root chain = .ok p)
    (hcall : call ∈ root.composes) (hne : call.2 ≠ []) : Grows root p ∧
      ∃ own copy offset levels chain, prepare call.1 = .ok own ∧
        resolveComposes prepare levels own chain = .ok copy ∧
        (∀ k < copy.dag.steps.length, p.dag.steps[offset + k]? = copy.dag.steps[k]?) ∧
        offset + copy.dag.steps.length ≤ p.dag.steps.length ∧
        ∀ t ∈ call.2, ∀ sink ∈ copy.dag.sinks,
          { parent := u32OrMax (offset + sink), child := u32OrMax t } ∈ p.dag.edges := by
  rcases resolveComposes_ok h with ⟨hnone, _⟩ | ⟨below, f, rfl, hfold, hf⟩
  · exact absurd (by simpa using all_eq_true.1 hnone call hcall) hne
  have hgrows : ∀ me call p, f me call = .ok p → Grows me p := by
    intro me call p hstep
    rcases hf me call p hstep with ⟨_, rfl⟩ | ⟨_, _, _, _, _, hjoin⟩
    · exact .refl p
    · exact (joinCallee_grows hjoin).1
  have hpinned : Grows root { pinRunWideItemsToRoots root with composes := [] } := by
    simp only [Grows, pin_dag]
    exact ⟨prefix_rfl, Subset.refl _⟩
  refine ⟨hpinned.trans (grows_of_foldlM hgrows hfold), ?_⟩
  obtain ⟨before, after, hsplit⟩ := append_of_mem hcall
  rw [hsplit, foldlM_append] at hfold
  obtain ⟨me, _, hfold⟩ := except_bind_eq_ok.1 hfold
  rw [foldlM_cons] at hfold
  obtain ⟨next, hnext, hfold⟩ := except_bind_eq_ok.1 hfold
  rcases hf me call next hnext with ⟨hnone, _⟩ | ⟨_, own, copy, hown, hcopy, hjoin⟩
  · exact absurd hnone hne
  obtain ⟨_, hsteps, hlinks⟩ := joinCallee_grows hjoin
  have hlength : next.dag.steps.length = me.dag.steps.length + copy.dag.steps.length := by
    obtain ⟨_, _, rfl⟩ := joinCallee_ok hjoin
    simp [spliceCallee]
  have hlater := grows_of_foldlM hgrows hfold
  refine ⟨own, copy, me.dag.steps.length, below, _, hown, hcopy, ?_, ?_, ?_⟩
  · intro k hk
    rw [hlater.getElem? (by omega), hsteps k hk]
  · have := hlater.1.length_le
    omega
  · intro t ht sink hsink
    exact hlater.2 (hlinks t ht sink hsink)

end Join

section Run

variable {host : AppHost} {workflows : WorkflowCatalog} {author : AuthorHost}
  {party handle : String} {args : List UInt8} {requireApproval : Bool} {root p : Prepared}
  {bound : BoundRecipe} {i : Nat}

theorem mem_of_checkCalls (h : checkCalls env calls = .ok ()) (hi : calls[i]? = some named)
    (hname : name ∈ named) : ∃ callee ∈ env.apps, eqIgnoreAsciiCase callee name = true := by
  unfold checkCalls at h
  split at h
  case h_2 => cases h
  rename_i hnone
  have hlt := (List.getElem?_eq_some_iff.1 hi).1
  have hat := findSome?_eq_none_iff.1 hnone i (mem_range.2 hlt)
  rw [Option.map_eq_none_iff, hi, Option.getD_some, find?_eq_none] at hat
  simpa using hat name hname

/-- An App that a step names is declared, and called from that step exactly if the step is a
model step when the App is ready. -/
theorem exists_call_of_named (hstored : host.apps party handle = .ok (some (.ok env)))
    (hblueprint : env.blueprint = some (.ok blueprint))
    (hroot : prepareApp host party handle args requireApproval = .ok root)
    (hstep : blueprint.steps[i]? = some s) (hname : name ∈ s.apps) :
    ((∃ call ∈ root.composes, eqIgnoreAsciiCase call.1 name = true ∧ i ∈ call.2) ↔
      (root.dag.steps[i]?).any isModelStep = true) ∧
    (isModelStep s = true → (root.dag.steps[i]?).any isModelStep = true) := by
  obtain ⟨env', hfound, hprepared⟩ := prepareApp_ok hroot
  rw [hstored] at hfound
  cases hfound
  obtain ⟨stages, hcalls⟩ := stages_of_prepareEnv hprepared
  have hsame := blueprintOf_ok stages.blueprint_eq
  rw [hblueprint] at hsame
  cases hsame
  have hnamed : (AppBindings.takeFrom stages.blueprint).1.apps[i]? = some s.apps := by
    simp [AppBindings.takeFrom, hstep]
  obtain ⟨callee, hdeclared, hcallee⟩ := mem_of_checkCalls hcalls hnamed hname
  have hcomposes := congrArg Prepared.composes stages.prepared_eq
  have hdag := congrArg Prepared.dag stages.prepared_eq
  refine ⟨⟨?_, ?_⟩, fun hmodel => stages.adds.model i (by rw [hstep]; exact hmodel)⟩
  · rintro ⟨call, hcall, _, hi⟩
    rw [hcomposes] at hcall
    obtain ⟨_, _, rfl⟩ := mem_map.1 hcall
    rw [hdag]
    exact (mem_filter.1 hi).2
  intro hmodel
  refine ⟨(callee, modelStepsNaming (AppBindings.takeFrom stages.blueprint).1.apps callee
    (stampApproval stages.tooled requireApproval)), ?_, hcallee, ?_⟩
  · rw [hcomposes]
    exact mem_map_of_mem hdeclared
  have hlt := (List.getElem?_eq_some_iff.1 hnamed).1
  refine mem_filter.2 ⟨mem_filter.2 ⟨mem_range.2 hlt, ?_⟩, ?_⟩
  · rw [hnamed, Option.getD_some, any_eq_true]
    rw [eqIgnoreAsciiCase, beq_iff_eq] at hcallee
    exact ⟨name, hname, beq_iff_eq.2 hcallee.symm⟩
  · rw [hdag] at hmodel
    exact hmodel

variable (hroot : prepareApp host party handle args requireApproval = .ok root)
  (h : authorRun host workflows author party (.app handle) args requireApproval = .ok bound)

include hroot h

/-- The stages of an authored run of an App. -/
theorem authored_of_authorRun :
    ∃ p, ∃ _ : Authoring author party p bound,
      composeApp host party handle args requireApproval = .ok p ∧
      resolveComposes (fun callee => prepareApp host party callee [] requireApproval)
        MAX_APP_COMPOSE_DEPTH root [handle] = .ok p := by
  obtain ⟨p, hcomposed, hauthored⟩ := except_bind_eq_ok.1 h
  rw [composeRun_app] at hcomposed
  obtain ⟨root', hroot', hresolve⟩ := composeApp_ok hcomposed
  obtain rfl := Except.ok.inj (hroot.symm.trans hroot')
  obtain ⟨run⟩ := authoring_of_authorPrepared hauthored
  exact ⟨p, run, hcomposed, hresolve⟩

/-- The result of a composed run is that of a step of the root App that has no outgoing
edge. -/
theorem terminal_of_root (hrange : ComposedInRange host party requireApproval root) :
    ∃ p i mote w, ∃ run : Authoring author party p bound,
      composeApp host party handle args requireApproval = .ok p ∧
      terminalMoteId bound = some mote.id ∧ bound.motes.getLast? = some (mote, w) ∧
      Nonempty (FromStep run i mote w) ∧ i < root.dag.steps.length ∧
      p.dag.steps[i]? = root.dag.steps[i]? ∧ ∀ e ∈ p.dag.edges, e.parent.toNat ≠ i := by
  obtain ⟨p, run, hcomposed, hresolve⟩ := authored_of_authorRun hroot h
  obtain ⟨blocks, hblocks⟩ := laidOut_of_composedInRange hroot hrange hresolve
  obtain ⟨i, mote, w, hlast, hmote, hbinds⟩ := run.exists_last
  obtain ⟨source⟩ := hbinds.source
  have hi : i < p.dag.steps.length :=
    mem_range.1 (run.topological.1.mem_iff.1 (mem_of_getLast? hlast))
  have hnone : ∀ e ∈ p.dag.edges, e.parent.toNat ≠ i := by
    intro e he hparent
    refine run.topological.notMem_of_last nodup_range hlast
      (mem_range.2 (hblocks.inRange e he).2) ?_
    rw [← hparent]
    exact mem_map_of_mem he
  have hsink : i ∈ root.dag.sinks := hblocks.sinks ▸ DagSpec.mem_sinks.2 ⟨hi, hnone⟩
  have hown : i < root.dag.steps.length := (DagSpec.mem_sinks.1 hsink).1
  refine ⟨p, i, mote, w, run, hcomposed, by simp [terminalMoteId, hmote], hmote, ⟨source⟩,
    hown, ?_, hnone⟩
  obtain ⟨callees, hfirst, _⟩ := hblocks.first
  rw [hblocks.steps, hfirst, stepsOf, flatMap_cons, List.getElem?_append_left hown]

/-- A step that names an App calls a copy of it, and reads what all sinks of the copy produce,
exactly if it is a model step when its own App is ready. A model step of the blueprint is. -/
theorem named_app_read (hstored : host.apps party handle = .ok (some (.ok env)))
    (hblueprint : env.blueprint = some (.ok blueprint)) (hstep : blueprint.steps[i]? = some s)
    (hname : name ∈ s.apps) :
    ∃ p, ∃ run : Authoring author party p bound,
      composeApp host party handle args requireApproval = .ok p ∧
      ((∃ call ∈ root.composes, eqIgnoreAsciiCase call.1 name = true ∧ i ∈ call.2 ∧
          ∃ copy offset mote w, CopyAt host party requireApproval p call.1 copy offset ∧
            run.Binds i mote w ∧ ∀ sink ∈ copy.dag.sinks, ∃ result w',
              run.Binds (offset + sink) result w' ∧
              ⟨result.id, ⟨.data, false⟩⟩ ∈ mote.parents) ↔
        (root.dag.steps[i]?).any isModelStep = true) ∧
      (isModelStep s = true → (root.dag.steps[i]?).any isModelStep = true) := by
  obtain ⟨p, run, hcomposed, hresolve⟩ := authored_of_authorRun hroot h
  obtain ⟨hcalled, hkept⟩ := exists_call_of_named hstored hblueprint hroot hstep hname
  refine ⟨p, run, hcomposed, ⟨?_, ?_⟩, hkept⟩
  · rintro ⟨call, hcall, hcallee, hi, _⟩
    exact hcalled.1 ⟨call, hcall, hcallee, hi⟩
  intro hmodel
  obtain ⟨call, hcall, hcallee, hi⟩ := hcalled.2 hmodel
  obtain ⟨hgrows, own, copy, offset, levels, chain, hown, hcopy, hsteps, hend, hlinks⟩ :=
    exists_copy hresolve hcall (ne_nil_of_mem hi)
  have hfew : p.dag.steps.length < 2 ^ 32 := lt_of_le_of_lt run.length_le (by decide)
  have hlt : i < p.dag.steps.length := by
    refine lt_of_lt_of_le ?_ hgrows.1.length_le
    by_contra hge
    rw [List.getElem?_eq_none (by omega)] at hmodel
    cases hmodel
  obtain ⟨mote, w, hbinds⟩ := run.exists_binds hlt
  refine ⟨call, hcall, hcallee, hi, copy, offset, mote, w, ⟨⟨own, levels, chain, hown, hcopy⟩,
    hsteps⟩, hbinds, ?_⟩
  intro sink hsink
  have hsinkLt := (DagSpec.mem_sinks.1 hsink).1
  have hparent : (u32OrMax (offset + sink)).toNat = offset + sink := by
    rw [u32OrMax_eq (by omega), toNat_ofNat_of_lt (by omega)]
  have hchild : (u32OrMax i).toNat = i := by
    rw [u32OrMax_eq (by omega), toNat_ofNat_of_lt (by omega)]
  obtain ⟨result, w', hresult, hread⟩ := Authoring.Binds.parent (hlinks i hi sink hsink)
    (by rw [hchild]; exact hbinds)
  rw [hparent] at hresult
  exact ⟨result, w', hresult, hread⟩

end Run

/-- One step of the given kind, which names `b`. -/
def namingB (kind : StepKind) : AppEnvelope where
  blueprint := some (.ok { steps := [{ kind := some kind, apps := ["b"] }] })
  apps := ["b"]

def plainB : AppEnvelope where
  blueprint := some (.ok { steps := [{ kind := some .pure }] })

/-- An author whose parties may use what a plain step needs. -/
def plainAuthor : AuthorHost :=
  { toolAuthor with useOf := fun _ => some (servedBlueprintBase .bwrap (some "m")) }

/-- The run of a step of the given kind which names `b`. -/
def runNamingB (kind : StepKind) : Except AppRunError BoundRecipe :=
  authorRun (twoAppHost (namingB kind) plainB) (fun _ _ => .ok none) plainAuthor "ann" (.app "a") []
    false

/-- How many parents the Motes of the run have. -/
def parentsNamingB (kind : StepKind) : Option (List Nat) :=
  (runNamingB kind).toOption.map fun bound => bound.motes.map fun mote => mote.1.parents.length

/-- The run of a model step that names `b` is authored, and the Apps are in range. -/
theorem authored_namingB : ∃ root bound,
    prepareApp (twoAppHost (namingB .model) plainB) "ann" "a" [] false = .ok root ∧
    ComposedInRange (twoAppHost (namingB .model) plainB) "ann" false root ∧
    runNamingB .model = .ok bound := by
  have hrange : CatalogInRange (twoAppHost (namingB .model) plainB) "ann" :=
    catalogInRange_twoAppHost rfl rfl (by decide) (by decide)
  have hparents : parentsNamingB .model = some [0, 1] := by decide +kernel
  obtain ⟨bound, hbound, _⟩ := Option.map_eq_some_iff.1 hparents
  have hbound := toOption_eq_some.1 hbound
  obtain ⟨p, hcomposed, _⟩ := except_bind_eq_ok.1 hbound
  rw [composeRun_app] at hcomposed
  obtain ⟨root, hroot, _⟩ := composeApp_ok hcomposed
  exact ⟨root, bound, hroot, hrange.composed hroot, hbound⟩

theorem terminal_of_root_namingB : ∃ root bound mote, ∃ i < root.dag.steps.length,
    prepareApp (twoAppHost (namingB .model) plainB) "ann" "a" [] false = .ok root ∧
    runNamingB .model = .ok bound ∧ terminalMoteId bound = some mote := by
  obtain ⟨root, bound, hroot, hrange, hbound⟩ := authored_namingB
  obtain ⟨_, i, mote, _, _, _, hterminal, _, _, hi, _⟩ := terminal_of_root hroot hbound hrange
  exact ⟨root, bound, mote.id, i, hi, hroot, hbound, hterminal⟩

theorem named_app_read_namingB : ∃ root bound p,
    prepareApp (twoAppHost (namingB .model) plainB) "ann" "a" [] false = .ok root ∧
    runNamingB .model = .ok bound ∧ ∃ run : Authoring plainAuthor "ann" p bound,
      ∃ call ∈ root.composes, ∃ copy offset mote w,
        CopyAt (twoAppHost (namingB .model) plainB) "ann" false p call.1 copy offset ∧
        run.Binds 0 mote w ∧ ∀ sink ∈ copy.dag.sinks, ∃ result w',
          run.Binds (offset + sink) result w' ∧ ⟨result.id, ⟨.data, false⟩⟩ ∈ mote.parents := by
  obtain ⟨root, bound, hroot, _, hbound⟩ := authored_namingB
  obtain ⟨p, run, _, hread, hmodel⟩ :=
    named_app_read hroot hbound rfl rfl (i := 0) rfl mem_cons_self
  obtain ⟨call, hcall, _, _, hcopy⟩ := hread.2 (hmodel rfl)
  exact ⟨root, bound, p, hroot, hbound, run, call, hcall, hcopy⟩

/-- A plain step names `b`, which is declared. The run is authored, and nothing of `b` is in
it. -/
theorem named_app_dropped : parentsNamingB .pure = some [0] := by
  decide +kernel

end Kortecx.App
