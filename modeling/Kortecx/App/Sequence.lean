import Kortecx.App.Run
import Kortecx.App.Sealed
import Kortecx.Lib.Worklist

/-!
The sequencing of a workflow searches a graph whose edges nobody has checked, and a search that
comes to an edge past the last step is an index out of bounds. Otherwise it finds its target if
a path leads there, and the model steps of each route are put in an order.
-/

namespace Kortecx.App

open Lib Gateway List Relation Worklist

section Search

variable (n : Nat) (edges : List EdgeSpec)

/-- The steps that the edges lead to from a node, in their order. -/
def childSteps (node : Nat) : List Nat :=
  (edges.filter fun e => e.parent.toNat = node ∧ e.child.toNat < n).map (·.child.toNat)

/-- An edge leads from the node past the last step. -/
def LeadsOut (node : Nat) : Prop :=
  ∃ e ∈ edges, e.parent.toNat = node ∧ n ≤ e.child.toNat

/-- The search, from what is queued and found, comes to a node that leads out, and has not come to
its target by then. -/
inductive StraysFrom (target : Nat) : List Nat × List Nat → Prop
  | here (hne : node ≠ target) (hout : LeadsOut n edges node) :
      StraysFrom target (node :: queue, found)
  | later (hne : node ≠ target)
      (hrest : StraysFrom target (turn (childSteps n edges) (node :: queue, found))) :
      StraysFrom target (node :: queue, found)

variable {n edges} {node target : Nat} {queue seen found : List Nat}

theorem enqueueChildren_cons (e : EdgeSpec) :
    enqueueChildren n (e :: edges) node queue seen =
      if e.parent.toNat ≠ node then enqueueChildren n edges node queue seen
      else if n ≤ e.child.toNat then none
      else if e.child.toNat ∈ seen then enqueueChildren n edges node queue seen
      else enqueueChildren n edges node (queue ++ [e.child.toNat]) (e.child.toNat :: seen) := by
  unfold enqueueChildren
  rw [foldlM_cons]
  split_ifs <;> rfl

theorem enqueueChildren_of_leadsOut (hout : LeadsOut n edges node) :
    enqueueChildren n edges node queue seen = none := by
  induction edges generalizing queue seen with
  | nil =>
    obtain ⟨e, he, _⟩ := hout
    cases he
  | cons e edges ih =>
    obtain ⟨e', he, hparent, hchild⟩ := hout
    rw [enqueueChildren_cons]
    rcases mem_cons.1 he with rfl | he
    · simp [hparent, hchild]
    have hrest : ∀ queue seen, enqueueChildren n edges node queue seen = none :=
      fun _ _ => ih ⟨e', he, hparent, hchild⟩
    simp [hrest]

/-- The children that were not found before are queued. -/
theorem exists_enqueueChildren (queue : List Nat) (hstays : ¬ LeadsOut n edges node)
    (hseen : ∀ i, i ∈ seen ↔ i ∈ found) :
    ∃ seen', enqueueChildren n edges node queue seen =
        some (queue ++ fresh found (childSteps n edges node), seen') ∧
      ∀ i, i ∈ seen' ↔ i ∈ found ++ fresh found (childSteps n edges node) := by
  induction edges generalizing queue seen found with
  | nil => exact ⟨seen, by simp [enqueueChildren, childSteps, fresh], by simpa [childSteps, fresh]⟩
  | cons e edges ih =>
    have hrest : ¬ LeadsOut n edges node := by
      rintro ⟨e', he, hout⟩
      exact hstays ⟨e', mem_cons_of_mem _ he, hout⟩
    rw [enqueueChildren_cons]
    by_cases hparent : e.parent.toNat = node
    · have hchild : e.child.toNat < n := by
        by_contra hout
        exact hstays ⟨e, by simp, hparent, not_lt.1 hout⟩
      have hsteps : childSteps n (e :: edges) node = e.child.toNat :: childSteps n edges node := by
        simp [childSteps, hparent, hchild]
      rw [if_neg (not_not.2 hparent), if_neg (not_le.2 hchild), hsteps, fresh]
      by_cases hfound : e.child.toNat ∈ found
      · rw [if_pos ((hseen _).2 hfound), if_pos hfound]
        exact ih queue hrest hseen
      · rw [if_neg (mt (hseen _).1 hfound), if_neg hfound]
        have hpushed : ∀ i, i ∈ e.child.toNat :: seen ↔ i ∈ found ++ [e.child.toNat] := by
          simp [hseen, or_comm]
        obtain ⟨seen', henqueue, hseen'⟩ := ih (queue ++ [e.child.toNat]) hrest hpushed
        exact ⟨seen', by simpa using henqueue, by simpa using hseen'⟩
    · have hsteps : childSteps n (e :: edges) node = childSteps n edges node := by
        simp [childSteps, hparent]
      rw [if_pos hparent, hsteps]
      exact ih queue hrest hseen

theorem mem_range_of_mem_childSteps : ∀ x, ∀ y ∈ childSteps n edges x, y ∈ range n := by
  intro x y hy
  obtain ⟨e, he, rfl⟩ := mem_map.1 hy
  have hin : e.parent.toNat = x ∧ e.child.toNat < n := by simpa using of_mem_filter he
  exact mem_range.2 hin.2

/-- The rounds are enough: a search that does not stray comes to its target if it is queued or can
be found. -/
theorem searchQueue_spec (hnodup : found.Nodup) (hwithin : found ⊆ range n)
    (hfuel : queue.length + ((range n).length - found.length) ≤ rounds)
    (hseen : ∀ i, i ∈ seen ↔ i ∈ found) (htarget : target ∈ found → target ∈ queue) :
    (StraysFrom n edges target (queue, found) ∧
        searchQueue n edges target rounds queue seen = none) ∨
      ¬ StraysFrom n edges target (queue, found) ∧
        ∃ there, searchQueue n edges target rounds queue seen = some there ∧
          (there = true ↔
            target ∈ queue ∨ target ∈ search (childSteps n edges) rounds queue found) := by
  induction rounds generalizing queue seen found with
  | zero =>
    obtain rfl : queue = [] := length_eq_zero_iff.1 (by omega)
    exact .inr ⟨nofun, false, rfl, by simpa [search] using htarget⟩
  | succ rounds ih =>
    cases queue with
    | nil => exact .inr ⟨nofun, false, rfl, by simpa [search] using htarget⟩
    | cons node queue =>
      rw [searchQueue]
      by_cases hnode : node = target
      · refine .inr ⟨?_, true, if_pos hnode, by simp [hnode]⟩
        rintro (⟨hne, _⟩ | ⟨hne, _⟩) <;> exact hne hnode
      rw [if_neg hnode]
      by_cases hout : LeadsOut n edges node
      · exact .inl ⟨.here hnode hout, by rw [enqueueChildren_of_leadsOut hout]⟩
      obtain ⟨seen', henqueue, hseen'⟩ := exists_enqueueChildren queue hout hseen
      obtain ⟨hwithin', hfuel'⟩ :=
        fuel_turn mem_range_of_mem_childSteps hnodup hwithin hfuel
      rw [henqueue]
      have hqueued : target ∈ found ++ fresh found (childSteps n edges node) →
          target ∈ queue ++ fresh found (childSteps n edges node) := by
        simp only [mem_append]
        rintro (hfound | hfresh)
        · exact .inl (mem_of_ne_of_mem (Ne.symm hnode) (htarget hfound))
        · exact .inr hfresh
      rcases ih (nodup_append_fresh hnodup) hwithin' hfuel' hseen' hqueued with
        ⟨hstrays, hnone⟩ | ⟨hstays, there, hthere, hiff⟩
      · exact .inl ⟨.later hnode hstrays, hnone⟩
      refine .inr ⟨?_, there, hthere, hiff.trans ?_⟩
      · rintro (⟨_, hleads⟩ | ⟨_, hrest⟩)
        · exact hout hleads
        · exact hstays hrest
      · -- What is queued only now was found just now.
        rw [search, mem_cons, mem_append, or_iff_right (Ne.symm hnode)]
        refine ⟨?_, fun h => h.imp_left .inl⟩
        rintro ((hqueue | hfresh) | hfound)
        · exact .inl hqueue
        · exact .inr (subset_search (mem_append_right _ hfresh))
        · exact .inr hfound

end Search

namespace DagSpec

variable (dag : DagSpec) (i j : Nat)

/-- The edges lead from one step to the other, by way of steps. -/
def Path : Prop :=
  ReflTransGen (fun a b => b ∈ childSteps dag.steps.length dag.edges a) i j

/-- The search for a path comes to an edge past the last step. -/
def StraysBetween : Prop :=
  StraysFrom dag.steps.length dag.edges j ([i], [])

theorem reachable_spec :
    (dag.StraysBetween i j ∧ dag.reachable i j = none) ∨
      ¬ dag.StraysBetween i j ∧ ∃ there, dag.reachable i j = some there ∧
        (there = true ↔ dag.Path i j) := by
  have hfuel : [i].length + ((range dag.steps.length).length - ([] : List Nat).length) ≤
      dag.steps.length + 2 := by
    simp
    omega
  refine (searchQueue_spec nodup_nil (nil_subset _) hfuel (fun _ => Iff.rfl) nofun).imp_right ?_
  rintro ⟨hstays, there, hthere, hiff⟩
  refine ⟨hstays, there, hthere, ?_⟩
  rw [hiff, mem_singleton, mem_search_root mem_range_of_mem_childSteps (by simp)]
  exact reflTransGen_iff_eq_or_transGen.symm

variable (pair : Nat × Nat)

open Classical in
/-- The pair is ordered by an edge, unless it is ordered already. -/
noncomputable def orderPair : DagSpec :=
  if dag.Path pair.1 pair.2 ∨ dag.Path pair.2 pair.1 then dag
  else
    { dag with
      edges := dag.edges ++
        [{ parent := u32OrMax pair.1, child := u32OrMax pair.2, edge := "control"
           nonCascade := true }] }

/-- The other way is searched if there is no path the one way. -/
def StraysAt : Prop :=
  dag.StraysBetween pair.1 pair.2 ∨
    ¬ dag.Path pair.1 pair.2 ∧ dag.StraysBetween pair.2 pair.1

theorem sequencePair_spec :
    (dag.StraysAt pair ∧ dag.sequencePair pair = none) ∨
      ¬ dag.StraysAt pair ∧ dag.sequencePair pair = some (dag.orderPair pair) := by
  unfold sequencePair StraysAt orderPair
  rcases dag.reachable_spec pair.1 pair.2 with ⟨hstrays, hnone⟩ | ⟨hstays, there, hthere, hpath⟩
  · rw [hnone]
    exact .inl ⟨.inl hstrays, rfl⟩
  rw [hthere]
  cases there with
  | true =>
    have hthere := hpath.1 rfl
    simp [hstays, hthere]
  | false =>
    have hthere : ¬ dag.Path pair.1 pair.2 := fun h => Bool.false_ne_true (hpath.2 h)
    rcases dag.reachable_spec pair.2 pair.1 with ⟨hstrays, hnone⟩ | ⟨hstays', back, hback, hpath'⟩
    · simp [hnone, hthere, hstrays]
    rw [hback]
    cases back with
    | true => simp [hstays, hstays', hpath'.1 rfl]
    | false =>
      have hback : ¬ dag.Path pair.2 pair.1 := fun h => Bool.false_ne_true (hpath'.2 h)
      simp [hstays, hstays', hthere, hback]

/-- Some search strays, in the graph with the orders of the pairs before. -/
def StraysAmong : DagSpec → List (Nat × Nat) → Prop
  | _, [] => False
  | dag, pair :: pairs => dag.StraysAt pair ∨ StraysAmong (dag.orderPair pair) pairs

theorem foldlM_sequencePair_spec (pairs : List (Nat × Nat)) :
    (dag.StraysAmong pairs ∧ pairs.foldlM sequencePair dag = none) ∨
      ¬ dag.StraysAmong pairs ∧
        pairs.foldlM sequencePair dag = some (pairs.foldl orderPair dag) := by
  induction pairs generalizing dag with
  | nil => exact .inr ⟨id, rfl⟩
  | cons pair pairs ih =>
    rw [foldlM_cons]
    rcases dag.sequencePair_spec pair with ⟨hstrays, hnone⟩ | ⟨hstays, hsome⟩
    · rw [hnone]
      exact .inl ⟨.inl hstrays, rfl⟩
    rw [hsome]
    refine (ih (dag.orderPair pair)).imp (fun h => ⟨.inr h.1, h.2⟩) fun h => ⟨?_, h.2⟩
    rintro (hstrays | hrest)
    · exact hstays hstrays
    · exact h.1 hrest

/-- The pairs of steps that follow each other on one model. -/
def modelPairs : List (Nat × Nat) :=
  dag.modelGroups.flatMap fun indices => indices.zip indices.tail

noncomputable def ordered : DagSpec :=
  dag.modelPairs.foldl orderPair dag

end DagSpec

/-- A stored workflow that is made ready is sequenced without an index out of bounds, and its run
goes on with its model steps in order, exactly if no search strays. The edges that are searched
are those of its blueprint. -/
theorem workflow_sequenced (host : AppHost) (workflows : WorkflowCatalog) (party handle : String)
    (args : List UInt8) (requireApproval : Bool) {env : AppEnvelope} {prepared : Prepared}
    (hstored : workflows party handle = .ok (some (.ok env)))
    (hprepared : prepareEnv host party env handle args requireApproval = .ok prepared) :
    (∃ blueprint, env.blueprint = some (.ok blueprint) ∧ prepared.dag.edges = blueprint.edges ∧
        prepared.dag.steps.length = blueprint.steps.length) ∧
      (prepareWorkflow host workflows party handle args requireApproval =
          .ok { prepared with dag := prepared.dag.ordered } ↔
        ¬ prepared.dag.StraysAmong prepared.dag.modelPairs) ∧
      (sequenceSameRouteModelSteps prepared.dag = none ↔
        prepared.dag.StraysAmong prepared.dag.modelPairs) := by
  obtain ⟨stages, _⟩ := stages_of_prepareEnv hprepared
  refine ⟨⟨_, blueprintOf_ok stages.blueprint_eq, stages.adds.edges, stages.adds.length⟩, ?_⟩
  have hprepare : prepareWorkflow host workflows party handle args requireApproval =
      (sequenceSameRouteModelSteps prepared.dag).elim (.error (.internal "index out of bounds"))
        fun dag => .ok { prepared with dag } := by
    unfold prepareWorkflow
    rw [hstored]
    simp only [bind, Except.bind, hprepared]
    cases sequenceSameRouteModelSteps prepared.dag <;> rfl
  have hfold : sequenceSameRouteModelSteps prepared.dag =
      prepared.dag.modelPairs.foldlM DagSpec.sequencePair prepared.dag := rfl
  rw [hprepare, hfold]
  rcases prepared.dag.foldlM_sequencePair_spec prepared.dag.modelPairs with
    ⟨hstrays, hnone⟩ | ⟨hstays, hsome⟩
  · rw [hnone]
    simp [hstrays]
  · rw [hsome]
    simp [hstays, DagSpec.ordered]

/-- A workflow of two model steps. -/
def twoModels (edges : List EdgeSpec) : AppEnvelope where
  blueprint := some (.ok { steps := [callingStep "Plan." [], callingStep "Draft." []], edges })

/-- The search stops at the second step, so it does not matter where that leads. -/
def stopsShort : AppEnvelope :=
  twoModels [{ parent := 0, child := 1 }, { parent := 1, child := 7 }]

theorem workflow_sequenced_stopsShort : ∃ prepared,
    prepareEnv (twoAppHost calleeB calleeB) "ann" stopsShort "w" [] false = .ok prepared ∧
    prepareWorkflow (twoAppHost calleeB calleeB) (fun _ _ => .ok (some (.ok stopsShort))) "ann" "w"
      [] false = .ok { prepared with dag := prepared.dag.ordered } := by
  have hok : ((prepareEnv (twoAppHost calleeB calleeB) "ann" stopsShort "w" []
      false).toOption.bind fun p => sequenceSameRouteModelSteps p.dag).isSome = true := by
    decide +kernel
  obtain ⟨dag, hdag⟩ := Option.isSome_iff_exists.1 hok
  obtain ⟨prepared, hprepared, hdag⟩ := Option.bind_eq_some_iff.1 hdag
  have hprepared := toOption_eq_some.1 hprepared
  obtain ⟨_, hready, hnone⟩ := workflow_sequenced (twoAppHost calleeB calleeB)
    (fun _ _ => .ok (some (.ok stopsShort))) "ann" "w" [] false rfl hprepared
  refine ⟨prepared, hprepared, hready.2 fun hstrays => ?_⟩
  rw [hnone.2 hstrays] at hdag
  cases hdag

/-- The first step leads to a step that the workflow does not have, and the search goes
there. -/
theorem sequencing_out_of_bounds :
    (prepareEnv (twoAppHost calleeB calleeB) "ann" (twoModels [{ parent := 0, child := 7 }]) "w" []
        false).toOption.map (fun prepared => sequenceSameRouteModelSteps prepared.dag) =
      some none := by
  decide +kernel

end Kortecx.App
