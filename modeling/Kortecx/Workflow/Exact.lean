import Kortecx.Workflow.Compile
import Kortecx.Lib.LogIndex

/-!
Compilation is exact. A workflow compiles exactly if its edges and critics name existing
steps, no edge repeats, the edges are acyclic and each critic comes after its producer in
the order of the steps. The Motes stand in the least such order, the parents of each are its
in-edges, and neither depends on the order in which the edges were declared.
-/

namespace Kortecx.Workflow

open Lib Mote List Function

namespace WorkflowDef

variable (d : WorkflowDef)

def pairs : List (Nat × Nat) :=
  d.edges.map fun e => (e.parent, e.child)

def inEdges (i : Nat) : List StepEdge :=
  d.edges.filter (·.child = i)

def producerOf (i : Nat) : Option Nat :=
  (d.steps[i]?).bind (·.role.producer)

/-- What the compiler requires of the edges and critics. -/
structure WellFormed : Prop where
  edges_exist : ∀ e ∈ d.edges, e.parent < d.steps.length ∧ e.child < d.steps.length
  producers_exist : ∀ i producer, d.producerOf i = some producer → producer < d.steps.length
  unrepeated : d.pairs.Nodup
  acyclic : TopoSort.Acyclic d.pairs

end WorkflowDef

section Edges

def adjacencyOf (edges : List StepEdge) : Adjacency where
  indegree i := edges.countP (·.child = i)
  children p := (edges.filter (·.parent = p)).map (·.child)
  parentsOf i := (edges.filter (·.child = i)).map fun e => (e.parent, e.edge)

variable (edges done : List StepEdge) (seen : List (Nat × Nat))

theorem push_adjacencyOf (e : StepEdge) :
    (adjacencyOf edges).push e = adjacencyOf (edges ++ [e]) := by
  unfold Adjacency.push adjacencyOf
  congr 1
  · funext i
    by_cases hi : e.child = i
    · subst hi
      simp
    · simp [update_of_ne (Ne.symm hi), hi]
  · funext p
    by_cases hp : e.parent = p
    · subst hp
      simp
    · simp [update_of_ne (Ne.symm hp), hp]
  · funext i
    by_cases hi : e.child = i
    · subst hi
      simp
    · simp [update_of_ne (Ne.symm hi), hi]

variable {n : Nat}

theorem addEdge_ok :
    addEdge n acc e = .ok acc' ↔
      (e.parent < n ∧ e.child < n) ∧ (e.parent, e.child) ∉ acc.2 ∧
        acc' = (acc.1.push e, (e.parent, e.child) :: acc.2) := by
  unfold addEdge
  split
  · simp
    omega
  split
  · simp
    omega
  split
  · simp_all
  · simp_all [eq_comm (a := acc')]

variable {rest : List StepEdge}

/-- Adding edges after those already seen. -/
theorem exists_foldlM_addEdge
    (hseen : ∀ pair, pair ∈ seen ↔ pair ∈ done.map fun e => (e.parent, e.child))
    (hdone : (done.map fun e => (e.parent, e.child)).Nodup) :
    (∃ seen', rest.foldlM (addEdge n) (adjacencyOf done, seen) = .ok (adj, seen')) ↔
      (∀ e ∈ rest, e.parent < n ∧ e.child < n) ∧
      ((done ++ rest).map fun e => (e.parent, e.child)).Nodup ∧
      adj = adjacencyOf (done ++ rest) := by
  induction rest generalizing done seen with
  | nil => simpa [pure, Except.pure, eq_comm] using fun _ => hdone
  | cons e rest ih =>
    have hseen' : ∀ pair, pair ∈ (e.parent, e.child) :: seen ↔
        pair ∈ (done ++ [e]).map fun e => (e.parent, e.child) := by
      simp [hseen, or_comm]
    have happend : done ++ e :: rest = done ++ [e] ++ rest := by simp
    simp only [foldlM_cons, except_bind_eq_ok, addEdge_ok, forall_mem_cons, happend]
    constructor
    · rintro ⟨seen', _, ⟨hrange, hnew, rfl⟩, hfold⟩
      have hnext : ((done ++ [e]).map fun e => (e.parent, e.child)).Nodup := by
        rw [map_append]
        apply List.Nodup.append hdone (nodup_singleton _)
        simpa [hseen] using hnew
      rw [push_adjacencyOf] at hfold
      obtain ⟨hrest, hall⟩ := (ih _ _ hseen' hnext).1 ⟨seen', hfold⟩
      exact ⟨⟨hrange, hrest⟩, hall⟩
    · rintro ⟨⟨hrange, hrest⟩, hnodup, hadj⟩
      have hnext := hnodup
      rw [map_append] at hnext
      have hnext := hnext.of_append_left
      have hnew : (e.parent, e.child) ∉ seen := by
        rw [map_append] at hnext
        rw [hseen]
        exact fun hmem => (nodup_append.1 hnext).2.2 _ hmem _ (by simp) rfl
      obtain ⟨seen', hfold⟩ := (ih _ _ hseen' hnext).2 ⟨hrest, hnodup, hadj⟩
      exact ⟨seen', _, ⟨hrange, hnew, rfl⟩, push_adjacencyOf done e ▸ hfold⟩

theorem checkProducer_ok :
    checkProducer n s = .ok () ↔ ∀ producer, s.role.producer = some producer → producer < n := by
  unfold checkProducer
  split
  · next producer hproducer => simp [hproducer]
  · next hnone => simp [hnone]

theorem checkProducers_ok :
    checkProducers n steps = .ok () ↔
      ∀ s ∈ steps, ∀ producer, s.role.producer = some producer → producer < n := by
  induction steps with
  | nil => simp [checkProducers]
  | cons s rest ih =>
    rw [checkProducers, except_bind_eq_ok]
    rw [forall_mem_cons, ← checkProducer_ok, ← ih]
    constructor
    · exact fun ⟨_, hs, hrest⟩ => ⟨hs, hrest⟩
    · exact fun ⟨hs, hrest⟩ => ⟨(), hs, hrest⟩

variable {d : WorkflowDef}

/-- The edges and producers pass exactly if they name existing steps and no edge repeats. -/
theorem buildAdjacency_ok :
    buildAdjacency d = .ok adj ↔
      (∀ e ∈ d.edges, e.parent < d.steps.length ∧ e.child < d.steps.length) ∧
      (∀ s ∈ d.steps, ∀ producer, s.role.producer = some producer → producer < d.steps.length) ∧
      d.pairs.Nodup ∧ adj = adjacencyOf d.edges := by
  have hedges : (∃ seen, d.edges.foldlM (addEdge d.steps.length) (adjacencyOf [], []) =
      .ok (adj, seen)) ↔ _ := exists_foldlM_addEdge [] [] (by simp) (by simp)
  unfold buildAdjacency
  simp only [except_bind_eq_ok]
  constructor
  · rintro ⟨⟨_, seen⟩, hfold, _, hproducers, hadj⟩
    cases hadj
    obtain ⟨hrange, hnodup, hadj⟩ := hedges.1 ⟨seen, hfold⟩
    exact ⟨hrange, checkProducers_ok.1 hproducers, hnodup, hadj⟩
  · rintro ⟨hrange, hproducers, hnodup, hadj⟩
    obtain ⟨seen, hfold⟩ := hedges.2 ⟨hrange, hnodup, hadj⟩
    exact ⟨_, hfold, (), checkProducers_ok.2 hproducers, rfl⟩

theorem children_adjacencyOf :
    TopoSort.Children (edges.map fun e => (e.parent, e.child)) (adjacencyOf edges).children := by
  intro p
  rw [filter_map, map_map]
  rfl

theorem indegree_adjacencyOf (i : Nat) :
    (adjacencyOf edges).indegree i =
      (edges.map fun e => (e.parent, e.child)).countP fun e => e.2 = i := by
  rw [countP_map]
  rfl

/-- The sort of the steps succeeds exactly on acyclic edges, with the least order, and fails
only with a cycle. -/
theorem topoOrder_spec (hnodup : d.pairs.Nodup)
    (hrange : ∀ e ∈ d.edges, e.parent < d.steps.length ∧ e.child < d.steps.length) :
    (∀ order, topoOrder d.steps.length (adjacencyOf d.edges) = .ok order ↔
      TopoSort.Acyclic d.pairs ∧
        TopoSort.IsLeast (List.range d.steps.length) d.pairs order) ∧
    ∀ err, topoOrder d.steps.length (adjacencyOf d.edges) = .error err →
      (∃ i, err = .cycle i) ∧ ¬ TopoSort.Acyclic d.pairs := by
  have hnodes : ∀ pair ∈ d.pairs,
      pair.1 ∈ List.range d.steps.length ∧ pair.2 ∈ List.range d.steps.length := by
    intro pair hpair
    obtain ⟨e, he, rfl⟩ := mem_map.1 hpair
    simpa using hrange e he
  obtain ⟨hcomplete, hleast⟩ := TopoSort.sort_spec nodup_range hnodup hnodes
    (indegree_adjacencyOf d.edges) (children_adjacencyOf d.edges)
  rw [length_range] at hcomplete hleast
  unfold topoOrder
  dsimp only
  split
  · next hlength =>
      refine ⟨fun order => ?_, by simp⟩
      rw [Except.ok.injEq]
      constructor
      · rintro rfl
        exact ⟨hcomplete.1 hlength, hleast hlength⟩
      · exact fun horder => (hleast hlength).unique horder.2
  · next hlength =>
      have hcyclic : ¬ TopoSort.Acyclic d.pairs := fun h => hlength (hcomplete.2 h)
      refine ⟨by simp [hcyclic], ?_⟩
      rintro _ ⟨⟩
      exact ⟨⟨_, rfl⟩, hcyclic⟩

end Edges

section Parents

variable {i : Nat} {moteIds : Nat → Option MoteId} {parentsOf : Nat → List (Nat × EdgeMeta)}
  {parents : List ParentRef}

theorem resolveParent_ok :
    resolveParent i moteIds parent = .ok r ↔
      moteIds parent.1 = some r.parentId ∧ r.edge = parent.2 := by
  unfold resolveParent
  cases hid : moteIds parent.1 with
  | none => simp
  | some id =>
    obtain ⟨parentId, edge⟩ := r
    simp [eq_comm (a := edge)]

/-- The parents are resolved exactly if each has an identity, and then they are the declared
ones, in order. -/
theorem resolveParents_ok :
    resolveParents i parentsOf moteIds = .ok parents ↔
      ∃ refs, List.Forall₂ (fun parent r => resolveParent i moteIds parent = .ok r)
          (parentsOf i) refs ∧ parents = refs.insertionSort ParentLe := by
  unfold resolveParents
  rw [except_bind_eq_ok]
  simp only [mapM_eq_ok_iff]
  constructor
  · rintro ⟨refs, hrefs, hsorted⟩
    cases hsorted
    exact ⟨refs, hrefs, rfl⟩
  · rintro ⟨refs, hrefs, rfl⟩
    exact ⟨refs, hrefs, rfl⟩

theorem exists_resolveParents :
    (∃ parents, resolveParents i parentsOf moteIds = .ok parents) ↔
      ∀ parent ∈ parentsOf i, (moteIds parent.1).isSome := by
  simp only [resolveParents_ok]
  generalize parentsOf i = parents
  induction parents with
  | nil => exact ⟨fun _ => by simp, fun _ => ⟨_, [], .nil, rfl⟩⟩
  | cons parent rest ih =>
    rw [forall_mem_cons, ← ih]
    constructor
    · rintro ⟨_, refs, hrefs, _⟩
      cases hrefs with
      | cons hr hrest => exact ⟨by simp [(resolveParent_ok.1 hr).1], _, _, hrest, rfl⟩
    · rintro ⟨hsome, _, refs, hrest, _⟩
      obtain ⟨id, hid⟩ := Option.isSome_iff_exists.1 hsome
      have hr : resolveParent i moteIds parent = .ok ⟨id, parent.2⟩ :=
        resolveParent_ok.2 ⟨hid, rfl⟩
      exact ⟨_, _, .cons hr hrest, rfl⟩

instance : IsTrans ParentRef ParentLe :=
  ⟨fun _ _ _ hab hbc => Std.TransCmp.isLE_trans hab hbc⟩

instance : Std.Total ParentLe where
  total a b := by
    unfold ParentLe
    have hswap : compare b.parentId a.parentId = (compare a.parentId b.parentId).swap :=
      Std.OrientedCmp.eq_swap
    rw [hswap]
    cases compare a.parentId b.parentId <;> simp

theorem map_of_resolveParent {parents : List (Nat × EdgeMeta)} {refs : List ParentRef}
    (hrefs : List.Forall₂ (fun parent r => resolveParent i moteIds parent = .ok r) parents refs) :
    refs.map (fun r => (some r.parentId, r.edge)) =
      parents.map fun parent => (moteIds parent.1, parent.2) := by
  induction hrefs with
  | nil => rfl
  | cons hr _ ih =>
    obtain ⟨hid, hedge⟩ := resolveParent_ok.1 hr
    rw [map_cons, map_cons, ih, hid, hedge]

/-- Resolved parents are the declared ones with their identities, sorted by them. -/
theorem resolveParents_spec (hparents : resolveParents i parentsOf moteIds = .ok parents) :
    (parents.map fun r => (some r.parentId, r.edge)).Perm
        ((parentsOf i).map fun parent => (moteIds parent.1, parent.2)) ∧
      parents.Pairwise ParentLe := by
  obtain ⟨refs, hrefs, rfl⟩ := resolveParents_ok.1 hparents
  constructor
  · rw [← map_of_resolveParent hrefs]
    exact (perm_insertionSort ParentLe refs).map _
  · exact pairwise_insertionSort ParentLe refs

/-- More identities resolve the same parents. -/
theorem resolveParents_mono (hmore : ∀ j id, moteIds j = some id → moteIds' j = some id)
    (hparents : resolveParents i parentsOf moteIds = .ok parents) :
    resolveParents i parentsOf moteIds' = .ok parents := by
  obtain ⟨refs, hrefs, rfl⟩ := resolveParents_ok.1 hparents
  refine resolveParents_ok.2 ⟨refs, hrefs.imp ?_, rfl⟩
  intro parent r hr
  obtain ⟨hid, hedge⟩ := resolveParent_ok.1 hr
  exact resolveParent_ok.2 ⟨hmore _ _ hid, hedge⟩

/-- With distinct identities, the order in which the in-edges were declared is lost. -/
theorem resolveParents_perm
    (hperm : (parentsOf i).Perm (parentsOf' i)) (hnodup : ((parentsOf i).map Prod.fst).Nodup)
    (hinj : ∀ j k id, moteIds j = some id → moteIds k = some id → j = k)
    (hparents : resolveParents i parentsOf moteIds = .ok parents) :
    resolveParents i parentsOf' moteIds = .ok parents := by
  obtain ⟨refs, hrefs, rfl⟩ := resolveParents_ok.1 hparents
  obtain ⟨refs', hrefs', hrefsperm⟩ := perm_comp_forall₂ hperm.symm hrefs
  refine resolveParents_ok.2 ⟨refs', hrefs', ?_⟩
  have hdistinct : ∀ a ∈ refs, ∀ b ∈ refs, a.parentId = b.parentId → a = b := by
    intro a ha b hb hid
    have hfrom : ∀ r ∈ refs, ∃ parent ∈ parentsOf i,
        moteIds parent.1 = some r.parentId ∧ parent.2 = r.edge := by
      intro r hr
      have hmem := mem_map_of_mem (f := fun r => (some r.parentId, r.edge)) hr
      rw [map_of_resolveParent hrefs] at hmem
      obtain ⟨parent, hparent, heq⟩ := mem_map.1 hmem
      exact ⟨parent, hparent, congrArg Prod.fst heq, congrArg Prod.snd heq⟩
    obtain ⟨pa, hpa, hida, hea⟩ := hfrom a ha
    obtain ⟨pb, hpb, hidb, heb⟩ := hfrom b hb
    have hsame : pa = pb :=
      inj_on_of_nodup_map hnodup hpa hpb (hinj _ _ _ hida (hid ▸ hidb))
    obtain ⟨aid, aedge⟩ := a
    obtain ⟨bid, bedge⟩ := b
    simp_all
  refine List.Perm.eq_of_pairwise ?_ (pairwise_insertionSort ParentLe refs)
    (pairwise_insertionSort ParentLe refs') ?_
  · intro a b ha hb hab hba
    apply hdistinct a ((perm_insertionSort ParentLe refs).mem_iff.1 ha) b
    · exact hrefsperm.mem_iff.1 ((perm_insertionSort ParentLe refs').mem_iff.1 hb)
    · exact Std.LawfulEqCmp.eq_of_compare (Std.OrientedCmp.isLE_antisymm hab hba)
  · exact (perm_insertionSort ParentLe refs).trans
      (hrefsperm.symm.trans (perm_insertionSort ParentLe refs').symm)

end Parents

def moteIdIn (motes : List CompiledMote) (i : Nat) : Option MoteId :=
  (motes.find? (·.stepIndex = i)).map (·.mote.id)

def CompiledWorkflow.moteIdOf (c : CompiledWorkflow) : Nat → Option MoteId :=
  moteIdIn c.motes

def idPreimage (ids : Identity) (m : Mote) : List UInt8 :=
  (m.def.hash ids).bytes.toList ++ m.inputDataId.toList ++ m.graphPosition

section Loop

variable {ids : Identity} {d : WorkflowDef} {adj adj' : Adjacency} {motes : List CompiledMote}
  {i : Nat} {c : Compiling} {done : List Nat}

theorem isSome_moteIdIn : (moteIdIn motes i).isSome ↔ i ∈ motes.map (·.stepIndex) := by
  simp [moteIdIn]

theorem mem_of_moteIdIn {id : MoteId} (hid : moteIdIn motes i = some id) :
    ∃ cm ∈ motes, cm.stepIndex = i ∧ cm.mote.id = id := by
  obtain ⟨cm, hfind, rfl⟩ := Option.map_eq_some_iff.1 hid
  exact ⟨cm, mem_of_find?_eq_some hfind, by simpa using List.find?_some hfind, rfl⟩

/-- Where no two Motes share an identity, no two steps do. -/
theorem moteIdIn_inj (hnodup : (motes.map (·.mote.id)).Nodup) (j k : Nat) (id : MoteId)
    (hj : moteIdIn motes j = some id) (hk : moteIdIn motes k = some id) : j = k := by
  obtain ⟨a, ha, rfl, hida⟩ := mem_of_moteIdIn hj
  obtain ⟨b, hb, rfl, hidb⟩ := mem_of_moteIdIn hk
  rw [inj_on_of_nodup_map hnodup ha hb (hida.trans hidb.symm)]

theorem exists_resolveCritic :
    (∃ criticFor, resolveCritic s i moteIds = .ok criticFor) ↔
      ∀ producer, s.role.producer = some producer → (moteIds producer).isSome := by
  unfold resolveCritic
  split
  · next producer hproducer =>
      split
      · next id hid => simp [hproducer, hid]
      · next hnone => simp [hproducer, hnone]
  · next hnone => simp [hnone]

variable {c' : Compiling} {rest : List Nat}

theorem compileStep_ok :
    compileStep ids d adj c i = .ok c' ↔
      ∃ s criticFor parents, d.steps[i]? = some s ∧
        resolveCritic s i c.moteIds = .ok criticFor ∧
        resolveParents i adj.parentsOf c.moteIds = .ok parents ∧
        c.push ⟨moteFor ids d.seed s c.motes.length criticFor parents, s.warrant,
          s.capability, i⟩ = c' := by
  unfold compileStep
  split
  · next hnone => simp [hnone]
  next s hs =>
    simp only [except_bind_eq_ok, hs, Option.some.injEq]
    constructor
    · rintro ⟨criticFor, hcritic, parents, hparents, hpush⟩
      exact ⟨s, criticFor, parents, rfl, hcritic, hparents, Except.ok.inj hpush⟩
    · rintro ⟨_, criticFor, parents, rfl, hcritic, hparents, hpush⟩
      exact ⟨criticFor, hcritic, parents, hparents, congrArg Except.ok hpush⟩

/-- What must have an identity before a step is compiled: its parents, and the producer it
judges. -/
def Needs (d : WorkflowDef) (i q : Nat) : Prop :=
  (∃ e ∈ d.edges, e.child = i ∧ e.parent = q) ∨ d.producerOf i = some q

theorem exists_compileStep :
    (∃ c', compileStep ids d (adjacencyOf d.edges) c i = .ok c') ↔
      i < d.steps.length ∧ ∀ q, Needs d i q → (c.moteIds q).isSome := by
  simp only [compileStep_ok]
  constructor
  · rintro ⟨_, s, criticFor, parents, hs, hcritic, hparents, _⟩
    refine ⟨(List.getElem?_eq_some_iff.1 hs).1, ?_⟩
    rintro q (⟨e, he, hchild, hparent⟩ | hproducer)
    · subst hparent
      apply exists_resolveParents.1 ⟨parents, hparents⟩ (e.parent, e.edge)
      simp only [adjacencyOf, mem_map, mem_filter, decide_eq_true_eq]
      exact ⟨e, ⟨he, hchild⟩, rfl⟩
    · apply exists_resolveCritic.1 ⟨criticFor, hcritic⟩ q
      simpa [WorkflowDef.producerOf, hs] using hproducer
  · rintro ⟨hi, hneeds⟩
    have hs := List.getElem?_eq_getElem hi
    obtain ⟨criticFor, hcritic⟩ := exists_resolveCritic (s := d.steps[i]) (i := i).2
      fun q hq => hneeds q (.inr (by simp [WorkflowDef.producerOf, hs, hq]))
    have hall : ∀ parent ∈ (adjacencyOf d.edges).parentsOf i, (c.moteIds parent.1).isSome := by
      intro parent hparent
      simp only [adjacencyOf, mem_map, mem_filter, decide_eq_true_eq] at hparent
      obtain ⟨e, ⟨he, hchild⟩, rfl⟩ := hparent
      exact hneeds e.parent (.inl ⟨e, he, hchild, rfl⟩)
    obtain ⟨parents, hparents⟩ := exists_resolveParents.2 hall
    exact ⟨_, d.steps[i], criticFor, parents, hs, hcritic, hparents, rfl⟩

/-- What the loop over the order keeps: the Motes of the steps done, each at its rank, with
the identities of its parents. -/
structure Compiling.Tracks (ids : Identity) (adj : Adjacency) (c : Compiling) (done : List Nat) :
    Prop where
  steps : c.motes.map (·.stepIndex) = done
  moteIds : ∀ i, c.moteIds i = moteIdIn c.motes i
  placed : ∀ k cm, c.motes[k]? = some cm →
    cm.mote.graphPosition = leBytes 8 (rankU64 k).toNat ∧
      cm.mote.id = ⟨ids.blake3 (idPreimage ids cm.mote)⟩
  parents : ∀ cm ∈ c.motes,
    resolveParents cm.stepIndex adj.parentsOf c.moteIds = .ok cm.mote.parents

theorem Compiling.Tracks.start : Compiling.Tracks ids adj {} [] where
  steps := rfl
  moteIds _ := rfl
  placed := by simp
  parents := by simp

theorem Compiling.Tracks.step (hc : c.Tracks ids adj done) (hnodup : (done ++ i :: rest).Nodup)
    (hstep : compileStep ids d adj c i = .ok c') :
    c'.Tracks ids adj (done ++ [i]) ∧ c.motes <+: c'.motes := by
  have hfresh : i ∉ done := fun hi => (nodup_append.1 hnodup).2.2 i hi i (by simp) rfl
  obtain ⟨s, criticFor, parents, _, _, hparents, rfl⟩ := compileStep_ok.1 hstep
  have hnew : c.moteIds i = none := by
    rw [hc.moteIds, ← Option.not_isSome_iff_eq_none, isSome_moteIdIn, hc.steps]
    exact hfresh
  have hmore : ∀ j id, c.moteIds j = some id →
      (update c.moteIds i
        (some (moteFor ids d.seed s c.motes.length criticFor parents).id)) j = some id := by
    intro j id hid
    have hne : j ≠ i := by
      rintro rfl
      simp [hnew] at hid
    rw [update_of_ne hne, hid]
  refine ⟨⟨?_, ?_, ?_, ?_⟩, List.prefix_append _ _⟩
  · simp [Compiling.push, hc.steps]
  · intro j
    simp only [Compiling.push, moteIdIn, List.find?_append]
    by_cases hj : j = i
    · subst hj
      have hnone : c.motes.find? (·.stepIndex = j) = none := by
        simpa [moteIdIn] using (hc.moteIds j).symm.trans hnew
      simp [hnone]
    · rw [update_of_ne hj, hc.moteIds]
      simp [moteIdIn, Ne.symm hj]
  · intro k cm hcm
    rcases getElem?_concat_eq_some.1 hcm with hold | ⟨rfl, rfl⟩
    · exact hc.placed k cm hold
    · exact ⟨rfl, rfl⟩
  · intro cm hcm
    rcases mem_append.1 hcm with hold | hlast
    · exact resolveParents_mono hmore (hc.parents cm hold)
    rw [mem_singleton.1 hlast]
    exact resolveParents_mono hmore hparents

/-- The loop over the order, from any point of it, with what else its steps keep. -/
theorem Compiling.Tracks.run {I : Compiling → Prop} (hc : c.Tracks ids adj done) (hI : I c)
    (hkeeps : ∀ {c c' done i}, c.Tracks ids adj done → c.motes <+: c'.motes →
      compileStep ids d adj c i = .ok c' → I c → I c')
    (hnodup : (done ++ rest).Nodup) (hrun : rest.foldlM (compileStep ids d adj) c = .ok c') :
    c'.Tracks ids adj (done ++ rest) ∧ c.motes <+: c'.motes ∧ I c' := by
  induction rest generalizing c done with
  | nil =>
    cases hrun
    rw [append_nil]
    exact ⟨hc, List.prefix_refl _, hI⟩
  | cons i rest ih =>
    rw [foldlM_cons, except_bind_eq_ok] at hrun
    obtain ⟨next, hstep, hrun⟩ := hrun
    obtain ⟨hnext, hgrown⟩ := hc.step hnodup hstep
    obtain ⟨hlast, hgrown', hI'⟩ :=
      ih hnext (hkeeps hc hgrown hstep hI) (by simpa using hnodup) hrun
    rw [append_assoc] at hlast
    exact ⟨hlast, hgrown.trans hgrown', hI'⟩

/-- A compiled Mote carries the warrant and the definition of the step it was compiled from. -/
def CompiledFrom (d : WorkflowDef) (cm : CompiledMote) : Prop :=
  ∃ s criticFor, d.steps[cm.stepIndex]? = some s ∧ cm.warrant = s.warrant ∧
    cm.mote.def = moteDefFor s criticFor

/-- The Motes come from their steps, and a critic names the Mote of the step it judges. -/
def Made (d : WorkflowDef) (motes : List CompiledMote) : Prop :=
  ∀ cm ∈ motes, CompiledFrom d cm ∧
    ∀ producer, d.producerOf cm.stepIndex = some producer → ∃ judged ∈ motes,
      judged.stepIndex = producer ∧ cm.mote.def.criticFor = some judged.mote.id

theorem Compiling.Tracks.made (hc : c.Tracks ids adj done) (hgrown : c.motes <+: c'.motes)
    (hstep : compileStep ids d adj c i = .ok c') (hmade : Made d c.motes) : Made d c'.motes := by
  obtain ⟨s, criticFor, parents, hs, hcritic, _, rfl⟩ := compileStep_ok.1 hstep
  intro cm hcm
  rcases mem_append.1 hcm with hold | hlast
  · obtain ⟨hfrom, hjudges⟩ := hmade cm hold
    refine ⟨hfrom, fun producer hproducer => ?_⟩
    obtain ⟨judged, hjudged, hfor⟩ := hjudges producer hproducer
    exact ⟨judged, hgrown.subset hjudged, hfor⟩
  rw [mem_singleton.1 hlast]
  refine ⟨⟨s, criticFor, hs, rfl, rfl⟩, fun producer hproducer => ?_⟩
  have hrole : s.role.producer = some producer := by
    simpa [WorkflowDef.producerOf, hs] using hproducer
  simp only [resolveCritic, hrole, hc.moteIds] at hcritic
  split at hcritic
  · next id hid =>
      obtain ⟨judged, hjudged, hindex, rfl⟩ := mem_of_moteIdIn hid
      cases hcritic
      exact ⟨judged, hgrown.subset hjudged, hindex, rfl⟩
  · cases hcritic

/-- The loop comes to its end exactly if what each step needs stands before it. -/
theorem Compiling.Tracks.exists_run (hc : c.Tracks ids (adjacencyOf d.edges) done)
    (hnodup : (done ++ rest).Nodup) :
    (∃ c', rest.foldlM (compileStep ids d (adjacencyOf d.edges)) c = .ok c') ↔
      ∀ i ∈ rest, i < d.steps.length ∧ ∀ q, Needs d i q →
        (done ++ rest).idxOf q < (done ++ rest).idxOf i := by
  induction rest generalizing c done with
  | nil => exact ⟨by simp, fun _ => ⟨c, rfl⟩⟩
  | cons i rest ih =>
    have hfresh : i ∉ done := fun hi => (nodup_append.1 hnodup).2.2 i hi i (by simp) rfl
    have hdone : ∀ q, (c.moteIds q).isSome ↔ q ∈ done := by
      intro q
      rw [hc.moteIds, isSome_moteIdIn, hc.steps]
    have hhere : (∃ next, compileStep ids d (adjacencyOf d.edges) c i = .ok next) ↔
        i < d.steps.length ∧ ∀ q, Needs d i q →
          (done ++ i :: rest).idxOf q < (done ++ i :: rest).idxOf i := by
      simp only [exists_compileStep, hdone, TopoSort.idxOf_lt_iff_mem hfresh]
    rw [forall_mem_cons, ← hhere]
    simp only [foldlM_cons, except_bind_eq_ok]
    constructor
    · rintro ⟨c', next, hstep, hrun⟩
      have hlater := (ih (hc.step hnodup hstep).1 (by simpa using hnodup)).1 ⟨c', hrun⟩
      exact ⟨⟨next, hstep⟩, by simpa using hlater⟩
    · rintro ⟨⟨next, hstep⟩, hlater⟩
      obtain ⟨c', hrun⟩ := (ih (hc.step hnodup hstep).1 (by simpa using hnodup)).2
        (by simpa using hlater)
      exact ⟨c', next, hstep, hrun⟩

/-- Adjacencies with the same parents in another order compile to the same Motes, if these
have distinct identities. -/
theorem Compiling.Tracks.run_perm (hc : c.Tracks ids adj done) (hnodup : (done ++ rest).Nodup)
    (hperm : ∀ i, (adj.parentsOf i).Perm (adj'.parentsOf i))
    (hparents : ∀ i, ((adj.parentsOf i).map Prod.fst).Nodup)
    (hrun : rest.foldlM (compileStep ids d adj) c = .ok c')
    (hids : (c'.motes.map (·.mote.id)).Nodup) :
    rest.foldlM (compileStep ids d adj') c = .ok c' := by
  induction rest generalizing c done with
  | nil => exact hrun
  | cons i rest ih =>
    have hgrown := (hc.run (I := fun _ => True) trivial (fun _ _ _ h => h) hnodup hrun).2.1
    rw [foldlM_cons, except_bind_eq_ok] at hrun ⊢
    obtain ⟨next, hstep, hrun⟩ := hrun
    have hinj : ∀ j k id, c.moteIds j = some id → c.moteIds k = some id → j = k := by
      simp only [hc.moteIds]
      exact moteIdIn_inj (hids.sublist (hgrown.sublist.map _))
    obtain ⟨s, criticFor, parents, hs, hcritic, hresolved, hpush⟩ := compileStep_ok.1 hstep
    have hresolved' := resolveParents_perm (hperm i) (hparents i) hinj hresolved
    refine ⟨next, compileStep_ok.2 ⟨s, criticFor, parents, hs, hcritic, hresolved', hpush⟩, ?_⟩
    exact ih (hc.step hnodup hstep).1 (by simpa using hnodup) hrun

theorem toNat_rankU64 (hk : k < 2 ^ 63) : (rankU64 k).toNat = k := by
  unfold rankU64
  rw [Nat.min_eq_left (by omega)]
  exact UInt64.toNat_ofNat_of_lt' (lt_trans hk (by decide))

/-- Motes at different ranks have different identities, if the hash tells their preimages
apart. -/
theorem Compiling.Tracks.nodup_ids (hc : c.Tracks ids adj done) (hlength : done.length < 2 ^ 63)
    (hinj : Set.InjOn ids.blake3 {bytes | ∃ cm ∈ c.motes, idPreimage ids cm.mote = bytes}) :
    (c.motes.map (·.mote.id)).Nodup := by
  rw [nodup_iff_getElem?_ne_getElem?]
  intro k l hkl hl heq
  rw [length_map] at hl
  have hcount : c.motes.length = done.length := by rw [← hc.steps, length_map]
  have hk := List.getElem?_eq_getElem (lt_trans hkl hl)
  have hl' := List.getElem?_eq_getElem hl
  rw [List.getElem?_map, List.getElem?_map, hk, hl'] at heq
  obtain ⟨hposk, hidk⟩ := hc.placed k _ hk
  obtain ⟨hposl, hidl⟩ := hc.placed l _ hl'
  have hids : c.motes[k].mote.id = c.motes[l].mote.id := by simpa using heq
  rw [hidk, hidl, MoteId.mk.injEq] at hids
  have hbytes := hinj ⟨_, getElem_mem _, rfl⟩ ⟨_, getElem_mem _, rfl⟩ hids
  have hposition := (append_inj hbytes (by simp)).2
  rw [hposk, hposl] at hposition
  have hranks := congrArg leNat hposition
  rw [toNat_rankU64 (by omega), toNat_rankU64 (by omega), leNat_leBytes (by omega),
    leNat_leBytes (by omega)] at hranks
  omega

end Loop

section Exact

variable {ids : Identity} {d : WorkflowDef}

theorem compile_ok :
    compile ids d = .ok c ↔ ∃ adj order compiled, buildAdjacency d = .ok adj ∧
      topoOrder d.steps.length adj = .ok order ∧
      order.foldlM (compileStep ids d adj) {} = .ok compiled ∧
      c = ⟨compiled.motes, compiled.graph⟩ := by
  unfold compile
  simp only [except_bind_eq_ok]
  constructor
  · rintro ⟨adj, hadj, order, horder, compiled, hrun, hc⟩
    exact ⟨adj, order, compiled, hadj, horder, hrun, (Except.ok.inj hc).symm⟩
  · rintro ⟨adj, order, compiled, hadj, horder, hrun, rfl⟩
    exact ⟨adj, hadj, order, horder, compiled, hrun, rfl⟩

theorem producers_exist_iff :
    (∀ s ∈ d.steps, ∀ producer, s.role.producer = some producer → producer < d.steps.length) ↔
      ∀ i producer, d.producerOf i = some producer → producer < d.steps.length := by
  constructor
  · intro hall i producer hproducer
    obtain ⟨s, hs, hrole⟩ := Option.bind_eq_some_iff.1 hproducer
    exact hall s (mem_of_getElem? hs) producer hrole
  · intro hall s hs producer hrole
    obtain ⟨i, hi⟩ := List.getElem?_of_mem hs
    exact hall i producer (by simp [WorkflowDef.producerOf, hi, hrole])

variable {order : List Nat}

/-- A least order lists each existing step once. -/
theorem nodup_of_isLeast {edges : List (Nat × Nat)}
    (horder : TopoSort.IsLeast (List.range n) edges order) : order.Nodup :=
  horder.1.1.nodup_iff.2 nodup_range

/-- A workflow that passes the checks compiles exactly if its critics come after what they
judge. -/
theorem exists_foldlM_compileStep (ids : Identity)
    (horder : TopoSort.IsLeast (List.range d.steps.length) d.pairs order) :
    (∃ compiled, order.foldlM (compileStep ids d (adjacencyOf d.edges)) {} = .ok compiled) ↔
      ∀ i producer, d.producerOf i = some producer →
        order.idxOf producer < order.idxOf i := by
  have hmem : ∀ i, i ∈ order ↔ i < d.steps.length := fun i =>
    horder.1.1.mem_iff.trans mem_range
  have hstart : Compiling.Tracks ids (adjacencyOf d.edges) {} [] := .start
  have hnodup : ([] ++ order).Nodup := nodup_of_isLeast horder
  have hrun := hstart.exists_run hnodup
  rw [hrun]
  constructor
  · intro hall i producer hproducer
    have hi : i < d.steps.length := by
      obtain ⟨s, hs, _⟩ := Option.bind_eq_some_iff.1 hproducer
      exact (List.getElem?_eq_some_iff.1 hs).1
    exact (hall i ((hmem i).2 hi)).2 producer (.inr hproducer)
  · intro hall i hi
    refine ⟨(hmem i).1 hi, ?_⟩
    rintro q (⟨e, he, rfl, rfl⟩ | hproducer)
    · exact horder.1.2 _ _ (mem_map.2 ⟨e, he, rfl⟩)
    · exact hall i q hproducer

/-- The stages of a compilation that succeeded. -/
theorem wellFormed_of_compile (hc : compile ids d = .ok c) :
    d.WellFormed ∧ ∃ order compiled,
      TopoSort.IsLeast (List.range d.steps.length) d.pairs order ∧
      order.foldlM (compileStep ids d (adjacencyOf d.edges)) {} = .ok compiled ∧
      c = ⟨compiled.motes, compiled.graph⟩ ∧
      compiled.Tracks ids (adjacencyOf d.edges) order ∧ Made d compiled.motes := by
  obtain ⟨adj, order, compiled, hadj, horder, hrun, hresult⟩ := compile_ok.1 hc
  obtain ⟨hrange, hproducers, hnodup, rfl⟩ := buildAdjacency_ok.1 hadj
  obtain ⟨hacyclic, hleast⟩ := ((topoOrder_spec hnodup hrange).1 order).1 horder
  have hstart : Compiling.Tracks ids (adjacencyOf d.edges) {} [] := .start
  obtain ⟨htracks, _, hmade⟩ := hstart.run (I := fun c => Made d c.motes) (by simp [Made])
    Compiling.Tracks.made (nodup_of_isLeast hleast) hrun
  exact ⟨⟨hrange, producers_exist_iff.1 hproducers, hnodup, hacyclic⟩, order, compiled, hleast,
    hrun, hresult, htracks, hmade⟩

theorem compile_from (hc : compile ids d = .ok c) : Made d c.motes := by
  obtain ⟨_, _, _, _, _, rfl, _, hmade⟩ := wellFormed_of_compile hc
  exact hmade

theorem compile_of_wellFormed (hd : d.WellFormed)
    (horder : TopoSort.IsLeast (List.range d.steps.length) d.pairs order)
    (hrun : order.foldlM (compileStep ids d (adjacencyOf d.edges)) {} = .ok compiled) :
    compile ids d = .ok ⟨compiled.motes, compiled.graph⟩ := by
  refine compile_ok.2 ⟨adjacencyOf d.edges, order, compiled, ?_, ?_, hrun, rfl⟩
  · exact buildAdjacency_ok.2
      ⟨hd.edges_exist, producers_exist_iff.2 hd.producers_exist, hd.unrepeated, rfl⟩
  · exact ((topoOrder_spec hd.unrepeated hd.edges_exist).1 order).2 ⟨hd.acyclic, horder⟩

/-- A step's in-edges come from different steps. -/
theorem nodup_parentsOf (hnodup : d.pairs.Nodup) (i : Nat) :
    (((adjacencyOf d.edges).parentsOf i).map Prod.fst).Nodup := by
  unfold adjacencyOf
  rw [map_map]
  apply List.Nodup.map_on _ ((List.Nodup.of_map _ hnodup).filter _)
  intro a ha b hb hparent
  simp only [mem_filter, decide_eq_true_eq] at ha hb
  apply inj_on_of_nodup_map hnodup ha.1 hb.1
  exact Prod.ext hparent (ha.2.trans hb.2.symm)

theorem WorkflowDef.WellFormed.perm {edges : List StepEdge} (hd : d.WellFormed)
    (hperm : d.edges.Perm edges) : ({ d with edges } : WorkflowDef).WellFormed := by
  have hpairs : d.pairs.Perm (WorkflowDef.pairs { d with edges }) := hperm.map _
  constructor
  · exact fun e he => hd.edges_exist e (hperm.mem_iff.2 he)
  · exact hd.producers_exist
  · exact hpairs.nodup_iff.1 hd.unrepeated
  · simpa only [TopoSort.Acyclic, hpairs.mem_iff] using hd.acyclic

/-- The Motes of a compiled workflow, in the least order, with the parents its edges name. -/
theorem compile_wires (hc : compile ids d = .ok c) :
    TopoSort.IsLeast (List.range d.steps.length) d.pairs (c.motes.map (·.stepIndex)) ∧
      ∀ cm ∈ c.motes,
        (cm.mote.parents.map fun r => (some r.parentId, r.edge)).Perm
            ((d.inEdges cm.stepIndex).map fun e => (c.moteIdOf e.parent, e.edge)) ∧
          cm.mote.parents.Pairwise ParentLe := by
  obtain ⟨_, order, compiled, horder, _, rfl, htracks, _⟩ := wellFormed_of_compile hc
  refine ⟨by rwa [htracks.steps], ?_⟩
  intro cm hcm
  obtain ⟨hparents, hsorted⟩ := resolveParents_spec (htracks.parents cm hcm)
  refine ⟨?_, hsorted⟩
  simpa [adjacencyOf, WorkflowDef.inEdges, CompiledWorkflow.moteIdOf, htracks.moteIds,
    comp_def] using hparents

/-- The Mote of an edge's child has that of the edge's parent among its parents. -/
theorem compile_parent (hc : compile ids d = .ok c) (he : e ∈ d.edges) (hcm : cm ∈ c.motes)
    (hchild : cm.stepIndex = e.child) : ∃ parent ∈ c.motes, parent.stepIndex = e.parent ∧
      ⟨parent.mote.id, e.edge⟩ ∈ cm.mote.parents := by
  have hedge : (c.moteIdOf e.parent, e.edge) ∈
      cm.mote.parents.map fun r => (some r.parentId, r.edge) := by
    rw [((compile_wires hc).2 cm hcm).1.mem_iff]
    exact mem_map.2 ⟨e, mem_filter.2 ⟨he, decide_eq_true hchild.symm⟩, rfl⟩
  obtain ⟨r, hr, hparent⟩ := mem_map.1 hedge
  obtain ⟨hid, hmeta⟩ := Prod.mk.inj hparent
  obtain ⟨parent, hmem, hindex, hid⟩ := mem_of_moteIdIn hid.symm
  refine ⟨parent, hmem, hindex, ?_⟩
  rwa [hid, ← hmeta]

/-- Where an edge leads to each critic from what it judges, only a cycle stops compilation. -/
theorem cycle_of_compile_error
    (hrange : ∀ e ∈ d.edges, e.parent < d.steps.length ∧ e.child < d.steps.length)
    (hnodup : d.pairs.Nodup)
    (hcritics : ∀ i producer, d.producerOf i = some producer → (producer, i) ∈ d.pairs)
    (herr : compile ids d = .error err) :
    (∃ i, err = .cycle i) ∧ ¬ TopoSort.Acyclic d.pairs := by
  have hexist : ∀ i producer, d.producerOf i = some producer → producer < d.steps.length := by
    intro i producer hproducer
    obtain ⟨e, he, hpair⟩ := mem_map.1 (hcritics i producer hproducer)
    cases hpair
    exact (hrange e he).1
  have hadj : buildAdjacency d = .ok (adjacencyOf d.edges) :=
    buildAdjacency_ok.2 ⟨hrange, producers_exist_iff.2 hexist, hnodup, rfl⟩
  obtain ⟨hsorted, hcycle⟩ := topoOrder_spec hnodup hrange
  cases horder : topoOrder d.steps.length (adjacencyOf d.edges) with
  | error err' =>
    have hsame : err' = err := by simpa [compile, hadj, horder, bind, Except.bind] using herr
    exact hcycle err (hsame ▸ horder)
  | ok order =>
    obtain ⟨hacyclic, hleast⟩ := (hsorted order).1 horder
    obtain ⟨compiled, hrun⟩ := (exists_foldlM_compileStep ids hleast).2
      fun i producer hproducer => hleast.1.2 _ _ (hcritics i producer hproducer)
    have hd : d.WellFormed := ⟨hrange, hexist, hnodup, hacyclic⟩
    cases herr.symm.trans (compile_of_wellFormed hd hleast hrun)

/-- Compilation succeeds exactly on the workflows whose edges and critics are in order, and
what it gives is determined by the steps and the set of edges. -/
theorem compile_exact (ids : Identity) (d : WorkflowDef) :
    ((∃ c, compile ids d = .ok c) ↔
      d.WellFormed ∧ ∃ order,
        TopoSort.IsLeast (List.range d.steps.length) d.pairs order ∧
        ∀ i producer, d.producerOf i = some producer →
          order.idxOf producer < order.idxOf i) ∧
    ∀ c, compile ids d = .ok c →
      TopoSort.IsLeast (List.range d.steps.length) d.pairs (c.motes.map (·.stepIndex)) ∧
      (∀ cm ∈ c.motes,
        (cm.mote.parents.map fun r => (some r.parentId, r.edge)).Perm
            ((d.inEdges cm.stepIndex).map fun e => (c.moteIdOf e.parent, e.edge)) ∧
          cm.mote.parents.Pairwise ParentLe) ∧
      (Set.InjOn ids.blake3 {bytes | ∃ cm ∈ c.motes, idPreimage ids cm.mote = bytes} →
        (c.motes.map (·.mote.id)).Nodup ∧
        ∀ edges, d.edges.Perm edges → compile ids { d with edges } = .ok c) := by
  constructor
  · constructor
    · rintro ⟨c, hc⟩
      obtain ⟨hd, order, compiled, horder, hrun, _⟩ := wellFormed_of_compile hc
      refine ⟨hd, order, horder, ?_⟩
      exact (exists_foldlM_compileStep ids horder).1 ⟨_, hrun⟩
    · rintro ⟨hd, order, horder, hcritics⟩
      obtain ⟨compiled, hrun⟩ := (exists_foldlM_compileStep ids horder).2 hcritics
      exact ⟨_, compile_of_wellFormed hd horder hrun⟩
  · intro c hc
    obtain ⟨hleast, hwires⟩ := compile_wires hc
    obtain ⟨hd, order, compiled, horder, hrun, rfl, htracks, _⟩ := wellFormed_of_compile hc
    have hstart : Compiling.Tracks ids (adjacencyOf d.edges) {} [] := .start
    have hlength : order.length < 2 ^ 63 := by
      rw [horder.1.1.length_eq, length_range]
      exact d.length_steps
    refine ⟨hleast, hwires, fun hinj => ?_⟩
    have hids := htracks.nodup_ids hlength hinj
    refine ⟨hids, fun edges hperm => ?_⟩
    have hparents : ∀ i, ((adjacencyOf d.edges).parentsOf i).Perm
        ((adjacencyOf edges).parentsOf i) := fun i => (hperm.filter _).map _
    have hrun' := hstart.run_perm (nodup_of_isLeast horder) hparents
      (nodup_parentsOf hd.unrepeated) hrun hids
    have hpairs : d.pairs.Perm (WorkflowDef.pairs { d with edges }) := hperm.map _
    have horder' := (TopoSort.IsLeast.congr fun e => hpairs.mem_iff).1 horder
    exact compile_of_wellFormed (hd.perm hperm) horder' hrun'

end Exact

/-- Tells apart the few texts of the sample. -/
def reviewIds : Identity where
  blake3 bytes := .ofNat 32 (bytes.foldl (fun n b => 257 * n + b.toNat + 1) 0)
  canonical d := utf8Bytes d.modelId

def reviewStep (role : StepRole) : StepDef where
  logicRef := .replicate 32 0
  modelId := "model"
  promptTemplateHash := .replicate 32 0
  ndClass := .pure
  effectPattern := .idempotentByConstruction
  role
  warrant := {}
  capability := "local"

/-- A draft that rests on a search, and a critic of the draft that also reads the rules. -/
def review : WorkflowDef where
  steps := [reviewStep .plain, reviewStep .plain, reviewStep .plain, reviewStep (.critic 0)]
  edges :=
    [⟨0, 3, ⟨.data, false⟩⟩, ⟨2, 0, ⟨.data, false⟩⟩, ⟨1, 3, ⟨.control, true⟩⟩]
  seed := 7
  length_steps := by decide

theorem compile_exact_review : ∃ c, compile reviewIds review = .ok c ∧
    c.motes.map (·.stepIndex) = [1, 2, 0, 3] ∧ (c.motes.map (·.mote.id)).Nodup ∧
    compile reviewIds { review with edges := review.edges.reverse } = .ok c := by
  have horder : (compile reviewIds review).toOption.map
      (fun c => c.motes.map (·.stepIndex)) = some [1, 2, 0, 3] := by decide +kernel
  have hhashes : ((compile reviewIds review).toOption.map fun c =>
      c.motes.map fun cm => reviewIds.blake3 (idPreimage reviewIds cm.mote)).all
        (fun hashes => decide hashes.Nodup) = true := by decide +kernel
  cases hc : compile reviewIds review with
  | error err => simp [hc, Except.toOption] at horder
  | ok c =>
    simp only [hc, Except.toOption, Option.map_some, Option.some.injEq, Option.all_some,
      decide_eq_true_eq] at horder hhashes
    have hinj : Set.InjOn reviewIds.blake3
        {bytes | ∃ cm ∈ c.motes, idPreimage reviewIds cm.mote = bytes} := by
      rintro _ ⟨a, ha, rfl⟩ _ ⟨b, hb, rfl⟩ hsame
      rw [inj_on_of_nodup_map hhashes ha hb hsame]
    obtain ⟨hids, hperm⟩ := ((compile_exact reviewIds review).2 c hc).2.2 hinj
    exact ⟨c, rfl, horder, hids, hperm _ (reverse_perm _).symm⟩

end Kortecx.Workflow
