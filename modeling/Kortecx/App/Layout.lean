import Kortecx.App.Blocks

/-!
The layout of a composed graph: the edges of each blueprint lie in its block, and edges between
blocks are only those from a sink of a callee to a step that called it.
-/

namespace Kortecx.App

open Lib Gateway Warrant List DagSpec Function

namespace Block

def ownEdges (b : Block) : List EdgeSpec :=
  b.own.dag.edges.map (moveEdge (UInt32.ofNat b.offset))

def callEdges (b : Block) : List EdgeSpec :=
  match b.call with
  | none => []
  | some (caller, targets) =>
    targets.flatMap fun target => b.own.dag.sinks.map fun sink =>
      { parent := UInt32.ofNat (b.offset + sink), child := UInt32.ofNat (caller + target) }

def edges (b : Block) : List EdgeSpec := b.ownEdges ++ b.callEdges

def Holds (b : Block) (i : Nat) : Prop :=
  b.offset ≤ i ∧ i < b.offset + b.own.dag.steps.length

end Block

/-- A composed graph laid out in blocks: which edges it has and where they lie. -/
structure LaidOut (prepare : String → Except AppRunError Prepared) (root : Prepared)
    (calls : List (String × List Nat)) (p : Prepared) (blocks : List Block) : Prop extends
    InBlocks prepare root calls p blocks where
  edges : p.dag.edges.Perm (blocks.flatMap Block.edges)
  inside : ∀ b ∈ blocks, ∀ e ∈ b.ownEdges, b.Holds e.parent.toNat ∧ b.Holds e.child.toNat
  inRange : p.dag.EdgesInRange
  sinks : p.dag.sinks = root.dag.sinks

section Edges

theorem u32OrMax_eq (hn : n < 2 ^ 32) : u32OrMax n = UInt32.ofNat n := by
  rw [u32OrMax, Nat.min_eq_left (by omega)]

theorem moveEdge_moveEdge (a b : UInt32) (e : EdgeSpec) :
    moveEdge b (moveEdge a e) = moveEdge (a + b) e := by
  simp [moveEdge, UInt32.add_assoc]

theorem moveEdge_zero (e : EdgeSpec) : moveEdge 0 e = e := by
  simp [moveEdge]

theorem ownEdges_under (k : Nat) (targets : List Nat) (b : Block) :
    (b.under k targets).ownEdges = b.ownEdges.map (moveEdge (UInt32.ofNat k)) := by
  simp only [Block.ownEdges, Block.under, map_map]
  apply map_congr_left
  intro e _
  rw [comp_apply, moveEdge_moveEdge, UInt32.ofNat_add]

variable {k : Nat}

theorem callEdges_under {b : Block} (hcall : b.call = some call) :
    (b.under k targets).callEdges = b.callEdges.map (moveEdge (UInt32.ofNat k)) := by
  obtain ⟨caller, steps⟩ := call
  simp only [Block.callEdges, Block.under, hcall, map_flatMap, map_map]
  apply flatMap_congr
  intro target _
  apply map_congr_left
  intro sink _
  simp only [comp_apply, moveEdge, EdgeSpec.mk.injEq, and_true, ← UInt32.ofNat_add]
  constructor
  · congr 1
    omega
  · congr 1
    omega

theorem callEdges_of_root :
    ({ own, offset } : Block).callEdges = [] := rfl

/-- The edges of the blocks of a callee in the joined graph: they are moved along, and those
of the call are new. -/
theorem edges_under_perm {root : Prepared} (hcalled : ∀ b ∈ callees, b.call.isSome) :
    (((({ own := root, offset := 0 } : Block) :: callees).map (Block.under k targets)).flatMap
        Block.edges).Perm
      (((({ own := root, offset := 0 } : Block) :: callees).flatMap Block.edges).map
        (moveEdge (UInt32.ofNat k)) ++
        targets.flatMap fun target => root.dag.sinks.map fun sink =>
          { parent := UInt32.ofNat (k + sink), child := UInt32.ofNat target }) := by
  have hrest : (callees.map (Block.under k targets)).flatMap Block.edges =
      (callees.flatMap Block.edges).map (moveEdge (UInt32.ofNat k)) := by
    rw [flatMap_map, map_flatMap]
    apply flatMap_congr
    intro b hb
    obtain ⟨call, hcall⟩ := Option.isSome_iff_exists.1 (hcalled b hb)
    rw [Block.edges, Block.edges, map_append, ownEdges_under, callEdges_under hcall]
  have hcross : (Block.under k targets { own := root, offset := 0 }).callEdges =
      targets.flatMap fun target => root.dag.sinks.map fun sink =>
        { parent := UInt32.ofNat (k + sink), child := UInt32.ofNat target } := by
    simp [Block.callEdges, Block.under]
  simp only [map_cons, flatMap_cons]
  rw [hrest, Block.edges, Block.edges, hcross, ownEdges_under, callEdges_of_root, append_nil,
    map_append, append_assoc, append_assoc]
  exact List.Perm.append_left _ perm_append_comm

theorem toNat_ofNat_of_lt (h : k < 2 ^ 32) : (UInt32.ofNat k).toNat = k :=
  UInt32.toNat_ofNat_of_lt' h

theorem toNat_add_ofNat {a : UInt32} (h : a.toNat + k < 2 ^ 32) :
    (a + UInt32.ofNat k).toNat = a.toNat + k := by
  rw [UInt32.toNat_add, UInt32.toNat_ofNat']
  omega

end Edges

section Splice

variable {me callee : Prepared} {targets : List Nat}
  (hsmall : me.dag.steps.length + callee.dag.steps.length < 2 ^ 32)

include hsmall

variable (htargets : ∀ t ∈ targets, t < me.dag.steps.length)

include htargets

/-- In a graph that is small enough no position is cut off. -/
theorem splice_edges :
    (spliceCallee me callee targets).dag.edges =
      me.dag.edges ++ (callee.dag.edges.map (moveEdge (UInt32.ofNat me.dag.steps.length)) ++
        targets.flatMap fun target => callee.dag.sinks.map fun sink =>
          { parent := UInt32.ofNat (me.dag.steps.length + sink), child := UInt32.ofNat target }) := by
  have hcross : (targets.flatMap fun target => callee.dag.sinks.map fun sink =>
        ({ parent := u32OrMax (me.dag.steps.length + sink), child := u32OrMax target } : EdgeSpec)) =
      targets.flatMap fun target => callee.dag.sinks.map fun sink =>
        { parent := UInt32.ofNat (me.dag.steps.length + sink), child := UInt32.ofNat target } := by
    apply flatMap_congr
    intro target htarget
    apply map_congr_left
    intro sink hsink
    have hsink := (mem_sinks.1 hsink).1
    have htarget := htargets target htarget
    rw [u32OrMax_eq (by omega), u32OrMax_eq (by omega)]
  simp only [spliceCallee]
  rw [hcross, u32OrMax_eq (by omega), append_assoc]

/-- An edge of the joined graph is the caller's, one of the callee's that was moved, or leads
from a sink of the callee to a target. -/
theorem mem_splice_edges (hrange : callee.dag.EdgesInRange)
    (he : e ∈ (spliceCallee me callee targets).dag.edges) :
    e ∈ me.dag.edges ∨
      (∃ e' ∈ callee.dag.edges, e.parent.toNat = e'.parent.toNat + me.dag.steps.length ∧
        e.child.toNat = e'.child.toNat + me.dag.steps.length) ∨
      ∃ t ∈ targets, ∃ s ∈ callee.dag.sinks,
        e.parent.toNat = me.dag.steps.length + s ∧ e.child.toNat = t := by
  rw [splice_edges hsmall htargets, mem_append, mem_append] at he
  rcases he with he | he | he
  · exact .inl he
  · obtain ⟨e', he', rfl⟩ := mem_map.1 he
    obtain ⟨hparent, hchild⟩ := hrange e' he'
    exact .inr (.inl ⟨e', he', toNat_add_ofNat (by omega), toNat_add_ofNat (by omega)⟩)
  obtain ⟨t, ht, he⟩ := mem_flatMap.1 he
  obtain ⟨s, hs, rfl⟩ := mem_map.1 he
  have hsink := (mem_sinks.1 hs).1
  have htarget := htargets t ht
  refine .inr (.inr ⟨t, ht, s, hs, ?_, ?_⟩)
  · exact toNat_ofNat_of_lt (by omega)
  · exact toNat_ofNat_of_lt (by omega)

theorem splice_inRange (hme : me.dag.EdgesInRange) (hcallee : callee.dag.EdgesInRange) :
    (spliceCallee me callee targets).dag.EdgesInRange := by
  intro e he
  have hlength : (spliceCallee me callee targets).dag.steps.length =
      me.dag.steps.length + callee.dag.steps.length := length_append
  rw [hlength]
  rcases mem_splice_edges hsmall htargets hcallee he with
    he | ⟨e', he', hp, hc⟩ | ⟨t, ht, s, hs, hp, hc⟩
  · have := hme e he
    omega
  · have := hcallee e' he'
    omega
  have := htargets t ht
  have := (mem_sinks.1 hs).1
  omega

/-- Every step of a callee has an edge that leads out of it: its own, or one to a target. -/
theorem exists_edge_of_callee (hne : targets ≠ []) {j : Nat} (hj : j < callee.dag.steps.length) :
    ∃ e ∈ (spliceCallee me callee targets).dag.edges,
      e.parent.toNat = me.dag.steps.length + j := by
  rw [splice_edges hsmall htargets]
  by_cases hsink : j ∈ callee.dag.sinks
  · obtain ⟨t, ht⟩ := exists_mem_of_ne_nil targets hne
    refine ⟨_, mem_append_right _ (mem_append_right _
      (mem_flatMap.2 ⟨t, ht, mem_map.2 ⟨j, hsink, rfl⟩⟩)), ?_⟩
    exact toNat_ofNat_of_lt (by omega)
  · have hparent : ∃ e ∈ callee.dag.edges, e.parent.toNat = j := by
      by_contra hnone
      push Not at hnone
      exact hsink (mem_sinks.2 ⟨hj, hnone⟩)
    obtain ⟨e, he, hej⟩ := hparent
    refine ⟨_, mem_append_right _ (mem_append_left _ (mem_map_of_mem he)), ?_⟩
    simp only [moveEdge]
    rw [toNat_add_ofNat (by omega)]
    omega

theorem mem_splice_sinks (hcallee : callee.dag.EdgesInRange) {i : Nat}
    (hi : i < me.dag.steps.length) :
    i ∈ (spliceCallee me callee targets).dag.sinks ↔ i ∈ me.dag.sinks := by
  rw [mem_sinks, mem_sinks]
  constructor
  · rintro ⟨_, hnone⟩
    refine ⟨hi, fun e he => hnone e ?_⟩
    rw [splice_edges hsmall htargets]
    exact mem_append_left _ he
  · rintro ⟨_, hnone⟩
    refine ⟨hi.trans_le (length_append ▸ Nat.le_add_right _ _), ?_⟩
    intro e he
    rcases mem_splice_edges hsmall htargets hcallee he with
      he | ⟨e', he', hp, hc⟩ | ⟨t, ht, s, hs, hp, hc⟩
    · exact hnone e he
    · omega
    · omega

/-- No step of a callee is a sink of the joined graph, and no step of the caller stops being
one. -/
theorem splice_sinks (hne : targets ≠ []) (hcallee : callee.dag.EdgesInRange) :
    (spliceCallee me callee targets).dag.sinks = me.dag.sinks := by
  have hlength : (spliceCallee me callee targets).dag.steps.length =
      me.dag.steps.length + callee.dag.steps.length := length_append
  have hrange : ∀ dag : DagSpec, dag.sinks =
      (List.range dag.steps.length).filter (fun i => decide (i ∈ dag.sinks)) := by
    intro dag
    apply filter_congr
    intro i hi
    have hi := mem_range.1 hi
    simp [mem_sinks, hi]
  rw [hrange (spliceCallee me callee targets).dag, hrange me.dag, hlength, range_add,
    filter_append]
  have hnone : ((List.range callee.dag.steps.length).map (me.dag.steps.length + ·)).filter
      (fun i => decide (i ∈ (spliceCallee me callee targets).dag.sinks)) = [] := by
    apply filter_eq_nil_iff.2
    intro i hi
    obtain ⟨j, hj, rfl⟩ := mem_map.1 hi
    obtain ⟨e, he, hej⟩ := exists_edge_of_callee hsmall htargets hne (mem_range.1 hj)
    rw [decide_eq_true_eq]
    intro hsink
    exact (mem_sinks.1 hsink).2 e he hej
  rw [hnone, append_nil]
  apply filter_congr
  intro i hi
  rw [decide_eq_decide]
  exact mem_splice_sinks hsmall htargets hcallee (mem_range.1 hi)

end Splice

namespace LaidOut

variable {prepare : String → Except AppRunError Prepared} {root me callee own : Prepared}
  {calls : List (String × List Nat)} {blocks blocks' : List Block}

theorem single (hrange : root.dag.EdgesInRange) :
    LaidOut prepare root [] root [{ own := root, offset := 0 }] where
  toInBlocks := InBlocks.single
  edges := by
    have hzero : moveEdge 0 = id := funext moveEdge_zero
    simp [Block.edges, Block.ownEdges, callEdges_of_root, hzero]
  inside := by
    intro b hb e he
    rw [mem_singleton] at hb
    subst hb
    obtain ⟨e', he', rfl⟩ := mem_map.1 he
    have hzero : UInt32.ofNat 0 = 0 := rfl
    rw [hzero, moveEdge_zero]
    simpa [Block.Holds] using hrange e' he'
  inRange := hrange
  sinks := rfl

theorem congr (h : LaidOut prepare root calls me blocks)
    (hblocks : InBlocks prepare root calls p blocks) (hdag : p.dag = me.dag) :
    LaidOut prepare root calls p blocks where
  toInBlocks := hblocks
  edges := by rw [hdag]; exact h.edges
  inside := h.inside
  inRange := by rw [hdag]; exact h.inRange
  sinks := by rw [hdag, h.sinks]

variable {targets : List Nat}

/-- The blocks of a callee stay as they were among themselves. -/
theorem inside_under (h : LaidOut prepare own calls callee blocks)
    (hsmall : k + callee.dag.steps.length < 2 ^ 32) (hb : b ∈ blocks)
    (he : e ∈ (b.under k targets).ownEdges) :
    (b.under k targets).Holds e.parent.toNat ∧ (b.under k targets).Holds e.child.toNat := by
  rw [ownEdges_under] at he
  obtain ⟨e', he', rfl⟩ := mem_map.1 he
  have hinside := h.inside b hb e' he'
  have hle := (h.consecutive.le_length hb).2
  have hlength := h.length_eq
  simp only [Block.Holds, Block.under, moveEdge] at hinside ⊢
  rw [toNat_add_ofNat (by omega), toNat_add_ofNat (by omega)]
  omega

/-- The edges of a joined graph: those of the caller's blocks and those of the callee's. -/
theorem edges_splice (hme : LaidOut prepare root calls me blocks)
    (hcallee : LaidOut prepare own own.composes callee blocks')
    (hsmall : me.dag.steps.length + callee.dag.steps.length < 2 ^ 32)
    (htargets : ∀ t ∈ targets, t < me.dag.steps.length) :
    (spliceCallee me callee targets).dag.edges.Perm
      ((blocks ++ blocks'.map (Block.under me.dag.steps.length targets)).flatMap Block.edges) := by
  obtain ⟨callees, hblocks', hcallees⟩ := hcallee.first
  rw [splice_edges hsmall htargets, flatMap_append]
  apply hme.edges.append
  rw [hblocks']
  refine List.Perm.trans ?_ (edges_under_perm hcallees).symm
  rw [hcallee.sinks]
  apply List.Perm.append_right
  rw [← hblocks']
  exact hcallee.edges.map _

end LaidOut

/-- What a layout asks of the Apps it is made of: their edges are in range, and their calls
come from their own steps. -/
def WellBuilt (p : Prepared) : Prop :=
  p.dag.EdgesInRange ∧ ∀ call ∈ p.composes, ∀ t ∈ call.2, t < p.dag.steps.length

theorem joinRule_laidOut :
    JoinRule prepare WellBuilt (LaidOut prepare) where
  single hroot := LaidOut.single hroot.1
  skip h hcall := { h with toInBlocks := h.toInBlocks.skip hcall }
  pin h := h.congr (joinRule_inBlocks.pin h.toInBlocks) pin_dag
  taken h := h.congr (joinRule_inBlocks.taken h.toInBlocks) rfl
  splice {root own calls me callee blocks blocks' call} hroot hme hcallee hprepare htotal hpinned
      hpinned' hbundles hmem hne := by
    have hsmall : me.dag.steps.length + callee.dag.steps.length < 2 ^ 32 :=
      lt_of_le_of_lt htotal (by decide)
    have htargets : ∀ t ∈ call.2, t < me.dag.steps.length := fun t ht =>
      lt_of_lt_of_le (hroot.2 call hmem t ht) hme.root_length_le
    exact {
      toInBlocks := joinRule_inBlocks.splice trivial hme.toInBlocks hcallee.toInBlocks hprepare
        htotal hpinned hpinned' hbundles hmem hne
      edges := hme.edges_splice hcallee hsmall htargets
      inside := by
        intro b hb e he
        rcases mem_append.1 hb with hb | hb
        · exact hme.inside b hb e he
        obtain ⟨b', hb', rfl⟩ := mem_map.1 hb
        exact hcallee.inside_under hsmall hb' he
      inRange := splice_inRange hsmall htargets hme.inRange hcallee.inRange
      sinks := by rw [splice_sinks hsmall htargets hne hcallee.inRange, hme.sinks] }

end Kortecx.App
