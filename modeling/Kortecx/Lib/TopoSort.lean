import Mathlib.Data.List.Lex
import Mathlib.Data.List.Sort
import Mathlib.Logic.Relation
import Mathlib.Order.WellFounded
import Mathlib.Data.Fintype.Card
import Mathlib.Data.Set.Finite.Basic

/-!
Topological sorting by counting in-edges. The nodes whose in-edges have all been released
wait in a frontier, and the least of them goes next. The order is the lexicographically
least one in which every edge points forward, and the sort stops early exactly on a cycle.
-/

namespace Kortecx.Lib.TopoSort

open List Function Relation

/-- Where a sort stands: how many in-edges each node still waits for, which nodes wait for
none, and the nodes listed so far. -/
structure Sorting (α : Type) where
  indegree : α → Nat
  frontier : List α
  order : List α

variable {α : Type} [LinearOrder α]

/-- An in-edge of `c` is released. -/
def release (s : Sorting α) (c : α) : Sorting α where
  indegree := update s.indegree c (s.indegree c - 1)
  frontier := if s.indegree c - 1 = 0 then c :: s.frontier else s.frontier
  order := s.order

def visit (children : α → List α) (s : Sorting α) (node : α) : Sorting α :=
  ((children node).insertionSort (· ≤ ·)).foldl release
    { s with frontier := s.frontier.erase node, order := s.order ++ [node] }

def run (children : α → List α) : Nat → Sorting α → Sorting α
  | 0, s => s
  | fuel + 1, s =>
    match s.frontier.min? with
    | none => s
    | some node => run children fuel (visit children s node)

/-- The node is not listed yet, and all its parents are. -/
def Ready (nodes : List α) (edges : List (α × α)) (done : List α) (i : α) : Prop :=
  i ∈ nodes ∧ i ∉ done ∧ ∀ p, (p, i) ∈ edges → p ∈ done

def LeastFirst (nodes : List α) (edges : List (α × α)) : List α → List α → Prop
  | _, [] => True
  | done, i :: rest =>
    Ready nodes edges done i ∧ (∀ j, Ready nodes edges done j → i ≤ j) ∧
      LeastFirst nodes edges (done ++ [i]) rest

def IsTopological (nodes : List α) (edges : List (α × α)) (order : List α) : Prop :=
  order.Perm nodes ∧ ∀ p c, (p, c) ∈ edges → order.idxOf p < order.idxOf c

def IsLeast (nodes : List α) (edges : List (α × α)) (order : List α) : Prop :=
  IsTopological nodes edges order ∧ ∀ other, IsTopological nodes edges other → order ≤ other

/-- No path leads from a node back to it. -/
def Acyclic (edges : List (α × α)) : Prop :=
  ∀ i, ¬ TransGen (fun p c => (p, c) ∈ edges) i i

variable {edges : List (α × α)}

theorem IsLeast.unique {nodes order order' : List α}
    (horder : IsLeast nodes edges order) (horder' : IsLeast nodes edges order') : order = order' :=
  le_antisymm (horder.2 _ horder'.1) (horder'.2 _ horder.1)

variable {nodes order : List α} {edges' : List (α × α)}

theorem IsTopological.congr (hedges : ∀ e, e ∈ edges ↔ e ∈ edges') :
    IsTopological nodes edges order ↔ IsTopological nodes edges' order := by
  simp only [IsTopological, hedges]

theorem IsLeast.congr (hedges : ∀ e, e ∈ edges ↔ e ∈ edges') :
    IsLeast nodes edges order ↔ IsLeast nodes edges' order := by
  simp only [IsLeast, IsTopological.congr hedges]

/-- Along an order in which every edge points forward, no path comes back. -/
theorem IsTopological.acyclic (horder : IsTopological nodes edges order) : Acyclic edges := by
  intro i hcycle
  have hforward : ∀ {p c}, TransGen (fun p c => (p, c) ∈ edges) p c →
      order.idxOf p < order.idxOf c := by
    intro p c hpath
    induction hpath with
    | single hedge => exact horder.2 _ _ hedge
    | tail _ hedge ih => exact lt_trans ih (horder.2 _ _ hedge)
  exact lt_irrefl _ (hforward hcycle)

/-- What stands before the first `c` of a list is found before it. -/
theorem idxOf_lt_iff_mem {done rest : List α} {p c : α} (hfresh : c ∉ done) :
    (done ++ c :: rest).idxOf p < (done ++ c :: rest).idxOf c ↔ p ∈ done := by
  rw [idxOf_append_of_notMem hfresh, idxOf_cons_self]
  constructor
  · intro hbefore
    by_contra hnot
    rw [idxOf_append_of_notMem hnot] at hbefore
    omega
  · intro hp
    have hlt := idxOf_lt_length_iff.2 hp
    rw [idxOf_append_of_mem hp]
    omega

/-- No edge leaves the last node of an order. -/
theorem IsTopological.notMem_of_last (horder : IsTopological nodes edges order)
    (hnodup : nodes.Nodup) (hlast : order.getLast? = some i) (hc : c ∈ nodes) :
    (i, c) ∉ edges := by
  intro hedge
  have hforward := horder.2 i c hedge
  obtain ⟨init, rfl⟩ := getLast?_eq_some_iff.1 hlast
  have hfresh : i ∉ init := by
    have hall := horder.1.nodup_iff.2 hnodup
    rw [nodup_append] at hall
    exact fun hi => hall.2.2 i hi i (mem_singleton_self i) rfl
  rcases mem_append.1 (horder.1.mem_iff.2 hc) with hinit | hsame
  · exact lt_asymm hforward ((idxOf_lt_iff_mem hfresh).2 hinit)
  · rw [mem_singleton.1 hsame] at hforward
    exact lt_irrefl _ hforward

variable {children : α → List α}

section Steps

/-- What the loop keeps: the listed nodes come after their parents, the frontier holds the
ready nodes, each once, and the counters count the in-edges from nodes not listed yet. -/
structure Progress (nodes : List α) (edges : List (α × α)) (s : Sorting α) : Prop where
  closed : ∀ p i, (p, i) ∈ edges → i ∈ s.order → p ∈ s.order
  nodup : s.frontier.Nodup
  mem_frontier : ∀ i, i ∈ s.frontier ↔ Ready nodes edges s.order i
  indegree : ∀ i, s.indegree i = edges.countP fun e => e.2 = i ∧ e.1 ∉ s.order

variable (s : Sorting α) {cs : List α}

theorem foldl_release_order :
    (cs.foldl release s).order = s.order := by
  induction cs generalizing s with
  | nil => rfl
  | cons c cs ih => exact ih _

theorem order_visit (children : α → List α) (s : Sorting α) (node : α) :
    (visit children s node).order = s.order ++ [node] :=
  foldl_release_order _

/-- Releasing one edge to each of several nodes. -/
theorem foldl_release (hcs : cs.Nodup) :
    (∀ i, (cs.foldl release s).indegree i =
      if i ∈ cs then s.indegree i - 1 else s.indegree i) ∧
    (cs.foldl release s).frontier.Perm
      (cs.filter (fun c => s.indegree c - 1 = 0) ++ s.frontier) := by
  induction cs generalizing s with
  | nil => simp
  | cons c cs ih =>
    obtain ⟨hc, hcs⟩ := nodup_cons.1 hcs
    obtain ⟨hindegree, hfrontier⟩ := ih (release s c) hcs
    have hother : ∀ i ∈ cs, (release s c).indegree i = s.indegree i := by
      intro i hi
      have hne : i ≠ c := fun heq => hc (heq ▸ hi)
      simp [release, update_of_ne hne]
    have hsame : cs.filter (fun c' => (release s c).indegree c' - 1 = 0) =
        cs.filter (fun c' => s.indegree c' - 1 = 0) := by
      apply filter_congr
      intro i hi
      rw [hother i hi]
    constructor
    · intro i
      rw [foldl_cons, hindegree]
      by_cases hi : i = c
      · subst hi
        simp [hc, release]
      · simp [release, hi]
    · rw [foldl_cons]
      apply hfrontier.trans
      rw [hsame]
      by_cases hzero : s.indegree c - 1 = 0
      · simp only [release, hzero, if_true, filter_cons, decide_true, if_true]
        exact perm_middle
      · simp [release, hzero]

omit [LinearOrder α] in
theorem ready_concat :
    Ready nodes edges (done ++ [node]) i ↔
      i ≠ node ∧ i ∈ nodes ∧ i ∉ done ∧ ∀ p, (p, i) ∈ edges → p ∈ done ∨ p = node := by
  simp only [Ready, mem_append, mem_singleton, not_or]
  tauto

/-- The count of a node's in-edges from unlisted nodes drops by one exactly if the node
listed next is its parent. -/
theorem countP_concat (hedges : edges.Nodup) (hnode : node ∉ done) (i : α) :
    edges.countP (fun e => e.2 = i ∧ e.1 ∉ done) =
      edges.countP (fun e => e.2 = i ∧ e.1 ∉ done ++ [node]) +
        if (node, i) ∈ edges then 1 else 0 := by
  have hsplit : ∀ e : α × α, (e.2 = i ∧ e.1 ∉ done) ↔
      (e.2 = i ∧ e.1 ∉ done ++ [node]) ∨ e = (node, i) := by
    rintro ⟨p, c⟩
    simp only [mem_append, mem_singleton, Prod.mk.injEq]
    constructor
    · rintro ⟨hc, hp⟩
      by_cases hpn : p = node
      · exact .inr ⟨hpn, hc⟩
      · exact .inl ⟨hc, by simp [hp, hpn]⟩
    · rintro (⟨hc, hp⟩ | ⟨rfl, rfl⟩)
      · exact ⟨hc, fun hmem => hp (.inl hmem)⟩
      · exact ⟨rfl, hnode⟩
  induction edges with
  | nil => simp
  | cons e edges ih =>
    obtain ⟨he, hedges⟩ := nodup_cons.1 hedges
    have hrest := ih hedges
    have hcons := hsplit e
    rw [countP_cons, countP_cons, hrest]
    by_cases heq : e = (node, i)
    · subst heq
      simp [he, hnode]
    simp only [heq, or_false] at hcons
    simp only [hcons, mem_cons, Ne.symm heq, false_or]
    omega

/-- `children` lists the targets of a node's out-edges. -/
def Children (edges : List (α × α)) (children : α → List α) : Prop :=
  ∀ p, children p = (edges.filter (fun e => e.1 = p)).map (·.2)

theorem Children.mem (hchildren : Children edges children) :
    c ∈ children p ↔ (p, c) ∈ edges := by
  rw [hchildren]
  simp

theorem Children.nodup (hchildren : Children edges children) (hedges : edges.Nodup) (p : α) :
    (children p).Nodup := by
  rw [hchildren]
  apply List.Nodup.map_on _ (hedges.filter _)
  rintro ⟨p₁, c₁⟩ h₁ ⟨p₂, c₂⟩ h₂ hc
  simp only [mem_filter, decide_eq_true_eq] at h₁ h₂ hc
  simp [h₁.2, h₂.2, hc]

variable {s}

/-- Listing a ready node keeps what the loop keeps. -/
theorem Progress.visit (hchildren : Children edges children) (hedges : edges.Nodup)
    (hnodes : ∀ e ∈ edges, e.2 ∈ nodes) (hs : Progress nodes edges s)
    (hnode : node ∈ s.frontier) : Progress nodes edges (visit children s node) := by
  obtain ⟨hmem, hfresh, hparents⟩ := (hs.mem_frontier node).1 hnode
  have hperm := perm_insertionSort (· ≤ ·) (children node)
  have hcs := hperm.nodup_iff.2 (hchildren.nodup hedges node)
  have hmemcs : ∀ i, i ∈ (children node).insertionSort (· ≤ ·) ↔ (node, i) ∈ edges :=
    fun i => hperm.mem_iff.trans hchildren.mem
  have horder := order_visit children s node
  obtain ⟨hindegree, hfrontier⟩ := foldl_release
    { s with frontier := s.frontier.erase node, order := s.order ++ [node] } hcs
  have hcount : ∀ i, s.indegree i =
      edges.countP (fun e => e.2 = i ∧ e.1 ∉ s.order ++ [node]) +
        if (node, i) ∈ edges then 1 else 0 :=
    fun i => (hs.indegree i).trans (countP_concat hedges hfresh i)
  have hzero : ∀ i, edges.countP (fun e => e.2 = i ∧ e.1 ∉ s.order ++ [node]) = 0 ↔
      ∀ p, (p, i) ∈ edges → p ∈ s.order ∨ p = node := by
    intro i
    simp only [countP_eq_zero, mem_append, mem_singleton, decide_eq_true_eq,
      not_and, not_not, Prod.forall]
    constructor
    · exact fun hall p hp => hall p i hp rfl
    · rintro hall p c hp rfl
      exact hall p hp
  have hself : (node, node) ∉ edges := fun hloop => hfresh (hparents node hloop)
  constructor
  · intro p i hedge hi
    rw [horder] at hi ⊢
    rcases mem_append.1 hi with hold | hnew
    · exact mem_append_left _ (hs.closed p i hedge hold)
    rw [mem_singleton.1 hnew] at hedge
    exact mem_append_left _ (hparents p hedge)
  · -- A node that becomes ready now was not in the frontier: it still waited for `node`.
    apply hfrontier.nodup_iff.2
    apply List.Nodup.append (hcs.filter _) (hs.nodup.erase node)
    intro i hi hold
    obtain ⟨hi, _⟩ := mem_filter.1 hi
    have hready := (hs.mem_frontier i).1 (mem_of_mem_erase hold)
    exact hfresh (hready.2.2 node ((hmemcs i).1 hi))
  · intro i
    rw [horder]
    unfold TopoSort.visit
    rw [hfrontier.mem_iff, ready_concat, mem_append, mem_filter, hmemcs,
      hs.nodup.mem_erase_iff, hs.mem_frontier]
    simp only [decide_eq_true_eq]
    constructor
    · rintro (⟨hchild, hready⟩ | ⟨hne, hready⟩)
      · have hall : edges.countP (fun e => e.2 = i ∧ e.1 ∉ s.order ++ [node]) = 0 := by
          have := hcount i
          simp only [hchild, if_true] at this
          omega
        refine ⟨fun heq => hself (heq ▸ hchild), hnodes _ hchild, ?_, (hzero i).1 hall⟩
        exact fun hi => hfresh (hs.closed node i hchild hi)
      · exact ⟨hne, hready.1, hready.2.1, fun p hp => .inl (hready.2.2 p hp)⟩
    · rintro ⟨hne, hin, hnew, hall⟩
      by_cases hchild : (node, i) ∈ edges
      · left
        have := hcount i
        have := (hzero i).2 hall
        simp only [hchild, if_true] at *
        exact ⟨trivial, by omega⟩
      · right
        refine ⟨hne, hin, hnew, fun p hp => (hall p hp).resolve_right ?_⟩
        rintro rfl
        exact hchild hp
  · intro i
    rw [horder]
    unfold TopoSort.visit
    rw [hindegree]
    have := hcount i
    by_cases hchild : (node, i) ∈ edges
    · simp only [hmemcs, hchild, if_true] at this ⊢
      simp only [this, Nat.add_sub_cancel]
    simp only [hmemcs, hchild, if_false] at this ⊢
    simpa using this

def unlisted (nodes : List α) (s : Sorting α) : List α :=
  nodes.filter (· ∉ s.order)

theorem length_unlisted_visit (hmem : node ∈ nodes) (hfresh : node ∉ s.order) :
    (unlisted nodes (visit children s node)).length < (unlisted nodes s).length := by
  have hshrinks : unlisted nodes (visit children s node) =
      (unlisted nodes s).filter (· ≠ node) := by
    unfold unlisted
    rw [filter_filter, order_visit]
    apply filter_congr
    intro i _
    simp [and_comm]
  rw [hshrinks]
  apply length_filter_lt_length_iff_exists.2
  exact ⟨node, by simp [unlisted, hmem, hfresh], by simp⟩

/-- A run goes on listing the least ready node, and with fuel for every node that is left it
ends when no node is ready. -/
theorem Progress.run (hchildren : Children edges children) (hedges : edges.Nodup)
    (hnodes : ∀ e ∈ edges, e.2 ∈ nodes) (hs : Progress nodes edges s)
    (hfuel : (unlisted nodes s).length ≤ fuel) :
    Progress nodes edges (run children fuel s) ∧ (run children fuel s).frontier = [] ∧
      ∃ more, (run children fuel s).order = s.order ++ more ∧
        LeastFirst nodes edges s.order more := by
  induction fuel generalizing s with
  | zero =>
    have hnone : s.frontier = [] := by
      apply eq_nil_iff_forall_not_mem.2
      intro i hi
      obtain ⟨hmem, hfresh, _⟩ := (hs.mem_frontier i).1 hi
      have hleft : i ∈ unlisted nodes s := by simp [unlisted, hmem, hfresh]
      rw [length_eq_zero_iff.1 (Nat.le_zero.1 hfuel)] at hleft
      exact absurd hleft (by simp)
    exact ⟨hs, hnone, [], by simp [TopoSort.run], trivial⟩
  | succ fuel ih =>
    cases hmin : s.frontier.min? with
    | none =>
      have hnone := List.min?_eq_none_iff.1 hmin
      simp only [TopoSort.run, hmin]
      exact ⟨hs, hnone, [], by simp, trivial⟩
    | some node =>
      obtain ⟨hnode, hleast⟩ := List.min?_eq_some_iff.1 hmin
      have hready := (hs.mem_frontier node).1 hnode
      have hshort : (unlisted nodes (TopoSort.visit children s node)).length <
          (unlisted nodes s).length := length_unlisted_visit hready.1 hready.2.1
      obtain ⟨hprogress, hempty, more, horder, hmore⟩ :=
        ih (hs.visit hchildren hedges hnodes hnode) (by omega)
      rw [order_visit] at horder hmore
      simp only [TopoSort.run, hmin]
      refine ⟨hprogress, hempty, node :: more, by simp [horder], hready, ?_, hmore⟩
      exact fun j hj => hleast j ((hs.mem_frontier j).2 hj)

omit [LinearOrder α] in
/-- In an acyclic graph some unlisted node is ready as long as there is one. -/
theorem exists_ready (hacyclic : Acyclic edges) (hnodes : ∀ e ∈ edges, e.1 ∈ nodes)
    (hi : i ∈ nodes) (hleft : i ∉ done) :
    ∃ j, Ready nodes edges done j := by
  let Left := {j // j ∈ nodes ∧ j ∉ done}
  let before : Left → Left → Prop :=
    fun a b => TransGen (fun p c => (p, c) ∈ edges) a.1 b.1
  have hfinite : Finite Left :=
    ((finite_toSet nodes).subset fun _ hj => hj.1).to_subtype
  have htrans : IsTrans Left before := ⟨fun _ _ _ hab hbc => hab.trans hbc⟩
  have hirrefl : Std.Irrefl before := ⟨fun a => hacyclic a.1⟩
  have hwf : WellFounded before := Finite.wellFounded_of_trans_of_irrefl before
  obtain ⟨⟨j, hmem, hfresh⟩, _, hfirst⟩ := hwf.has_min Set.univ ⟨⟨i, hi, hleft⟩, trivial⟩
  refine ⟨j, hmem, hfresh, fun p hp => ?_⟩
  by_contra hnot
  exact hfirst ⟨p, hnodes _ hp, hnot⟩ trivial (.single hp)

variable {done more : List α} (hmore : LeastFirst nodes edges done more)

include hmore

theorem LeastFirst.nodup (hdone : done.Nodup) : (done ++ more).Nodup := by
  induction more generalizing done with
  | nil => simpa using hdone
  | cons i rest ih =>
    obtain ⟨⟨_, hfresh, _⟩, _, hrest⟩ := hmore
    have hnext : (done ++ [i]).Nodup := by
      apply List.Nodup.append hdone (nodup_singleton i)
      simpa using hfresh
    simpa using ih hrest hnext

theorem LeastFirst.subset : more ⊆ nodes := by
  induction more generalizing done with
  | nil => simp
  | cons i rest ih =>
    obtain ⟨⟨hmem, _⟩, _, hrest⟩ := hmore
    exact cons_subset.2 ⟨hmem, ih hrest⟩

/-- In a listing that takes ready nodes only, every edge points forward. -/
theorem LeastFirst.forward {p c : α} (hedge : (p, c) ∈ edges) (hc : c ∈ more) (hfresh : c ∉ done) :
    (done ++ more).idxOf p < (done ++ more).idxOf c := by
  induction more generalizing done with
  | nil => simp at hc
  | cons i rest ih =>
    obtain ⟨⟨_, _, hparents⟩, _, hrest⟩ := hmore
    by_cases heq : c = i
    · subst heq
      exact (idxOf_lt_iff_mem hfresh).2 (hparents p hedge)
    have hlater := ih hrest ((mem_cons.1 hc).resolve_left heq) (by simp [hfresh, heq])
    simpa using hlater

/-- Taking the least ready node each time gives the first of all topological orders. -/
theorem LeastFirst.le {other : List α} (hother : IsTopological nodes edges (done ++ other))
    (hnodup : nodes.Nodup) : more ≤ other := by
  induction more generalizing done other with
  | nil =>
    cases other with
    | nil => exact le_rfl
    | cons j other => exact le_of_lt List.Lex.nil
  | cons i rest ih =>
    obtain ⟨hready, hleast, hrest⟩ := hmore
    cases other with
    | nil =>
      have hmem := hother.1.mem_iff.2 hready.1
      exact absurd (by simpa using hmem) hready.2.1
    | cons j other =>
      have hall := hother.1.nodup_iff.2 hnodup
      have hj : Ready nodes edges done j := by
        have hfresh : j ∉ done := fun hj =>
          (nodup_append.1 hall).2.2 j hj j (by simp) rfl
        refine ⟨hother.1.mem_iff.1 (by simp), hfresh, fun p hp => ?_⟩
        exact (idxOf_lt_iff_mem hfresh).1 (hother.2 p j hp)
      rcases lt_or_eq_of_le (hleast j hj) with hlt | heq
      · exact le_of_lt (List.Lex.rel hlt)
      subst heq
      exact cons_le_cons i (ih hrest (by simpa using hother))

end Steps

def sort (nodes : List α) (indegree : α → Nat) (children : α → List α) : Sorting α :=
  run children nodes.length
    { indegree, frontier := nodes.filter (fun i => indegree i = 0), order := [] }

section Whole

variable {indegree : α → Nat}

/-- The sort lists every node exactly on an acyclic graph, and then the order is the first
of all topological ones. -/
theorem sort_spec (hnodup : nodes.Nodup) (hedges : edges.Nodup)
    (hnodes : ∀ e ∈ edges, e.1 ∈ nodes ∧ e.2 ∈ nodes)
    (hindegree : ∀ i, indegree i = edges.countP fun e => e.2 = i)
    (hchildren : Children edges children) :
    ((sort nodes indegree children).order.length = nodes.length ↔ Acyclic edges) ∧
    ((sort nodes indegree children).order.length = nodes.length →
      IsLeast nodes edges (sort nodes indegree children).order) := by
  have hstart : Progress nodes edges
      { indegree, frontier := nodes.filter (fun i => indegree i = 0), order := [] } := by
    constructor
    · simp
    · exact hnodup.filter _
    · intro i
      simp only [mem_filter, decide_eq_true_eq, hindegree, countP_eq_zero, Ready,
        not_mem_nil, not_false_eq_true, true_and, Prod.forall]
      constructor
      · exact fun ⟨hi, hall⟩ => ⟨hi, fun p hp => hall p i hp rfl⟩
      · rintro ⟨hi, hall⟩
        refine ⟨hi, fun p c hp hc => ?_⟩
        exact hall p (hc ▸ hp)
    · simpa using hindegree
  have hfuel : (unlisted nodes
      { indegree, frontier := nodes.filter (fun i => indegree i = 0), order := [] }).length ≤
        nodes.length := length_filter_le _ _
  obtain ⟨hprogress, hempty, more, horder, hmore⟩ :=
    hstart.run hchildren hedges (fun e he => (hnodes e he).2) hfuel
  change (sort nodes indegree children).order = _ at horder
  rw [nil_append] at horder
  have hlisted := hmore.nodup nodup_nil
  rw [nil_append] at hlisted
  have hperm : (sort nodes indegree children).order.length = nodes.length → more.Perm nodes := by
    intro hlength
    rw [horder] at hlength
    exact (hlisted.subperm hmore.subset).perm_of_length_le hlength.ge
  have hleast : (sort nodes indegree children).order.length = nodes.length →
      IsLeast nodes edges (sort nodes indegree children).order := by
    intro hlength
    rw [horder]
    refine ⟨⟨hperm hlength, fun p c hedge => ?_⟩, fun other hother => hmore.le hother hnodup⟩
    have hc := (hperm hlength).mem_iff.2 (hnodes _ hedge).2
    simpa using hmore.forward hedge hc (by simp)
  refine ⟨⟨fun hlength => (hleast hlength).1.acyclic, fun hacyclic => ?_⟩, hleast⟩
  have hevery : nodes ⊆ more := by
    intro i hi
    by_contra hleft
    rw [← horder] at hleft
    obtain ⟨j, hj⟩ := exists_ready hacyclic (fun e he => (hnodes e he).1) hi hleft
    have hwaits := (hprogress.mem_frontier j).2 hj
    rw [hempty] at hwaits
    exact absurd hwaits (by simp)
  rw [horder]
  exact le_antisymm (hlisted.subperm hmore.subset).length_le (hnodup.subperm hevery).length_le

end Whole

end Kortecx.Lib.TopoSort
