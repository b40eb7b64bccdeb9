import Mathlib.Tactic

/-!
A graph is stored child by child, each child with the list of its edges to parents.
A reverse index answers the opposite question, a parent's children, and is kept up
to date one child at a time: the edges a child had are taken out, the edges it now
has are put in.

Such an index is determined by what it says of each pair of a parent and a child, so
the one kept up to date and the one built from nothing are equal, not only equivalent.
-/

namespace Kortecx.Lib

open List Std Function

section Fibres

variable {κ ε : Type} [Ord κ]

theorem isLE_of_not_isLE [TransOrd κ] {a b : κ} (hgt : ¬ (compare a b).isLE) :
    (compare b a).isLE := by
  have hswap : compare b a = (compare a b).swap := OrientedCmp.eq_swap
  rw [hswap, Ordering.isLE_swap]
  cases hcmp : compare a b <;> simp_all

theorem eq_of_isLE [TransOrd κ] [LawfulEqOrd κ] {a b : κ} (hab : (compare a b).isLE)
    (hba : (compare b a).isLE) : a = b := by
  have hswap : compare b a = (compare a b).swap := OrientedCmp.eq_swap
  have hcmp : compare a b = .eq := by
    rw [hswap, Ordering.isLE_swap] at hba
    cases hcmp : compare a b <;> simp_all
  exact LawfulEqCmp.eq_of_compare hcmp

def SortedByKey (l : List (κ × ε)) : Prop :=
  l.Pairwise fun a b => (compare a.1 b.1).isLE

/-- The index of the first item that fails `p`, on a list whose items satisfying `p`
come first. -/
def partitionPoint {α : Type} (p : α → Bool) (l : List α) : Nat :=
  (l.takeWhile p).length

/-- Put an entry behind every entry whose key is not larger. -/
def insertSorted (k : κ) (e : ε) (l : List (κ × ε)) : List (κ × ε) :=
  l.insertIdx (partitionPoint (fun probe => (compare probe.1 k).isLE) l) (k, e)

variable (k : κ)

theorem insertSorted_nil (e : ε) : insertSorted k e [] = [(k, e)] := rfl

variable {k}

theorem insertSorted_cons_of_le {a : κ × ε}
    (hle : (compare a.1 k).isLE) : insertSorted k e (a :: l) = a :: insertSorted k e l := by
  unfold insertSorted partitionPoint
  rw [takeWhile_cons_of_pos (p := fun probe : κ × ε => (compare probe.1 k).isLE) hle]
  rfl

theorem insertSorted_cons_of_gt {a : κ × ε}
    (hgt : ¬ (compare a.1 k).isLE) : insertSorted k e (a :: l) = (k, e) :: a :: l := by
  unfold insertSorted partitionPoint
  rw [takeWhile_cons_of_neg (p := fun probe : κ × ε => (compare probe.1 k).isLE) hgt]
  rfl

variable {l : List (κ × ε)}

theorem insertSorted_eq_append {e : ε}
    (hle : ∀ a ∈ l, (compare a.1 k).isLE) : insertSorted k e l = l ++ [(k, e)] := by
  induction l with
  | nil => rfl
  | cons a l ih =>
    rw [insertSorted_cons_of_le (hle a mem_cons_self),
      ih fun b hb => hle b (mem_cons_of_mem a hb), cons_append]

theorem mem_insertSorted :
    a ∈ insertSorted k e l ↔ a = (k, e) ∨ a ∈ l := by
  have hpos : partitionPoint (fun probe => (compare probe.1 k).isLE) l ≤ l.length :=
    (takeWhile_sublist _).length_le
  exact mem_insertIdx hpos

theorem SortedByKey.insertSorted [TransOrd κ] {e : ε}
    (hl : SortedByKey l) : SortedByKey (insertSorted k e l) := by
  induction l with
  | nil => exact pairwise_singleton _ _
  | cons a l ih =>
    obtain ⟨ha, hl⟩ := pairwise_cons.mp hl
    by_cases hle : (compare a.1 k).isLE
    · rw [insertSorted_cons_of_le hle]
      apply pairwise_cons.mpr
      refine ⟨?_, ih hl⟩
      intro b hb
      rcases mem_insertSorted.mp hb with rfl | hb
      · exact hle
      · exact ha b hb
    · rw [insertSorted_cons_of_gt hle]
      have hka : (compare k a.1).isLE := isLE_of_not_isLE hle
      apply pairwise_cons.mpr
      refine ⟨?_, pairwise_cons.mpr ⟨ha, hl⟩⟩
      intro b hb
      rcases mem_cons.mp hb with rfl | hb
      · exact hka
      · exact TransCmp.isLE_trans hka (ha b hb)

variable [DecidableEq κ]

/-- What a list of keyed entries holds under one key, in order. -/
def fibre (k : κ) (l : List (κ × ε)) : List ε :=
  (l.filter fun a => a.1 = k).map (·.2)

omit [Ord κ] in
@[simp]
theorem fibre_nil : fibre k ([] : List (κ × ε)) = [] := rfl

omit [Ord κ] in
theorem fibre_cons (a : κ × ε) (l : List (κ × ε)) :
    fibre k (a :: l) = if a.1 = k then a.2 :: fibre k l else fibre k l := by
  unfold fibre
  rw [filter_cons]
  by_cases ha : a.1 = k <;> simp [ha]

omit [Ord κ] in
theorem fibre_ne_nil : fibre k l ≠ [] ↔ ∃ e, (k, e) ∈ l := by
  unfold fibre
  rw [Ne, map_eq_nil_iff, filter_eq_nil_iff]
  simp

omit [Ord κ] in
theorem fibre_filter_ne (c : κ) (l : List (κ × ε)) :
    fibre k (l.filter fun a => a.1 ≠ c) = if k = c then [] else fibre k l := by
  unfold fibre
  rw [filter_filter]
  split
  case isTrue hkc =>
      subst hkc
      simp
  case isFalse hkc =>
      congr 1
      apply filter_congr
      intro a _
      by_cases ha : a.1 = k <;> simp [ha, hkc]

theorem fibre_insertSorted [TransOrd κ] (hl : SortedByKey l) :
    fibre k (insertSorted c e l) = if k = c then fibre k l ++ [e] else fibre k l := by
  induction l with
  | nil =>
    rw [insertSorted_nil, fibre_cons, fibre_nil]
    by_cases hkc : k = c
    · simp [hkc]
    · simp [hkc, Ne.symm hkc]
  | cons a l ih =>
    obtain ⟨ha, hl⟩ := pairwise_cons.mp hl
    by_cases hle : (compare a.1 c).isLE
    · rw [insertSorted_cons_of_le hle, fibre_cons, fibre_cons, ih hl]
      split <;> split <;> rfl
    rw [insertSorted_cons_of_gt hle, fibre_cons]
    by_cases hkc : k = c
    · subst hkc
      -- Every key from here on is larger, so nothing of this key is left.
      have hnone : fibre k (a :: l) = [] := by
        by_contra hsome
        obtain ⟨e', he'⟩ := fibre_ne_nil.mp hsome
        rcases mem_cons.mp he' with rfl | he'
        · exact hle (by simp)
        · exact hle (ha _ he')
      simp [hnone]
    · rw [if_neg (Ne.symm hkc), if_neg hkc]

/-- A list sorted by key is determined by what it holds under each key. -/
theorem SortedByKey.eq_of_fibre [TransOrd κ] [LawfulEqOrd κ] {l l' : List (κ × ε)}
    (hl : SortedByKey l) (hl' : SortedByKey l') (hfibre : ∀ k, fibre k l = fibre k l') :
    l = l' := by
  induction l generalizing l' with
  | nil =>
    cases l' with
    | nil => rfl
    | cons b l' =>
      have hb := hfibre b.1
      rw [fibre_nil, fibre_cons, if_pos rfl] at hb
      cases hb
  | cons a l ih =>
    obtain ⟨ha, hl⟩ := pairwise_cons.mp hl
    cases l' with
    | nil =>
      have ha := hfibre a.1
      rw [fibre_nil, fibre_cons, if_pos rfl] at ha
      cases ha
    | cons b l' =>
      obtain ⟨hb, hl'⟩ := pairwise_cons.mp hl'
      -- Each head's key occurs in the other list, so neither is the larger.
      have hab : (compare a.1 b.1).isLE := by
        have hmem : fibre b.1 (a :: l) ≠ [] := by
          rw [hfibre, fibre_cons, if_pos rfl]
          exact cons_ne_nil _ _
        obtain ⟨e, he⟩ := fibre_ne_nil.mp hmem
        rcases mem_cons.mp he with heq | he
        · simp [← heq]
        · exact ha (b.1, e) he
      have hba : (compare b.1 a.1).isLE := by
        have hmem : fibre a.1 (b :: l') ≠ [] := by
          rw [← hfibre, fibre_cons, if_pos rfl]
          exact cons_ne_nil _ _
        obtain ⟨e, he⟩ := fibre_ne_nil.mp hmem
        rcases mem_cons.mp he with heq | he
        · simp [← heq]
        · exact hb (a.1, e) he
      have hkey : a.1 = b.1 := eq_of_isLE hab hba
      have hhead := hfibre b.1
      rw [fibre_cons, fibre_cons, if_pos hkey, if_pos rfl] at hhead
      have htail : ∀ k, fibre k l = fibre k l' := by
        intro k
        have hk := hfibre k
        rw [fibre_cons, fibre_cons, hkey] at hk
        split at hk
        · exact (List.cons.inj hk).2
        · exact hk
      rw [ih hl hl' htail, Prod.ext hkey (List.cons.inj hhead).1]

end Fibres

/-- The children of each parent, with the edge that leads to them. A parent without
children has no entry. -/
abbrev ReverseIndex (π κ ε : Type) [Ord π] [Ord κ] :=
  ExtTreeMap π (List (κ × ε))

namespace ReverseIndex

variable {π κ ε : Type} [Ord π] [TransOrd π] [Ord κ]

def childrenOf (idx : ReverseIndex π κ ε) (parent : π) : List (κ × ε) :=
  idx[parent]?.getD []

def insertEdge (idx : ReverseIndex π κ ε) (parent : π) (child : κ) (edge : ε) :
    ReverseIndex π κ ε :=
  idx.alter parent fun l => some (insertSorted child edge (l.getD []))

/-- Take all edges from `child` to `parent` out, and the parent's entry with the last. -/
def removeChild [DecidableEq κ] (idx : ReverseIndex π κ ε) (parent : π) (child : κ) :
    ReverseIndex π κ ε :=
  idx.alter parent fun
    | none => none
    | some l =>
      let rest := l.filter fun a => a.1 ≠ child
      if rest.isEmpty then none else some rest

/-- Replace the edges of one child. -/
def reindex [DecidableEq κ] (idx : ReverseIndex π κ ε) (child : κ) (old new : List (π × ε)) :
    ReverseIndex π κ ε :=
  new.foldl (fun idx edge => idx.insertEdge edge.1 child edge.2)
    (old.foldl (fun idx edge => idx.removeChild edge.1 child) idx)

/-- Put an edge at the end of its parent's list, whatever the list's order. -/
def pushEdge (idx : ReverseIndex π κ ε) (parent : π) (child : κ) (edge : ε) :
    ReverseIndex π κ ε :=
  idx.alter parent fun l => some (l.getD [] ++ [(child, edge)])

/-- Build the index from nothing: every edge of every child, then a stable sort of each
list by child. -/
def build (children : List κ) (parentsOf : κ → List (π × ε)) : ReverseIndex π κ ε :=
  let pushed : ReverseIndex π κ ε := children.foldl
    (fun idx child => (parentsOf child).foldl
      (fun idx edge => idx.pushEdge edge.1 child edge.2) idx) ∅
  pushed.map fun _ l => l.mergeSort fun a b => (compare a.1 b.1).isLE

/-- The index says of every parent and child that `edges parent child` lead from the one
to the other, in that order. -/
structure Represents [DecidableEq κ] (edges : π → κ → List ε) (idx : ReverseIndex π κ ε) :
    Prop where
  nonempty : ∀ parent : π, idx[parent]? ≠ some []
  sorted : ∀ parent, SortedByKey (idx.childrenOf parent)
  fibre : ∀ parent child, fibre child (idx.childrenOf parent) = edges parent child

theorem Represents.congr [DecidableEq κ] {edges edges' : π → κ → List ε}
    {idx : ReverseIndex π κ ε} (hidx : Represents edges idx)
    (hedges : ∀ p c, edges p c = edges' p c) : Represents edges' idx where
  nonempty := hidx.nonempty
  sorted := hidx.sorted
  fibre p c := (hidx.fibre p c).trans (hedges p c)

section Operations

variable [LawfulEqOrd π] [DecidableEq π] [DecidableEq κ]
  {idx : ReverseIndex π κ ε} {parent : π} {child : κ} {edge : ε}

omit [Ord κ] [DecidableEq κ] in
theorem getElem?_alter_eq {β : Type} (m : ExtTreeMap π β) (k k' : π) (f : Option β → Option β) :
    (m.alter k f)[k']? = if k = k' then f m[k]? else m[k']? := by
  rw [ExtTreeMap.getElem?_alter]
  simp

variable (parent' : π)

omit [DecidableEq κ] in
theorem childrenOf_insertEdge :
    (idx.insertEdge parent child edge).childrenOf parent' =
      if parent = parent' then insertSorted child edge (idx.childrenOf parent)
      else idx.childrenOf parent' := by
  unfold childrenOf insertEdge
  rw [getElem?_alter_eq]
  split <;> rfl

theorem childrenOf_removeChild :
    (idx.removeChild parent child).childrenOf parent' =
      if parent = parent' then (idx.childrenOf parent).filter fun a => a.1 ≠ child
      else idx.childrenOf parent' := by
  unfold childrenOf removeChild
  rw [getElem?_alter_eq]
  by_cases hparent : parent = parent'
  · rw [if_pos hparent, if_pos hparent]
    cases idx[parent]? with
    | none => rfl
    | some l =>
      by_cases hrest : (l.filter fun a => a.1 ≠ child).isEmpty
      · simp only [hrest, if_true, Option.getD_none, Option.getD_some]
        exact (isEmpty_iff.mp hrest).symm
      · simp only [hrest, Bool.false_eq_true, if_false, Option.getD_some]
  · rw [if_neg hparent, if_neg hparent]

omit [LawfulEqOrd π] [DecidableEq π] in
theorem Represents.empty : Represents (fun _ _ => []) (∅ : ReverseIndex π κ ε) where
  nonempty parent := by simp
  sorted parent := by
    rw [childrenOf, ExtTreeMap.getElem?_empty]
    exact List.Pairwise.nil
  fibre parent child := by
    rw [childrenOf, ExtTreeMap.getElem?_empty]
    rfl

variable [TransOrd κ] {edges : π → κ → List ε}

theorem Represents.insertEdge (hidx : Represents edges idx) (parent : π) (child : κ) (edge : ε) :
    Represents (fun p c => if p = parent ∧ c = child then edges p c ++ [edge] else edges p c)
      (idx.insertEdge parent child edge) where
  nonempty p := by
    unfold ReverseIndex.insertEdge
    rw [getElem?_alter_eq]
    split
    · intro hnil
      have hmem : (child, edge) ∈ insertSorted child edge (idx[parent]?.getD []) :=
        mem_insertSorted.mpr (.inl rfl)
      rw [Option.some.inj hnil] at hmem
      cases hmem
    · exact hidx.nonempty p
  sorted p := by
    rw [childrenOf_insertEdge]
    split
    · exact (hidx.sorted parent).insertSorted
    · exact hidx.sorted p
  fibre p c := by
    rw [childrenOf_insertEdge]
    by_cases hp : parent = p
    · subst hp
      rw [if_pos rfl, fibre_insertSorted (hidx.sorted parent), hidx.fibre]
      simp
    · rw [if_neg hp, if_neg fun h => hp h.1.symm, hidx.fibre]

omit [TransOrd κ] in
theorem Represents.removeChild (hidx : Represents edges idx) (parent : π) (child : κ) :
    Represents (fun p c => if p = parent ∧ c = child then [] else edges p c)
      (idx.removeChild parent child) where
  nonempty p := by
    unfold ReverseIndex.removeChild
    rw [getElem?_alter_eq]
    split
    · split
      · simp
      dsimp only
      split
      · simp
      rename_i hrest
      intro hnil
      exact hrest (isEmpty_iff.mpr (Option.some.inj hnil))
    · exact hidx.nonempty p
  sorted p := by
    rw [childrenOf_removeChild]
    split
    · exact (hidx.sorted parent).filter _
    · exact hidx.sorted p
  fibre p c := by
    rw [childrenOf_removeChild]
    by_cases hp : parent = p
    · subst hp
      rw [if_pos rfl, fibre_filter_ne, hidx.fibre]
      simp
    · rw [if_neg hp, if_neg fun h => hp h.1.symm, hidx.fibre]

omit [DecidableEq π] in
/-- Two indexes that say the same of every pair are equal. -/
theorem Represents.unique [LawfulEqOrd κ] {idx' : ReverseIndex π κ ε}
    (hidx : Represents edges idx) (hidx' : Represents edges idx') : idx = idx' := by
  apply ExtTreeMap.ext_getElem?
  intro p
  have hchildren : idx.childrenOf p = idx'.childrenOf p := by
    apply (hidx.sorted p).eq_of_fibre (hidx'.sorted p)
    intro c
    rw [hidx.fibre, hidx'.fibre]
  unfold childrenOf at hchildren
  have hp := hidx.nonempty p
  have hp' := hidx'.nonempty p
  cases h : idx[p]? with
  | none =>
    cases h' : idx'[p]? with
    | none => rfl
    | some l' =>
      rw [h, h'] at hchildren
      exact absurd (h'.trans (congrArg some hchildren.symm)) hp'
  | some l =>
    cases h' : idx'[p]? with
    | none =>
      rw [h, h'] at hchildren
      exact absurd (h.trans (congrArg some hchildren)) hp
    | some l' =>
      rw [h, h'] at hchildren
      exact congrArg some hchildren

end Operations

variable {parentsOf : κ → List (π × ε)}

section Reverse

variable [LawfulEqOrd π] [DecidableEq π] [TransOrd κ] [DecidableEq κ]
  {idx : ReverseIndex π κ ε} {edges : π → κ → List ε}

omit [TransOrd κ] in
theorem Represents.removeAll (hidx : Represents edges idx) (child : κ) (old : List (π × ε)) :
    Represents (fun p c => if c = child ∧ p ∈ old.map Prod.fst then [] else edges p c)
      (old.foldl (fun idx edge => idx.removeChild edge.1 child) idx) := by
  induction old generalizing idx edges with
  | nil => simpa using hidx
  | cons edge old ih =>
    apply (ih (hidx.removeChild edge.1 child)).congr
    intro p c
    grind

theorem Represents.insertAll (hidx : Represents edges idx) (child : κ) (new : List (π × ε)) :
    Represents (fun p c => if c = child then edges p c ++ Lib.fibre p new else edges p c)
      (new.foldl (fun idx edge => idx.insertEdge edge.1 child edge.2) idx) := by
  induction new generalizing idx edges with
  | nil => simpa using hidx
  | cons edge new ih =>
    apply (ih (hidx.insertEdge edge.1 child edge.2)).congr
    intro p c
    rw [fibre_cons]
    by_cases hc : c = child
    · by_cases hp : edge.1 = p
      · simp [hc, hp]
      · simp [hc, hp, Ne.symm hp]
    · simp [hc]

/-- The index is the reverse of `parentsOf`. -/
def Reverses (parentsOf : κ → List (π × ε)) (idx : ReverseIndex π κ ε) : Prop :=
  Represents (fun parent child => Lib.fibre parent (parentsOf child)) idx

/-- Replacing a child's edges keeps the index the reverse, provided the edges taken out
are those the child had. -/
theorem Reverses.reindex (hidx : Reverses parentsOf idx) (child : κ) (new : List (π × ε)) :
    Reverses (update parentsOf child new)
      (idx.reindex child (parentsOf child) new) := by
  apply ((Represents.removeAll hidx child (parentsOf child)).insertAll child new).congr
  intro p c
  by_cases hc : c = child
  · subst hc
    rw [update_self, if_pos rfl]
    have hold : (if c = c ∧ p ∈ (parentsOf c).map Prod.fst then []
        else Lib.fibre p (parentsOf c)) = [] := by
      rw [ite_eq_left_iff]
      intro hmem
      by_contra hsome
      obtain ⟨e, he⟩ := fibre_ne_nil.mp hsome
      exact hmem ⟨rfl, mem_map_of_mem he⟩
    rw [hold, nil_append]
  · rw [update_of_ne hc, if_neg hc, if_neg fun h => hc h.1]

end Reverse

section Build

variable [LawfulEqOrd π] [DecidableEq π] [TransOrd κ] [DecidableEq κ]
  {idx : ReverseIndex π κ ε} {edges : π → κ → List ε}

omit [DecidableEq κ] [TransOrd κ] in
theorem pushEdge_eq_insertEdge {parent : π} {child : κ} (edge : ε)
    (hle : ∀ a ∈ idx.childrenOf parent, (compare a.1 child).isLE) :
    idx.pushEdge parent child edge = idx.insertEdge parent child edge := by
  apply ExtTreeMap.ext_getElem?
  intro p
  unfold pushEdge insertEdge
  rw [getElem?_alter_eq, getElem?_alter_eq]
  have hinsert := insertSorted_eq_append (e := edge) hle
  unfold childrenOf at hinsert
  rw [hinsert]

/-- Children that come last in the order are pushed where they belong. -/
theorem Represents.pushAll (hidx : Represents edges idx) (new : List (π × ε))
    (hle : ∀ p c, edges p c ≠ [] → (compare c child).isLE) :
    Represents (fun p c => if c = child then edges p c ++ Lib.fibre p new else edges p c)
      (new.foldl (fun idx edge => idx.pushEdge edge.1 child edge.2) idx) := by
  suffices heq : new.foldl (fun idx edge => idx.pushEdge edge.1 child edge.2) idx =
      new.foldl (fun idx edge => idx.insertEdge edge.1 child edge.2) idx by
    rw [heq]
    exact hidx.insertAll child new
  induction new generalizing idx edges with
  | nil => rfl
  | cons edge new ih =>
    have hmem : ∀ a ∈ idx.childrenOf edge.1, (compare a.1 child).isLE := by
      intro a ha
      apply hle edge.1 a.1
      rw [← hidx.fibre]
      exact fibre_ne_nil.mpr ⟨a.2, ha⟩
    rw [foldl_cons, foldl_cons, pushEdge_eq_insertEdge edge.2 hmem]
    apply ih (hidx.insertEdge edge.1 child edge.2)
    intro p c hne
    by_cases hc : c = child
    · subst hc
      exact ReflCmp.isLE_rfl
    · exact hle p c (by simpa [hc] using hne)

variable {children : List κ}

theorem Represents.pushChildren
    (hchildren : children.Pairwise fun a b => compare a b = .lt) (hidx : Represents edges idx)
    (hlt : ∀ p c, edges p c ≠ [] → ∀ child ∈ children, compare c child = .lt) :
    Represents (fun p c => if c ∈ children then Lib.fibre p (parentsOf c) else edges p c)
      (children.foldl (fun idx child => (parentsOf child).foldl
        (fun idx edge => idx.pushEdge edge.1 child edge.2) idx) idx) := by
  induction children generalizing idx edges with
  | nil => simpa using hidx
  | cons child children ih =>
    obtain ⟨hchild, hchildren⟩ := pairwise_cons.mp hchildren
    have hpushed := hidx.pushAll (parentsOf child) fun p c hne => by
      rw [hlt p c hne child mem_cons_self]
      rfl
    have hown : ∀ p, edges p child = [] := by
      intro p
      by_contra hne
      have hself := hlt p child hne child mem_cons_self
      have hrefl : compare child child = .eq := ReflCmp.compare_self
      rw [hrefl] at hself
      cases hself
    apply (ih hchildren hpushed ?_).congr
    · intro p c
      by_cases hc : c = child
      · subst hc
        simp [hown p]
      · simp [hc]
    · intro p c hne later hlater
      by_cases hc : c = child
      · subst hc
        exact hchild later hlater
      rw [if_neg hc] at hne
      exact hlt p c hne later (mem_cons_of_mem child hlater)

omit [DecidableEq π] [TransOrd κ] in
theorem Represents.map_mergeSort (hidx : Represents edges idx) :
    idx.map (fun _ l => l.mergeSort fun a b => (compare a.1 b.1).isLE) = idx := by
  apply ExtTreeMap.ext_getElem?
  intro p
  rw [ExtTreeMap.getElem?_map]
  cases hp : idx[p]? with
  | none => rfl
  | some l =>
    have hl : SortedByKey l := by
      have hsorted := hidx.sorted p
      rwa [childrenOf, hp] at hsorted
    rw [Option.map_some, mergeSort_of_pairwise hl]

/-- The index built from nothing is the reverse of the edges it was built from. -/
theorem reverses_build (hchildren : children.Pairwise fun a b => compare a b = .lt)
    (hall : ∀ c, c ∉ children → parentsOf c = []) :
    Reverses parentsOf (build children parentsOf) := by
  have hpushed : Represents (fun p c => if c ∈ children then Lib.fibre p (parentsOf c) else [])
      _ := Represents.empty.pushChildren hchildren (by simp)
  unfold build
  rw [hpushed.map_mergeSort]
  apply hpushed.congr
  intro p c
  split
  · rfl
  rename_i hc
  rw [hall c hc, fibre_nil]

end Build

end ReverseIndex

end Kortecx.Lib
