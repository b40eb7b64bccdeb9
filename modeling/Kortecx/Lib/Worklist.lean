import Mathlib.Data.List.Nodup
import Mathlib.Data.List.Sublists
import Mathlib.Logic.Relation

/-!
Breadth-first search over a relation given by lists of successors. Everything found is
queued once; the search is given fuel, and enough of it if the successors all come from a
list of that length. Then what it finds is exactly what can be reached.
-/

namespace Kortecx.Lib.Worklist

open List Function Relation

variable {α : Type} [DecidableEq α]

/-- The items of a list that were not found before, each once, in order. -/
def fresh (found : List α) : List α → List α
  | [] => []
  | x :: xs => if x ∈ found then fresh found xs else x :: fresh (found ++ [x]) xs

/-- Take an item off the queue, find its successors and queue those that are new. -/
def search (succ : α → List α) : Nat → List α → List α → List α
  | 0, _, found => found
  | _ + 1, [], found => found
  | fuel + 1, x :: queue, found =>
    search succ fuel (queue ++ fresh found (succ x)) (found ++ fresh found (succ x))

/-- One turn of the loop, on the queue and what was found; an empty queue ends it. -/
def turn (succ : α → List α) : List α × List α → List α × List α
  | ([], found) => ([], found)
  | (x :: queue, found) =>
    (queue ++ fresh found (succ x), found ++ fresh found (succ x))

/-- The items found from `root`, in the order in which they are found. The root itself is
among them only if it is its own successor's successor. -/
def reached (succ : α → List α) (bound : Nat) (root : α) : List α :=
  search succ (bound + 1) [root] []

section Fresh

variable {found xs : List α} {y : α}

theorem mem_fresh : y ∈ fresh found xs ↔ y ∈ xs ∧ y ∉ found := by
  induction xs generalizing found with
  | nil => simp [fresh]
  | cons x xs ih =>
    unfold fresh
    split
    · rename_i hx
      rw [ih, mem_cons]
      constructor
      · exact fun h => ⟨.inr h.1, h.2⟩
      · rintro ⟨rfl | hy, hnew⟩
        · exact absurd hx hnew
        · exact ⟨hy, hnew⟩
    · rename_i hx
      rw [mem_cons, ih, mem_cons, mem_append, mem_singleton]
      by_cases hyx : y = x
      · simp [hyx, hx]
      · simp [hyx]

theorem nodup_append_fresh (hnodup : found.Nodup) : (found ++ fresh found xs).Nodup := by
  induction xs generalizing found with
  | nil => simpa [fresh] using hnodup
  | cons x xs ih =>
    unfold fresh
    split
    · exact ih hnodup
    rename_i hx
    have hgrown : (found ++ [x]).Nodup :=
      hnodup.append (nodup_singleton x) (by simpa using hx)
    have hrest := ih hgrown
    rwa [append_assoc, singleton_append] at hrest

end Fresh

variable {succ : α → List α} {nodes : List α}

theorem iterate_turn_nil (turns : Nat) (found : List α) :
    (turn succ)^[turns] ([], found) = ([], found) :=
  iterate_fixed rfl turns

/-- The search is the loop run for as many turns as it has fuel. -/
theorem iterate_turn_snd (fuel : Nat) (queue found : List α) :
    ((turn succ)^[fuel] (queue, found)).2 = search succ fuel queue found := by
  induction fuel generalizing queue found with
  | zero => rfl
  | succ fuel ih =>
    cases queue with
    | nil => rw [iterate_turn_nil, search]
    | cons x queue =>
      rw [iterate_succ_apply]
      exact ih _ _

variable {fuel : Nat} {found : List α}

theorem nodup_search (hnodup : found.Nodup) :
    (search succ fuel queue found).Nodup := by
  induction fuel generalizing queue found with
  | zero => exact hnodup
  | succ fuel ih =>
    cases queue with
    | nil => exact hnodup
    | cons x queue => exact ih (nodup_append_fresh hnodup)

variable {queue : List α}

/-- What is found can be reached. -/
theorem mem_search_sound {R : α → Prop}
    (hstep : ∀ x, ∀ y ∈ succ x, (x ∈ queue ∨ R x) → R y) (hfound : ∀ x ∈ found, R x) :
    ∀ y ∈ search succ fuel queue found, R y := by
  induction fuel generalizing queue found with
  | zero => exact hfound
  | succ fuel ih =>
    cases queue with
    | nil => exact hfound
    | cons x queue =>
      have hnew : ∀ y ∈ fresh found (succ x), R y := fun y hy =>
        hstep x y (mem_fresh.1 hy).1 (.inl mem_cons_self)
      apply ih
      · intro z y hy hz
        rcases hz with hz | hz
        · rcases mem_append.1 hz with hz | hz
          · exact hstep z y hy (.inl (mem_cons_of_mem x hz))
          · exact hstep z y hy (.inr (hnew z hz))
        · exact hstep z y hy (.inr hz)
      · intro y hy
        rcases mem_append.1 hy with hy | hy
        · exact hfound y hy
        · exact hnew y hy

theorem subset_search : found ⊆ search succ fuel queue found := by
  induction fuel generalizing queue found with
  | zero => exact Subset.refl _
  | succ fuel ih =>
    cases queue with
    | nil => exact Subset.refl _
    | cons x queue => exact fun y hy => ih (mem_append_left _ hy)

variable (hsucc : ∀ x, ∀ y ∈ succ x, y ∈ nodes)

include hsucc

/-- Taking an item off the queue pays for a turn: only finding something new queues more,
and no more can be found than there is. -/
theorem fuel_turn (hnodup : found.Nodup) (hwithin : found ⊆ nodes)
    (hfuel : (x :: queue).length + (nodes.length - found.length) ≤ fuel + 1) :
    found ++ fresh found (succ x) ⊆ nodes ∧
      (queue ++ fresh found (succ x)).length +
        (nodes.length - (found ++ fresh found (succ x)).length) ≤ fuel := by
  have hfresh : fresh found (succ x) ⊆ nodes := fun y hy => hsucc x y (mem_fresh.1 hy).1
  have hwithin' : found ++ fresh found (succ x) ⊆ nodes :=
    append_subset.2 ⟨hwithin, hfresh⟩
  have hlength := ((nodup_append_fresh hnodup).subperm hwithin').length_le
  simp only [length_append, length_cons] at hlength hfuel ⊢
  exact ⟨hwithin', by omega⟩

/-- With enough turns the queue runs empty. -/
theorem iterate_turn_fst (hnodup : found.Nodup) (hwithin : found ⊆ nodes)
    (hfuel : queue.length + (nodes.length - found.length) ≤ fuel) :
    ((turn succ)^[fuel] (queue, found)).1 = [] := by
  induction fuel generalizing queue found with
  | zero =>
    have hempty : queue.length = 0 := by omega
    exact length_eq_zero_iff.1 hempty
  | succ fuel ih =>
    cases queue with
    | nil => rw [iterate_turn_nil]
    | cons x queue =>
      rw [iterate_succ_apply]
      obtain ⟨hwithin', hfuel'⟩ := fuel_turn hsucc hnodup hwithin hfuel
      exact ih (nodup_append_fresh hnodup) hwithin' hfuel'

/-- With enough fuel the search finds the successors of everything that was queued or
found. -/
theorem search_closed (hnodup : found.Nodup) (hwithin : found ⊆ nodes)
    (hfuel : queue.length + (nodes.length - found.length) ≤ fuel)
    (hprocessed : ∀ x ∈ found, x ∈ queue ∨ ∀ y ∈ succ x, y ∈ found) :
    ∀ x, x ∈ queue ∨ x ∈ search succ fuel queue found →
      ∀ y ∈ succ x, y ∈ search succ fuel queue found := by
  -- what was queued or found is still queued, or its successors are found
  let Processed (st : List α × List α) : Prop :=
    ∀ x, x ∈ queue ∨ x ∈ st.2 → x ∈ st.1 ∨ ∀ y ∈ succ x, y ∈ st.2
  have hstart : Processed (queue, found) := by
    rintro x (hx | hx)
    · exact .inl hx
    · exact hprocessed x hx
  have hturn : ∀ st, Processed st → Processed (turn succ st) := by
    rintro ⟨_ | ⟨z, rest⟩, seen⟩ hseen x hx
    · exact hseen x hx
    simp only [turn, mem_append, mem_fresh] at hx ⊢
    by_cases hnew : x ∈ succ z ∧ x ∉ seen
    · exact .inl (.inr hnew)
    rcases hseen x (by tauto) with hqueued | hdone
    · rcases mem_cons.1 hqueued with rfl | hrest
      · exact .inr fun y hy => (Classical.em (y ∈ seen)).imp_right fun hnot => ⟨hy, hnot⟩
      · exact .inl (.inl hrest)
    · exact .inr fun y hy => .inl (hdone y hy)
  have hdone : Processed ((turn succ)^[fuel] (queue, found)) :=
    Iterate.rec Processed hstart hturn fuel
  have hempty := iterate_turn_fst hsucc hnodup hwithin hfuel
  rw [← iterate_turn_snd]
  intro x hx
  rcases hdone x hx with hqueued | hfound
  · rw [hempty] at hqueued
    cases hqueued
  · exact hfound

/-- The search finds what can be reached from the root in one step or more. -/
theorem mem_search_root {root y : α} (hfuel : nodes.length + 1 ≤ fuel) :
    y ∈ search succ fuel [root] [] ↔ TransGen (fun a b => b ∈ succ a) root y := by
  constructor
  · refine mem_search_sound (R := fun y => TransGen (fun a b => b ∈ succ a) root y)
      ?_ (by simp) y
    rintro x y hy (hx | hx)
    · rw [mem_singleton.1 hx] at hy
      exact .single hy
    · exact hx.tail hy
  · have hclosed : ∀ x, x ∈ [root] ∨ x ∈ search succ fuel [root] [] →
        ∀ y ∈ succ x, y ∈ search succ fuel [root] [] :=
      search_closed hsucc nodup_nil (by simp) (by simp; omega) (by simp)
    intro hreach
    induction hreach with
    | single hy => exact hclosed root (.inl (by simp)) _ hy
    | tail _ hy ih => exact hclosed _ (.inr ih) _ hy

end Kortecx.Lib.Worklist
