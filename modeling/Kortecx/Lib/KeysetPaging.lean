import Mathlib.Data.List.Sort
import Mathlib.Tactic

/-!
Paging through rows by their key: a page holds the first rows, in key order, whose key
comes after a given one, and says whether there are more; the next page starts after the
last key of this one. Rows with distinct keys are then all seen, once and in order.
-/

namespace Kortecx.Lib

open List

section Paging

variable {α κ : Type} [LinearOrder κ] (key : α → κ)

def inKeyOrder (rows : List α) : List α :=
  rows.insertionSort fun a b => key a ≤ key b

/-- `WHERE key > after ORDER BY key LIMIT limit + 1`, of which the row over the limit only
tells that there are more. -/
def pageAfter (rows : List α) (limit : Nat) (after : κ) : List α × Bool :=
  let found := (inKeyOrder key (rows.filter fun row => after < key row)).take (limit + 1)
  (found.take limit, limit < found.length)

/-- The pages a caller gets who starts after `after` and goes on after the last key of each
page as long as there are more. -/
def pagesFrom (fetch : κ → List α × Bool) : Nat → κ → List (List α)
  | 0, _ => []
  | fuel + 1, after =>
    let page := fetch after
    match page.2, page.1.getLast? with
    | true, some last => page.1 :: pagesFrom fetch fuel (key last)
    | _, _ => [page.1]

variable {key} {rows : List α}

theorem inKeyOrder_perm (rows : List α) : (inKeyOrder key rows).Perm rows :=
  perm_insertionSort _ rows

theorem mem_inKeyOrder : row ∈ inKeyOrder key rows ↔ row ∈ rows :=
  (inKeyOrder_perm rows).mem_iff

/-- With distinct keys the order is strict. -/
theorem pairwise_inKeyOrder (hkeys : (rows.map key).Nodup) :
    (inKeyOrder key rows).Pairwise fun a b => key a < key b := by
  have hsorted : (inKeyOrder key rows).Pairwise fun a b => key a ≤ key b :=
    pairwise_insertionSort _ rows
  have hnodup : ((inKeyOrder key rows).map key).Nodup :=
    ((inKeyOrder_perm rows).map key).nodup_iff.2 hkeys
  rw [List.Nodup, pairwise_map] at hnodup
  exact (hsorted.and hnodup).imp fun h => lt_of_le_of_ne h.1 h.2

theorem inKeyOrder_eq_of_perm {sorted : List α} (hperm : sorted.Perm rows)
    (hsorted : sorted.Pairwise fun a b => key a < key b) : inKeyOrder key rows = sorted := by
  have hkeys : (rows.map key).Nodup := by
    rw [← (hperm.map key).nodup_iff, List.Nodup, pairwise_map]
    exact hsorted.imp ne_of_lt
  have hstrict := pairwise_inKeyOrder hkeys
  apply List.Perm.eq_of_pairwise _ hstrict hsorted ((inKeyOrder_perm rows).trans hperm.symm)
  intro a b _ _ hab hba
  exact absurd hab (lt_asymm hba)

theorem inKeyOrder_filter (hkeys : (rows.map key).Nodup) (p : α → Bool) :
    inKeyOrder key (rows.filter p) = (inKeyOrder key rows).filter p :=
  inKeyOrder_eq_of_perm ((inKeyOrder_perm rows).filter p) ((pairwise_inKeyOrder hkeys).filter p)

/-- The first row is one with the least key. -/
theorem head?_inKeyOrder (hrow : row ∈ rows) (hkeys : (rows.map key).Nodup)
    (hleast : ∀ other ∈ rows, key row ≤ key other) : (inKeyOrder key rows).head? = some row := by
  have hsorted := pairwise_inKeyOrder hkeys
  have hmem : row ∈ inKeyOrder key rows := mem_inKeyOrder.2 hrow
  cases hrows : inKeyOrder key rows with
  | nil => simp [hrows] at hmem
  | cons first rest =>
    rw [hrows] at hmem hsorted
    rcases mem_cons.1 hmem with rfl | hrest
    · rfl
    have hlt := (pairwise_cons.1 hsorted).1 row hrest
    have hfirst : first ∈ rows := mem_inKeyOrder.1 (hrows ▸ mem_cons_self)
    exact absurd (hleast first hfirst) (not_le.2 hlt)

theorem le_of_head?_inKeyOrder (hkeys : (rows.map key).Nodup)
    (hhead : (inKeyOrder key rows).head? = some row) (hother : other ∈ rows) :
    row ∈ rows ∧ key row ≤ key other := by
  obtain ⟨rest, hrest⟩ := List.head?_eq_some_iff.1 hhead
  have hsorted := pairwise_inKeyOrder hkeys
  have hmem : other ∈ inKeyOrder key rows := mem_inKeyOrder.2 hother
  rw [hrest] at hsorted hmem
  refine ⟨mem_inKeyOrder.1 (hrest ▸ mem_cons_self), ?_⟩
  rcases mem_cons.1 hmem with rfl | hlater
  · exact le_rfl
  · exact ((pairwise_cons.1 hsorted).1 other hlater).le

/-- After the last row of a part of a strictly ordered list comes the rest of the list. -/
theorem filter_after_last {before after : List α} {last : α}
    (hsorted : (before ++ last :: after).Pairwise fun a b => key a < key b) :
    (before ++ last :: after).filter (fun row => key last < key row) = after := by
  rw [pairwise_append, pairwise_cons] at hsorted
  obtain ⟨_, ⟨hafter, _⟩, hbefore⟩ := hsorted
  have hnone : before.filter (fun row => key last < key row) = [] := by
    rw [filter_eq_nil_iff]
    intro row hrow
    have hlt := hbefore row hrow last mem_cons_self
    simpa using hlt.le
  have hall : after.filter (fun row => key last < key row) = after := by
    rw [filter_eq_self]
    intro row hrow
    simpa using hafter row hrow
  rw [filter_append, hnone, filter_cons_of_neg (by simp), hall, nil_append]

theorem pageAfter_eq (rows : List α) (limit : Nat) (after : κ) :
    pageAfter key rows limit after =
      ((inKeyOrder key (rows.filter fun row => after < key row)).take limit,
        decide (limit < (inKeyOrder key (rows.filter fun row => after < key row)).length)) := by
  rw [pageAfter]
  refine Prod.ext ?_ ?_
  · simp only [take_take]
    congr 1
    omega
  · simp only [length_take]
    rw [decide_eq_decide]
    omega

variable {limit : Nat}

theorem mem_pageAfter {after : κ} {row : α}
    (hrow : row ∈ (pageAfter key rows limit after).1) : row ∈ rows := by
  rw [pageAfter_eq] at hrow
  exact mem_of_mem_filter (mem_inKeyOrder.1 (mem_of_mem_take hrow))

omit [LinearOrder κ] in
/-- A view of each row that shows its key is paged through like the rows. -/
theorem pagesFrom_map {β : Type} (view : α → β) (shown : β → κ)
    (hkey : ∀ row, shown (view row) = key row) (fetch : κ → List α × Bool) (fuel : Nat)
    (after : κ) :
    pagesFrom shown (fun k => ((fetch k).1.map view, (fetch k).2)) fuel after =
      (pagesFrom key fetch fuel after).map (List.map view) := by
  induction fuel generalizing after with
  | zero => rfl
  | succ fuel ih =>
    rw [pagesFrom, pagesFrom]
    simp only [List.getLast?_map]
    cases (fetch after).2 <;> cases (fetch after).1.getLast? <;> simp [ih, hkey]

/-- The pages from a key on are the rows after it, in order. -/
theorem flatten_pagesFrom (hkeys : (rows.map key).Nodup) (hlimit : 0 < limit) {fuel : Nat}
    {after : κ} (hfuel : rows.length < fuel) :
    (pagesFrom key (pageAfter key rows limit) fuel after).flatten =
      (inKeyOrder key rows).filter fun row => after < key row := by
  have hlength : ((inKeyOrder key rows).filter fun row => after < key row).length < fuel :=
    lt_of_le_of_lt (length_filter_le _ _)
      (by rw [(inKeyOrder_perm rows).length_eq]; exact hfuel)
  clear hfuel
  -- Each page but the last one takes away at least one of the rows that are left.
  induction fuel generalizing after with
  | zero => omega
  | succ fuel ih =>
    have hpage : pageAfter key rows limit after = _ := pageAfter_eq rows limit after
    rw [inKeyOrder_filter hkeys] at hpage
    set left := (inKeyOrder key rows).filter fun row => after < key row with hleft
    have hsorted : left.Pairwise fun a b => key a < key b :=
      (pairwise_inKeyOrder hkeys).filter _
    rw [pagesFrom]
    simp only [hpage]
    by_cases hmore : limit < left.length
    · have hne : left.take limit ≠ [] := by
        intro hnil
        have hzero := congrArg List.length hnil
        simp only [length_take, length_nil] at hzero
        omega
      have hlast : (left.take limit).getLast? = some ((left.take limit).getLast hne) :=
        List.getLast?_eq_some_getLast hne
      have hsplit : left =
          (left.take limit).dropLast ++ (left.take limit).getLast hne :: left.drop limit := by
        conv_lhs => rw [← take_append_drop limit left, ← dropLast_append_getLast hne]
        rw [append_assoc, singleton_append]
      set last := (left.take limit).getLast hne with hlastDef
      have hafter : after < key last := by
        have hmem : last ∈ left := mem_of_mem_take (getLast_mem hne)
        have hkept := (mem_filter.1 hmem).2
        exact of_decide_eq_true hkept
      have hrest : ((inKeyOrder key rows).filter fun row => key last < key row) =
          left.drop limit := by
        have hcut := hsorted
        rw [hsplit] at hcut
        have htail := filter_after_last hcut
        rw [← hsplit, hleft, filter_filter] at htail
        rw [← htail]
        apply filter_congr
        intro row _
        by_cases hrow : key last < key row
        · simp [hrow, lt_trans hafter hrow]
        · simp [hrow]
      have hshorter : ((inKeyOrder key rows).filter fun row => key last < key row).length <
          fuel := by
        rw [hrest, length_drop]
        omega
      simp only [hmore, decide_true, hlast, flatten_cons, ih hshorter, hrest]
      exact take_append_drop limit left
    · simp only [hmore, decide_false, flatten_cons, flatten_nil, append_nil]
      exact take_of_length_le (by omega)

end Paging

end Kortecx.Lib
