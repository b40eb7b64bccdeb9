import Mathlib.Tactic

/-!
A cache of the values of a function, filled as the values are asked for. What it holds
agrees with the function by construction, so a computation that reads through the cache
is the computation that calls the function.
-/

namespace Kortecx.Lib

open Std

section Memo

variable {κ ν : Type} [Ord κ] [TransOrd κ] [LawfulEqOrd κ]

structure Memo (f : κ → ν) where
  cached : ExtTreeMap κ ν
  cached_eq : ∀ {k v}, cached[k]? = some v → v = f k

namespace Memo

variable {f : κ → ν}

def empty : Memo f where
  cached := ∅
  cached_eq h := by simp at h

/-- The value at `k`, computed only if the cache does not hold it. -/
def orInsert (memo : Memo f) (k : κ) : ν × Memo f :=
  match memo.cached[k]? with
  | some v => (v, memo)
  | none =>
    (f k,
      { cached := memo.cached.insert k (f k)
        cached_eq := by
          intro k' v h
          rw [ExtTreeMap.getElem?_insert] at h
          split at h
          · rename_i heq
            rw [← LawfulEqOrd.eq_of_compare heq]
            exact (Option.some.inj h).symm
          · exact memo.cached_eq h })

@[simp]
theorem orInsert_fst (memo : Memo f) (k : κ) : (memo.orInsert k).1 = f k := by
  unfold orInsert
  split
  · rename_i hcached
    exact memo.cached_eq hcached
  · rfl

end Memo

end Memo

end Kortecx.Lib
