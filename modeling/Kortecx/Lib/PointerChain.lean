import Mathlib.Tactic

/-!
Following a pointer to the end. Items are found under keys and each may name the key of a
next one; the walk is cut at a number of items and at a key it has met before. Whatever
the table holds, a walk that comes to an end has met no key twice, so the second guard
never cuts a chain that the first one lets through.
-/

namespace Kortecx.Lib

section PointerChain

variable {κ α : Type} (lookup : κ → Option α) (next : α → Option κ)

def collect [DecidableEq κ] : Nat → List κ → Option κ → Option (List α)
  | _, _, none => some []
  | 0, _, some _ => none
  | fuel + 1, seen, some key =>
    if key ∈ seen then
      none
    else
      match lookup key with
      | none => none
      | some item => (collect fuel (key :: seen) (next item)).map (item :: ·)

inductive Traces : Option κ → List α → Prop
  | finish : Traces none []
  | hop {key : κ} {item : α} {rest : List α} (hitem : lookup key = some item)
      (hrest : Traces (next item) rest) : Traces (some key) (item :: rest)

end PointerChain

section Traces

variable {κ α : Type} {lookup : κ → Option α} {next : α → Option κ}

/-- A key has one chain. -/
theorem Traces.unique (hxs : Traces lookup next cur xs)
    (hys : Traces lookup next cur ys) : xs = ys := by
  induction hxs generalizing ys with
  | finish =>
    cases hys
    rfl
  | hop hitem hrest ih =>
    cases hys with
    | hop hitem' hrest' =>
      obtain rfl : _ = _ := Option.some.inj (hitem.symm.trans hitem')
      rw [ih hrest']

/-- A chain stays in a table that has more. -/
theorem Traces.mono (hxs : Traces lookup next cur xs)
    (hmore : ∀ key item, lookup key = some item → lookup' key = some item) :
    Traces lookup' next cur xs := by
  induction hxs with
  | finish => exact .finish
  | hop hitem _ ih => exact .hop (hmore _ _ hitem) ih

/-- The keys the chain goes through. -/
inductive Passes (lookup : κ → Option α) (next : α → Option κ) (target : κ) : Option κ → Prop
  | here : Passes lookup next target (some target)
  | later {key : κ} {item : α} (hitem : lookup key = some item)
      (hrest : Passes lookup next target (next item)) : Passes lookup next target (some key)

/-- From a key that a chain goes through, what is left of the chain is no longer. -/
theorem Traces.of_passes
    (hxs : Traces lookup next cur xs) (hpasses : Passes lookup next target cur) :
    ∃ ys, Traces lookup next (some target) ys ∧ ys.length ≤ xs.length := by
  induction hxs with
  | finish => cases hpasses
  | hop hitem hrest ih =>
    cases hpasses with
    | here => exact ⟨_, .hop hitem hrest, le_rfl⟩
    | later hitem' htail =>
      obtain rfl : _ = _ := Option.some.inj (hitem.symm.trans hitem')
      obtain ⟨ys, hys, hlen⟩ := ih htail
      exact ⟨ys, hys, hlen.trans (Nat.le_succ _)⟩

/-- A chain that ends does not come back to where it started. -/
theorem Traces.not_passes (hitem : lookup key = some item)
    (hrest : Traces lookup next (next item) rest) : ¬ Passes lookup next key (next item) := by
  intro hpasses
  obtain ⟨ys, hys, hlen⟩ := hrest.of_passes hpasses
  have hwhole : ys = item :: rest := hys.unique (.hop hitem hrest)
  rw [hwhole, List.length_cons] at hlen
  omega

variable [DecidableEq κ] {fuel : Nat}

theorem Traces.of_collect (hcollect : collect lookup next fuel seen cur = some xs) :
    Traces lookup next cur xs ∧ xs.length ≤ fuel := by
  induction fuel generalizing seen cur xs with
  | zero =>
    cases cur with
    | none =>
      simp only [collect, Option.some.injEq] at hcollect
      subst hcollect
      exact ⟨.finish, le_rfl⟩
    | some key => simp [collect] at hcollect
  | succ fuel ih =>
    cases cur with
    | none =>
      simp only [collect, Option.some.injEq] at hcollect
      subst hcollect
      exact ⟨.finish, Nat.zero_le _⟩
    | some key =>
      simp only [collect] at hcollect
      split at hcollect
      · cases hcollect
      split at hcollect
      · cases hcollect
      rename_i item hitem
      obtain ⟨rest, hrest, rfl⟩ := Option.map_eq_some_iff.1 hcollect
      obtain ⟨htraces, hlen⟩ := ih hrest
      exact ⟨.hop hitem htraces, Nat.succ_le_succ hlen⟩

theorem Traces.collect (hxs : Traces lookup next cur xs) (hlen : xs.length ≤ fuel)
    (hfresh : ∀ key ∈ seen, ¬ Passes lookup next key cur) :
    collect lookup next fuel seen cur = some xs := by
  induction hxs generalizing fuel seen with
  | finish => cases fuel <;> rfl
  | @hop key item rest hitem hrest ih =>
    cases fuel with
    | zero => simp at hlen
    | succ fuel =>
      have hnew : key ∉ seen := fun hseen => hfresh key hseen .here
      have hcollected : Lib.collect lookup next fuel (key :: seen) (next item) = some rest := by
        apply ih (Nat.le_of_succ_le_succ hlen)
        intro earlier hearlier hpasses
        rcases List.mem_cons.1 hearlier with rfl | hseen
        · exact hrest.not_passes hitem hpasses
        · exact hfresh earlier hseen (.later hitem hpasses)
      simp [Lib.collect, hnew, hitem, hcollected]

/-- What the guarded walk finds is the chain, if the chain ends soon enough. -/
theorem collect_eq_some_iff :
    collect lookup next fuel [] cur = some xs ↔ Traces lookup next cur xs ∧ xs.length ≤ fuel :=
  ⟨Traces.of_collect, fun h => h.1.collect h.2 fun _ hkey => by simp at hkey⟩

end Traces

end Kortecx.Lib
