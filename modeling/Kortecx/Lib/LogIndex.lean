import Mathlib.Tactic

/-!
Indexes of an append-only log. An index answers which values are filed under a key; it is
right if the values are those of the items of the log, and it stays right if each item
that is appended is either filed or has nothing to file.
-/

namespace Kortecx.Lib

open List Std Function

variable {α κ ν : Type}

section Indexes

/-- What `holds` says of a key are the entries of the items. -/
def Indexes (entry : α → Option (κ × ν)) (items : List α) (holds : κ → ν → Prop) : Prop :=
  ∀ k v, holds k v ↔ ∃ item ∈ items, entry item = some (k, v)

variable {entry : α → Option (κ × ν)} {items : List α} {holds : κ → ν → Prop} {item : α}

theorem Indexes.skip (hindex : Indexes entry items holds) (hitem : entry item = none) :
    Indexes entry (items ++ [item]) holds := by
  intro k v
  rw [hindex k v]
  constructor
  · rintro ⟨found, hfound, hentry⟩
    exact ⟨found, mem_append_left _ hfound, hentry⟩
  · rintro ⟨found, hfound, hentry⟩
    rcases mem_append.1 hfound with hold | hnew
    · exact ⟨found, hold, hentry⟩
    rw [mem_singleton.1 hnew, hitem] at hentry
    cases hentry

theorem Indexes.push (hindex : Indexes entry items holds) (hitem : entry item = some (k, v))
    (hnew : ∀ k' v', holds' k' v' ↔ holds k' v' ∨ k' = k ∧ v' = v) :
    Indexes entry (items ++ [item]) holds' := by
  intro k' v'
  rw [hnew, hindex k' v']
  constructor
  · rintro (⟨found, hfound, hentry⟩ | ⟨rfl, rfl⟩)
    · exact ⟨found, mem_append_left _ hfound, hentry⟩
    · exact ⟨item, by simp, hitem⟩
  · rintro ⟨found, hfound, hentry⟩
    rcases mem_append.1 hfound with hold | hlast
    · exact .inl ⟨found, hold, hentry⟩
    rw [mem_singleton.1 hlast, hitem, Option.some.injEq, Prod.mk.injEq] at hentry
    exact .inr ⟨hentry.1.symm, hentry.2.symm⟩

end Indexes

section Keys

variable [DecidableEq κ] {k k' : κ} {v v' : ν}

/-- One more value at the end of the list of a key. -/
theorem mem_update_concat {index : κ → List ν} :
    v' ∈ update index k (index k ++ [v]) k' ↔ v' ∈ index k' ∨ k' = k ∧ v' = v := by
  rw [update_apply]
  split
  · rename_i hkey
    subst hkey
    simp
  rename_i hkey
  simp [hkey]

/-- One more value in the set of a key. -/
theorem mem_update_insert [Ord ν] [TransOrd ν] [LawfulEqOrd ν]
    {index : κ → ExtTreeSet ν} :
    v' ∈ update index k ((index k).insert v) k' ↔
      v' ∈ index k' ∨ k' = k ∧ v' = v := by
  rw [update_apply]
  split
  · rename_i hkey
    subst hkey
    simp only [ExtTreeSet.mem_insert, LawfulEqCmp.compare_eq_iff_eq, true_and]
    constructor
    · rintro (rfl | hold)
      · exact .inr rfl
      · exact .inl hold
    · rintro (hold | rfl)
      · exact .inr hold
      · exact .inl rfl
  · rename_i hkey
    simp [hkey]

/-- A value for a key that has none. -/
theorem update_eq_some_iff {index : κ → Option ν} (hfree : index k = none) :
    update index k (some v) k' = some v' ↔ index k' = some v' ∨ k' = k ∧ v' = v := by
  rw [update_apply]
  split
  · rename_i hkey
    subst hkey
    simp [hfree, eq_comm (a := v)]
  rename_i hkey
  simp [hkey]

def FiledAt (key : α → Option κ) (items : List α) (index : κ → List Nat) : Prop :=
  ∀ k pos, pos ∈ index k ↔ ∃ item, items[pos]? = some item ∧ key item = some k

omit [DecidableEq κ] in
theorem filedAt_nil : FiledAt key [] (fun _ => []) := by
  intro k pos
  simp

omit [DecidableEq κ] in
theorem getElem?_concat_eq_some :
    (items ++ [item])[pos]? = some found ↔
      items[pos]? = some found ∨ pos = items.length ∧ found = item := by
  rcases Nat.lt_trichotomy pos items.length with hlt | rfl | hgt
  · rw [List.getElem?_append_left hlt]
    simp [hlt.ne]
  · simp [eq_comm (a := item)]
  rw [List.getElem?_eq_none (by simp; omega), List.getElem?_eq_none hgt.le]
  simp [hgt.ne']

omit [DecidableEq κ] in
theorem FiledAt.skip (hindex : FiledAt key items index) (hitem : key item = none) :
    FiledAt key (items ++ [item]) index := by
  intro k pos
  rw [hindex k pos]
  simp only [getElem?_concat_eq_some]
  constructor
  · rintro ⟨found, hfound, hkey⟩
    exact ⟨found, .inl hfound, hkey⟩
  · rintro ⟨found, hfound | ⟨_, rfl⟩, hkey⟩
    · exact ⟨found, hfound, hkey⟩
    · rw [hitem] at hkey
      cases hkey

theorem FiledAt.push {key : α → Option κ} {items : List α} {index : κ → List Nat} {item : α}
    {k : κ} (hindex : FiledAt key items index) (hitem : key item = some k) :
    FiledAt key (items ++ [item]) (update index k (index k ++ [items.length])) := by
  intro k' pos
  rw [mem_update_concat, hindex k' pos]
  simp only [getElem?_concat_eq_some]
  constructor
  · rintro (⟨found, hfound, hkey⟩ | ⟨rfl, rfl⟩)
    · exact ⟨found, .inl hfound, hkey⟩
    · exact ⟨item, .inr ⟨rfl, rfl⟩, hitem⟩
  · rintro ⟨found, hfound | ⟨rfl, rfl⟩, hkey⟩
    · exact .inl ⟨found, hfound, hkey⟩
    · rw [hitem, Option.some.injEq] at hkey
      exact .inr ⟨hkey.symm, rfl⟩

end Keys

end Kortecx.Lib
