import Mathlib.Tactic

/-!
An append-only log that numbers its entries 1, 2, 3, … and keeps at most one entry per key. An
entry whose key is already in the log is not added: the caller gets the entry that is there.
Entries without a key are always added.
-/

namespace Kortecx.Lib

open List

variable {α : Type} {number : α → Nat} {items : List α}

/-- In a list numbered consecutively from `k + 1`, the items numbered past `lo` and
up to `hi` are a segment. -/
theorem filter_numbered {k : Nat}
    (hnumbers : items.map number = List.range' (k + 1) items.length) (lo hi : Nat) :
    (items.filter fun a => lo < number a && number a ≤ hi) =
      (items.take (hi - k)).drop (lo - k) := by
  induction items generalizing k with
  | nil => simp
  | cons a rest ih =>
    simp only [map_cons, length_cons, List.range'_succ, List.cons.injEq] at hnumbers
    obtain ⟨ha, hrest⟩ := hnumbers
    rw [filter_cons, ih hrest, ha]
    -- The first item is before the segment, in it, or past its end.
    by_cases hhi : hi ≤ k
    · have hend : hi - k = 0 ∧ hi - (k + 1) = 0 := by omega
      simp only [hend, take_zero, drop_nil, ite_eq_right_iff]
      intro hin
      simp at hin
      omega
    · have hend : hi - k = (hi - (k + 1)) + 1 := by omega
      rw [hend, take_succ_cons]
      by_cases hlo : lo ≤ k
      · have hstart : lo - k = 0 ∧ lo - (k + 1) = 0 := by omega
        rw [hstart.1, hstart.2, drop_zero, drop_zero, if_pos]
        simp
        omega
      · have hstart : lo - k = (lo - (k + 1)) + 1 := by omega
        rw [hstart, drop_succ_cons, if_neg]
        simp
        omega

/-- In a list numbered from 1, the items with a number in `[start, stop)` are a segment. -/
theorem filter_interval
    (hnumbers : items.map number = List.range' 1 items.length) (start stop : Nat) :
    (items.filter fun a => start ≤ number a && number a < stop) =
      (items.take (stop - 1)).drop (start - 1) := by
  have hsegment := filter_numbered hnumbers (start - 1) (stop - 1)
  rw [Nat.sub_zero, Nat.sub_zero] at hsegment
  rw [← hsegment]
  apply filter_congr
  intro a ha
  have hpos : 1 ≤ number a := by
    have hmem : number a ∈ items.map number := mem_map_of_mem ha
    rw [hnumbers] at hmem
    exact left_le_of_mem_range' hmem
  rw [Bool.eq_iff_iff]
  simp only [Bool.and_eq_true, decide_eq_true_eq]
  omega

theorem pairwise_numbered {k : Nat}
    (hnumbers : items.map number = List.range' (k + 1) items.length) :
    items.Pairwise fun a b => number a ≤ number b := by
  rw [← pairwise_map (f := number) (R := (· ≤ ·)), hnumbers]
  exact pairwise_le_range'

namespace DedupLog

/-- What the log needs to know of its entries. A number is written into a field
of fixed width, so it reads back only below `bound`. -/
structure Scheme (α κ : Type) where
  key : α → Option κ
  stamp : Nat → α → α
  number : α → Nat
  bound : Nat
  key_stamp : ∀ n a, key (stamp n a) = key a
  number_stamp : ∀ {n} a, n < bound → number (stamp n a) = n

variable {κ : Type} [DecidableEq κ] (S : Scheme α κ)

/-- The entry of the log that has the key of `a`, if `a` has a key. -/
def find (log : List α) (a : α) : Option α :=
  match S.key a with
  | none => none
  | some k => log.find? fun b => S.key b = some k

/-- The log after offering `a`, and the entry the log now holds for it. -/
def append (log : List α) (a : α) : List α × α :=
  match find S log a with
  | some b => (log, b)
  | none =>
    let stamped := S.stamp (log.length + 1) a
    (log ++ [stamped], stamped)

def appendAll (log : List α) : List α → List α × List α
  | [] => (log, [])
  | a :: rest =>
    let step := append S log a
    let done := appendAll step.1 rest
    (done.1, step.2 :: done.2)

structure WellFormed (log : List α) : Prop where
  numbers : log.map S.number = List.range' 1 log.length
  keys : log.Pairwise fun a b => S.key a = S.key b → S.key a = none

variable {S} {log : List α} {a b : α}

theorem mem_of_find_eq_some (hfind : find S log a = some b) :
    b ∈ log ∧ S.key b = S.key a ∧ S.key a ≠ none := by
  unfold find at hfind
  cases hkey : S.key a with
  | none => simp [hkey] at hfind
  | some k =>
    simp only [hkey] at hfind
    refine ⟨mem_of_find?_eq_some hfind, ?_, by simp⟩
    simpa using List.find?_some hfind

theorem key_none_of_find_eq_none (hfind : find S log a = none) (hb : b ∈ log) :
    S.key b = S.key a → S.key b = none := by
  intro heq
  unfold find at hfind
  cases hkey : S.key a with
  | none => rw [heq, hkey]
  | some k =>
    simp only [hkey, List.find?_eq_none] at hfind
    exact absurd (heq.trans hkey) (by simpa using hfind b hb)

/-- The search looks at keys only, so it does not see the number. -/
theorem find_congr_key (hkey : S.key a' = S.key a) : find S log a' = find S log a := by
  unfold find
  rw [hkey]

theorem append_of_find (hfind : find S log a = some b) : append S log a = (log, b) := by
  unfold append
  rw [hfind]

theorem append_of_fresh (hfind : find S log a = none) :
    append S log a = (log ++ [S.stamp (log.length + 1) a], S.stamp (log.length + 1) a) := by
  unfold append
  rw [hfind]

variable (S log a)

/-- Everything one append can do: return an entry of the log and leave the log as
it is, or number the entry and add it. -/
theorem append_cases : (∃ b, find S log a = some b ∧ append S log a = (log, b)) ∨
    (find S log a = none ∧
      append S log a = (log ++ [S.stamp (log.length + 1) a], S.stamp (log.length + 1) a)) := by
  cases hfind : find S log a with
  | some b => exact .inl ⟨b, rfl, append_of_find hfind⟩
  | none => exact .inr ⟨rfl, append_of_fresh hfind⟩

@[simp]
theorem appendAll_nil : appendAll S log [] = (log, []) := rfl

@[simp]
theorem appendAll_cons (rest : List α) :
    appendAll S log (a :: rest) =
      ((appendAll S (append S log a).1 rest).1,
        (append S log a).2 :: (appendAll S (append S log a).1 rest).2) := rfl

theorem prefix_append : log <+: (append S log a).1 := by
  rcases append_cases S log a with ⟨b, _, heq⟩ | ⟨_, heq⟩
  · rw [heq]
  rw [heq]
  exact List.prefix_append log _

theorem prefix_appendAll (more : List α) : log <+: (appendAll S log more).1 := by
  induction more generalizing log with
  | nil => exact List.prefix_refl log
  | cons a rest ih =>
    rw [appendAll_cons]
    exact (prefix_append S log a).trans (ih _)

theorem length_append_le : (append S log a).1.length ≤ log.length + 1 := by
  rcases append_cases S log a with ⟨b, _, heq⟩ | ⟨_, heq⟩
  · simp [heq]
  · simp [heq]

theorem length_appendAll_le (more : List α) :
    (appendAll S log more).1.length ≤ log.length + more.length := by
  induction more generalizing log with
  | nil => simp
  | cons a rest ih =>
    have hstep := length_append_le S log a
    have hrest := ih (append S log a).1
    simp only [appendAll_cons, length_cons]
    omega

@[simp]
theorem length_appendAll_snd (more : List α) : (appendAll S log more).2.length = more.length := by
  induction more generalizing log with
  | nil => rfl
  | cons a rest ih => simp [ih]

theorem mem_append_snd : (append S log a).2 ∈ (append S log a).1 := by
  rcases append_cases S log a with ⟨b, hfind, heq⟩ | ⟨_, heq⟩
  · rw [heq]
    exact (mem_of_find_eq_some hfind).1
  · simp [heq]

/-- The entry the log now holds for `a` has its key. -/
theorem key_append_snd : S.key (append S log a).2 = S.key a := by
  rcases append_cases S log a with ⟨b, hfind, heq⟩ | ⟨_, heq⟩
  · rw [heq]
    exact (mem_of_find_eq_some hfind).2.1
  rw [heq]
  exact S.key_stamp _ a

variable {S log a}

/-- An append brings nothing into the log but the entry itself, numbered. -/
theorem mem_append_fst (hx : x ∈ (append S log a).1) :
    x ∈ log ∨ find S log a = none ∧ x = S.stamp (log.length + 1) a := by
  rcases append_cases S log a with ⟨b, _, heq⟩ | ⟨hfind, heq⟩
  · rw [heq] at hx
    exact .inl hx
  rw [heq] at hx
  rcases mem_append.1 hx with hold | hnew
  · exact .inl hold
  · exact .inr ⟨hfind, mem_singleton.1 hnew⟩

theorem mem_appendAll_snd (hb : b ∈ (appendAll S log more).2) :
    b ∈ (appendAll S log more).1 := by
  induction more generalizing log with
  | nil => simp at hb
  | cons a rest ih =>
    rw [appendAll_cons] at hb ⊢
    rcases mem_cons.mp hb with rfl | hb
    · exact (prefix_appendAll S _ rest).subset (mem_append_snd S log a)
    · exact ih hb

/-- A sequence of appends brings nothing into the log but its entries, numbered. -/
theorem exists_of_mem_new (hnew : (appendAll S log more).1 = log ++ new)
    (hx : x ∈ new) : ∃ a ∈ more, ∃ n, x = S.stamp n a := by
  induction more generalizing log new with
  | nil =>
    have hnil : new = [] := self_eq_append_right.1 hnew
    rw [hnil] at hx
    cases hx
  | cons a rest ih =>
    rw [appendAll_cons] at hnew
    obtain ⟨later, hlater⟩ := prefix_appendAll S (append S log a).1 rest
    rcases append_cases S log a with ⟨b, _, heq⟩ | ⟨_, heq⟩
    · rw [heq] at hnew
      obtain ⟨c, hc, hstamp⟩ := ih hnew hx
      exact ⟨c, by simp [hc], hstamp⟩
    rw [← hlater, heq, append_assoc, append_cancel_left_eq] at hnew
    rw [← hnew, singleton_append, mem_cons] at hx
    rcases hx with rfl | hx
    · exact ⟨a, by simp, _, rfl⟩
    obtain ⟨c, hc, hstamp⟩ := ih hlater.symm hx
    exact ⟨c, by simp [hc], hstamp⟩

variable {more : List α}

/-- If a sequence of appends grew the log, one of the entries it returned has the
last number. -/
theorem exists_number_eq_length (hroom : log.length + more.length < S.bound)
    (hgrew : (appendAll S log more).1 ≠ log) :
    ∃ b ∈ (appendAll S log more).2, S.number b = (appendAll S log more).1.length := by
  induction more generalizing log with
  | nil => exact absurd rfl hgrew
  | cons a rest ih =>
    have hstep := length_append_le S log a
    simp only [appendAll_cons, length_cons, mem_cons] at hroom hgrew ⊢
    by_cases hrest : (appendAll S (append S log a).1 rest).1 = (append S log a).1
    · rw [hrest] at hgrew ⊢
      rcases append_cases S log a with ⟨b, _, heq⟩ | ⟨_, heq⟩
      · exact absurd (by rw [heq]) hgrew
      refine ⟨(append S log a).2, .inl rfl, ?_⟩
      rw [heq]
      simpa using S.number_stamp a (by omega)
    · obtain ⟨b, hb, hnumber⟩ := ih (by omega) hrest
      exact ⟨b, .inr hb, hnumber⟩

namespace WellFormed

omit [DecidableEq κ] in
theorem nil (S : Scheme α κ) : WellFormed S [] :=
  ⟨rfl, List.Pairwise.nil⟩

variable (hlog : WellFormed S log)

include hlog

/-- A fresh entry, numbered one past the end, keeps the log well formed. -/
theorem snoc (hroom : log.length + 1 < S.bound)
    (hfind : find S log a = none) : WellFormed S (log ++ [S.stamp (log.length + 1) a]) := by
  constructor
  · simp only [map_append, hlog.numbers, map_cons, map_nil, length_append,
      length_cons, length_nil, S.number_stamp a hroom]
    rw [List.range'_concat]
    simp [Nat.add_comm]
  · refine pairwise_append.mpr ⟨hlog.keys, pairwise_singleton _ _, ?_⟩
    intro b hb c hc
    rw [mem_singleton.mp hc, S.key_stamp]
    exact key_none_of_find_eq_none hfind hb

theorem append (hroom : log.length + 1 < S.bound) : WellFormed S (append S log a).1 := by
  rcases append_cases S log a with ⟨b, _, heq⟩ | ⟨hfind, heq⟩
  · rw [heq]
    exact hlog
  rw [heq]
  exact hlog.snoc hroom hfind

theorem appendAll
    (hroom : log.length + more.length < S.bound) : WellFormed S (appendAll S log more).1 := by
  induction more generalizing log with
  | nil => exact hlog
  | cons a rest ih =>
    have hstep := length_append_le S log a
    rw [length_cons] at hroom
    rw [appendAll_cons]
    exact ih (hlog.append (by omega)) (by omega)

/-- The entry with a given key is the one the search returns. -/
theorem find_eq_of_mem (hb : b ∈ log) (hkey : S.key b = S.key a)
    (hsome : S.key a ≠ none) : find S log a = some b := by
  cases hfind : find S log a with
  | none => exact absurd (hkey ▸ key_none_of_find_eq_none hfind hb hkey) hsome
  | some c =>
    obtain ⟨hc, hckey, _⟩ := mem_of_find_eq_some hfind
    have : Std.Symm fun x y => S.key x = S.key y → S.key x = none :=
      ⟨fun x y hxy heq => heq ▸ hxy heq.symm⟩
    by_cases heq : b = c
    · rw [heq]
    have hnone := hlog.keys.forall hb hc heq (hkey.trans hckey.symm)
    exact absurd (hkey ▸ hnone) hsome

omit [DecidableEq κ] in
theorem number_getElem (hi : i < log.length) : S.number log[i] = i + 1 := by
  have hget : (log.map S.number)[i]? = (List.range' 1 log.length)[i]? := by rw [hlog.numbers]
  simpa [hi, Nat.add_comm] using hget

omit [DecidableEq κ] in
theorem number_mem (hb : b ∈ log) : 1 ≤ S.number b ∧ S.number b ≤ log.length := by
  have hmem : S.number b ∈ log.map S.number := mem_map_of_mem hb
  rw [hlog.numbers, mem_range'_1] at hmem
  omega

end WellFormed

end DedupLog

end Kortecx.Lib
