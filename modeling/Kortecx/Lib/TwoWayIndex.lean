import Mathlib.Tactic

/-!
A relation between two types kept as two maps, one from each side, so that both sides can
be asked for what they are related to. The two maps agree by construction: the structure
carries the proof, and the operations below keep it.
-/

set_option linter.unusedSectionVars false

namespace Kortecx.Lib

open Std List

section Buckets

variable {κ ι : Type} [Ord κ] [TransOrd κ] [Ord ι] [TransOrd ι]

/-- What a map of sets says of a key. A key without an entry has the empty set. -/
def bucket (m : ExtTreeMap κ (ExtTreeSet ι)) (k : κ) : ExtTreeSet ι :=
  m.getD k ∅

def addTo (m : ExtTreeMap κ (ExtTreeSet ι)) (k : κ) (x : ι) : ExtTreeMap κ (ExtTreeSet ι) :=
  m.alter k fun xs => some ((xs.getD ∅).insert x)

/-- Take an item out of a key's set, and the key out of the map if that was its last. -/
def dropFrom (m : ExtTreeMap κ (ExtTreeSet ι)) (k : κ) (x : ι) : ExtTreeMap κ (ExtTreeSet ι) :=
  m.alter k fun
    | none => none
    | some xs => if (xs.erase x).isEmpty then none else some (xs.erase x)

variable [LawfulEqOrd κ] [LawfulEqOrd ι] {m : ExtTreeMap κ (ExtTreeSet ι)} {k c : κ}
  {x y : ι}

@[simp]
theorem mem_bucket_empty : y ∉ bucket (∅ : ExtTreeMap κ (ExtTreeSet ι)) c := by
  simp [bucket]

theorem mem_bucket_erase : y ∈ bucket (m.erase k) c ↔ c ≠ k ∧ y ∈ bucket m c := by
  unfold bucket
  rw [ExtTreeMap.getD_erase]
  split
  · rename_i hk
    simp [LawfulEqCmp.eq_of_compare hk]
  rename_i hk
  have hne : c ≠ k := fun h => hk (h ▸ ReflCmp.compare_self)
  simp [hne]

theorem mem_bucket_addTo : y ∈ bucket (addTo m k x) c ↔ (c = k ∧ y = x) ∨ y ∈ bucket m c := by
  unfold bucket addTo
  rw [ExtTreeMap.getD_alter]
  split
  · rename_i hk
    obtain rfl := LawfulEqCmp.eq_of_compare hk
    rw [Option.getD_some, ExtTreeSet.mem_insert, LawfulEqCmp.compare_eq_iff_eq,
      ExtTreeMap.getD_eq_getD_getElem?, eq_comm]
    simp
  · rename_i hk
    have hne : c ≠ k := fun h => hk (h ▸ ReflCmp.compare_self)
    simp [hne]

theorem mem_bucket_dropFrom :
    y ∈ bucket (dropFrom m k x) c ↔ ¬ (c = k ∧ y = x) ∧ y ∈ bucket m c := by
  unfold bucket dropFrom
  rw [ExtTreeMap.getD_alter]
  split
  · rename_i hk
    obtain rfl := LawfulEqCmp.eq_of_compare hk
    rw [ExtTreeMap.getD_eq_getD_getElem?]
    cases m[k]? with
    | none => simp
    | some xs =>
      have hmem : y ∈ xs.erase x ↔ y ≠ x ∧ y ∈ xs := by
        rw [ExtTreeSet.mem_erase, ne_eq, LawfulEqCmp.compare_eq_iff_eq, ne_comm]
      by_cases hempty : (xs.erase x).isEmpty
      · have hnone : ¬ (y ≠ x ∧ y ∈ xs) := by
          rw [← hmem, ExtTreeSet.isEmpty_iff.1 hempty]
          exact ExtTreeSet.not_mem_empty
        simpa [hempty] using hnone
      · simpa [hempty] using hmem
  · rename_i hk
    have hne : c ≠ k := fun h => hk (h ▸ ReflCmp.compare_self)
    simp [hne]

theorem mem_bucket_foldl_dropFrom (ks : List κ) :
    y ∈ bucket (ks.foldl (fun m k => dropFrom m k x) m) c ↔
      ¬ (c ∈ ks ∧ y = x) ∧ y ∈ bucket m c := by
  induction ks generalizing m with
  | nil => simp
  | cons k ks ih =>
    rw [foldl_cons, ih, mem_bucket_dropFrom, mem_cons]
    tauto

def NoEmpty (m : ExtTreeMap κ (ExtTreeSet ι)) : Prop :=
  ∀ k : κ, m[k]? ≠ some (∅ : ExtTreeSet ι)

theorem noEmpty_alter (hm : ∀ c, compare k c ≠ .eq → m[c]? ≠ some ∅) (hf : f m[k]? ≠ some ∅) :
    NoEmpty (m.alter k f) := by
  intro c
  rw [ExtTreeMap.getElem?_alter]
  split
  · exact hf
  · exact hm c ‹_›

theorem noEmpty_addTo (hm : ∀ c, compare k c ≠ .eq → m[c]? ≠ some ∅) : NoEmpty (addTo m k x) := by
  apply noEmpty_alter hm
  intro hempty
  have hx : x ∈ ((m[k]?).getD ∅).insert x := by simp
  rw [Option.some.inj hempty] at hx
  exact ExtTreeSet.not_mem_empty hx

theorem noEmpty_dropFrom (hm : NoEmpty m) : NoEmpty (dropFrom m k x) := by
  apply noEmpty_alter fun c _ => hm c
  cases m[k]? with
  | none => simp
  | some xs =>
    by_cases hempty : (xs.erase x).isEmpty
    · simp [hempty]
    · rw [ExtTreeSet.isEmpty_iff] at hempty
      simp [hempty]

end Buckets

/-- A relation between `α` and `β`, indexed from both sides. -/
structure TwoWayIndex (α β : Type) [Ord α] [TransOrd α] [Ord β] [TransOrd β] where
  forward : ExtTreeMap α (ExtTreeSet β)
  backward : ExtTreeMap β (ExtTreeSet α)
  agrees : ∀ a b, b ∈ bucket forward a ↔ a ∈ bucket backward b

namespace TwoWayIndex

variable {α β : Type} [Ord α] [TransOrd α] [LawfulEqOrd α] [Ord β] [TransOrd β]
  [LawfulEqOrd β]

def empty : TwoWayIndex α β := ⟨∅, ∅, by simp⟩

def Related (t : TwoWayIndex α β) (a : α) (b : β) : Prop :=
  b ∈ bucket t.forward a

instance (t : TwoWayIndex α β) (a : α) (b : β) : Decidable (t.Related a b) :=
  inferInstanceAs (Decidable (b ∈ bucket t.forward a))

/-- The same relation, read from the other side. -/
def flip (t : TwoWayIndex α β) : TwoWayIndex β α :=
  ⟨t.backward, t.forward, fun b a => (t.agrees a b).symm⟩

/-- See that `a` has an entry, be it an empty one. -/
def touch (t : TwoWayIndex α β) (a : α) : TwoWayIndex α β where
  forward := t.forward.alter a fun bs => some (bs.getD ∅)
  backward := t.backward
  agrees := by
    intro x b
    rw [← t.agrees x b]
    unfold bucket
    rw [ExtTreeMap.getD_alter]
    split
    · rename_i hx
      obtain rfl := LawfulEqCmp.eq_of_compare hx
      rw [Option.getD_some, ExtTreeMap.getD_eq_getD_getElem?]
    · rfl

def relate (t : TwoWayIndex α β) (a : α) (b : β) : TwoWayIndex α β where
  forward := addTo t.forward a b
  backward := addTo t.backward b a
  agrees := by
    intro x y
    rw [mem_bucket_addTo, mem_bucket_addTo, t.agrees, and_comm]

/-- Relate `a` to every item of a list. -/
def relateAll (t : TwoWayIndex α β) (a : α) (bs : List β) : TwoWayIndex α β :=
  bs.foldl (fun t b => t.relate a b) (t.touch a)

/-- Forget everything `a` is related to. -/
def unrelate (t : TwoWayIndex α β) (a : α) : TwoWayIndex α β where
  forward := t.forward.erase a
  backward := (bucket t.forward a).toList.foldl (fun m b => dropFrom m b a) t.backward
  agrees := by
    intro x y
    rw [mem_bucket_erase, mem_bucket_foldl_dropFrom, ExtTreeSet.mem_toList, t.agrees]
    constructor
    · exact fun h => ⟨fun h' => h.1 h'.2, h.2⟩
    · rintro ⟨hnot, hmem⟩
      refine ⟨?_, hmem⟩
      rintro rfl
      exact hnot ⟨(t.agrees x y).2 hmem, rfl⟩

variable {t : TwoWayIndex α β} {a x : α} {b y : β}

@[simp]
theorem related_empty : ¬ (empty : TwoWayIndex α β).Related a b :=
  mem_bucket_empty

theorem related_flip : t.flip.Related b a ↔ t.Related a b :=
  (t.agrees a b).symm

@[simp]
theorem related_touch : (t.touch a).Related x y ↔ t.Related x y := by
  change y ∈ bucket (t.touch a).forward x ↔ y ∈ bucket t.forward x
  rw [(t.touch a).agrees, t.agrees]
  rfl

theorem related_relate : (t.relate a b).Related x y ↔ (x = a ∧ y = b) ∨ t.Related x y :=
  mem_bucket_addTo

theorem related_foldl_relate (bs : List β) :
    (bs.foldl (fun t b => t.relate a b) t).Related x y ↔ (x = a ∧ y ∈ bs) ∨ t.Related x y := by
  induction bs generalizing t with
  | nil => simp
  | cons b bs ih =>
    rw [foldl_cons, ih, related_relate, mem_cons]
    tauto

theorem related_relateAll :
    (t.relateAll a bs).Related x y ↔ (x = a ∧ y ∈ bs) ∨ t.Related x y := by
  rw [relateAll, related_foldl_relate, related_touch]

theorem related_unrelate : (t.unrelate a).Related x y ↔ x ≠ a ∧ t.Related x y :=
  mem_bucket_erase

variable {bs : List β}

theorem noEmpty_relateAll_backward (ht : NoEmpty t.backward) :
    NoEmpty (t.relateAll a bs).backward := by
  apply foldlRecOn (motive := fun t : TwoWayIndex α β => NoEmpty t.backward) bs _
    (b := t.touch a) ht
  intro u hu b _
  exact noEmpty_addTo fun c _ => hu c

/-- The entry that is made first does not stay empty if there is something to relate. -/
theorem noEmpty_relateAll_forward (ht : NoEmpty t.forward) (hbs : bs ≠ []) :
    NoEmpty (t.relateAll a bs).forward := by
  obtain ⟨b, bs, rfl⟩ := exists_cons_of_ne_nil hbs
  apply foldlRecOn (motive := fun t : TwoWayIndex α β => NoEmpty t.forward) bs
  · apply noEmpty_addTo
    intro c hc
    change (t.forward.alter a _)[c]? ≠ _
    rw [ExtTreeMap.getElem?_alter, if_neg hc]
    exact ht c
  · intro u hu b _
    exact noEmpty_addTo fun c _ => hu c

theorem noEmpty_unrelate_forward (ht : NoEmpty t.forward) : NoEmpty (t.unrelate a).forward := by
  intro c
  change (t.forward.erase a)[c]? ≠ _
  rw [ExtTreeMap.getElem?_erase]
  split
  · simp
  · exact ht c

theorem noEmpty_unrelate_backward (ht : NoEmpty t.backward) : NoEmpty (t.unrelate a).backward := by
  apply foldlRecOn (motive := NoEmpty) _ _ ht
  intro m hm b _
  exact noEmpty_dropFrom hm

end TwoWayIndex

end Kortecx.Lib
