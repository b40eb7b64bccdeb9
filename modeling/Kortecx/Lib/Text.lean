import Kortecx.Lib.Bytes
import Mathlib.Data.List.TakeWhile
import Mathlib.Data.String.Basic

/-!
The few operations on texts that server code applies to the names it is given: white space
at the ends, and comparison that ignores the case of ASCII letters.
-/

namespace Kortecx.Lib

open List

/-- The characters with the Unicode property `White_Space`. -/
def isWhiteSpace (c : Char) : Bool :=
  let n := c.toNat
  (9 ≤ n && n ≤ 13) || n == 0x20 || n == 0x85 || n == 0xA0 || n == 0x1680 ||
    (0x2000 ≤ n && n ≤ 0x200A) || n == 0x2028 || n == 0x2029 || n == 0x202F ||
    n == 0x205F || n == 0x3000

/-- `str::trim`. -/
def trim (s : String) : String :=
  String.ofList (((s.toList.dropWhile isWhiteSpace).reverse.dropWhile isWhiteSpace).reverse)

/-- `s.trim().is_empty()`. -/
def isBlank (s : String) : Bool :=
  s.toList.all isWhiteSpace

theorem trim_ne_empty {s : String} (h : ∃ c ∈ s.toList, isWhiteSpace c = false) : trim s ≠ "" := by
  obtain ⟨c, hc, hblack⟩ := h
  intro hempty
  have hall : ∀ x ∈ s.toList.dropWhile isWhiteSpace, isWhiteSpace x = true := by
    simpa [trim, dropWhile_eq_nil_iff] using hempty
  rw [← takeWhile_append_dropWhile (p := isWhiteSpace) (l := s.toList), mem_append] at hc
  rcases hc with hc | hc
  · simp [mem_takeWhile_imp hc] at hblack
  · simp [hall c hc] at hblack

theorem isBlank_empty : isBlank "" = true := rfl

variable {s : String}

theorem ne_empty_of_not_isBlank (h : ¬ isBlank s = true) : s ≠ "" := by
  rintro rfl
  exact h isBlank_empty

theorem empty_lt (h : s ≠ "") : "" < s := by
  have hne : s.toList ≠ [] := fun hnil => h (String.toList_eq_nil_iff.1 hnil)
  obtain ⟨c, cs, hcs⟩ := exists_cons_of_ne_nil hne
  rw [String.lt_iff_toList_lt, hcs]
  exact nil_lt_cons c cs

/-- A text split at the last occurrence of a character is split in one way. -/
theorem append_cons_inj_of_notMem {α : Type} {x : α} {before before' after after' : List α}
    (h : before ++ x :: after = before' ++ x :: after') (hafter : x ∉ after)
    (hafter' : x ∉ after') : before = before' ∧ after = after' := by
  rcases append_eq_append_iff.1 h with ⟨more, rfl, hrest⟩ | ⟨more, rfl, hrest⟩
  · cases more with
    | nil =>
      simp only [nil_append, List.cons.injEq, true_and] at hrest
      exact ⟨by simp, hrest⟩
    | cons y more =>
      simp only [cons_append, List.cons.injEq] at hrest
      exact absurd (hrest.2 ▸ by simp) hafter
  · cases more with
    | nil =>
      simp only [nil_append, List.cons.injEq, true_and] at hrest
      exact ⟨by simp, hrest.symm⟩
    | cons y more =>
      simp only [cons_append, List.cons.injEq] at hrest
      exact absurd (hrest.2 ▸ by simp) hafter'

theorem digitChar_inj : ∀ m < 16, ∀ n < 16, Nat.digitChar m = Nat.digitChar n → m = n := by
  decide

theorem toHex_injective : Function.Injective toHex := by
  intro bs cs h
  have hchars := String.ofList_injective h
  clear h
  induction bs generalizing cs with
  | nil =>
    cases cs with
    | nil => rfl
    | cons c cs => simp at hchars
  | cons b bs ih =>
    cases cs with
    | nil => simp at hchars
    | cons c cs =>
      simp only [flatMap_cons, cons_append, nil_append, List.cons.injEq] at hchars
      obtain ⟨hhigh, hlow, hrest⟩ := hchars
      have hb := b.toNat_lt
      have hc := c.toNat_lt
      have hhigh' := digitChar_inj _ (by omega) _ (by omega) hhigh
      have hlow' := digitChar_inj _ (by omega) _ (by omega) hlow
      have hbc : b = c := UInt8.toNat_inj.1 (by omega)
      rw [hbc, ih hrest]

/-- A character that is no hexadecimal digit is in no hexadecimal text. -/
theorem notMem_toHex (hc : ∀ n < 16, Nat.digitChar n ≠ c) :
    c ∉ (toHex bs).toList := by
  intro hmem
  simp only [toHex, String.toList_ofList, mem_flatMap, mem_cons, not_mem_nil,
    or_false] at hmem
  obtain ⟨b, _, heq⟩ := hmem
  have hb := b.toNat_lt
  rcases heq with heq | heq
  · exact hc _ (by omega) heq.symm
  · exact hc _ (by omega) heq.symm

/-- `str::eq_ignore_ascii_case`. -/
def eqIgnoreAsciiCase (s t : String) : Bool :=
  s.toList.map Char.toLower == t.toList.map Char.toLower

end Kortecx.Lib
