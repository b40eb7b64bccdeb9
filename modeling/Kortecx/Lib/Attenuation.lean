import Kortecx.Lib.Reader

/-!
Attenuation of authority. A holder passes on at most what it has, so each of the usual
shapes of authority (a set of keys, an optional allow-list, a map from keys to modes)
comes with an order, and a chain of steps that each go down in an order ends below every
point it passed.
-/

namespace Kortecx.Lib

open List Std

section Within

variable {κ μ : Type} [Ord κ] [TransOrd κ]

/-- Every key of `child` is a key of `parent`. -/
def setWithin (child parent : ExtTreeSet κ) : Bool :=
  child.toList.all parent.contains

/-- Every key of `child` is a key of `parent`, at a value above the one it has. -/
def mapWithin (below : μ → μ → Bool) (child parent : ExtTreeMap κ μ) : Bool :=
  child.toList.all fun (k, m) => parent[k]?.any (below m)

/-- Nothing, or exactly the listed keys. -/
inductive AllowScope (κ : Type) [Ord κ] where
  | none
  | only (keys : ExtTreeSet κ)

namespace AllowScope

/-- An empty list allows nothing, but it is not below `none`. -/
def isSubsetOf : AllowScope κ → AllowScope κ → Bool
  | .none, _ => true
  | .only _, .none => false
  | .only child, .only parent => setWithin child parent

def Allows (k : κ) : AllowScope κ → Prop
  | .none => False
  | .only keys => k ∈ keys

end AllowScope

variable [LawfulEqOrd κ]

instance : DecidableEq (AllowScope κ)
  | .none, .none => isTrue rfl
  | .none, .only _ => isFalse (by simp)
  | .only _, .none => isFalse (by simp)
  | .only keys, .only keys' =>
    decidable_of_iff (keys = keys') (by rw [AllowScope.only.injEq])

theorem setWithin_iff {child parent : ExtTreeSet κ} :
    setWithin child parent = true ↔ ∀ k ∈ child, k ∈ parent := by
  unfold setWithin
  rw [all_eq_true]
  constructor
  · intro hall k hk
    exact hall k (ExtTreeSet.mem_toList.2 hk)
  · intro hall k hk
    exact hall k (ExtTreeSet.mem_toList.1 hk)

theorem setWithin_refl (t : ExtTreeSet κ) : setWithin t t = true :=
  setWithin_iff.2 fun _ hk => hk

theorem setWithin_trans {a b c : ExtTreeSet κ} (hab : setWithin a b = true)
    (hbc : setWithin b c = true) : setWithin a c = true := by
  rw [setWithin_iff] at hab hbc ⊢
  intro k hk
  exact hbc k (hab k hk)

variable {below : μ → μ → Bool}

theorem mapWithin_iff {child parent : ExtTreeMap κ μ} :
    mapWithin below child parent = true ↔
      ∀ (k : κ) (m : μ), child[k]? = some m →
        ∃ m', parent[k]? = some m' ∧ below m m' = true := by
  unfold mapWithin
  rw [all_eq_true]
  constructor
  · intro hall k m hm
    exact (Option.any_eq_true _ _).1
      (hall (k, m) (ExtTreeMap.mem_toList_iff_getElem?_eq_some.2 hm))
  · rintro hall ⟨k, m⟩ hm
    exact (Option.any_eq_true _ _).2
      (hall k m (ExtTreeMap.mem_toList_iff_getElem?_eq_some.1 hm))

theorem mapWithin_refl (hrefl : ∀ m, below m m = true)
    {t : ExtTreeMap κ μ} : mapWithin below t t = true := by
  rw [mapWithin_iff]
  intro k m hm
  exact ⟨m, hm, hrefl m⟩

theorem mapWithin_trans {a b c : ExtTreeMap κ μ}
    (htrans : ∀ {l m n}, below l m = true → below m n = true → below l n = true)
    (hab : mapWithin below a b = true) (hbc : mapWithin below b c = true) :
    mapWithin below a c = true := by
  rw [mapWithin_iff] at hab hbc ⊢
  intro k l hl
  obtain ⟨m, hm, hlm⟩ := hab k l hl
  obtain ⟨n, hn, hmn⟩ := hbc k m hm
  exact ⟨n, hn, htrans hlm hmn⟩

namespace AllowScope

theorem isSubsetOf_refl (a : AllowScope κ) : a.isSubsetOf a = true := by
  cases a with
  | none => rfl
  | only keys => exact setWithin_refl keys

theorem isSubsetOf_trans {a b c : AllowScope κ} (hab : a.isSubsetOf b = true)
    (hbc : b.isSubsetOf c = true) : a.isSubsetOf c = true := by
  cases a with
  | none => rfl
  | only as =>
    cases b with
    | none => cases hab
    | only bs =>
      cases c with
      | none => cases hbc
      | only cs => exact setWithin_trans hab hbc

theorem Allows.of_isSubsetOf {a b : AllowScope κ} {k : κ} (hk : a.Allows k)
    (hab : a.isSubsetOf b = true) : b.Allows k := by
  cases a with
  | none => cases hk
  | only as =>
    cases b with
    | none => cases hab
    | only bs => exact setWithin_iff.1 hab k hk

end AllowScope

end Within

section Chain

variable {σ ρ ε : Type} {step : σ → ρ → Except ε σ} {R : σ → σ → Prop} {rs : List ρ}

/-- Steps that go down lead down. -/
theorem foldlM_descends (hrefl : ∀ s, R s s) (htrans : ∀ {a b c}, R a b → R b c → R a c)
    (hstep : ∀ {s r s'}, step s r = .ok s' → R s' s)
    (hrun : rs.foldlM step s = .ok last) : R last s := by
  induction rs generalizing s with
  | nil =>
    cases hrun
    exact hrefl _
  | cons r rs ih =>
    obtain ⟨s', hfirst, hrun⟩ := except_bind_eq_ok.1 hrun
    exact htrans (ih hrun) (hstep hfirst)

/-- A chain of steps that go down ends below every point it passed. -/
theorem foldlM_descends_isPrefix (hrefl : ∀ s, R s s) (htrans : ∀ {a b c}, R a b → R b c → R a c)
    (hstep : ∀ {s r s'}, step s r = .ok s' → R s' s)
    (hrun : rs.foldlM step s = .ok last) (hgiven : given <+: rs) :
    ∃ passed, given.foldlM step s = .ok passed ∧ R last passed := by
  obtain ⟨rest, rfl⟩ := hgiven
  rw [foldlM_append] at hrun
  obtain ⟨passed, hpassed, hrun⟩ := except_bind_eq_ok.1 hrun
  exact ⟨passed, hpassed, foldlM_descends hrefl htrans hstep hrun⟩

end Chain

/-- A finite choice has something that nothing else is above. -/
theorem exists_undominated {α : Type} {R : α → α → Prop} (htrans : ∀ a b c, R a b → R b c → R a c)
    (hirrefl : ∀ a, ¬ R a a) {l : List α} (hne : l ≠ []) : ∃ a ∈ l, ∀ b ∈ l, ¬ R a b := by
  induction l with
  | nil => exact absurd rfl hne
  | cons x rest ih =>
    by_cases hrest : rest = []
    · subst hrest
      exact ⟨x, by simp, by simpa using hirrefl x⟩
    obtain ⟨a, ha, hmax⟩ := ih hrest
    by_cases hax : R a x
    · refine ⟨x, by simp, fun b hb hxb => ?_⟩
      rcases mem_cons.1 hb with rfl | hb
      · exact hirrefl b hxb
      · exact hmax b hb (htrans a x b hax hxb)
    · refine ⟨a, mem_cons_of_mem _ ha, fun b hb hab => ?_⟩
      rcases mem_cons.1 hb with rfl | hb
      · exact hax hab
      · exact hmax b hb hab

end Kortecx.Lib
