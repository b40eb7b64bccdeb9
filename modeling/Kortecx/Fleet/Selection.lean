import Kortecx.Fleet.Governed

/-!
Which of several warrants counts. Both ledgers document the same choice, a widest warrant and
among these the one with the least anchor, and compute it differently: the catalog keeps what
nothing is wider than, the fleet goes through the paths once and keeps the best so far.
-/

namespace Kortecx.Fleet

open Lib Warrant List Catalog Relation

section Scan

variable {paths paths' : List (ByteVec 32 × WarrantSpec)} {m : ByteVec 32 × WarrantSpec}

/-- Distinct anchors are in strict order. -/
theorem pairwise_inAnchorOrder (hanchors : (paths.map Prod.fst).Nodup) :
    (inAnchorOrder paths).Pairwise fun x y => compare x.1 y.1 = .lt := by
  have htrans : IsTrans (ByteVec 32 × WarrantSpec) fun x y => (compare x.1 y.1).isLE = true :=
    ⟨fun _ _ _ hxy hyz => Std.TransCmp.isLE_trans hxy hyz⟩
  have htotal : Std.Total fun x y : ByteVec 32 × WarrantSpec => (compare x.1 y.1).isLE = true :=
    ⟨fun x y => by
      have hswap : compare y.1 x.1 = (compare x.1 y.1).swap := Std.OrientedCmp.eq_swap
      rw [hswap]
      cases compare x.1 y.1 <;> simp⟩
  have horder : (inAnchorOrder paths).Pairwise fun x y => (compare x.1 y.1).isLE = true :=
    pairwise_insertionSort _ paths
  have hdistinct : ((inAnchorOrder paths).map Prod.fst).Nodup :=
    ((perm_insertionSort _ paths).map _).nodup_iff.2 hanchors
  apply (horder.and (pairwise_map.1 hdistinct)).imp
  rintro x y ⟨hle, hne⟩
  cases hcompare : compare x.1 y.1 with
  | lt => rfl
  | eq => exact absurd (Std.LawfulEqCmp.eq_of_compare hcompare) hne
  | gt => simp [hcompare] at hle

theorem mostPermissive_perm (hperm : paths'.Perm paths) (hanchors : (paths.map Prod.fst).Nodup) :
    mostPermissive paths' = mostPermissive paths := by
  have hanchors' : (paths'.map Prod.fst).Nodup := (hperm.map _).nodup_iff.2 hanchors
  have hsame : (inAnchorOrder paths').Perm (inAnchorOrder paths) :=
    (perm_insertionSort _ paths').trans (hperm.trans (perm_insertionSort _ paths).symm)
  have heq : inAnchorOrder paths' = inAnchorOrder paths := by
    apply hsame.eq_of_pairwise _ (pairwise_inAnchorOrder hanchors')
      (pairwise_inAnchorOrder hanchors)
    intro x y _ _ hxy hyx
    rw [Std.OrientedCmp.gt_of_lt hxy] at hyx
    cases hyx
  exact congrArg (fun sorted => (sorted.foldl prefer none).map Prod.snd) heq

/-- Of the candidates that contain the first one, the second is the next in the order of the
anchors. -/
def Overtakes (paths : List (ByteVec 32 × WarrantSpec)) (c d : ByteVec 32 × WarrantSpec) : Prop :=
  compare c.1 d.1 = .lt ∧ warrantWithin c.2 d.2 = true ∧
    ∀ e ∈ paths, compare c.1 e.1 = .lt → compare e.1 d.1 = .lt → warrantWithin c.2 e.2 = false

instance : DecidableRel (Overtakes paths) := fun _ _ => by
  unfold Overtakes
  infer_instance

/-- The last of the candidates that overtake each other, from the least anchor on. -/
def Settles (paths : List (ByteVec 32 × WarrantSpec)) (c : ByteVec 32 × WarrantSpec) : Prop :=
  (∃ first ∈ paths, (∀ d ∈ paths, (compare first.1 d.1).isLE) ∧
      ReflTransGen (fun x y => y ∈ paths ∧ Overtakes paths x y) first c) ∧
    ∀ d ∈ paths, ¬ Overtakes paths c d

theorem not_lt_of_lt {x y : ByteVec 32} (hxy : compare x y = .lt) : compare y x ≠ .lt := by
  rw [Std.OrientedCmp.gt_of_lt hxy]
  simp

theorem eq_of_anchor (hanchors : (paths.map Prod.fst).Nodup) {c d : ByteVec 32 × WarrantSpec}
    (hc : c ∈ paths) (hd : d ∈ paths) (hnot : compare c.1 d.1 ≠ .lt)
    (hnot' : compare d.1 c.1 ≠ .lt) : c = d := by
  have hanchor : compare c.1 d.1 = .eq := by
    cases hcompare : compare c.1 d.1 with
    | lt => exact absurd hcompare hnot
    | eq => rfl
    | gt => exact absurd (Std.OrientedCmp.lt_of_gt hcompare) hnot'
  exact inj_on_of_nodup_map hanchors hc hd (Std.LawfulEqCmp.eq_of_compare hanchor)

/-- The scan from a candidate that nothing before it has overtaken. -/
theorem settles_of_foldl_prefer (rest : List (ByteVec 32 × WarrantSpec)) :
    ∀ {seen best}, (seen ++ rest).Pairwise (fun x y => compare x.1 y.1 = .lt) → best ∈ seen →
      (∀ e ∈ seen, compare best.1 e.1 = .lt → warrantWithin best.2 e.2 = false) →
      ∃ c, rest.foldl prefer (some best) = some c ∧
        ReflTransGen (fun x y => y ∈ seen ++ rest ∧ Overtakes (seen ++ rest) x y) best c ∧
        ∀ d ∈ seen ++ rest, ¬ Overtakes (seen ++ rest) c d := by
  induction rest with
  | nil =>
    intro seen best _ _ hpassed
    rw [append_nil]
    refine ⟨best, rfl, .refl, ?_⟩
    rintro d hd ⟨hless, hwider, -⟩
    simp [hpassed d hd hless] at hwider
  | cons first rest ih =>
    intro seen best horder hbest hpassed
    obtain ⟨-, hlater, hbefore⟩ := pairwise_append.1 horder
    have hless : ∀ e ∈ seen, compare e.1 first.1 = .lt := fun e he =>
      hbefore e he first mem_cons_self
    rw [append_cons] at horder ⊢
    rw [foldl_cons, prefer]
    split_ifs with hwider
    · have hpassed' : ∀ e ∈ seen ++ [first], compare first.1 e.1 = .lt →
          warrantWithin first.2 e.2 = false := by
        intro e he hless'
        rcases mem_append.1 he with he | he
        · exact absurd hless' (not_lt_of_lt (hless e he))
        · simp [mem_singleton.1 he] at hless'
      obtain ⟨c, hfold, hchain, hlast⟩ := ih horder (by simp) hpassed'
      refine ⟨c, hfold, .head ⟨by simp, hless best hbest, hwider, ?_⟩ hchain, hlast⟩
      intro e he hfrom hto
      simp only [mem_append, mem_singleton] at he
      rcases he with (he | rfl) | he
      · exact hpassed e he hfrom
      · simp at hto
      · exact absurd hto (not_lt_of_lt (rel_of_pairwise_cons hlater he))
    · apply ih horder (by simp [hbest])
      intro e he hfrom
      rcases mem_append.1 he with he | he
      · exact hpassed e he hfrom
      · simpa [mem_singleton.1 he] using hwider

theorem Settles.unique {c c' : ByteVec 32 × WarrantSpec} (hanchors : (paths.map Prod.fst).Nodup)
    (hc : Settles paths c) (hc' : Settles paths c') : c = c' := by
  obtain ⟨⟨first, hfirst, hleast, hchain⟩, hlast⟩ := hc
  obtain ⟨⟨first', hfirst', hleast', hchain'⟩, hlast'⟩ := hc'
  have hsame : first = first' := by
    apply eq_of_anchor hanchors hfirst hfirst'
    · intro hless
      simpa [Std.OrientedCmp.gt_of_lt hless] using hleast' first hfirst
    · intro hless
      simpa [Std.OrientedCmp.gt_of_lt hless] using hleast first' hfirst'
  subst hsame
  have hnext : Relator.RightUnique fun x y => y ∈ paths ∧ Overtakes paths x y := by
    rintro x y z ⟨hy, hxy, hwithin, hnone⟩ ⟨hz, hxz, hwithin', hnone'⟩
    apply eq_of_anchor hanchors hy hz
    · intro hless
      simp [hnone' y hy hxy hless] at hwithin
    · intro hless
      simp [hnone z hz hxz hless] at hwithin'
  rcases ReflTransGen.total_of_right_unique hnext hchain hchain' with hmore | hmore
  · rcases hmore.cases_head with heq | ⟨d, ⟨hd, hovertakes⟩, -⟩
    · exact heq
    · exact absurd hovertakes (hlast d hd)
  · rcases hmore.cases_head with heq | ⟨d, ⟨hd, hovertakes⟩, -⟩
    · exact heq.symm
    · exact absurd hovertakes (hlast' d hd)

theorem mostPermissive_iff_settles (hanchors : (paths.map Prod.fst).Nodup) {spec : WarrantSpec} :
    mostPermissive paths = some spec ↔ ∃ c, Settles paths c ∧ c.2 = spec := by
  have hperm : (inAnchorOrder paths).Perm paths := perm_insertionSort _ paths
  have horder := pairwise_inAnchorOrder hanchors
  change ((inAnchorOrder paths).foldl prefer none).map Prod.snd = some spec ↔ _
  cases hsorted : inAnchorOrder paths with
  | nil =>
    have hnone : paths = [] := (hsorted ▸ hperm).symm.eq_nil
    simp [hnone, Settles]
  | cons first rest =>
    rw [hsorted] at hperm horder
    obtain ⟨c, hfold, hchain, hlast⟩ := settles_of_foldl_prefer rest
      (singleton_append ▸ horder) (mem_singleton_self first) (by simp)
    have hleast : ∀ d ∈ first :: rest, (compare first.1 d.1).isLE := by
      simp +contextual [rel_of_pairwise_cons horder]
    have hsettles : Settles paths c := by
      simp only [singleton_append, Overtakes, hperm.mem_iff] at hchain hlast hleast
      exact ⟨⟨first, hperm.mem_iff.1 mem_cons_self, hleast, hchain⟩, hlast⟩
    change (rest.foldl prefer (some first)).map Prod.snd = some spec ↔ _
    rw [hfold, Option.map_some, Option.some.injEq]
    constructor
    · exact fun hspec => ⟨c, hsettles, hspec⟩
    · rintro ⟨c', hsettles', hspec⟩
      rw [← hspec, hsettles.unique hanchors hsettles']

end Scan

/-- Most-permissive selection. The catalog's is as documented: of the widest candidates the
one with the least leaf. The fleet's is a widest candidate, and the one documented exactly if
it is the last of those that overtake each other from the least anchor on. Neither depends on
the order of the candidates. -/
theorem selection_most_permissive (cands : List GrantWarrant)
    (paths : List (ByteVec 32 × WarrantSpec)) (hleaves : (cands.map (·.leaf.bytes)).Nodup)
    (hanchors : (paths.map Prod.fst).Nodup) :
    ((cands ≠ [] → ∃ c, Named (·.leaf.bytes) GrantWarrant.warrant cands c ∧
        Catalog.mostPermissive cands = some c.warrant) ∧
      ∀ cands', cands'.Perm cands →
        Catalog.mostPermissive cands' = Catalog.mostPermissive cands) ∧
    (paths ≠ [] → ∃ c, Widest Prod.snd paths c ∧ mostPermissive paths = some c.2) ∧
    (∀ m, Named Prod.fst Prod.snd paths m →
      (mostPermissive paths = some m.2 ↔ ∃ c, Settles paths c ∧ c.2 = m.2)) ∧
    ∀ paths', paths'.Perm paths → mostPermissive paths' = mostPermissive paths :=
  ⟨⟨Catalog.named_of_mostPermissive, fun _ hperm => Catalog.mostPermissive_perm hperm hleaves⟩,
    widest_of_mostPermissive,
    fun _ _ => mostPermissive_iff_settles hanchors,
    fun _ hperm => mostPermissive_perm hperm hanchors⟩

def narrowPath : ByteVec 32 × WarrantSpec :=
  (.replicate 32 1, { modelRoute := ⟨"small", 1, 1, 1⟩, costCeiling := ⟨1⟩ })

def apartPath : ByteVec 32 × WarrantSpec :=
  (.replicate 32 2, { modelRoute := ⟨"small", 2, 1, 0⟩, costCeiling := ⟨9⟩ })

/-- Wider than the narrow one and apart from the other. -/
def widePath : ByteVec 32 × WarrantSpec :=
  (.replicate 32 3, { modelRoute := ⟨"small", 1, 1, 1⟩, costCeiling := ⟨2⟩ })

/-- The wide path overtakes the narrow one. -/
theorem selection_most_permissive_overtaken :
    mostPermissive [widePath, narrowPath] = some widePath.2 ∧
      ∃ c, Named (·.leaf.bytes) GrantWarrant.warrant [⟨⟨apartPath.1⟩, .all, apartPath.2⟩] c := by
  obtain ⟨⟨hcatalog, -⟩, -, hfleet, -⟩ :=
    selection_most_permissive [⟨⟨apartPath.1⟩, .all, apartPath.2⟩] [widePath, narrowPath]
      (by decide +kernel) (by decide +kernel)
  obtain ⟨c, hnamed, -⟩ := hcatalog (by simp)
  have hsettles : Settles [widePath, narrowPath] widePath :=
    ⟨⟨narrowPath, by simp, by decide +kernel, .single (by decide +kernel)⟩, by decide +kernel⟩
  exact ⟨(hfleet widePath (by decide +kernel)).2 ⟨widePath, hsettles, rfl⟩, c, hnamed⟩

/-- The narrow path holds the place against the one apart, and loses it to the wide one. -/
theorem selection_passes_over_least_anchor :
    ([narrowPath, apartPath, widePath].map Prod.fst).Nodup ∧
      Named Prod.fst Prod.snd [narrowPath, apartPath, widePath] apartPath ∧
      mostPermissive [narrowPath, apartPath, widePath] = some widePath.2 ∧
      widePath.2 ≠ apartPath.2 := by
  decide +kernel

end Kortecx.Fleet
