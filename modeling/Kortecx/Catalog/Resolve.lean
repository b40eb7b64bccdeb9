import Kortecx.Catalog.Authority

/-!
The warrant a party uses an asset under: of the warrants that its chains convey, the most
permissive one. It is one of them, it is there exactly if the party holds the action, and
it is no wider than the owner's.
-/

namespace Kortecx.Catalog

open Lib Warrant List Std

/-- Whether a warrant conveys no more than another on any axis. The axes without an order
have to be equal. -/
def warrantWithin (a b : WarrantSpec) : Bool :=
  a.fsScope.isSubsetOf b.fsScope && a.netScope.isSubsetOf b.netScope &&
    a.secretScope.isSubsetOf b.secretScope && setWithin a.toolGrants b.toolGrants &&
    a.modelRoute.isWithin b.modelRoute &&
    a.resourceCeiling.cpuMilli ≤ b.resourceCeiling.cpuMilli &&
    a.resourceCeiling.memBytes ≤ b.resourceCeiling.memBytes &&
    a.resourceCeiling.wallClockMs ≤ b.resourceCeiling.wallClockMs &&
    a.resourceCeiling.fdCount ≤ b.resourceCeiling.fdCount &&
    a.resourceCeiling.diskBytes ≤ b.resourceCeiling.diskBytes &&
    a.costCeiling.microUsd ≤ b.costCeiling.microUsd && (a.tlsRequired || !b.tlsRequired) &&
    a.moteClass = b.moteClass && a.ndClass = b.ndClass &&
    a.syscallProfileRef = b.syscallProfileRef && a.environmentRef = b.environmentRef &&
    a.executorClass = b.executorClass

def minByLeaf : List GrantWarrant → Option GrantWarrant
  | [] => none
  | c :: rest =>
    match minByLeaf rest with
    | none => some c
    | some best => if compare best.leaf.bytes c.leaf.bytes = .lt then some best else some c

def dominates (c d : GrantWarrant) : Bool :=
  warrantWithin c.warrant d.warrant && !warrantWithin d.warrant c.warrant

/-- A candidate that no other is strictly wider than, the one with the least leaf. -/
def mostPermissive (candidates : List GrantWarrant) : Option WarrantSpec :=
  (minByLeaf (candidates.filter fun c => !candidates.any (dominates c))).map GrantWarrant.warrant

def resolveEffectiveWarrantFor (ids : Identities) (inner : Inner) (party : PartyId)
    (asset : AssetRef) (action : CatalogAction) (ownerRoot : WarrantSpec) :
    Except NarrowingError (Option WarrantSpec) :=
  (readEffectiveGrantWarrants ids inner party asset ownerRoot).map fun gws =>
    mostPermissive (gws.filter fun gw => gw.actions.contains action)

section Selection

variable {α : Type} (anchor : α → ByteVec 32) (warrant : α → WarrantSpec) (cands : List α)

/-- A candidate that no other is strictly wider than. -/
def Widest (c : α) : Prop :=
  c ∈ cands ∧ ∀ d ∈ cands, warrantWithin (warrant c) (warrant d) = true →
    warrantWithin (warrant d) (warrant c) = true

/-- What both ledgers document: of the widest candidates the one with the least anchor. -/
def Named (c : α) : Prop :=
  Widest warrant cands c ∧
    ∀ d ∈ cands, Widest warrant cands d → (compare (anchor c) (anchor d)).isLE = true

instance [DecidableEq α] : DecidablePred (Named anchor warrant cands) := fun c => by
  unfold Named Widest
  infer_instance

variable {anchor warrant cands} {cands' : List α} {c d : α}

theorem Named.unique (hanchors : (cands.map anchor).Nodup) (hc : Named anchor warrant cands c)
    (hd : Named anchor warrant cands d) : c = d := by
  have hle := hc.2 d hd.1.1 hd.1
  have hge := hd.2 c hc.1.1 hc.1
  have heq : anchor c = anchor d := LawfulEqCmp.eq_of_compare
    (OrientedCmp.isLE_antisymm hle hge)
  exact inj_on_of_nodup_map hanchors hc.1.1 hd.1.1 heq

theorem Widest.perm (hperm : cands'.Perm cands) (hc : Widest warrant cands' c) :
    Widest warrant cands c :=
  ⟨hperm.mem_iff.1 hc.1, fun d hd => hc.2 d (hperm.mem_iff.2 hd)⟩

theorem Named.perm (hperm : cands'.Perm cands) (hc : Named anchor warrant cands' c) :
    Named anchor warrant cands c :=
  ⟨hc.1.perm hperm, fun d hd hwidest => hc.2 d (hperm.mem_iff.2 hd) (hwidest.perm hperm.symm)⟩

end Selection

section MostPermissive

theorem warrantWithin_iff :
    warrantWithin a b = true ↔ a.Within b ∧ a.moteClass = b.moteClass ∧ a.ndClass = b.ndClass ∧
      a.environmentRef = b.environmentRef ∧ a.executorClass = b.executorClass := by
  have htls : (a.tlsRequired || !b.tlsRequired) = true ↔
      (b.tlsRequired = true → a.tlsRequired = true) := by
    cases a.tlsRequired <;> cases b.tlsRequired <;> simp
  simp only [warrantWithin, Bool.and_eq_true, decide_eq_true_eq, htls, ModelRoute.isWithin_iff]
  constructor
  · intro h
    obtain ⟨⟨⟨⟨⟨⟨⟨⟨⟨⟨⟨⟨⟨⟨⟨⟨hfs, hnet⟩, hsecret⟩, htools⟩, hroute⟩, hcpu⟩, hmem⟩, hwall⟩, hfd⟩,
      hdisk⟩, hcost⟩, htls⟩, hclass⟩, hnd⟩, hsyscall⟩, henv⟩, hexec⟩ := h
    exact ⟨⟨hfs, hnet, hsyscall, htools, hsecret, hroute, ⟨hcpu, hmem, hwall, hfd, hdisk⟩, hcost,
      htls⟩, hclass, hnd, henv, hexec⟩
  · rintro ⟨hwithin, hclass, hnd, henv, hexec⟩
    obtain ⟨hcpu, hmem, hwall, hfd, hdisk⟩ := hwithin.resourceCeiling
    exact ⟨⟨⟨⟨⟨⟨⟨⟨⟨⟨⟨⟨⟨⟨⟨⟨hwithin.fsScope, hwithin.netScope⟩, hwithin.secretScope⟩,
      hwithin.toolGrants⟩, hwithin.modelRoute⟩, hcpu⟩, hmem⟩, hwall⟩, hfd⟩, hdisk⟩,
      hwithin.costCeiling⟩, hwithin.tlsRequired⟩, hclass⟩, hnd⟩, hwithin.syscallProfileRef⟩,
      henv⟩, hexec⟩

theorem warrantWithin_trans (hab : warrantWithin a b = true)
    (hbc : warrantWithin b c = true) : warrantWithin a c = true := by
  rw [warrantWithin_iff] at hab hbc ⊢
  obtain ⟨hab, hclass, hnd, henv, hexec⟩ := hab
  obtain ⟨hbc, hclass', hnd', henv', hexec'⟩ := hbc
  exact ⟨hab.trans hbc, hclass.trans hclass', hnd.trans hnd', henv.trans henv', hexec.trans hexec'⟩

theorem dominates_trans (hcd : dominates c d = true)
    (hde : dominates d e = true) : dominates c e = true := by
  simp only [dominates, Bool.and_eq_true, Bool.not_eq_true', Bool.eq_false_iff] at hcd hde ⊢
  refine ⟨warrantWithin_trans hcd.1 hde.1, fun hec => ?_⟩
  exact hcd.2 (warrantWithin_trans hde.1 hec)

variable {candidates : List GrantWarrant}

theorem minByLeaf_eq_none : minByLeaf candidates = none ↔ candidates = [] := by
  cases candidates with
  | nil => simp [minByLeaf]
  | cons c rest =>
    simp only [minByLeaf, reduceCtorEq, iff_false]
    split
    · simp
    · split <;> simp

theorem minByLeaf_spec {c : GrantWarrant} (hmin : minByLeaf candidates = some c) :
    c ∈ candidates ∧ ∀ d ∈ candidates, (compare c.leaf.bytes d.leaf.bytes).isLE = true := by
  induction candidates generalizing c with
  | nil => cases hmin
  | cons first rest ih =>
    simp only [minByLeaf] at hmin
    split at hmin
    · rename_i hrest
      cases hmin
      rw [minByLeaf_eq_none.1 hrest]
      simp
    rename_i best hbest
    obtain ⟨hmem, hleast⟩ := ih hbest
    split at hmin
    · rename_i hlt
      cases hmin
      exact ⟨mem_cons_of_mem _ hmem, forall_mem_cons.2 ⟨hlt ▸ rfl, hleast⟩⟩
    · rename_i hge
      cases hmin
      have hle : (compare first.leaf.bytes best.leaf.bytes).isLE = true := by
        rw [← Ordering.isGE_swap, ← OrientedCmp.eq_swap]
        exact Ordering.isGE_iff_ne_lt.2 hge
      refine ⟨mem_cons_self, forall_mem_cons.2 ⟨by simp, fun d hd => ?_⟩⟩
      exact TransCmp.isLE_trans hle (hleast d hd)

theorem mem_of_mostPermissive
    (hmost : mostPermissive candidates = some w) : ∃ c ∈ candidates, c.warrant = w := by
  obtain ⟨c, hmin, hw⟩ := Option.map_eq_some_iff.1 hmost
  exact ⟨c, mem_of_mem_filter (minByLeaf_spec hmin).1, hw⟩

/-- Some candidate is not dominated, so one is chosen. -/
theorem isSome_mostPermissive : (mostPermissive candidates).isSome = true ↔ candidates ≠ [] := by
  constructor
  · rintro hsome rfl
    cases hsome
  intro hne
  have hirrefl : ∀ c, ¬ dominates c c = true := by
    intro c
    simp [dominates]
  obtain ⟨c, hc, hmax⟩ := exists_undominated (R := fun c d => dominates c d = true)
    (fun _ _ _ => dominates_trans) hirrefl hne
  have hkept : c ∈ candidates.filter fun c => !candidates.any (dominates c) := by
    refine mem_filter.2 ⟨hc, ?_⟩
    rw [Bool.not_eq_true', any_eq_false]
    exact hmax
  rw [mostPermissive, Option.isSome_map, Option.isSome_iff_ne_none, Ne, minByLeaf_eq_none]
  exact ne_nil_of_mem hkept

/-- The catalog chooses as documented. -/
theorem named_of_mostPermissive (hne : candidates ≠ []) :
    ∃ c, Named (·.leaf.bytes) GrantWarrant.warrant candidates c ∧
      mostPermissive candidates = some c.warrant := by
  obtain ⟨w, hw⟩ := Option.isSome_iff_exists.1 (isSome_mostPermissive.2 hne)
  obtain ⟨c, hmin, rfl⟩ := Option.map_eq_some_iff.1 hw
  have hkept : ∀ c, c ∈ candidates.filter (fun c => !candidates.any (dominates c)) ↔
      Widest GrantWarrant.warrant candidates c := by
    intro c
    rw [mem_filter, Bool.not_eq_true', any_eq_false]
    apply and_congr_right
    intro
    apply forall₂_congr
    simp [dominates]
  obtain ⟨hmem, hleast⟩ := minByLeaf_spec hmin
  exact ⟨c, ⟨(hkept c).1 hmem, fun d _ hwidest => hleast d ((hkept d).2 hwidest)⟩, hw⟩

theorem mostPermissive_perm {candidates' : List GrantWarrant} (hperm : candidates'.Perm candidates)
    (hleaves : (candidates.map (·.leaf.bytes)).Nodup) :
    mostPermissive candidates' = mostPermissive candidates := by
  by_cases hne : candidates = []
  · subst hne
    rw [hperm.eq_nil]
  obtain ⟨c, hc, hmost⟩ := named_of_mostPermissive hne
  have hne' : candidates' ≠ [] := by
    rintro rfl
    exact hne hperm.symm.eq_nil
  obtain ⟨c', hc', hmost'⟩ := named_of_mostPermissive hne'
  rw [hmost, hmost', (hc'.perm hperm).unique hleaves hc]

end MostPermissive

section Resolve

variable {ids : Identities} {inner : Inner} {party : PartyId} {asset : AssetRef}
  {action : CatalogAction} {root : WarrantSpec} {res : Option WarrantSpec} {w : WarrantSpec}

theorem resolveEffectiveWarrantFor_ok
    (hresolve : resolveEffectiveWarrantFor ids inner party asset action root = .ok res) :
    ∃ gws, readEffectiveGrantWarrants ids inner party asset root = .ok gws ∧
      res = mostPermissive (gws.filter fun gw => gw.actions.contains action) := by
  unfold resolveEffectiveWarrantFor at hresolve
  cases hread : readEffectiveGrantWarrants ids inner party asset root with
  | error e => simp [hread, Except.map] at hresolve
  | ok gws =>
    rw [hread] at hresolve
    simp only [Except.map, Except.ok.injEq] at hresolve
    exact ⟨gws, rfl, hresolve.symm⟩

/-- If no chain fails to narrow, there is a warrant for an action exactly if the party holds
the action. -/
theorem isSome_resolveEffectiveWarrantFor
    (hresolve : resolveEffectiveWarrantFor ids inner party asset action root = .ok res) :
    res.isSome = true ↔ isAuthorized ids inner party asset action = true := by
  obtain ⟨gws, hread, rfl⟩ := resolveEffectiveWarrantFor_ok hresolve
  obtain ⟨hok, hmem⟩ := collectWarrants_ok hread
  rw [isSome_mostPermissive, isAuthorized_iff, Ne, filter_eq_nil_iff]
  constructor
  · intro hnone
    push Not at hnone
    obtain ⟨gw, hgw, hconveys⟩ := hnone
    obtain ⟨gid, hgid, hactive⟩ := (hmem gw).1 hgw
    obtain ⟨cf, hfold, _, hactions, _⟩ := activeWarrant_ok_some hactive
    obtain ⟨links, htraces, hlen, hsound, hnarrowed, _⟩ := foldChain_ok_some hfold
    rw [hactions, hnarrowed] at hconveys
    exact ⟨gid, hgid, links, htraces, hlen, hsound, contains_narrowed.1 hconveys⟩
  · rintro ⟨gid, hgid, links, htraces, hlen, hsound, hactions⟩ hnone
    obtain ⟨found, hactive⟩ := hok gid hgid
    cases hfold : foldChain ids inner gid (inner.bindings asset) (some root) with
    | error e => simp [activeWarrant, hfold, Except.map] at hactive
    | ok res =>
      obtain ⟨cf, rfl, hnarrowed, hwarrant⟩ :=
        foldChain_ok_of_sound hfold htraces hlen hsound
      obtain ⟨w, hw⟩ := Option.isSome_iff_exists.1 hwarrant
      have hconveys : cf.actions.contains action = true := by
        rw [hnarrowed]
        exact contains_narrowed.2 hactions
      have hgw := activeWarrant_of_foldChain hfold (CatalogActionSet.isEmpty_eq_false hconveys) hw
      exact hnone _ ((hmem _).2 ⟨gid, hgid, hgw⟩) hconveys

/-- What the scopes of a chain leave of the owner's warrant: each grant narrows what the one it
rests on leaves. -/
def narrowedScope (root : WarrantSpec) : List Grant → Except NarrowingError WarrantSpec
  | [] => .ok root
  | g :: towardsRoot =>
    (narrowedScope root towardsRoot).bind fun w => intersect w g.runtimeScope

theorem narrowedScope_cons_eq_ok :
    narrowedScope root (g :: links) = .ok w ↔
      ∃ pw, narrowedScope root links = .ok pw ∧ intersect pw g.runtimeScope = .ok w :=
  except_bind_eq_ok

/-- Narrowing along a chain does not widen. -/
theorem narrowedScope_within (h : narrowedScope root links = .ok w) : w.Within root := by
  induction links generalizing w with
  | nil =>
    cases h
    exact .refl _
  | cons g rest ih =>
    obtain ⟨pw, hbelow, hnarrow⟩ := narrowedScope_cons_eq_ok.1 h
    exact (WarrantSpec.Within.of_intersect hnarrow).trans (ih hbelow)

variable {owner : Option PartyId} {links : List Grant}

theorem foldHop_of_stands {hop : Hop} (hrevoked : isRevoked inner (ids.grantId g) g owner = false)
    (hlink : linkHolds owner hop.parentActions hop.parent g = true)
    (hwarrant : hop.parentWarrant = some w) :
    foldHop ids inner owner hop g = (intersect w g.runtimeScope).map fun w =>
      some ⟨g.actions.narrow hop.parentActions, some w, some g⟩ := by
  simp [foldHop, hrevoked, hlink, hwarrant]

/-- A walk that reaches the leaf has the warrant that the scopes leave. -/
theorem foldHops_narrowedScope
    (hfold : foldHops ids inner owner (some root) links = .ok (some hop)) :
    ∃ w, hop.parentWarrant = some w ∧ narrowedScope root links = .ok w := by
  induction links generalizing hop with
  | nil =>
    cases hfold
    exact ⟨root, rfl, rfl⟩
  | cons g rest ih =>
    simp only [foldHops] at hfold
    split at hfold
    · cases hfold
    · cases hfold
    rename_i below hbelow
    obtain ⟨pw, hpw, hscope⟩ := ih hbelow
    obtain ⟨hrevoked, hlink⟩ := (foldHop_ok hfold).1.1 rfl
    rw [foldHop_of_stands hrevoked hlink hpw] at hfold
    obtain ⟨w, hnarrow, hhop⟩ := except_map_eq_ok.1 hfold
    cases hhop
    exact ⟨w, rfl, narrowedScope_cons_eq_ok.2 ⟨pw, hscope, hnarrow⟩⟩

/-- The walk down a chain fails exactly where the scopes do not narrow, on the part from the root
that stands. -/
theorem isOk_foldHops : (foldHops ids inner owner (some root) links).isOk = true ↔
    ∀ part, part <:+ links → Sound ids inner owner part →
      (narrowedScope root part).isOk = true := by
  induction links with
  | nil => simp [foldHops, suffix_nil, narrowedScope, Except.isOk, Except.toBool]
  | cons g rest ih =>
    simp only [suffix_cons_iff, forall_eq_or_imp, ← ih, foldHops]
    cases hbelow : foldHops ids inner owner (some root) rest with
    | error e => simp [Except.isOk, Except.toBool]
    | ok res =>
      cases res with
      | none =>
        have hbroken := (foldHops_ok hbelow).1
        simp_all [Sound, Except.isOk, Except.toBool]
      | some hop =>
        obtain ⟨hsound, hvars⟩ := foldHops_ok hbelow
        obtain ⟨hactions, hparent, _⟩ := hvars hop rfl
        obtain ⟨pw, hpw, hscope⟩ := foldHops_narrowedScope hbelow
        have hnext : narrowedScope root (g :: rest) = intersect pw g.runtimeScope := by
          rw [narrowedScope, hscope]
          rfl
        rw [hnext]
        by_cases hstands : isRevoked inner (ids.grantId g) g owner = false ∧
            linkHolds owner hop.parentActions hop.parent g = true
        · have hrest : Sound ids inner owner (g :: rest) := by
            rw [hactions, hparent] at hstands
            exact ⟨hsound.1 rfl, hstands⟩
          simp only [foldHop_of_stands hstands.1 hstands.2 hpw, hrest, forall_const]
          cases intersect pw g.runtimeScope <;> simp [Except.map, Except.isOk, Except.toBool]
        · have hbroken : ¬ Sound ids inner owner (g :: rest) := by
            rw [hactions, hparent] at hstands
            exact fun h => hstands h.2
          simp only [hbroken, false_imp_iff, true_and]
          unfold foldHop
          split
          · simp [Except.isOk, Except.toBool]
          · simp_all [Except.isOk, Except.toBool]

/-- The warrant of a party is no wider than the owner's. -/
theorem resolveEffectiveWarrantFor_within
    (hresolve : resolveEffectiveWarrantFor ids inner party asset action root = .ok (some w)) :
    w.Within root := by
  obtain ⟨gws, hread, hmost⟩ := resolveEffectiveWarrantFor_ok hresolve
  obtain ⟨gw, hgw, rfl⟩ := mem_of_mostPermissive hmost.symm
  obtain ⟨gid, hgid, hactive⟩ :=
    ((collectWarrants_ok hread).2 gw).1 (mem_of_mem_filter hgw)
  obtain ⟨cf, hfold, _, _, hwarrant⟩ := activeWarrant_ok_some hactive
  unfold foldChain at hfold
  split at hfold
  · cases hfold
  rename_i chain _
  cases hhops : foldHops ids inner (inner.bindings asset) (some root) chain with
  | error e => simp [hhops, Except.map] at hfold
  | ok hop =>
    rw [hhops] at hfold
    simp only [Except.map, Except.ok.injEq, Option.map_eq_some_iff] at hfold
    obtain ⟨hop, rfl, rfl⟩ := hfold
    obtain ⟨w, hw, hscope⟩ := foldHops_narrowedScope hhops
    cases hw.symm.trans hwarrant
    exact narrowedScope_within hscope

end Resolve

/-- The scopes of a chain that the party holds do not narrow: not even on the part from the root
whose grants all stand and may stand where they do. -/
def Widens (ids : Identities) (inner : Inner) (party : PartyId) (asset : AssetRef)
    (root : WarrantSpec) : Prop :=
  ∃ gid ∈ inner.grantsByGranteeAsset (party, asset), ∃ links,
    Traces (grantAt inner) Grant.prior (some gid) links ∧ links.length ≤ MAX_DELEGATION_DEPTH ∧
    ∃ part, part <:+ links ∧ Sound ids inner (inner.bindings asset) part ∧
      (narrowedScope root part).isOk = false

section Growth

variable {ids : Identities} {inner inner' : Inner} {owner : Option PartyId}
  {ownerRoot : Option WarrantSpec} {links : List Grant} {gid : GrantId} {root : WarrantSpec}

theorem collectWarrants_of_ok {gids : List GrantId}
    (hok : ∀ gid ∈ gids, (activeWarrant ids inner owner root gid).isOk = true) :
    ∃ gws, collectWarrants ids inner owner root gids = .ok gws := by
  induction gids with
  | nil => exact ⟨[], rfl⟩
  | cons gid rest ih =>
    obtain ⟨hfirst, hrest⟩ := forall_mem_cons.1 hok
    obtain ⟨later, hlater⟩ := ih hrest
    cases hfound : activeWarrant ids inner owner root gid with
    | error e =>
      rw [hfound] at hfirst
      cases hfirst
    | ok found => simp [collectWarrants, hfound, hlater, Except.map]

/-- The warrants are read exactly if no chain widens. -/
theorem exists_readEffectiveGrantWarrants :
    (∃ gws, readEffectiveGrantWarrants ids inner party asset root = .ok gws) ↔
      ¬ Widens ids inner party asset root := by
  have hactive : ∀ gid, (activeWarrant ids inner (inner.bindings asset) root gid).isOk = true ↔
      ∀ links, Traces (grantAt inner) Grant.prior (some gid) links →
        links.length ≤ MAX_DELEGATION_DEPTH → ∀ part, part <:+ links →
          Sound ids inner (inner.bindings asset) part →
            (narrowedScope root part).isOk = true := by
    intro gid
    unfold activeWarrant foldChain
    rw [isOk_map]
    cases hcollect : collect (grantAt inner) Grant.prior MAX_DELEGATION_DEPTH [] (some gid) with
    | none =>
      simp only [Except.isOk, Except.toBool, true_iff]
      intro links htraces hlen
      cases hcollect.symm.trans (collect_eq_some_iff.2 ⟨htraces, hlen⟩)
    | some chain =>
      dsimp only
      rw [isOk_map, isOk_foldHops]
      constructor
      · intro hnarrows links htraces hlen
        cases hcollect.symm.trans (collect_eq_some_iff.2 ⟨htraces, hlen⟩)
        exact hnarrows
      · obtain ⟨htraces, hlen⟩ := collect_eq_some_iff.1 hcollect
        exact fun hnarrows => hnarrows chain htraces hlen
  have hnone : ¬ Widens ids inner party asset root ↔
      ∀ gid ∈ inner.grantsByGranteeAsset (party, asset),
        (activeWarrant ids inner (inner.bindings asset) root gid).isOk = true := by
    simp only [hactive, Widens, not_exists, not_and, Bool.not_eq_false]
  rw [hnone]
  constructor
  · rintro ⟨gws, hread⟩ gid hgid
    obtain ⟨res, hres⟩ := (collectWarrants_ok hread).1 gid hgid
    rw [hres]
    rfl
  · exact collectWarrants_of_ok

/-- A further grant touches neither the owners nor the revocations. -/
theorem append_grants (ids : Identities) (inner : Inner) (more : List Grant) :
    ((more.map Append.grant).foldl (append ids) inner).revoked = inner.revoked ∧
      ((more.map Append.grant).foldl (append ids) inner).bindings = inner.bindings := by
  induction more generalizing inner with
  | nil => exact ⟨rfl, rfl⟩
  | cons g rest ih =>
    have hone : (append ids inner (.grant g)).revoked = inner.revoked ∧
        (append ids inner (.grant g)).bindings = inner.bindings := by
      simp only [append, appendGrant, appendFact]
      split
      · split <;> exact ⟨rfl, rfl⟩
      · exact ⟨rfl, rfl⟩
    rw [map_cons, foldl_cons]
    exact ⟨(ih _).1.trans hone.1, (ih _).2.trans hone.2⟩

variable (hrevoked : inner'.revoked = inner.revoked)

include hrevoked

theorem foldHops_congr :
    foldHops ids inner' owner ownerRoot links = foldHops ids inner owner ownerRoot links := by
  have hhop : foldHop ids inner' owner = foldHop ids inner owner := by
    funext hop g
    have hstands : isRevoked inner' = isRevoked inner := by
      funext gid g owner
      rw [isRevoked, hrevoked, isRevoked]
    rw [foldHop, hstands, foldHop]
  induction links with
  | nil => rfl
  | cons g rest ih => rw [foldHops, foldHops, ih, hhop]

/-- What a chain conveys it conveys in any ledger that has its grants and no more revocations. -/
theorem foldChain_mono {cf : ChainFold}
    (hmore : ∀ key g, grantAt inner key = some g → grantAt inner' key = some g)
    (hfold : foldChain ids inner gid owner ownerRoot = .ok (some cf)) :
    foldChain ids inner' gid owner ownerRoot = .ok (some cf) := by
  unfold foldChain at hfold ⊢
  split at hfold
  · cases hfold
  rename_i chain hchain
  obtain ⟨htraces, hlen⟩ := collect_eq_some_iff.1 hchain
  rw [collect_eq_some_iff.2 ⟨htraces.mono hmore, hlen⟩]
  simp only [foldHops_congr hrevoked]
  exact hfold

theorem activeWarrant_mono {gw : GrantWarrant}
    (hmore : ∀ key g, grantAt inner key = some g → grantAt inner' key = some g)
    (hactive : activeWarrant ids inner owner root gid = .ok (some gw)) :
    activeWarrant ids inner' owner root gid = .ok (some gw) := by
  obtain ⟨cf, hfold, -⟩ := activeWarrant_ok_some hactive
  rw [activeWarrant, foldChain_mono hrevoked hmore hfold, ← hfold]
  exact hactive

end Growth

/-- Further grants take no authority away exactly if the party then holds no chain that widens:
the warrant stays, and is not strictly narrower than before. -/
theorem grants_take_nothing_away (ids : Identities) (ops : List Append) (more : List Grant)
    (hinj : Set.InjOn ids.grantId {g | .grant g ∈ ops ++ more.map .grant}) (party : PartyId)
    (asset : AssetRef) (action : CatalogAction) (root w : WarrantSpec)
    (hresolve : resolveEffectiveWarrantFor ids (ledgerAfter ids ops) party asset action root =
      .ok (some w)) :
    (∃ w', resolveEffectiveWarrantFor ids (ledgerAfter ids (ops ++ more.map .grant)) party asset
        action root = .ok (some w') ∧
      ¬ (warrantWithin w' w = true ∧ warrantWithin w w' = false)) ↔
    ¬ Widens ids (ledgerAfter ids (ops ++ more.map .grant)) party asset root := by
  have hindexed : (ledgerAfter ids ops).Indexed ids := indexed_ledgerAfter ops
  have hindexed' : (ledgerAfter ids (ops ++ more.map .grant)).Indexed ids :=
    indexed_ledgerAfter _
  have hgrown : ledgerAfter ids (ops ++ more.map .grant) =
      (more.map Append.grant).foldl (append ids) (ledgerAfter ids ops) := foldl_append
  have hsame := append_grants ids (ledgerAfter ids ops) more
  have hfacts : (ledgerAfter ids ops).facts ⊆ (ledgerAfter ids (ops ++ more.map .grant)).facts :=
    hgrown ▸ (facts_foldl hindexed _).subset
  rw [← hgrown] at hsame
  have hgrantAt : ∀ key g, grantAt (ledgerAfter ids ops) key = some g →
      grantAt (ledgerAfter ids (ops ++ more.map .grant)) key = some g := by
    intro key g hg
    obtain ⟨hrecorded, hid⟩ :=
      (hindexed.grantAt_iff (injOn_facts (subset_append_left ..) hinj)).1 hg
    exact (hindexed'.grantAt_iff (injOn_facts (Subset.refl _) hinj)).2 ⟨hfacts hrecorded, hid⟩
  rw [← exists_readEffectiveGrantWarrants]
  constructor
  · rintro ⟨w', hresolve', _⟩
    obtain ⟨gws', hread', _⟩ := resolveEffectiveWarrantFor_ok hresolve'
    exact ⟨gws', hread'⟩
  rintro ⟨gws', hread'⟩
  obtain ⟨gws, hread, hmost⟩ := resolveEffectiveWarrantFor_ok hresolve
  have hne : gws.filter (fun gw => gw.actions.contains action) ≠ [] := by
    rw [← isSome_mostPermissive, ← hmost]
    rfl
  obtain ⟨c, hc, hchosen⟩ := named_of_mostPermissive hne
  obtain ⟨hcmem, hconveys⟩ := mem_filter.1 hc.1.1
  obtain ⟨gid, hheld, hactive⟩ := ((collectWarrants_ok hread).2 c).1 hcmem
  have hcmem' : c ∈ gws'.filter fun gw => gw.actions.contains action := by
    rw [mem_filter, (collectWarrants_ok hread').2 c]
    refine ⟨⟨gid, ?_, ?_⟩, hconveys⟩
    · obtain ⟨g, hrecorded, hg⟩ := hindexed.held_iff.1 hheld
      exact hindexed'.held_iff.2 ⟨g, hfacts hrecorded, hg⟩
    · rw [hsame.2]
      exact activeWarrant_mono hsame.1 hgrantAt hactive
  obtain ⟨c', hc', hchosen'⟩ := named_of_mostPermissive (ne_nil_of_mem hcmem')
  refine ⟨c'.warrant, ?_, ?_⟩
  · rw [resolveEffectiveWarrantFor, hread', ← hchosen']
    rfl
  · rintro ⟨hbelow, hstrict⟩
    cases hmost.trans hchosen
    rw [hc'.1.2 c hcmem' hbelow] at hstrict
    cases hstrict

def scopeIds : Identities where
  blake3 := shortHash
  encodeBinding b := utf8Bytes b.owner
  encodeGrant g := utf8Bytes g.runtimeScope.name

def deskScope : WarrantSpec where
  modelRoute := ⟨"small", 1, 1, 1⟩

def deskGrant (scope : String) (spec : WarrantSpec) : Grant :=
  .root report "admin" "mate" (listed [.read]) ⟨scope, 1, spec, ""⟩

def desk : List Append :=
  [.binding ⟨report, "admin"⟩, .grant (deskGrant "desk" deskScope)]

def shellScope : WarrantSpec where
  modelRoute := ⟨"small", 1, 1, 1⟩
  toolGrants := .ofList [(⟨"shell", "1"⟩ : ToolGrant)]

theorem grants_take_nothing_away_desk :
    ¬ Widens scopeIds (ledgerAfter scopeIds (desk ++ [deskGrant "night" deskScope].map .grant))
      "mate" report deskScope := by
  refine (grants_take_nothing_away scopeIds desk [deskGrant "night" deskScope] ?_ "mate" report
    .read deskScope deskScope (by decide +kernel)).1 ⟨deskScope, by decide +kernel, by decide +kernel⟩
  intro a ha b hb heq
  simp only [desk, map_cons, map_nil, cons_append, nil_append, Set.mem_ofPred_eq, mem_cons,
    not_mem_nil, reduceCtorEq, Append.grant.injEq, false_or, or_false] at ha hb
  rcases ha with rfl | rfl <;> rcases hb with rfl | rfl
  · rfl
  · exact absurd heq (by decide +kernel)
  · exact absurd heq (by decide +kernel)
  · rfl

/-- A grant that widens is said to convey nothing; it takes away what was there. -/
theorem widening_grant_takes_away :
    resolveEffectiveWarrantFor scopeIds (ledgerAfter scopeIds desk) "mate" report .read deskScope =
        .ok (some deskScope) ∧
      (resolveEffectiveWarrantFor scopeIds (ledgerAfter scopeIds (desk ++
        [deskGrant "shell" shellScope].map .grant)) "mate" report .read deskScope).isOk = false := by
  decide +kernel

end Kortecx.Catalog
