import Kortecx.Catalog.Ledger

/-!
What the reads of the grant ledger mean. A party holds an action exactly if a chain of
grants from the owner conveys it, and a grant revoked by someone who may revoke it is out
of every chain for good.
-/

namespace Kortecx.Catalog

open Lib Warrant List

section Fold

variable (ids : Identities) (inner : Inner) (owner : Option PartyId)

/-- What is left of the owner's actions at the leaf of a chain. -/
def narrowed : List Grant → CatalogActionSet
  | [] => .all
  | g :: towardsRoot => g.actions.narrow (narrowed towardsRoot)

/-- Every grant of the chain stands and may stand where it does. -/
def Sound : List Grant → Prop
  | [] => True
  | g :: towardsRoot => Sound towardsRoot ∧ isRevoked inner (ids.grantId g) g owner = false ∧
      linkHolds owner (narrowed towardsRoot) towardsRoot.head? g = true

end Fold

variable {ids : Identities} {inner : Inner} {links : List Grant}

section FoldSpec

variable {owner : Option PartyId} {x : CatalogAction} {ownerRoot : Option WarrantSpec}
  {gid : GrantId} {root : WarrantSpec}

theorem contains_narrowed :
    (narrowed links).contains x = true ↔ ∀ g ∈ links, g.actions.contains x = true := by
  induction links with
  | nil => simp [narrowed]
  | cons g rest ih => simp [narrowed, ih]

variable {res : Option Hop} {leaf : GrantId} {cf : ChainFold}

/-- Whether a chain conveys something does not depend on the warrant that is narrowed
along it, except that narrowing may fail. -/
theorem foldHop_ok (hfold : foldHop ids inner owner hop g = .ok res) :
    (res.isSome = true ↔ isRevoked inner (ids.grantId g) g owner = false ∧
      linkHolds owner hop.parentActions hop.parent g = true) ∧
    ∀ next, res = some next → next.parentActions = g.actions.narrow hop.parentActions ∧
      next.parent = some g ∧ (next.parentWarrant.isSome = hop.parentWarrant.isSome) := by
  unfold foldHop at hfold
  split at hfold
  · rename_i hrevoked
    cases hfold
    simp [hrevoked]
  rename_i hrevoked
  split at hfold
  · rename_i hlink
    cases hfold
    simp at hlink
    simp [hlink]
  · rename_i hlink
    have hstands : isRevoked inner (ids.grantId g) g owner = false ∧
        linkHolds owner hop.parentActions hop.parent g = true := by
      simpa using And.intro hrevoked hlink
    split at hfold
    · rename_i hwarrant
      cases hfold
      simp [hstands, hwarrant]
    rename_i pw hwarrant
    cases hnarrow : intersect pw g.runtimeScope with
    | error e => simp [hnarrow, Except.map] at hfold
    | ok w =>
      simp only [hnarrow, Except.map, Except.ok.injEq] at hfold
      subst hfold
      simp [hstands, hwarrant]

theorem foldHops_ok (hfold : foldHops ids inner owner ownerRoot links = .ok res) :
    (res.isSome = true ↔ Sound ids inner owner links) ∧
    ∀ hop, res = some hop → hop.parentActions = narrowed links ∧ hop.parent = links.head? ∧
      hop.parentWarrant.isSome = ownerRoot.isSome := by
  induction links generalizing res with
  | nil =>
    simp only [foldHops, Except.ok.injEq] at hfold
    subst hfold
    simp [Sound, narrowed]
  | cons g rest ih =>
    simp only [foldHops] at hfold
    split at hfold
    · cases hfold
    · rename_i hrest
      cases hfold
      have hbroken := (ih hrest).1
      simp only [Option.isSome_none, Bool.false_eq_true, false_iff] at hbroken
      simp [Sound, hbroken]
    · rename_i hop hrest
      obtain ⟨hsound, hvars⟩ := ih hrest
      obtain ⟨hactions, hparent, hwarrant⟩ := hvars hop rfl
      obtain ⟨hstands, hnext⟩ := foldHop_ok hfold
      have hbelow : Sound ids inner owner rest := hsound.1 rfl
      rw [hactions, hparent] at hstands
      constructor
      · simp only [Sound, hstands, hbelow, true_and]
      · intro next hres
        obtain ⟨hacts, hpar, hwar⟩ := hnext next hres
        rw [hactions] at hacts
        exact ⟨hacts, hpar, hwar.trans hwarrant⟩

/-- Without a warrant to narrow nothing can fail. -/
theorem foldHops_none (links : List Grant) :
    ∃ res, foldHops ids inner owner none links = .ok res := by
  induction links with
  | nil => exact ⟨_, rfl⟩
  | cons g rest ih =>
    obtain ⟨res, hres⟩ := ih
    cases res with
    | none => exact ⟨none, by simp [foldHops, hres]⟩
    | some hop =>
      have hwarrant : hop.parentWarrant = none := by
        simpa using ((foldHops_ok hres).2 hop rfl).2.2
      simp only [foldHops, hres, foldHop, hwarrant]
      split
      · exact ⟨none, rfl⟩
      split
      · exact ⟨none, rfl⟩
      · exact ⟨_, rfl⟩

/-- What a fold that conveys something tells of its chain, with or without a warrant. -/
theorem foldChain_ok_some (hfold : foldChain ids inner leaf owner ownerRoot = .ok (some cf)) :
    ∃ links, Traces (grantAt inner) Grant.prior (some leaf) links ∧
      links.length ≤ MAX_DELEGATION_DEPTH ∧ Sound ids inner owner links ∧
      cf.actions = narrowed links ∧ cf.warrant.isSome = ownerRoot.isSome := by
  unfold foldChain at hfold
  split at hfold
  · cases hfold
  rename_i chain hchain
  obtain ⟨htraces, hlen⟩ := collect_eq_some_iff.1 hchain
  cases hhops : foldHops ids inner owner ownerRoot chain with
  | error e => simp [hhops, Except.map] at hfold
  | ok res =>
    rw [hhops] at hfold
    simp only [Except.map, Except.ok.injEq, Option.map_eq_some_iff] at hfold
    obtain ⟨hop, rfl, rfl⟩ := hfold
    obtain ⟨hsound, hvars⟩ := foldHops_ok hhops
    obtain ⟨hactions, _, hwarrant⟩ := hvars hop rfl
    exact ⟨chain, htraces, hlen, hsound.1 rfl, hactions, hwarrant⟩

/-- A fold that ends without error conveys something exactly along a sound chain. -/
theorem foldChain_ok_of_sound {res : Option ChainFold}
    (hfold : foldChain ids inner leaf owner ownerRoot = .ok res)
    (htraces : Traces (grantAt inner) Grant.prior (some leaf) links)
    (hlen : links.length ≤ MAX_DELEGATION_DEPTH) (hsound : Sound ids inner owner links) :
    ∃ cf, res = some cf ∧ cf.actions = narrowed links ∧
      cf.warrant.isSome = ownerRoot.isSome := by
  unfold foldChain at hfold
  rw [collect_eq_some_iff.2 ⟨htraces, hlen⟩] at hfold
  dsimp only at hfold
  cases hhops : foldHops ids inner owner ownerRoot links with
  | error e => simp [hhops, Except.map] at hfold
  | ok hop? =>
    obtain ⟨hsome, hvars⟩ := foldHops_ok hhops
    obtain ⟨hop, rfl⟩ := Option.isSome_iff_exists.1 (hsome.2 hsound)
    rw [hhops] at hfold
    simp only [Except.map, Except.ok.injEq] at hfold
    obtain ⟨hactions, _, hwarrant⟩ := hvars hop rfl
    exact ⟨_, hfold.symm, hactions, hwarrant⟩

theorem foldChain_none (leaf : GrantId) : ∃ res, foldChain ids inner leaf owner none = .ok res := by
  unfold foldChain
  split
  · exact ⟨none, rfl⟩
  rename_i chain _
  obtain ⟨res, hres⟩ := foldHops_none chain
  exact ⟨_, by rw [hres]; rfl⟩

theorem contains_fromParts :
    (EffectiveGrants.fromParts perGrant).actions.contains x = true ↔
      ∃ entry ∈ perGrant, entry.2.contains x = true := by
  have hfold : ∀ (start : CatalogActionSet),
      (perGrant.foldl (fun actions entry => actions.union entry.2) start).contains x = true ↔
        start.contains x = true ∨ ∃ entry ∈ perGrant, entry.2.contains x = true := by
    induction perGrant with
    | nil => simp
    | cons entry rest ih =>
      intro start
      rw [foldl_cons, ih, CatalogActionSet.contains_union]
      simp [or_assoc]
  rw [EffectiveGrants.fromParts, hfold]
  simp [CatalogActionSet.contains]

theorem activeActions_eq_some :
    activeActions ids inner owner gid = some entry ↔
      ∃ cf, foldChain ids inner gid owner none = .ok (some cf) ∧ cf.actions.isEmpty = false ∧
        entry = (gid, cf.actions) := by
  unfold activeActions
  split
  · rename_i cf hcf
    constructor
    · intro hentry
      split at hentry
      · cases hentry
      rename_i hempty
      exact ⟨cf, hcf, by simpa using hempty, (Option.some.inj hentry).symm⟩
    · rintro ⟨cf', hcf', hempty, rfl⟩
      obtain rfl : cf = cf' := by simpa [hcf] using hcf'
      simp [hempty]
  · rename_i hnone
    simp only [reduceCtorEq, false_iff, not_exists, not_and]
    intro cf hcf
    exact absurd hcf (hnone cf)

/-- A party holds an action if one of the grants it was given conveys it down a sound chain. -/
theorem isAuthorized_iff :
    isAuthorized ids inner party asset x = true ↔
      ∃ gid ∈ inner.grantsByGranteeAsset (party, asset), ∃ links,
        Traces (grantAt inner) Grant.prior (some gid) links ∧
        links.length ≤ MAX_DELEGATION_DEPTH ∧ Sound ids inner (inner.bindings asset) links ∧
        ∀ g ∈ links, g.actions.contains x = true := by
  unfold isAuthorized readEffectiveGrants
  rw [contains_fromParts]
  constructor
  · rintro ⟨entry, hentry, hx⟩
    obtain ⟨gid, hgid, hactive⟩ := mem_filterMap.1 hentry
    obtain ⟨cf, hfold, _, rfl⟩ := activeActions_eq_some.1 hactive
    obtain ⟨links, htraces, hlen, hsound, hactions, _⟩ := foldChain_ok_some hfold
    rw [hactions, contains_narrowed] at hx
    exact ⟨gid, hgid, links, htraces, hlen, hsound, hx⟩
  · rintro ⟨gid, hgid, links, htraces, hlen, hsound, hx⟩
    have htotal : ∃ res, foldChain ids inner gid (inner.bindings asset) none = .ok res :=
      foldChain_none gid
    obtain ⟨res, hfold⟩ := htotal
    obtain ⟨cf, rfl, hactions, _⟩ := foldChain_ok_of_sound hfold htraces hlen hsound
    have hconveys : cf.actions.contains x = true := by
      rw [hactions]
      exact contains_narrowed.2 hx
    have hactive := activeActions_eq_some.2
      ⟨cf, hfold, CatalogActionSet.isEmpty_eq_false hconveys, rfl⟩
    exact ⟨_, mem_filterMap.2 ⟨gid, hgid, hactive⟩, hconveys⟩

theorem activeWarrant_ok_some (hactive : activeWarrant ids inner owner root gid = .ok (some gw)) :
    ∃ cf, foldChain ids inner gid owner (some root) = .ok (some cf) ∧ gw.leaf = gid ∧
      gw.actions = cf.actions ∧ cf.warrant = some gw.warrant := by
  unfold activeWarrant at hactive
  cases hfold : foldChain ids inner gid owner (some root) with
  | error e => simp [hfold, Except.map] at hactive
  | ok res =>
    rw [hfold] at hactive
    simp only [Except.map, Except.ok.injEq, Option.bind_eq_some_iff] at hactive
    obtain ⟨cf, rfl, hgw⟩ := hactive
    split at hgw
    · rename_i w _ hwarrant
      cases hgw
      exact ⟨cf, rfl, rfl, rfl, hwarrant⟩
    · cases hgw

theorem activeWarrant_of_foldChain
    (hfold : foldChain ids inner gid owner (some root) = .ok (some cf))
    (hactions : cf.actions.isEmpty = false) (hwarrant : cf.warrant = some w) :
    activeWarrant ids inner owner root gid = .ok (some ⟨gid, cf.actions, w⟩) := by
  simp [activeWarrant, hfold, Except.map, hactions, hwarrant]

theorem collectWarrants_ok (hcollect : collectWarrants ids inner owner root gids = .ok gws) :
    (∀ gid ∈ gids, ∃ res, activeWarrant ids inner owner root gid = .ok res) ∧
    ∀ gw, gw ∈ gws ↔ ∃ gid ∈ gids, activeWarrant ids inner owner root gid = .ok (some gw) := by
  induction gids generalizing gws with
  | nil =>
    simp only [collectWarrants, Except.ok.injEq] at hcollect
    subst hcollect
    simp
  | cons gid rest ih =>
    simp only [collectWarrants] at hcollect
    split at hcollect
    · cases hcollect
    rename_i found hfound
    cases hrest : collectWarrants ids inner owner root rest with
    | error e => simp [hrest, Except.map] at hcollect
    | ok later =>
      rw [hrest] at hcollect
      simp only [Except.map, Except.ok.injEq] at hcollect
      subst hcollect
      obtain ⟨hok, hmem⟩ := ih hrest
      constructor
      · intro gid' hgid'
        rcases mem_cons.1 hgid' with rfl | hlater
        · exact ⟨found, hfound⟩
        · exact hok gid' hlater
      · intro gw
        rw [mem_append, hmem]
        simp [hfound]

end FoldSpec

/-- A chain of grants on an asset from its owner to a party, listed from the party's own
grant back to the owner's: each rests on the one after it, each but the first may be
delegated, and none was revoked by its grantor or by the owner. -/
structure DelegationChain (ids : Identities) (facts : List LedgerFact) (asset : AssetRef)
    (owner party : PartyId) (links : List Grant) : Prop where
  recorded : ∀ g ∈ links, .grant g ∈ facts
  onAsset : ∀ g ∈ links, g.asset = asset
  linked : links.IsChain fun g prev => g.prior = some (ids.grantId prev) ∧ g.grantor = prev.grantee
  fromOwner : ∃ g, links.getLast? = some g ∧ g.prior = none ∧ g.grantor = owner
  toParty : ∃ g, links.head? = some g ∧ g.grantee = party
  delegable : ∀ g ∈ links.tail, g.actions.contains .delegate = true
  unrevoked : ∀ g ∈ links, ∀ revoker, .revoke ⟨ids.grantId g, revoker⟩ ∈ facts →
    revoker ≠ g.grantor ∧ revoker ≠ owner

section Chain

variable {g : Grant} {owner : Option PartyId}

theorem Inner.Indexed.isRevoked_eq_false (hinner : inner.Indexed ids) :
    isRevoked inner (ids.grantId g) g owner = false ↔
      ∀ revoker, .revoke ⟨ids.grantId g, revoker⟩ ∈ inner.facts →
        revoker ≠ g.grantor ∧ owner ≠ some revoker := by
  unfold isRevoked
  rw [any_eq_false]
  constructor
  · intro hnone revoker hrevoke
    have hmem := Std.ExtTreeSet.mem_toList.2 (hinner.revoked_iff.2 hrevoke)
    simpa using hnone revoker hmem
  · intro hnone revoker hmem
    have hrevoke := hinner.revoked_iff.1 (Std.ExtTreeSet.mem_toList.1 hmem)
    simpa using hnone revoker hrevoke

/-- The chain of a grant, read off the log. -/
theorem Inner.Indexed.traces_iff (hinner : inner.Indexed ids)
    (hinj : Set.InjOn ids.grantId {g | .grant g ∈ inner.facts}) :
    Traces (grantAt inner) Grant.prior cur links ↔
      links.head?.map ids.grantId = cur ∧ (∀ g ∈ links, .grant g ∈ inner.facts) ∧
      links.IsChain (fun g prev => g.prior = some (ids.grantId prev)) ∧
      ∀ g, links.getLast? = some g → g.prior = none := by
  induction links generalizing cur with
  | nil =>
    constructor
    · intro htraces
      cases htraces
      simp
    · rintro ⟨hcur, _⟩
      cases hcur
      exact .finish
  | cons g rest ih =>
    have hhop : Traces (grantAt inner) Grant.prior cur (g :: rest) ↔
        some (ids.grantId g) = cur ∧ .grant g ∈ inner.facts ∧
          Traces (grantAt inner) Grant.prior g.prior rest := by
      constructor
      · intro htraces
        cases htraces with
        | hop hitem hrest =>
          obtain ⟨hg, hid⟩ := (hinner.grantAt_iff hinj).1 hitem
          exact ⟨congrArg some hid, hg, hrest⟩
      · rintro ⟨rfl, hg, hrest⟩
        exact .hop ((hinner.grantAt_iff hinj).2 ⟨hg, rfl⟩) hrest
    rw [hhop, ih]
    cases rest with
    | nil =>
      simp only [List.head?_nil, Option.map_none, not_mem_nil, false_implies,
        implies_true, isChain_nil, List.getLast?_nil, reduceCtorEq, and_true,
        List.head?_cons, Option.map_some, mem_cons, or_false, forall_eq,
        isChain_singleton, List.getLast?_singleton, Option.some.injEq, forall_eq',
        true_and]
      tauto
    | cons p rest =>
      simp only [List.head?_cons, Option.map_some, isChain_cons_cons,
        List.getLast?_cons_cons, forall_mem_cons]
      tauto

/-- Along the chain of a grant, soundness is what the hops say one by one. -/
theorem sound_iff (hprior : links.IsChain fun g prev => g.prior = some (ids.grantId prev))
    (hroot : ∀ g, links.getLast? = some g → g.prior = none) :
    Sound ids inner owner links ↔
      (∀ g ∈ links, isRevoked inner (ids.grantId g) g owner = false) ∧
      links.IsChain (fun g prev => g.grantor = prev.grantee ∧ g.asset = prev.asset) ∧
      (∀ g, links.getLast? = some g → owner = some g.grantor) ∧
      ∀ g ∈ links.tail, g.actions.contains .delegate = true := by
  induction links with
  | nil => simp [Sound]
  | cons g rest ih =>
    cases rest with
    | nil =>
      have hnone : g.prior = none := hroot g rfl
      simp [Sound, linkHolds, hnone]
    | cons p rest =>
      rw [isChain_cons_cons] at hprior
      have hlink : linkHolds owner (narrowed (p :: rest)) (p :: rest).head? g = true ↔
          (g.grantor = p.grantee ∧ g.asset = p.asset) ∧
            ∀ g ∈ p :: rest, g.actions.contains .delegate = true := by
        rw [← contains_narrowed]
        simp [linkHolds, hprior.1, eq_comm (a := p.grantee), eq_comm (a := p.asset)]
      have hrest := ih hprior.2 (by simpa [List.getLast?_cons_cons] using hroot)
      rw [Sound, hrest, hlink]
      simp only [isChain_cons_cons, List.getLast?_cons_cons, tail_cons,
        forall_mem_cons]
      tauto

theorem asset_eq_of_isChain
    (hchain : (g :: links).IsChain fun g prev => g.grantor = prev.grantee ∧ g.asset = prev.asset) :
    ∀ g' ∈ g :: links, g'.asset = g.asset := by
  induction links generalizing g with
  | nil => simp
  | cons p rest ih =>
    rw [isChain_cons_cons] at hchain
    intro g' hg'
    rcases mem_cons.1 hg' with rfl | hrest
    · rfl
    · rw [ih hchain.2 g' hrest, hchain.1.2]

theorem isChain_and {α : Type} {R S : α → α → Prop} {l : List α} :
    l.IsChain (fun a b => R a b ∧ S a b) ↔ l.IsChain R ∧ l.IsChain S := by
  induction l with
  | nil => simp
  | cons a l ih =>
    cases l with
    | nil => simp
    | cons b l =>
      simp only [isChain_cons_cons, ih]
      tauto

/-- A sound chain of a grant given to a party on an asset is a delegation chain. -/
theorem Inner.Indexed.delegationChain_iff (hinner : inner.Indexed ids)
    (hinj : Set.InjOn ids.grantId {g | .grant g ∈ inner.facts}) {party : PartyId}
    {asset : AssetRef} :
    (∃ gid ∈ inner.grantsByGranteeAsset (party, asset),
        Traces (grantAt inner) Grant.prior (some gid) links ∧
        Sound ids inner (inner.bindings asset) links) ↔
      ∃ owner, .bind ⟨asset, owner⟩ ∈ inner.facts ∧
        DelegationChain ids inner.facts asset owner party links := by
  constructor
  · rintro ⟨gid, hgid, htraces, hsound⟩
    obtain ⟨hhead, hrecorded, hprior, hroot⟩ := (hinner.traces_iff hinj).1 htraces
    obtain ⟨hstands, hlinks, howner, hdelegable⟩ := (sound_iff hprior hroot).1 hsound
    cases links with
    | nil => cases hhead
    | cons leaf rest =>
      obtain ⟨g, hg, hid, hparty, hasset⟩ := hinner.held_iff.1 hgid
      have hleaf : leaf = g := by
        apply hinj (hrecorded leaf (mem_cons_self ..)) hg
        rw [hid]
        exact Option.some.inj hhead
      subst hleaf
      obtain ⟨last, hlast⟩ : ∃ last, (leaf :: rest).getLast? = some last :=
        ⟨_, List.getLast?_eq_some_getLast (by simp)⟩
      have hbound := howner last hlast
      refine ⟨last.grantor, hinner.bound_iff.1 hbound, ?_⟩
      exact
        { recorded := hrecorded
          onAsset := fun g hg => (asset_eq_of_isChain hlinks g hg).trans hasset
          linked := isChain_and.2 ⟨hprior, hlinks.imp fun _ _ h => h.1⟩
          fromOwner := ⟨last, hlast, hroot last hlast, rfl⟩
          toParty := ⟨leaf, rfl, hparty⟩
          delegable := hdelegable
          unrevoked := by
            intro g hg revoker hrevoke
            obtain ⟨hgrantor, hnotOwner⟩ :=
              hinner.isRevoked_eq_false.1 (hstands g hg) revoker hrevoke
            rw [hbound] at hnotOwner
            exact ⟨hgrantor, fun heq => hnotOwner (by rw [heq])⟩ }
  · rintro ⟨owner, hbind, hchain⟩
    have hbound : inner.bindings asset = some owner := hinner.bound_iff.2 hbind
    obtain ⟨hprior, hgrantors⟩ := isChain_and.1 hchain.linked
    obtain ⟨last, hlast, hnone, hfrom⟩ := hchain.fromOwner
    obtain ⟨leaf, hleaf, hparty⟩ := hchain.toParty
    have hroot : ∀ g, links.getLast? = some g → g.prior = none := by
      intro g hg
      obtain rfl : last = g := Option.some.inj (hlast.symm.trans hg)
      exact hnone
    have hleafMem : leaf ∈ links := mem_of_mem_head? hleaf
    refine ⟨ids.grantId leaf, hinner.held_iff.2 ⟨leaf, hchain.recorded leaf hleafMem, rfl,
      hparty, hchain.onAsset leaf hleafMem⟩, ?_, ?_⟩
    · exact (hinner.traces_iff hinj).2 ⟨by simp [hleaf], hchain.recorded, hprior, hroot⟩
    refine (sound_iff hprior hroot).2 ⟨?_, ?_, ?_, hchain.delegable⟩
    · intro g hg
      apply hinner.isRevoked_eq_false.2
      intro revoker hrevoke
      obtain ⟨hgrantor, hnotOwner⟩ := hchain.unrevoked g hg revoker hrevoke
      refine ⟨hgrantor, ?_⟩
      rw [hbound]
      exact fun heq => hnotOwner (Option.some.inj heq).symm
    · refine isChain_and.2 ⟨hgrantors, ?_⟩
      exact List.IsChain.imp_of_mem_imp (fun a b ha hb _ =>
        (hchain.onAsset a ha).trans (hchain.onAsset b hb).symm) hgrantors
    · intro g hg
      obtain rfl : last = g := Option.some.inj (hlast.symm.trans hg)
      rw [hbound, hfrom]

end Chain

/-- A chain through a grant that was revoked by its grantor or by the owner is not sound. -/
theorem Inner.Indexed.not_sound_of_revoked (hinner : inner.Indexed ids)
    (hinj : Set.InjOn ids.grantId {g | .grant g ∈ inner.facts})
    (hheld : gid ∈ inner.grantsByGranteeAsset (party, asset))
    (htraces : Traces (grantAt inner) Grant.prior (some gid) links) (hg : g ∈ links)
    (hrevoke : .revoke ⟨ids.grantId g, revoker⟩ ∈ inner.facts)
    (hauthorized : revoker = g.grantor ∨ .bind ⟨g.asset, revoker⟩ ∈ inner.facts) :
    ¬ Sound ids inner (inner.bindings asset) links := by
  intro hsound
  obtain ⟨owner, hbind, hchain⟩ :=
    (hinner.delegationChain_iff hinj).1 ⟨gid, hheld, htraces, hsound⟩
  obtain ⟨hgrantor, hnotOwner⟩ := hchain.unrevoked g hg revoker hrevoke
  rcases hauthorized with hself | hbound
  · exact hgrantor hself
  rw [hchain.onAsset g hg, ← hinner.bound_iff] at hbound
  rw [← hinner.bound_iff, hbound] at hbind
  exact hnotOwner (Option.some.inj hbind)

theorem injOn_facts (hops : ops ⊆ offered) (hinj : Set.InjOn ids.grantId {g | .grant g ∈ offered}) :
    Set.InjOn ids.grantId {g | .grant g ∈ (ledgerAfter ids ops).facts} := by
  apply hinj.mono
  intro g hg
  have hoffered := (grant_offered indexed_empty hg).resolve_left (by simp)
  exact hops hoffered

/-- Authority is exact and revocation is final. After any operations, a party holds an
action exactly if a chain of at most 64 grants conveys it; and once a grant is revoked by
its grantor or by the owner of its asset, whatever is appended later no chain through it
conveys an action or a warrant to anyone. -/
theorem authority_exact_revocation_final (ids : Identities) (ops more : List Append)
    (hinj : Set.InjOn ids.grantId {g | .grant g ∈ ops ++ more}) :
    (∀ party asset action,
      isAuthorized ids (ledgerAfter ids ops) party asset action = true ↔
        ∃ owner links, .bind ⟨asset, owner⟩ ∈ (ledgerAfter ids ops).facts ∧
          DelegationChain ids (ledgerAfter ids ops).facts asset owner party links ∧
          links.length ≤ 64 ∧ ∀ g ∈ links, g.actions.contains action = true) ∧
    (∀ g revoker, .revoke ⟨ids.grantId g, revoker⟩ ∈ (ledgerAfter ids ops).facts →
      (revoker = g.grantor ∨ .bind ⟨g.asset, revoker⟩ ∈ (ledgerAfter ids ops).facts) →
      ∀ leaf links,
        Traces (grantAt (ledgerAfter ids (ops ++ more))) Grant.prior (some leaf) links → g ∈ links →
        ∀ party asset,
          (∀ actions, (leaf, actions) ∉
            (readEffectiveGrants ids (ledgerAfter ids (ops ++ more)) party asset).perGrant) ∧
          ∀ root gws, readEffectiveGrantWarrants ids (ledgerAfter ids (ops ++ more)) party asset
            root = .ok gws → ∀ gw ∈ gws, gw.leaf ≠ leaf) := by
  constructor
  · intro party asset action
    have hinner : (ledgerAfter ids ops).Indexed ids := indexed_ledgerAfter ops
    have hfacts := injOn_facts (subset_append_left ops more) hinj
    rw [isAuthorized_iff]
    constructor
    · rintro ⟨gid, hgid, links, htraces, hlen, hsound, hactions⟩
      obtain ⟨owner, hbind, hchain⟩ :=
        (hinner.delegationChain_iff hfacts).1 ⟨gid, hgid, htraces, hsound⟩
      exact ⟨owner, links, hbind, hchain, hlen, hactions⟩
    · rintro ⟨owner, links, hbind, hchain, hlen, hactions⟩
      obtain ⟨gid, hgid, htraces, hsound⟩ :=
        (hinner.delegationChain_iff hfacts).2 ⟨owner, hbind, hchain⟩
      exact ⟨gid, hgid, links, htraces, hlen, hsound, hactions⟩
  · intro g revoker hrevoke hauthorized leaf links htraces hg party asset
    have hinner : (ledgerAfter ids (ops ++ more)).Indexed ids := indexed_ledgerAfter _
    have hfacts := injOn_facts (List.Subset.refl _) hinj
    have hgrows : (ledgerAfter ids ops).facts <+: (ledgerAfter ids (ops ++ more)).facts := by
      have hindexed : (ledgerAfter ids ops).Indexed ids := indexed_ledgerAfter ops
      have hmore := facts_foldl hindexed more
      rwa [ledgerAfter, ledgerAfter, foldl_append]
    have hunsound : ∀ gid ∈ (ledgerAfter ids (ops ++ more)).grantsByGranteeAsset (party, asset),
        gid = leaf → ∀ ownerRoot cf, foldChain ids (ledgerAfter ids (ops ++ more)) gid
          ((ledgerAfter ids (ops ++ more)).bindings asset) ownerRoot ≠ .ok (some cf) := by
      rintro gid hgid rfl ownerRoot cf hfold
      obtain ⟨links', htraces', _, hsound, _⟩ := foldChain_ok_some hfold
      obtain rfl := htraces.unique htraces'
      exact hinner.not_sound_of_revoked hfacts hgid htraces hg (hgrows.subset hrevoke)
        (hauthorized.imp_right fun hbind => hgrows.subset hbind) hsound
    constructor
    · intro actions hmem
      obtain ⟨gid, hgid, hactive⟩ := mem_filterMap.1 hmem
      obtain ⟨cf, hfold, _, hentry⟩ := activeActions_eq_some.1 hactive
      exact hunsound gid hgid (congrArg Prod.fst hentry).symm none cf hfold
    · intro root gws hread gw hgw hleaf
      obtain ⟨gid, hgid, hactive⟩ := ((collectWarrants_ok hread).2 gw).1 hgw
      obtain ⟨cf, hfold, hsame, _⟩ := activeWarrant_ok_some hactive
      exact hunsound gid hgid (hsame.symm.trans hleaf) (some root) cf hfold

/-- Tells apart the few texts of the samples. -/
def shortHash (bytes : List UInt8) : ByteVec 32 :=
  .ofNat 32 (bytes.foldl (fun n b => 257 * n + b.toNat + 1) 0)

def sharingIds : Identities where
  blake3 := shortHash
  encodeBinding b := utf8Bytes b.owner
  encodeGrant g := utf8Bytes (g.runtimeScope.name ++ g.grantee)

def listed (actions : List CatalogAction) : CatalogActionSet :=
  .allow (.ofList actions)

def anyScope : Role := ⟨"any", 1, {}, ""⟩

def report : AssetRef := .path ⟨"acme", "research", "report"⟩

def leadGrant : Grant :=
  .root report "admin" "lead" (listed [.read, .delegate]) anyScope

def mateGrant : Grant :=
  .delegated (sharingIds.grantId leadGrant) report "lead" "mate" (listed [.read]) anyScope

def sharing : List Append :=
  [.binding ⟨report, "admin"⟩, .grant leadGrant, .grant mateGrant]

def takenBack : List Append :=
  sharing ++ [.revocation ⟨sharingIds.grantId leadGrant, "admin"⟩]

theorem injOn_sharing : Set.InjOn sharingIds.grantId
    {g | .grant g ∈ takenBack ++ [.grant leadGrant, .reopen]} := by
  have hne : sharingIds.grantId leadGrant ≠ sharingIds.grantId mateGrant := by decide +kernel
  have hmem : ∀ g, Append.grant g ∈ takenBack ++ [.grant leadGrant, .reopen] →
      g = leadGrant ∨ g = mateGrant := by
    intro g hg
    simp only [takenBack, sharing, cons_append, nil_append, mem_cons,
      not_mem_nil, reduceCtorEq, Append.grant.injEq, false_or, or_false] at hg
    tauto
  intro a ha b hb heq
  rcases hmem a ha with rfl | rfl <;> rcases hmem b hb with rfl | rfl
  · rfl
  · exact absurd heq hne
  · exact absurd heq.symm hne
  · rfl

/-- The mate reads by a chain of two grants, and no longer once the first is revoked, even
if it is granted again and the ledger is opened anew. -/
theorem authority_exact_revocation_final_sharing :
    (∃ owner links, .bind ⟨report, owner⟩ ∈ (ledgerAfter sharingIds sharing).facts ∧
      DelegationChain sharingIds (ledgerAfter sharingIds sharing).facts report owner "mate"
        links ∧ links.length ≤ 64 ∧ ∀ g ∈ links, g.actions.contains .read = true) ∧
    ∀ actions, (sharingIds.grantId mateGrant, actions) ∉ (readEffectiveGrants sharingIds
      (ledgerAfter sharingIds (takenBack ++ [.grant leadGrant, .reopen])) "mate" report).perGrant :=
      by
  constructor
  · have hinj : Set.InjOn sharingIds.grantId {g | .grant g ∈ sharing ++ []} := by
      apply injOn_sharing.mono
      intro g hg
      have hshared : Append.grant g ∈ sharing := by simpa using hg
      exact mem_append_left _ (mem_append_left _ hshared)
    exact ((authority_exact_revocation_final sharingIds sharing [] hinj).1 "mate" report
      .read).1 (by decide +kernel)
  · have hlead : grantAt (ledgerAfter sharingIds (takenBack ++ [.grant leadGrant, .reopen]))
        (sharingIds.grantId leadGrant) = some leadGrant := by decide +kernel
    have hmate : grantAt (ledgerAfter sharingIds (takenBack ++ [.grant leadGrant, .reopen]))
        (sharingIds.grantId mateGrant) = some mateGrant := by decide +kernel
    exact ((authority_exact_revocation_final sharingIds takenBack [.grant leadGrant, .reopen]
      injOn_sharing).2 leadGrant "admin" (by decide +kernel) (.inl rfl)
      (sharingIds.grantId mateGrant) [mateGrant, leadGrant] (.hop hmate (.hop hlead .finish))
      (by simp) "mate" report).1

/-- The lead may also use the report, and may pass that on. -/
def useGrant : Grant :=
  .root report "admin" "lead" (listed [.use, .delegate]) ⟨"use", 1, {}, ""⟩

/-- A grant to read that rests on the grant to use. -/
def misplacedGrant : Grant :=
  .delegated (sharingIds.grantId useGrant) report "lead" "mate" (listed [.read]) anyScope

def misplaced : Inner :=
  ledgerAfter sharingIds
    [.binding ⟨report, "admin"⟩, .grant leadGrant, .grant useGrant, .grant misplacedGrant]

/-- From the owner to the lead to the mate: each hop lists what is read, the first may be
delegated and nothing was revoked. The mate still may not read, as the second does not name the
first as its prior. -/
theorem unlinked_chain_conveys_nothing :
    ([leadGrant, useGrant, misplacedGrant].map sharingIds.grantId).Nodup ∧
    .bind ⟨report, "admin"⟩ ∈ misplaced.facts ∧
    (∀ g ∈ [misplacedGrant, leadGrant], .grant g ∈ misplaced.facts ∧ g.asset = report ∧
      g.actions.contains .read = true) ∧
    leadGrant.grantor = "admin" ∧ misplacedGrant.grantor = leadGrant.grantee ∧
    misplacedGrant.grantee = "mate" ∧ leadGrant.actions.contains .delegate = true ∧
    (∀ revocation, .revoke revocation ∉ misplaced.facts) ∧
    isAuthorized sharingIds misplaced "mate" report .read = false := by
  have hfacts : misplaced.facts = [.bind ⟨report, "admin"⟩, .grant leadGrant, .grant useGrant,
      .grant misplacedGrant] := by decide +kernel
  rw [hfacts]
  refine ⟨by decide +kernel, by simp, ?_, rfl, rfl, rfl, by decide +kernel, by simp, ?_⟩
  · decide +kernel
  · decide +kernel

end Kortecx.Catalog
