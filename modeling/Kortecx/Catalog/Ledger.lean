import Kortecx.Catalog.Grant
import Kortecx.Lib.LogIndex
import Kortecx.Lib.PointerChain

/-!
The grant ledger: an append-only log of facts with the indexes that its reads go through.
Nothing is decided on append but ownership and repetition; what a party holds is computed
by following a grant back to its root and narrowing on the way down again. The indexes
are shown to say what the log says, whatever is appended.
-/

namespace Kortecx.Catalog

open Lib Warrant List Function

def MAX_DELEGATION_DEPTH : Nat := 64

inductive AppendOutcome where
  | appended (factId : FactId)
  | alreadyPresent (factId : FactId)
deriving DecidableEq, Repr

inductive LedgerError where
  | immutabilityConflict (factId : String)
  | ownerConflict (detail : String)
deriving DecidableEq, Repr

/-- The log and its indexes. A key that an index lacks has the default. -/
structure Inner where
  facts : List LedgerFact := []
  byId : FactId → Option Nat := fun _ => none
  bindings : AssetRef → Option PartyId := fun _ => none
  grants : GrantId → Option Nat := fun _ => none
  grantsByGranteeAsset : PartyId × AssetRef → List GrantId := fun _ => []
  revoked : GrantId → Std.ExtTreeSet PartyId := fun _ => ∅

structure ChainFold where
  actions : CatalogActionSet
  warrant : Option WarrantSpec

/-- The variables of the walk from the root down. -/
structure Hop where
  parentActions : CatalogActionSet
  parentWarrant : Option WarrantSpec
  parent : Option Grant

structure EffectiveGrants where
  perGrant : List (GrantId × CatalogActionSet)
  actions : CatalogActionSet

structure GrantWarrant where
  leaf : GrantId
  actions : CatalogActionSet
  warrant : WarrantSpec

section Ledger

variable (ids : Identities)

def applyFact (inner : Inner) (fact : LedgerFact) : Inner :=
  let pos := inner.facts.length
  let indexed : Inner :=
    match fact with
    | .bind b =>
      { inner with bindings := update inner.bindings b.asset (some b.owner) }
    | .grant g =>
      { inner with
        grants := update inner.grants (ids.grantId g) (some pos)
        grantsByGranteeAsset := update inner.grantsByGranteeAsset (g.grantee, g.asset)
          (inner.grantsByGranteeAsset (g.grantee, g.asset) ++ [ids.grantId g]) }
    | .revoke r =>
      { inner with
        revoked := update inner.revoked r.grantId
          ((inner.revoked r.grantId).insert r.revoker) }
  { indexed with
    byId := update inner.byId (ids.factId fact) (some pos)
    facts := inner.facts ++ [fact] }

def containsFact (inner : Inner) (fid : FactId) : Option LedgerFact :=
  (inner.byId fid).bind (inner.facts[·]?)

def appendBinding (inner : Inner) (binding : AssetBinding) :
    Inner × Except LedgerError AppendOutcome :=
  let fact := LedgerFact.bind binding
  match inner.bindings binding.asset with
  | some existing =>
    if existing ≠ binding.owner then
      (inner, .error (.ownerConflict
        ("asset " ++ binding.asset.display ++ " already bound to a different owner")))
    else
      (inner, .ok (.alreadyPresent (ids.factId fact)))
  | none => (applyFact ids inner fact, .ok (.appended (ids.factId fact)))

/-- Grants and revocations pass the same gate. -/
def appendFact (inner : Inner) (fact : LedgerFact) : Inner × Except LedgerError AppendOutcome :=
  let fid := ids.factId fact
  match containsFact inner fid with
  | some existing =>
    if existing = fact then
      (inner, .ok (.alreadyPresent fid))
    else
      (inner, .error (.immutabilityConflict (toHex fid.bytes.toList)))
  | none => (applyFact ids inner fact, .ok (.appended fid))

def appendGrant (inner : Inner) (grant : Grant) : Inner × Except LedgerError AppendOutcome :=
  appendFact ids inner (.grant grant)

def appendRevocation (inner : Inner) (revocation : Revocation) :
    Inner × Except LedgerError AppendOutcome :=
  appendFact ids inner (.revoke revocation)

/-- What opening a stored ledger does with the log. -/
def rebuild (facts : List LedgerFact) : Inner :=
  facts.foldl (applyFact ids) {}

def grantAt (inner : Inner) (gid : GrantId) : Option Grant :=
  (inner.grants gid).bind fun pos =>
    match inner.facts[pos]? with
    | some (.grant g) => some g
    | _ => none

def isRevoked (inner : Inner) (gid : GrantId) (grant : Grant) (owner : Option PartyId) : Bool :=
  (inner.revoked gid).toList.any fun r => r = grant.grantor || owner = some r

/-- Whether the grant may stand where it does in the chain. -/
def linkHolds (owner : Option PartyId) (parentActions : CatalogActionSet) (parent : Option Grant)
    (g : Grant) : Bool :=
  match g.prior with
  | some _ =>
    match parent with
    | none => false
    | some p =>
      !(p.grantee != g.grantor || p.asset != g.asset) && parentActions.contains .delegate
  | none => owner = some g.grantor

def foldHop (inner : Inner) (owner : Option PartyId) (hop : Hop) (g : Grant) :
    Except NarrowingError (Option Hop) :=
  if isRevoked inner (ids.grantId g) g owner then
    .ok none
  else if !linkHolds owner hop.parentActions hop.parent g then
    .ok none
  else
    match hop.parentWarrant with
    | none => .ok (some ⟨g.actions.narrow hop.parentActions, none, some g⟩)
    | some pw =>
      (intersect pw g.runtimeScope).map fun w =>
        some ⟨g.actions.narrow hop.parentActions, some w, some g⟩

/-- The walk down a chain that is given leaf first. -/
def foldHops (inner : Inner) (owner : Option PartyId) (ownerRoot : Option WarrantSpec) :
    List Grant → Except NarrowingError (Option Hop)
  | [] => .ok (some ⟨.all, ownerRoot, none⟩)
  | g :: towardsRoot =>
    match foldHops inner owner ownerRoot towardsRoot with
    | .error e => .error e
    | .ok none => .ok none
    | .ok (some hop) => foldHop ids inner owner hop g

def foldChain (inner : Inner) (leaf : GrantId) (owner : Option PartyId)
    (ownerRoot : Option WarrantSpec) : Except NarrowingError (Option ChainFold) :=
  match collect (grantAt inner) Grant.prior MAX_DELEGATION_DEPTH [] (some leaf) with
  | none => .ok none
  | some chain =>
    (foldHops ids inner owner ownerRoot chain).map
      (Option.map fun hop => ⟨hop.parentActions, hop.parentWarrant⟩)

def EffectiveGrants.fromParts (perGrant : List (GrantId × CatalogActionSet)) : EffectiveGrants where
  perGrant := perGrant
  actions := perGrant.foldl (fun actions entry => actions.union entry.2) .none

/-- What a leaf adds to the effective grants. -/
def activeActions (inner : Inner) (owner : Option PartyId) (gid : GrantId) :
    Option (GrantId × CatalogActionSet) :=
  match foldChain ids inner gid owner none with
  | .ok (some cf) => if cf.actions.isEmpty then none else some (gid, cf.actions)
  | _ => none

def readEffectiveGrants (inner : Inner) (party : PartyId) (asset : AssetRef) : EffectiveGrants :=
  .fromParts ((inner.grantsByGranteeAsset (party, asset)).filterMap
    (activeActions ids inner (inner.bindings asset)))

def activeWarrant (inner : Inner) (owner : Option PartyId) (ownerRoot : WarrantSpec)
    (gid : GrantId) : Except NarrowingError (Option GrantWarrant) :=
  (foldChain ids inner gid owner (some ownerRoot)).map fun folded =>
    folded.bind fun cf =>
      match cf.actions.isEmpty, cf.warrant with
      | false, some w => some ⟨gid, cf.actions, w⟩
      | _, _ => none

/-- The loop over the leaves stops at the first that cannot be narrowed. -/
def collectWarrants (inner : Inner) (owner : Option PartyId) (ownerRoot : WarrantSpec) :
    List GrantId → Except NarrowingError (List GrantWarrant)
  | [] => .ok []
  | gid :: rest =>
    match activeWarrant ids inner owner ownerRoot gid with
    | .error e => .error e
    | .ok found => (collectWarrants inner owner ownerRoot rest).map (found.toList ++ ·)

def readEffectiveGrantWarrants (inner : Inner) (party : PartyId) (asset : AssetRef)
    (ownerRoot : WarrantSpec) : Except NarrowingError (List GrantWarrant) :=
  collectWarrants ids inner (inner.bindings asset) ownerRoot
    (inner.grantsByGranteeAsset (party, asset))

def isAuthorized (inner : Inner) (party : PartyId) (asset : AssetRef) (action : CatalogAction) :
    Bool :=
  (readEffectiveGrants ids inner party asset).actions.contains action

/-- What callers ask of a ledger; a stored one may also be closed and opened again. -/
inductive Append where
  | binding (binding : AssetBinding)
  | grant (grant : Grant)
  | revocation (revocation : Revocation)
  | reopen

def append (inner : Inner) : Append → Inner
  | .binding b => (appendBinding ids inner b).1
  | .grant g => (appendGrant ids inner g).1
  | .revocation r => (appendRevocation ids inner r).1
  | .reopen => rebuild ids inner.facts

def ledgerAfter (ops : List Append) : Inner :=
  ops.foldl (append ids) {}

end Ledger

-- What each kind of fact files, and under which key.
def heldEntry (ids : Identities) : LedgerFact → Option ((PartyId × AssetRef) × GrantId)
  | .grant g => some ((g.grantee, g.asset), ids.grantId g)
  | _ => none

def revokedEntry : LedgerFact → Option (GrantId × PartyId)
  | .revoke r => some (r.grantId, r.revoker)
  | _ => none

def boundEntry : LedgerFact → Option (AssetRef × PartyId)
  | .bind b => some (b.asset, b.owner)
  | _ => none

structure Inner.Indexed (ids : Identities) (inner : Inner) : Prop where
  /-- Opening the stored log gives the same state again. -/
  rebuilt : rebuild ids inner.facts = inner
  grants : ∀ gid pos, inner.grants gid = some pos →
    ∃ g, inner.facts[pos]? = some (.grant g) ∧ ids.grantId g = gid
  filed : ∀ g, .grant g ∈ inner.facts → (inner.grants (ids.grantId g)).isSome = true
  held : Indexes (heldEntry ids) inner.facts fun key gid => gid ∈ inner.grantsByGranteeAsset key
  revoked : Indexes revokedEntry inner.facts fun gid revoker => revoker ∈ inner.revoked gid
  bound : Indexes boundEntry inner.facts fun asset owner => inner.bindings asset = some owner

section Indexed

variable {ids : Identities} {inner : Inner}

@[simp]
theorem facts_applyFact (fact : LedgerFact) :
    (applyFact ids inner fact).facts = inner.facts ++ [fact] := rfl

theorem indexed_empty : Inner.Indexed ids {} where
  rebuilt := rfl
  grants := by simp
  filed := by simp
  held := by simp [Indexes]
  revoked := by simp [Indexes]
  bound := by simp [Indexes]

variable (hinner : inner.Indexed ids)

include hinner

/-- An asset is bound when it has no owner yet; anything else may be filed at any time. -/
theorem Inner.Indexed.applyFact (hunbound : ∀ b, fact = .bind b → inner.bindings b.asset = none) :
    (applyFact ids inner fact).Indexed ids where
  rebuilt := by
    have hlog := hinner.rebuilt
    unfold rebuild at hlog ⊢
    rw [facts_applyFact, foldl_append, hlog]
    rfl
  grants := by
    intro gid pos hpos
    have hkept : ∀ pos, inner.grants gid = some pos →
        ∃ g, (inner.facts ++ [fact])[pos]? = some (.grant g) ∧ ids.grantId g = gid := by
      intro pos hpos
      obtain ⟨g, hg, hid⟩ := hinner.grants gid pos hpos
      exact ⟨g, getElem?_concat_eq_some.2 (.inl hg), hid⟩
    cases fact with
    | bind _ | revoke _ => exact hkept pos hpos
    | grant g =>
      simp only [Catalog.applyFact, update_apply] at hpos
      split at hpos
      · rename_i hgid
        cases hpos
        exact ⟨g, by simp, hgid.symm⟩
      · exact hkept pos hpos
  filed := by
    intro g hg
    rw [facts_applyFact, mem_append, mem_singleton] at hg
    cases fact with
    | bind _ | revoke _ => exact hinner.filed g (hg.resolve_right (by simp))
    | grant g' =>
      simp only [Catalog.applyFact, update_apply]
      split
      · rfl
      rename_i hother
      rcases hg with hg | hg
      · exact hinner.filed g hg
      cases hg
      exact absurd rfl hother
  held := by
    cases fact with
    | bind _ | revoke _ => exact hinner.held.skip rfl
    | grant g => exact hinner.held.push rfl fun _ _ => mem_update_concat
  revoked := by
    cases fact with
    | bind _ | grant _ => exact hinner.revoked.skip rfl
    | revoke r => exact hinner.revoked.push rfl fun _ _ => mem_update_insert
  bound := by
    cases fact with
    | grant _ | revoke _ => exact hinner.bound.skip rfl
    | bind b => exact hinner.bound.push rfl fun _ _ => update_eq_some_iff (hunbound b rfl)

variable {gid : GrantId}

theorem Inner.Indexed.held_iff :
    gid ∈ inner.grantsByGranteeAsset (party, asset) ↔
      ∃ g, .grant g ∈ inner.facts ∧ ids.grantId g = gid ∧ g.grantee = party ∧ g.asset = asset := by
  apply (hinner.held (party, asset) gid).trans
  constructor
  · rintro ⟨fact, hfact, hentry⟩
    cases fact with
    | bind _ | revoke _ => cases hentry
    | grant g =>
      simp only [heldEntry, Option.some.injEq, Prod.mk.injEq] at hentry
      exact ⟨g, hfact, hentry.2, hentry.1.1, hentry.1.2⟩
  · rintro ⟨g, hg, rfl, rfl, rfl⟩
    exact ⟨_, hg, rfl⟩

theorem Inner.Indexed.revoked_iff :
    revoker ∈ inner.revoked gid ↔ .revoke ⟨gid, revoker⟩ ∈ inner.facts := by
  apply (hinner.revoked gid revoker).trans
  constructor
  · rintro ⟨fact, hfact, hentry⟩
    cases fact with
    | bind _ | grant _ => cases hentry
    | revoke r =>
      cases hentry
      exact hfact
  · intro hfact
    exact ⟨_, hfact, rfl⟩

theorem Inner.Indexed.bound_iff :
    inner.bindings asset = some owner ↔ .bind ⟨asset, owner⟩ ∈ inner.facts := by
  apply (hinner.bound asset owner).trans
  constructor
  · rintro ⟨fact, hfact, hentry⟩
    cases fact with
    | grant _ | revoke _ => cases hentry
    | bind b =>
      cases hentry
      exact hfact
  · intro hfact
    exact ⟨_, hfact, rfl⟩

theorem Inner.Indexed.appendBinding (b : AssetBinding) :
    (appendBinding ids inner b).1.Indexed ids := by
  unfold Catalog.appendBinding
  cases howner : inner.bindings b.asset with
  | some existing =>
    dsimp only
    split <;> exact hinner
  | none =>
    apply hinner.applyFact
    intro b' hb'
    cases hb'
    exact howner

theorem Inner.Indexed.appendFact (hfact : ∀ b, fact ≠ .bind b) :
    (appendFact ids inner fact).1.Indexed ids := by
  unfold Catalog.appendFact
  dsimp only
  split
  · split <;> exact hinner
  · exact hinner.applyFact fun b hb => absurd hb (hfact b)

variable (ops : List Append) (op : Append)

theorem Inner.Indexed.append : (append ids inner op).Indexed ids := by
  cases op with
  | binding b => exact hinner.appendBinding b
  | grant _ | revocation _ => exact hinner.appendFact (by simp)
  | reopen =>
    change (rebuild ids inner.facts).Indexed ids
    rw [hinner.rebuilt]
    exact hinner

/-- The log only grows, by facts that were offered. -/
theorem facts_append :
    (append ids inner op).facts = inner.facts ∨
      ∃ fact, (append ids inner op).facts = inner.facts ++ [fact] ∧
        ∀ g, fact = .grant g → op = .grant g := by
  cases op with
  | reopen =>
    refine .inl ?_
    change (rebuild ids inner.facts).facts = inner.facts
    rw [hinner.rebuilt]
  | binding b =>
    simp only [append, appendBinding]
    split
    · split <;> exact .inl rfl
    · exact .inr ⟨_, rfl, by simp⟩
  | grant g =>
    simp only [append, appendGrant, appendFact]
    split
    · split <;> exact .inl rfl
    · exact .inr ⟨_, rfl, by simp⟩
  | revocation r =>
    simp only [append, appendRevocation, appendFact]
    split
    · split <;> exact .inl rfl
    · exact .inr ⟨_, rfl, by simp⟩

theorem Inner.Indexed.foldl :
    (ops.foldl (Catalog.append ids) inner).Indexed ids := by
  induction ops generalizing inner with
  | nil => exact hinner
  | cons op ops ih => exact ih (hinner.append op)

theorem facts_foldl : inner.facts <+: (ops.foldl (append ids) inner).facts := by
  induction ops generalizing inner with
  | nil => exact List.prefix_rfl
  | cons op ops ih =>
    refine List.IsPrefix.trans ?_ (ih (hinner.append op))
    rcases facts_append hinner op with hsame | ⟨fact, hmore, _⟩
    · rw [hsame]
    · exact ⟨[fact], hmore.symm⟩

theorem grant_offered {ops : List Append} (hg : .grant g ∈ (ops.foldl (append ids) inner).facts) :
    .grant g ∈ inner.facts ∨ .grant g ∈ ops := by
  induction ops generalizing inner with
  | nil => exact .inl hg
  | cons op ops ih =>
    rcases ih (hinner.append op) hg with hold | hlater
    · rcases facts_append hinner op with hsame | ⟨fact, hmore, hfact⟩
      · exact .inl (hsame ▸ hold)
      rw [hmore, mem_append, mem_singleton] at hold
      rcases hold with hold | hnew
      · exact .inl hold
      · exact .inr (mem_cons.2 (.inl (hfact g hnew.symm).symm))
    · exact .inr (mem_cons_of_mem _ hlater)

omit hinner in
theorem indexed_ledgerAfter : (ledgerAfter ids ops).Indexed ids :=
  indexed_empty.foldl ops

/-- A grant is found under its id, if no two grants of the log share one. -/
theorem Inner.Indexed.grantAt_iff (hinj : Set.InjOn ids.grantId {g | .grant g ∈ inner.facts}) :
    grantAt inner gid = some g ↔ .grant g ∈ inner.facts ∧ ids.grantId g = gid := by
  have hfound : ∀ pos, inner.grants gid = some pos → ∃ g', grantAt inner gid = some g' ∧
      .grant g' ∈ inner.facts ∧ ids.grantId g' = gid := by
    intro pos hpos
    obtain ⟨g', hg', hid⟩ := hinner.grants gid pos hpos
    exact ⟨g', by simp [grantAt, hpos, hg'], mem_of_getElem? hg', hid⟩
  constructor
  · intro hat
    cases hpos : inner.grants gid with
    | none => simp [grantAt, hpos] at hat
    | some pos =>
      obtain ⟨g', hat', hrest⟩ := hfound pos hpos
      obtain rfl : g' = g := Option.some.inj (hat'.symm.trans hat)
      exact hrest
  · rintro ⟨hg, rfl⟩
    obtain ⟨pos, hpos⟩ := Option.isSome_iff_exists.1 (hinner.filed g hg)
    obtain ⟨g', hat, hg', hid⟩ := hfound pos hpos
    rw [hat, hinj hg' hg hid]

end Indexed

end Kortecx.Catalog
