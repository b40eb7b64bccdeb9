import Kortecx.Warrant.Narrow

/-!
The facts of the grant ledger of the catalog. An asset is bound to an owner, a grant
conveys actions on it and a scope to run it in, and a delegated grant names the grant it
rests on. Every fact is filed under the hash of its content.
-/

namespace Kortecx.Catalog

open Lib Warrant Std

/-- Who acts: an opaque handle. -/
abbrev PartyId := String

structure AssetPath where
  «namespace» : String
  collection : String
  name : String
deriving DecidableEq, Repr

inductive AssetRef where
  | path (path : AssetPath)
  | signature (hash : ByteVec 32)
deriving DecidableEq, Repr

def AssetRef.display : AssetRef → String
  | .path p => p.«namespace» ++ "/" ++ p.collection ++ "/" ++ p.name
  | .signature hash => "sig:" ++ toHex hash.toList

inductive CatalogAction where
  | read
  | use
  | register
  | delegate
deriving DecidableEq, Repr

namespace CatalogAction

def asU8 : CatalogAction → Nat
  | .read => 0
  | .use => 1
  | .register => 2
  | .delegate => 3

instance : Ord CatalogAction :=
  ⟨fun a b => compare a.asU8 b.asU8⟩

instance : TransOrd CatalogAction :=
  transOrd_of_on (f := asU8) fun _ _ => rfl

instance : LawfulEqOrd CatalogAction :=
  lawfulEqOrd_of_on (f := asU8) (fun _ _ => rfl) fun a b h => by
    cases a <;> cases b <;> first | rfl | simp [asU8] at h

def all : ExtTreeSet CatalogAction :=
  .ofList ([.read, .use, .register, .delegate] : List CatalogAction)

theorem mem_all (a : CatalogAction) : a ∈ all := by
  cases a <;> decide

end CatalogAction

abbrev CatalogActionSet := AllowScope CatalogAction

namespace CatalogActionSet

@[match_pattern]
abbrev allowList (actions : ExtTreeSet CatalogAction) : CatalogActionSet :=
  AllowScope.only actions

def all : CatalogActionSet := allowList CatalogAction.all

def allow (actions : ExtTreeSet CatalogAction) : CatalogActionSet :=
  if actions.isEmpty then .none else allowList actions

def narrow : CatalogActionSet → CatalogActionSet → CatalogActionSet
  | allowList a, allowList b => allow (a.filter b.contains)
  | _, _ => .none

def union : CatalogActionSet → CatalogActionSet → CatalogActionSet
  | .none, x => x
  | x, .none => x
  | allowList a, allowList b => allow (a ∪ b)

def contains : CatalogActionSet → CatalogAction → Bool
  | .none, _ => false
  | allowList s, action => s.contains action

def isEmpty : CatalogActionSet → Bool
  | .none => true
  | allowList _ => false

variable {a b : CatalogActionSet} {x : CatalogAction}

@[simp]
theorem contains_all : all.contains x = true :=
  CatalogAction.mem_all x

@[simp]
theorem contains_allow :
    (allow s).contains x = s.contains x := by
  unfold allow
  split
  · rename_i hempty
    have hs : s = ∅ := ExtTreeSet.isEmpty_iff.1 hempty
    simp [contains, hs]
  · rfl

@[simp]
theorem contains_narrow : (narrow a b).contains x = (a.contains x && b.contains x) := by
  cases a with
  | none => rfl
  | only s =>
    cases b with
    | none => exact (Bool.and_false _).symm
    | only t =>
      change (allow (s.filter t.contains)).contains x = (s.contains x && t.contains x)
      rw [contains_allow, Bool.eq_iff_iff]
      simp

@[simp]
theorem contains_union : (union a b).contains x = (a.contains x || b.contains x) := by
  cases a with
  | none => rfl
  | only s =>
    cases b with
    | none => exact (Bool.or_false _).symm
    | only t =>
      change (allow (s ∪ t)).contains x = (s.contains x || t.contains x)
      rw [contains_allow, Bool.eq_iff_iff]
      simp

theorem isEmpty_eq_false (hx : a.contains x = true) : a.isEmpty = false := by
  cases a with
  | none => cases hx
  | only s => rfl

end CatalogActionSet

structure GrantId where
  bytes : ByteVec 32
deriving DecidableEq, Repr

structure FactId where
  bytes : ByteVec 32
deriving DecidableEq, Repr

structure AssetBinding where
  asset : AssetRef
  owner : PartyId
deriving DecidableEq, Repr

/-- What one party conveys to another on an asset. A delegated grant names the grant that
its grantor holds. -/
structure Grant where
  schemaVersion : UInt16
  asset : AssetRef
  grantor : PartyId
  grantee : PartyId
  actions : CatalogActionSet
  runtimeScope : Role
  prior : Option GrantId
deriving DecidableEq

def GRANT_SCHEMA_VERSION : UInt16 := 1

namespace Grant

def root (asset : AssetRef) (grantor grantee : PartyId) (actions : CatalogActionSet)
    (runtimeScope : Role) : Grant :=
  ⟨GRANT_SCHEMA_VERSION, asset, grantor, grantee, actions, runtimeScope, none⟩

def delegated (prior : GrantId) (asset : AssetRef) (grantor grantee : PartyId)
    (actions : CatalogActionSet) (runtimeScope : Role) : Grant :=
  ⟨GRANT_SCHEMA_VERSION, asset, grantor, grantee, actions, runtimeScope, some prior⟩

end Grant

/-- An intent: whether the revoker may is decided when the ledger is read. -/
structure Revocation where
  grantId : GrantId
  revoker : PartyId
deriving DecidableEq, Repr

inductive LedgerFact where
  | bind (binding : AssetBinding)
  | grant (grant : Grant)
  | revoke (revocation : Revocation)
deriving DecidableEq

/-- The hash and the canonical encodings that content ids are made of. -/
structure Identities where
  blake3 : List UInt8 → ByteVec 32
  encodeBinding : AssetBinding → List UInt8
  encodeGrant : Grant → List UInt8

namespace Identities

variable (ids : Identities)

def bindingId (binding : AssetBinding) : FactId :=
  ⟨ids.blake3 (utf8Bytes "kx-catalog/asset-binding/v1" ++ ids.encodeBinding binding)⟩

def grantId (grant : Grant) : GrantId :=
  ⟨ids.blake3 (utf8Bytes "kx-catalog/grant/v1" ++ ids.encodeGrant grant)⟩

def revocationIdempotencyKey (grantId : GrantId) (revoker : PartyId) : FactId :=
  ⟨ids.blake3 (utf8Bytes "kx-catalog/revocation/v1" ++ grantId.bytes.toList ++ utf8Bytes revoker)⟩

def factId : LedgerFact → FactId
  | .bind binding => ids.bindingId binding
  | .grant grant => ⟨(ids.grantId grant).bytes⟩
  | .revoke r => ids.revocationIdempotencyKey r.grantId r.revoker

end Identities

end Kortecx.Catalog
