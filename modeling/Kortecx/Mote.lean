import Kortecx.Lib.Bytes

/-! The identity and dependency vocabulary of a Mote, the unit of work the
runtime schedules: content-derived ids, the non-determinism class, and the edges
a Mote declares to its parents. -/

namespace Kortecx.Mote

open Lib

/-- The 32-byte identity of a Mote. Maps keyed by it iterate in byte order. -/
@[ext]
structure MoteId where
  bytes : ByteVec 32
deriving DecidableEq, Repr

namespace MoteId

instance : Ord MoteId :=
  ⟨fun a b => compare a.bytes b.bytes⟩

instance : Std.TransOrd MoteId :=
  transOrd_of_on (f := MoteId.bytes) fun _ _ => rfl

instance : Std.LawfulEqOrd MoteId :=
  lawfulEqOrd_of_on (f := MoteId.bytes) (fun _ _ => rfl) fun _ _ => MoteId.ext

end MoteId

/-- The blake3 digest under which a payload lies in the content store. -/
@[ext]
structure ContentRef where
  bytes : ByteVec 32
deriving DecidableEq, Repr

@[ext]
structure MoteDefHash where
  bytes : ByteVec 32
deriving DecidableEq, Repr

/-- How an attempt may be repeated. -/
inductive NdClass where
  | pure
  | readOnlyNondet
  | worldMutating
deriving DecidableEq, Repr

instance : ByteTag NdClass where
  asU8
    | .pure => 0
    | .readOnlyNondet => 1
    | .worldMutating => 2
  fromU8
    | 0 => some .pure
    | 1 => some .readOnlyNondet
    | 2 => some .worldMutating
    | _ => none
  fromU8_asU8 a := by cases a <;> rfl
  asU8_of_fromU8 {b a} h := by split at h <;> cases h <;> rfl

/-- How a `WorldMutating` Mote makes its effect safe to attempt. -/
inductive EffectPattern where
  | idempotentByConstruction
  | stageThenCommit
  | validateThenCommit
deriving DecidableEq, Repr

inductive EdgeKind where
  | data
  | control
deriving DecidableEq, Repr

namespace EdgeKind

def asU8 : EdgeKind → UInt8
  | .data => 0
  | .control => 1

end EdgeKind

/-- A dependency edge. `nonCascade` is the author's opt-out from the repudiation
cascade and is meant for control edges only; the type does not forbid it on a
data edge. -/
structure EdgeMeta where
  kind : EdgeKind
  nonCascade : Bool
deriving DecidableEq, Repr

structure ParentRef where
  parentId : MoteId
  edge : EdgeMeta
deriving DecidableEq, Repr

end Kortecx.Mote
