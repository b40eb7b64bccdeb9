import Mathlib.Tactic

/-! Fixed-length byte strings, little-endian integers and one-byte tags, the
vocabulary of a hand-written wire format. Nothing here knows about a particular
format: lengths, tag sets and error types are parameters of what uses it. -/

namespace Kortecx.Lib

open Std

section OrdOn

variable {α β : Type} [Ord α] [Ord β] {f : α → β}

/-- An order pulled back along a map is still a total preorder. -/
theorem transOrd_of_on [TransOrd β] (hf : ∀ a b, compare a b = compare (f a) (f b)) :
    TransOrd α where
  eq_swap {a b} := by
    rw [hf a b, hf b a]
    exact OrientedCmp.eq_swap
  isLE_trans {a b c} hab hbc := by
    rw [hf] at hab hbc ⊢
    exact TransCmp.isLE_trans hab hbc

/-- Pulled back along an injective map, it still separates its values. -/
theorem lawfulEqOrd_of_on [LawfulEqOrd β] (hf : ∀ a b, compare a b = compare (f a) (f b))
    (hinj : Function.Injective f) : LawfulEqOrd α where
  compare_self {a} := by
    rw [hf]
    exact ReflCmp.compare_self
  eq_of_compare {a b} h := by
    rw [hf] at h
    exact hinj (LawfulEqCmp.eq_of_compare h)

end OrdOn

theorem uint64_max_def (a b : UInt64) : max a b = if a ≤ b then b else a := rfl

instance lawfulOrderMaxUInt64 : LawfulOrderMax UInt64 where
  max_eq_or a b := by
    rw [uint64_max_def]
    split <;> simp
  max_le_iff a b c := by
    rw [uint64_max_def]
    split <;> grind

/-- A byte string of exactly `n` bytes, the model of `[u8; n]`. -/
@[ext]
structure ByteVec (n : Nat) where
  toList : List UInt8
  length_toList : toList.length = n
deriving DecidableEq, Repr

namespace ByteVec

attribute [simp] length_toList

variable {n : Nat}

/-- `[b; n]`. -/
def replicate (n : Nat) (b : UInt8) : ByteVec n :=
  ⟨List.replicate n b, List.length_replicate⟩

/-- Arrays are compared lexicographically, first byte first. -/
instance : Ord (ByteVec n) :=
  ⟨fun a b => compare a.toList b.toList⟩

instance : TransOrd (ByteVec n) :=
  transOrd_of_on (f := ByteVec.toList) fun _ _ => rfl

instance : LawfulEqOrd (ByteVec n) :=
  lawfulEqOrd_of_on (f := ByteVec.toList) (fun _ _ => rfl) fun _ _ => ByteVec.ext

end ByteVec

/-- The `n` low bytes of `x`, least significant first. -/
def leBytes : Nat → Nat → List UInt8
  | 0, _ => []
  | n + 1, x => UInt8.ofNat x :: leBytes n (x / 256)

/-- The number a little-endian byte string denotes. -/
def leNat : List UInt8 → Nat
  | [] => 0
  | b :: bs => b.toNat + 256 * leNat bs

@[simp]
theorem length_leBytes (n x : Nat) : (leBytes n x).length = n := by
  induction n generalizing x with
  | zero => rfl
  | succ n ih => simp [leBytes, ih]

/-- The `n` low bytes of `x` as an array, least significant first. -/
def ByteVec.ofNat (n x : Nat) : ByteVec n :=
  ⟨leBytes n x, length_leBytes n x⟩

@[simp]
theorem leBytes_one (x : UInt8) : leBytes 1 x.toNat = [x] := by
  simp [leBytes]

variable (bs : List UInt8)

theorem leNat_lt : leNat bs < 256 ^ bs.length := by
  induction bs with
  | nil => simp [leNat]
  | cons b bs ih =>
    have hb := b.toNat_lt
    simp only [leNat, List.length_cons, Nat.pow_succ]
    omega

theorem leNat_leBytes (hx : x < 256 ^ n) : leNat (leBytes n x) = x := by
  induction n generalizing x with
  | zero =>
    have : x = 0 := by simpa using hx
    simp [leBytes, leNat, this]
  | succ n ih =>
    have hdiv : x / 256 < 256 ^ n := by
      rw [Nat.pow_succ] at hx
      omega
    simp only [leBytes, leNat, ih hdiv, UInt8.toNat_ofNat']
    omega

theorem leBytes_leNat : leBytes bs.length (leNat bs) = bs := by
  induction bs with
  | nil => rfl
  | cons b bs ih =>
    have hb := b.toNat_lt
    have hdiv : (b.toNat + 256 * leNat bs) / 256 = leNat bs := by omega
    have hlow : UInt8.ofNat (b.toNat + 256 * leNat bs) = b := by
      apply UInt8.toNat_inj.mp
      rw [UInt8.toNat_ofNat']
      omega
    simp only [List.length_cons, leBytes, leNat, hdiv, hlow, ih]

/-- The UTF-8 bytes of a string, what `str::as_bytes` returns. -/
def utf8Bytes (s : String) : List UInt8 :=
  s.toByteArray.data.toList

/-- Two lower-case hexadecimal digits for each byte. -/
def toHex (bs : List UInt8) : String :=
  String.ofList (bs.flatMap fun b => [Nat.digitChar (b.toNat / 16), Nat.digitChar (b.toNat % 16)])

/-- `std::str::from_utf8`. -/
def decodeUtf8 (bs : List UInt8) : Option String :=
  String.fromUTF8? ⟨bs.toArray⟩

@[simp]
theorem decodeUtf8_utf8Bytes (s : String) : decodeUtf8 (utf8Bytes s) = some s := by
  have hvalid : (⟨(utf8Bytes s).toArray⟩ : ByteArray).IsValidUTF8 := s.isValidUTF8
  rw [decodeUtf8, String.fromUTF8?, dif_pos hvalid]
  rfl

theorem utf8Bytes_of_decodeUtf8 {bs : List UInt8}
    (h : decodeUtf8 bs = some s) : utf8Bytes s = bs := by
  rw [decodeUtf8, String.fromUTF8?] at h
  split at h
  · rename_i hvalid
    cases h
    rfl
  · cases h

/-- An enumeration stored as one byte. The two laws say that the stored byte
determines the value and that no second byte is read as the same value. -/
class ByteTag (α : Type) where
  asU8 : α → UInt8
  fromU8 : UInt8 → Option α
  fromU8_asU8 : ∀ a, fromU8 (asU8 a) = some a
  asU8_of_fromU8 : ∀ {b a}, fromU8 b = some a → asU8 a = b

attribute [simp] ByteTag.fromU8_asU8

end Kortecx.Lib
