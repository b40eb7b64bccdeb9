import Kortecx.Journal.Encode
import Kortecx.Journal.Decode

/-! What each field reader takes is what the matching field writer writes. Everything
the two halves of the wire format share is settled here, one lemma per kind of field. -/

namespace Kortecx.Journal

open Lib Lib.Reader Mote

variable {kind : UInt8} {xs rest : List UInt8} {α : Type} {s : String}
  {unknown other : UInt8 → DecodeError}

@[simp]
theorem length_pushRef (r : ContentRef) : (pushRef r).length = 32 :=
  r.bytes.length_toList

theorem takes_readRef : Takes (readRef kind) fun r xs _ => xs = pushRef r := by
  refine ((takes_bytes _ 32).map _).congr fun r xs rest => ?_
  constructor
  · rintro ⟨v, rfl, rfl⟩
    rfl
  · rintro rfl
    exact ⟨r.bytes, rfl, rfl⟩

theorem takes_readMoteId : Takes (readMoteId kind) fun id xs _ => xs = id.bytes.toList := by
  refine ((takes_bytes _ 32).map _).congr fun id xs rest => ?_
  constructor
  · rintro ⟨v, rfl, rfl⟩
    rfl
  · rintro rfl
    exact ⟨id.bytes, rfl, rfl⟩

theorem pushLenPrefixedStr_ok :
    pushLenPrefixedStr s = .ok xs ↔
      (utf8Bytes s).length < 2 ^ 16 ∧ xs = leBytes 2 (utf8Bytes s).length ++ utf8Bytes s := by
  rw [pushLenPrefixedStr]
  split <;> simp_all [eq_comm]

theorem two_le_length_of_pushLenPrefixedStr (hs : pushLenPrefixedStr s = .ok xs) :
    2 ≤ xs.length := by
  obtain ⟨-, rfl⟩ := pushLenPrefixedStr_ok.mp hs
  simp

theorem takes_readLenPrefixedStr :
    Takes (readLenPrefixedStr kind) fun s xs _ => pushLenPrefixedStr s = .ok xs := by
  refine ((takes_u16 _).field fun len => (takes_bytes _ len.toNat).field fun raw =>
    takes_orReject (decodeUtf8 raw.toList)).congr fun s xs rest => ?_
  rw [pushLenPrefixedStr_ok]
  constructor
  · rintro ⟨len, _, rfl, raw, _, rfl, rfl, hraw⟩
    rw [utf8Bytes_of_decodeUtf8 hraw, raw.length_toList]
    exact ⟨len.toNat_lt, by simp⟩
  · rintro ⟨hlen, rfl⟩
    have hcount : (UInt16.ofNat (utf8Bytes s).length).toNat = (utf8Bytes s).length :=
      UInt16.toNat_ofNat_of_lt' hlen
    exact ⟨.ofNat (utf8Bytes s).length, _, by rw [hcount], ⟨utf8Bytes s, hcount.symm⟩, [], by simp,
      rfl, decodeUtf8_utf8Bytes s⟩

theorem takes_readTag [ByteTag α] :
    Takes (readTag kind unknown : Reader DecodeError α) fun a xs _ => xs = [ByteTag.asU8 a] := by
  refine ((takes_u8 _).field fun tag => takes_orReject (ByteTag.fromU8 tag)).congr
    fun a xs rest => ?_
  constructor
  · rintro ⟨tag, _, rfl, rfl, htag⟩
    rw [ByteTag.asU8_of_fromU8 htag]
    rfl
  · rintro rfl
    exact ⟨ByteTag.asU8 a, [], rfl, rfl, ByteTag.fromU8_asU8 a⟩

variable {read : Reader DecodeError α}

theorem takes_readOption (hread : Takes read P) :
    Takes (readOption kind read other) fun o xs rest =>
      match o with
      | none => xs = [0]
      | some a => ∃ ys, xs = [1] ++ ys ∧ P a ys rest := by
  refine (Takes.tagged (t := fun o => if o.isSome then 1 else 0) (Q := fun o ys rest =>
    match o with
    | none => ys = []
    | some a => P a ys rest) fun tag => ?_).congr ?_
  · split
    · refine (takes_pure none).congr fun o xs rest => ?_
      cases o <;> simp
    · refine (hread.map some).congr fun o xs rest => ?_
      cases o <;> simp
    · refine takes_throw.congr fun o xs rest => ?_
      cases o <;> simp_all [eq_comm]
  · intro o xs rest
    cases o <;> simp

theorem takes_pushOption (hread : Takes read fun a xs _ => xs = enc a) :
    Takes (readOption kind read other) fun o xs _ => xs = pushOption enc o := by
  refine (takes_readOption hread).congr fun o xs rest => ?_
  cases o <;> simp [pushOption]

theorem takes_readBool : Takes (readBool kind other) fun b xs _ => xs = [boolU8 b] := by
  refine (Takes.tagged (t := boolU8) (Q := fun _ ys _ => ys = []) fun tag => ?_).congr ?_
  · split
    · refine (takes_pure false).congr fun b xs rest => ?_
      cases b <;> simp [boolU8]
    · refine (takes_pure true).congr fun b xs rest => ?_
      cases b <;> simp [boolU8]
    · refine takes_throw.congr fun b xs rest => ?_
      cases b <;> simp_all [boolU8, eq_comm]
  · simp

/-- A trailing field is read if it is there, and takes its default if it is absent. -/
theorem takes_readIfMore {default : α} (hread : Takes read P) :
    Takes (readIfMore read default) fun a xs rest =>
      (a = default ∧ xs = [] ∧ rest = []) ∨ xs ++ rest ≠ [] ∧ P a xs rest := by
  refine (takes_hasMore.check (Q := fun more a xs rest =>
    if more then P a xs rest else a = default ∧ xs = []) fun more => ?_).congr ?_
  · cases more with
    | false => exact takes_pure default
    | true => exact hread
  · intro a xs rest
    cases hmore : (xs ++ rest).isEmpty with
    | true =>
      have hnil : xs = [] ∧ rest = [] := by simpa using hmore
      simp [hnil]
    | false =>
      have hsome : xs ++ rest ≠ [] := by simpa using hmore
      simp_all

end Kortecx.Journal
