import Kortecx.Coordinator.Rerank

/-!
The order that a rerank's model answers, and the two forms in which it is applied: to the passages
of a `retrieve` observation, which is a JSON object, and to the items of a grounding bundle, which
has an encoding of its own.
The bundle stores the length of a name in four bytes. A name that was read leniently is at most
three times as long as the bytes it was read from, so that it fits unless the bundle is huge.
-/

namespace Kortecx.Coordinator

open Lib Mote List

section Permutations

/-- The loop of `parse_permutation` over the numbers read: each is an index below `n` that
was not seen before. -/
def takeIndices (n : Nat) (seen : List Nat) : List Int64 → Option (List Nat)
  | [] => some []
  | v :: rest =>
    if v.toInt < 0 then none
    else
      let idx := v.toInt.toNat
      if n ≤ idx ∨ idx ∈ seen then none
      else (takeIndices n (idx :: seen) rest).map (idx :: ·)

/-- `parse_permutation`. What `readArray` finds in the text is the array of numbers at the
start of its envelope. -/
def parsePermutation (readArray : String → Option (List Int64)) (text : String) (n : Nat) :
    Option (List Nat) :=
  (readArray text).bind fun arr =>
    if arr.length ≠ n then none else takeIndices n [] arr

variable {n : Nat} {perm : List Nat}

theorem takeIndices_spec (htake : takeIndices n seen arr = some perm) :
    perm.length = arr.length ∧ perm.Nodup ∧ ∀ i ∈ perm, i < n ∧ i ∉ seen := by
  induction arr generalizing seen perm with
  | nil =>
    cases htake
    simp
  | cons v rest ih =>
    unfold takeIndices at htake
    split at htake
    · cases htake
    dsimp only at htake
    split at htake
    · cases htake
    next hidx =>
      obtain ⟨tail, htail, rfl⟩ := Option.map_eq_some_iff.1 htake
      obtain ⟨hlength, hnodup, hall⟩ := ih htail
      rw [not_or, not_le] at hidx
      refine ⟨by simp [hlength], nodup_cons.2 ⟨?_, hnodup⟩, ?_⟩
      · intro hmem
        exact (hall _ hmem).2 (by simp)
      · intro i hi
        rcases mem_cons.1 hi with rfl | hi
        · exact hidx
        obtain ⟨hlt, hnew⟩ := hall i hi
        exact ⟨hlt, fun hseen => hnew (by simp [hseen])⟩

/-- What is parsed is a permutation of the indices below `n`. -/
theorem perm_of_parsePermutation {readArray : String → Option (List Int64)} {text : String}
    (hparse : parsePermutation readArray text n = some perm) :
    perm.Perm (List.range n) := by
  obtain ⟨arr, _, htake⟩ := Option.bind_eq_some_iff.1 hparse
  split at htake
  · cases htake
  next hlength =>
    obtain ⟨hperm, hnodup, hall⟩ := takeIndices_spec htake
    have hsubset : perm ⊆ List.range n := fun i hi => mem_range.2 (hall i hi).1
    apply (hnodup.subperm hsubset).perm_of_length_le
    rw [length_range, hperm]
    omega

end Permutations

variable {permutation : List UInt32}

section Permuting

variable {α : Type}

theorem map_some_of_mapM {xs : List α} (hmap : xs.mapM f = some ys) : ys.map some = xs.map f := by
  induction xs generalizing ys with
  | nil =>
    cases hmap
    rfl
  | cons x xs ih =>
    rw [mapM_cons] at hmap
    obtain ⟨y, hy, hmap⟩ := Option.bind_eq_some_iff.1 hmap
    obtain ⟨rest, hrest, hmap⟩ := Option.bind_eq_some_iff.1 hmap
    cases hmap
    rw [map_cons, map_cons, hy, ih hrest]

theorem map_getElem?_range (items : List α) :
    (List.range items.length).map (fun i => items[i]?) = items.map some := by
  apply ext_getElem?
  intro i
  rw [List.getElem?_map, List.getElem?_map]
  rcases Nat.lt_or_ge i items.length with hi | hi
  · rw [List.getElem?_range hi, List.getElem?_eq_getElem hi]
    simp [hi]
  have hrange : (List.range items.length)[i]? = none := by simpa using hi
  rw [hrange, List.getElem?_eq_none hi]
  rfl

/-- An order that lists each position once keeps every item. -/
theorem perm_of_permuted {items reordered : List α} {n : Nat}
    (horder : (permutation.map (·.toNat)).Perm (List.range n))
    (hpermuted : permuted items permutation = some reordered) : reordered.Perm items := by
  unfold permuted at hpermuted
  split at hpermuted
  · cases hpermuted
  next hlength =>
    have hn : n = items.length := by
      have hcount := horder.length_eq
      rw [length_map, length_range] at hcount
      omega
    subst hn
    have hsome := map_some_of_mapM hpermuted
    have hpicked := horder.map fun i => items[i]?
    rw [map_getElem?_range, map_map] at hpicked
    apply (map_perm_map_iff (Option.some_injective α)).1
    rw [hsome]
    exact hpicked

end Permuting

section Observations

/-- A number as `serde_json` keeps it. -/
inductive JsonNumber where
  | posInt (n : UInt64)
  | negInt (n : Int64)
  | float (bits : UInt64)

/-- `serde_json::Value`. -/
inductive Json where
  | null
  | bool (b : Bool)
  | number (n : JsonNumber)
  | string (s : String)
  | array (items : List Json)
  | object (fields : List (String × Json))

namespace Json

def get? (key : String) : Json → Option Json
  | .object fields => (fields.find? fun field => field.1 = key).map (·.2)
  | _ => none

def asArray : Json → Option (List Json)
  | .array items => some items
  | _ => none

/-- `v[key] = value`, of an object that has the key. -/
def replace (v : Json) (key : String) (value : Json) : Json :=
  match v with
  | .object fields =>
    .object (fields.map fun field => if field.1 = key then (key, value) else field)
  | v => v

theorem asArray_eq_some {v : Json} :
    v.asArray = some items ↔ v = .array items := by
  cases v <;> simp [asArray]

variable {value : Json}

theorem get?_replace_self {v : Json}
    (hold : v.get? key = some old) : (v.replace key value).get? key = some value := by
  cases v with
  | object fields =>
    unfold get? at hold
    unfold replace get?
    dsimp only at hold ⊢
    induction fields with
    | nil => cases hold
    | cons field fields ih =>
      rw [map_cons]
      by_cases hfield : field.1 = key
      · rw [if_pos hfield, List.find?_cons_of_pos (by simp)]
        rfl
      rw [if_neg hfield, List.find?_cons_of_neg (by simpa using hfield)]
      rw [List.find?_cons_of_neg (by simpa using hfield)] at hold
      exact ih hold
  | _ => cases hold

theorem get?_replace_of_ne (v : Json) (hne : other ≠ key) :
    (v.replace key value).get? other = v.get? other := by
  cases v with
  | object fields =>
    unfold replace get?
    dsimp only
    induction fields with
    | nil => rfl
    | cons field fields ih =>
      rw [map_cons]
      by_cases hother : field.1 = other
      · have hfield : field.1 ≠ key := fun hkey => hne (hother.symm.trans hkey)
        rw [if_neg hfield, List.find?_cons_of_pos (by simpa using hother),
          List.find?_cons_of_pos (by simpa using hother)]
      have hkept : (if field.1 = key then (key, value) else field).1 ≠ other := by
        split
        · exact hne.symm
        · exact hother
      rw [List.find?_cons_of_neg (by simpa using hkept),
        List.find?_cons_of_neg (by simpa using hother)]
      exact ih
  | _ => rfl

end Json

variable (readJson : List UInt8 → Option Json) (writeJson : Json → Option (List UInt8))

/-- `reorder_retrieval_observation`, over the reader and the writer of JSON. -/
def reorderRetrievalObservation (obsBytes : List UInt8) (permutation : List UInt32) :
    Option (List UInt8) := do
  let v ← readJson obsBytes
  let passages ← (← v.get? "passages").asArray
  let reordered ← permuted passages permutation
  writeJson (v.replace "passages" (.array reordered))

/-- The delivered object has the passages of the base, each as often, and the base's other
fields. -/
structure ReordersPassages (base delivered : List UInt8) (v v' : Json)
    (passages reordered : List Json) : Prop where
  read : readJson base = some v
  before : v.get? "passages" = some (.array passages)
  after : v'.get? "passages" = some (.array reordered)
  perm : reordered.Perm passages
  others : ∀ key, key ≠ "passages" → v'.get? key = v.get? key
  written : writeJson v' = some delivered

variable {readJson writeJson}

theorem reordersPassages_of_eq_some (horder : (permutation.map (·.toNat)).Perm (List.range n))
    (hreorder : reorderRetrievalObservation readJson writeJson base permutation = some delivered) :
    ∃ v v' passages reordered,
      ReordersPassages readJson writeJson base delivered v v' passages reordered := by
  obtain ⟨v, hread, hreorder⟩ := Option.bind_eq_some_iff.1 hreorder
  obtain ⟨field, hfield, hreorder⟩ := Option.bind_eq_some_iff.1 hreorder
  obtain ⟨passages, harray, hreorder⟩ := Option.bind_eq_some_iff.1 hreorder
  obtain ⟨reordered, hpermuted, hwritten⟩ := Option.bind_eq_some_iff.1 hreorder
  rw [Json.asArray_eq_some.1 harray] at hfield
  exact ⟨v, v.replace "passages" (.array reordered), passages, reordered, hread, hfield,
    Json.get?_replace_self hfield, perm_of_permuted horder hpermuted,
    fun _ hne => Json.get?_replace_of_ne v hne, hwritten⟩

end Observations

section Bundles

/-- The loop of `decode_context_items`. Each round takes at least 36 bytes, so that as many
rounds as there are bytes are enough. -/
def decodeItemsWithin (lossy : List UInt8 → String) : Nat → List UInt8 → List ContextItemRef
  | 0, _ => []
  | fuel + 1, bytes =>
    if bytes.length < 4 then []
    else
      let len := leNat (bytes.take 4)
      let rest := bytes.drop 4
      if h : len + 32 ≤ rest.length then
        { name := lossy (rest.take len)
          contentRef := ⟨⟨(rest.drop len).take 32, by
            rw [length_take, length_drop]
            omega⟩⟩ } ::
          decodeItemsWithin lossy fuel (rest.drop (len + 32))
      else []

def decodeContextItems (lossy : List UInt8 → String) (bytes : List UInt8) : List ContextItemRef :=
  decodeItemsWithin lossy bytes.length bytes

/-- `encode_context_items_ordered`. The length of a name is cut off at what four bytes hold. -/
def encodeContextItemsOrdered (items : List ContextItemRef) : List UInt8 :=
  items.flatMap fun it =>
    leBytes 4 (u32OfNat (utf8Bytes it.name).length).toNat ++
      (utf8Bytes it.name ++ it.contentRef.bytes.toList)

variable {lossy : List UInt8 → String}

/-- One item is read from a length, as many bytes, and a ref. -/
theorem decodeItemsWithin_item {name : List UInt8} (hlen : len < 2 ^ 32)
    (hname : name.length = len) (ref : ByteVec 32) (rest : List UInt8) :
    decodeItemsWithin lossy (fuel + 1) (leBytes 4 len ++ (name ++ (ref.toList ++ rest))) =
      { name := lossy name, contentRef := ⟨ref⟩ } :: decodeItemsWithin lossy fuel rest := by
  have hheader : (leBytes 4 len ++ (name ++ (ref.toList ++ rest))).take 4 = leBytes 4 len :=
    take_left' (length_leBytes 4 len)
  have hbody : (leBytes 4 len ++ (name ++ (ref.toList ++ rest))).drop 4 =
      name ++ (ref.toList ++ rest) := drop_left' (length_leBytes 4 len)
  have hread : leNat (leBytes 4 len) = len := leNat_leBytes (by omega)
  have hlong : ¬ (leBytes 4 len ++ (name ++ (ref.toList ++ rest))).length < 4 := by
    rw [length_append, length_leBytes]
    omega
  have hfits : len + 32 ≤ (name ++ (ref.toList ++ rest)).length := by
    simp only [length_append, hname, ByteVec.length_toList]
    omega
  have href : ((name ++ (ref.toList ++ rest)).drop len).take 32 = ref.toList := by
    rw [drop_left' hname, take_left' (ByteVec.length_toList ref)]
  have hrest : (name ++ (ref.toList ++ rest)).drop (len + 32) = rest := by
    rw [← drop_drop, drop_left' hname, drop_left' (ByteVec.length_toList ref)]
  rw [decodeItemsWithin, if_neg hlong]
  simp only [hheader, hbody, hread, dif_pos hfits, href, hrest, take_left' hname]

theorem toNat_u32OfNat (hi : i < 2 ^ 32) : (u32OfNat i).toNat = i := by
  unfold u32OfNat
  rw [Nat.min_eq_left (by omega)]
  exact UInt32.toNat_ofNat_of_lt' hi

theorem encodeContextItemsOrdered_cons (it : ContextItemRef) (items : List ContextItemRef) :
    encodeContextItemsOrdered (it :: items) =
      leBytes 4 (u32OfNat (utf8Bytes it.name).length).toNat ++
        (utf8Bytes it.name ++ (it.contentRef.bytes.toList ++ encodeContextItemsOrdered items)) := by
  unfold encodeContextItemsOrdered
  rw [flatMap_cons, append_assoc, append_assoc]

def NamesFit (items : List ContextItemRef) : Prop :=
  ∀ it ∈ items, (utf8Bytes it.name).length < 2 ^ 32

variable {items : List ContextItemRef}

theorem decodeItemsWithin_encode (hlossy : ∀ s, lossy (utf8Bytes s) = s) (hfit : NamesFit items)
    (hfuel : items.length < fuel) :
    decodeItemsWithin lossy fuel (encodeContextItemsOrdered items) = items := by
  induction items generalizing fuel with
  | nil =>
    obtain ⟨fuel, rfl⟩ := Nat.exists_eq_succ_of_ne_zero (Nat.ne_of_gt hfuel)
    rfl
  | cons it items ih =>
    obtain ⟨fuel, rfl⟩ := Nat.exists_eq_succ_of_ne_zero (by omega : fuel ≠ 0)
    have hit := hfit it (by simp)
    have hrest := ih (fun x hx => hfit x (mem_cons_of_mem it hx))
      (Nat.lt_of_succ_lt_succ hfuel)
    rw [encodeContextItemsOrdered_cons, toNat_u32OfNat hit, decodeItemsWithin_item hit rfl, hrest,
      hlossy]

theorem length_lt_encodeContextItemsOrdered (items : List ContextItemRef) :
    items.length ≤ (encodeContextItemsOrdered items).length := by
  induction items with
  | nil => exact Nat.zero_le _
  | cons it items ih =>
    rw [encodeContextItemsOrdered_cons]
    simp only [length_append, length_cons, length_leBytes]
    omega

/-- Items whose names fit are read back as they were written. -/
theorem decodeContextItems_encode (hlossy : ∀ s, lossy (utf8Bytes s) = s) (hfit : NamesFit items) :
    decodeContextItems lossy (encodeContextItemsOrdered items) = items := by
  cases items with
  | nil => rfl
  | cons it items =>
    refine decodeItemsWithin_encode hlossy hfit ?_
    have hle := length_lt_encodeContextItemsOrdered items
    rw [encodeContextItemsOrdered_cons]
    simp only [length_append, length_cons, length_leBytes]
    omega

theorem NamesFit.perm {reordered : List ContextItemRef} (hfit : NamesFit items)
    (hperm : reordered.Perm items) : NamesFit reordered :=
  fun it hit => hfit it (hperm.mem_iff.1 hit)

end Bundles

section Lenient

/-- How many bytes a scalar takes that begins with this byte; none if no scalar does. -/
def utf8CharWidth (b : UInt8) : Nat :=
  if b < 0x80 then 1
  else if 0xC2 ≤ b ∧ b ≤ 0xDF then 2
  else if 0xE0 ≤ b ∧ b ≤ 0xEF then 3
  else if 0xF0 ≤ b ∧ b ≤ 0xF4 then 4
  else 0

def followsFirst (first b : UInt8) : Bool :=
  if first = 0xE0 then 0xA0 ≤ b ∧ b ≤ 0xBF
  else if first = 0xED then 0x80 ≤ b ∧ b ≤ 0x9F
  else if first = 0xF0 then 0x90 ≤ b ∧ b ≤ 0xBF
  else if first = 0xF4 then 0x80 ≤ b ∧ b ≤ 0x8F
  else 0x80 ≤ b ∧ b ≤ 0xBF

/-- How many of the bytes after the first belong to its scalar. -/
def continuation (first : UInt8) (rest : List UInt8) : Nat :=
  match rest.take (utf8CharWidth first - 1) with
  | [] => 0
  | b :: more =>
    if followsFirst first b then 1 + (more.takeWhile fun c => 0x80 ≤ c ∧ c ≤ 0xBF).length else 0

/-- The loop of `String::from_utf8_lossy`: a scalar that is complete is taken, one that breaks
off becomes a replacement character. -/
def lossyChars : Nat → List UInt8 → List Char
  | 0, _ => []
  | _, [] => []
  | fuel + 1, first :: rest =>
    let taken := continuation first rest
    if 1 + taken = utf8CharWidth first then
      ((decodeUtf8 (first :: rest.take taken)).map String.toList).getD [] ++
        lossyChars fuel (rest.drop taken)
    else '\uFFFD' :: lossyChars fuel (rest.drop taken)

/-- `String::from_utf8_lossy`: a string that is valid is taken as it is. -/
def fromUtf8Lossy (bytes : List UInt8) : String :=
  (decodeUtf8 bytes).getD (String.ofList (lossyChars bytes.length bytes))

@[simp]
theorem fromUtf8Lossy_utf8Bytes (s : String) : fromUtf8Lossy (utf8Bytes s) = s := by
  rw [fromUtf8Lossy, decodeUtf8_utf8Bytes, Option.getD_some]

theorem utf8Bytes_ofList (chars : List Char) :
    utf8Bytes (String.ofList chars) = chars.flatMap String.utf8EncodeChar := by
  rw [utf8Bytes, String.toByteArray_ofList, List.utf8Encode, toList_data_toByteArray]

theorem length_lossyChars (bytes : List UInt8) :
    ((lossyChars fuel bytes).flatMap String.utf8EncodeChar).length ≤ 3 * bytes.length := by
  induction fuel generalizing bytes with
  | zero => simp [lossyChars]
  | succ fuel ih =>
    cases bytes with
    | nil => simp [lossyChars]
    | cons first rest =>
      have hrest := ih (rest.drop (continuation first rest))
      rw [length_drop] at hrest
      rw [lossyChars]
      split_ifs
      · rw [flatMap_append, length_append, length_cons]
        cases htext : decodeUtf8 (first :: rest.take (continuation first rest)) with
        | none =>
          simp only [Option.map_none, Option.getD_none, flatMap_nil, length_nil]
          omega
        | some s =>
          have hbytes := congrArg length (utf8Bytes_of_decodeUtf8 htext)
          rw [← String.ofList_toList (s := s), utf8Bytes_ofList, length_cons, length_take] at hbytes
          rw [Option.map_some, Option.getD_some, hbytes]
          omega
      · have hreplacement : (String.utf8EncodeChar '\uFFFD').length = 3 := by decide
        rw [flatMap_cons, length_append, length_cons, hreplacement]
        omega

/-- A replacement character has three bytes, and stands for at least one. -/
theorem length_fromUtf8Lossy (bytes : List UInt8) :
    (utf8Bytes (fromUtf8Lossy bytes)).length ≤ 3 * bytes.length := by
  unfold fromUtf8Lossy
  cases htext : decodeUtf8 bytes with
  | none =>
    rw [Option.getD_none, utf8Bytes_ofList]
    exact length_lossyChars bytes
  | some s =>
    rw [Option.getD_some, utf8Bytes_of_decodeUtf8 htext]
    omega

theorem namesFit_decodeItemsWithin {bytes : List UInt8} (hbytes : bytes.length ≤ 2 ^ 30) :
    NamesFit (decodeItemsWithin fromUtf8Lossy fuel bytes) := by
  induction fuel generalizing bytes with
  | zero => simp [decodeItemsWithin, NamesFit]
  | succ fuel ih =>
    unfold decodeItemsWithin
    dsimp only
    split_ifs
    · simp [NamesFit]
    · refine forall_mem_cons.2 ⟨?_, ih ?_⟩
      · have hname := length_fromUtf8Lossy ((bytes.drop 4).take (leNat (bytes.take 4)))
        rw [length_take, length_drop] at hname
        dsimp only
        omega
      · rw [length_drop, length_drop]
        omega
    · simp [NamesFit]

end Lenient

end Kortecx.Coordinator
