import Kortecx.Journal.Migration
import Kortecx.Journal.Store

/-! The size of migrated entries. An entry grows on its way to the current version by the
fields its writer did not have yet, and the size cap is the same in all versions. -/

namespace Kortecx.Journal

open Lib Lib.Reader Mote List

/-- The capability as a writer of version `v` stored it: version 6 added the class. -/
def encodeCapabilityAt (v : UInt16) (cap : ResolvedCapabilityRecord) :
    Except EncodeError (List UInt8) := do
  let toolId ← pushLenPrefixedStr cap.toolId
  let toolVersion ← pushLenPrefixedStr cap.toolVersion
  .ok (toolId ++ (toolVersion ++ ([ByteTag.asU8 cap.resolvedKind] ++
    (pushRef cap.resolvedDefHash ++ (if v < 6 then [] else [ByteTag.asU8 cap.idempotencyClass])))))

def encodeOptionalCapabilityAt (v : UInt16) :
    Option ResolvedCapabilityRecord → Except EncodeError (List UInt8)
  | none => .ok [0]
  | some cap => do
    let bytes ← encodeCapabilityAt v cap
    .ok ([1] ++ bytes)

/-- The body a writer of version `v` stored. Three kinds have grown since version 5: a
failure by its detail, a run's resolved versions by the class of the capability, a react
round by its trailing fields. -/
def encodeBodyAt (v : UInt16) : JournalEntry → Except EncodeError (List UInt8)
  | .failed e =>
    if v < 18 then .ok ([ByteTag.asU8 e.reasonClass] ++ leBytes 16 e.reporterId.toNat)
    else encodeFailed e
  | .runVersionsResolved e => do
    let modelId ← pushLenPrefixedStr e.modelId
    let capability ← encodeOptionalCapabilityAt v e.capability
    guardLen .runVersionsTooLarge
      (e.instanceId.toList ++ (pushRef e.warrantRef ++ (modelId ++ capability)))
  | .reactRound e => do
    let modelId ← pushLenPrefixedStr e.modelId
    let branch ← encodeBranch e.branch
    guardLen .reactRoundTooLarge
      (encodeReactFront e modelId branch (if v < 9 then [] else reactTailAt v e))
  | e => encodeBody e

/-- What a binary of version `v` appended for the entry, if it was within the cap. -/
def encodeEntryAt (blake3 : List UInt8 → ByteVec 32) (v : UInt16) (e : JournalEntry) :
    Except EncodeError (List UInt8) := do
  let body ← encodeBodyAt v e
  .ok (encodeHeader blake3 e ++ body)

/-- The entry with the definition hash of its row: only a committed entry takes it over,
and the bytes do not hold it. -/
def JournalEntry.withDefHash (d : MoteDefHash) : JournalEntry → JournalEntry
  | .committed e => .committed { e with moteDefHash := d }
  | e => e

section Grown

variable {blake3 : List UInt8 → ByteVec 32} {v : UInt16} {e : JournalEntry} {d : MoteDefHash}
  {body b : List UInt8}

theorem encodeEntryAt_ok :
    encodeEntryAt blake3 v e = .ok b ↔
      ∃ body, encodeBodyAt v e = .ok body ∧ b = encodeHeader blake3 e ++ body := by
  simp only [encodeEntryAt, except_bind_eq_ok, Except.ok.injEq]
  exact exists_congr fun body => and_congr_right fun _ => eq_comm

theorem defHashIs_withDefHash (e : JournalEntry) (d : MoteDefHash) :
    (e.withDefHash d).DefHashIs d := by
  cases e <;> trivial

@[simp]
theorem readable_withDefHash : (e.withDefHash d).Readable ↔ e.Readable := by
  cases e <;> exact Iff.rfl

theorem JournalEntry.ExpressibleAt.withDefHash (he : e.ExpressibleAt v) :
    (e.withDefHash d).ExpressibleAt v := by
  cases e <;> exact he

@[simp]
theorem encodeHeader_withDefHash :
    encodeHeader blake3 (e.withDefHash d) = encodeHeader blake3 e := by
  cases e <;> rfl

@[simp]
theorem encodeBodyAt_withDefHash : encodeBodyAt v (e.withDefHash d) = encodeBodyAt v e := by
  cases e <;> rfl

@[simp]
theorem addedAfter_withDefHash : addedAfter v (e.withDefHash d) = addedAfter v e := by
  cases e <;> rfl

/-- The current body of an entry is the one its writer stored and what was added since; and
within the cap it does encode to that. -/
structure GrowsSince (v : UInt16) (e : JournalEntry) (body : List UInt8) : Prop where
  encodes : HEADER_LEN + (body ++ addedAfter v e).length ≤ MAX_ENTRY_LEN →
    encodeBody e = .ok (body ++ addedAfter v e)
  only : ∀ full, encodeBody e = .ok full → full = body ++ addedAfter v e

theorem GrowsSince.of_encodeBody (hadded : addedAfter v e = [])
    (hbody : encodeBody e = .ok body) : GrowsSince v e body where
  encodes _ := by rw [hadded, append_nil, hbody]
  only full hfull := by
    rw [hadded, append_nil]
    cases hbody.symm.trans hfull
    rfl

theorem GrowsSince.of_guardLen
    (hencode : encodeBody e = guardLen tooLarge (body ++ addedAfter v e)) :
    GrowsSince v e body where
  encodes hlen := by
    rw [hencode]
    exact guardLen_ok.mpr ⟨rfl, hlen⟩
  only full hfull := by
    rw [hencode] at hfull
    exact (guardLen_ok.mp hfull).1

theorem growsSince_failed {e : Failed} (he : (JournalEntry.failed e).ExpressibleAt v)
    (hbody : encodeBodyAt v (.failed e) = .ok body) : GrowsSince v (.failed e) body := by
  rw [encodeBodyAt] at hbody
  by_cases hv : v < 18
  · rw [if_pos hv] at hbody
    cases hbody
    have hempty : e.detail = "" := he.2 hv
    have hencode : encodeBody (.failed e) = .ok ([ByteTag.asU8 e.reasonClass] ++
        leBytes 16 e.reporterId.toNat ++ addedAfter v (.failed e)) := by
      have hdetail : pushLenPrefixedStr e.detail =
          .ok (leBytes 2 (utf8Bytes e.detail).length ++ utf8Bytes e.detail) := by
        rw [hempty]
        rfl
      simp only [encodeBody, encodeFailed, hdetail, addedAfter, if_pos hv, append_assoc]
      rfl
    refine ⟨fun _ => hencode, fun full hfull => ?_⟩
    cases hencode.symm.trans hfull
    rfl
  · rw [if_neg hv] at hbody
    exact .of_encodeBody (by simp only [addedAfter, if_neg hv]) hbody

/-- Behind the capability's older fields only the class is missing. -/
theorem encodeOptionalCapability_grows {e : RunVersionsResolved}
    (hxs : encodeOptionalCapabilityAt v e.capability = .ok xs) :
    encodeOptionalCapability e.capability =
      .ok (xs ++ addedAfter v (.runVersionsResolved e)) := by
  cases hcapability : e.capability with
  | none =>
    rw [hcapability] at hxs
    cases hxs
    simp only [encodeOptionalCapability, addedAfter, hcapability, append_nil]
  | some cap =>
    rw [hcapability] at hxs
    simp only [encodeOptionalCapabilityAt, encodeCapabilityAt, except_bind_eq_ok,
      Except.ok.injEq] at hxs
    obtain ⟨ys, ⟨toolId, hid, toolVersion, hversion, rfl⟩, rfl⟩ := hxs
    apply encodeOptionalCapability_some_ok.mpr
    refine ⟨_, encodeCapability_ok.mpr ⟨toolId, toolVersion, hid, hversion, rfl⟩, ?_⟩
    by_cases hv : v < 6 <;> simp [addedAfter, hcapability, hv]

theorem growsSince_runVersionsResolved {e : RunVersionsResolved}
    (hbody : encodeBodyAt v (.runVersionsResolved e) = .ok body) :
    GrowsSince v (.runVersionsResolved e) body := by
  simp only [encodeBodyAt, except_bind_eq_ok, guardLen_ok] at hbody
  obtain ⟨modelId, hmodel, capability, hcap, rfl, -⟩ := hbody
  apply GrowsSince.of_guardLen
  simp only [encodeBody, encodeRunVersionsResolved, hmodel, encodeOptionalCapability_grows hcap,
    append_assoc]
  rfl

theorem encodeReactTail_grows (e : ReactRound) :
    encodeReactTail e =
      (if v < 9 then [] else reactTailAt v e) ++ addedAfter v (.reactRound e) := by
  by_cases hv : v < 9
  · have h11 : v < 11 := by grind
    have h12 : v < 12 := by grind
    have h14 : v < 14 := by grind
    have h15 : v < 15 := by grind
    simp only [encodeReactTail, addedAfter, hv, h11, h12, h14, h15, if_true, nil_append]
  · rw [if_neg hv]
    exact encodeReactTail_eq_at e hv

theorem growsSince_reactRound {e : ReactRound} (hbody : encodeBodyAt v (.reactRound e) = .ok body) :
    GrowsSince v (.reactRound e) body := by
  simp only [encodeBodyAt, except_bind_eq_ok, guardLen_ok] at hbody
  obtain ⟨modelId, hmodel, branch, hbranch, rfl, -⟩ := hbody
  apply GrowsSince.of_guardLen
  rw [← encodeReactFront_append, ← encodeReactTail_grows]
  exact encodeReactRound_eq_guardLen hmodel hbranch

theorem growsSince (he : e.ExpressibleAt v) (hbody : encodeBodyAt v e = .ok body) :
    GrowsSince v e body := by
  cases e with
  | failed e => exact growsSince_failed he hbody
  | runVersionsResolved e => exact growsSince_runVersionsResolved hbody
  | reactRound e => exact growsSince_reactRound hbody
  | _ => exact .of_encodeBody rfl hbody

/-- An entry that fits the cap with all that was added since migrates to itself. -/
theorem GrowsSince.migrateEntry (hgrows : GrowsSince v e body)
    (hmin : MIN_SUPPORTED_SCHEMA_VERSION ≤ v) (hmax : v ≤ JOURNAL_SCHEMA_VERSION)
    (he : e.ExpressibleAt v) (hread : e.Readable) (hd : e.DefHashIs d)
    (hlen : HEADER_LEN + (body ++ addedAfter v e).length ≤ MAX_ENTRY_LEN) :
    migrateEntry blake3 (encodeHeader blake3 e ++ body) v d = .ok e := by
  obtain ⟨stored, hstored, hback⟩ := restores hmin he hread hd (hgrows.encodes hlen) hlen
  rw [← append_assoc, bytesAt_append] at hstored
  rw [migrateEntry_eq hmin hmax, decodeCurrent_ok, hstored]
  exact decodeEntry_of_reads hback.reads hback.fits

end Grown

/-- A react round of version 8 with a model id of `n` bytes. -/
def roundWithModel (n : Nat) : ReactRound where
  turn := 2
  turnMoteId := ⟨.replicate 32 1⟩
  instanceId := .replicate 16 2
  basePromptRef := ⟨.replicate 32 3⟩
  warrantRef := ⟨.replicate 32 4⟩
  modelId := String.ofList (List.replicate n 'a')
  branch := .answer
  maxTurns := 8
  maxToolCalls := 4
  stepSalt := none
  isAgenticLaunch := false
  contextItemsRef := none
  imageRef := none
  requireApproval := false
  seq := 9

theorem length_utf8Bytes_replicate (n : Nat) :
    (utf8Bytes (String.ofList (List.replicate n 'a'))).length = n := by
  have hsize : (String.ofList (List.replicate n 'a')).utf8ByteSize = n := by
    induction n with
    | zero => rfl
    | succ n ih =>
      have hchar : (String.singleton 'a').utf8ByteSize = 1 := by decide
      rw [replicate_succ, String.ofList_cons, String.utf8ByteSize_append, ih, hchar]
      omega
  exact hsize

theorem expressibleAt_roundWithModel (n : Nat) :
    (JournalEntry.reactRound (roundWithModel n)).ExpressibleAt 8 :=
  ⟨show (8 : UInt16) ≤ 8 by decide, show (8 : UInt16) ≤ 8 by decide,
    fun _ => rfl, fun _ => rfl, fun _ => rfl, fun _ => rfl, fun _ => rfl⟩

/-- What version 8 stored for the round: 169 bytes besides the model id. -/
theorem encodeEntryAt_roundWithModel (hn : n ≤ 4331) :
    ∃ b, encodeEntryAt (fun _ => .replicate 32 0) 8 (.reactRound (roundWithModel n)) =
      .ok b ∧ b.length = 169 + n ∧ b.head? = some KIND_REACT_ROUND := by
  have hutf8 : (utf8Bytes (roundWithModel n).modelId).length = n := length_utf8Bytes_replicate n
  have hmodel : pushLenPrefixedStr (roundWithModel n).modelId =
      .ok (leBytes 2 n ++ utf8Bytes (roundWithModel n).modelId) := by
    rw [pushLenPrefixedStr, hutf8, if_pos (by omega)]
  let body := encodeReactFront (roundWithModel n)
    (leBytes 2 n ++ utf8Bytes (roundWithModel n).modelId) [ReactBranch.answer.asU8] []
  have hbodyLen : HEADER_LEN + body.length = 169 + n := by
    simp [body, encodeReactFront, hutf8, HEADER_LEN, INSTANCE_ID_LEN]
    omega
  have hbody : encodeBodyAt 8 (.reactRound (roundWithModel n)) = .ok body := by
    simp only [encodeBodyAt, hmodel]
    apply guardLen_ok.mpr
    refine ⟨rfl, ?_⟩
    rw [hbodyLen, MAX_ENTRY_LEN]
    omega
  refine ⟨_, encodeEntryAt_ok.mpr ⟨body, hbody, rfl⟩, ?_, rfl⟩
  rw [length_append, length_encodeHeader, hbodyLen]

/-- An entry that a binary of any supported version appended is migrated, and what it is
migrated to can be appended again, exactly when it is readable and still fits the size cap
with the fields added since. -/
theorem migrated_entry_fits_iff (blake3 : List UInt8 → ByteVec 32) (v : UInt16)
    (hmin : MIN_SUPPORTED_SCHEMA_VERSION ≤ v) (hmax : v ≤ JOURNAL_SCHEMA_VERSION)
    (e : JournalEntry) (he : e.ExpressibleAt v) (b : List UInt8)
    (hb : encodeEntryAt blake3 v e = .ok b) (hlen : b.length ≤ MAX_ENTRY_LEN) (d : MoteDefHash) :
    (migrateEntry blake3 b v d = .ok (e.withDefHash d) ∧ Encodes blake3 (e.withDefHash d)) ↔
      e.Readable ∧ b.length + (addedAfter v e).length ≤ MAX_ENTRY_LEN := by
  obtain ⟨body, hbody, rfl⟩ := encodeEntryAt_ok.mp hb
  have hexpr : (e.withDefHash d).ExpressibleAt v := he.withDefHash
  have hgrows : GrowsSince v (e.withDefHash d) body := growsSince hexpr (by simpa using hbody)
  have hsize : (encodeHeader blake3 e ++ body).length + (addedAfter v e).length =
      HEADER_LEN + (body ++ addedAfter v (e.withDefHash d)).length := by
    simp [Nat.add_assoc]
  rw [hsize]
  constructor
  · rintro ⟨hmigrate, hencodes⟩
    rw [migrateEntry_eq hmin hmax, decodeCurrent_ok] at hmigrate
    have hread := (decodeEntry_accepted hmigrate).2.2.readable
    obtain ⟨full, hfull, hfits⟩ := encodes_iff.mp hencodes
    rw [hgrows.only full hfull] at hfits
    exact ⟨readable_withDefHash.mp hread, hfits⟩
  · rintro ⟨hread, hfits⟩
    constructor
    · rw [← encodeHeader_withDefHash (d := d)]
      exact hgrows.migrateEntry hmin hmax hexpr (readable_withDefHash.mpr hread)
        (defHashIs_withDefHash e d) hfits
    · exact encodes_iff.mpr ⟨_, hgrows.encodes hfits, hfits⟩

theorem migrated_entry_fits_iff_shortModel :
    ∃ b, encodeEntryAt (fun _ => .replicate 32 0) 8 (.reactRound (roundWithModel 7)) =
        .ok b ∧ b.length = 176 ∧
      ((migrateEntry (fun _ => .replicate 32 0) b 8 ⟨.replicate 32 0⟩ =
            .ok (.reactRound (roundWithModel 7)) ∧
          Encodes (fun _ => .replicate 32 0) (.reactRound (roundWithModel 7))) ↔
        (JournalEntry.reactRound (roundWithModel 7)).Readable ∧
          b.length + 5 ≤ MAX_ENTRY_LEN) := by
  obtain ⟨b, hb, hlen, -⟩ := encodeEntryAt_roundWithModel (n := 7) (by decide)
  refine ⟨b, hb, hlen, ?_⟩
  exact migrated_entry_fits_iff _ 8 (by decide) (by decide) _ (expressibleAt_roundWithModel 7) b
    hb (by rw [hlen]; decide) _

/-- The longest round version 8 could append is refused: the byte that stands for its
missing salt takes it over the cap. -/
theorem full_round_not_migrated :
    ∃ b, encodeEntryAt (fun _ => .replicate 32 0) 8 (.reactRound (roundWithModel 4331)) =
        .ok b ∧ b.length = MAX_ENTRY_LEN ∧
      (JournalEntry.reactRound (roundWithModel 4331)).ExpressibleAt 8 ∧
      (JournalEntry.reactRound (roundWithModel 4331)).Readable ∧
      migrateEntry (fun _ => .replicate 32 0) b 8 ⟨.replicate 32 0⟩ =
        .error (.decode (.tooLarge 4501)) := by
  obtain ⟨b, hb, hlen, hkind⟩ := encodeEntryAt_roundWithModel (n := 4331) (by decide)
  refine ⟨b, hb, hlen, expressibleAt_roundWithModel 4331, trivial, ?_⟩
  have hover : (b ++ [0]).length = 4501 := by simp [hlen]
  rw [migrateEntry_eq (by decide) (by decide), upconverted, if_pos ⟨rfl, hkind⟩, decodeCurrent,
    decodeEntryWithDefHash, if_pos (by rw [hover]; decide), hover]
  rfl

end Kortecx.Journal
