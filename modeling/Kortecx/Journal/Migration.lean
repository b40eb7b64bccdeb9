import Kortecx.Journal.Reencode

/-! Reading entries that an older schema version wrote. Two versions need bytes
appended before the current decoder reads them; for the others the decoder's
end-of-body defaults are the up-conversion. -/

namespace Kortecx.Journal

open Lib Lib.Reader Mote List

def JOURNAL_SCHEMA_VERSION : UInt16 := 18
def MIN_SUPPORTED_SCHEMA_VERSION : UInt16 := 5

/-- The errors of the journal that the modelled operations can return. A failure of
the database itself carries no detail here. -/
inductive JournalError where
  | schemaVersionMismatch (expected found : UInt16)
  | entryTooLarge (got : Nat)
  | encode (e : EncodeError)
  | decode (e : DecodeError)
  | sqlite
deriving DecidableEq, Repr

def V5_ABSENT_IDEMPOTENCY_CLASS : IdempotencyClassTag := .atLeastOnce

section Migrate

variable (blake3 : List UInt8 → ByteVec 32)

/-- The current decoder, with its error lifted by `?`. -/
def decodeCurrent (bytes : List UInt8) (defHash : MoteDefHash) : Except JournalError JournalEntry :=
  (decodeEntryWithDefHash blake3 bytes defHash).mapError .decode

/-- Whether the bytes are certainly those of a run's resolved versions with a
capability: any bounds ambiguity counts as no. -/
def v5RunVersionsHasCapability (bytes : List UInt8) : Bool :=
  if bytes.head? ≠ some KIND_RUN_VERSIONS_RESOLVED then false
  else if bytes.length < HEADER_LEN then false
  else
    let body := bytes.drop HEADER_LEN
    if body.length < INSTANCE_ID_LEN + 32 + 2 then false
    else
      let modelIdLen := leNat ((body.drop (INSTANCE_ID_LEN + 32)).take 2)
      body[INSTANCE_ID_LEN + 32 + 2 + modelIdLen]? == some 1

def upconvertV8ToCurrent (bytes : List UInt8) (defHash : MoteDefHash) :
    Except JournalError JournalEntry :=
  if bytes.head? = some KIND_REACT_ROUND then
    decodeCurrent blake3 (bytes ++ [0]) defHash
  else
    decodeCurrent blake3 bytes defHash

def upconvertV5ToCurrent (bytes : List UInt8) (defHash : MoteDefHash) :
    Except JournalError JournalEntry :=
  if v5RunVersionsHasCapability bytes then
    decodeCurrent blake3 (bytes ++ [ByteTag.asU8 V5_ABSENT_IDEMPOTENCY_CLASS]) defHash
  else
    decodeCurrent blake3 bytes defHash

def migrateEntry (bytes : List UInt8) (fromVersion : UInt16) (defHash : MoteDefHash) :
    Except JournalError JournalEntry :=
  if ¬(MIN_SUPPORTED_SCHEMA_VERSION ≤ fromVersion ∧ fromVersion ≤ JOURNAL_SCHEMA_VERSION) then
    .error (.schemaVersionMismatch JOURNAL_SCHEMA_VERSION fromVersion)
  else
    match fromVersion with
    -- 18 is `JOURNAL_SCHEMA_VERSION`
    | 18 => decodeCurrent blake3 bytes defHash
    | 17 | 16 | 15 | 14 | 13 | 12 | 11 | 10 | 9 => decodeCurrent blake3 bytes defHash
    | 8 => upconvertV8ToCurrent blake3 bytes defHash
    | 7 | 6 => decodeCurrent blake3 bytes defHash
    | 5 => upconvertV5ToCurrent blake3 bytes defHash
    | other => .error (.schemaVersionMismatch JOURNAL_SCHEMA_VERSION other)

end Migrate

def JournalEntry.since : JournalEntry → UInt16
  | .replanRound _ => 7
  | .reactRound _ => 8
  | .approval _ => 15
  | .reRankRound _ => 16
  | .timerArmed _ => 17
  | _ => 5

def ReactBranch.since : ReactBranch → UInt16
  | .rejected _ => 10
  | .toolBatch _ => 13
  | _ => 8

/-- A react round in which every field newer than `v` has its up-convert default. -/
structure ReactRound.ExpressibleAt (v : UInt16) (e : ReactRound) : Prop where
  branch : e.branch.since ≤ v
  stepSalt : v < 9 → e.stepSalt = none
  isAgenticLaunch : v < 11 → e.isAgenticLaunch = e.stepSalt.isSome
  contextItemsRef : v < 12 → e.contextItemsRef = none
  imageRef : v < 14 → e.imageRef = none
  requireApproval : v < 15 → e.requireApproval = false

/-- A writer of version `v` could have recorded the entry. -/
def JournalEntry.ExpressibleAt (v : UInt16) (e : JournalEntry) : Prop :=
  e.since ≤ v ∧
    match e with
    | .failed e => v < 18 → e.detail = ""
    | .runVersionsResolved e =>
      v < 6 → ∀ cap ∈ e.capability, cap.idempotencyClass = V5_ABSENT_IDEMPOTENCY_CLASS
    | .reactRound e => e.ExpressibleAt v
    | _ => True

/-- The trailing bytes of the current encoding that writers of version `v` did not write. -/
def addedAfter (v : UInt16) : JournalEntry → List UInt8
  | .failed e =>
    if v < 18 then leBytes 2 (utf8Bytes e.detail).length ++ utf8Bytes e.detail else []
  | .runVersionsResolved e =>
    match e.capability with
    | some cap => if v < 6 then [ByteTag.asU8 cap.idempotencyClass] else []
    | none => []
  | .reactRound e =>
    (if v < 9 then pushOption ByteVec.toList e.stepSalt else []) ++
    ((if v < 11 then [boolU8 e.isAgenticLaunch] else []) ++
    ((if v < 12 then pushOption pushRef e.contextItemsRef else []) ++
    ((if v < 14 then pushOption pushRef e.imageRef else []) ++
    (if v < 15 then [boolU8 e.requireApproval] else []))))
  | _ => []

/-- What a writer of version `v` stored for the entry whose current bytes are `b`. -/
def bytesAt (v : UInt16) (e : JournalEntry) (b : List UInt8) : List UInt8 :=
  b.take (b.length - (addedAfter v e).length)

theorem bytesAt_append (front : List UInt8) :
    bytesAt v e (front ++ addedAfter v e) = front := by
  simp [bytesAt]

variable {blake3 : List UInt8 → ByteVec 32} {v : UInt16} {e : JournalEntry} {d : MoteDefHash}
  {b : List UInt8} {bytes : List UInt8}

theorem decodeCurrent_ok :
    decodeCurrent blake3 bytes d = .ok e ↔ decodeEntryWithDefHash blake3 bytes d = .ok e := by
  rw [decodeCurrent]
  cases decodeEntryWithDefHash blake3 bytes d <;> simp [Except.mapError]

/-- What the current decoder is given for an entry of a supported version. -/
def upconverted (v : UInt16) (bytes : List UInt8) : List UInt8 :=
  if v = 8 ∧ bytes.head? = some KIND_REACT_ROUND then bytes ++ [0]
  else if v = 5 ∧ v5RunVersionsHasCapability bytes then
    bytes ++ [ByteTag.asU8 V5_ABSENT_IDEMPOTENCY_CLASS]
  else bytes

theorem supported_eq_ofNat (hmin : MIN_SUPPORTED_SCHEMA_VERSION ≤ v)
    (hmax : v ≤ JOURNAL_SCHEMA_VERSION) : ∃ n : Nat, 5 ≤ n ∧ n ≤ 18 ∧ v = UInt16.ofNat n := by
  refine ⟨v.toNat, ?_, ?_, UInt16.ofNat_toNat.symm⟩
  · exact UInt16.le_iff_toNat_le.mp hmin
  · exact UInt16.le_iff_toNat_le.mp hmax

/-- The ladder has an arm for every version between the two bounds, and each arm is
the current decoder after an up-conversion of the bytes. -/
theorem migrateEntry_eq (hmin : MIN_SUPPORTED_SCHEMA_VERSION ≤ v)
    (hmax : v ≤ JOURNAL_SCHEMA_VERSION) :
    migrateEntry blake3 bytes v d = decodeCurrent blake3 (upconverted v bytes) d := by
  have hsupported : ¬¬(MIN_SUPPORTED_SCHEMA_VERSION ≤ v ∧ v ≤ JOURNAL_SCHEMA_VERSION) :=
    not_not_intro ⟨hmin, hmax⟩
  unfold migrateEntry
  rw [if_neg hsupported]
  obtain ⟨n, hn, hn', rfl⟩ := supported_eq_ofNat hmin hmax
  clear hmin hmax hsupported
  interval_cases n
  case «5» =>
    by_cases hcap : v5RunVersionsHasCapability bytes = true <;>
      simp [upconvertV5ToCurrent, upconverted, hcap]
  case «8» =>
    by_cases hreact : bytes.head? = some KIND_REACT_ROUND <;>
      simp [upconvertV8ToCurrent, upconverted, hreact]
  all_goals rfl

@[simp]
theorem head?_encodeHeader (e : JournalEntry) : (encodeHeader blake3 e).head? = some e.kind := rfl

theorem drop_encodeHeader_append (e : JournalEntry) (body : List UInt8) :
    (encodeHeader blake3 e ++ body).drop HEADER_LEN = body := by
  have hlen : (encodeHeader blake3 e).length = HEADER_LEN := length_encodeHeader e
  rw [← hlen, drop_left]

variable {body : List UInt8}

theorem upconverted_of_kind (hreact : e.kind ≠ KIND_REACT_ROUND)
    (hversions : e.kind ≠ KIND_RUN_VERSIONS_RESOLVED) :
    upconverted v (encodeHeader blake3 e ++ body) = encodeHeader blake3 e ++ body := by
  simp [upconverted, v5RunVersionsHasCapability, hreact, hversions]

/-- The sniff finds the presence byte behind the model id of a run's resolved versions. -/
theorem v5RunVersionsHasCapability_eq {e : RunVersionsResolved}
    (hmodel : pushLenPrefixedStr e.modelId = .ok modelId) :
    v5RunVersionsHasCapability (encodeHeader blake3 (.runVersionsResolved e) ++
      (e.instanceId.toList ++ (pushRef e.warrantRef ++ (modelId ++ ([present] ++ capability))))) =
        (present == 1) := by
  obtain ⟨hlen, rfl⟩ := pushLenPrefixedStr_ok.mp hmodel
  have hcount : leNat (leBytes 2 (utf8Bytes e.modelId).length) = (utf8Bytes e.modelId).length :=
    leNat_leBytes hlen
  have hsplit : e.instanceId.toList ++ (pushRef e.warrantRef ++
      ((leBytes 2 (utf8Bytes e.modelId).length ++ utf8Bytes e.modelId) ++
        ([present] ++ capability))) =
      (e.instanceId.toList ++ pushRef e.warrantRef) ++
        (leBytes 2 (utf8Bytes e.modelId).length ++
          (utf8Bytes e.modelId ++ present :: capability)) := by simp
  have hfront : (e.instanceId.toList ++ pushRef e.warrantRef).length = INSTANCE_ID_LEN + 32 := by
    simp
  rw [hsplit, v5RunVersionsHasCapability, if_neg (by simp [JournalEntry.kind]), if_neg (by simp)]
  simp only [drop_encodeHeader_append]
  rw [if_neg (by simp; omega), drop_left' hfront, take_left' (length_leBytes 2 _), hcount]
  have hbyte : ((e.instanceId.toList ++ pushRef e.warrantRef) ++
      (leBytes 2 (utf8Bytes e.modelId).length ++ (utf8Bytes e.modelId ++ present :: capability)))[
        INSTANCE_ID_LEN + 32 + 2 + (utf8Bytes e.modelId).length]? = some present := by
    rw [List.getElem?_append_right (by omega), List.getElem?_append_right (by simp; omega),
      List.getElem?_append_right (by simp; omega), hfront, length_leBytes]
    have hzero : INSTANCE_ID_LEN + 32 + 2 + (utf8Bytes e.modelId).length - (INSTANCE_ID_LEN + 32) - 2 -
        (utf8Bytes e.modelId).length = 0 := by omega
    rw [hzero]
    rfl
  rw [hbyte]
  rfl

/-- The decoder, given the body `body` in front of which `e` writes its header, reads
`e`; and `body` is no longer than the cap allows. -/
structure ReadsBack (blake3 : List UInt8 → ByteVec 32) (d : MoteDefHash) (e : JournalEntry)
    (body : List UInt8) : Prop where
  reads : Reads (decodeBody blake3 (e.header blake3) d) body e []
  fits : HEADER_LEN + body.length ≤ MAX_ENTRY_LEN

/-- The trailing fields a writer of version 9 or later stored. -/
def reactTailAt (v : UInt16) (e : ReactRound) : List UInt8 :=
  pushOption ByteVec.toList e.stepSalt ++
    (if v < 11 then [] else [boolU8 e.isAgenticLaunch] ++
      (if v < 12 then [] else pushOption pushRef e.contextItemsRef ++
        (if v < 14 then [] else pushOption pushRef e.imageRef ++
          (if v < 15 then [] else [boolU8 e.requireApproval]))))

theorem encodeReactTail_eq_at (e : ReactRound) (hv : ¬ v < 9) :
    encodeReactTail e = reactTailAt v e ++ addedAfter v (.reactRound e) := by
  simp only [encodeReactTail, reactTailAt, addedAfter, if_neg hv, nil_append,
    append_assoc, append_cancel_left_eq]
  by_cases h11 : v < 11
  · have h12 : v < 12 := by grind
    have h14 : v < 14 := by grind
    have h15 : v < 15 := by grind
    simp only [if_pos, h11, h12, h14, h15, nil_append]
  by_cases h12 : v < 12
  · have h14 : v < 14 := by grind
    have h15 : v < 15 := by grind
    simp [h11, h12, h14, h15]
  by_cases h14 : v < 14
  · have h15 : v < 15 := by grind
    simp [h11, h12, h14, h15]
  by_cases h15 : v < 15
  · simp [h11, h12, h14, h15]
  · simp [h11, h12, h14, h15]

/-- A trailing field that is stored since version `n`, before fields that came later. -/
theorem trailing_since {α : Type} {a default : α} (hdefault : v < n → a = default)
    (hbytes : bytes ≠ []) (hlater : v < n → later = []) :
    Trailing a default bytes (if v < n then [] else bytes) later := by
  by_cases hv : v < n
  · exact .inl ⟨hdefault hv, if_pos hv, hlater hv⟩
  · exact .inr ⟨by simp [hv, hbytes], if_neg hv⟩

/-- From the first absent field on, the decoder's defaults are the fields' values. -/
theorem storedAs_reactTailAt {e : ReactRound} (he : e.ExpressibleAt v) :
    e.tail.StoredAs (reactTailAt v e) := by
  have hsplit : reactTailAt v e = pushOption ByteVec.toList e.stepSalt ++
      ((if v < 11 then [] else [boolU8 e.isAgenticLaunch]) ++
        ((if v < 12 then [] else pushOption pushRef e.contextItemsRef) ++
          ((if v < 14 then [] else pushOption pushRef e.imageRef) ++
            (if v < 15 then [] else [boolU8 e.requireApproval])))) := by
    grind [reactTailAt]
  exact ⟨_, _, _, _, hsplit, trailing_since he.isAgenticLaunch (by simp) (by grind),
    trailing_since he.contextItemsRef pushOption_ne_nil (by grind),
    trailing_since he.imageRef pushOption_ne_nil (by grind),
    trailing_since he.requireApproval (by simp) fun _ => rfl⟩

/-- What the current decoder is handed for an entry a writer of version `v` stored
decodes to the entry. -/
def Restores (blake3 : List UInt8 → ByteVec 32) (v : UInt16) (d : MoteDefHash)
    (e : JournalEntry) (b : List UInt8) : Prop :=
  ∃ body, upconverted v (bytesAt v e b) = encodeHeader blake3 e ++ body ∧
    ReadsBack blake3 d e body

/-- Kinds that no version has changed. -/
theorem restores_unchanged (hadded : addedAfter v e = []) (hreact : e.kind ≠ KIND_REACT_ROUND)
    (hversions : e.kind ≠ KIND_RUN_VERSIONS_RESOLVED) (hback : ReadsBack blake3 d e body) :
    Restores blake3 v d e (encodeHeader blake3 e ++ body) := by
  refine ⟨body, ?_, hback⟩
  have hbytes : bytesAt v e (encodeHeader blake3 e ++ body) = encodeHeader blake3 e ++ body := by
    simp [bytesAt, hadded]
  rw [hbytes, upconverted_of_kind hreact hversions]

theorem restores_failed {e : Failed} (he : (JournalEntry.failed e).ExpressibleAt v)
    (hbody : encodeFailed e = .ok body) (hback : ReadsBack blake3 d (.failed e) body) :
    Restores blake3 v d (.failed e) (encodeHeader blake3 (.failed e) ++ body) := by
  by_cases hv : v < 18
  · simp only [encodeFailed, except_bind_eq_ok, Except.ok.injEq] at hbody
    obtain ⟨detail, hdetail, rfl⟩ := hbody
    obtain ⟨-, rfl⟩ := pushLenPrefixedStr_ok.mp hdetail
    have hempty : e.detail = "" := he.2 hv
    have hadded : addedAfter v (.failed e) =
        leBytes 2 (utf8Bytes e.detail).length ++ utf8Bytes e.detail := by
      simp only [addedAfter, if_pos hv]
    refine ⟨[ByteTag.asU8 e.reasonClass] ++ leBytes 16 e.reporterId.toNat, ?_, ?_, ?_⟩
    · rw [← hadded, ← append_assoc [_], ← append_assoc, bytesAt_append]
      exact upconverted_of_kind (show KIND_FAILED ≠ KIND_REACT_ROUND by decide)
        (show KIND_FAILED ≠ KIND_RUN_VERSIONS_RESOLVED by decide)
    · refine (takes_atLeast.reads (a := ()) ⟨rfl, by simp [FAILED_PREFIX_LEN]⟩).bind_nil ?_
      refine (takes_readTag.reads rfl).bind ?_
      refine ((takes_u128 _).reads rfl).bind_last ?_
      rw [← hempty]
      refine ((takes_readIfMore takes_readLenPrefixedStr).reads (.inl ⟨rfl, rfl, rfl⟩)).bind_nil ?_
      exact takes_expectEnd.last.reads ⟨(), ⟨rfl, rfl⟩, rfl⟩
    · simp [HEADER_LEN, MAX_ENTRY_LEN]
  · exact restores_unchanged (by simp [addedAfter, hv])
      (show KIND_FAILED ≠ KIND_REACT_ROUND by decide)
      (show KIND_FAILED ≠ KIND_RUN_VERSIONS_RESOLVED by decide) hback

/-- Only version 5 touches a run's resolved versions, and only if it finds a capability. -/
theorem upconverted_runVersionsResolved {e : RunVersionsResolved} :
    upconverted v (encodeHeader blake3 (.runVersionsResolved e) ++ body) =
      if v = 5 ∧ v5RunVersionsHasCapability (encodeHeader blake3 (.runVersionsResolved e) ++ body)
      then encodeHeader blake3 (.runVersionsResolved e) ++ body ++
        [ByteTag.asU8 V5_ABSENT_IDEMPOTENCY_CLASS]
      else encodeHeader blake3 (.runVersionsResolved e) ++ body := by
  have hkind : ¬ (v = 8 ∧ (encodeHeader blake3 (.runVersionsResolved e) ++ body).head? =
      some KIND_REACT_ROUND) := by
    simp [JournalEntry.kind, KIND_RUN_VERSIONS_RESOLVED, KIND_REACT_ROUND]
  rw [upconverted, if_neg hkind]

theorem restores_runVersionsResolved {e : RunVersionsResolved}
    (hmin : MIN_SUPPORTED_SCHEMA_VERSION ≤ v)
    (he : (JournalEntry.runVersionsResolved e).ExpressibleAt v)
    (hbody : encodeRunVersionsResolved e = .ok body)
    (hback : ReadsBack blake3 d (.runVersionsResolved e) body) :
    Restores blake3 v d (.runVersionsResolved e)
      (encodeHeader blake3 (.runVersionsResolved e) ++ body) := by
  obtain ⟨modelId, capability, hmodel, hcap, rfl, -⟩ := encodeRunVersionsResolved_ok.mp hbody
  refine ⟨_, ?_, hback⟩
  cases hcapability : e.capability with
  | none =>
    rw [hcapability] at hcap
    cases hcap
    have hadded : addedAfter v (.runVersionsResolved e) = [] := by
      simp only [addedAfter, hcapability]
    have hsniff : v5RunVersionsHasCapability (encodeHeader blake3 (.runVersionsResolved e) ++
        (e.instanceId.toList ++ (pushRef e.warrantRef ++ (modelId ++ ([0] ++ []))))) = false :=
      v5RunVersionsHasCapability_eq hmodel
    rw [bytesAt, hadded, length_nil, Nat.sub_zero, take_length,
      upconverted_runVersionsResolved, if_neg]
    rintro ⟨-, htrue⟩
    rw [append_nil] at hsniff
    exact absurd (hsniff.symm.trans htrue) (by decide)
  | some cap =>
    rw [hcapability] at hcap
    obtain ⟨ys, hys, rfl⟩ := encodeOptionalCapability_some_ok.mp hcap
    by_cases hv : v < 6
    · have hv5 : v = 5 := by
        simp only [MIN_SUPPORTED_SCHEMA_VERSION] at hmin
        grind
      obtain ⟨toolId, toolVersion, hid, hversion, rfl⟩ := encodeCapability_ok.mp hys
      have hclass : cap.idempotencyClass = V5_ABSENT_IDEMPOTENCY_CLASS :=
        he.2 hv cap hcapability
      have hadded : addedAfter v (.runVersionsResolved e) =
          [ByteTag.asU8 V5_ABSENT_IDEMPOTENCY_CLASS] := by
        simp only [addedAfter, hcapability, if_pos hv, hclass]
      -- the stored bytes, which lack the class byte, and the current ones
      let stored := encodeHeader blake3 (.runVersionsResolved e) ++ (e.instanceId.toList ++
        (pushRef e.warrantRef ++ (modelId ++ ([1] ++ (toolId ++ (toolVersion ++
          ([ByteTag.asU8 cap.resolvedKind] ++ pushRef cap.resolvedDefHash)))))))
      have hcurrent : encodeHeader blake3 (.runVersionsResolved e) ++ (e.instanceId.toList ++
          (pushRef e.warrantRef ++ (modelId ++ ([1] ++ (toolId ++ (toolVersion ++
            ([ByteTag.asU8 cap.resolvedKind] ++ (pushRef cap.resolvedDefHash ++
              [ByteTag.asU8 cap.idempotencyClass])))))))) =
          stored ++ [ByteTag.asU8 V5_ABSENT_IDEMPOTENCY_CLASS] := by
        simp [stored, hclass]
      have hsniff : v5RunVersionsHasCapability stored = true :=
        v5RunVersionsHasCapability_eq hmodel
      rw [hcurrent, ← hadded, bytesAt_append, hadded, upconverted_runVersionsResolved,
        if_pos ⟨hv5, hsniff⟩]
    · have hv5 : v ≠ 5 := by grind
      have hadded : addedAfter v (.runVersionsResolved e) = [] := by
        simp only [addedAfter, hcapability, if_neg hv]
      rw [bytesAt, hadded, length_nil, Nat.sub_zero, take_length,
        upconverted_runVersionsResolved, if_neg (fun h => hv5 h.1)]

/-- A writer of version 8 stored no trailing field at all; the byte appended for it
is an absent step salt. -/
theorem reactTail_at_eight {e : ReactRound} (hv : v = 8) (he : e.ExpressibleAt v) :
    addedAfter v (.reactRound e) = encodeReactTail e ∧ reactTailAt v e = [0] := by
  subst hv
  have hsalt := he.stepSalt (by decide)
  exact ⟨rfl, by simp [reactTailAt, hsalt, pushOption]⟩

theorem upconverted_reactRound_bytesAt {e : ReactRound} (hsince : 8 ≤ v) (he : e.ExpressibleAt v) :
    upconverted v (bytesAt v (.reactRound e) (encodeHeader blake3 (.reactRound e) ++
      encodeReactFront e modelId branch (encodeReactTail e))) =
        encodeHeader blake3 (.reactRound e) ++
          encodeReactFront e modelId branch (reactTailAt v e) := by
  by_cases hv : v = 8
  · obtain ⟨hadded, htail⟩ := reactTail_at_eight hv he
    have hfull : encodeReactFront e modelId branch (encodeReactTail e) =
        encodeReactFront e modelId branch [] ++ addedAfter v (.reactRound e) := by
      rw [hadded]
      exact encodeReactFront_append e modelId branch [] _
    have hzero : encodeReactFront e modelId branch [0] =
        encodeReactFront e modelId branch [] ++ [0] :=
      encodeReactFront_append e modelId branch [] [0]
    rw [hfull, ← append_assoc, bytesAt_append, htail, hzero, upconverted,
      if_pos ⟨hv, rfl⟩, append_assoc]
  · have h9 : ¬ v < 9 := by grind
    have h5 : ¬ v = 5 := by grind
    rw [encodeReactTail_eq_at e h9, encodeReactFront_append, ← append_assoc, bytesAt_append,
      upconverted, if_neg (fun h => hv h.1), if_neg (fun h => h5 h.1)]

theorem length_reactTailAt_le {e : ReactRound} (hsince : 8 ≤ v) (he : e.ExpressibleAt v) :
    (reactTailAt v e).length ≤ (encodeReactTail e).length := by
  by_cases hv : v = 8
  · rw [(reactTail_at_eight hv he).2, encodeReactTail]
    simp
    omega
  have h9 : ¬ v < 9 := by grind
  rw [encodeReactTail_eq_at e h9]
  simp

theorem restores_reactRound {e : ReactRound} (he : (JournalEntry.reactRound e).ExpressibleAt v)
    (hread : e.branch.Readable) (hbody : encodeReactRound e = .ok body) :
    Restores blake3 v d (.reactRound e) (encodeHeader blake3 (.reactRound e) ++ body) := by
  obtain ⟨modelId, branch, hmodel, hbranch, rfl, hlen⟩ := encodeReactRound_ok.mp hbody
  obtain ⟨hsince, hfields⟩ := he
  refine ⟨_, upconverted_reactRound_bytesAt hsince hfields, ?_, ?_⟩
  · exact reads_decodeReactRound_of_tail hread hmodel hbranch (storedAs_reactTailAt hfields)
  · have hshort := length_reactTailAt_le hsince hfields
    simp only [encodeReactFront, length_append] at hlen ⊢
    omega

/-- Every entry a supported version could record is restored. -/
theorem restores (hmin : MIN_SUPPORTED_SCHEMA_VERSION ≤ v) (he : e.ExpressibleAt v)
    (hread : e.Readable) (hd : e.DefHashIs d) (hbody : encodeBody e = .ok body)
    (hlen : HEADER_LEN + body.length ≤ MAX_ENTRY_LEN) :
    Restores blake3 v d e (encodeHeader blake3 e ++ body) := by
  have hback : ReadsBack blake3 d e body := ⟨reads_decodeBody hread hd hbody, hlen⟩
  cases e with
  | failed e => exact restores_failed he hbody hback
  | runVersionsResolved e => exact restores_runVersionsResolved hmin he hbody hback
  | reactRound e => exact restores_reactRound he hread hbody
  | proposed e => exact restores_unchanged rfl (by nofun) (by nofun) hback
  | _ => exact restores_unchanged rfl (by nofun) (by nofun) hback

/-- An entry recorded under any supported schema version migrates to itself exactly
when it is readable. -/
theorem migrateEntry_bytesAt_iff (blake3 : List UInt8 → ByteVec 32) (v : UInt16)
    (hmin : MIN_SUPPORTED_SCHEMA_VERSION ≤ v) (hmax : v ≤ JOURNAL_SCHEMA_VERSION)
    (e : JournalEntry) (he : e.ExpressibleAt v) (d : MoteDefHash) (hd : e.DefHashIs d)
    (b : List UInt8) (hb : encodeEntry blake3 e = .ok b) (hlen : b.length ≤ MAX_ENTRY_LEN) :
    migrateEntry blake3 (bytesAt v e b) v d = .ok e ↔ e.Readable := by
  rw [migrateEntry_eq hmin hmax, decodeCurrent_ok]
  constructor
  · intro hdec
    exact (decodeEntry_accepted hdec).2.2.readable
  · intro hread
    obtain ⟨body, hbody, rfl⟩ := encodeEntry_ok.mp hb
    obtain ⟨stored, hstored, hback⟩ :=
      restores hmin he hread hd hbody (by simpa using hlen)
    rw [hstored]
    exact decodeEntry_of_reads hback.reads hback.fits

/-- A react round of version 10: a salted turn, which then meant an agentic launch. -/
def saltedRound : ReactRound where
  turn := 2
  turnMoteId := ⟨.replicate 32 1⟩
  instanceId := .replicate 16 2
  basePromptRef := ⟨.replicate 32 3⟩
  warrantRef := ⟨.replicate 32 4⟩
  modelId := "qwen2-0_5b"
  branch := .rejected "no such tool"
  maxTurns := 8
  maxToolCalls := 4
  stepSalt := some (.replicate 32 5)
  isAgenticLaunch := true
  contextItemsRef := none
  imageRef := none
  requireApproval := false
  seq := 9

def saltedRoundBytes : List UInt8 :=
  (encodeEntry (fun _ => .replicate 32 0) (.reactRound saltedRound)).toOption.getD []

theorem migrateEntry_bytesAt_iff_saltedRound :
    saltedRoundBytes.length = 230 ∧
      (migrateEntry (fun _ => .replicate 32 0)
          (bytesAt 10 (.reactRound saltedRound) saltedRoundBytes) 10 ⟨.replicate 32 0⟩ =
            .ok (.reactRound saltedRound) ↔
        (JournalEntry.reactRound saltedRound).Readable) :=
  ⟨by decide +kernel,
    migrateEntry_bytesAt_iff _ 10 (by decide) (by decide) (.reactRound saltedRound)
      ⟨by decide, by decide, by decide, by decide, by decide, by decide, by decide⟩ _ trivial
      saltedRoundBytes (by decide +kernel) (by decide +kernel)⟩

/-- Migration inherits the encoder's missing check: what it refuses to read back it
may itself have written. -/
theorem not_migrateEntry_bytesAt :
    ¬ ∃ blake3 : List UInt8 → ByteVec 32, ∀ (v : UInt16) (e : JournalEntry) (d : MoteDefHash)
      (b : List UInt8), MIN_SUPPORTED_SCHEMA_VERSION ≤ v → v ≤ JOURNAL_SCHEMA_VERSION →
        e.ExpressibleAt v → e.DefHashIs d → encodeEntry blake3 e = .ok b →
          b.length ≤ MAX_ENTRY_LEN → migrateEntry blake3 (bytesAt v e b) v d = .ok e := by
  rintro ⟨blake3, hall⟩
  have hb : encodeEntry blake3 (committedWithParent 2 0) = .ok (committedWithParentBytes 2 0) :=
    rfl
  have hmigrate := hall 5 _ _ _ (by decide) (by decide) ⟨by decide, trivial⟩
    (committedWithParent 2 0).defHashIs_stored hb (by decide +kernel)
  rw [migrateEntry_eq (by decide) (by decide), decodeCurrent_ok] at hmigrate
  exact absurd (decodeEntry_accepted hmigrate).2.2.readable (by decide)

end Kortecx.Journal
