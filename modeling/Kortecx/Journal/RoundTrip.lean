import Kortecx.Journal.Fields

/-! What the encoder writes and the decoder reads back, and what bodies the decoder
accepts, kind by kind. The two halves do not check the same things: an entry survives
the round trip exactly when it is `Readable`, a condition the encoder never tests. -/

namespace Kortecx.Journal

open Lib Lib.Reader Mote

/-- Both edge bytes lie in the range the decoder knows. -/
def ParentEntry.Readable (p : ParentEntry) : Prop :=
  p.edgeKind ≤ 1 ∧ p.nonCascade ≤ 1

instance (p : ParentEntry) : Decidable p.Readable :=
  inferInstanceAs (Decidable (_ ∧ _))

theorem ParentEntry.readable_fromParentRef (p : ParentRef) : (fromParentRef p).Readable := by
  constructor
  · change p.edge.kind.asU8 ≤ 1
    cases p.edge.kind <;> decide
  · change (if p.edge.nonCascade then 1 else 0 : UInt8) ≤ 1
    cases p.edge.nonCascade <;> decide

def ReactBranch.Readable : ReactBranch → Prop
  | .toolBatch calls => calls.length ≤ MAX_TOOL_BATCH_CALLS
  | _ => True

instance (branch : ReactBranch) : Decidable branch.Readable := by
  cases branch <;> simp only [ReactBranch.Readable] <;> infer_instance

/-- The ranges the decoder enforces and the encoder does not: edge bytes of a
committed entry's parents, the size of a tool batch, the purpose of a timer. -/
def JournalEntry.Readable : JournalEntry → Prop
  | .committed e => ∀ p ∈ e.parents, p.Readable
  | .reactRound e => e.branch.Readable
  | .timerArmed e => e.purpose ≤ 1
  | _ => True

instance (e : JournalEntry) : Decidable e.Readable := by
  cases e <;> simp only [JournalEntry.Readable] <;> infer_instance

/-- The definition hash the store keeps beside the encoded bytes: that of a
committed entry, and the all-zero sentinel otherwise. -/
def JournalEntry.storedDefHash : JournalEntry → MoteDefHash
  | .committed e => e.moteDefHash
  | _ => ⟨.replicate 32 0⟩

/-- `d` is the definition hash of an entry that has one. -/
def JournalEntry.DefHashIs (d : MoteDefHash) : JournalEntry → Prop
  | .committed e => e.moteDefHash = d
  | _ => True

variable (e : JournalEntry)

theorem JournalEntry.defHashIs_stored : e.DefHashIs e.storedDefHash := by
  cases e <;> trivial

def JournalEntry.header (blake3 : List UInt8 → ByteVec 32) (e : JournalEntry) : Header where
  kind := e.kind
  moteId := e.moteId blake3
  idempotencyKey := e.idempotencyKey
  seq := e.seq
  ndByte := ndByte e

variable {blake3 : List UInt8 → ByteVec 32} {body rest : List UInt8}

@[simp]
theorem length_encodeHeader : (encodeHeader blake3 e).length = HEADER_LEN := by
  simp [encodeHeader, HEADER_LEN]

theorem reads_readHeader :
    Reads readHeader (encodeHeader blake3 e) (e.header blake3) rest := by
  refine ((takes_u8 _).reads rfl).bind ?_
  refine (((takes_bytes _ 32).map MoteId.mk).reads ⟨(e.moteId blake3).bytes, rfl, rfl⟩).bind ?_
  refine ((takes_bytes _ 32).reads rfl).bind ?_
  refine ((takes_u64 _).reads rfl).bind ?_
  exact ((takes_u8 _).reads rfl).bind_last reads_pure

variable {xs b : List UInt8} {kind : UInt8} {cap : ResolvedCapabilityRecord} {e} {d : MoteDefHash}
  {p : ParentEntry} {capability : Option ResolvedCapabilityRecord} {call : String × String}
  {state : ApprovalState}

theorem encodeParent_ok :
    encodeParent p = .ok xs ↔
      ¬(p.edgeKind = 0 ∧ p.nonCascade ≠ 0) ∧
        xs = p.parentId.bytes.toList ++ ([p.edgeKind] ++ [p.nonCascade]) := by
  rw [encodeParent]
  split <;> simp_all [eq_comm]

theorem takes_readParent :
    Takes (readParent kind) fun p xs _ => p.Readable ∧ encodeParent p = .ok xs := by
  refine (takes_readMoteId.field fun _ => (takes_u8 _).field fun _ => (takes_u8 _).field fun _ =>
    takes_rejectIf.check fun _ => takes_rejectIf.check fun _ => takes_rejectIf.check fun _ =>
    takes_pure _).congr fun p xs rest => ?_
  rw [encodeParent_ok]
  constructor
  · rintro ⟨_, _, rfl, edge, _, rfl, cascade, _, rfl, -, hedge, -, hdata, -, hcascade, rfl, rfl⟩
    exact ⟨⟨UInt8.not_lt.mp hedge, UInt8.not_lt.mp hcascade⟩, hdata, by simp⟩
  · rintro ⟨⟨hedge, hcascade⟩, hdata, rfl⟩
    exact ⟨_, _, rfl, _, _, rfl, _, [], rfl, (), UInt8.not_lt.mpr hedge, (), hdata, (),
      UInt8.not_lt.mpr hcascade, rfl, rfl⟩

theorem encodeCapability_ok :
    encodeCapability cap = .ok xs ↔
      ∃ toolId toolVersion, pushLenPrefixedStr cap.toolId = .ok toolId ∧
        pushLenPrefixedStr cap.toolVersion = .ok toolVersion ∧
        xs = toolId ++ (toolVersion ++ ([ByteTag.asU8 cap.resolvedKind] ++
          (pushRef cap.resolvedDefHash ++ [ByteTag.asU8 cap.idempotencyClass]))) := by
  simp only [encodeCapability, except_bind_eq_ok, exists_and_left, Except.ok.injEq,
    eq_comm (b := xs)]

theorem takes_readCapability :
    Takes (readCapability kind) fun cap xs _ => encodeCapability cap = .ok xs := by
  refine (takes_readLenPrefixedStr.bind fun _ => takes_readLenPrefixedStr.bind fun _ =>
    takes_readTag.field fun _ => takes_readRef.field fun _ => takes_readTag.field fun _ =>
    takes_pure _).congr fun cap xs rest => ?_
  rw [encodeCapability_ok]
  constructor
  · rintro ⟨_, xs, _, rfl, hid, _, ys, _, rfl, hversion, _, _, rfl, _, _, rfl, _, _, rfl, rfl, rfl⟩
    exact ⟨xs, ys, hid, hversion, by simp⟩
  · rintro ⟨xs, ys, hid, hversion, rfl⟩
    exact ⟨_, xs, _, rfl, hid, _, ys, _, rfl, hversion, _, _, rfl, _, _, rfl, _, [], rfl, rfl, rfl⟩

theorem encodeOptionalCapability_some_ok :
    encodeOptionalCapability (some cap) = .ok xs ↔
      ∃ ys, encodeCapability cap = .ok ys ∧ xs = [1] ++ ys := by
  simp only [encodeOptionalCapability, except_bind_eq_ok, Except.ok.injEq]
  exact exists_congr fun ys => and_congr_right fun _ => eq_comm

theorem one_le_length_of_encodeOptionalCapability
    (hxs : encodeOptionalCapability capability = .ok xs) : 1 ≤ xs.length := by
  cases capability with
  | none =>
    cases hxs
    simp
  | some cap =>
    obtain ⟨ys, -, rfl⟩ := encodeOptionalCapability_some_ok.mp hxs
    simp

theorem takes_optionalCapability :
    Takes (readOption kind (readCapability kind) .nonBooleanHasCap) fun capability xs _ =>
      encodeOptionalCapability capability = .ok xs := by
  refine (takes_readOption takes_readCapability).congr fun capability xs rest => ?_
  cases capability with
  | none => simp [encodeOptionalCapability, eq_comm]
  | some cap => simp [encodeOptionalCapability_some_ok, and_comm]

theorem encodeCall_ok :
    encodeCall call = .ok xs ↔
      ∃ toolId toolVersion, pushLenPrefixedStr call.1 = .ok toolId ∧
        pushLenPrefixedStr call.2 = .ok toolVersion ∧ xs = toolId ++ toolVersion := by
  simp only [encodeCall, except_bind_eq_ok, exists_and_left, Except.ok.injEq, eq_comm (b := xs)]

theorem takes_readCall :
    Takes (readCall kind) fun call xs _ => True ∧ encodeCall call = .ok xs := by
  refine (takes_readLenPrefixedStr.bind fun _ => takes_readLenPrefixedStr.bind fun _ =>
    takes_pure _).congr fun call xs rest => ?_
  rw [encodeCall_ok]
  constructor
  · rintro ⟨_, xs, _, rfl, hid, _, ys, _, rfl, hversion, rfl, rfl⟩
    exact ⟨trivial, xs, ys, hid, hversion, by simp⟩
  · rintro ⟨-, xs, ys, hid, hversion, rfl⟩
    exact ⟨_, xs, ys, rfl, hid, _, ys, [], by simp, hversion, rfl, rfl⟩

/-- What follows the tag of a branch. -/
def ReactBranch.Payload (ys : List UInt8) : ReactBranch → Prop
  | .tool toolId toolVersion => encodeCall (toolId, toolVersion) = .ok ys
  | .rejected reason => pushLenPrefixedStr reason = .ok ys
  | .toolBatch calls => calls.length < 2 ^ 16 ∧
      ∃ bytes, encodeMany encodeCall calls = .ok bytes ∧ ys = leBytes 2 calls.length ++ bytes
  | .answer | .deadLettered | .pending => ys = []

theorem encodeBranch_ok {branch : ReactBranch} :
    encodeBranch branch = .ok xs ↔ ∃ ys, xs = [branch.asU8] ++ ys ∧ branch.Payload ys := by
  cases branch with
  | toolBatch calls =>
    simp only [encodeBranch, ReactBranch.Payload]
    split
    · rename_i hlt
      simp only [except_bind_eq_ok, Except.ok.injEq, hlt, true_and]
      constructor
      · rintro ⟨bytes, hbytes, rfl⟩
        exact ⟨_, rfl, bytes, hbytes, rfl⟩
      · rintro ⟨_, rfl, bytes, hbytes, rfl⟩
        exact ⟨bytes, hbytes, rfl⟩
    · rename_i hge
      simp only [reduceCtorEq, hge, false_and, and_false, exists_false]
  | tool _ _ | rejected _ =>
    simp only [encodeBranch, ReactBranch.Payload, except_bind_eq_ok, Except.ok.injEq,
      eq_comm (b := xs), and_comm]
  | _ => simp [encodeBranch, ReactBranch.Payload, eq_comm (b := xs)]

theorem takes_readBranch :
    Takes (readBranch kind) fun branch xs _ =>
      branch.Readable ∧ encodeBranch branch = .ok xs := by
  refine (Takes.tagged (t := ReactBranch.asU8) (Q := fun branch ys _ =>
    branch.Readable ∧ branch.Payload ys) fun tag => ?_).congr fun branch xs rest => ?_
  · split
    · refine (takes_pure _).congr fun branch ys rest => ?_
      cases branch <;> simp [ReactBranch.asU8, ReactBranch.Readable, ReactBranch.Payload]
    · refine (takes_readCall.map _).congr fun branch ys rest => ?_
      cases branch <;> simp [ReactBranch.asU8, ReactBranch.Readable, ReactBranch.Payload]
    · refine (takes_pure _).congr fun branch ys rest => ?_
      cases branch <;> simp [ReactBranch.asU8, ReactBranch.Readable, ReactBranch.Payload]
    · refine (takes_pure _).congr fun branch ys rest => ?_
      cases branch <;> simp [ReactBranch.asU8, ReactBranch.Readable, ReactBranch.Payload]
    · refine (takes_readLenPrefixedStr.map _).congr fun branch ys rest => ?_
      cases branch <;> simp [ReactBranch.asU8, ReactBranch.Readable, ReactBranch.Payload]
    · simp only [map_eq_pure_bind]
      refine (Takes.counted (by decide) takes_readCall fun calls =>
        takes_pure _).congr fun branch ys rest => ?_
      cases branch with
      | toolBatch calls =>
        simp only [ReactBranch.asU8, ReactBranch.Readable, ReactBranch.Payload, true_and]
        constructor
        · rintro ⟨_, xs, _, rfl, hmax, -, hcalls, hsame, rfl⟩
          cases hsame
          refine ⟨hmax, ?_, xs, hcalls, by simp⟩
          simp only [MAX_TOOL_BATCH_CALLS] at hmax
          omega
        · rintro ⟨hmax, -, xs, hcalls, rfl⟩
          exact ⟨calls, xs, [], by simp, hmax, by simp, hcalls, rfl, rfl⟩
      | _ => simp [ReactBranch.asU8]
    · refine takes_throw.congr fun branch ys rest => ?_
      cases branch <;> simp_all [ReactBranch.asU8, eq_comm]
  · simp only [encodeBranch_ok, ← exists_and_left, and_left_comm]

/-- What follows the tag of an outcome. -/
def ReRankOutcome.Payload (ys : List UInt8) : ReRankOutcome → Prop
  | .reranked permutation => permutation.length ≤ MAX_RERANK_CANDIDATES ∧
      ∃ bytes, encodeMany (fun idx : UInt32 => (.ok (leBytes 4 idx.toNat) :
        Except EncodeError (List UInt8))) permutation = .ok bytes ∧
        ys = leBytes 2 permutation.length ++ bytes
  | .pending | .failedClosed => ys = []

theorem encodeOutcome_ok {outcome : ReRankOutcome} :
    encodeOutcome outcome = .ok xs ↔ ∃ ys, xs = [outcome.asU8] ++ ys ∧ outcome.Payload ys := by
  cases outcome with
  | reranked permutation =>
    simp only [encodeOutcome, ReRankOutcome.Payload]
    split
    · rename_i hgt
      simp [Nat.not_le.mpr hgt]
    · rename_i hle
      simp only [except_bind_eq_ok, Except.ok.injEq, Nat.not_lt.mp hle, true_and]
      constructor
      · rintro ⟨bytes, hbytes, rfl⟩
        exact ⟨_, rfl, bytes, hbytes, rfl⟩
      · rintro ⟨_, rfl, bytes, hbytes, rfl⟩
        exact ⟨bytes, hbytes, rfl⟩
  | _ => simp [encodeOutcome, ReRankOutcome.Payload, eq_comm (b := xs)]

theorem takes_readOutcome :
    Takes (readOutcome kind) fun outcome xs _ => encodeOutcome outcome = .ok xs := by
  refine (Takes.tagged (t := ReRankOutcome.asU8) (Q := fun outcome ys _ => outcome.Payload ys)
    fun tag => ?_).congr fun outcome xs rest => encodeOutcome_ok.symm
  split
  · refine (takes_pure _).congr fun outcome ys rest => ?_
    cases outcome <;> simp [ReRankOutcome.asU8, ReRankOutcome.Payload]
  · have hidx : Takes (readU32 kind) fun idx xs _ =>
        True ∧ (.ok (leBytes 4 idx.toNat) : Except EncodeError (List UInt8)) = .ok xs :=
      (takes_u32 _).congr fun idx xs _ => by simp [eq_comm]
    simp only [map_eq_pure_bind]
    refine (Takes.counted (by decide) hidx fun _ => takes_pure _).congr fun outcome ys rest => ?_
    cases outcome with
    | reranked permutation =>
      simp only [ReRankOutcome.asU8, ReRankOutcome.Payload, true_and]
      constructor
      · rintro ⟨_, xs, _, rfl, hmax, -, hperm, hsame, rfl⟩
        cases hsame
        exact ⟨hmax, xs, hperm, by simp⟩
      · rintro ⟨hmax, xs, hperm, rfl⟩
        exact ⟨permutation, xs, [], by simp, hmax, by simp, hperm, rfl, rfl⟩
    | _ => simp [ReRankOutcome.asU8]
  · refine (takes_pure _).congr fun outcome ys rest => ?_
    cases outcome <;> simp [ReRankOutcome.asU8, ReRankOutcome.Payload]
  · refine takes_throw.congr fun outcome ys rest => ?_
    cases outcome <;> simp_all [ReRankOutcome.asU8, eq_comm]

/-- What follows the tag of an approval's state. -/
def ApprovalState.Payload (ys : List UInt8) : ApprovalState → Prop
  | .requested toolId toolVersion intent deadlineUnixMs createdUnixMs =>
    ∃ xs₁ xs₂ xs₃, pushLenPrefixedStr toolId = .ok xs₁ ∧ pushLenPrefixedStr toolVersion = .ok xs₂ ∧
      pushLenPrefixedStr intent = .ok xs₃ ∧ ys = xs₁ ++ (xs₂ ++ (xs₃ ++
        (leBytes 8 deadlineUnixMs.toNat ++ leBytes 8 createdUnixMs.toNat)))
  | .granted approverId reason decidedUnixMs | .denied approverId reason decidedUnixMs =>
    ∃ bytes, pushLenPrefixedStr reason = .ok bytes ∧
      ys = leBytes 8 approverId.toNat ++ (bytes ++ leBytes 8 decidedUnixMs.toNat)
  | .expired expiredUnixMs => ys = leBytes 8 expiredUnixMs.toNat

theorem encodeApprovalState_ok :
    encodeApprovalState state = .ok xs ↔ ∃ ys, xs = [state.asU8] ++ ys ∧ state.Payload ys := by
  cases state with
  | requested =>
    simp only [encodeApprovalState, ApprovalState.Payload, except_bind_eq_ok, Except.ok.injEq]
    constructor
    · rintro ⟨xs₁, h₁, xs₂, h₂, xs₃, h₃, rfl⟩
      exact ⟨_, rfl, xs₁, xs₂, xs₃, h₁, h₂, h₃, rfl⟩
    · rintro ⟨_, rfl, xs₁, xs₂, xs₃, h₁, h₂, h₃, rfl⟩
      exact ⟨xs₁, h₁, xs₂, h₂, xs₃, h₃, rfl⟩
  | granted | denied =>
    simp only [encodeApprovalState, ApprovalState.Payload, except_bind_eq_ok, Except.ok.injEq]
    constructor
    · rintro ⟨bytes, hreason, rfl⟩
      exact ⟨_, rfl, bytes, hreason, rfl⟩
    · rintro ⟨_, rfl, bytes, hreason, rfl⟩
      exact ⟨bytes, hreason, rfl⟩
  | expired => simp [encodeApprovalState, ApprovalState.Payload, eq_comm (b := xs)]

theorem takes_readDecision :
    Takes (readApprovalState.readDecision kind decision) fun state xs _ =>
      ∃ approverId reason decidedUnixMs, state = decision approverId reason decidedUnixMs ∧
        ∃ bytes, pushLenPrefixedStr reason = .ok bytes ∧
          xs = leBytes 8 approverId.toNat ++ (bytes ++ leBytes 8 decidedUnixMs.toNat) := by
  refine ((takes_u64 _).field fun _ => takes_readLenPrefixedStr.bind fun _ =>
    (takes_u64 _).field fun _ => takes_pure _).congr fun state xs rest => ?_
  constructor
  · rintro ⟨_, _, rfl, _, bytes, _, rfl, hreason, _, _, rfl, rfl, rfl⟩
    exact ⟨_, _, _, rfl, bytes, hreason, by simp⟩
  · rintro ⟨_, _, _, rfl, bytes, hreason, rfl⟩
    exact ⟨_, _, rfl, _, bytes, _, rfl, hreason, _, [], by simp, rfl, rfl⟩

theorem takes_readApprovalState :
    Takes (readApprovalState kind) fun state xs _ => encodeApprovalState state = .ok xs := by
  refine (Takes.tagged (t := ApprovalState.asU8) (Q := fun state ys _ => state.Payload ys)
    fun tag => ?_).congr fun state xs rest => encodeApprovalState_ok.symm
  split
  · refine (takes_readLenPrefixedStr.bind fun _ => takes_readLenPrefixedStr.bind fun _ =>
      takes_readLenPrefixedStr.bind fun _ => (takes_u64 _).field fun _ =>
      (takes_u64 _).field fun _ => takes_pure _).congr fun state ys rest => ?_
    constructor
    · rintro ⟨_, xs₁, _, rfl, h₁, _, xs₂, _, rfl, h₂, _, xs₃, _, rfl, h₃, _, _, rfl, _, _, rfl,
        rfl, rfl⟩
      exact ⟨rfl, xs₁, xs₂, xs₃, h₁, h₂, h₃, by simp⟩
    · rintro ⟨htag, hpayload⟩
      cases state with
      | requested =>
        obtain ⟨xs₁, xs₂, xs₃, h₁, h₂, h₃, rfl⟩ := hpayload
        exact ⟨_, xs₁, _, rfl, h₁, _, xs₂, _, rfl, h₂, _, xs₃, _, rfl, h₃, _, _, rfl, _, [],
          by simp, rfl, rfl⟩
      | _ => cases htag
  · refine takes_readDecision.congr fun state ys rest => ?_
    cases state <;> simp [ApprovalState.asU8, ApprovalState.Payload]
  · refine takes_readDecision.congr fun state ys rest => ?_
    cases state <;> simp [ApprovalState.asU8, ApprovalState.Payload]
  · refine ((takes_u64 _).map _).congr fun state ys rest => ?_
    cases state <;> simp [ApprovalState.asU8, ApprovalState.Payload]
  · refine takes_throw.congr fun state ys rest => ?_
    cases state <;> simp_all [ApprovalState.asU8, eq_comm]

/-- The shapes in which the body of an entry can have been accepted, each with what
encoding the entry again makes of it. -/
inductive Shape (e : JournalEntry) (body : List UInt8) : Prop where
  | current (hencode : HEADER_LEN + body.length ≤ MAX_ENTRY_LEN → encodeBody e = .ok body)
  | failedWithoutDetail (f : Failed) (he : e = .failed f)
      (hlen : body.length = FAILED_PREFIX_LEN)
      (hencode : encodeBody e = .ok (body ++ [0, 0]))
  | olderReactRound (r : ReactRound) (he : e = .reactRound r) (missing : List UInt8)
      (hmissing : missing ≠ []) (hsuffix : missing <:+ encodeReactTail r)
      (hencode : encodeBody e = guardLen .reactRoundTooLarge (body ++ missing))

structure Accepted (d : MoteDefHash) (e : JournalEntry) (body : List UInt8) : Prop where
  readable : e.Readable
  defHash : e.DefHashIs d
  shape : Shape e body

theorem Accepted.of_encodeBody {e : JournalEntry} {body : List UInt8}
    (hread : e.Readable) (hd : e.DefHashIs d)
    (hencode : HEADER_LEN + body.length ≤ MAX_ENTRY_LEN → encodeBody e = .ok body) :
    Accepted d e body :=
  ⟨hread, hd, .current hencode⟩

/-- Whatever `r` returns from a body that fits the cap, it has accepted. -/
def AcceptsBodies (d : MoteDefHash) (r : Reader DecodeError JournalEntry) : Prop :=
  ∀ (before body : List UInt8) (e : JournalEntry) (c : Nat),
    HEADER_LEN + body.length ≤ MAX_ENTRY_LEN →
      r (before ++ body) before.length = .ok (e, c) → Accepted d e body

/-- The reader of one kind of entry reads back what the encoder wrote for an entry of the
kind, and accepts bodies of that kind only. -/
structure Decodes {β : Type} (blake3 : List UInt8 → ByteVec 32) (d : MoteDefHash)
    (kind : β → JournalEntry) (decode : Header → Reader DecodeError JournalEntry) : Prop where
  reads : ∀ e body, (kind e).Readable → (kind e).DefHashIs d → encodeBody (kind e) = .ok body →
    Reads (decode ((kind e).header blake3)) body (kind e) []
  accepts : ∀ h, AcceptsBodies d (decode h)

theorem takes_ndClassFromByte {byte : UInt8} :
    Takes (ndClassFromByte byte) fun nd xs _ => xs = [] ∧ ByteTag.asU8 nd = byte := by
  refine (takes_orReject _).congr fun nd xs rest => and_congr_right fun _ => ?_
  constructor
  · exact ByteTag.asU8_of_fromU8
  · rintro rfl
    exact ByteTag.fromU8_asU8 nd

theorem Decodes.of_takes {β : Type} {kind : β → JournalEntry}
    {decode : Header → Reader DecodeError JournalEntry}
    {P : Header → JournalEntry → List UInt8 → List UInt8 → Prop}
    (htakes : ∀ h, Takes (decode h) (P h))
    (hreads : ∀ e body, (kind e).Readable → (kind e).DefHashIs d → encodeBody (kind e) = .ok body →
      P ((kind e).header blake3) (kind e) body [])
    (haccepts : ∀ h e body rest, HEADER_LEN + body.length ≤ MAX_ENTRY_LEN → P h e body rest →
      rest = [] ∧ Accepted d e body) : Decodes blake3 d kind decode where
  reads e body hread hd hbody := (htakes _).reads (hreads e body hread hd hbody)
  accepts := by
    intro h before _ e c hlen hrun
    obtain ⟨body, rest, rfl, -, hP⟩ := (htakes h).accepts _ _ _ _ hrun
    rw [List.length_append] at hlen
    obtain ⟨rfl, haccepted⟩ := haccepts h e body rest (by omega) hP
    rwa [List.append_nil]

theorem decodes_proposed : Decodes blake3 d .proposed decodeProposed := by
  refine .of_takes (fun h => takes_atLeast.check fun _ => takes_ndClassFromByte.check fun _ =>
    (takes_u128 _).field fun _ => takes_readRef.lastEnd) ?_ ?_
  · rintro e _ - - ⟨⟩
    exact ⟨(), by simp [encodeProposed], e.nondeterminism, rfl, _, _, rfl, _, rfl, rfl, rfl⟩
  · rintro h _ _ _ - ⟨-, -, nd, -, hint, _, rfl, warrantRef, rfl, rfl, hend⟩
    exact ⟨hend, .of_encodeBody trivial trivial fun _ => rfl⟩

theorem length_encodeParents (h : encodeMany encodeParent parents = .ok xs) :
    xs.length = parents.length * ParentEntry.ENCODED_LEN := by
  induction parents generalizing xs with
  | nil =>
    cases h
    rfl
  | cons p parents ih =>
    obtain ⟨ys, zs, hp, hrest, rfl⟩ := encodeMany_cons_ok.mp h
    obtain ⟨-, rfl⟩ := encodeParent_ok.mp hp
    have hlen := ih hrest
    simp only [ParentEntry.ENCODED_LEN] at hlen ⊢
    simp [hlen]
    omega

theorem encodeCommitted_ok {e : Committed} :
    encodeCommitted e = .ok body ↔
      e.parents.length ≤ MAX_PARENTS ∧ ∃ parents, encodeMany encodeParent e.parents = .ok parents ∧
        body = pushRef e.resultRef ++ (pushRef e.warrantRef ++
          (leBytes 2 e.parents.length ++ parents)) := by
  rw [encodeCommitted]
  split
  · simp_all
  rename_i hle
  simp only [except_bind_eq_ok, Except.ok.injEq, gt_iff_lt, not_lt] at hle ⊢
  simp only [hle, true_and, eq_comm]

theorem decodes_committed : Decodes blake3 d .committed fun h => decodeCommitted h d := by
  refine .of_takes (fun h => takes_atLeast.check fun _ => takes_ndClassFromByte.check fun _ =>
    takes_readRef.field fun _ => takes_readRef.field fun _ => (takes_u16 _).field fun n =>
    takes_atLeast.check fun _ => takes_atMost.check fun _ =>
    (takes_many takes_readParent n.toNat).last) ?_ ?_
  · rintro e body hread rfl hbody
    obtain ⟨hmax, parents, hparents, rfl⟩ := encodeCommitted_ok.mp hbody
    have hlt : e.parents.length < 2 ^ 16 := by
      simp only [MAX_PARENTS] at hmax
      omega
    have hcount : (UInt16.ofNat e.parents.length).toNat = e.parents.length :=
      UInt16.toNat_ofNat_of_lt' hlt
    have hlen := length_encodeParents hparents
    refine ⟨(), by simp [COMMITTED_PREFIX_LEN]; omega, e.nondeterminism, rfl, _, _, rfl, _, _, rfl,
      .ofNat e.parents.length, parents, by rw [hcount], ?_⟩
    rw [hcount]
    exact ⟨(), by simp [hlen], (), by simp [hlen], e.parents, ⟨rfl, hread, hparents⟩, rfl⟩
  · rintro h _ _ rest hlen ⟨-, -, nd, -, resultRef, _, rfl, warrantRef, _, rfl, n, xs, rfl, -, -, -,
      hmost, parents, ⟨hcount, hread, hparents⟩, rfl⟩
    have hsize := length_encodeParents hparents
    rw [← hcount] at hmost ⊢
    refine ⟨?_, .of_encodeBody hread rfl fun _ => encodeCommitted_ok.mpr ⟨?_, xs, hparents, rfl⟩⟩
    · simp only [List.length_append, hsize] at hmost
      exact List.length_eq_zero_iff.mp (by omega)
    · simp only [List.length_append, length_pushRef, length_leBytes, hsize,
        HEADER_LEN, MAX_ENTRY_LEN, ParentEntry.ENCODED_LEN] at hlen
      simp only [MAX_PARENTS]
      omega

theorem decodes_repudiated : Decodes blake3 d .repudiated decodeRepudiated := by
  refine .of_takes (fun h => takes_exactly.check fun _ => takes_readMoteId.field fun _ =>
    takes_rejectIf.check fun _ => (takes_u64 _).field fun _ => takes_readTag.field fun _ =>
    (takes_u128 _).last) ?_ ?_
  · rintro e _ - - ⟨⟩
    exact ⟨(), by simp [encodeRepudiated], _, _, rfl, (),
      by simp [JournalEntry.header, JournalEntry.moteId], _, _, rfl, _, _, rfl, _, rfl, rfl⟩
  · rintro h _ _ _ - ⟨-, hexact, target, _, rfl, -, -, seq, _, rfl, reason, _, rfl, id, rfl, rfl⟩
    exact ⟨by simpa +arith using hexact, .of_encodeBody trivial trivial fun _ => rfl⟩

/-- A body without a detail decodes like one with an empty detail. -/
theorem decodes_failed : Decodes blake3 d .failed decodeFailed := by
  refine .of_takes (fun h => takes_atLeast.check fun _ => takes_readTag.field fun _ =>
    (takes_u128 _).field fun _ => (takes_readIfMore takes_readLenPrefixedStr).lastEnd) ?_ ?_
  · rintro e body - - hbody
    simp only [encodeBody, encodeFailed, except_bind_eq_ok, Except.ok.injEq] at hbody
    obtain ⟨detail, hdetail, rfl⟩ := hbody
    have hlen := two_le_length_of_pushLenPrefixedStr hdetail
    have hne : detail ++ [] ≠ [] := by
      rintro hnil
      simp [List.append_eq_nil_iff.1 hnil] at hlen
    exact ⟨(), by simp [FAILED_PREFIX_LEN], _, _, rfl, _, _, rfl, e.detail, .inr ⟨hne, hdetail⟩,
      rfl, rfl⟩
  · rintro h _ _ _ - ⟨-, -, reason, _, rfl, reporter, xs, rfl, detail, hdetail, rfl, hend⟩
    refine ⟨hend, ?_⟩
    rcases hdetail with ⟨rfl, rfl, -⟩ | ⟨-, hdetail⟩
    · refine ⟨trivial, trivial, .failedWithoutDetail _ rfl (by simp [FAILED_PREFIX_LEN]) ?_⟩
      have hempty : pushLenPrefixedStr "" = .ok [0, 0] := rfl
      simp only [encodeBody, encodeFailed, hempty]
      simp [bind, Except.bind]
    · refine .of_encodeBody trivial trivial fun _ => ?_
      simp [encodeBody, encodeFailed, hdetail, bind, Except.bind]

theorem decodes_effectStaged : Decodes blake3 d .effectStaged decodeEffectStaged := by
  refine .of_takes (fun h => takes_expectEnd.last) ?_ ?_
  · rintro e _ - - ⟨⟩
    exact ⟨(), ⟨rfl, rfl⟩, rfl⟩
  · rintro h _ _ _ - ⟨-, ⟨rfl, hend⟩, rfl⟩
    exact ⟨hend, .of_encodeBody trivial trivial fun _ => rfl⟩

theorem decodes_runRegistered :
    Decodes blake3 d .runRegistered (decodeRunRegistered blake3) := by
  refine .of_takes (fun h => takes_exactly.check fun _ => (takes_bytes _ _).field fun _ =>
    takes_rejectIf.check fun _ => (takes_bytes _ _).field fun _ => (takes_u64 _).last) ?_ ?_
  · rintro e _ - - ⟨⟩
    exact ⟨(), by simp [encodeRunRegistered, RUN_REGISTERED_BODY_LEN, INSTANCE_ID_LEN], _, _, rfl,
      (), by simp [JournalEntry.header, JournalEntry.moteId], _, _, rfl, _, rfl, rfl⟩
  · rintro h _ _ _ - ⟨-, hexact, id, _, rfl, -, -, fingerprint, _, rfl, ts, rfl, rfl⟩
    refine ⟨?_, .of_encodeBody trivial trivial fun _ => rfl⟩
    simpa +arith [RUN_REGISTERED_BODY_LEN, INSTANCE_ID_LEN] using hexact

theorem guardLen_ok :
    guardLen tooLarge xs = .ok body ↔ body = xs ∧ HEADER_LEN + body.length ≤ MAX_ENTRY_LEN := by
  rw [guardLen]
  split <;> simp_all [eq_comm]

theorem encodeRunVersionsResolved_ok {e : RunVersionsResolved} :
    encodeRunVersionsResolved e = .ok body ↔
      ∃ modelId capability, pushLenPrefixedStr e.modelId = .ok modelId ∧
        encodeOptionalCapability e.capability = .ok capability ∧
        body = e.instanceId.toList ++ (pushRef e.warrantRef ++ (modelId ++ capability)) ∧
        HEADER_LEN + body.length ≤ MAX_ENTRY_LEN := by
  simp only [encodeRunVersionsResolved, except_bind_eq_ok, guardLen_ok, exists_and_left]

theorem decodes_runVersionsResolved :
    Decodes blake3 d .runVersionsResolved (decodeRunVersionsResolved blake3) := by
  refine .of_takes (fun h => takes_atLeast.check fun _ => (takes_bytes _ _).field fun _ =>
    takes_rejectIf.check fun _ => takes_readRef.field fun _ =>
    takes_readLenPrefixedStr.bind fun _ => takes_optionalCapability.lastEnd) ?_ ?_
  · rintro e body - - hbody
    obtain ⟨modelId, capability, hmodel, hcap, rfl, -⟩ := encodeRunVersionsResolved_ok.mp hbody
    have hmodelLen := two_le_length_of_pushLenPrefixedStr hmodel
    have hcapLen := one_le_length_of_encodeOptionalCapability hcap
    exact ⟨(), by simp [INSTANCE_ID_LEN]; omega, _, _, rfl, (),
      by simp [JournalEntry.header, JournalEntry.moteId], _, _, rfl, _, _, _, rfl, hmodel, _, hcap,
      rfl, rfl⟩
  · rintro h _ _ _ hlen ⟨-, -, id, _, rfl, -, -, warrantRef, _, rfl, modelId, xs, ys, rfl, hmodel,
      capability, hcap, rfl, hend⟩
    refine ⟨hend, .of_encodeBody trivial trivial fun _ => ?_⟩
    exact encodeRunVersionsResolved_ok.mpr ⟨xs, ys, hmodel, hcap, rfl, hlen⟩

theorem decodes_digestSealed : Decodes blake3 d .digestSealed (decodeDigestSealed blake3) := by
  refine .of_takes (fun h => takes_exactly.check fun _ => (takes_u64 _).field fun _ =>
    takes_rejectIf.check fun _ => (takes_bytes _ _).last) ?_ ?_
  · rintro e _ - - ⟨⟩
    exact ⟨(), by simp [encodeDigestSealed, DIGEST_SEALED_BODY_LEN], _, _, rfl, (),
      by simp [JournalEntry.header, JournalEntry.moteId], _, rfl, rfl⟩
  · rintro h _ _ _ - ⟨-, hexact, through, _, rfl, -, -, digest, rfl, rfl⟩
    refine ⟨?_, .of_encodeBody trivial trivial fun _ => rfl⟩
    simpa +arith [DIGEST_SEALED_BODY_LEN] using hexact

theorem encodeReplanRound_ok {e : ReplanRound} :
    encodeReplanRound e = .ok body ↔
      e.failedSteps.length ≤ MAX_REPLAN_FAILED_STEPS ∧
      ∃ modelId failedSteps, pushLenPrefixedStr e.modelId = .ok modelId ∧
        encodeMany (fun id : MoteId => (.ok id.bytes.toList : Except EncodeError (List UInt8)))
          e.failedSteps = .ok failedSteps ∧
        body = leBytes 4 e.round.toNat ++ (pushRef e.basePromptRef ++
          (pushRef e.correctedPromptRef ++ (pushRef e.warrantRef ++ (modelId ++
            (leBytes 2 e.failedSteps.length ++
              (failedSteps ++ pushOption pushRef e.escalationReasonRef)))))) ∧
        HEADER_LEN + body.length ≤ MAX_ENTRY_LEN := by
  rw [encodeReplanRound]
  split
  · rename_i hgt
    simp [Nat.not_le.mpr hgt]
  rename_i hle
  simp only [except_bind_eq_ok, guardLen_ok, exists_and_left, Nat.not_lt.mp hle, true_and]

theorem decodes_replanRound : Decodes blake3 d .replanRound decodeReplanRound := by
  have hids : ∀ kind, Takes (readMoteId kind) fun id xs _ =>
      True ∧ (.ok id.bytes.toList : Except EncodeError (List UInt8)) = .ok xs := fun _ =>
    takes_readMoteId.congr fun id xs _ => by simp [eq_comm]
  refine .of_takes (fun h => takes_atLeast.check fun _ => (takes_u32 _).field fun _ =>
    takes_readRef.field fun _ => takes_readRef.field fun _ => takes_readRef.field fun _ =>
    takes_readLenPrefixedStr.bind fun _ => .counted (by decide) (hids _) fun _ =>
    (takes_pushOption takes_readRef).lastEnd) ?_ ?_
  · rintro e body - - hbody
    obtain ⟨hmax, modelId, steps, hmodel, hsteps, rfl, -⟩ := encodeReplanRound_ok.mp hbody
    have hmodelLen := two_le_length_of_pushLenPrefixedStr hmodel
    exact ⟨(), by simp [REPLAN_ROUND_PREFIX_LEN]; omega, _, _, rfl, _, _, rfl, _, _, rfl, _, _, rfl,
      _, _, _, rfl, hmodel, _, _, _, rfl, hmax, by simp, hsteps, _, rfl, rfl, rfl⟩
  · rintro h _ _ _ hlen ⟨-, -, round, _, rfl, base, _, rfl, corrected, _, rfl, warrantRef, _, rfl,
      modelId, xs, _, rfl, hmodel, steps, ys, _, rfl, hmax, -, hsteps, escalation, rfl, rfl, hend⟩
    refine ⟨hend, .of_encodeBody trivial trivial fun _ => ?_⟩
    exact encodeReplanRound_ok.mpr ⟨hmax, xs, ys, hmodel, hsteps, rfl, hlen⟩

theorem encodeReRankRound_ok {e : ReRankRound} :
    encodeReRankRound e = .ok body ↔
      ∃ modelId outcome, pushLenPrefixedStr e.modelId = .ok modelId ∧
        encodeOutcome e.outcome = .ok outcome ∧
        body = leBytes 4 e.round.toNat ++ (e.instanceId.toList ++ (pushRef e.baseResultsRef ++
          (pushRef e.queryRef ++ (pushRef e.warrantRef ++ (modelId ++
            (leBytes 4 e.candidateCount.toNat ++ outcome)))))) ∧
        HEADER_LEN + body.length ≤ MAX_ENTRY_LEN := by
  simp only [encodeReRankRound, except_bind_eq_ok, guardLen_ok, exists_and_left]

theorem decodes_reRankRound : Decodes blake3 d .reRankRound decodeReRankRound := by
  refine .of_takes (fun h => takes_atLeast.check fun _ => (takes_u32 _).field fun _ =>
    (takes_bytes _ _).field fun _ => takes_readRef.field fun _ => takes_readRef.field fun _ =>
    takes_readRef.field fun _ => takes_readLenPrefixedStr.bind fun _ => (takes_u32 _).field fun _ =>
    takes_readOutcome.lastEnd) ?_ ?_
  · rintro e body - - hbody
    obtain ⟨modelId, outcome, hmodel, houtcome, rfl, -⟩ := encodeReRankRound_ok.mp hbody
    have hmodelLen := two_le_length_of_pushLenPrefixedStr hmodel
    exact ⟨(), by simp [RERANK_ROUND_PREFIX_LEN, INSTANCE_ID_LEN]; omega, _, _, rfl, _, _, rfl, _,
      _, rfl, _, _, rfl, _, _, rfl, _, _, _, rfl, hmodel, _, _, rfl, _, houtcome, rfl, rfl⟩
  · rintro h _ _ _ hlen ⟨-, -, round, _, rfl, id, _, rfl, base, _, rfl, query, _, rfl, warrantRef,
      _, rfl, modelId, xs, _, rfl, hmodel, count, ys, rfl, outcome, houtcome, rfl, hend⟩
    refine ⟨hend, .of_encodeBody trivial trivial fun _ => ?_⟩
    exact encodeReRankRound_ok.mpr ⟨xs, ys, hmodel, houtcome, rfl, hlen⟩

theorem encodeApproval_ok {e : Approval} :
    encodeApproval e = .ok body ↔
      ∃ state, encodeApprovalState e.state = .ok state ∧
        body = e.instanceId.toList ++ (e.requestId.toList ++ state) ∧
        HEADER_LEN + body.length ≤ MAX_ENTRY_LEN := by
  simp only [encodeApproval, except_bind_eq_ok, guardLen_ok]

theorem decodes_approval : Decodes blake3 d .approval decodeApproval := by
  refine .of_takes (fun h => takes_atLeast.check fun _ => (takes_bytes _ _).field fun _ =>
    (takes_bytes _ _).field fun _ => takes_readApprovalState.lastEnd) ?_ ?_
  · rintro e body - - hbody
    obtain ⟨state, hstate, rfl, -⟩ := encodeApproval_ok.mp hbody
    obtain ⟨ys, rfl, -⟩ := encodeApprovalState_ok.mp hstate
    exact ⟨(), by simp [INSTANCE_ID_LEN, APPROVAL_REQUEST_ID_LEN]; omega, _, _, rfl, _, _, rfl, _,
      hstate, rfl, rfl⟩
  · rintro h _ _ _ hlen ⟨-, -, id, _, rfl, requestId, xs, rfl, state, hstate, rfl, hend⟩
    refine ⟨hend, .of_encodeBody trivial trivial fun _ => ?_⟩
    exact encodeApproval_ok.mpr ⟨xs, hstate, rfl, hlen⟩

def ReactRound.tail (e : ReactRound) : ReactTail where
  stepSalt := e.stepSalt
  isAgenticLaunch := e.isAgenticLaunch
  contextItemsRef := e.contextItemsRef
  imageRef := e.imageRef
  requireApproval := e.requireApproval

theorem pushOption_ne_nil {α : Type} {enc : α → List UInt8} {o : Option α} :
    pushOption enc o ≠ [] := by
  cases o <;> simp [pushOption]

/-- A trailing field with the value `a` is stored as `xs`, before the bytes `later`: as its
own bytes, or not at all where the body ends. -/
def Trailing {α : Type} (a default : α) (bytes xs later : List UInt8) : Prop :=
  (a = default ∧ xs = [] ∧ later = []) ∨ xs ++ later ≠ [] ∧ xs = bytes

/-- The trailing bytes that are read as `t`. -/
def ReactTail.StoredAs (t : ReactTail) (xs : List UInt8) : Prop :=
  ∃ x₁ x₂ x₃ x₄, xs = pushOption ByteVec.toList t.stepSalt ++ (x₁ ++ (x₂ ++ (x₃ ++ x₄))) ∧
    Trailing t.isAgenticLaunch t.stepSalt.isSome [boolU8 t.isAgenticLaunch] x₁ (x₂ ++ (x₃ ++ x₄)) ∧
    Trailing t.contextItemsRef none (pushOption pushRef t.contextItemsRef) x₂ (x₃ ++ x₄) ∧
    Trailing t.imageRef none (pushOption pushRef t.imageRef) x₃ x₄ ∧
    Trailing t.requireApproval false [boolU8 t.requireApproval] x₄ []

theorem takes_readReactTail :
    Takes (readReactTail kind) fun t xs rest => rest = [] ∧ t.StoredAs xs := by
  refine ((takes_pushOption (takes_bytes _ 32)).field fun _ =>
    (takes_readIfMore takes_readBool).bind fun _ =>
    (takes_readIfMore (takes_pushOption takes_readRef)).bind fun _ =>
    (takes_readIfMore (takes_pushOption takes_readRef)).bind fun _ =>
    (takes_readIfMore takes_readBool).lastEnd).congr fun t xs rest => ?_
  constructor
  · rintro ⟨_, _, rfl, _, x₁, _, rfl, h₁, _, x₂, _, rfl, h₂, _, x₃, x₄, rfl, h₃, _, h₄, rfl, rfl⟩
    simp only [List.append_nil] at h₁ h₂ h₃
    exact ⟨rfl, x₁, x₂, x₃, x₄, rfl, h₁, h₂, h₃, h₄⟩
  · rintro ⟨rfl, x₁, x₂, x₃, x₄, rfl, h₁, h₂, h₃, h₄⟩
    rw [← List.append_nil (_ ++ _)] at h₁ h₂
    rw [← List.append_nil x₄] at h₃
    exact ⟨_, _, rfl, _, x₁, _, rfl, h₁, _, x₂, _, rfl, h₂, _, x₃, x₄, rfl, h₃, _, h₄, rfl, rfl⟩

theorem storedAs_encodeReactTail (e : ReactRound) : e.tail.StoredAs (encodeReactTail e) :=
  ⟨_, _, _, _, rfl, .inr ⟨by simp, rfl⟩, .inr ⟨by simp [pushOption_ne_nil], rfl⟩,
    .inr ⟨by simp [pushOption_ne_nil], rfl⟩, .inr ⟨by simp, rfl⟩⟩

def encodeReactFront (e : ReactRound) (modelId branch tail : List UInt8) : List UInt8 :=
  leBytes 4 e.turn.toNat ++ (e.instanceId.toList ++ (pushRef e.basePromptRef ++
    (pushRef e.warrantRef ++ (modelId ++ (branch ++ (leBytes 4 e.maxTurns.toNat ++
      (leBytes 4 e.maxToolCalls.toNat ++ tail)))))))

theorem encodeReactFront_append (e : ReactRound) (modelId branch tail more : List UInt8) :
    encodeReactFront e modelId branch (tail ++ more) =
      encodeReactFront e modelId branch tail ++ more := by
  simp [encodeReactFront]

theorem encodeReactRound_eq_guardLen {e : ReactRound}
    (hmodel : pushLenPrefixedStr e.modelId = .ok modelId)
    (hbranch : encodeBranch e.branch = .ok branch) :
    encodeReactRound e =
      guardLen .reactRoundTooLarge (encodeReactFront e modelId branch (encodeReactTail e)) := by
  simp only [encodeReactRound, hmodel, hbranch]
  rfl

theorem encodeReactRound_ok {e : ReactRound} :
    encodeReactRound e = .ok body ↔
      ∃ modelId branch, pushLenPrefixedStr e.modelId = .ok modelId ∧
        encodeBranch e.branch = .ok branch ∧
        body = encodeReactFront e modelId branch (encodeReactTail e) ∧
        HEADER_LEN + body.length ≤ MAX_ENTRY_LEN := by
  simp only [encodeReactRound, encodeReactFront, except_bind_eq_ok, guardLen_ok, exists_and_left]

theorem takes_decodeReactRound {h : Header} :
    Takes (decodeReactRound h) fun e xs rest => rest = [] ∧ ∃ r modelId branch tail,
      e = .reactRound r ∧ r.turnMoteId = h.moteId ∧ r.seq = h.seq ∧ r.branch.Readable ∧
        pushLenPrefixedStr r.modelId = .ok modelId ∧ encodeBranch r.branch = .ok branch ∧
        r.tail.StoredAs tail ∧ xs = encodeReactFront r modelId branch tail := by
  refine (takes_atLeast.check fun _ => (takes_u32 _).field fun _ => (takes_bytes _ _).field fun _ =>
    takes_readRef.field fun _ => takes_readRef.field fun _ => takes_readLenPrefixedStr.bind fun _ =>
    takes_readBranch.bind fun _ => (takes_u32 _).field fun _ => (takes_u32 _).field fun _ =>
    takes_readReactTail.last).congr fun e xs rest => ?_
  constructor
  · rintro ⟨-, -, turn, _, rfl, id, _, rfl, base, _, rfl, warrantRef, _, rfl, modelId, xs, _, rfl,
      hmodel, branch, ys, _, rfl, ⟨hread, hbranch⟩, turns, _, rfl, calls, tail, rfl, t,
      ⟨hend, htail⟩, rfl⟩
    exact ⟨hend, _, xs, ys, tail, rfl, rfl, rfl, hread, hmodel, hbranch, htail, rfl⟩
  · rintro ⟨rfl, r, modelId, branch, tail, rfl, hid, hseq, hread, hmodel, hbranch, htail, rfl⟩
    have hmodelLen := two_le_length_of_pushLenPrefixedStr hmodel
    refine ⟨(), ?_, _, _, rfl, _, _, rfl, _, _, rfl, _, _, rfl, _, _, _, rfl, hmodel, _, _, _, rfl,
      ⟨hread, hbranch⟩, _, _, rfl, _, _, rfl, r.tail, ⟨rfl, htail⟩, by rw [← hid, ← hseq]; rfl⟩
    simp [encodeReactFront, REACT_ROUND_PREFIX_LEN, INSTANCE_ID_LEN]
    omega

/-- The decoder reads a react round back from any trailing bytes that it takes for
the round's trailing fields, whoever wrote them. -/
theorem reads_decodeReactRound_of_tail {e : ReactRound}
    (hread : e.branch.Readable) (hmodel : pushLenPrefixedStr e.modelId = .ok modelId)
    (hbranch : encodeBranch e.branch = .ok branch) (htail : e.tail.StoredAs tail) :
    Reads (decodeReactRound (JournalEntry.header blake3 (.reactRound e)))
      (encodeReactFront e modelId branch tail) (.reactRound e) [] :=
  takes_decodeReactRound.reads
    ⟨rfl, e, _, _, _, rfl, rfl, rfl, hread, hmodel, hbranch, htail, rfl⟩

/-- The trailing fields as the encoder writes them. -/
def encodeTail (t : ReactTail) : List UInt8 :=
  pushOption ByteVec.toList t.stepSalt ++ ([boolU8 t.isAgenticLaunch] ++
    (pushOption pushRef t.contextItemsRef ++ (pushOption pushRef t.imageRef ++
      [boolU8 t.requireApproval])))

/-- The accepted trailing bytes are the current ones up to a suffix: once a field is
absent, so is every later one. -/
theorem ReactTail.StoredAs.exists_missing {t : ReactTail} (ht : t.StoredAs body) :
    ∃ missing, encodeTail t = body ++ missing := by
  obtain ⟨x₁, x₂, x₃, x₄, rfl, h₁, h₂, h₃, h₄⟩ := ht
  simp only [encodeTail, List.append_assoc, List.append_cancel_left_eq]
  rcases h₁ with ⟨-, rfl, hend⟩ | ⟨-, rfl⟩
  · obtain ⟨rfl, rfl, rfl⟩ : x₂ = [] ∧ x₃ = [] ∧ x₄ = [] := by simpa using hend
    exact ⟨_, rfl⟩
  rcases h₂ with ⟨-, rfl, hend⟩ | ⟨-, rfl⟩
  · obtain ⟨rfl, rfl⟩ : x₃ = [] ∧ x₄ = [] := by simpa using hend
    exact ⟨_, rfl⟩
  rcases h₃ with ⟨-, rfl, rfl⟩ | ⟨-, rfl⟩
  · exact ⟨_, rfl⟩
  rcases h₄ with ⟨-, rfl, -⟩ | ⟨-, rfl⟩
  · exact ⟨_, rfl⟩
  · exact ⟨[], rfl⟩

/-- A react round accepted without the bytes `missing` is written back with them. -/
theorem reactRound_shape {r : ReactRound} {modelId branch tail missing : List UInt8}
    (hmodel : pushLenPrefixedStr r.modelId = .ok modelId)
    (hbranch : encodeBranch r.branch = .ok branch) (htail : encodeReactTail r = tail ++ missing) :
    Shape (.reactRound r) (encodeReactFront r modelId branch tail) := by
  have hencode := encodeReactRound_eq_guardLen hmodel hbranch
  rw [htail, encodeReactFront_append] at hencode
  by_cases hnil : missing = []
  · subst hnil
    refine .current fun hlen => ?_
    rw [encodeBody, hencode, List.append_nil]
    exact guardLen_ok.mpr ⟨rfl, hlen⟩
  · exact .olderReactRound r rfl missing hnil ⟨tail, htail.symm⟩ hencode

theorem decodes_reactRound : Decodes blake3 d .reactRound decodeReactRound := by
  refine .of_takes (fun _ => takes_decodeReactRound) ?_ ?_
  · rintro e body hread - hbody
    obtain ⟨modelId, branch, hmodel, hbranch, rfl, -⟩ := encodeReactRound_ok.mp hbody
    exact ⟨rfl, e, _, _, _, rfl, rfl, rfl, hread, hmodel, hbranch, storedAs_encodeReactTail e, rfl⟩
  · rintro h _ _ _ - ⟨hend, r, modelId, branch, tail, rfl, -, -, hread, hmodel, hbranch, htail, rfl⟩
    obtain ⟨missing, hmissing⟩ := htail.exists_missing
    exact ⟨hend, hread, trivial, reactRound_shape hmodel hbranch hmissing⟩

theorem decodes_timerArmed : Decodes blake3 d .timerArmed decodeTimerArmed := by
  refine .of_takes (fun h => takes_exactly.check fun _ => (takes_bytes _ _).field fun _ =>
    (takes_u8 _).field fun _ => takes_rejectIf.check fun _ => (takes_u32 _).field fun _ =>
    (takes_u64 _).field fun _ => takes_readRef.last) ?_ ?_
  · rintro e _ hread - ⟨⟩
    exact ⟨(), by simp [encodeTimerArmed, TIMER_ARMED_BODY_LEN, INSTANCE_ID_LEN], _, _, rfl, _, _,
      rfl, (), UInt8.not_lt.mpr hread, _, _, rfl, _, _, rfl, _, rfl, rfl⟩
  · rintro h _ _ _ - ⟨-, hexact, id, _, rfl, purpose, _, rfl, -, hpurpose, attempt, _, rfl, at_, _,
      rfl, anchor, rfl, rfl⟩
    refine ⟨?_, .of_encodeBody (UInt8.not_lt.mp hpurpose) trivial fun _ => rfl⟩
    simpa +arith [TIMER_ARMED_BODY_LEN, INSTANCE_ID_LEN] using hexact

theorem reads_decodeBody (hread : e.Readable) (hd : e.DefHashIs d)
    (hbody : encodeBody e = .ok body) :
    Reads (decodeBody blake3 (e.header blake3) d) body e [] := by
  cases e with
  | proposed e => exact decodes_proposed.reads e body hread hd hbody
  | committed e => exact decodes_committed.reads e body hread hd hbody
  | repudiated e => exact decodes_repudiated.reads e body hread hd hbody
  | failed e => exact decodes_failed.reads e body hread hd hbody
  | effectStaged e => exact decodes_effectStaged.reads e body hread hd hbody
  | runRegistered e => exact decodes_runRegistered.reads e body hread hd hbody
  | runVersionsResolved e => exact decodes_runVersionsResolved.reads e body hread hd hbody
  | digestSealed e => exact decodes_digestSealed.reads e body hread hd hbody
  | replanRound e => exact decodes_replanRound.reads e body hread hd hbody
  | reactRound e => exact decodes_reactRound.reads e body hread hd hbody
  | approval e => exact decodes_approval.reads e body hread hd hbody
  | reRankRound e => exact decodes_reRankRound.reads e body hread hd hbody
  | timerArmed e => exact decodes_timerArmed.reads e body hread hd hbody

theorem decodeBody_accepted (blake3 : List UInt8 → ByteVec 32) (h : Header) (d : MoteDefHash) :
    AcceptsBodies d (decodeBody blake3 h d) := by
  have accepted {β : Type} {make : β → JournalEntry}
      {decode : Header → Reader DecodeError JournalEntry}
      (hdecodes : Decodes blake3 d make decode) : AcceptsBodies d (decode h) := hdecodes.accepts h
  rw [decodeBody]
  split
  · exact accepted decodes_proposed
  · exact accepted decodes_committed
  · exact accepted decodes_repudiated
  · exact accepted decodes_failed
  · exact accepted decodes_effectStaged
  · exact accepted decodes_runRegistered
  · exact accepted decodes_runVersionsResolved
  · exact accepted decodes_digestSealed
  · exact accepted decodes_replanRound
  · exact accepted decodes_reactRound
  · exact accepted decodes_approval
  · exact accepted decodes_reRankRound
  · exact accepted decodes_timerArmed
  intro before body e c _ hrun
  cases hrun

theorem encodeEntry_ok :
    encodeEntry blake3 e = .ok b ↔
      ∃ body, encodeBody e = .ok body ∧ b = encodeHeader blake3 e ++ body := by
  simp only [encodeEntry, except_bind_eq_ok, Except.ok.injEq]
  exact exists_congr fun body => and_congr_right fun _ => eq_comm

theorem readHeader_encodeHeader (e : JournalEntry) (body : List UInt8) :
    readHeader (encodeHeader blake3 e ++ body) 0 = .ok (e.header blake3, HEADER_LEN) := by
  have hreads : Reads readHeader (encodeHeader blake3 e) (e.header blake3) body :=
    reads_readHeader e
  simpa using hreads []

/-- Behind the header an entry writes for itself, any body its own reader takes for
the entry decodes to it. -/
theorem decodeEntry_of_reads (hbody : Reads (decodeBody blake3 (e.header blake3) d) body e [])
    (hlen : HEADER_LEN + body.length ≤ MAX_ENTRY_LEN) :
    decodeEntryWithDefHash blake3 (encodeHeader blake3 e ++ body) d = .ok e := by
  have hmax : ¬ (encodeHeader blake3 e ++ body).length > MAX_ENTRY_LEN := by
    simp only [List.length_append, length_encodeHeader]
    omega
  have hmin : ¬ (encodeHeader blake3 e ++ body).length < HEADER_LEN := by simp
  have hdrop : (encodeHeader blake3 e ++ body).drop HEADER_LEN = body := by
    have hlen : (encodeHeader blake3 e).length = HEADER_LEN := length_encodeHeader e
    rw [← hlen, List.drop_left]
  rw [decodeEntryWithDefHash, if_neg hmax, if_neg hmin, readHeader_encodeHeader]
  simp only [bind, Except.bind, hdrop, hbody.run]

/-- A readable entry that encodes within the cap is decoded to itself. -/
theorem decodeEntry_encodeEntry (hread : e.Readable) (hd : e.DefHashIs d)
    (hb : encodeEntry blake3 e = .ok b) (hlen : b.length ≤ MAX_ENTRY_LEN) :
    decodeEntryWithDefHash blake3 b d = .ok e := by
  obtain ⟨body, hbody, rfl⟩ := encodeEntry_ok.mp hb
  refine decodeEntry_of_reads (reads_decodeBody hread hd hbody) ?_
  simpa using hlen

/-- The `seq` of a decoded entry is the one in its header, whatever the body. -/
theorem yields_decodeBody_seq :
    Yields (decodeBody blake3 h d) fun e => e.seq = h.seq := by
  unfold decodeBody
  split
  case h_14 => exact yields_throw
  all_goals
    repeat' refine yields_bind fun _ => ?_
    exact yields_pure rfl

/-- Bytes an entry was encoded to can only decode to an entry with its `seq`. -/
theorem seq_of_decodeEntry_encodeEntry (hb : encodeEntry blake3 e = .ok b)
    (hdec : decodeEntryWithDefHash blake3 b d = .ok x) : x.seq = e.seq := by
  obtain ⟨body, _, rfl⟩ := encodeEntry_ok.mp hb
  unfold decodeEntryWithDefHash at hdec
  split at hdec
  · cases hdec
  split at hdec
  · cases hdec
  rw [readHeader_encodeHeader] at hdec
  obtain ⟨h, hheader, hdec⟩ := except_bind_eq_ok.mp hdec
  obtain ⟨p, hrun, hx⟩ := except_bind_eq_ok.mp hdec
  cases hheader
  cases hx
  exact yields_decodeBody_seq _ _ _ _ hrun

end Kortecx.Journal
