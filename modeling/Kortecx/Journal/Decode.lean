import Kortecx.Lib.Reader
import Kortecx.Journal.Entry

/-! The reading half of the wire format. Each body is read with a cursor from its
first byte; where the source indexes a slice after a length fence, the model makes
the same bounded read, whose failure the fence rules out. -/

namespace Kortecx.Journal

open Lib Lib.Reader Mote

inductive DecodeError where
  | headerTooShort (got : Nat)
  | bodyTooShort (kind : UInt8) (got expected : Nat)
  | tooLarge (got : Nat)
  | unknownKind (kind : UInt8)
  | unknownNdClass (byte : UInt8)
  | unknownReason (byte : UInt8)
  | unknownEdgeKind (byte : UInt8)
  | dataEdgeNonCascade
  | nonBooleanNonCascade (byte : UInt8)
  | repudiatedHeaderMismatch
  | runRegisteredHeaderMismatch
  | runVersionsHeaderMismatch
  | digestSealedHeaderMismatch
  | unknownResolvedKind (tag : UInt8)
  | unknownIdempotencyClass (tag : UInt8)
  | nonBooleanHasCap (byte : UInt8)
  | runVersionsInvalidUtf8
  | replanRoundTooManyFailedSteps (got : Nat)
  | nonBooleanHasEscalation (byte : UInt8)
  | unknownReactBranch (tag : UInt8)
  | reactRoundTooManyBatchCalls (got : Nat)
  | unknownReRankOutcome (tag : UInt8)
  | reRankRoundTooManyCandidates (got : Nat)
  | unknownReactAgenticLaunchTag (tag : UInt8)
  | unknownReactContextItemsTag (tag : UInt8)
  | unknownReactImageRefTag (tag : UInt8)
  | unknownReactStepSaltTag (tag : UInt8)
  | unknownReactRequireApprovalTag (tag : UInt8)
  | unknownApprovalStateTag (tag : UInt8)
  | trailingBytes (count : Nat)
deriving DecidableEq, Repr

section Primitives

variable (kind : UInt8)

def readArray (n : Nat) : Reader DecodeError (ByteVec n) :=
  bytes (.bodyTooShort kind) n

def readArray32 : Reader DecodeError (ByteVec 32) :=
  readArray kind 32

def readU8 : Reader DecodeError UInt8 :=
  u8 (.bodyTooShort kind)

def readU16 : Reader DecodeError UInt16 :=
  u16 (.bodyTooShort kind)

def readU32 : Reader DecodeError UInt32 :=
  u32 (.bodyTooShort kind)

def readU64 : Reader DecodeError UInt64 :=
  u64 (.bodyTooShort kind)

def readU128 : Reader DecodeError (BitVec 128) :=
  u128 (.bodyTooShort kind)

def readRef : Reader DecodeError ContentRef :=
  ContentRef.mk <$> readArray32 kind

def readMoteId : Reader DecodeError MoteId :=
  MoteId.mk <$> readArray32 kind

def readLenPrefixedStr : Reader DecodeError String := do
  let len ← readU16 kind
  let raw ← readArray kind len.toNat
  orReject (decodeUtf8 raw.toList) .runVersionsInvalidUtf8

/-- A tag byte of an enumeration; `unknown` reports a byte outside it. -/
def readTag {α : Type} [ByteTag α] (unknown : UInt8 → DecodeError) : Reader DecodeError α := do
  let tag ← readU8 kind
  orReject (ByteTag.fromU8 tag) (unknown tag)

/-- A presence byte and, after a 1, the value. -/
def readOption {α : Type} (read : Reader DecodeError α) (other : UInt8 → DecodeError) :
    Reader DecodeError (Option α) := do
  match ← readU8 kind with
  | 0 => pure none
  | 1 => some <$> read
  | tag => throw (other tag)

def readBool (other : UInt8 → DecodeError) : Reader DecodeError Bool := do
  match ← readU8 kind with
  | 0 => pure false
  | 1 => pure true
  | tag => throw (other tag)

/-- A trailing field that older writers did not have: absent when the body ends here. -/
def readIfMore {α : Type} (read : Reader DecodeError α) (default : α) :
    Reader DecodeError α := do
  if ← hasMore then read else pure default

def fence (n : Nat) : Reader DecodeError Unit :=
  atLeast (.bodyTooShort kind) n

/-- The fence of a fixed-length body, which reports a longer one the same way. -/
def fenceExact (n : Nat) : Reader DecodeError Unit :=
  exactly (.bodyTooShort kind) n

end Primitives

structure Header where
  kind : UInt8
  moteId : MoteId
  idempotencyKey : IdempotencyKey
  seq : UInt64
  ndByte : UInt8
deriving DecidableEq, Repr

/-- The header of an entry of at least `HEADER_LEN` bytes. -/
def readHeader : Reader DecodeError Header := do
  let kind ← u8 fun got _ => .headerTooShort got
  let moteId ← MoteId.mk <$> bytes (fun got _ => .headerTooShort got) 32
  let idempotencyKey ← bytes (fun got _ => .headerTooShort got) 32
  let seq ← u64 fun got _ => .headerTooShort got
  let ndByte ← u8 fun got _ => .headerTooShort got
  pure ⟨kind, moteId, idempotencyKey, seq, ndByte⟩

def ndClassFromByte (b : UInt8) : Reader DecodeError NdClass :=
  orReject (ByteTag.fromU8 b) (.unknownNdClass b)

section Bodies

variable (blake3 : List UInt8 → ByteVec 32) (h : Header)

def decodeProposed : Reader DecodeError JournalEntry := do
  fence h.kind 48
  let nondeterminism ← ndClassFromByte h.ndByte
  let placementHint ← readU128 h.kind
  let warrantRef ← readRef h.kind
  expectEnd .trailingBytes
  pure (.proposed ⟨h.moteId, h.idempotencyKey, h.seq, nondeterminism, placementHint, warrantRef⟩)

def COMMITTED_PREFIX_LEN : Nat := 66

/-- One stored parent. Unlike the encoder, the decoder interprets both edge bytes. -/
def readParent (kind : UInt8) : Reader DecodeError ParentEntry := do
  let parentId ← readMoteId kind
  let edgeKind ← readU8 kind
  let nonCascade ← readU8 kind
  rejectIf (edgeKind > 1) (.unknownEdgeKind edgeKind)
  rejectIf (edgeKind = 0 ∧ nonCascade ≠ 0) .dataEdgeNonCascade
  rejectIf (nonCascade > 1) (.nonBooleanNonCascade nonCascade)
  pure ⟨parentId, edgeKind, nonCascade⟩

def decodeCommitted (moteDefHash : MoteDefHash) : Reader DecodeError JournalEntry := do
  fence h.kind COMMITTED_PREFIX_LEN
  let nondeterminism ← ndClassFromByte h.ndByte
  let resultRef ← readRef h.kind
  let warrantRef ← readRef h.kind
  let n ← readU16 h.kind
  -- The cursor stands at `COMMITTED_PREFIX_LEN`, so these fences are absolute ones.
  fence h.kind (n.toNat * ParentEntry.ENCODED_LEN)
  atMost .trailingBytes (n.toNat * ParentEntry.ENCODED_LEN)
  let parents ← many (readParent h.kind) n.toNat
  pure (.committed ⟨h.moteId, h.idempotencyKey, h.seq, nondeterminism, resultRef, parents,
    warrantRef, moteDefHash⟩)

def decodeRepudiated : Reader DecodeError JournalEntry := do
  fenceExact h.kind 57
  let targetMoteId ← readMoteId h.kind
  rejectIf (targetMoteId ≠ h.moteId) .repudiatedHeaderMismatch
  let targetCommittedSeq ← readU64 h.kind
  let reasonClass ← readTag h.kind .unknownReason
  let repudiatorId ← readU128 h.kind
  pure (.repudiated ⟨targetMoteId, h.idempotencyKey, h.seq, targetCommittedSeq, reasonClass,
    repudiatorId⟩)

def FAILED_PREFIX_LEN : Nat := 17

/-- A body that ends after the prefix was written before failures had a detail. -/
def decodeFailed : Reader DecodeError JournalEntry := do
  fence h.kind FAILED_PREFIX_LEN
  let reasonClass ← readTag h.kind .unknownReason
  let reporterId ← readU128 h.kind
  let detail ← readIfMore (readLenPrefixedStr h.kind) ""
  expectEnd .trailingBytes
  pure (.failed ⟨h.moteId, h.idempotencyKey, h.seq, reasonClass, reporterId, detail⟩)

def decodeEffectStaged : Reader DecodeError JournalEntry := do
  expectEnd .trailingBytes
  pure (.effectStaged ⟨h.moteId, h.idempotencyKey, h.seq⟩)

def decodeRunRegistered : Reader DecodeError JournalEntry := do
  fenceExact h.kind RUN_REGISTERED_BODY_LEN
  let instanceId ← readArray h.kind INSTANCE_ID_LEN
  rejectIf (h.moteId ≠ runRootId blake3 instanceId) .runRegisteredHeaderMismatch
  let recipeFingerprint ← readArray32 h.kind
  let ts ← readU64 h.kind
  pure (.runRegistered ⟨instanceId, recipeFingerprint, ts, h.seq⟩)

def readCapability (kind : UInt8) : Reader DecodeError ResolvedCapabilityRecord := do
  let toolId ← readLenPrefixedStr kind
  let toolVersion ← readLenPrefixedStr kind
  let resolvedKind ← readTag kind .unknownResolvedKind
  let resolvedDefHash ← readRef kind
  let idempotencyClass ← readTag kind .unknownIdempotencyClass
  pure ⟨toolId, toolVersion, resolvedKind, resolvedDefHash, idempotencyClass⟩

def decodeRunVersionsResolved : Reader DecodeError JournalEntry := do
  fence h.kind (INSTANCE_ID_LEN + 32 + 2 + 1)
  let instanceId ← readArray h.kind INSTANCE_ID_LEN
  rejectIf (h.moteId ≠ runRootId blake3 instanceId) .runVersionsHeaderMismatch
  let warrantRef ← readRef h.kind
  let modelId ← readLenPrefixedStr h.kind
  let capability ← readOption h.kind (readCapability h.kind) .nonBooleanHasCap
  expectEnd .trailingBytes
  pure (.runVersionsResolved ⟨instanceId, warrantRef, modelId, capability, h.seq⟩)

def decodeDigestSealed : Reader DecodeError JournalEntry := do
  fenceExact h.kind DIGEST_SEALED_BODY_LEN
  let throughSeq ← readU64 h.kind
  rejectIf (h.moteId ≠ sealRootId blake3 throughSeq) .digestSealedHeaderMismatch
  let stateDigest ← readArray32 h.kind
  pure (.digestSealed ⟨throughSeq, stateDigest, h.seq⟩)

def decodeReplanRound : Reader DecodeError JournalEntry := do
  fence h.kind REPLAN_ROUND_PREFIX_LEN
  let round ← readU32 h.kind
  let basePromptRef ← readRef h.kind
  let correctedPromptRef ← readRef h.kind
  let warrantRef ← readRef h.kind
  let modelId ← readLenPrefixedStr h.kind
  let failedCount ← readU16 h.kind
  rejectIf (failedCount.toNat > MAX_REPLAN_FAILED_STEPS)
    (.replanRoundTooManyFailedSteps failedCount.toNat)
  let failedSteps ← many (readMoteId h.kind) failedCount.toNat
  let escalationReasonRef ← readOption h.kind (readRef h.kind) .nonBooleanHasEscalation
  expectEnd .trailingBytes
  pure (.replanRound ⟨round, h.moteId, basePromptRef, correctedPromptRef, warrantRef, modelId,
    failedSteps, escalationReasonRef, h.seq⟩)

def readCall (kind : UInt8) : Reader DecodeError (String × String) := do
  let toolId ← readLenPrefixedStr kind
  let toolVersion ← readLenPrefixedStr kind
  pure (toolId, toolVersion)

def readBranch (kind : UInt8) : Reader DecodeError ReactBranch := do
  match ← readU8 kind with
  | 0 => pure .answer
  | 1 => (fun call => .tool call.1 call.2) <$> readCall kind
  | 2 => pure .deadLettered
  | 3 => pure .pending
  | 4 => .rejected <$> readLenPrefixedStr kind
  | 5 => do
    let count ← readU16 kind
    rejectIf (count.toNat > MAX_TOOL_BATCH_CALLS) (.reactRoundTooManyBatchCalls count.toNat)
    .toolBatch <$> many (readCall kind) count.toNat
  | other => throw (.unknownReactBranch other)

/-- The fields later versions appended. Only the step salt must be there; each of
the others falls back to its default when the body has already ended. -/
structure ReactTail where
  stepSalt : Option (ByteVec 32)
  isAgenticLaunch : Bool
  contextItemsRef : Option ContentRef
  imageRef : Option ContentRef
  requireApproval : Bool
deriving DecidableEq, Repr

def readReactTail (kind : UInt8) : Reader DecodeError ReactTail := do
  let stepSalt ← readOption kind (readArray32 kind) .unknownReactStepSaltTag
  let isAgenticLaunch ← readIfMore (readBool kind .unknownReactAgenticLaunchTag) stepSalt.isSome
  let contextItemsRef ←
    readIfMore (readOption kind (readRef kind) .unknownReactContextItemsTag) none
  let imageRef ← readIfMore (readOption kind (readRef kind) .unknownReactImageRefTag) none
  let requireApproval ← readIfMore (readBool kind .unknownReactRequireApprovalTag) false
  expectEnd .trailingBytes
  pure ⟨stepSalt, isAgenticLaunch, contextItemsRef, imageRef, requireApproval⟩

def decodeReactRound : Reader DecodeError JournalEntry := do
  fence h.kind REACT_ROUND_PREFIX_LEN
  let turn ← readU32 h.kind
  let instanceId ← readArray h.kind INSTANCE_ID_LEN
  let basePromptRef ← readRef h.kind
  let warrantRef ← readRef h.kind
  let modelId ← readLenPrefixedStr h.kind
  let branch ← readBranch h.kind
  let maxTurns ← readU32 h.kind
  let maxToolCalls ← readU32 h.kind
  let tail ← readReactTail h.kind
  pure (.reactRound ⟨turn, h.moteId, instanceId, basePromptRef, warrantRef, modelId, branch,
    maxTurns, maxToolCalls, tail.stepSalt, tail.isAgenticLaunch, tail.contextItemsRef,
    tail.imageRef, tail.requireApproval, h.seq⟩)

def readOutcome (kind : UInt8) : Reader DecodeError ReRankOutcome := do
  match ← readU8 kind with
  | 0 => pure .pending
  | 1 => do
    let permCount ← readU16 kind
    rejectIf (permCount.toNat > MAX_RERANK_CANDIDATES)
      (.reRankRoundTooManyCandidates permCount.toNat)
    .reranked <$> many (readU32 kind) permCount.toNat
  | 2 => pure .failedClosed
  | other => throw (.unknownReRankOutcome other)

def decodeReRankRound : Reader DecodeError JournalEntry := do
  fence h.kind RERANK_ROUND_PREFIX_LEN
  let round ← readU32 h.kind
  let instanceId ← readArray h.kind INSTANCE_ID_LEN
  let baseResultsRef ← readRef h.kind
  let queryRef ← readRef h.kind
  let warrantRef ← readRef h.kind
  let modelId ← readLenPrefixedStr h.kind
  let candidateCount ← readU32 h.kind
  let outcome ← readOutcome h.kind
  expectEnd .trailingBytes
  pure (.reRankRound ⟨round, h.moteId, instanceId, baseResultsRef, queryRef, warrantRef, modelId,
    candidateCount, outcome, h.seq⟩)

def readApprovalState (kind : UInt8) : Reader DecodeError ApprovalState := do
  match ← readU8 kind with
  | 0 => do
    let toolId ← readLenPrefixedStr kind
    let toolVersion ← readLenPrefixedStr kind
    let intent ← readLenPrefixedStr kind
    let deadlineUnixMs ← readU64 kind
    let createdUnixMs ← readU64 kind
    pure (.requested toolId toolVersion intent deadlineUnixMs createdUnixMs)
  | 1 => readDecision kind .granted
  | 2 => readDecision kind .denied
  | 3 => .expired <$> readU64 kind
  | other => throw (.unknownApprovalStateTag other)
where
  /-- The fields a grant and a denial share. -/
  readDecision (kind : UInt8) (decision : UInt64 → String → UInt64 → ApprovalState) :
      Reader DecodeError ApprovalState := do
    let approverId ← readU64 kind
    let reason ← readLenPrefixedStr kind
    let decidedUnixMs ← readU64 kind
    pure (decision approverId reason decidedUnixMs)

def decodeApproval : Reader DecodeError JournalEntry := do
  fence h.kind (INSTANCE_ID_LEN + APPROVAL_REQUEST_ID_LEN + 1)
  let instanceId ← readArray h.kind INSTANCE_ID_LEN
  let requestId ← readArray h.kind APPROVAL_REQUEST_ID_LEN
  let state ← readApprovalState h.kind
  expectEnd .trailingBytes
  pure (.approval ⟨instanceId, requestId, h.moteId, state, h.seq⟩)

def TIMER_ARMED_BODY_LEN : Nat := INSTANCE_ID_LEN + 1 + 4 + 8 + 32

def decodeTimerArmed : Reader DecodeError JournalEntry := do
  fenceExact h.kind TIMER_ARMED_BODY_LEN
  let instanceId ← readArray h.kind INSTANCE_ID_LEN
  let purpose ← readU8 h.kind
  rejectIf (purpose > 1) (.unknownKind h.kind)
  let attempt ← readU32 h.kind
  let fireAtUnixMs ← readU64 h.kind
  let anchorRef ← readRef h.kind
  pure (.timerArmed ⟨instanceId, h.moteId, purpose, attempt, fireAtUnixMs, anchorRef, h.seq⟩)

def decodeBody (moteDefHash : MoteDefHash) : Reader DecodeError JournalEntry :=
  match h.kind with
  | KIND_PROPOSED => decodeProposed h
  | KIND_COMMITTED => decodeCommitted h moteDefHash
  | KIND_REPUDIATED => decodeRepudiated h
  | KIND_FAILED => decodeFailed h
  | KIND_EFFECT_STAGED => decodeEffectStaged h
  | KIND_RUN_REGISTERED => decodeRunRegistered blake3 h
  | KIND_RUN_VERSIONS_RESOLVED => decodeRunVersionsResolved blake3 h
  | KIND_DIGEST_SEALED => decodeDigestSealed blake3 h
  | KIND_REPLAN_ROUND => decodeReplanRound h
  | KIND_REACT_ROUND => decodeReactRound h
  | KIND_APPROVAL => decodeApproval h
  | KIND_RERANK_ROUND => decodeReRankRound h
  | KIND_TIMER_ARMED => decodeTimerArmed h
  | other => throw (.unknownKind other)

end Bodies

/-- Decode one stored entry; `moteDefHash` comes from the store's own column and
reaches `Committed` entries only. -/
def decodeEntryWithDefHash (blake3 : List UInt8 → ByteVec 32) (bytes : List UInt8)
    (moteDefHash : MoteDefHash) : Except DecodeError JournalEntry :=
  if bytes.length > MAX_ENTRY_LEN then
    .error (.tooLarge bytes.length)
  else if bytes.length < HEADER_LEN then
    .error (.headerTooShort bytes.length)
  else do
    let (h, _) ← readHeader bytes 0
    let (e, _) ← decodeBody blake3 h moteDefHash (bytes.drop HEADER_LEN) 0
    .ok e

end Kortecx.Journal
