import Kortecx.Mote

/-! The journal's entries: thirteen kinds of fact, with the metadata each kind
carries. The hash of a byte string is the parameter `blake3`; only the synthetic
ids of run-level facts and the derived key of a repudiation use it here. -/

namespace Kortecx.Journal

open Lib Mote

def HEADER_LEN : Nat := 74
def MAX_ENTRY_LEN : Nat := 4500
def MAX_PARENTS : Nat := 128
def MAX_RERANK_CANDIDATES : Nat := 64
def MAX_REPLAN_FAILED_STEPS : Nat := 64
def MAX_TOOL_BATCH_CALLS : Nat := 20
def APPROVAL_REQUEST_ID_LEN : Nat := 16
def INSTANCE_ID_LEN : Nat := 16
def RUN_REGISTERED_BODY_LEN : Nat := 56
def DIGEST_SEALED_BODY_LEN : Nat := 40
def REPLAN_ROUND_PREFIX_LEN : Nat := 104
def REACT_ROUND_PREFIX_LEN : Nat := 86
def RERANK_ROUND_PREFIX_LEN : Nat := 118

@[match_pattern] def KIND_PROPOSED : UInt8 := 0
@[match_pattern] def KIND_COMMITTED : UInt8 := 1
@[match_pattern] def KIND_REPUDIATED : UInt8 := 2
@[match_pattern] def KIND_FAILED : UInt8 := 3
@[match_pattern] def KIND_EFFECT_STAGED : UInt8 := 4
@[match_pattern] def KIND_RUN_REGISTERED : UInt8 := 5
@[match_pattern] def KIND_RUN_VERSIONS_RESOLVED : UInt8 := 6
@[match_pattern] def KIND_DIGEST_SEALED : UInt8 := 7
@[match_pattern] def KIND_REPLAN_ROUND : UInt8 := 8
@[match_pattern] def KIND_REACT_ROUND : UInt8 := 9
@[match_pattern] def KIND_APPROVAL : UInt8 := 10
@[match_pattern] def KIND_RERANK_ROUND : UInt8 := 11
@[match_pattern] def KIND_TIMER_ARMED : UInt8 := 12

abbrev InstanceId := ByteVec INSTANCE_ID_LEN
abbrev IdempotencyKey := ByteVec 32

def ZERO_IDEMPOTENCY_KEY : IdempotencyKey := .replicate 32 0

/-- How one ReAct turn ended. A `toolBatch` is meant to hold at most
`MAX_TOOL_BATCH_CALLS` calls, which the type does not enforce. -/
inductive ReactBranch where
  | answer
  | tool (toolId toolVersion : String)
  | deadLettered
  | pending
  | rejected (reason : String)
  | toolBatch (calls : List (String × String))
deriving DecidableEq, Repr

def ReactBranch.asU8 : ReactBranch → UInt8
  | .answer => 0
  | .tool _ _ => 1
  | .deadLettered => 2
  | .pending => 3
  | .rejected _ => 4
  | .toolBatch _ => 5

inductive ReRankOutcome where
  | pending
  | reranked (permutation : List UInt32)
  | failedClosed
deriving DecidableEq, Repr

def ReRankOutcome.asU8 : ReRankOutcome → UInt8
  | .pending => 0
  | .reranked _ => 1
  | .failedClosed => 2

inductive ApprovalState where
  | requested (toolId toolVersion intent : String) (deadlineUnixMs createdUnixMs : UInt64)
  | granted (approverId : UInt64) (reason : String) (decidedUnixMs : UInt64)
  | denied (approverId : UInt64) (reason : String) (decidedUnixMs : UInt64)
  | expired (expiredUnixMs : UInt64)
deriving DecidableEq, Repr

def ApprovalState.asU8 : ApprovalState → UInt8
  | .requested .. => 0
  | .granted .. => 1
  | .denied .. => 2
  | .expired .. => 3

inductive ResolvedKindTag where
  | builtin
  | localScript
  | external
  | mcp
  | selfGenerated
deriving DecidableEq, Repr

instance : ByteTag ResolvedKindTag where
  asU8
    | .builtin => 0
    | .localScript => 1
    | .external => 2
    | .mcp => 3
    | .selfGenerated => 4
  fromU8
    | 0 => some .builtin
    | 1 => some .localScript
    | 2 => some .external
    | 3 => some .mcp
    | 4 => some .selfGenerated
    | _ => none
  fromU8_asU8 a := by cases a <;> rfl
  asU8_of_fromU8 {b a} h := by split at h <;> cases h <;> rfl

inductive IdempotencyClassTag where
  | token
  | readback
  | staged
  | atLeastOnce
deriving DecidableEq, Repr

instance : ByteTag IdempotencyClassTag where
  asU8
    | .token => 0
    | .readback => 1
    | .staged => 2
    | .atLeastOnce => 3
  fromU8
    | 0 => some .token
    | 1 => some .readback
    | 2 => some .staged
    | 3 => some .atLeastOnce
    | _ => none
  fromU8_asU8 a := by cases a <;> rfl
  asU8_of_fromU8 {b a} h := by split at h <;> cases h <;> rfl

inductive RepudiationReason where
  | operatorAction
  | criticInvalidated
  | definitionLevelRepudiation
  | upstreamCascade
  | safetyInvariantBreach
  | externalSystemReportedFailure
deriving DecidableEq, Repr

instance : ByteTag RepudiationReason where
  asU8
    | .operatorAction => 0
    | .criticInvalidated => 1
    | .definitionLevelRepudiation => 2
    | .upstreamCascade => 3
    | .safetyInvariantBreach => 4
    | .externalSystemReportedFailure => 5
  fromU8
    | 0 => some .operatorAction
    | 1 => some .criticInvalidated
    | 2 => some .definitionLevelRepudiation
    | 3 => some .upstreamCascade
    | 4 => some .safetyInvariantBreach
    | 5 => some .externalSystemReportedFailure
    | _ => none
  fromU8_asU8 a := by cases a <;> rfl
  asU8_of_fromU8 {b a} h := by split at h <;> cases h <;> rfl

inductive FailureReason where
  | timedOut
  | executorRefused
  | validatorRejected
  | workerCrashed
  | upstreamRepudiated
  | unsafeWorldMutatingConstruction
  | compensatedAtLeastOnce
  | quarantinedAtLeastOnce
  | deadLettered
deriving DecidableEq, Repr

instance : ByteTag FailureReason where
  asU8
    | .timedOut => 0
    | .executorRefused => 1
    | .validatorRejected => 2
    | .workerCrashed => 3
    | .upstreamRepudiated => 4
    | .unsafeWorldMutatingConstruction => 5
    | .compensatedAtLeastOnce => 6
    | .quarantinedAtLeastOnce => 7
    | .deadLettered => 8
  fromU8
    | 0 => some .timedOut
    | 1 => some .executorRefused
    | 2 => some .validatorRejected
    | 3 => some .workerCrashed
    | 4 => some .upstreamRepudiated
    | 5 => some .unsafeWorldMutatingConstruction
    | 6 => some .compensatedAtLeastOnce
    | 7 => some .quarantinedAtLeastOnce
    | 8 => some .deadLettered
    | _ => none
  fromU8_asU8 a := by cases a <;> rfl
  asU8_of_fromU8 {b a} h := by split at h <;> cases h <;> rfl

/-- A failure the same attempt may be retried after. -/
def isPreCommitCrash : FailureReason → Bool
  | .timedOut | .workerCrashed => true
  | _ => false

/-- A parent as the log stores it. The two bytes are raw: only `toParentRef` and
the decoder interpret them. -/
structure ParentEntry where
  parentId : MoteId
  edgeKind : UInt8
  nonCascade : UInt8
deriving DecidableEq, Repr

namespace ParentEntry

def ENCODED_LEN : Nat := 34

def fromParentRef (p : ParentRef) : ParentEntry where
  parentId := p.parentId
  edgeKind := p.edge.kind.asU8
  nonCascade := if p.edge.nonCascade then 1 else 0

def toParentRef (p : ParentEntry) : Option ParentRef := do
  let kind ← match p.edgeKind with
    | 0 => some EdgeKind.data
    | 1 => some EdgeKind.control
    | _ => none
  if kind = .data ∧ p.nonCascade ≠ 0 then none
  else if p.nonCascade > 1 then none
  else some ⟨p.parentId, kind, p.nonCascade == 1⟩

end ParentEntry

structure ResolvedCapabilityRecord where
  toolId : String
  toolVersion : String
  resolvedKind : ResolvedKindTag
  resolvedDefHash : ContentRef
  idempotencyClass : IdempotencyClassTag
deriving DecidableEq, Repr

structure Proposed where
  moteId : MoteId
  idempotencyKey : IdempotencyKey
  seq : UInt64
  nondeterminism : NdClass
  placementHint : BitVec 128
  warrantRef : ContentRef
deriving DecidableEq, Repr

/-- `moteDefHash` is kept in a column of its own and is not part of the encoding. -/
structure Committed where
  moteId : MoteId
  idempotencyKey : IdempotencyKey
  seq : UInt64
  nondeterminism : NdClass
  resultRef : ContentRef
  parents : List ParentEntry
  warrantRef : ContentRef
  moteDefHash : MoteDefHash
deriving DecidableEq, Repr

structure Repudiated where
  targetMoteId : MoteId
  idempotencyKey : IdempotencyKey
  seq : UInt64
  targetCommittedSeq : UInt64
  reasonClass : RepudiationReason
  repudiatorId : BitVec 128
deriving DecidableEq, Repr

structure Failed where
  moteId : MoteId
  idempotencyKey : IdempotencyKey
  seq : UInt64
  reasonClass : FailureReason
  reporterId : BitVec 128
  detail : String
deriving DecidableEq, Repr

structure EffectStaged where
  moteId : MoteId
  idempotencyKey : IdempotencyKey
  seq : UInt64
deriving DecidableEq, Repr

structure RunRegistered where
  instanceId : InstanceId
  recipeFingerprint : ByteVec 32
  ts : UInt64
  seq : UInt64
deriving DecidableEq, Repr

structure RunVersionsResolved where
  instanceId : InstanceId
  warrantRef : ContentRef
  modelId : String
  capability : Option ResolvedCapabilityRecord
  seq : UInt64
deriving DecidableEq, Repr

structure DigestSealed where
  throughSeq : UInt64
  stateDigest : ByteVec 32
  seq : UInt64
deriving DecidableEq, Repr

structure ReplanRound where
  round : UInt32
  shaperMoteId : MoteId
  basePromptRef : ContentRef
  correctedPromptRef : ContentRef
  warrantRef : ContentRef
  modelId : String
  failedSteps : List MoteId
  escalationReasonRef : Option ContentRef
  seq : UInt64
deriving DecidableEq, Repr

structure ReactRound where
  turn : UInt32
  turnMoteId : MoteId
  instanceId : InstanceId
  basePromptRef : ContentRef
  warrantRef : ContentRef
  modelId : String
  branch : ReactBranch
  maxTurns : UInt32
  maxToolCalls : UInt32
  stepSalt : Option (ByteVec 32)
  isAgenticLaunch : Bool
  contextItemsRef : Option ContentRef
  imageRef : Option ContentRef
  requireApproval : Bool
  seq : UInt64
deriving DecidableEq, Repr

structure Approval where
  instanceId : InstanceId
  requestId : ByteVec APPROVAL_REQUEST_ID_LEN
  awaitingMoteId : MoteId
  state : ApprovalState
  seq : UInt64
deriving DecidableEq, Repr

structure ReRankRound where
  round : UInt32
  rerankMoteId : MoteId
  instanceId : InstanceId
  baseResultsRef : ContentRef
  queryRef : ContentRef
  warrantRef : ContentRef
  modelId : String
  candidateCount : UInt32
  outcome : ReRankOutcome
  seq : UInt64
deriving DecidableEq, Repr

/-- `purpose` is a raw byte; the decoder knows only 0 and 1. -/
structure TimerArmed where
  instanceId : InstanceId
  subjectMoteId : MoteId
  purpose : UInt8
  attempt : UInt32
  fireAtUnixMs : UInt64
  anchorRef : ContentRef
  seq : UInt64
deriving DecidableEq, Repr

inductive JournalEntry where
  | proposed (e : Proposed)
  | committed (e : Committed)
  | repudiated (e : Repudiated)
  | failed (e : Failed)
  | effectStaged (e : EffectStaged)
  | runRegistered (e : RunRegistered)
  | runVersionsResolved (e : RunVersionsResolved)
  | digestSealed (e : DigestSealed)
  | replanRound (e : ReplanRound)
  | reactRound (e : ReactRound)
  | approval (e : Approval)
  | reRankRound (e : ReRankRound)
  | timerArmed (e : TimerArmed)
deriving DecidableEq, Repr

/-- `blake3("kx-run-root" ‖ instance_id)`. -/
def runRootId (blake3 : List UInt8 → ByteVec 32) (instanceId : InstanceId) : MoteId :=
  ⟨blake3 (utf8Bytes "kx-run-root" ++ instanceId.toList)⟩

/-- `blake3("kx-digest-seal-root" ‖ through_seq)`. -/
def sealRootId (blake3 : List UInt8 → ByteVec 32) (throughSeq : UInt64) : MoteId :=
  ⟨blake3 (utf8Bytes "kx-digest-seal-root" ++ leBytes 8 throughSeq.toNat)⟩

/-- `blake3("repudiation" ‖ target_mote_id ‖ target_committed_seq)`: the key under
which two repudiations of one committed attempt are the same fact. -/
def repudiationIdempotencyKey (blake3 : List UInt8 → ByteVec 32)
    (targetMoteId : MoteId) (targetCommittedSeq : UInt64) : IdempotencyKey :=
  blake3 (utf8Bytes "repudiation" ++ targetMoteId.bytes.toList ++
    leBytes 8 targetCommittedSeq.toNat)

namespace JournalEntry

def seq : JournalEntry → UInt64
  | .proposed e => e.seq
  | .committed e => e.seq
  | .repudiated e => e.seq
  | .failed e => e.seq
  | .effectStaged e => e.seq
  | .runRegistered e => e.seq
  | .runVersionsResolved e => e.seq
  | .digestSealed e => e.seq
  | .replanRound e => e.seq
  | .reactRound e => e.seq
  | .approval e => e.seq
  | .reRankRound e => e.seq
  | .timerArmed e => e.seq

def idempotencyKey : JournalEntry → IdempotencyKey
  | .proposed e => e.idempotencyKey
  | .committed e => e.idempotencyKey
  | .repudiated e => e.idempotencyKey
  | .failed e => e.idempotencyKey
  | .effectStaged e => e.idempotencyKey
  | .runRegistered _ | .runVersionsResolved _ | .digestSealed _ | .replanRound _
  | .reactRound _ | .approval _ | .reRankRound _ | .timerArmed _ => ZERO_IDEMPOTENCY_KEY

def moteId (blake3 : List UInt8 → ByteVec 32) : JournalEntry → MoteId
  | .proposed e => e.moteId
  | .committed e => e.moteId
  | .failed e => e.moteId
  | .effectStaged e => e.moteId
  | .repudiated e => e.targetMoteId
  | .runRegistered e => runRootId blake3 e.instanceId
  | .runVersionsResolved e => runRootId blake3 e.instanceId
  | .digestSealed e => sealRootId blake3 e.throughSeq
  | .replanRound e => e.shaperMoteId
  | .reactRound e => e.turnMoteId
  | .approval e => e.awaitingMoteId
  | .reRankRound e => e.rerankMoteId
  | .timerArmed e => e.subjectMoteId

def kind : JournalEntry → UInt8
  | .proposed _ => KIND_PROPOSED
  | .committed _ => KIND_COMMITTED
  | .repudiated _ => KIND_REPUDIATED
  | .failed _ => KIND_FAILED
  | .effectStaged _ => KIND_EFFECT_STAGED
  | .runRegistered _ => KIND_RUN_REGISTERED
  | .runVersionsResolved _ => KIND_RUN_VERSIONS_RESOLVED
  | .digestSealed _ => KIND_DIGEST_SEALED
  | .replanRound _ => KIND_REPLAN_ROUND
  | .reactRound _ => KIND_REACT_ROUND
  | .approval _ => KIND_APPROVAL
  | .reRankRound _ => KIND_RERANK_ROUND
  | .timerArmed _ => KIND_TIMER_ARMED

end JournalEntry

end Kortecx.Journal
