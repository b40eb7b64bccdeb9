import Kortecx.Lib.Reader
import Kortecx.Journal.Entry

/-! The writing half of the journal's wire format: a 74-byte header, then a body
laid out per kind. What the encoder refuses is exactly what stands here; the
decoder keeps its own, separate list of refusals. -/

namespace Kortecx.Journal

open Lib Lib.Reader
open Mote

inductive EncodeError where
  | tooManyParents (got : Nat)
  | dataEdgeNonCascade
  | runVersionsFieldTooLong (got : Nat)
  | runVersionsTooLarge (got : Nat)
  | replanRoundTooManyFailedSteps (got : Nat)
  | replanRoundTooLarge (got : Nat)
  | reactRoundTooLarge (got : Nat)
  | reRankRoundTooLarge (got : Nat)
deriving DecidableEq, Repr

/-- A `u16` byte length, then the UTF-8 bytes. Every string field of every kind
shares this helper, and with it the error that names `RunVersionsResolved`. -/
def pushLenPrefixedStr (s : String) : Except EncodeError (List UInt8) :=
  if (utf8Bytes s).length < 2 ^ 16 then
    .ok (leBytes 2 (utf8Bytes s).length ++ utf8Bytes s)
  else
    .error (.runVersionsFieldTooLong (utf8Bytes s).length)

/-- A presence byte, then the value if there is one. -/
def pushOption {α : Type} (enc : α → List UInt8) : Option α → List UInt8
  | none => [0]
  | some a => 1 :: enc a

/-- `u8::from(b)`. -/
def boolU8 (b : Bool) : UInt8 :=
  if b then 1 else 0

def pushRef (r : ContentRef) : List UInt8 :=
  r.bytes.toList

/-- The size guard some bodies end with; `out.len()` counts the header too. -/
def guardLen (tooLarge : Nat → EncodeError) (body : List UInt8) :
    Except EncodeError (List UInt8) :=
  if HEADER_LEN + body.length > MAX_ENTRY_LEN then
    .error (tooLarge (HEADER_LEN + body.length))
  else
    .ok body

/-- The header's last byte, zero for every kind that is not an attempt. -/
def ndByte : JournalEntry → UInt8
  | .proposed e => ByteTag.asU8 e.nondeterminism
  | .committed e => ByteTag.asU8 e.nondeterminism
  | _ => 0

def encodeHeader (blake3 : List UInt8 → ByteVec 32) (e : JournalEntry) : List UInt8 :=
  [e.kind] ++ ((e.moteId blake3).bytes.toList ++ (e.idempotencyKey.toList ++
    (leBytes 8 e.seq.toNat ++ [ndByte e])))

def encodeProposed (e : Proposed) : List UInt8 :=
  leBytes 16 e.placementHint.toNat ++ pushRef e.warrantRef

def encodeParent (p : ParentEntry) : Except EncodeError (List UInt8) :=
  if p.edgeKind = 0 ∧ p.nonCascade ≠ 0 then
    .error .dataEdgeNonCascade
  else
    .ok (p.parentId.bytes.toList ++ ([p.edgeKind] ++ [p.nonCascade]))

def encodeCommitted (e : Committed) : Except EncodeError (List UInt8) :=
  if e.parents.length > MAX_PARENTS then
    .error (.tooManyParents e.parents.length)
  else do
    let parents ← encodeMany encodeParent e.parents
    .ok (pushRef e.resultRef ++ (pushRef e.warrantRef ++ (leBytes 2 e.parents.length ++ parents)))

def encodeRepudiated (e : Repudiated) : List UInt8 :=
  e.targetMoteId.bytes.toList ++ (leBytes 8 e.targetCommittedSeq.toNat ++
    ([ByteTag.asU8 e.reasonClass] ++ leBytes 16 e.repudiatorId.toNat))

/-- The detail is written even when empty, as two zero bytes. -/
def encodeFailed (e : Failed) : Except EncodeError (List UInt8) := do
  let detail ← pushLenPrefixedStr e.detail
  .ok ([ByteTag.asU8 e.reasonClass] ++ (leBytes 16 e.reporterId.toNat ++ detail))

def encodeRunRegistered (e : RunRegistered) : List UInt8 :=
  e.instanceId.toList ++ (e.recipeFingerprint.toList ++ leBytes 8 e.ts.toNat)

def encodeCapability (cap : ResolvedCapabilityRecord) : Except EncodeError (List UInt8) := do
  let toolId ← pushLenPrefixedStr cap.toolId
  let toolVersion ← pushLenPrefixedStr cap.toolVersion
  .ok (toolId ++ (toolVersion ++ ([ByteTag.asU8 cap.resolvedKind] ++
    (pushRef cap.resolvedDefHash ++ [ByteTag.asU8 cap.idempotencyClass]))))

def encodeOptionalCapability :
    Option ResolvedCapabilityRecord → Except EncodeError (List UInt8)
  | none => .ok [0]
  | some cap => do
    let bytes ← encodeCapability cap
    .ok ([1] ++ bytes)

def encodeRunVersionsResolved (e : RunVersionsResolved) : Except EncodeError (List UInt8) := do
  let modelId ← pushLenPrefixedStr e.modelId
  let capability ← encodeOptionalCapability e.capability
  guardLen .runVersionsTooLarge
    (e.instanceId.toList ++ (pushRef e.warrantRef ++ (modelId ++ capability)))

def encodeDigestSealed (e : DigestSealed) : List UInt8 :=
  leBytes 8 e.throughSeq.toNat ++ e.stateDigest.toList

def encodeReplanRound (e : ReplanRound) : Except EncodeError (List UInt8) :=
  if e.failedSteps.length > MAX_REPLAN_FAILED_STEPS then
    .error (.replanRoundTooManyFailedSteps e.failedSteps.length)
  else do
    let modelId ← pushLenPrefixedStr e.modelId
    let failedSteps ← encodeMany (fun id : MoteId => .ok id.bytes.toList) e.failedSteps
    guardLen .replanRoundTooLarge
      (leBytes 4 e.round.toNat ++ (pushRef e.basePromptRef ++ (pushRef e.correctedPromptRef ++
        (pushRef e.warrantRef ++ (modelId ++ (leBytes 2 e.failedSteps.length ++
          (failedSteps ++ pushOption pushRef e.escalationReasonRef)))))))

/-- One `(tool_id, tool_version)` pair. -/
def encodeCall (call : String × String) : Except EncodeError (List UInt8) := do
  let toolId ← pushLenPrefixedStr call.1
  let toolVersion ← pushLenPrefixedStr call.2
  .ok (toolId ++ toolVersion)

/-- The tag and the fields of a branch. A batch is bounded by what its `u16` count
can hold, not by `MAX_TOOL_BATCH_CALLS`. -/
def encodeBranch (branch : ReactBranch) : Except EncodeError (List UInt8) :=
  match branch with
  | .tool toolId toolVersion => do
    let call ← encodeCall (toolId, toolVersion)
    .ok ([branch.asU8] ++ call)
  | .rejected reason => do
    let reason ← pushLenPrefixedStr reason
    .ok ([branch.asU8] ++ reason)
  | .toolBatch calls =>
    if calls.length < 2 ^ 16 then do
      let bytes ← encodeMany encodeCall calls
      .ok ([branch.asU8] ++ (leBytes 2 calls.length ++ bytes))
    else
      .error (.reactRoundTooLarge calls.length)
  | .answer | .deadLettered | .pending => .ok [branch.asU8]

/-- The fields later schema versions appended to a react round, oldest first. -/
def encodeReactTail (e : ReactRound) : List UInt8 :=
  pushOption ByteVec.toList e.stepSalt ++ ([boolU8 e.isAgenticLaunch] ++
    (pushOption pushRef e.contextItemsRef ++ (pushOption pushRef e.imageRef ++
      [boolU8 e.requireApproval])))

def encodeReactRound (e : ReactRound) : Except EncodeError (List UInt8) := do
  let modelId ← pushLenPrefixedStr e.modelId
  let branch ← encodeBranch e.branch
  guardLen .reactRoundTooLarge
    (leBytes 4 e.turn.toNat ++ (e.instanceId.toList ++ (pushRef e.basePromptRef ++
      (pushRef e.warrantRef ++ (modelId ++ (branch ++ (leBytes 4 e.maxTurns.toNat ++
        (leBytes 4 e.maxToolCalls.toNat ++ encodeReactTail e))))))))

def encodeOutcome (outcome : ReRankOutcome) : Except EncodeError (List UInt8) :=
  match outcome with
  | .reranked permutation =>
    if permutation.length > MAX_RERANK_CANDIDATES then
      .error (.reRankRoundTooLarge permutation.length)
    else do
      let bytes ← encodeMany (fun idx : UInt32 => .ok (leBytes 4 idx.toNat)) permutation
      .ok ([outcome.asU8] ++ (leBytes 2 permutation.length ++ bytes))
  | .pending | .failedClosed => .ok [outcome.asU8]

def encodeReRankRound (e : ReRankRound) : Except EncodeError (List UInt8) := do
  let modelId ← pushLenPrefixedStr e.modelId
  let outcome ← encodeOutcome e.outcome
  guardLen .reRankRoundTooLarge
    (leBytes 4 e.round.toNat ++ (e.instanceId.toList ++ (pushRef e.baseResultsRef ++
      (pushRef e.queryRef ++ (pushRef e.warrantRef ++ (modelId ++
        (leBytes 4 e.candidateCount.toNat ++ outcome)))))))

def encodeTimerArmed (e : TimerArmed) : List UInt8 :=
  e.instanceId.toList ++ ([e.purpose] ++ (leBytes 4 e.attempt.toNat ++
    (leBytes 8 e.fireAtUnixMs.toNat ++ pushRef e.anchorRef)))

def encodeApprovalState (state : ApprovalState) : Except EncodeError (List UInt8) :=
  match state with
  | .requested toolId toolVersion intent deadlineUnixMs createdUnixMs => do
    let toolId ← pushLenPrefixedStr toolId
    let toolVersion ← pushLenPrefixedStr toolVersion
    let intent ← pushLenPrefixedStr intent
    .ok ([state.asU8] ++ (toolId ++ (toolVersion ++ (intent ++
      (leBytes 8 deadlineUnixMs.toNat ++ leBytes 8 createdUnixMs.toNat)))))
  | .granted approverId reason decidedUnixMs | .denied approverId reason decidedUnixMs => do
    let reason ← pushLenPrefixedStr reason
    .ok ([state.asU8] ++ (leBytes 8 approverId.toNat ++ (reason ++ leBytes 8 decidedUnixMs.toNat)))
  | .expired expiredUnixMs => .ok ([state.asU8] ++ leBytes 8 expiredUnixMs.toNat)

def encodeApproval (e : Approval) : Except EncodeError (List UInt8) := do
  let state ← encodeApprovalState e.state
  guardLen .reactRoundTooLarge (e.instanceId.toList ++ (e.requestId.toList ++ state))

def encodeBody : JournalEntry → Except EncodeError (List UInt8)
  | .proposed e => .ok (encodeProposed e)
  | .committed e => encodeCommitted e
  | .repudiated e => .ok (encodeRepudiated e)
  | .failed e => encodeFailed e
  | .effectStaged _ => .ok []
  | .runRegistered e => .ok (encodeRunRegistered e)
  | .runVersionsResolved e => encodeRunVersionsResolved e
  | .digestSealed e => .ok (encodeDigestSealed e)
  | .replanRound e => encodeReplanRound e
  | .reactRound e => encodeReactRound e
  | .approval e => encodeApproval e
  | .reRankRound e => encodeReRankRound e
  | .timerArmed e => .ok (encodeTimerArmed e)

def encodeEntry (blake3 : List UInt8 → ByteVec 32) (e : JournalEntry) :
    Except EncodeError (List UInt8) := do
  let body ← encodeBody e
  .ok (encodeHeader blake3 e ++ body)

end Kortecx.Journal
