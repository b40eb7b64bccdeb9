import Kortecx.Coordinator.Core

/-!
How the coordinator tells the Motes apart: by the keys of their configuration, their tool
contract and their edges. Some are never handed to a worker, because the coordinator
settles them itself.
-/

namespace Kortecx.Coordinator

open Lib Mote Journal Projection Warrant

def PROMPT_KEY : ConfigKey := "prompt"
def TOOL_ARGS_KEY : ConfigKey := "kx.tool.args"
def WAIT_DELAY_MS_KEY : ConfigKey := "kx.wait.delay_ms"
def COND_ARM_KEY : ConfigKey := "kx.cond.arm"
def SKIP_GUARD_KEY : ConfigKey := "kx.cond.skip_guard"
def FAILURE_MODE_KEY : ConfigKey := "kx.step.failure_mode"
def RETRY_MAX_KEY : ConfigKey := "kx.step.retry_max"
def RETRY_BACKOFF_MS_KEY : ConfigKey := "kx.step.retry_backoff_ms"
def ATTEMPT_KEY : ConfigKey := "kx.step.attempt"
def CONTEXT_ITEMS_KEY : ConfigKey := "kx.context.items"
def IMAGE_REF_KEY : ConfigKey := "image_ref"
def REACT_TURN_KEY : ConfigKey := "kx.react.turn"
def REACT_INSTRUCTION_KEY : ConfigKey := "instruction"
def REACT_MAX_TURNS_KEY : ConfigKey := "max_turns"
def REACT_MAX_TOOL_CALLS_KEY : ConfigKey := "max_tool_calls"
def REACT_REQUIRE_APPROVAL_KEY : ConfigKey := "require_approval"
def RERANK_TURN_KEY : ConfigKey := "kx.rerank.turn"
def RERANK_CANDIDATES_KEY : ConfigKey := "kx.rerank.candidates"

/-- What every skipped step commits. -/
def COND_SKIP_SENTINEL : List UInt8 := utf8Bytes "kx-workflow/skip/v1"

/-- What a step commits whose attempts are exhausted and whose workflow goes on. -/
def CONTINUE_FAILED_SENTINEL : List UInt8 := utf8Bytes "kx-workflow/failed/v1"

structure ToolCall where
  name : ToolName
  version : ToolVersion
  argsBytes : List UInt8
deriving DecidableEq, Repr

inductive ToolCallError where
  | malformed (diagnostic : String)
  | ungrantedTool (name : ToolName) (version : ToolVersion)
  | ambiguous (name : ToolName) (candidates : List ToolName)
  | oversize (got max : Nat)
deriving DecidableEq, Repr

structure ContextItemRef where
  name : String
  contentRef : ContentRef
deriving DecidableEq, Repr

/-- A child a shaper asks for: the role it runs under, and what it is to do. -/
structure ChildDescriptor where
  roleId : RoleId
  intent : String
deriving DecidableEq, Repr

/-- The functions of other crates that the coordinator calls. Nothing is assumed of them:
what is proved of the coordinator holds whatever they compute. -/
structure Platform where
  ids : Identity
  encodeWarrant : WarrantSpec → List UInt8
  decodeWarrant : List UInt8 → Option WarrantSpec
  fromUtf8Lossy : List UInt8 → String
  criticVerdict : List UInt8 → Option CriticVerdict
  /-- `validate_mote_submission`: the refusal, or none. -/
  validateMoteSubmission : Mote → Bool → Option (List IdempotencyClassTag) → Option String
  approvalRequestId : InstanceId → MoteId → ByteVec APPROVAL_REQUEST_ID_LEN
  -- The shapes of the Motes the coordinator makes.
  buildChainTurn : ModelId → String → UInt32 → InstanceId → Option (ByteVec 32) → UInt32 → Mote
  buildChainTool : ModelId → ToolName → ToolVersion → UInt32 → InstanceId →
    Option (ByteVec 32) → UInt32 → MoteId → Mote
  buildRerankTurn : ModelId → InstanceId → ContentRef → ContentRef → UInt32 → Mote
  buildReplanShaper : ModelId → String → UInt32 → Mote
  correctedPrompt : String → List (MoteId × Option FailureReason) → String
  renderTurnInstruction : String → Option String → Bool → String
  topologyDecision : List UInt8 → Option (List ChildDescriptor)
  resolveChildDef : MoteDef → ChildDescriptor → MoteDef
  -- The decoder of tool calls.
  maxArgsBytes : WarrantSpec → Nat
  parseToolCalls : List UInt8 → WarrantSpec → Nat → Except ToolCallError (List ToolCall)
  debugToolCallError : ToolCallError → String
  isDuplicateCall : ToolCall → List ToolCall → Bool
  duplicateCallReason : ToolCall → String
  looksLikeAnAttemptedToolCall : List UInt8 → WarrantSpec → Bool
  unreadableToolCallReason : String
  answerIsAContinuation : List UInt8 → WarrantSpec → Bool
  continuationAnswerReason : String
  observationFailureReason : String → String → Option FailureReason → String → String
  /-- The answer inside an envelope, or none if the bytes are the answer. -/
  extractAnswer : List UInt8 → Option (List UInt8)
  parsePermutation : String → Nat → Option (List Nat)
  normalizeLenientArgs : List UInt8 → List UInt8
  -- Readers and writers of JSON and of content references.
  jsonString : List UInt8 → Option String
  jsonU32 : List UInt8 → Option UInt32
  jsonBool : List UInt8 → Option Bool
  jsonUrl : List UInt8 → Option String
  contentRefFromArg : List UInt8 → Option ContentRef
  retrieveQueryAndCount : List UInt8 → Option (String × Nat)
  reorderRetrievalObservation : List UInt8 → List UInt32 → Option (List UInt8)
  retrievalObservation : String → List (ContentRef × String) → List UInt8
  decodeContextItems : List UInt8 → List ContextItemRef
  encodeContextItemsOrdered : List ContextItemRef → List UInt8

namespace Platform

variable (P : Platform)

/-- `ContentRef::of`. -/
def contentRefOf (bytes : List UInt8) : ContentRef := ⟨P.ids.blake3 bytes⟩

def warrantRefOf (warrant : WarrantSpec) : ContentRef := P.contentRefOf (P.encodeWarrant warrant)

def skipSentinelRef : ContentRef := P.contentRefOf COND_SKIP_SENTINEL

end Platform

section Shapes

variable (m : Mote)

def hasConfig (key : ConfigKey) : Bool :=
  m.def.configSubset.contains key

/-- A step the coordinator runs as a loop of model turns on a chain of its own. -/
def isAgenticLaunch : Bool :=
  !m.def.toolContract.isEmpty && m.ndClass = .readOnlyNondet &&
    m.effectPattern = .stageThenCommit && hasConfig m PROMPT_KEY && !hasConfig m TOOL_ARGS_KEY

/-- A durable wait. The coordinator commits it when its timer fires. -/
def isWaitStep : Bool :=
  m.ndClass = .pure && hasConfig m WAIT_DELAY_MS_KEY

/-- A step inside an arm of a conditional. -/
def isSkipGuard : Bool :=
  hasConfig m SKIP_GUARD_KEY

/-- A step with a failure policy. The coordinator runs attempts in its place. -/
def isPoliciedStep : Bool :=
  hasConfig m FAILURE_MODE_KEY

/-- An answer grounded in a bundle of its own, whose passages may be reranked first. -/
def isChatRagRerankAnswer : Bool :=
  m.parents.isEmpty && m.def.criticCheck.isNone && !m.def.isTopologyShaper &&
    m.def.toolContract.isEmpty && hasConfig m PROMPT_KEY && hasConfig m CONTEXT_ITEMS_KEY &&
    !hasConfig m REACT_TURN_KEY && !hasConfig m RERANK_TURN_KEY &&
    !hasConfig m RERANK_CANDIDATES_KEY

def isReactObservation (s : State) : Bool :=
  !m.def.toolContract.isEmpty &&
    match m.parents with
    | [parent] => s.isReactTurnMote parent.parentId
    | _ => false

/-- A tool step written by the author of the workflow, with its arguments. -/
def isAuthoredTool (s : State) : Bool :=
  !m.def.toolContract.isEmpty && m.effectPattern = .stageThenCommit &&
    hasConfig m TOOL_ARGS_KEY && !isReactObservation m s

end Shapes

/-- `str::parse::<u64>` on bytes: an optional plus sign, then digits. A byte that is not
ASCII is no digit, so the bytes need not be checked to be text. -/
def parseU64 (bytes : List UInt8) : Option UInt64 :=
  let digits := if bytes.head? = some 43 then bytes.tail else bytes
  if digits.isEmpty then none
  else
    (digits.foldlM (fun (n : Nat) (b : UInt8) =>
      if 48 ≤ b ∧ b ≤ 57 then
        let n' := 10 * n + (b.toNat - 48)
        if n' < 2 ^ 64 then some n' else none
      else none) 0).map UInt64.ofNat

def configU64 (m : Mote) (key : ConfigKey) (fallback : UInt64) : UInt64 :=
  ((m.def.configSubset[key]?).bind parseU64).getD fallback

def saturatingAdd (a b : UInt64) : UInt64 :=
  if a.toNat + b.toNat < 2 ^ 64 then a + b else UInt64.ofNat (2 ^ 64 - 1)

def saturatingMul (a b : UInt64) : UInt64 :=
  if a.toNat * b.toNat < 2 ^ 64 then a * b else UInt64.ofNat (2 ^ 64 - 1)

/-- The decimal digits of a number, as `to_string` writes them. -/
def decimalBytes (n : Nat) : List UInt8 :=
  (Nat.toDigits 10 n).map fun c => UInt8.ofNat c.toNat

/-- What is put into a journal entry is cut to this many characters. -/
def truncateChars (cap : Nat) (s : String) : String :=
  if s.toList.length ≤ cap then s else String.ofList (s.toList.take cap)

def MAX_REJECTED_REASON_LEN : Nat := 512
def MAX_APPROVAL_TEXT_LEN : Nat := 512

def boundedReason (reason : String) : String :=
  truncateChars MAX_REJECTED_REASON_LEN reason

def truncateForApproval (s : String) : String :=
  truncateChars MAX_APPROVAL_TEXT_LEN s

/-- What the parents of a parked step say: go on, wait, or a parent that counts as lost. -/
inductive Gate where
  | satisfied
  | waiting
  | blocked (parent : MoteId)
deriving DecidableEq, Repr

/-- The scan over the parents that the four settle passes share. It stops at the first
parent that failed, is inconsistent or was repudiated. -/
def parentGate (s : State) : List ParentRef → Gate
  | [] => .satisfied
  | p :: parents =>
    match s.stateOfId p.parentId with
    | .committed => parentGate s parents
    | .failed | .inconsistent | .repudiated => .blocked p.parentId
    | .pending | .scheduled =>
      match parentGate s parents with
      | .blocked parent => .blocked parent
      | _ => .waiting

inductive GuardVerdict where
  | run
  | skip
  | undecided
deriving DecidableEq, Repr

def selectionVerdict (P : Platform) (s : State) (store : Store) (wanted : String) :
    List ParentRef → GuardVerdict
  | [] => .undecided
  | p :: parents =>
    match (s.resultRefOf p.parentId).bind store.get with
    | none => selectionVerdict P s store wanted parents
    | some bytes =>
      let text := P.fromUtf8Lossy bytes
      if "\x7b\"selected\":\"".toList <+: text.toList then
        if wanted.toList <:+: text.toList then .run else .skip
      else selectionVerdict P s store wanted parents

def skipGuardVerdict (P : Platform) (m : Mote) (s : State) (store : Option Store) : GuardVerdict :=
  if m.parents.any fun p => s.resultRefOf p.parentId = some P.skipSentinelRef then .skip
  else
    match m.def.configSubset[COND_ARM_KEY]? with
    | none => .run
    | some arm =>
      match store with
      | none => .undecided
      | some store =>
        let wanted := "\"selected\":\"" ++ P.fromUtf8Lossy arm ++ "\""
        selectionVerdict P s store wanted m.parents

def skipGuardCleared (P : Platform) (m : Mote) (s : State) (store : Option Store) : Bool :=
  skipGuardVerdict P m s store = .run

/-- The `n`-th attempt of a policied step. The policy is taken out, the number of the
attempt put in, and the edges stay with the launch. -/
def Platform.attemptMote (P : Platform) (launch : Mote) (attempt : UInt32) : Mote :=
  let stripped := ((launch.def.configSubset.erase FAILURE_MODE_KEY).erase RETRY_MAX_KEY).erase
    RETRY_BACKOFF_MS_KEY
  Mote.new P.ids
    { launch.def with
      configSubset := stripped.insert ATTEMPT_KEY (decimalBytes attempt.toNat) }
    launch.inputDataId launch.graphPosition []

end Kortecx.Coordinator
