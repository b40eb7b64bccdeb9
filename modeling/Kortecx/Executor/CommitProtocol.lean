import Kortecx.Journal.Store
import Kortecx.Lib.CrashProgram
import Kortecx.Mote.Definition

/-!
The standard commit protocol: how a Mote's effect is dispatched and its result committed,
for each of the three effect patterns, and what recovery may do instead. The protocol is
a program over the seams it was given: the journal, the content store, the broker and the
resource manager.
-/

namespace Kortecx.Executor

open Lib Mote Journal Warrant

/-- The classes of the tool registry are those the journal records. -/
abbrev IdempotencyClass := IdempotencyClassTag

structure EffectRequest where
  payload : List UInt8
  pattern : EffectPattern
  idempotencyKey : Option IdempotencyKey
  netScope : NetScope
  fsScope : FsScope
  secretScope : SecretScope

structure BrokerHandle where
  stagedRef : ContentRef
  capability : ToolName
  capabilityVersion : ToolVersion
deriving DecidableEq, Repr

structure BrokerError where
  debug : String
  modelFacingDetail : String
  isPermanent : Bool
deriving DecidableEq, Repr

structure ResourceError where
  message : String
deriving DecidableEq, Repr

abbrev ResourceSlot := UInt64

structure BrokerCall where
  mote : Mote
  warrant : WarrantSpec
  capability : ToolName
  effectRequest : EffectRequest

/-- The calls a protocol makes through its seams. -/
inductive Effect where
  | acquire (ceiling : ResourceCeiling)
  | release (slot : ResourceSlot)
  | readCommitted (id : MoteId)
  | append (e : JournalEntry)
  | dispatch (call : BrokerCall)
  | probeReadback (call : BrokerCall)
  | compensate (call : BrokerCall)
  | contains (r : ContentRef)
  /-- Only whether the read succeeds is looked at. -/
  | get (r : ContentRef)

abbrev Effect.Answer : Effect → Type
  | .acquire _ => Except ResourceError ResourceSlot
  | .release _ => Except ResourceError Unit
  | .readCommitted _ => Except JournalError (Option JournalEntry)
  | .append _ => Except JournalError JournalEntry
  | .dispatch _ => Except BrokerError BrokerHandle
  | .probeReadback _ => Except BrokerError (Option BrokerHandle)
  | .compensate _ => Except BrokerError (Option BrokerHandle)
  | .contains _ => Bool
  | .get _ => Bool

abbrev Prog := Program Effect Effect.Answer

/-- The errors carry the journal's or the broker's own error where the source carries its
text. -/
inductive CommitProtocolError where
  | r11ResultRefIncomplete (moteId : MoteId) (resultRef : ContentRef)
  | r13WmReDispatchRefused (moteId : MoteId) (reason : String)
  | probeFailed (moteId : MoteId) (reason : BrokerError)
  | compensateFailed (moteId : MoteId) (reason : BrokerError)
  | brokerDispatchFailed (moteId : MoteId) (reason : BrokerError)
  | journalAppendEffectStagedFailed (moteId : MoteId) (reason : JournalError)
  | journalAppendCommittedFailed (moteId : MoteId) (reason : JournalError)
  | internal (moteId : MoteId) (reason : JournalError)
deriving DecidableEq

structure CommitInput where
  mote : Mote
  warrant : WarrantSpec
  capability : ToolName
  effectRequest : EffectRequest
  warrantRef : ContentRef
  moteDefHash : MoteDefHash
  idempotencyKey : IdempotencyKey
  parents : List ParentEntry
  idempotencyClass : Option IdempotencyClass

namespace CommitInput

variable (input : CommitInput)

def brokerCall : BrokerCall :=
  ⟨input.mote, input.warrant, input.capability, input.effectRequest⟩

-- The `seq` of an entry is assigned by the journal.

def effectStaged : EffectStaged where
  moteId := input.mote.id
  idempotencyKey := input.idempotencyKey
  seq := 0

def committed (resultRef : ContentRef) : Committed where
  moteId := input.mote.id
  idempotencyKey := input.idempotencyKey
  seq := 0
  nondeterminism := input.mote.def.ndClass
  resultRef := resultRef
  parents := input.parents
  warrantRef := input.warrantRef
  moteDefHash := input.moteDefHash

/-- A runtime decision has no diagnostic of another system to carry. -/
def failed (reasonClass : FailureReason) : Failed where
  moteId := input.mote.id
  idempotencyKey := input.idempotencyKey
  seq := 0
  reasonClass := reasonClass
  reporterId := 0
  detail := ""

end CommitInput

def enforceR11 (moteId : MoteId) (resultRef : ContentRef) :
    Prog (Except CommitProtocolError Unit) := do
  let present ← Program.call (Effect.contains resultRef)
  if !present then
    return .error (.r11ResultRefIncomplete moteId resultRef)
  let readable ← Program.call (Effect.get resultRef)
  if !readable then
    return .error (.r11ResultRefIncomplete moteId resultRef)
  return .ok ()

section Protocol

variable (input : CommitInput)

/-- Verify the result is durable, then append `Committed`: how every path to a commit ends. -/
def commitResult (resultRef : ContentRef) : Prog (Except CommitProtocolError UInt64) := do
  match ← enforceR11 input.mote.id resultRef with
  | .error err => return .error err
  | .ok () =>
    match ← Program.call (Effect.append (.committed (input.committed resultRef))) with
    | .error err => return .error (.journalAppendCommittedFailed input.mote.id err)
    | .ok written => return .ok written.seq

def dispatchAndCommit : Prog (Except CommitProtocolError UInt64) := do
  match ← Program.call (Effect.dispatch input.brokerCall) with
  | .error err => return .error (.brokerDispatchFailed input.mote.id err)
  | .ok handle => commitResult input handle.stagedRef

def commitIdempotent : Prog (Except CommitProtocolError UInt64) :=
  dispatchAndCommit input

/-- The staging is appended before the dispatch, so that recovery knows an effect may have
happened. -/
def commitStageThenCommit : Prog (Except CommitProtocolError UInt64) := do
  match ← Program.call (Effect.append (.effectStaged input.effectStaged)) with
  | .error err => return .error (.journalAppendEffectStagedFailed input.mote.id err)
  | .ok _ => dispatchAndCommit input

def commitValidateThenCommit : Prog (Except CommitProtocolError UInt64) :=
  dispatchAndCommit input

def commit : Prog (Except CommitProtocolError UInt64) :=
  match input.mote.def.effectPattern with
  | .idempotentByConstruction => commitIdempotent input
  | .stageThenCommit => commitStageThenCommit input
  | .validateThenCommit => commitValidateThenCommit input

def tryCommitFromReadback : Prog (Except CommitProtocolError (Option UInt64)) := do
  match ← Program.call (Effect.probeReadback input.brokerCall) with
  | .error err => return .error (.probeFailed input.mote.id err)
  | .ok none => return .ok none
  | .ok (some handle) =>
    let committed ← commitResult input handle.stagedRef
    return committed.map some

/-- A capability without an undo answers nothing, and the caller quarantines. -/
def tryCompensate : Prog (Except CommitProtocolError (Option UInt64)) := do
  match ← Program.call (Effect.compensate input.brokerCall) with
  | .error err => return .error (.compensateFailed input.mote.id err)
  | .ok none => return .ok none
  | .ok (some handle) =>
    match ← enforceR11 input.mote.id handle.stagedRef with
    | .error err => return .error err
    | .ok () =>
      match ← Program.call (Effect.append (.failed (input.failed .compensatedAtLeastOnce))) with
      | .error err => return .error (.internal input.mote.id err)
      | .ok written => return .ok (some written.seq)

end Protocol

end Kortecx.Executor
