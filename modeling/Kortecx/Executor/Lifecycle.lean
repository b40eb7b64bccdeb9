import Kortecx.Executor.CommitProtocol

/-!
The life of one dispatch of a Mote: the run of a PURE one, the fresh run of another, and the
re-dispatch of a staged effect after a crash. Between any two of their calls the process may
die; all that is carried over is what the journal and the content store hold.
-/

namespace Kortecx.Executor

open Lib Mote Journal Warrant

structure Host where
  ids : Identity
  warrantRefOf : WarrantSpec → ContentRef

structure MoteExecutorError where
  message : String
deriving DecidableEq

/-- An internal error keeps the text apart from the Mote or the class it names. -/
inductive LifecycleError where
  | resourceAcquire (reason : ResourceError)
  | executorRun (reason : MoteExecutorError)
  | journalAppend (context : String) (reason : JournalError)
  | commitProtocol (reason : CommitProtocolError)
  | internal (message : String) (moteId : MoteId)
  | internalClass (message : String) (got : NdClass)
deriving DecidableEq

structure LifecycleCommit where
  committedSeq : UInt64
  resultRef : ContentRef
  moteId : MoteId
deriving DecidableEq, Repr

structure WmLifecycleCommit where
  committedSeq : UInt64
  resultRef : ContentRef
  moteId : MoteId
  criticProposedSeq : Option UInt64
deriving DecidableEq, Repr

inductive RecoveryAction where
  | redispatch
  | commitFromReadback
  | compensate
  | quarantine
deriving DecidableEq, Repr

inductive WmRecoveryOutcome where
  | committed (commit : WmLifecycleCommit) (action : RecoveryAction)
  | terminallyFailed (moteId : MoteId) (failedSeq : UInt64) (action : RecoveryAction)
deriving DecidableEq, Repr

inductive RecoveryRoute where
  | probeThenRedispatch
  | compensateOrQuarantine
deriving DecidableEq, Repr

def recoveryRouteFor : Option IdempotencyClass → RecoveryRoute
  | some .atLeastOnce => .compensateOrQuarantine
  | some .token | some .readback | some .staged | none => .probeThenRedispatch

/-- What `run_wm_mote` and `redispatch_wm_mote` are called with. -/
structure WmCall where
  mote : Mote
  warrant : WarrantSpec
  capability : ToolName
  effectRequest : EffectRequest
  submissionMotes : Std.ExtTreeMap MoteId Mote := ∅

section Steps

variable (mote : Mote)

def serveIfCommitted (moteId : MoteId) :
    Prog (Except LifecycleError (Option (UInt64 × ContentRef))) := do
  match ← Program.call (Effect.readCommitted moteId) with
  | .error err => return .error (.journalAppend "read Committed (P0.4 gate)" err)
  | .ok (some (.committed c)) => return .ok (some (c.seq, c.resultRef))
  | .ok _ => return .ok none

def proposedFor (m : Mote) (warrantRef : ContentRef) : Proposed where
  moteId := m.id
  idempotencyKey := m.id.bytes
  seq := 0
  nondeterminism := m.def.ndClass
  placementHint := 0
  warrantRef := warrantRef

/-- Only a producer whose pattern is `ValidateThenCommit` has its critic proposed. -/
def scheduleSiblingCritic (submissionMotes : Std.ExtTreeMap MoteId Mote) (warrantRef : ContentRef)
    (label : String) : Prog (Except LifecycleError (Option UInt64)) :=
  if mote.def.effectPattern ≠ .validateThenCommit then
    return .ok none
  else
    match submissionMotes.toList.find? fun (_, sibling) => sibling.def.criticFor = some mote.id with
    | none => return .ok none
    | some (_, criticMote) => do
      match ← Program.call (Effect.append (.proposed (proposedFor criticMote warrantRef))) with
      | .error err => return .error (.journalAppend ("critic Proposed" ++ label) err)
      | .ok entry => return .ok (some entry.seq)

def readCommittedResultRef (moteId : MoteId) : Prog (Except LifecycleError ContentRef) := do
  match ← Program.call (Effect.readCommitted moteId) with
  | .error err => return .error (.journalAppend "read Committed" err)
  | .ok (some (.committed c)) => return .ok c.resultRef
  | .ok _ =>
    return .error (.internal "commit_protocol returned Ok but no Committed entry visible" moteId)

def releaseAndFail {α : Type} (slot : ResourceSlot) (err : LifecycleError) :
    Prog (Except LifecycleError α) := do
  let _ ← Program.call (Effect.release slot)
  return .error err

/-- What follows a commit on both paths: the critic is proposed, the result is read back
from the journal and the slot is released. -/
def settleCommitted (slot : ResourceSlot) (submissionMotes : Std.ExtTreeMap MoteId Mote)
    (warrantRef : ContentRef) (label : String) (committedSeq : UInt64) :
    Prog (Except LifecycleError WmLifecycleCommit) := do
  match ← scheduleSiblingCritic mote submissionMotes warrantRef label with
  | .error err => releaseAndFail slot err
  | .ok criticProposedSeq =>
    match ← readCommittedResultRef mote.id with
    | .error err => releaseAndFail slot err
    | .ok resultRef =>
      match ← Program.call (Effect.release slot) with
      | .error err => return .error (.resourceAcquire err)
      | .ok () => return .ok ⟨committedSeq, resultRef, mote.id, criticProposedSeq⟩

end Steps

section Pure

variable (host : Host) (mote : Mote) (warrant : WarrantSpec)

def pureCommitted (resultRef : ContentRef) : Committed where
  moteId := mote.id
  idempotencyKey := mote.id.bytes
  seq := 0
  nondeterminism := .pure
  resultRef := resultRef
  parents := []
  warrantRef := host.warrantRefOf warrant
  moteDefHash := mote.def.hash host.ids

/-- `runResult` is what the executor answers. A failed append leaves with the slot. -/
def runPureMote (runResult : Except MoteExecutorError ContentRef) :
    Prog (Except LifecycleError LifecycleCommit) := do
  if mote.ndClass ≠ .pure then
    return .error (.internalClass "PR 9a lifecycle handles PURE Motes only; got" mote.ndClass)
  match ← serveIfCommitted mote.id with
  | .error err => return .error err
  | .ok (some (committedSeq, resultRef)) => return .ok ⟨committedSeq, resultRef, mote.id⟩
  | .ok none =>
    match ← Program.call (Effect.acquire warrant.resourceCeiling) with
    | .error err => return .error (.resourceAcquire err)
    | .ok slot =>
      match runResult with
      | .error err => releaseAndFail slot (.executorRun err)
      | .ok resultRef =>
        let proposed := proposedFor mote (host.warrantRefOf warrant)
        match ← Program.call (Effect.append (.proposed proposed)) with
        | .error err => return .error (.journalAppend "Proposed" err)
        | .ok _ =>
          let committed := pureCommitted host mote warrant resultRef
          match ← Program.call (Effect.append (.committed committed)) with
          | .error err => return .error (.journalAppend "Committed" err)
          | .ok written =>
            match ← Program.call (Effect.release slot) with
            | .error err => return .error (.resourceAcquire err)
            | .ok () => return .ok ⟨written.seq, resultRef, mote.id⟩

end Pure

section Calls

variable (host : Host) (call : WmCall)

/-- The key of every entry is the Mote's id, and no parents are recorded. -/
def WmCall.commitInput (idempotencyClass : Option IdempotencyClass) : CommitInput where
  mote := call.mote
  warrant := call.warrant
  capability := call.capability
  effectRequest := call.effectRequest
  warrantRef := host.warrantRefOf call.warrant
  moteDefHash := call.mote.def.hash host.ids
  idempotencyKey := call.mote.id.bytes
  parents := []
  idempotencyClass := idempotencyClass

def runWmMote : Prog (Except LifecycleError WmLifecycleCommit) := do
  let mote := call.mote
  let warrantRef := host.warrantRefOf call.warrant
  if mote.ndClass = .pure then
    return .error (.internal "run_wm_mote handles WM/ReadOnlyNondet only; got Pure mote" mote.id)
  match ← serveIfCommitted mote.id with
  | .error err => return .error err
  | .ok (some (committedSeq, resultRef)) => return .ok ⟨committedSeq, resultRef, mote.id, none⟩
  | .ok none =>
    match ← Program.call (Effect.acquire call.warrant.resourceCeiling) with
    | .error err => return .error (.resourceAcquire err)
    | .ok slot =>
      match ← Program.call (Effect.append (.proposed (proposedFor mote warrantRef))) with
      | .error err => releaseAndFail slot (.journalAppend "WM producer Proposed" err)
      | .ok _ =>
        match ← commit (call.commitInput host none) with
        | .error err => releaseAndFail slot (.commitProtocol err)
        | .ok committedSeq =>
          settleCommitted mote slot call.submissionMotes warrantRef "" committedSeq

/-- No closing mechanism makes a second dispatch safe: undo the effect, or give the Mote
up for an operator to look at. -/
def compensateOrQuarantine (input : CommitInput) :
    Prog (Except LifecycleError WmRecoveryOutcome) := do
  match ← tryCompensate input with
  | .error err => return .error (.commitProtocol err)
  | .ok (some failedSeq) => return .ok (.terminallyFailed input.mote.id failedSeq .compensate)
  | .ok none =>
    match ← Program.call (Effect.append (.failed (input.failed .quarantinedAtLeastOnce))) with
    | .error err => return .error (.journalAppend "append Failed\x7bQuarantined\x7d" err)
    | .ok written => return .ok (.terminallyFailed input.mote.id written.seq .quarantine)

/-- Commit from readback if the probe finds the effect applied, and dispatch again if it
finds nothing. -/
def probeThenRedispatch (input : CommitInput) :
    Prog (Except CommitProtocolError (UInt64 × RecoveryAction)) := do
  match ← tryCommitFromReadback input with
  | .error err => return .error err
  | .ok (some seq) => return .ok (seq, .commitFromReadback)
  | .ok none =>
    match ← commit input with
    | .error err => return .error err
    | .ok seq => return .ok (seq, .redispatch)

/-- `oracle` answers for the projection the process was restarted with. -/
def redispatchWmMote (idempotencyClass : Option IdempotencyClass) (oracle : MoteId → Bool) :
    Prog (Except LifecycleError WmRecoveryOutcome) := do
  let mote := call.mote
  if mote.ndClass = .pure then
    return .error (.internal "redispatch_wm_mote handles WM/ReadOnlyNondet only; got Pure mote"
      mote.id)
  if !oracle mote.id then
    return .error (.commitProtocol (.r13WmReDispatchRefused mote.id
      "WmRedispatchOracle returned false (terminal_failure_observed / inconsistent / already committed / no effect_staged_observed)"))
  match ← Program.call (Effect.acquire call.warrant.resourceCeiling) with
  | .error err => return .error (.resourceAcquire err)
  | .ok slot =>
    let input := call.commitInput host idempotencyClass
    match recoveryRouteFor idempotencyClass with
    | .compensateOrQuarantine =>
      let outcome ← compensateOrQuarantine input
      let _ ← Program.call (Effect.release slot)
      return outcome
    | .probeThenRedispatch =>
      match ← probeThenRedispatch input with
      | .error err => releaseAndFail slot (.commitProtocol err)
      | .ok (committedSeq, action) =>
        let committed ← settleCommitted mote slot call.submissionMotes
          (host.warrantRefOf call.warrant) " (recovery)" committedSeq
        return committed.map fun commit => .committed commit action

end Calls

end Kortecx.Executor
