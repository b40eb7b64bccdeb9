import Kortecx.Coordinator.Settle

/-!
The commands of the coordinator: registering a run, submitting Motes, leasing work, staging
effects, reporting commits and failures, repudiating results, deciding approvals. What a
request must satisfy to become a command is part of the command's type.
-/

namespace Kortecx.Coordinator

open Lib Mote Journal Projection Warrant Std

def DEFAULT_CASCADE_CEILING : Nat := 10000

/-- A reported commit that passed its checks. -/
structure CommitProposal where
  moteId : MoteId
  idempotencyKey : IdempotencyKey
  resultRef : ContentRef
  warrantRef : ContentRef
  moteDefHash : MoteDefHash
  ndClass : NdClass
  parents : List ParentRef
  key_eq : idempotencyKey = moteId.bytes
  length_parents : parents.length ≤ MAX_PARENTS
  data_cascades : ∀ p ∈ parents, p.edge.kind = .data → p.edge.nonCascade = false

def committedEntry (p : CommitProposal) : JournalEntry :=
  .committed
    { moteId := p.moteId
      idempotencyKey := p.idempotencyKey
      seq := 0
      nondeterminism := p.ndClass
      resultRef := p.resultRef
      parents := p.parents.map ParentEntry.fromParentRef
      warrantRef := p.warrantRef
      moteDefHash := p.moteDefHash }

structure CommitApplied where
  committedSeq : UInt64
  alreadyCommitted : Bool
deriving DecidableEq, Repr

structure SubmitOutcome where
  moteId : MoteId
  duplicate : Bool
  instanceId : InstanceId
deriving DecidableEq, Repr

inductive WorkerReason where
  | deadLettered
  | executorRefused
deriving DecidableEq, Repr

def WorkerReason.toFailureReason : WorkerReason → FailureReason
  | .deadLettered => .deadLettered
  | .executorRefused => .executorRefused

inductive RepudiationError where
  | targetNotCommitted (target : MoteId)
  | cascadeTooLarge (size ceiling : Nat)
  | append (e : RecordError)
deriving DecidableEq, Repr

structure RepudiationOutcome where
  target : MoteId
  cascadeSize : Nat
deriving DecidableEq, Repr

/-- `query` stands for the commands that only read: they end a run of commits, and change
nothing. A submitted Mote is given by what its identity is derived from. -/
inductive Command where
  | submit («def» : MoteDef) (inputDataId : InputDataId) (graphPosition : GraphPosition)
      (parents : List ParentRef) (warrant : WarrantSpec) (acceptAtLeastOnce reactSeed : Bool)
  | commit (proposal : CommitProposal)
  | leaseWork (req : LeaseReq)
  | repudiate (target : MoteId) (reason : RepudiationReason) (repudiatorId : BitVec 128)
  | reportEffectStaged (moteId : MoteId) (idempotencyKey : IdempotencyKey)
  | reportFailure (moteId : MoteId) (idempotencyKey : IdempotencyKey) (reason : WorkerReason)
      (worker : WorkerId) (detail : String)
  | registerRun (recipeFingerprint : ByteVec 32)
  | grantApproval (requestId : ByteVec APPROVAL_REQUEST_ID_LEN) (approverId : UInt64)
      (reason : String)
  | denyApproval (requestId : ByteVec APPROVAL_REQUEST_ID_LEN) (denierId : UInt64) (reason : String)
  | query

inductive Reply where
  | submitted (outcome : Except CoordinatorError SubmitOutcome)
  | committed (results : List (CommitProposal × Except CoordinatorError CommitApplied))
  | leased (work : List LeasedItem × Option InstanceId)
  | repudiated (outcome : Except RepudiationError RepudiationOutcome)
  | staged (seq : Except CoordinatorError UInt64)
  | failed (outcome : Except CoordinatorError (UInt64 × Bool))
  | registered (instanceId : Except CoordinatorError InstanceId)
  | decided (recorded : Bool)
  | none

def repudiatedEntry (blake3 : List UInt8 → ByteVec 32) (target : MoteId) (targetSeq : UInt64)
    (reasonClass : RepudiationReason) (repudiatorId : BitVec 128) : JournalEntry :=
  .repudiated
    { targetMoteId := target
      idempotencyKey := repudiationIdempotencyKey blake3 target targetSeq
      seq := 0
      targetCommittedSeq := targetSeq
      reasonClass
      repudiatorId }

def committedDownstream (s : State) (target : MoteId) : List (MoteId × UInt64) :=
  (s.transitiveConsumers target).filterMap fun c => (s.committedSeqOf c).map fun seq => (c, seq)

def cascadeRepudiationEntries (blake3 : List UInt8 → ByteVec 32) (s : State) (target : MoteId)
    (reason : RepudiationReason) (repudiatorId : BitVec 128) (ceiling : Nat) :
    Except RepudiationError (List JournalEntry) :=
  match s.committedSeqOf target with
  | none => .error (.targetNotCommitted target)
  | some targetSeq =>
    let downstream := committedDownstream s target
    let size := 1 + downstream.length
    if size > ceiling then .error (.cascadeTooLarge size ceiling)
    else .ok (repudiatedEntry blake3 target targetSeq reason repudiatorId ::
      downstream.map fun (consumer, seq) =>
        repudiatedEntry blake3 consumer seq .upstreamCascade 0)

def workerReporterId (worker : WorkerId) : BitVec 128 :=
  BitVec.ofNat 128 (2 ^ 64 + worker.toNat)

def resolveForSubmit (resolve : ToolGrant → WarrantSpec → Option ResolvedTool)
    (warrant : WarrantSpec) : Option (List ResolvedTool) :=
  warrant.toolGrants.toList.mapM fun grant => resolve grant warrant

section Reports

variable {J : Backend}

def deadLetterFailure (moteId : MoteId) (idempotencyKey : IdempotencyKey)
    (reasonClass : FailureReason) (worker : WorkerId) (detail : String) :
    Coord J (Except CoordinatorError (UInt64 × Bool)) := do
  let w ← look
  if isTerminal (w.projection.stateOfId moteId) then
    edit (.resolve moteId)
    return .ok (0, false)
  if !w.dispatch.tracker.isHeldBy moteId worker then return .error (.notLeased moteId worker)
  let recorded ← recordStrict (.failed
    { moteId
      idempotencyKey
      seq := 0
      reasonClass
      reporterId := workerReporterId worker
      detail }) [Edit.expel moteId, Edit.undefine moteId, Edit.resolve moteId]
  return (recorded.map fun seq => (seq, true)).mapError .record

def stageEffect (moteId : MoteId) (idempotencyKey : IdempotencyKey) :
    Coord J (Except CoordinatorError UInt64) := do
  let recorded ← recordStrict (.effectStaged { moteId, idempotencyKey, seq := 0 }) []
  return recorded.mapError .record

/-- The registration is the first fact of a journal, or it is refused. -/
def registerRun (recipeFingerprint : ByteVec 32) : Routine J (Except CoordinatorError InstanceId) := do
  let w ← look
  match w.projection.runRegistration with
  | some run => return .ok run.instanceId
  | none =>
    if w.foldedThrough ≠ 0 then return .error .runAlreadyStarted
    let instanceId := w.outside.freshInstanceId
    let recorded ← noteStrict (.runRegistered
      { instanceId, recipeFingerprint, ts := w.outside.nowMs, seq := 0 })
    return (recorded.map fun _ => instanceId).mapError .record

/-- Whether a decision was recorded is answered without asking the append. -/
def decideApproval (requestId : ByteVec APPROVAL_REQUEST_ID_LEN) (grant : Bool)
    (operatorId : UInt64) (reason : String) : Routine J Bool := do
  let w ← look
  match w.projection.approvalLatestFor requestId with
  | none => return false
  | some r =>
    match r.state with
    | .requested .. =>
      let now := w.outside.approvalNowMs
      let reason := truncateForApproval reason
      appendApproval r.instanceId requestId r.awaitingMoteId
        (if grant then .granted operatorId reason now else .denied operatorId reason now)
      return true
    | _ => return false

def repudiateCascade (blake3 : List UInt8 → ByteVec 32) (target : MoteId)
    (reason : RepudiationReason) (repudiatorId : BitVec 128) :
    Coord J (Except RepudiationError RepudiationOutcome) := do
  let w ← look
  match cascadeRepudiationEntries blake3 w.projection target reason repudiatorId
      DEFAULT_CASCADE_CEILING with
  | .error err => return .error err
  | .ok entries =>
    let recorded ← Program.call (Effect.recordRepudiations entries)
    return (recorded.map fun _ => ⟨target, entries.length - 1⟩).mapError .append

end Reports

namespace Platform

variable (P : Platform) {J : Backend}

/-- The Mote a submission admits. A seed is replaced by turn 0 of its chain. -/
def swapSeed (outside : Outside) (instanceId : InstanceId) (seed : Mote) (warrant : WarrantSpec)
    (reactSeed : Bool) : Except CoordinatorError (Mote × Option SeedParams) :=
  if reactSeed then
    if outside.store.isNone then
      .error (.reactSeedRefused ("this coordinator has no content store; the durable ReactRound " ++
        "anchor (crash recovery) is impossible"))
    else do
      let params ← P.reactSeedParams outside.serveRequireApprovalDefault seed
      return (P.buildChainTurn seed.def.modelId params.instruction 0 instanceId
        (some seed.id.bytes) warrant.modelRoute.maxOutputTokens, some params)
  else .ok (seed, none)

/-- Register with the scheduler, and enrol; whether the scheduler had the Mote already. -/
def handleSubmit (mote : Mote) (warrant : WarrantSpec) : Routine J Bool := do
  P.persistDef mote.def
  let w ← look
  if mote.id ∈ w.scheduled then return true
  edit (.register
    { moteId := mote.id
      ndClass := mote.def.ndClass
      effectPattern := mote.def.effectPattern
      criticFor := mote.def.criticFor
      isTopologyShaper := mote.def.isTopologyShaper
      parents := mote.parents
      warrantRef := P.warrantRefOf warrant })
  edit (.schedule mote.id)
  edit (.enrol mote.id)
  edit (.define mote warrant)
  return false

def parkUnlessCommitted (shaped : Bool) (park : Park) (id : MoteId) (instanceId : InstanceId) :
    Routine J Unit := do
  let w ← look
  if shaped && w.projection.stateOfId id ≠ .committed then edit (.park park id instanceId)

/-- A launch is parked by its first submission only, the others by every one. -/
def parkSubmitted (mote : Mote) (duplicate : Bool) (instanceId : InstanceId) : Routine J Unit := do
  if isAgenticLaunch mote && !duplicate then edit (.park .launches mote.id instanceId)
  parkUnlessCommitted (isWaitStep mote) .waits mote.id instanceId
  parkUnlessCommitted (isSkipGuard mote) .guards mote.id instanceId
  parkUnlessCommitted (isPoliciedStep mote) .policied mote.id instanceId

def appendRunVersions (instanceId : InstanceId) (warrantRef : ContentRef) (modelId : String)
    (capability : Option ResolvedCapabilityRecord) : Routine J Unit := do
  let _ ← note (.runVersionsResolved { instanceId, warrantRef, modelId, capability, seq := 0 })

/-- Journal what the tools of a warrant resolved to: one record for each, and one without a
capability if there is none. -/
def captureRunVersions (instanceId : InstanceId) (warrant : WarrantSpec)
    (events : List ResolvedCapabilityRecord) : Routine J Unit :=
  let append := fun capability =>
    appendRunVersions instanceId (P.warrantRefOf warrant) warrant.modelRoute.modelId capability
  if events.isEmpty then append none
  else Program.forEach events fun event => append (some event)

/-- What a first submission leaves in the journal besides its Mote. -/
def captureSubmission (instanceId : InstanceId) (seed mote : Mote) (warrant : WarrantSpec)
    (resolution : Option (List ResolvedTool)) (params : Option SeedParams) :
    Routine J (Except CoordinatorError Unit) := do
  match resolution with
  | some tools => P.captureRunVersions instanceId warrant (tools.map (·.event))
  | none => pure ()
  let w ← look
  if mote.def.isTopologyShaper && w.outside.store.isSome then
    P.writeReplanAnchor mote.id mote.def warrant
  match params with
  | none => return .ok ()
  | some params =>
    P.writeReactAnchor instanceId (some seed.id.bytes) false
      (reactAnchorClone mote (seedAnchorCfg seed)) warrant params.maxTurns params.maxToolCalls
      params.requireApproval

/-- A shaper submitted again after it committed gives its children again. -/
def rematerialize (mote : Mote) (warrant : WarrantSpec) : Routine J Unit := do
  let w ← look
  if mote.def.isTopologyShaper && w.projection.stateOfId mote.id = .committed then
    P.materializeCommittedShaper mote.id mote.def warrant

def submitAndCapture (seed : Mote) (warrant : WarrantSpec) (acceptAtLeastOnce reactSeed : Bool) :
    Routine J (Except CoordinatorError SubmitOutcome) := do
  let w ← look
  match w.projection.runRegistration with
  | none => return .error .runNotRegistered
  | some run =>
    let resolution := resolveForSubmit w.outside.resolve warrant
    match P.validateMoteSubmission seed acceptAtLeastOnce
        (resolution.map fun tools => tools.map (·.idempotencyClass)) with
    | some refusal => return .error (.submissionRefused refusal)
    | none =>
      match P.swapSeed w.outside run.instanceId seed warrant reactSeed with
      | .error err => return .error err
      | .ok (mote, params) =>
        let duplicate ← P.handleSubmit mote warrant
        if !reactSeed then parkSubmitted mote duplicate run.instanceId
        let captured ← if duplicate then pure (.ok ())
          else P.captureSubmission run.instanceId seed mote warrant resolution params
        match captured with
        | .error err => return .error err
        | .ok () =>
          P.rematerialize mote warrant
          return .ok ⟨mote.id, duplicate, run.instanceId⟩

/-- What refuses a proposal: it was never admitted, or its result was never published. -/
def refusal (w : Core J) (p : CommitProposal) : Option CoordinatorError :=
  if p.moteId ∉ w.dispatch.submitted then some (.unknownMote p.moteId)
  else if w.outside.store.any fun store => !store.contains p.resultRef then
    some (.resultRefAbsent p.moteId)
  else none

/-- A committed shaper gives its children; then the Mote is no longer tracked. -/
def finishCommit (id : MoteId) : Routine J Unit := do
  let w ← look
  match w.dispatch.defs[id]? with
  | some (m, warrant) =>
    if m.def.isTopologyShaper then P.materializeCommittedShaper id m.def warrant
  | none => pure ()
  edit (.undefine id)
  edit (.resolve id)

def flushCommits (pending : List CommitProposal) :
    Coord J (List (CommitProposal × Except CoordinatorError CommitApplied)) := do
  let w ← look
  let refused := pending.filterMap fun p => (refusal w p).map fun err => (p, .error err)
  let admitted := pending.filter fun p => (refusal w p).isNone
  if admitted.isEmpty then return refused
  match ← Program.call (Effect.recordCommits (admitted.map committedEntry)) with
  | .error err => return refused ++ admitted.map fun p => (p, .error (.commitFailed err))
  | .ok applied =>
    routine (Program.forEach (admitted.map (·.moteId)) P.finishCommit)
    return refused ++ (admitted.zip applied).map fun (p, seq, isNew) => (p, .ok ⟨seq, !isNew⟩)

/-- A `commit` does not come here: the loop collects it for the next flush. -/
def handleCommand : Command → Coord J Reply
  | .submit d inputDataId graphPosition parents warrant acceptAtLeastOnce reactSeed => do
    let seed := Mote.new P.ids d inputDataId graphPosition parents
    return .submitted (← routine (P.submitAndCapture seed warrant acceptAtLeastOnce reactSeed))
  | .commit _ => return .none
  | .leaseWork req => do return .leased (← P.serveLease req)
  | .repudiate target reason repudiatorId => do
    return .repudiated (← repudiateCascade P.ids.blake3 target reason repudiatorId)
  | .reportEffectStaged moteId idempotencyKey => do
    return .staged (← stageEffect moteId idempotencyKey)
  | .reportFailure moteId idempotencyKey reason worker detail => do
    return .failed (← deadLetterFailure moteId idempotencyKey reason.toFailureReason worker detail)
  | .registerRun recipeFingerprint => do
    return .registered (← routine (registerRun recipeFingerprint))
  | .grantApproval requestId approverId reason => do
    return .decided (← routine (decideApproval requestId true approverId reason))
  | .denyApproval requestId denierId reason => do
    return .decided (← routine (decideApproval requestId false denierId reason))
  | .query => return .none

end Platform

end Kortecx.Coordinator
