import Kortecx.Coordinator.React

/-!
The steps the coordinator settles itself, after each batch of commands: launches of model
loops, waits, steps inside a conditional, and steps with a failure policy. A parked step
whose parents have committed is driven on; one that lost a parent is given up.
-/

namespace Kortecx.Coordinator

open Lib Mote Journal Projection Warrant

/-- What the failure policy of a step says, once the step is known to have one. -/
inductive FailureMode where
  | retry
  | continue
deriving DecidableEq, Repr

def failureMode (launch : Mote) : Option FailureMode :=
  match launch.def.configSubset[FAILURE_MODE_KEY]? with
  | none => none
  | some mode =>
    if mode = utf8Bytes "retry" then some .retry
    else if mode = utf8Bytes "continue" then some .continue
    else none

def maxAttempts (launch : Mote) : Nat :=
  max 1 (min 16 (configU64 launch RETRY_MAX_KEY 3).toNat)

def retryBackoffMs (launch : Mote) : UInt64 :=
  configU64 launch RETRY_BACKOFF_MS_KEY 1000

/-- When attempt `n` is due if its backoff starts now. -/
def backoffFireAt (nowMs : UInt64) (launch : Mote) (n : Nat) : UInt64 :=
  saturatingAdd nowMs (saturatingMul (retryBackoffMs launch) (UInt64.ofNat (2 ^ (n - 2))))

def waitedDescriptor (wait : Mote) : List UInt8 :=
  let delay := ((wait.def.configSubset[WAIT_DELAY_MS_KEY]?).bind decodeUtf8).getD "0"
  utf8Bytes ("\x7b\"waited_ms\":" ++ delay ++ "\x7d")

section Parked

variable {J : Backend}

/-- Commit a step the coordinator settles. The loop over the due waits does the same. -/
def synthCommitSubject (P : Platform) (m : Mote) (warrant : WarrantSpec) (resultRef : ContentRef) :
    Coord J Unit := do
  let _ ← record (P.synthesizedCommit m warrant resultRef)
    [Edit.expel m.id, Edit.undefine m.id, Op.disarm m.id, Edit.resolve m.id]

def deadLetterParkedWait (waitId : MoteId) : Coord J Unit := do
  let _ ← record (deadLetterEntry waitId)
    [Edit.expel waitId, Edit.undefine waitId, Edit.unpark .waits waitId, Op.disarm waitId,
      Edit.resolve waitId]

def attemptMinted (w : Core J) (attempt : MoteId) : Bool :=
  attempt ∈ w.dispatch.submitted || w.dispatch.defs.contains attempt ||
    (w.projection.resultRefOf attempt).isSome

def backoffTimer (s : State) (launchId : MoteId) (n : Nat) : Option TimerRecord :=
  s.timers.find? fun t => t.subjectMoteId = launchId ∧ t.purpose = 1 ∧ t.attempt = UInt32.ofNat n

end Parked

namespace Platform

variable (P : Platform) {J : Backend}

def anchorLaunch (launchId : MoteId) (instanceId : InstanceId) (launch : Mote)
    (warrant : WarrantSpec) : Coord J Unit := do
  let w ← look
  match P.reactSeedParams w.outside.serveRequireApprovalDefault launch with
  | .error _ =>
    deadLetterAgenticLaunch launchId
    edit (.unpark .launches launchId)
  | .ok params =>
    let turn0 := P.buildChainTurn launch.def.modelId params.instruction 0 instanceId
      (some launchId.bytes) warrant.modelRoute.maxOutputTokens
    match ← routine (P.writeReactAnchor instanceId (some launchId.bytes) true turn0 warrant
        params.maxTurns params.maxToolCalls params.requireApproval) with
    | .error _ => return
    | .ok () =>
      routine (P.materializeReactTurn turn0 (P.warrantRefOf warrant) warrant)
      edit (.unpark .launches launchId)

def settleAgenticLaunch (launchId : MoteId) (instanceId : InstanceId) : Coord J Unit := do
  let w ← look
  match w.dispatch.defs[launchId]? with
  | none => edit (.unpark .launches launchId)
  | some (launch, warrant) =>
    if w.projection.stateOfId launchId ≠ .pending then
      return ← edit (.unpark .launches launchId)
    match parentGate w.projection launch.parents with
    | .blocked _ =>
      deadLetterAgenticLaunch launchId
      edit (.unpark .launches launchId)
    | .waiting => return
    | .satisfied =>
      if (w.projection.reactRoundsOf instanceId (some launchId.bytes)).any fun r =>
          r.turn = 0 then
        edit (.unpark .launches launchId)
      else P.anchorLaunch launchId instanceId launch warrant

def settleAgenticLaunches : Coord J Unit := do
  let w ← look
  if w.outside.store.isNone then return
  Program.forEach (w.dispatch.parked .launches).toList fun (launchId, instanceId) =>
    P.settleAgenticLaunch launchId instanceId

def armWait (waitId : MoteId) (instanceId : InstanceId) (wait : Mote) : Coord J Unit := do
  let w ← look
  match (wait.def.configSubset[WAIT_DELAY_MS_KEY]?).bind parseU64 with
  | none => deadLetterParkedWait waitId
  | some delayMs =>
    let fireAt := saturatingAdd w.outside.nowMs delayMs
    let _ ← record (.timerArmed
      { instanceId
        subjectMoteId := waitId
        purpose := 0
        attempt := 0
        fireAtUnixMs := fireAt
        anchorRef := ⟨(wait.def.hash P.ids).bytes⟩
        seq := 0 }) [Op.arm waitId ⟨fireAt, 0, 0⟩, Edit.unpark .waits waitId]

def settleWaitStep (waitId : MoteId) (instanceId : InstanceId) : Coord J Unit := do
  let w ← look
  match w.dispatch.defs[waitId]? with
  | none => edit (.unpark .waits waitId)
  | some (wait, _) =>
    if w.projection.stateOfId waitId ≠ .pending then
      return ← edit (.unpark .waits waitId)
    match w.projection.timers.find? fun t => t.subjectMoteId = waitId with
    | some rec =>
      update (.arm waitId ⟨rec.fireAtUnixMs, rec.purpose, rec.attempt⟩)
      edit (.unpark .waits waitId)
    | none =>
      match parentGate w.projection wait.parents with
      | .blocked _ => deadLetterParkedWait waitId
      | .waiting => return
      | .satisfied => P.armWait waitId instanceId wait

def settleWaitSteps : Coord J Unit := do
  let w ← look
  Program.forEach (w.dispatch.parked .waits).toList fun (waitId, instanceId) =>
    P.settleWaitStep waitId instanceId

def skipGuard (guardId : MoteId) (m : Mote) (warrant : WarrantSpec) : Coord J Unit := do
  let w ← look
  if w.outside.store.isNone then return
  match ← put COND_SKIP_SENTINEL with
  | none => return
  | some resultRef =>
    synthCommitSubject P m warrant resultRef
    edit (.unpark .guards guardId)

def settleSkipGuard (guardId : MoteId) : Coord J Unit := do
  let w ← look
  match w.dispatch.defs[guardId]? with
  | none => edit (.unpark .guards guardId)
  | some (m, warrant) =>
    if w.projection.stateOfId guardId ≠ .pending then
      return ← edit (.unpark .guards guardId)
    match parentGate w.projection m.parents with
    | .blocked _ =>
      deadLetterParkedWait guardId
      edit (.unpark .guards guardId)
    | .waiting => return
    | .satisfied =>
      match skipGuardVerdict P m w.projection w.outside.store with
      | .run => edit (.unpark .guards guardId)
      | .undecided => return
      | .skip => P.skipGuard guardId m warrant

def settleSkipGuards : Coord J Unit := do
  let w ← look
  Program.forEach ((w.dispatch.parked .guards).toList.map (·.1)) P.settleSkipGuard

def mintAttempt (launch : Mote) (warrant : WarrantSpec) (n : UInt32) : Routine J Unit :=
  P.materializeReactTurn (P.attemptMote launch n) (P.warrantRefOf warrant) warrant

/-- Start the backoff of attempt `n ≥ 2`, or take up the one the journal has. -/
def armBackoff (launchId : MoteId) (instanceId : InstanceId) (launch : Mote) (n : Nat) :
    Coord J Unit := do
  let w ← look
  match backoffTimer w.projection launchId n with
  | some rec => update (.arm launchId ⟨rec.fireAtUnixMs, 1, UInt32.ofNat n⟩)
  | none =>
    let fireAt := backoffFireAt w.outside.nowMs launch n
    let _ ← record (.timerArmed
      { instanceId
        subjectMoteId := launchId
        purpose := 1
        attempt := UInt32.ofNat n
        fireAtUnixMs := fireAt
        anchorRef := ⟨(launch.def.hash P.ids).bytes⟩
        seq := 0 }) [.arm launchId ⟨fireAt, 1, UInt32.ofNat n⟩]

/-- Walk the attempts from `n` on, `fuel` of them: whether one of them decided what
happens. A spent attempt leaves the decision to the next. -/
def climb (launchId : MoteId) (instanceId : InstanceId) (launch : Mote) (warrant : WarrantSpec) :
    (fuel n : Nat) → Coord J Bool
  | 0, _ => return false
  | fuel + 1, n => do
    let w ← look
    let a := P.attemptMote launch (UInt32.ofNat n)
    match w.projection.stateOfId a.id with
    | .committed =>
      match w.projection.resultRefOf a.id with
      | none => return true
      | some resultRef =>
        synthCommitSubject P launch warrant resultRef
        edit (.unpark .policied launchId)
        return true
    | .failed => climb launchId instanceId launch warrant fuel (n + 1)
    | .inconsistent => climb launchId instanceId launch warrant fuel (n + 1)
    | .repudiated => climb launchId instanceId launch warrant fuel (n + 1)
    | .pending | .scheduled =>
      if attemptMinted w a.id then return true
      if n = 1 then
        routine (P.mintAttempt launch warrant 1)
        return true
      P.armBackoff launchId instanceId launch n
      return true

/-- Every attempt is spent. -/
def exhausted (launchId : MoteId) (launch : Mote) (warrant : WarrantSpec) (mode : FailureMode) :
    Coord J Unit := do
  match mode with
  | .retry =>
    deadLetterParkedWait launchId
    edit (.unpark .policied launchId)
  | .continue =>
    let w ← look
    if w.outside.store.isNone then return
    match ← put CONTINUE_FAILED_SENTINEL with
    | none => return
    | some resultRef =>
      synthCommitSubject P launch warrant resultRef
      edit (.unpark .policied launchId)

def settlePoliciedStep (launchId : MoteId) (instanceId : InstanceId) : Coord J Unit := do
  let w ← look
  match w.dispatch.defs[launchId]? with
  | none => edit (.unpark .policied launchId)
  | some (launch, warrant) =>
    if w.projection.stateOfId launchId ≠ .pending then
      return ← edit (.unpark .policied launchId)
    match parentGate w.projection launch.parents with
    | .blocked _ =>
      deadLetterParkedWait launchId
      edit (.unpark .policied launchId)
    | .waiting => return
    | .satisfied =>
      match failureMode launch with
      | none =>
        deadLetterParkedWait launchId
        edit (.unpark .policied launchId)
      | some mode =>
        let settled ← P.climb launchId instanceId launch warrant (maxAttempts launch) 1
        if settled then return
        P.exhausted launchId launch warrant mode

def settlePoliciedSteps : Coord J Unit := do
  let w ← look
  Program.forEach (w.dispatch.parked .policied).toList fun (launchId, instanceId) =>
    P.settlePoliciedStep launchId instanceId

def fireBackoff (launchId : MoteId) (attempt : UInt32) : Coord J Unit := do
  update (.disarm launchId)
  let w ← look
  if w.projection.stateOfId launchId ≠ .pending then return
  match w.dispatch.defs[launchId]? with
  | none => return
  | some (launch, warrant) => routine (P.mintAttempt launch warrant attempt)

/-- The result a wait passes on, if it has one data parent and that parent one. -/
def waitPassThrough (s : State) (wait : Mote) : Option ContentRef :=
  match (wait.parents.filter fun p => p.edge.kind = .data) with
  | [p] => s.resultRefOf p.parentId
  | _ => none

def fireWait (waitId : MoteId) : Coord J Unit := do
  let w ← look
  if w.projection.stateOfId waitId ≠ .pending then
    return ← update (.disarm waitId)
  match w.dispatch.defs[waitId]? with
  | none => return
  | some (wait, warrant) =>
    match waitPassThrough w.projection wait with
    | some resultRef => synthCommitSubject P wait warrant resultRef
    | none =>
      if w.outside.store.isNone then return
      match ← put (waitedDescriptor wait) with
      | none => return
      | some resultRef => synthCommitSubject P wait warrant resultRef

def fireDueTimers : Coord J Unit := do
  let w ← look
  let due := w.dispatch.armedTimers.toList.filter fun (_, timer) =>
    timer.fireAtUnixMs ≤ w.outside.nowMs
  Program.forEach (due.filter fun (_, timer) => timer.purpose = 1) fun (launchId, timer) =>
    P.fireBackoff launchId timer.attempt
  Program.forEach (due.filter fun (_, timer) => timer.purpose = 0) fun (waitId, _) =>
    P.fireWait waitId

def runSettlePasses : Coord J Unit := do
  routine P.settleReplanRounds
  P.settleAgenticLaunches
  P.settleWaitSteps
  P.settleSkipGuards
  P.settlePoliciedSteps
  P.fireDueTimers
  routine P.settleRerankRounds
  routine P.settleChatRagReranks
  P.settleReactRounds

end Platform

end Kortecx.Coordinator
