import Kortecx.Coordinator.Lease

/-!
The chains of model turns and tool calls. A chain is anchored by a journal entry for its
turn 0; every decision about a turn is frozen by a further entry, and everything else is
derived from these entries again. A chain launched for a step of the workflow commits or
fails that step when it ends.
-/

namespace Kortecx.Coordinator

open Lib Mote Journal Projection Warrant

def REACT_MAX_TURNS : UInt32 := 32
def REACT_DEFAULT_MAX_TURNS : UInt32 := 16
def REACT_MAX_TOOL_CALLS : UInt32 := 20
def REACT_DEFAULT_MAX_TOOL_CALLS : UInt32 := 20

inductive ReactChainStatus where
  | active
  | settled
deriving DecidableEq, Repr

inductive ApprovalGate where
  | proceed
  | wait
  | deadLetter
deriving DecidableEq, Repr

inductive CallProgress where
  | landed
  | outstanding
  | stop (status : ReactChainStatus)
deriving DecidableEq, Repr

/-- What a chain is started with. -/
structure SeedParams where
  instruction : String
  maxTurns : UInt32
  maxToolCalls : UInt32
  requireApproval : Bool

/-- The calls a branch counts against the budget. A refused proposal counts as one. -/
def callsSpent : ReactBranch → Nat
  | .tool .. | .rejected _ => 1
  | .toolBatch calls => calls.length
  | _ => 0

def toolCallsOf (rounds : List ReactRoundRecord) : UInt32 :=
  u32OfNat (rounds.map fun r => callsSpent r.branch).sum

def saturatingSucc (n : UInt32) : UInt32 :=
  if n.toNat + 1 < 2 ^ 32 then n + 1 else n

def latestOfTurn (rounds : List ReactRoundRecord) (turn : UInt32) : Option ReactRoundRecord :=
  lastMaxBy (fun a b => compare a.seq b.seq) (rounds.filter fun r => r.turn = turn)

def rejectReason : ReactBranch → Option String
  | .rejected reason => some reason
  | _ => none

def chainIsAgenticLaunch (s : State) (chain : ChainKey) : Bool :=
  (reactAnchorOf s chain).any (·.isAgenticLaunch)

def toolNeedsApproval : Option IdempotencyClassTag → Bool
  | some .staged | some .atLeastOnce => true
  | _ => false

def crashRetryable (s : State) (id : MoteId) : Bool :=
  s.stateOfId id = .failed && (s.failureReasonOf id).all isPreCommitCrash

/-- The keys a turn 0 takes over from its seed for the anchor only. -/
def REACT_ANCHOR_BOUND_KEYS : List ConfigKey := [IMAGE_REF_KEY, CONTEXT_ITEMS_KEY]

def seedAnchorCfg (seed : Mote) : List (ConfigKey × ConfigVal) :=
  REACT_ANCHOR_BOUND_KEYS.filterMap fun key =>
    (seed.def.configSubset[key]?).map fun value => (key, value)

def reactAnchorClone (dispatched : Mote) (anchorCfg : List (ConfigKey × ConfigVal)) : Mote :=
  { dispatched with «def» := { dispatched.def with
      configSubset := anchorCfg.foldl (fun cfg (key, value) => cfg.insert key value)
        dispatched.def.configSubset } }

section Facts

variable {J : Backend}

def appendApproval (instanceId : InstanceId) (requestId : ByteVec APPROVAL_REQUEST_ID_LEN)
    (awaitingMoteId : MoteId) (state : ApprovalState) : Routine J Unit := do
  let _ ← note (.approval { instanceId, requestId, awaitingMoteId, state, seq := 0 })

def appendReactBranch (anchor : ReactRoundRecord) (turnMoteId : MoteId) (turn : UInt32)
    (branch : ReactBranch) (hbranch : branch.Readable) : Routine J Unit := do
  let w ← look
  if (w.projection.reactRoundsOf anchor.instanceId anchor.stepSalt).any fun r =>
      r.turn = turn ∧ r.branch = branch then
    return
  let _ ← note (.reactRound { anchor with turn, turnMoteId, branch, seq := 0 } hbranch)

def commitAgenticLaunch (P : Platform) (launch : Mote) (warrant : WarrantSpec)
    (resultRef : ContentRef) : Coord J Unit := do
  let _ ← record (P.synthesizedCommit launch warrant resultRef)
    [Edit.expel launch.id, Edit.undefine launch.id, Edit.unpark .launches launch.id,
      Edit.resolve launch.id]

def deadLetterAgenticLaunch (launchId : MoteId) : Coord J Unit := do
  let _ ← record (deadLetterEntry launchId)
    [Edit.expel launchId, Edit.undefine launchId, Edit.unpark .launches launchId,
      Edit.resolve launchId]

end Facts

namespace Platform

variable (P : Platform) {J : Backend}

def textParam (seed : Mote) (key : ConfigKey) : Option String := do
  let raw ← seed.def.configSubset[key]?
  (P.jsonString raw).or (decodeUtf8 raw)

def capParam (seed : Mote) (key : ConfigKey) (fallback : UInt32) : Except CoordinatorError UInt32 :=
  match seed.def.configSubset[key]? with
  | none => .ok fallback
  | some v =>
    match P.jsonU32 v with
    | some n => .ok n
    | none => .error (.reactSeedRefused
        "a react budget cap is not a canonical-JSON unsigned integer")

def reactSeedParams (requireApprovalDefault : Bool) (seed : Mote) :
    Except CoordinatorError SeedParams := do
  let instruction ← match (P.textParam seed PROMPT_KEY).or (P.textParam seed REACT_INSTRUCTION_KEY) with
    | some instruction => .ok instruction
    | none => .error (.reactSeedRefused "the seed Mote carries no utf-8 instruction prompt")
  let maxTurns ← P.capParam seed REACT_MAX_TURNS_KEY REACT_DEFAULT_MAX_TURNS
  let maxToolCalls ← P.capParam seed REACT_MAX_TOOL_CALLS_KEY REACT_DEFAULT_MAX_TOOL_CALLS
  if maxTurns = 0 ∨ maxTurns > REACT_MAX_TURNS ∨ maxToolCalls = 0 ∨
      maxToolCalls > REACT_MAX_TOOL_CALLS then
    .error (.reactSeedRefused
      "react budget caps must satisfy 0 < max_turns <= 32 AND 0 < max_tool_calls <= 20")
  let requireApproval ← match seed.def.configSubset[REACT_REQUIRE_APPROVAL_KEY]? with
    | none => .ok requireApprovalDefault
    | some v =>
      match P.jsonBool v with
      | some b => .ok b
      | none => .error (.reactSeedRefused
          "the react require_approval posture is not a canonical-JSON boolean")
  return { instruction, maxTurns, maxToolCalls, requireApproval }

def anchorImageRef (turn0 : Mote) : Except CoordinatorError (Option ContentRef) :=
  match turn0.def.configSubset[IMAGE_REF_KEY]? with
  | none => .ok none
  | some v =>
    match P.contentRefFromArg v with
    | some ref => .ok (some ref)
    | none => .error (.reactSeedRefused "image_ref must be a (JSON or raw) string of 64 hex chars")

def stageContextItems (turn0 : Mote) : Reading J (Except CoordinatorError (Option ContentRef)) :=
  match turn0.def.configSubset[CONTEXT_ITEMS_KEY]? with
  | none => return .ok none
  | some items => do
    match ← put items with
    | some ref => return .ok (some ref)
    | none => return .error (.reactSeedRefused
        "content store fault while staging the react context bundle")

def writeReactAnchor (instanceId : InstanceId) (stepSalt : Option (ByteVec 32))
    (isAgenticLaunch : Bool) (turn0 : Mote) (warrant : WarrantSpec) (maxTurns maxToolCalls : UInt32)
    (requireApproval : Bool) : Routine J (Except CoordinatorError Unit) := do
  let w ← look
  if (w.projection.reactRoundsOf instanceId stepSalt).any fun r => r.turn = 0 then return .ok ()
  match turn0.def.configSubset[PROMPT_KEY]? with
  | none => return .error (.reactSeedRefused "turn 0 carries no instruction prompt")
  | some instruction =>
    let baseRef ← put instruction
    let warrantRef ← put (P.encodeWarrant warrant)
    match baseRef, warrantRef with
    | some baseRef, some warrantRef =>
      match ← reading (stageContextItems turn0) with
      | .error err => return .error err
      | .ok contextItemsRef =>
        match P.anchorImageRef turn0 with
        | .error err => return .error err
        | .ok imageRef =>
          let recorded ← noteStrict (.reactRound
            { turn := 0
              turnMoteId := turn0.id
              instanceId
              basePromptRef := baseRef
              warrantRef
              modelId := turn0.def.modelId
              branch := .pending
              maxTurns
              maxToolCalls
              stepSalt
              isAgenticLaunch
              contextItemsRef
              imageRef
              requireApproval
              seq := 0 } trivial)
          return (recorded.map fun _ => ()).mapError .record
    | _, _ => return .error (.reactSeedRefused "content store fault while writing the react anchor")

/-- The calls fired on earlier turns, decoded again from what the turns committed. -/
def collectPriorFiredCalls (s : State) (store : Store) (rounds : List ReactRoundRecord)
    (thisTurn : UInt32) (warrant : WarrantSpec) : List ToolCall :=
  let fired := rounds.filter fun r => r.turn < thisTurn && firesTool r.branch
  let latest := (fired.foldl keepLatest []).mergeSort fun a b => a.turn ≤ b.turn
  latest.flatMap fun r =>
    match (s.resultRefOf r.turnMoteId).bind store.get with
    | none => []
    | some raw =>
      match P.parseToolCalls raw warrant (P.maxArgsBytes warrant) with
      | .ok calls => calls
      | .error _ => []

/-- Check the proposed calls one after the other; the first that fails is the reason to
refuse them all. -/
def validateCalls (lookup : ToolName → ToolVersion → Option ToolDef) :
    List ToolCall → Except String (List (String × String))
  | [] => .ok []
  | call :: calls =>
    match lookup call.name call.version with
    | none => .error ("the proposed tool `" ++ call.name ++ "@" ++ call.version ++
        "` is not granted to this run or is no longer registered")
    | some tool =>
      match tool.validateArgs.bind (· call.argsBytes) with
      | some error => .error ("the arguments for `" ++ call.name ++ "@" ++ call.version ++
          "` do not match its inputSchema: " ++ error ++ ". Expected this shape: " ++
          tool.exampleArgsJson)
      | none =>
        match validateCalls lookup calls with
        | .error reason => .error reason
        | .ok rest => .ok ((call.name, call.version) :: rest)

def settleCallsToBranch (calls : List ToolCall) (raw : List UInt8) (warrant : WarrantSpec)
    (lookup : ToolName → ToolVersion → Option ToolDef) : ReactBranch :=
  if calls.isEmpty then
    if P.looksLikeAnAttemptedToolCall raw warrant then
      .rejected (boundedReason P.unreadableToolCallReason)
    else if P.answerIsAContinuation raw warrant then
      .rejected (boundedReason P.continuationAnswerReason)
    else .answer
  else
    match validateCalls lookup calls with
    | .error reason => .rejected (boundedReason reason)
    | .ok [(toolId, toolVersion)] => .tool toolId toolVersion
    | .ok validated =>
      if validated.length > MAX_TOOL_BATCH_CALLS then
        .rejected (boundedReason ("the model proposed " ++ toString validated.length ++
          " tool calls in one turn, exceeding the per-turn batch cap of " ++
          toString MAX_TOOL_BATCH_CALLS))
      else .toolBatch validated

def decodeErrorReason : ToolCallError → String
  | .malformed diagnostic => "the tool proposal was malformed: " ++ diagnostic
  | .ungrantedTool name version =>
    "the proposed tool `" ++ name ++ "@" ++ version ++ "` is not granted to this run"
  | .ambiguous name candidates =>
    "the tool name `" ++ name ++ "` is ambiguous — use the full id: " ++
      String.intercalate " OR " candidates
  | .oversize got max =>
    "the proposed tool arguments are too large (" ++ toString got ++ " bytes > " ++
      toString max ++ " max)"

/-- The branch a committed turn freezes. A single call that repeats an earlier one is
refused. -/
def branchOfTurn (s : State) (store : Store) (lookup : ToolName → ToolVersion → Option ToolDef)
    (rounds : List ReactRoundRecord) (turn : UInt32) (warrant : WarrantSpec) (raw : List UInt8) :
    ReactBranch :=
  match P.parseToolCalls raw warrant (P.maxArgsBytes warrant) with
  | .error error => .rejected (boundedReason (decodeErrorReason error))
  | .ok calls =>
    match calls with
    | [call] =>
      if P.isDuplicateCall call (P.collectPriorFiredCalls s store rounds turn warrant) then
        .rejected (boundedReason (P.duplicateCallReason call))
      else P.settleCallsToBranch [call] raw warrant lookup
    | _ => P.settleCallsToBranch calls raw warrant lookup

theorem readable_settleCallsToBranch (calls : List ToolCall) (raw : List UInt8)
    (warrant : WarrantSpec) (lookup : ToolName → ToolVersion → Option ToolDef) :
    (P.settleCallsToBranch calls raw warrant lookup).Readable := by
  unfold settleCallsToBranch
  split_ifs
  · trivial
  · trivial
  · trivial
  split
  · trivial
  · trivial
  split_ifs with hcap
  · trivial
  · exact Nat.le_of_not_lt hcap

theorem readable_branchOfTurn (s : State) (store : Store)
    (lookup : ToolName → ToolVersion → Option ToolDef) (rounds : List ReactRoundRecord)
    (turn : UInt32) (warrant : WarrantSpec) (raw : List UInt8) :
    (P.branchOfTurn s store lookup rounds turn warrant raw).Readable := by
  unfold branchOfTurn
  split
  · trivial
  split
  · split_ifs
    · trivial
    · exact P.readable_settleCallsToBranch ..
  · exact P.readable_settleCallsToBranch ..

def approvalGateDecision (anchor : ReactRoundRecord) (obsId : MoteId) (toolId toolVersion : String) :
    Routine J ApprovalGate := do
  let w ← look
  let requestId := P.approvalRequestId anchor.instanceId obsId
  match w.projection.approvalLatestFor requestId with
  | some approval =>
    match approval.state with
    | .granted .. => return .proceed
    | .denied .. => return .deadLetter
    | .expired .. => return .deadLetter
    | .requested .. => return .wait
  | none =>
    let intent := "world-mutating tool call: " ++ toolId ++ "@" ++ toolVersion
    appendApproval anchor.instanceId requestId obsId
      (.requested toolId toolVersion (truncateForApproval intent) 0 w.outside.approvalNowMs)
    return .wait

def advanceReactChain (anchor : ReactRoundRecord) (rounds : List ReactRoundRecord) (turn : UInt32) :
    Routine J ReactChainStatus := do
  if rounds.any fun r => r.turn = turn + 1 then return .active
  let toolCalls := toolCallsOf rounds
  let turnsUsed := saturatingSucc turn
  let prevRound := latestOfTurn rounds turn
  let prevReject := prevRound.bind fun r => rejectReason r.branch
  if toolCalls ≥ anchor.maxToolCalls ∨ turnsUsed ≥ anchor.maxTurns then
    match prevRound with
    | none => return .settled
    | some r =>
      match r.branch with
      | .rejected _ | .tool .. | .toolBatch _ =>
        appendReactBranch anchor r.turnMoteId turn .deadLettered trivial
        return .settled
      | _ => return .settled
  let w ← look
  match w.outside.store.bind fun store => store.get anchor.basePromptRef with
  | none => return .active
  | some baseBytes =>
    match decodeUtf8 baseBytes with
    | none => return .settled
    | some instruction =>
      match w.outside.store.bind fun store =>
          (store.get anchor.warrantRef).bind P.decodeWarrant with
      | none => return .active
      | some warrant =>
        let nearBudget := decide (saturatingSucc toolCalls ≥ anchor.maxToolCalls ∨
          saturatingSucc turnsUsed ≥ anchor.maxTurns)
        let rendered := P.renderTurnInstruction instruction prevReject nearBudget
        let next := P.buildChainTurn anchor.modelId rendered (turn + 1) anchor.instanceId
          anchor.stepSalt warrant.modelRoute.maxOutputTokens
        appendReactBranch anchor next.id (turn + 1) .pending trivial
        P.materializeReactTurn next anchor.warrantRef warrant
        return .active

/-- Anchor the rerank of a retrieval and make its Mote; then the chain waits for it. -/
def startRerank (anchor : ReactRoundRecord) (warrant : WarrantSpec) (rerankMote : Mote)
    (obsRef queryRef : ContentRef) (count : Nat) : Routine J (Option ReactChainStatus) := do
  let w ← look
  match rerankOutcomeOf w.projection rerankMote.id with
  | none =>
    match ← writeRerankAnchor rerankMote anchor.instanceId obsRef queryRef anchor.warrantRef
        (u32OfNat count) with
    | .error _ => return none
    | .ok () =>
      P.materializeReactTurn rerankMote anchor.warrantRef warrant
      return some .active
  | some .pending => return some .active
  | some (.reranked _) => return none
  | some .failedClosed => return none

/-- Before a chain goes on after a retrieval, the passages may be reranked. -/
def maybeGateOnRerank (anchor : ReactRoundRecord) (turn : UInt32) (turnMoteId : MoteId)
    (calls : List (String × String)) : Routine J (Option ReactChainStatus) := do
  let w ← look
  if !w.outside.serveLlmRerankEnabled then return none
  let obsRef := (calls.findIdx? fun (id, ver) => id = "retrieve" ∧ ver = "1").bind fun i =>
    w.projection.resultRefOf (P.buildChainTool anchor.modelId "retrieve" "1" turn
      anchor.instanceId anchor.stepSalt (u32OfNat i) turnMoteId).id
  match obsRef, w.outside.store with
  | some obsRef, some store =>
    match (store.get obsRef).bind P.retrieveQueryAndCount with
    | none => return none
    | some (query, n) =>
      if n < 2 then return none
      match ← put (utf8Bytes query) with
      | none => return none
      | some queryRef =>
        let w ← look
        match w.outside.store.bind fun store =>
            (store.get anchor.warrantRef).bind P.decodeWarrant with
        | none => return none
        | some warrant =>
          let rerankMote := P.buildRerankTurn anchor.modelId anchor.instanceId obsRef
            queryRef warrant.modelRoute.maxOutputTokens
          P.startRerank anchor warrant rerankMote obsRef queryRef n
  | _, _ => return none

section Batch

variable (anchor : ReactRoundRecord) (warrant : WarrantSpec) (turn : UInt32) (turnMoteId : MoteId)

/-- Whether an operator's approval of the call is outstanding. -/
def approvalBarrier (obsId : MoteId) (toolId toolVersion : String) : Routine J ApprovalGate := do
  let w ← look
  if anchor.requireApproval &&
      toolNeedsApproval ((w.outside.lookup toolId toolVersion).map (·.idempotencyClass)) then
    P.approvalGateDecision anchor obsId toolId toolVersion
  else return .proceed

/-- A call that can never be given its arguments: the chain ends, the call is retired. -/
def retireObservation (obsId : MoteId) : Routine J CallProgress := do
  appendReactBranch anchor turnMoteId turn .deadLettered trivial
  edit (.expel obsId)
  edit (.undefine obsId)
  edit (.resolve obsId)
  return .stop .settled

def progressCall (toolId toolVersion : String) (callIndex : UInt32) : Routine J CallProgress := do
  let obs := P.buildChainTool anchor.modelId toolId toolVersion turn anchor.instanceId
    anchor.stepSalt callIndex turnMoteId
  let w ← look
  let obsState := w.projection.stateOfId obs.id
  if obsState = .committed then return .landed
  if isTerminal obsState then
    if crashRetryable w.projection obs.id then return .stop .active
    let reason := boundedReason (P.observationFailureReason toolId toolVersion
      (w.projection.failureReasonOf obs.id) (w.projection.failureDetailOf obs.id))
    appendReactBranch anchor turnMoteId turn (.rejected reason) trivial
    return .stop .active
  let unresolvable := match P.resolveToolArgs obs warrant w.projection w.outside.store
      w.outside.lookup with
    | .permanent _ => !w.dispatch.tracker.isLeased obs.id
    | _ => false
  if unresolvable then return ← retireObservation anchor turn turnMoteId obs.id
  match ← P.approvalBarrier anchor obs.id toolId toolVersion with
  | .wait => return .outstanding
  | .deadLetter =>
    appendReactBranch anchor turnMoteId turn .deadLettered trivial
    return .stop .settled
  | .proceed =>
    P.materializeReactTool obs anchor.warrantRef warrant
    return .outstanding

def progressCalls : List ((String × String) × Nat) → Routine J CallProgress
  | [] => return .landed
  | ((toolId, toolVersion), i) :: calls => do
    match ← P.progressCall anchor warrant turn turnMoteId toolId toolVersion (u32OfNat i) with
    | .stop status => return .stop status
    | .landed => progressCalls calls
    | .outstanding =>
      match ← progressCalls calls with
      | .stop status => return .stop status
      | _ => return .outstanding

end Batch

def progressToolBatch (anchor : ReactRoundRecord) (rounds : List ReactRoundRecord) (turn : UInt32)
    (turnMoteId : MoteId) (calls : List (String × String)) : Routine J ReactChainStatus := do
  let w ← look
  match w.outside.store.bind fun store => (store.get anchor.warrantRef).bind P.decodeWarrant with
  | none => return .active
  | some warrant =>
    let ceiling := warrant.costCeiling.microUsd
    let projected := w.outside.estimateSpend (saturatingSucc turn).toUInt64
      (toolCallsOf rounds).toUInt64
    if ceiling > 0 ∧ projected > ceiling then
      appendReactBranch anchor turnMoteId turn .deadLettered trivial
      return .settled
    match ← P.progressCalls anchor warrant turn turnMoteId calls.zipIdx with
    | .stop status => return status
    | .outstanding => return .active
    | .landed =>
      match ← P.maybeGateOnRerank anchor turn turnMoteId calls with
      | some status => return status
      | none => P.advanceReactChain anchor rounds turn

/-- Freeze the branch of a turn that committed, and start what the branch asks for. -/
def settleCommittedTurn (chain : ChainKey) (anchor latest : ReactRoundRecord)
    (rounds : List ReactRoundRecord) : Routine J ReactChainStatus := do
  let w ← look
  match w.outside.store, w.projection.resultRefOf latest.turnMoteId with
  | some store, some resultRef =>
    match store.get resultRef, (store.get anchor.warrantRef).bind P.decodeWarrant with
    | some raw, some warrant =>
      let branch := P.branchOfTurn w.projection store w.outside.lookup rounds latest.turn
        warrant raw
      appendReactBranch anchor latest.turnMoteId latest.turn branch (P.readable_branchOfTurn ..)
      let w ← look
      let rounds := w.projection.reactRoundsOf chain.1 chain.2
      match branch with
      | .tool .. | .toolBatch _ =>
        P.progressToolBatch anchor rounds latest.turn latest.turnMoteId (firedCalls branch)
      | .rejected _ => P.advanceReactChain anchor rounds latest.turn
      | _ => return .settled
    | _, _ => return .active
  | _, _ => return .active

def driveReactChain (chain : ChainKey) : Routine J ReactChainStatus := do
  let w ← look
  let rounds := w.projection.reactRoundsOf chain.1 chain.2
  match reactAnchorOf w.projection chain, w.projection.latestReactRound chain.1 chain.2 with
  | some anchor, some latest =>
    match latest.branch with
    | .answer => return .settled
    | .deadLettered => return .settled
    | .rejected _ => P.advanceReactChain anchor rounds latest.turn
    | .tool toolId toolVersion =>
      P.progressToolBatch anchor rounds latest.turn latest.turnMoteId [(toolId, toolVersion)]
    | .toolBatch calls =>
      P.progressToolBatch anchor rounds latest.turn latest.turnMoteId calls
    | .pending =>
      let turnState := w.projection.stateOfId latest.turnMoteId
      if !isTerminal turnState then return .active
      if turnState = .committed then return ← P.settleCommittedTurn chain anchor latest rounds
      if crashRetryable w.projection latest.turnMoteId then return .active
      appendReactBranch anchor latest.turnMoteId latest.turn .deadLettered trivial
      return .settled
  | _, _ => return .settled

def answerTurn (s : State) (chain : ChainKey) : Option MoteId :=
  (lastMaxBy (fun a b => compare a.turn b.turn)
    ((s.reactRoundsOf chain.1 chain.2).filter fun r => r.branch = .answer)).map (·.turnMoteId)

/-- What a launch commits: the turn's result, or the answer taken out of its envelope. -/
def servedRef (raw : List UInt8) (resultRef : ContentRef) : Reading J ContentRef :=
  match P.extractAnswer raw with
  | none => return resultRef
  | some unwrapped => do
    let stored ← put unwrapped
    return stored.getD resultRef

/-- Commit the launch with the chain's answer, or give it up if there is none. Its caller
has a store. -/
def finalizeAgenticLaunch (instanceId : InstanceId) (stepSalt : ByteVec 32) :
    Coord J ReactChainStatus := do
  let w ← look
  let launchId : MoteId := ⟨stepSalt⟩
  if isTerminal (w.projection.stateOfId launchId) then return .settled
  match w.dispatch.defs[launchId]? with
  | none => return .active
  | some (launch, warrant) =>
    match answerTurn w.projection (instanceId, some stepSalt) with
    | none =>
      deadLetterAgenticLaunch launchId
      return .settled
    | some turnMoteId =>
      match w.projection.resultRefOf turnMoteId, w.outside.store with
      | some resultRef, some store =>
        match store.get resultRef with
        | none => return .active
        | some raw =>
          let ref ← reading (P.servedRef raw resultRef)
          commitAgenticLaunch P launch warrant ref
          return .settled
      | _, _ => return .active

def settleReactChain (chain : ChainKey) : Coord J ReactChainStatus := do
  let status ← routine (P.driveReactChain chain)
  let w ← look
  match chain.2 with
  | some salt =>
    if status = .settled ∧ chainIsAgenticLaunch w.projection chain then
      P.finalizeAgenticLaunch chain.1 salt
    else return status
  | none => return status

def settleChains : List ChainKey → Coord J (List ChainKey × List ChainKey)
  | [] => return ([], [])
  | chain :: chains => do
    let status ← P.settleReactChain chain
    let (active, settled) ← settleChains chains
    match status with
    | .active => return (chain :: active, settled)
    | .settled => return (active, chain :: settled)

def settleReactRounds : Coord J Unit := do
  let w ← look
  if !w.projection.hasReactTurn || w.outside.store.isNone then return
  let cache := w.reactCache
  let chains := if w.projection.reactRounds.length ≠ cache.seenFacts then
      w.projection.reactChains.filter fun chain => chain ∉ cache.settled
    else cache.active
  let (active, settled) ← P.settleChains chains
  let w ← look
  edit (.cache
    { seenFacts := w.projection.reactRounds.length
      active
      settled := settled ++ cache.settled })

/-- The turn a chain was at when the process ended, built again as it was built. -/
def rebuildTurn (s : State) (chain : ChainKey) (latest : ReactRoundRecord) (instruction : String)
    (warrant : WarrantSpec) : Mote :=
  let prior := (s.reactRoundsOf chain.1 chain.2).filter fun r => r.turn < latest.turn
  let nearBudget := decide (saturatingSucc (toolCallsOf prior) ≥ latest.maxToolCalls ∨
    saturatingSucc latest.turn ≥ latest.maxTurns)
  let prevReject :=
    if latest.turn = 0 then none
    else (latestOfTurn prior (latest.turn - 1)).bind fun r => rejectReason r.branch
  P.buildChainTurn latest.modelId (P.renderTurnInstruction instruction prevReject nearBudget)
    latest.turn chain.1 chain.2 warrant.modelRoute.maxOutputTokens

def recoverChainTurn (chain : ChainKey) : Routine J Unit := do
  let w ← look
  match w.projection.latestReactRound chain.1 chain.2 with
  | none => return
  | some latest =>
    if latest.branch ≠ .pending then return
    if isTerminal (w.projection.stateOfId latest.turnMoteId) then return
    match w.outside.store.bind fun store => (store.get latest.basePromptRef).bind decodeUtf8,
        w.outside.store.bind fun store => (store.get latest.warrantRef).bind P.decodeWarrant with
    | some instruction, some warrant =>
      let rebuilt := P.rebuildTurn w.projection chain latest instruction warrant
      if rebuilt.id ≠ latest.turnMoteId then return
      P.materializeReactTurn rebuilt latest.warrantRef warrant
    | _, _ => return

def recoverReactChain : Coord J Unit := do
  let w ← look
  if !w.projection.hasReactTurn || w.outside.store.isNone then return
  routine (Program.forEach w.projection.reactChains P.recoverChainTurn)
  P.settleReactRounds

end Platform

end Kortecx.Coordinator
