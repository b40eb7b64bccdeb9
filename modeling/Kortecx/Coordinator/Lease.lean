import Kortecx.Coordinator.Rerank

/-!
Leasing work. A poll first reaps the workers that died, then selects from the Motes that
are ready and from those that crash-failed, and hands each over with what it needs: the
results of its parents, the arguments of its tool call, its context and its image.
-/

namespace Kortecx.Coordinator

open Lib Mote Journal Projection Warrant Std

abbrev ToolArgs := List UInt8 × NetScope × FsScope

structure LeasedItem where
  mote : Mote
  warrant : WarrantSpec
  parentResults : List (MoteId × ContentRef)
  toolArgs : Option ToolArgs
  contextItems : Option ContentRef
  imageRef : Option ContentRef

structure LeaseReq where
  worker : WorkerId
  executorClass : ExecutorClass
  max : Nat

inductive ArgResolution where
  | resolved (args : ToolArgs)
  | transient
  | permanent (reason : String)

/-- What follows the last occurrence of a character, or everything. -/
def afterLast (c : Char) (l : List Char) : List Char :=
  if c ∈ l then (l.reverse.takeWhile (· ≠ c)).reverse else l

/-- What precedes the last occurrence of a character, or everything. -/
def beforeLast (c : Char) (l : List Char) : List Char :=
  if c ∈ l then ((l.reverse.dropWhile (· ≠ c)).drop 1).reverse else l

/-- The host of an `http` or `https` URL. -/
def urlHost (url : List Char) : Option String := do
  let rest ← if "http://".toList <+: url then some (url.drop 7)
    else if "https://".toList <+: url then some (url.drop 8)
    else none
  let authority := rest.takeWhile fun c => c ≠ '/' ∧ c ≠ '?' ∧ c ≠ '#'
  let hostPort := afterLast '@' authority
  let host := match hostPort with
    | '[' :: bracketed => bracketed.takeWhile (· ≠ ']')
    | _ => beforeLast ':' hostPort
  if host.isEmpty then none else some (String.ofList host)

def decodeReactMarker (bytes : List UInt8) : Option ChainKey :=
  if h : bytes.length = INSTANCE_ID_LEN then some (⟨bytes, h⟩, none)
  else if h : bytes.length = INSTANCE_ID_LEN + 32 then
    some (⟨bytes.take INSTANCE_ID_LEN, by simp [h]⟩, some ⟨bytes.drop INSTANCE_ID_LEN, by simp [h]⟩)
  else none

def reactAnchorOf (s : State) (chain : ChainKey) : Option ReactRoundRecord :=
  (s.reactRoundsOf chain.1 chain.2).find? fun r => r.turn = 0

/-- A value of the anchor of the chain a turn belongs to, unless the turn has it inline. -/
def resolveFromAnchor (inlineKey : ConfigKey) (value : ReactRoundRecord → Option ContentRef)
    (m : Mote) (s : State) : Option ContentRef :=
  if hasConfig m inlineKey then none
  else do
    let marker ← m.def.configSubset[REACT_TURN_KEY]?
    let chain ← decodeReactMarker marker
    let anchor ← reactAnchorOf s chain
    value anchor

def resolveReactContextItems (m : Mote) (s : State) : Option ContentRef :=
  resolveFromAnchor CONTEXT_ITEMS_KEY (·.contextItemsRef) m s

def resolveReactImageRef (m : Mote) (s : State) : Option ContentRef :=
  resolveFromAnchor IMAGE_REF_KEY (·.imageRef) m s

def keepLatest (turns : List ReactRoundRecord) (r : ReactRoundRecord) : List ReactRoundRecord :=
  if turns.any fun t => t.turn = r.turn then
    turns.map fun t => if t.turn = r.turn ∧ t.seq < r.seq then r else t
  else turns ++ [r]

def firedCalls : ReactBranch → List (String × String)
  | .tool toolId toolVersion => [(toolId, toolVersion)]
  | .toolBatch calls => calls
  | _ => []

def dedupById : List (MoteId × ContentRef) → List (MoteId × ContentRef)
  | [] => []
  | [a] => [a]
  | a :: b :: rest => if a.1 = b.1 then dedupById (a :: rest) else a :: dedupById (b :: rest)
termination_by l => l.length

section Gates

variable (d : Dispatch) (s : State) (id : MoteId)

/-- A crash-failed Mote may run again if it is pure, or if its effect was staged. -/
def redispatchAdmissible : Bool :=
  match d.defs[id]? with
  | some (mote, _) => mote.ndClass = .pure || s.canRedispatchWorldEffectId id
  | none => false

def moteDispatchesAtLeastOnce (m : Mote) : Bool :=
  m.def.toolContract.keys.any fun tool => s.idempotencyClassForTool tool = some .atLeastOnce

/-- The Mote's effect has no way to be told from its repetition, and may have happened. -/
def atLeastOnceAlreadyStaged : Bool :=
  match d.defs[id]? with
  | some (mote, _) => moteDispatchesAtLeastOnce s mote && s.canRedispatchWorldEffectId id
  | none => false

end Gates

def failedWorkerCrashedEntry (moteId : MoteId) : JournalEntry :=
  .failed
    { moteId
      idempotencyKey := moteId.bytes
      seq := 0
      reasonClass := .workerCrashed
      reporterId := COORDINATOR_REPORTER_ID
      detail := "" }

section Reap

variable {J : Backend}

/-- A Mote of a dead worker: committed already, or its death is a fact of the journal. -/
def reapMote (id : MoteId) : Coord J Unit := do
  let w ← look
  if w.projection.stateOfId id = .committed then edit (.resolve id)
  else
    let _ ← record (failedWorkerCrashedEntry id) [.recordCrash id]

def reapWorker (worker : WorkerId) : Coord J Unit := do
  let w ← look
  if w.outside.status worker ≠ some .dead then return
  update (.takeLeases worker)
  Program.forEach (w.dispatch.tracker.leasesOf worker).toList reapMote

def reapDeadWorkers : Coord J Unit := do
  let w ← look
  Program.forEach w.dispatch.tracker.leasingWorkers reapWorker

end Reap

namespace Platform

variable (P : Platform) {J : Backend}

/-- The ready set with the critic gate. Without a store the gate lets nothing through. -/
def gatedReadySet (s : State) (store : Option Store) : List MoteId :=
  s.readySetAuto (store.map fun store ref => (store.get ref).bind P.criticVerdict)

def observedCall (m : Mote) (s : State) (parent : MoteId) (calls : List ToolCall) :
    Except String ToolCall :=
  match calls with
  | [call] => .ok call
  | _ =>
    match s.reactToolRoundOfTurnOf parent with
    | none => .error "no tool-firing react round for the observation's parent turn"
    | some r =>
      match calls.zipIdx.find? fun (c, i) =>
        (P.buildChainTool m.def.modelId c.name c.version r.turn r.instanceId r.stepSalt
          (u32OfNat i) parent).id = m.id with
      | none => .error "observation does not match any call in the frozen batch"
      | some (call, _) => .ok call

/-- The arguments of an observation, derived again from what its turn committed. -/
def resolveToolArgs (m : Mote) (warrant : WarrantSpec) (s : State) (store : Option Store)
    (lookup : ToolName → ToolVersion → Option ToolDef) : ArgResolution :=
  match m.parents.head?, store with
  | some parentRef, some store =>
    match (s.resultRefOf parentRef.parentId).bind store.get with
    | none => .transient
    | some raw =>
      match P.parseToolCalls raw warrant (P.maxArgsBytes warrant) with
      | .error error => .permanent ("tool-call decode rejected: " ++ P.debugToolCallError error)
      | .ok [] =>
        .permanent "committed turn output no longer decodes to a granted tool call"
      | .ok calls =>
        match P.observedCall m s parentRef.parentId calls with
        | .error reason => .permanent reason
        | .ok call =>
          match m.def.toolContract[call.name]? with
          | none => .permanent
              ("decoded tool " ++ call.name ++ " is not in the observation contract")
          | some declared =>
            if declared ≠ call.version then
              .permanent ("tool " ++ call.name ++ " version mismatch (contract " ++
                declared ++ " vs call " ++ call.version ++ ")")
            else
              match lookup call.name call.version with
              | none => .permanent ("tool " ++ call.name ++ "@" ++ call.version ++
                  " is no longer registered (deregistered or pending review)")
              | some tool =>
                match tool.validateArgs.bind (· call.argsBytes) with
                | some error => .permanent ("args do not match " ++ call.name ++ "@" ++
                    call.version ++ " inputSchema: " ++ error)
                | none => .resolved (P.normalizeLenientArgs call.argsBytes,
                    tool.netScopeRequired, tool.fsScopeRequired)
  | _, _ => .transient

def resolveAuthoredToolArgs (m : Mote) (lookup : ToolName → ToolVersion → Option ToolDef) :
    ArgResolution :=
  match m.def.toolContract.toList with
  | [] => .permanent "authored tool node has an empty tool_contract"
  | _ :: _ :: _ => .permanent "authored tool node binds more than one tool"
  | [(name, version)] =>
    match m.def.configSubset[TOOL_ARGS_KEY]? with
    | none => .permanent "authored tool node is missing its kx.tool.args config"
    | some args =>
      match lookup name version with
      | none => .permanent ("tool " ++ name ++ "@" ++ version ++
          " is not registered (deregistered or pending review)")
      | some tool =>
        match tool.validateArgs.bind (· args) with
        | some error => .permanent ("authored args do not match " ++ name ++ "@" ++ version ++
            " inputSchema: " ++ error)
        | none =>
          if name = "http" then
            match (P.jsonUrl args).bind fun url => urlHost url.toList with
            | none => .permanent "http step args carry no parseable http(s) url host"
            | some host => .resolved (P.normalizeLenientArgs args,
                NetScope.egressAllowlist (ExtTreeSet.ofList [host]), tool.fsScopeRequired)
          else .resolved (P.normalizeLenientArgs args, tool.netScopeRequired, tool.fsScopeRequired)

def chainHistory (s : State) (store : Option Store) (chain : ChainKey) (turn : UInt32) :
    List (MoteId × ContentRef) :=
  let earlier := (s.reactRoundsOf chain.1 chain.2).filter fun r => r.turn < turn
  let turns := (earlier.foldl keepLatest []).mergeSort fun a b => a.turn ≤ b.turn
  turns.flatMap fun r =>
    ((s.resultRefOf r.turnMoteId).map fun ref => (r.turnMoteId, ref)).toList ++
      (firedCalls r.branch).zipIdx.filterMap fun ((toolId, toolVersion), i) =>
        let obs := P.buildChainTool r.modelId toolId toolVersion r.turn chain.1 chain.2
          (u32OfNat i) r.turnMoteId
        (s.resultRefOf obs.id).map fun obsRef =>
          (obs.id, (P.rerankDeliveredRef s store chain.1 obsRef).getD obsRef)

def resolveParentContext (m : Mote) (s : State)
    (defs : ExtTreeMap MoteId (Mote × WarrantSpec)) (store : Option Store) :
    List (MoteId × ContentRef) :=
  match m.def.criticFor with
  | some producerId => ((s.resultRefOf producerId).map fun ref => (producerId, ref)).toList
  | none =>
    match m.def.configSubset[REACT_TURN_KEY]? with
    | some marker =>
      match decodeReactMarker marker with
      | none => []
      | some chain =>
        match (s.reactRoundsOf chain.1 chain.2).find? fun r => r.turnMoteId = m.id with
        | none => []
        | some this => P.chainHistory s store chain this.turn
    | none =>
      let own := m.parents.flatMap fun parent =>
        match parent.edge.kind with
        | .data => [parent.parentId]
        | .control =>
          match defs[parent.parentId]? with
          | none => []
          | some (shaper, _) =>
            (shaper.parents.filter fun sp => sp.edge.kind = .data).map (·.parentId)
      let results := own.filterMap fun id => (s.resultRefOf id).map fun ref => (id, ref)
      dedupById (results.mergeSort fun a b => (compare a.1 b.1).isLE)

/-- The Motes a poll looks at: those that are ready, then those that crash-failed and may
run again; none whose effect must not happen twice. -/
def leaseCandidates (w : Core J) : List MoteId :=
  let reoffered := w.dispatch.tracker.rescheduleable.toList.filter
    (redispatchAdmissible w.dispatch w.projection)
  ((P.gatedReadySet w.projection w.outside.store ++ reoffered).filter fun id =>
    !atLeastOnceAlreadyStaged w.dispatch w.projection id).eraseDups

/-- The Motes of these shapes are settled by the coordinator, or wait for a verdict. -/
def parkedByShape (m : Mote) (s : State) (store : Option Store) : Bool :=
  isAgenticLaunch m || isWaitStep m || (isSkipGuard m && !skipGuardCleared P m s store) ||
    isPoliciedStep m

/-- Whether a candidate may go to the worker. -/
def mayLease (req : LeaseReq) (id : MoteId) : Reading J Bool := do
  let w ← look
  if w.projection.stateOfId id = .committed then return false
  if w.dispatch.tracker.isLeasedByOther id req.worker then return false
  match w.dispatch.defs[id]? with
  | none => return false
  | some (mote, warrant) =>
    if P.parkedByShape mote w.projection w.outside.store then return false
    if ← P.chatRagRerankHolds mote warrant then return false
    return warrant.executorClass = req.executorClass

/-- The arguments that go with a lease. A tool call leases with its arguments or not at
all. -/
def leaseToolArgs (w : Core J) (m : Mote) (warrant : WarrantSpec) : Option (Option ToolArgs) :=
  if isReactObservation m w.projection then
    match P.resolveToolArgs m warrant w.projection w.outside.store w.outside.lookup with
    | .resolved args => some (some args)
    | _ => none
  else if isAuthoredTool m w.projection then
    match P.resolveAuthoredToolArgs m w.outside.lookup with
    | .resolved args => some (some args)
    | _ => none
  else some none

def leaseItem (id : MoteId) : Reading J (Option LeasedItem) := do
  let w ← look
  match w.dispatch.defs[id]? with
  | none => return none
  | some (mote, warrant) =>
    match P.leaseToolArgs w mote warrant with
    | none => return none
    | some toolArgs =>
      let delivered ← P.chatRagDeliveredContext mote warrant
      return some {
        mote
        warrant
        parentResults := P.resolveParentContext mote w.projection w.dispatch.defs
          w.outside.store
        toolArgs
        contextItems := delivered.or (resolveReactContextItems mote w.projection)
        imageRef := resolveReactImageRef mote w.projection }

/-- The worker's preferred Motes come first, the others fill up to the maximum. -/
def leaseReady (req : LeaseReq) : Reading J (List LeasedItem) := do
  let w ← look
  let selected ← Program.filterEach (P.leaseCandidates w) (P.mayLease req)
  let isPreferred := fun id => w.outside.place req.executorClass id == req.worker
  let ordered := selected.filter isPreferred ++ selected.filter fun id => !isPreferred id
  Program.collectEach (ordered.take req.max) P.leaseItem

def serveLease (req : LeaseReq) : Coord J (List LeasedItem × Option InstanceId) := do
  reapDeadWorkers
  let items ← reading (P.leaseReady req)
  update (.recordLease req.worker (items.map (·.mote.id)))
  let w ← look
  return (items, w.projection.runRegistration.map (·.instanceId))

end Platform

end Kortecx.Coordinator
