import Kortecx.Coordinator.Materialize

/-!
Reranking of retrieved passages by a model. A rerank is anchored by a journal entry before
its Mote is made, and its outcome is frozen by another once the Mote has come to an end.
An answer grounded in a bundle of its own is held back until its rerank is settled.
-/

namespace Kortecx.Coordinator

open Lib Mote Journal Projection Warrant

def u32OfNat (n : Nat) : UInt32 :=
  UInt32.ofNat (min n (2 ^ 32 - 1))

/-- The latest record of each rerank that is still pending, in the order in which the
reranks were anchored. -/
def pendingRerankFrontier (s : State) : List ReRankRoundRecord :=
  (s.rerankRounds.map (·.rerankMoteId)).eraseDups.filterMap fun id =>
    (s.latestRerankRound id).filter fun latest => latest.outcome = .pending

def rerankOutcomeOf (s : State) (id : MoteId) : Option ReRankOutcome :=
  (s.latestRerankRound id).map (·.outcome)

/-- The items of a list in another order, if the order names positions of the list and is
as long. -/
def permuted {α : Type} (items : List α) (permutation : List UInt32) : Option (List α) :=
  if items.length ≠ permutation.length then none
  else permutation.mapM fun i => items[i.toNat]?

structure ChatRagRerank where
  id : MoteId
  baseRef : ContentRef
  queryRef : ContentRef
  count : UInt32
  instanceId : InstanceId

namespace Platform

variable (P : Platform) {J : Backend}

def writeRerankAnchor (rerankMote : Mote) (instanceId : InstanceId)
    (baseResultsRef queryRef warrantRef : ContentRef) (candidateCount : UInt32) :
    Routine J (Except RecordError Unit) := do
  let w ← look
  if (w.projection.latestRerankRound rerankMote.id).isSome then return .ok ()
  let recorded ← noteStrict (.reRankRound
    { round := 0
      rerankMoteId := rerankMote.id
      instanceId
      baseResultsRef
      queryRef
      warrantRef
      modelId := rerankMote.def.modelId
      candidateCount
      outcome := .pending
      seq := 0 })
  return recorded.map fun _ => ()

def appendRerankOutcome (anchor : ReRankRoundRecord) (outcome : ReRankOutcome) : Routine J Unit := do
  let w ← look
  if (w.projection.latestRerankRound anchor.rerankMoteId).any fun r => r.outcome ≠ .pending then
    return
  let _ ← note (.reRankRound { anchor with outcome, seq := 0 })

def rerankOutcome (s : State) (store : Store) (anchor : ReRankRoundRecord) : Option ReRankOutcome :=
  let state := s.stateOfId anchor.rerankMoteId
  if state = .committed then
    ((s.resultRefOf anchor.rerankMoteId).bind store.get).map fun bytes =>
      match P.parsePermutation (P.fromUtf8Lossy bytes) anchor.candidateCount.toNat with
      | some perm => .reranked (perm.map u32OfNat)
      | none => .failedClosed
  else if isTerminal state then some .failedClosed
  else none

/-- Put the reordered passages into the store, where the turn that reads them finds them. -/
def stageReranked (anchor : ReRankRoundRecord) (outcome : ReRankOutcome) : Reading J Unit := do
  let w ← look
  match outcome, w.outside.store with
  | .reranked permutation, some store =>
    match (store.get anchor.baseResultsRef).bind
        (P.reorderRetrievalObservation · permutation) with
    | none => return
    | some reordered =>
      let _ ← put reordered
  | _, _ => return

def settleRerankRound (anchor : ReRankRoundRecord) : Routine J Unit := do
  let w ← look
  match w.outside.store.bind fun store => P.rerankOutcome w.projection store anchor with
  | none => return
  | some outcome =>
    reading (P.stageReranked anchor outcome)
    appendRerankOutcome anchor outcome

def settleRerankRounds : Routine J Unit := do
  let w ← look
  if w.outside.store.isNone then return
  Program.forEach (pendingRerankFrontier w.projection) P.settleRerankRound

def recoverRerank (anchor : ReRankRoundRecord) : Routine J Unit := do
  let w ← look
  if isTerminal (w.projection.stateOfId anchor.rerankMoteId) then return
  match w.outside.store.bind fun store => (store.get anchor.warrantRef).bind P.decodeWarrant with
  | none => return
  | some warrant =>
    let rebuilt := P.buildRerankTurn anchor.modelId anchor.instanceId anchor.baseResultsRef
      anchor.queryRef warrant.modelRoute.maxOutputTokens
    if rebuilt.id ≠ anchor.rerankMoteId then return
    P.materializeReactTurn rebuilt anchor.warrantRef warrant

def recoverRerankChain : Routine J Unit := do
  let w ← look
  if w.outside.store.isNone then return
  let pending := pendingRerankFrontier w.projection
  if pending.isEmpty then return
  Program.forEach pending P.recoverRerank
  P.settleRerankRounds

def rerankDeliveredRef (s : State) (store : Option Store) (instanceId : InstanceId)
    (obsRef : ContentRef) : Option ContentRef := do
  let store ← store
  if (s.rerankRoundsOf instanceId).isEmpty then none
  let rr ← s.latestRerankRoundByBase instanceId obsRef
  match rr.outcome with
  | .reranked permutation =>
    let obsBytes ← store.get obsRef
    let reordered ← P.reorderRetrievalObservation obsBytes permutation
    return P.contentRefOf reordered
  | _ => none

/-- The passages of an answer's bundle and its question, written to the store. -/
def chatRagRerankPrep (m : Mote) (store : Store) : Reading J (Option (ContentRef × ContentRef × UInt32)) :=
  match m.def.configSubset[CONTEXT_ITEMS_KEY]?, m.def.configSubset[PROMPT_KEY]? with
  | some bundle, some prompt => do
    let items := P.decodeContextItems bundle
    if items.length < 2 then return none
    let query := P.fromUtf8Lossy prompt
    let passages := items.map fun it =>
      (it.contentRef, ((store.get it.contentRef).map P.fromUtf8Lossy).getD "")
    match ← put (P.retrievalObservation query passages) with
    | none => return none
    | some baseResultsRef =>
      match ← put (utf8Bytes query) with
      | none => return none
      | some queryRef => return some (baseResultsRef, queryRef, u32OfNat items.length)
  | _, _ => return none

def reorderContextItemsBundle (bundle : List UInt8) (permutation : List UInt32) :
    Option (List UInt8) :=
  (permuted (P.decodeContextItems bundle) permutation).map P.encodeContextItemsOrdered

def chatRagRerankId (m : Mote) (warrant : WarrantSpec) : Reading J (Option ChatRagRerank) := do
  let w ← look
  match w.projection.runRegistration, w.outside.store with
  | some run, some store =>
    match ← P.chatRagRerankPrep m store with
    | none => return none
    | some (baseRef, queryRef, count) =>
      let id := (P.buildRerankTurn m.def.modelId run.instanceId baseRef queryRef
        warrant.modelRoute.maxOutputTokens).id
      return some { id, baseRef, queryRef, count, instanceId := run.instanceId }
  | _, _ => return none

def chatRagRerankHolds (m : Mote) (warrant : WarrantSpec) : Reading J Bool := do
  let w ← look
  if !w.outside.serveLlmRerankEnabled || !isChatRagRerankAnswer m then return false
  match ← P.chatRagRerankId m warrant with
  | none => return false
  | some rerank =>
    match rerankOutcomeOf w.projection rerank.id with
    | some (.reranked _) => return false
    | some .failedClosed => return false
    | _ => return true

def chatRagDeliveredContext (m : Mote) (warrant : WarrantSpec) : Reading J (Option ContentRef) := do
  let w ← look
  if !w.outside.serveLlmRerankEnabled || !isChatRagRerankAnswer m then return none
  match ← P.chatRagRerankId m warrant with
  | none => return none
  | some rerank =>
    match rerankOutcomeOf w.projection rerank.id,
        m.def.configSubset[CONTEXT_ITEMS_KEY]? with
    | some (.reranked permutation), some bundle =>
      return (P.reorderContextItemsBundle bundle permutation).map P.contentRefOf
    | _, _ => return none

def anchorChatRagRerank (answer : Mote) (warrant : WarrantSpec) (rerank : ChatRagRerank) :
    Routine J Unit := do
  match ← put (P.encodeWarrant warrant) with
  | none => return
  | some warrantRef =>
    let rerankMote := P.buildRerankTurn answer.def.modelId rerank.instanceId rerank.baseRef
      rerank.queryRef warrant.modelRoute.maxOutputTokens
    match ← writeRerankAnchor rerankMote rerank.instanceId rerank.baseRef rerank.queryRef
        warrantRef rerank.count with
    | .error _ => return
    | .ok () => P.materializeReactTurn rerankMote warrantRef warrant

def settleChatRagRerank (answer : Mote) (warrant : WarrantSpec) : Routine J Unit := do
  match ← reading (P.chatRagRerankId answer warrant) with
  | none => return
  | some rerank =>
    let w ← look
    match rerankOutcomeOf w.projection rerank.id with
    | none => P.anchorChatRagRerank answer warrant rerank
    | some (.reranked permutation) =>
      match (answer.def.configSubset[CONTEXT_ITEMS_KEY]?).bind
          (P.reorderContextItemsBundle · permutation) with
      | none => return
      | some reordered =>
        let _ ← put reordered
    | some .pending => return
    | some .failedClosed => return

def settleChatRagReranks : Routine J Unit := do
  let w ← look
  if !w.outside.serveLlmRerankEnabled || w.outside.store.isNone ||
      w.projection.runRegistration.isNone then
    return
  let answers := (w.dispatch.defs.toList.map (·.2)).filter fun (m, _) =>
    isChatRagRerankAnswer m && !isTerminal (w.projection.stateOfId m.id)
  Program.forEach answers fun (answer, warrant) => P.settleChatRagRerank answer warrant

end Platform

end Kortecx.Coordinator
