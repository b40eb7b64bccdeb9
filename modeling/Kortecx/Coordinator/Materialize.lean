import Kortecx.Coordinator.Routing
import Kortecx.Warrant.Narrow

/-!
Motes the coordinator makes itself: the children of a committed shaper, the turns and tool
calls of its chains, and the shapers of further planning rounds. Each is registered with
the projection, admitted, and kept for dispatch.
-/

namespace Kortecx.Coordinator

open Lib Mote Journal Projection Warrant

def MAX_SHAPER_ROUNDS : UInt32 := 4

def Platform.synthesizedCommit (P : Platform) (m : Mote) (warrant : WarrantSpec)
    (resultRef : ContentRef) : JournalEntry :=
  .committed
    { moteId := m.id
      idempotencyKey := m.id.bytes
      seq := 0
      nondeterminism := m.def.ndClass
      resultRef
      parents := m.parents.map ParentEntry.fromParentRef
      warrantRef := P.warrantRefOf warrant
      moteDefHash := m.def.hash P.ids }

def deadLetterEntry (moteId : MoteId) : JournalEntry :=
  .failed
    { moteId
      idempotencyKey := moteId.bytes
      seq := 0
      reasonClass := .deadLettered
      reporterId := COORDINATOR_REPORTER_ID
      detail := "" }

structure ShaperChild where
  register : RegisterMote
  mote : Mote
  warrant : WarrantSpec

namespace Platform

variable (P : Platform) {J : Backend}

/-- Put a definition into the store, if there is one. A failure is only logged. -/
def persistDef (d : MoteDef) : Routine J Unit := do
  let _ ← put (P.ids.canonical d)

/-- What `materialize_react_turn`, `materialize_react_tool` and `materialize_replan_shaper`
share. -/
def materialize (isTopologyShaper : Bool) (parents : List ParentRef) (mote : Mote)
    (warrantRef : ContentRef) (warrant : WarrantSpec) : Routine J Unit := do
  P.persistDef mote.def
  edit (.register
    { moteId := mote.id
      ndClass := mote.def.ndClass
      effectPattern := mote.def.effectPattern
      criticFor := none
      isTopologyShaper
      parents
      warrantRef })
  edit (.enrol mote.id)
  edit (.define mote warrant)

def materializeReactTurn (turn : Mote) (warrantRef : ContentRef) (warrant : WarrantSpec) :
    Routine J Unit :=
  P.materialize false [] turn warrantRef warrant

def materializeReactTool (obs : Mote) (warrantRef : ContentRef) (warrant : WarrantSpec) :
    Routine J Unit :=
  P.materialize false obs.parents obs warrantRef warrant

def materializeReplanShaper (shaper : Mote) (warrantRef : ContentRef) (warrant : WarrantSpec) :
    Routine J Unit :=
  P.materialize true [] shaper warrantRef warrant

section Children

variable (roles : RoleId → Option Role) (shaperMoteId : MoteId) (shaperDef : MoteDef)
  (resultRef : ContentRef) (shaperWarrant : WarrantSpec)

/-- One child of a decision. Its identity comes from the shaper's result and its place in
the decision alone. -/
def deriveShaperChild (index : Nat) (descriptor : ChildDescriptor) : Option ShaperChild := do
  let role ← roles descriptor.roleId
  let childWarrant ← (intersect shaperWarrant role).toOption
  let childDef := P.resolveChildDef shaperDef descriptor
  let parents : List ParentRef := [⟨shaperMoteId, ⟨.control, false⟩⟩]
  let mote := Mote.new P.ids childDef (P.ids.blake3 resultRef.bytes.toList)
    (shaperMoteId.bytes.toList ++ leBytes 4 (index % 2 ^ 32)) parents
  return {
    register :=
      { moteId := mote.id
        ndClass := childDef.ndClass
        effectPattern := childDef.effectPattern
        criticFor := none
        isTopologyShaper := false
        parents
        warrantRef := P.warrantRefOf childWarrant }
    mote
    warrant := childWarrant }

/-- The children of a committed shaper, or none if one of them cannot be derived. -/
def deriveShaperChildren (store : Store) : Option (List ShaperChild) :=
  if !shaperDef.isTopologyShaper then some []
  else do
    let payload ← store.get resultRef
    let decision ← P.topologyDecision payload
    decision.zipIdx.mapM fun (descriptor, index) =>
      P.deriveShaperChild roles shaperMoteId shaperDef resultRef shaperWarrant index descriptor

end Children

def materializeChild (child : ShaperChild) : Routine J Unit := do
  P.persistDef child.mote.def
  edit (.register child.register)
  edit (.enrol child.mote.id)
  edit (.define child.mote child.warrant)

/-- Its callers have a store and a role registry. -/
def materializeCommittedShaper (shaperMoteId : MoteId) (shaperDef : MoteDef)
    (shaperWarrant : WarrantSpec) : Routine J Unit := do
  let w ← look
  match w.outside.store, w.outside.roles, w.projection.resultRefOf shaperMoteId with
  | some store, some roles, some resultRef =>
    match P.deriveShaperChildren roles shaperMoteId shaperDef resultRef shaperWarrant store with
    | some children => Program.forEach children P.materializeChild
    | none => pure ()
  | _, _, _ => pure ()

/-- Anchor the planning rounds of a run at its first shaper. Its caller has a store. -/
def writeReplanAnchor (shaperId : MoteId) (shaperDef : MoteDef) (warrant : WarrantSpec) :
    Routine J Unit := do
  let w ← look
  if !shaperDef.isTopologyShaper then return
  if w.projection.replanRounds.any fun r => r.round = 0 ∧ r.shaperMoteId = shaperId then return
  match shaperDef.configSubset[PROMPT_KEY]? with
  | none => return
  | some prompt =>
    let baseRef ← put prompt
    let warrantRef ← put (P.encodeWarrant warrant)
    match baseRef, warrantRef with
    | some baseRef, some warrantRef =>
      let _ ← note (.replanRound
        { round := 0
          shaperMoteId := shaperId
          basePromptRef := baseRef
          correctedPromptRef := baseRef
          warrantRef
          modelId := shaperDef.modelId
          failedSteps := []
          escalationReasonRef := none
          seq := 0 })
    | _, _ => return

def replanFailures (s : State) (shaperId : MoteId) : List (MoteId × Option FailureReason) :=
  let failed := ((s.childrenOf shaperId).map (·.1)).filter fun c => s.stateOfId c = .failed
  (failed.map fun c => (c, s.failureReasonOf c)).mergeSort fun a b => (compare a.1 b.1).isLE

/-- The round to replace, if all its children have come to an end and some failed. -/
def replanDue (s : State) : Option (ReplanRoundRecord × ReplanRoundRecord) := do
  let anchor ← s.replanRounds.find? fun r => r.round = 0
  let latest ← lastMaxBy (fun a b => compare a.round b.round) s.replanRounds
  let children := s.childrenOf latest.shaperMoteId
  if latest.round + 1 ≥ MAX_SHAPER_ROUNDS then none
  else if s.replanRounds.any fun r => r.round = latest.round + 1 then none
  else if s.stateOfId latest.shaperMoteId ≠ .committed then none
  else if children.isEmpty then none
  else if !children.all fun c => isTerminal (s.stateOfId c.1) then none
  else if (replanFailures s latest.shaperMoteId).isEmpty then none
  else some (anchor, latest)

def settleReplanRounds : Routine J Unit := do
  let w ← look
  match w.outside.store, replanDue w.projection with
  | some store, some (anchor, latest) =>
    let failures := replanFailures w.projection latest.shaperMoteId
    let nextRound := latest.round + 1
    match (store.get anchor.basePromptRef).bind decodeUtf8,
        (store.get anchor.warrantRef).bind P.decodeWarrant with
    | some basePrompt, some warrant =>
      let corrected := P.correctedPrompt basePrompt failures
      match ← put (utf8Bytes corrected) with
      | none => return
      | some correctedRef =>
        let shaper := P.buildReplanShaper anchor.modelId corrected nextRound
        let recorded ← noteStrict (.replanRound
          { round := nextRound
            shaperMoteId := shaper.id
            basePromptRef := anchor.basePromptRef
            correctedPromptRef := correctedRef
            warrantRef := anchor.warrantRef
            modelId := anchor.modelId
            failedSteps := failures.map (·.1)
            escalationReasonRef := none
            seq := 0 })
        match recorded with
        | .error _ => return
        | .ok _ => P.materializeReplanShaper shaper anchor.warrantRef warrant
    | _, _ => return
  | _, _ => return

/-- The shaper of a later round, rebuilt from its record. It has to be the one the record
names. -/
def rebuildReplanShaper (store : Store) (r : ReplanRoundRecord) : Option (Mote × WarrantSpec) := do
  let prompt ← (store.get r.correctedPromptRef).bind decodeUtf8
  let warrant ← (store.get r.warrantRef).bind P.decodeWarrant
  let mote := P.buildReplanShaper r.modelId prompt r.round
  if P.warrantRefOf warrant ≠ r.warrantRef then none
  else if mote.id ≠ r.shaperMoteId then none
  else some (mote, warrant)

/-- A round whose shaper committed: its children are derived again. -/
def recoverCommittedRound (r : ReplanRoundRecord) : Routine J Unit := do
  let w ← look
  match w.outside.store with
  | none => return
  | some store =>
    if w.projection.stateOfId r.shaperMoteId ≠ .committed then return
    match P.rebuildReplanShaper store r with
    | none => return
    | some (shaper, warrant) => P.materializeCommittedShaper shaper.id shaper.def warrant

def recoverOpenRound (r : ReplanRoundRecord) : Routine J Unit := do
  let w ← look
  match w.outside.store with
  | none => return
  | some store =>
    if w.projection.stateOfId r.shaperMoteId = .committed then return
    match P.rebuildReplanShaper store r with
    | none => return
    | some (shaper, warrant) => P.materializeReplanShaper shaper r.warrantRef warrant

def recoverReplanChain : Routine J Unit := do
  let w ← look
  if w.outside.store.isNone ∨ w.outside.roles.isNone then return
  let later := w.projection.replanRounds.filter fun r => r.round ≥ 1
  if w.projection.replanRounds.isEmpty then return
  Program.forEach later P.recoverCommittedRound
  match lastMaxBy (fun a b => compare a.round b.round) later with
  | none => pure ()
  | some latest => P.recoverOpenRound latest
  P.settleReplanRounds

end Platform

end Kortecx.Coordinator
