import Kortecx.Coordinator.React

/-!
The Motes a chain is made of, and the instruction of a turn. A turn and the observations of
its tool calls are functions of the chain, the turn, the tool and the place of the call, so
that they are built again whenever they are needed.
-/

namespace Kortecx.Coordinator

open Lib Mote Journal Projection Warrant List

section Turns

def renderReprompt (baseInstruction reason : String) : String :=
  baseInstruction ++ "\n\n[Your previous tool call was REJECTED: " ++ reason ++
    "\nCorrect it — call a tool you were granted with arguments that match its schema, " ++
    "or answer the question directly if you cannot.]"

def renderSettleNudge (baseInstruction : String) : String :=
  baseInstruction ++ "\n\n[You have already gathered tool results, and your tool-call budget " ++
    "is nearly exhausted. Do NOT call another tool. Using the observations you already have, " ++
    "give your FINAL answer to the question now, directly and in prose.]"

def renderRepromptNudged (baseInstruction reason : String) : String :=
  renderReprompt baseInstruction reason ++
    "\n\n[This is your LAST turn and your tool-call budget is nearly exhausted. Do NOT call " ++
    "another tool. Answer the question directly, in prose, using whatever you have — and say " ++
    "plainly what you could not determine.]"

def renderTurnInstruction (baseInstruction : String) (prevReject : Option String)
    (nearBudget : Bool) : String :=
  match prevReject, nearBudget with
  | some reason, true => renderRepromptNudged baseInstruction reason
  | some reason, false => renderReprompt baseInstruction reason
  | none, true => renderSettleNudge baseInstruction
  | none, false => baseInstruction

/-- The text a turn's identity is hashed from. A run-level chain has no salt. -/
def turnIdText (tag : String) (salt : List UInt8) (instanceId : InstanceId) (turn : UInt32) :
    List UInt8 :=
  utf8Bytes tag ++ instanceId.toList ++ salt ++ leBytes 4 turn.toNat

/-- A turn: the model answers the instruction, and the marker names the chain. -/
def turnMote (ids : Identity) (idText : List UInt8) (modelId : ModelId) (instruction : String)
    (marker : List UInt8) (maxOutputTokens : UInt32) : Mote :=
  let idBytes := ids.blake3 idText
  Mote.new ids
    { logicRef := idBytes
      modelId
      promptTemplateHash := idBytes
      ndClass := .readOnlyNondet
      configSubset := ((∅ : Std.ExtTreeMap ConfigKey ConfigVal).insert PROMPT_KEY
        (utf8Bytes instruction)).insert REACT_TURN_KEY marker
      effectPattern := .idempotentByConstruction
      inferenceParams := { maxOutputTokens }
      schemaVersion := MOTE_DEF_SCHEMA_VERSION }
    idBytes idBytes.toList []

variable (ids : Identity) (modelId : ModelId) (instruction : String) (turn : UInt32)
  (instanceId : InstanceId)

def buildReactTurn (maxOutputTokens : UInt32) : Mote :=
  turnMote ids (turnIdText "kx-react-turn" [] instanceId turn) modelId instruction
    instanceId.toList maxOutputTokens

def buildAgenticTurn (stepSalt : ByteVec 32) (maxOutputTokens : UInt32) : Mote :=
  turnMote ids (turnIdText "kx-agentic-turn" stepSalt.toList instanceId turn) modelId instruction
    (instanceId.toList ++ stepSalt.toList) maxOutputTokens

def buildChainTurn (stepSalt : Option (ByteVec 32)) (maxOutputTokens : UInt32) : Mote :=
  match stepSalt with
  | some salt => buildAgenticTurn ids modelId instruction turn instanceId salt maxOutputTokens
  | none => buildReactTurn ids modelId instruction turn instanceId maxOutputTokens

end Turns

section Tools

/-- The text an observation's identity is hashed from. The first call of a turn adds
nothing, the others their place. -/
def toolIdText (tag : String) (salt : List UInt8) (instanceId : InstanceId)
    (turn callIndex : UInt32) : List UInt8 :=
  utf8Bytes tag ++ instanceId.toList ++ salt ++ leBytes 4 turn.toNat ++
    if callIndex > 0 then leBytes 4 callIndex.toNat else []

/-- An observation: it declares its tool, and its one edge is to the turn that proposed
the call. Its arguments are no part of it. -/
def observationMote (ids : Identity) (idText : List UInt8) (modelId : ModelId) (toolId : ToolName)
    (toolVersion : ToolVersion) (turnMoteId : MoteId) : Mote :=
  let idBytes := ids.blake3 idText
  Mote.new ids
    { logicRef := idBytes
      modelId
      promptTemplateHash := idBytes
      toolContract := (∅ : Std.ExtTreeMap ToolName ToolVersion).insert toolId toolVersion
      ndClass := .worldMutating
      effectPattern := .stageThenCommit
      schemaVersion := MOTE_DEF_SCHEMA_VERSION }
    idBytes idBytes.toList [⟨turnMoteId, ⟨.data, false⟩⟩]

variable (ids : Identity) (modelId : ModelId) (toolId : ToolName) (toolVersion : ToolVersion)
  (turn : UInt32) (instanceId : InstanceId)

def buildReactTool (callIndex : UInt32) (turnMoteId : MoteId) : Mote :=
  observationMote ids (toolIdText "kx-react-tool" [] instanceId turn callIndex) modelId toolId
    toolVersion turnMoteId

def buildAgenticTool (stepSalt : ByteVec 32) (callIndex : UInt32) (turnMoteId : MoteId) : Mote :=
  observationMote ids (toolIdText "kx-agentic-tool" stepSalt.toList instanceId turn callIndex)
    modelId toolId toolVersion turnMoteId

def buildChainTool (stepSalt : Option (ByteVec 32)) (callIndex : UInt32) (turnMoteId : MoteId) :
    Mote :=
  match stepSalt with
  | some salt =>
    buildAgenticTool ids modelId toolId toolVersion turn instanceId salt callIndex turnMoteId
  | none => buildReactTool ids modelId toolId toolVersion turn instanceId callIndex turnMoteId

def chainToolText (turn : UInt32) (instanceId : InstanceId) (stepSalt : Option (ByteVec 32))
    (callIndex : UInt32) : List UInt8 :=
  match stepSalt with
  | some salt => toolIdText "kx-agentic-tool" salt.toList instanceId turn callIndex
  | none => toolIdText "kx-react-tool" [] instanceId turn callIndex

end Tools

/-- The platform makes the Motes of a chain, and the instructions of its turns, as the
coordinator's own module does. -/
structure ShapesChains (P : Platform) : Prop where
  turns : P.buildChainTurn = buildChainTurn P.ids
  tools : P.buildChainTool = buildChainTool P.ids
  instructions : P.renderTurnInstruction = renderTurnInstruction

section Identities

variable {ids : Identity} {modelId : ModelId} {toolId : ToolName} {toolVersion : ToolVersion}
  {turn : UInt32} {instanceId : InstanceId} {stepSalt : Option (ByteVec 32)} {turnMoteId : MoteId}
  (callIndex : UInt32)

theorem buildChainTool_eq :
    buildChainTool ids modelId toolId toolVersion turn instanceId stepSalt callIndex turnMoteId =
      observationMote ids (chainToolText turn instanceId stepSalt callIndex) modelId toolId
        toolVersion turnMoteId := by
  cases stepSalt <;> rfl

@[simp]
theorem parents_buildChainTool :
    (buildChainTool ids modelId toolId toolVersion turn instanceId stepSalt callIndex
      turnMoteId).parents = [⟨turnMoteId, ⟨.data, false⟩⟩] := by
  rw [buildChainTool_eq]
  rfl

@[simp]
theorem modelId_buildChainTool :
    (buildChainTool ids modelId toolId toolVersion turn instanceId stepSalt callIndex
      turnMoteId).def.modelId = modelId := by
  rw [buildChainTool_eq]
  rfl

theorem toolContract_buildChainTool :
    (buildChainTool ids modelId toolId toolVersion turn instanceId stepSalt callIndex
      turnMoteId).def.toolContract[toolId]? = some toolVersion := by
  rw [buildChainTool_eq]
  simp [observationMote, Mote.new]

/-- The text tells the calls of a turn apart: the first is shorter than the others, and
those end in their place. -/
theorem toolIdText_injective
    (heq : toolIdText tag salt instanceId turn i = toolIdText tag salt instanceId turn j) :
    i = j := by
  have hplace := append_cancel_left heq
  have hlength : ∀ n : UInt32, (leBytes 4 n.toNat).length = 4 := fun n => length_leBytes 4 _
  split at hplace <;> split at hplace
  · have hsame := congrArg leNat hplace
    rw [leNat_leBytes (by simpa using i.toNat_lt), leNat_leBytes (by simpa using j.toNat_lt)]
      at hsame
    exact UInt32.toNat_inj.1 hsame
  · have := congrArg length hplace
    rw [hlength] at this
    cases this
  · have := congrArg length hplace
    rw [hlength] at this
    cases this
  · rename_i hi hj
    have hzero : ∀ {n : UInt32}, ¬ n > 0 → n = 0 := fun hn => by
      apply UInt32.toNat_inj.1
      rw [gt_iff_lt, UInt32.lt_iff_toNat_lt] at hn
      simpa using hn
    rw [hzero hi, hzero hj]

theorem chainToolText_injective
    (heq : chainToolText turn instanceId stepSalt i = chainToolText turn instanceId stepSalt j) :
    i = j := by
  cases stepSalt with
  | none | some _ => exact toolIdText_injective heq

def observationText (ids : Identity) (m : Mote) : List UInt8 :=
  (m.def.hash ids).bytes.toList ++ m.inputDataId.toList ++ m.graphPosition

/-- The text ends in the hash of the identity text. -/
theorem blake3_eq_of_observationText
    (heq : observationText ids (observationMote ids idText modelId toolId toolVersion turnMoteId) =
      observationText ids (observationMote ids idText' modelId toolId' toolVersion' turnMoteId)) :
    ids.blake3 idText = ids.blake3 idText' := by
  have hlast : (ids.blake3 idText).toList = (ids.blake3 idText').toList := by
    apply append_inj_right' heq
    change (ids.blake3 idText).toList.length = (ids.blake3 idText').toList.length
    rw [ByteVec.length_toList, ByteVec.length_toList]
  exact ByteVec.ext hlast

end Identities

def isDuplicateCall (call : ToolCall) (prior : List ToolCall) : Bool :=
  prior.any fun p => p.name = call.name ∧ p.version = call.version ∧ p.argsBytes = call.argsBytes

end Kortecx.Coordinator
