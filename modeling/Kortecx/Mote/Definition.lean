import Kortecx.Warrant.Spec

/-!
The definition of a Mote and the Mote itself. A definition fixes what the Mote computes;
its hash, the inputs and the position in the graph give the Mote its identity. The
declared parents are not part of the identity.
-/

set_option linter.dupNamespace false

namespace Kortecx.Mote

open Lib Warrant

-- Opaque texts and bytes of the source, each a type of its own there.
abbrev ConfigKey := String
abbrev ConfigVal := List UInt8
abbrev LogicRef := ByteVec 32
abbrev PromptTemplateHash := ByteVec 32
abbrev InputDataId := ByteVec 32
abbrev GraphPosition := List UInt8

structure InferenceParams where
  maxOutputTokens : UInt32 := 512
  temperatureBps : UInt32 := 0
  topPBps : UInt32 := 10000
  topK : UInt32 := 0
  seed : UInt32 := 0
  stopTokens : List String := []
  grammar : Option String := none
deriving DecidableEq, Repr

inductive TensorDTypeTag where
  | f32
  | f16
  | bf16
  | i64
  | i32
  | u8
  | bool
deriving DecidableEq, Repr

inductive SchemaTag where
  | blob
  | text
  | json
  | tensor (dtype : TensorDTypeTag) (shape : List UInt64)
  | vector (dim : UInt32)
  | image
  | audio
deriving DecidableEq, Repr

inductive RecordFraming where
  | linesLf
  | lengthPrefixedU32
  | fixedWidth (width : UInt32)
deriving DecidableEq, Repr

inductive StatKind where
  | recordCount
  | meanScaled
  | minScaled
  | maxScaled
deriving DecidableEq, Repr

inductive PiiClass where
  | email
  | ipV4
  | creditCardLuhn
  | usSsn
deriving DecidableEq, Repr

/-- The check a native critic evaluates against its producer's output. The forbidden
classes are a set in the source; here they are listed in its order. -/
inductive CheckSpec where
  | schema (expected : SchemaTag)
  | dedup (framing : RecordFraming) (keyRange : Option (UInt32 × UInt32))
  | statBounds (framing : RecordFraming) (stat : StatKind) (scale : UInt32)
      (loScaled hiScaled : Int64) (numericFieldRange : Option (UInt32 × UInt32))
  | piiLeak (forbidden : List PiiClass)
  | llmJudge (maxOutputTokens : UInt32)
deriving DecidableEq, Repr

def MOTE_DEF_SCHEMA_VERSION : UInt16 := 5

structure MoteDef where
  logicRef : LogicRef
  modelId : ModelId
  promptTemplateHash : PromptTemplateHash
  toolContract : Std.ExtTreeMap ToolName ToolVersion := ∅
  ndClass : NdClass
  configSubset : Std.ExtTreeMap ConfigKey ConfigVal := ∅
  effectPattern : EffectPattern
  criticFor : Option MoteId := none
  isTopologyShaper : Bool := false
  inferenceParams : InferenceParams := {}
  criticCheck : Option CheckSpec := none
  schemaVersion : UInt16

/-- How identities are computed: the hash, and the canonical serialization of a
definition. -/
structure Identity where
  blake3 : List UInt8 → ByteVec 32
  canonical : MoteDef → List UInt8

def MoteDef.hash (ids : Identity) (d : MoteDef) : MoteDefHash :=
  ⟨ids.blake3 (ids.canonical d)⟩

def deriveMoteId (ids : Identity) (defHash : MoteDefHash) (inputDataId : InputDataId)
    (graphPosition : GraphPosition) : MoteId :=
  ⟨ids.blake3 (defHash.bytes.toList ++ inputDataId.toList ++ graphPosition)⟩

structure Mote where
  id : MoteId
  «def» : MoteDef
  inputDataId : InputDataId
  graphPosition : GraphPosition
  parents : List ParentRef

namespace Mote

def new (ids : Identity) (d : MoteDef) (inputDataId : InputDataId)
    (graphPosition : GraphPosition) (parents : List ParentRef) : Mote where
  id := deriveMoteId ids (d.hash ids) inputDataId graphPosition
  «def» := d
  inputDataId := inputDataId
  graphPosition := graphPosition
  parents := parents

def ndClass (m : Mote) : NdClass :=
  m.def.ndClass

def effectPattern (m : Mote) : EffectPattern :=
  m.def.effectPattern

end Mote

end Kortecx.Mote
