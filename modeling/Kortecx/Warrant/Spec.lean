import Kortecx.Lib.Attenuation
import Kortecx.Mote

/-!
The warrant a Mote runs under: what it may read, reach, call and spend. A warrant is
built from one axis of authority after another, each with its own notion of being no
wider; the model keeps every axis.
-/

namespace Kortecx.Warrant

open Lib Mote Std

-- Opaque texts of the source, each a type of its own there.
abbrev ModelId := String
abbrev ToolName := String
abbrev ToolVersion := String
abbrev Host := String
abbrev SecretRef := String

inductive MoteClass where
  | pure
  | readOnlyNondet
  | worldMutating
deriving DecidableEq, Repr

inductive ExecutorClass where
  | bwrap
  | ociDaemon
  | cloudMicroVm
  | macOsSandbox
deriving DecidableEq, Repr

inductive FsMode where
  | readOnly
  | readWrite
  | execOnly
deriving DecidableEq, Repr

namespace FsMode

def isSubsetOf : FsMode → FsMode → Bool
  | .readOnly, .readOnly => true
  | .readOnly, .readWrite => true
  | .readWrite, .readWrite => true
  | .execOnly, .execOnly => true
  | _, _ => false

/-- The operations a mode is about. -/
inductive Op where
  | read
  | write
  | exec
deriving DecidableEq, Repr

def permits : FsMode → Op → Bool
  | .readOnly, .read => true
  | .readWrite, .read => true
  | .readWrite, .write => true
  | .execOnly, .exec => true
  | _, _ => false

/-- A mode is a subset of another exactly when the other permits all it permits. -/
theorem isSubsetOf_iff {m : FsMode} :
    m.isSubsetOf n = true ↔ ∀ op, m.permits op = true → n.permits op = true := by
  constructor
  · intro hsub op hop
    cases m <;> cases n <;> cases op <;> simp_all [isSubsetOf, permits]
  · intro hall
    have hread := hall .read
    have hwrite := hall .write
    have hexec := hall .exec
    cases m <;> cases n <;> simp_all [isSubsetOf, permits]

theorem isSubsetOf_refl (m : FsMode) : m.isSubsetOf m = true :=
  isSubsetOf_iff.2 fun _ hop => hop

theorem isSubsetOf_trans {l : FsMode} (hlm : l.isSubsetOf m = true)
    (hmn : m.isSubsetOf n = true) : l.isSubsetOf n = true := by
  rw [isSubsetOf_iff] at hlm hmn ⊢
  intro op hop
  exact hmn op (hlm op hop)

end FsMode

/-- A path as the keys of a map see it: by its components, so that a doubled or trailing
separator makes no difference. The root is the component `/`. -/
abbrev PathBuf := List String

structure FsScope where
  mounts : ExtTreeMap PathBuf FsMode := ∅
deriving DecidableEq

def FsScope.isSubsetOf (scope parent : FsScope) : Bool :=
  mapWithin FsMode.isSubsetOf scope.mounts parent.mounts

abbrev NetScope := AllowScope Host

@[match_pattern]
abbrev NetScope.egressAllowlist (hosts : ExtTreeSet Host) : NetScope := AllowScope.only hosts

def NetScope.isSubsetOf (scope parent : NetScope) : Bool :=
  AllowScope.isSubsetOf scope parent

abbrev SecretScope := AllowScope SecretRef

@[match_pattern]
abbrev SecretScope.allowList (refs : ExtTreeSet SecretRef) : SecretScope := AllowScope.only refs

def SecretScope.isSubsetOf (scope parent : SecretScope) : Bool :=
  AllowScope.isSubsetOf scope parent

@[ext]
structure ToolGrant where
  toolId : ToolName
  toolVersion : ToolVersion
deriving DecidableEq, Repr

namespace ToolGrant

def fields (grant : ToolGrant) : List String := [grant.toolId, grant.toolVersion]

instance instOrdToolGrant : Ord ToolGrant :=
  ⟨fun a b => compare a.fields b.fields⟩

instance instTransOrdToolGrant : TransOrd ToolGrant :=
  transOrd_of_on (f := fields) fun _ _ => rfl

instance instLawfulEqOrdToolGrant : LawfulEqOrd ToolGrant :=
  lawfulEqOrd_of_on (f := fields) (fun _ _ => rfl) fun a b h => by
    simp only [fields, List.cons.injEq] at h
    exact ToolGrant.ext h.1 h.2.1

end ToolGrant

structure ModelRoute where
  modelId : ModelId := ""
  maxInputTokens : UInt32 := 0
  maxOutputTokens : UInt32 := 0
  maxCalls : UInt32 := 0
deriving DecidableEq, Repr

namespace ModelRoute

/-- The model itself may differ. -/
def isWithin (route parent : ModelRoute) : Bool :=
  route.maxInputTokens ≤ parent.maxInputTokens && route.maxOutputTokens ≤ parent.maxOutputTokens &&
    route.maxCalls ≤ parent.maxCalls

/-- The model is the child's own; what it may consume is not. -/
def narrowQuantitative (route parent : ModelRoute) : ModelRoute where
  modelId := route.modelId
  maxInputTokens := min route.maxInputTokens parent.maxInputTokens
  maxOutputTokens := min route.maxOutputTokens parent.maxOutputTokens
  maxCalls := min route.maxCalls parent.maxCalls

end ModelRoute

structure ResourceCeiling where
  cpuMilli : UInt32 := 0
  memBytes : UInt64 := 0
  wallClockMs : UInt64 := 0
  fdCount : UInt32 := 0
  diskBytes : UInt64 := 0
deriving DecidableEq, Repr

def ResourceCeiling.narrow (ceiling parent : ResourceCeiling) : ResourceCeiling where
  cpuMilli := min ceiling.cpuMilli parent.cpuMilli
  memBytes := min ceiling.memBytes parent.memBytes
  wallClockMs := min ceiling.wallClockMs parent.wallClockMs
  fdCount := min ceiling.fdCount parent.fdCount
  diskBytes := min ceiling.diskBytes parent.diskBytes

structure CostCeiling where
  microUsd : UInt64 := 0
deriving DecidableEq, Repr

def CostCeiling.narrow (ceiling parent : CostCeiling) : CostCeiling where
  microUsd := min ceiling.microUsd parent.microUsd

/-- The default denies everything. -/
structure WarrantSpec where
  moteClass : MoteClass := .pure
  ndClass : MoteClass := .pure
  fsScope : FsScope := {}
  netScope : NetScope := .none
  syscallProfileRef : ContentRef := ⟨.replicate 32 0⟩
  toolGrants : ExtTreeSet ToolGrant := ∅
  modelRoute : ModelRoute := {}
  resourceCeiling : ResourceCeiling := {}
  environmentRef : Option ContentRef := none
  executorClass : ExecutorClass := .bwrap
  secretScope : SecretScope := .none
  costCeiling : CostCeiling := {}
  tlsRequired : Bool := true
deriving DecidableEq

structure Role where
  name : String
  version : UInt32
  spec : WarrantSpec
  description : String
deriving DecidableEq

structure ToolRequirement where
  netScopeRequired : NetScope
  fsScopeRequired : FsScope
  syscallProfileRef : ContentRef
  minResourceCeiling : ResourceCeiling

inductive WarrantField where
  | fsScope
  | netScope
  | syscallProfile
  | toolGrants
  | modelRoute
  | resourceCeiling
  | executorClass
  | environmentRef
  | secretScope
  | costCeiling
  | tlsRequired
deriving DecidableEq, Repr

end Kortecx.Warrant
