import Kortecx.Journal.Entry
import Kortecx.Lib.ReverseIndex

/-!
The state a projection folds the journal into: what is known of each Mote, the reverse
index from a parent to its children, and the run-level records with the views derived
from them. Everything a query reads is here; nothing of it is stored anywhere but in
the journal.
-/

namespace Kortecx.Projection

open Lib Mote Journal List

inductive MoteState where
  | pending
  | scheduled
  | committed
  | failed
  | repudiated
  | inconsistent
deriving DecidableEq, Repr

inductive AnomalyKind where
  | effectStagedThenRepudiatedNoCommitted
  | quarantinedAtLeastOnceEffect
deriving DecidableEq, Repr

structure CommittedInfo where
  seq : UInt64
  resultRef : ContentRef
  nondeterminism : NdClass
  parentsInEntry : List ParentEntry
  warrantRef : ContentRef
  moteDefHash : MoteDefHash
  repudiated : Bool
deriving DecidableEq, Repr

structure DeclaredInfo where
  ndClass : NdClass
  effectPattern : EffectPattern
  criticFor : Option MoteId
  isTopologyShaper : Bool
  parents : List ParentRef
  warrantRef : ContentRef
deriving DecidableEq, Repr

/-- What is known of one Mote; the default is what is known of a Mote never heard of. -/
structure MoteInfo where
  declared : Option DeclaredInfo := none
  committed : Option CommittedInfo := none
  hasProposed : Bool := false
  /-- Reset by a later `Proposed`; the four flags below are never reset. -/
  failedPendingReattempt : Bool := false
  effectStagedObserved : Bool := false
  terminalFailureObserved : Bool := false
  inconsistent : Bool := false
  quarantined : Bool := false
  failureReason : Option FailureReason := none
  failureDetail : String := ""
deriving DecidableEq, Repr

structure RunRegistration where
  instanceId : InstanceId
  recipeFingerprint : ByteVec 32
deriving DecidableEq, Repr

structure RunResolvedVersions where
  instanceId : InstanceId
  warrantRef : ContentRef
  modelId : String
  capability : Option ResolvedCapabilityRecord
deriving DecidableEq, Repr

-- These records keep every field of the entry they are folded from.
abbrev ReplanRoundRecord := ReplanRound
abbrev ReactRoundRecord := ReactRound
abbrev ReRankRoundRecord := ReRankRound
abbrev ApprovalRecord := Approval
abbrev TimerRecord := TimerArmed

/-- Run, then chain within the run, to the positions of the chain's rounds. -/
abbrev ReactChainIndex :=
  Std.ExtTreeMap InstanceId (Std.ExtTreeMap (Option (ByteVec 32)) (List Nat))

/-- The views derived from the ReAct rounds. A checkpoint does not store them. -/
@[ext]
structure ReactViews where
  reactIndex : ReactChainIndex := ∅
  reactTurnMotes : Std.ExtTreeSet MoteId := ∅
  reactToolRoundOfTurn : Std.ExtTreeMap MoteId Nat := ∅

def firesTool : ReactBranch → Bool
  | .tool .. | .toolBatch .. => true
  | _ => false

/-- Enter the round at position `idx`. -/
def ReactViews.index (views : ReactViews) (idx : Nat) (record : ReactRoundRecord) :
    ReactViews where
  reactIndex := views.reactIndex.alter record.instanceId fun chains =>
    some ((chains.getD ∅).alter record.stepSalt fun rounds => some (rounds.getD [] ++ [idx]))
  reactTurnMotes := views.reactTurnMotes.insert record.turnMoteId
  reactToolRoundOfTurn :=
    if firesTool record.branch then views.reactToolRoundOfTurn.insert record.turnMoteId idx
    else views.reactToolRoundOfTurn

def ReactViews.positions (instanceId : InstanceId) (stepSalt : Option (ByteVec 32))
    (views : ReactViews) : List Nat :=
  (views.reactIndex[instanceId]?.bind fun chains => chains[stepSalt]?).getD []

abbrev ApprovalIndex :=
  Std.ExtTreeMap (ByteVec APPROVAL_REQUEST_ID_LEN) Nat

@[ext]
structure State extends ReactViews where
  motes : Std.ExtTreeMap MoteId MoteInfo := ∅
  children : ReverseIndex MoteId MoteId EdgeMeta := ∅
  lastSeq : UInt64 := 0
  runRegistration : Option RunRegistration := none
  runResolvedVersions : List RunResolvedVersions := []
  replanRounds : List ReplanRoundRecord := []
  reactRounds : List ReactRoundRecord := []
  approvals : List ApprovalRecord := []
  approvalIndex : ApprovalIndex := ∅
  rerankRounds : List ReRankRoundRecord := []
  timers : List TimerRecord := []

namespace State

/-- What is known of `id`, the value `moteinfo_mut` gives access to. -/
def info (s : State) (id : MoteId) : MoteInfo :=
  s.motes[id]?.getD {}

/-- Write through `moteinfo_mut`: the Mote is known from then on. -/
def moteinfoMut (s : State) (id : MoteId) (f : MoteInfo → MoteInfo) : State :=
  { s with motes := s.motes.insert id (f (s.info id)) }

/-- The frontier never moves back. -/
def advance (s : State) (seq : UInt64) : State :=
  { s with lastSeq := max s.lastSeq seq }

def indexLastReactRound (s : State) : State :=
  match s.reactRounds.getLast? with
  | none => s
  | some record => { s with
      toReactViews := s.toReactViews.index (s.reactRounds.length - 1) record }

def indexLastApproval (s : State) : State :=
  match s.approvals.getLast? with
  | none => s
  | some record => { s with
      approvalIndex := s.approvalIndex.insert record.requestId (s.approvals.length - 1) }

def reactRoundsOf (s : State) (instanceId : InstanceId) (stepSalt : Option (ByteVec 32)) :
    List ReactRoundRecord :=
  ((s.reactIndex[instanceId]?.bind fun chains => chains[stepSalt]?).getD []).filterMap
    fun idx => s.reactRounds[idx]?

def reactChains (s : State) : List (InstanceId × Option (ByteVec 32)) :=
  s.reactIndex.toList.flatMap fun (instanceId, chains) =>
    chains.toList.map fun (stepSalt, _) => (instanceId, stepSalt)

def hasDeclaredCritic (s : State) : Bool :=
  s.motes.toList.any fun (_, info) => info.declared.any fun d => d.criticFor.isSome

/-- The terminal failure is asked for before the staged effect: the other way round, a
Mote whose effect failed for good would count as in flight. -/
def stateOfId (s : State) (id : MoteId) : MoteState :=
  match s.motes[id]? with
  | none => .pending
  | some info =>
    if info.inconsistent then .inconsistent
    else match info.committed with
      | some c => if c.repudiated then .repudiated else .committed
      | none =>
        if info.terminalFailureObserved then .failed
        else if info.effectStagedObserved then .pending
        else if info.failedPendingReattempt then .failed
        else if info.hasProposed then .scheduled
        else .pending

def canRedispatchWorldEffectId (s : State) (id : MoteId) : Bool :=
  match s.motes[id]? with
  | none => false
  | some info =>
    if info.inconsistent then false
    else if info.terminalFailureObserved then false
    else if info.committed.isSome then false
    else info.effectStagedObserved

def anomalyMotes (s : State) : List (MoteId × AnomalyKind) :=
  s.motes.toList.flatMap fun (id, info) =>
    (if info.inconsistent then [(id, .effectStagedThenRepudiatedNoCommitted)] else []) ++
      if info.quarantined then [(id, .quarantinedAtLeastOnceEffect)] else []

end State

namespace MoteInfo

/-- `state_of_id` as a function of what is known of the Mote. -/
def state (info : MoteInfo) : MoteState :=
  if info.inconsistent then .inconsistent
  else match info.committed with
    | some c => if c.repudiated then .repudiated else .committed
    | none =>
      if info.terminalFailureObserved then .failed
      else if info.effectStagedObserved then .pending
      else if info.failedPendingReattempt then .failed
      else if info.hasProposed then .scheduled
      else .pending

variable {info : MoteInfo}

theorem state_eq_committed :
    info.state = .committed ↔
      info.inconsistent = false ∧ ∃ c, info.committed = some c ∧ c.repudiated = false := by
  unfold state
  cases hcommitted : info.committed <;> grind

theorem state_eq_pending :
    info.state = .pending ↔ info.inconsistent = false ∧ info.committed = none ∧
      info.terminalFailureObserved = false ∧ (info.effectStagedObserved = true ∨
        info.failedPendingReattempt = false ∧ info.hasProposed = false) := by
  unfold state
  cases hcommitted : info.committed <;> grind

theorem state_eq_scheduled :
    info.state = .scheduled ↔ info.inconsistent = false ∧ info.committed = none ∧
      info.terminalFailureObserved = false ∧ info.effectStagedObserved = false ∧
      info.failedPendingReattempt = false ∧ info.hasProposed = true := by
  unfold state
  cases hcommitted : info.committed <;> grind

end MoteInfo

/-- The parents a Mote's edges come from: the declared ones if it is declared. A parent
entry whose edge bytes do not read is skipped. -/
def MoteInfo.effectiveParents (info : MoteInfo) : List (MoteId × EdgeMeta) :=
  match info.declared with
  | some d => d.parents.map fun p => (p.parentId, p.edge)
  | none =>
    match info.committed with
    | some c => (c.parentsInEntry.filterMap ParentEntry.toParentRef).map fun p =>
      (p.parentId, p.edge)
    | none => []

namespace State

def parentsOfId (s : State) (id : MoteId) : List (MoteId × EdgeMeta) :=
  match s.motes[id]? with
  | none => []
  | some info => info.effectiveParents

/-- The children index from nothing. The release build keeps it incrementally and has
this only as an oracle. -/
def rebuildChildrenIndex (s : State) : State :=
  { s with children := ReverseIndex.build s.motes.keys s.parentsOfId }

def insertChildEdge (s : State) (parent child : MoteId) (edge : EdgeMeta) : State :=
  { s with children := s.children.insertEdge parent child edge }

def removeChildEntries (s : State) (parent child : MoteId) : State :=
  { s with children := s.children.removeChild parent child }

/-- Bring the index up to date with the child's parents, given those it had before. -/
def reindexChildEdges (s : State) (child : MoteId) (oldEffective : List (MoteId × EdgeMeta)) :
    State :=
  let removed := oldEffective.foldl (fun s old => s.removeChildEntries old.1 child) s
  (removed.parentsOfId child).foldl (fun s new => s.insertChildEdge new.1 child new.2) removed

def setDeclared (s : State) (moteId : MoteId) (declared : DeclaredInfo) : State :=
  let oldEffective := s.parentsOfId moteId
  (s.moteinfoMut moteId fun info => { info with declared := some declared }).reindexChildEdges
    moteId oldEffective

def indexCommitted (s : State) (moteId : MoteId) (oldEffective : List (MoteId × EdgeMeta)) :
    State :=
  s.reindexChildEdges moteId oldEffective

section Lookup

variable (s : State) (id k : MoteId) (f : MoteInfo → MoteInfo)

theorem info_moteinfoMut :
    (s.moteinfoMut id f).info k = if id = k then f (s.info id) else s.info k := by
  unfold info moteinfoMut
  rw [Std.ExtTreeMap.getElem?_insert]
  simp only [Std.compare_eq_iff_eq]
  split <;> rfl

@[simp]
theorem info_moteinfoMut_self : (s.moteinfoMut id f).info id = f (s.info id) := by
  rw [info_moteinfoMut, if_pos rfl]

variable (child : MoteId) (seq : UInt64) (oldEffective : List (MoteId × EdgeMeta))

@[simp]
theorem info_advance : (s.advance seq).info k = s.info k := rfl

@[simp]
theorem parentsOfId_advance : (s.advance seq).parentsOfId k = s.parentsOfId k := rfl

theorem parentsOfId_eq : s.parentsOfId k = (s.info k).effectiveParents := by
  unfold parentsOfId info
  cases s.motes[k]? <;> rfl

/-- What a pass over the known Motes finds at a Mote is what is known of it. -/
theorem info_of_mem_toList {info : MoteInfo} (hmem : (k, info) ∈ s.motes.toList) :
    s.info k = info := by
  rw [State.info, Std.ExtTreeMap.mem_toList_iff_getElem?_eq_some.1 hmem, Option.getD_some]

theorem mem_toList_of_info_ne (hheard : s.info k ≠ {}) : (k, s.info k) ∈ s.motes.toList := by
  apply Std.ExtTreeMap.mem_toList_iff_getElem?_eq_some.2
  unfold info at hheard ⊢
  cases hk : s.motes[k]? with
  | none =>
    rw [hk] at hheard
    exact absurd rfl hheard
  | some info => rfl

theorem canRedispatchWorldEffectId_iff :
    s.canRedispatchWorldEffectId k = true ↔
      (s.info k).effectStagedObserved = true ∧ (s.info k).committed = none ∧
        (s.info k).terminalFailureObserved = false ∧ (s.info k).inconsistent = false := by
  unfold canRedispatchWorldEffectId info
  cases s.motes[k]? with
  | none => simp
  | some info =>
    cases hi : info.inconsistent <;> cases ht : info.terminalFailureObserved <;>
      cases hc : info.committed <;> simp [hi, ht, hc]

theorem stateOfId_eq_state : s.stateOfId k = (s.info k).state := by
  unfold stateOfId info
  cases s.motes[k]? <;> rfl

theorem stateOfId_eq_committed :
    s.stateOfId k = .committed ↔
      (s.info k).inconsistent = false ∧
        ∃ c, (s.info k).committed = some c ∧ c.repudiated = false := by
  rw [stateOfId_eq_state, MoteInfo.state_eq_committed]

theorem foldl_children {α : Type}
    (step : ReverseIndex MoteId MoteId EdgeMeta → α → ReverseIndex MoteId MoteId EdgeMeta)
    (items : List α) (s : State) :
    items.foldl (fun s a => { s with children := step s.children a }) s =
      { s with children := items.foldl step s.children } := by
  induction items generalizing s with
  | nil => rfl
  | cons a items ih => rw [foldl_cons, ih, foldl_cons]

/-- The two loops over edges replace the child's edges in the index. -/
theorem reindexChildEdges_eq :
    s.reindexChildEdges child oldEffective =
      { s with children := s.children.reindex child oldEffective (s.parentsOfId child) } := by
  unfold reindexChildEdges removeChildEntries insertChildEdge
  rw [foldl_children (fun idx (old : MoteId × EdgeMeta) => idx.removeChild old.1 child)]
  rw [foldl_children (fun idx (new : MoteId × EdgeMeta) => idx.insertEdge new.1 child new.2)]
  rfl

@[simp]
theorem info_reindexChildEdges :
    (s.reindexChildEdges child oldEffective).info k = s.info k := by
  rw [reindexChildEdges_eq]
  rfl

end Lookup

end State

end Kortecx.Projection
