import Kortecx.Lib.Worklist
import Kortecx.Projection.ChildrenIndex
import Kortecx.Projection.Journaled

/-!
What the coordinator asks of a projection: a Mote's result, its failure, its downstream,
and the run-level records. Every answer is a function of the folded state.
-/

namespace Kortecx.Projection

open Lib Mote Journal List Worklist Relation

/-- The largest item, and the last of them if there are several, as `max_by` has it. -/
def lastMaxBy {α : Type} (cmp : α → α → Ordering) (items : List α) : Option α :=
  items.foldl
    (fun best x => match best with
      | none => some x
      | some y => if cmp y x = .gt then some y else some x)
    none

/-- A Mote that is neither waiting nor in flight. -/
def isTerminal (state : MoteState) : Bool :=
  state ≠ .pending && state ≠ .scheduled

/-- A consumer is poisoned with its parent along a data edge, and along a control edge
that does not opt out. -/
def cascades (edge : EdgeMeta) : Bool :=
  match edge.kind with
  | .data => true
  | .control => !edge.nonCascade

namespace State

variable (s : State)

def resultRefOf (id : MoteId) : Option ContentRef :=
  (s.info id).committed.map (·.resultRef)

def committedSeqOf (id : MoteId) : Option UInt64 :=
  (s.info id).committed.map (·.seq)

def failureReasonOf (id : MoteId) : Option FailureReason :=
  (s.info id).failureReason

def failureDetailOf (id : MoteId) : String :=
  (s.info id).failureDetail

def childrenOf (id : MoteId) : List (MoteId × EdgeMeta) :=
  s.children.childrenOf id

/-- The Motes one cascade edge down. -/
def consumersOf (id : MoteId) : List MoteId :=
  ((s.childrenOf id).filter fun child => cascades child.2).map (·.1)

/-- The Motes that have an edge to a parent, once for each edge. -/
def childrenEdges : List MoteId :=
  s.children.toList.flatMap fun entry => entry.2.map (·.1)

/-- The set of visited Motes and the order in which they are visited hold the same Motes;
the model keeps the order. -/
def transitiveConsumers (root : MoteId) : List MoteId :=
  Worklist.reached s.consumersOf s.childrenEdges.length root

/-- `iter_motes`, without the states it pairs the ids with. -/
def iterMotes : List MoteId :=
  s.motes.toList.map (·.1)

def hasReactTurn : Bool :=
  !s.reactRounds.isEmpty

def latestReactRound (instanceId : InstanceId) (stepSalt : Option (ByteVec 32)) :
    Option ReactRoundRecord :=
  lastMaxBy (fun a b => (compare a.turn b.turn).then (compare a.seq b.seq))
    (s.reactRoundsOf instanceId stepSalt)

def isReactTurnMote (id : MoteId) : Bool :=
  id ∈ s.reactTurnMotes

def reactToolRoundOfTurnOf (id : MoteId) : Option ReactRoundRecord :=
  s.reactToolRoundOfTurn[id]?.bind fun idx => s.reactRounds[idx]?

def approvalLatestFor (requestId : ByteVec APPROVAL_REQUEST_ID_LEN) : Option ApprovalRecord :=
  s.approvalIndex[requestId]?.bind fun idx => s.approvals[idx]?

def rerankRoundsOf (instanceId : InstanceId) : List ReRankRoundRecord :=
  s.rerankRounds.filter fun r => r.instanceId = instanceId

def latestRerankRound (rerankMoteId : MoteId) : Option ReRankRoundRecord :=
  lastMaxBy (fun a b => compare a.seq b.seq)
    (s.rerankRounds.filter fun r => r.rerankMoteId = rerankMoteId)

def latestRerankRoundByBase (instanceId : InstanceId) (baseResultsRef : ContentRef) :
    Option ReRankRoundRecord :=
  lastMaxBy (fun a b => compare a.seq b.seq)
    (s.rerankRounds.filter fun r =>
      r.instanceId = instanceId ∧ r.baseResultsRef = baseResultsRef)

/-- The first record of the tool counts, whatever version of it the record is about. -/
def idempotencyClassForTool (toolId : String) : Option IdempotencyClassTag :=
  ((s.runResolvedVersions.filterMap (·.capability)).find? fun cap => cap.toolId = toolId).map
    (·.idempotencyClass)

section Downstream

variable {s} {parent child : MoteId}

theorem mem_childrenEdges (hchild : child ∈ s.consumersOf parent) :
    child ∈ s.childrenEdges := by
  obtain ⟨entry, hentry, rfl⟩ := mem_map.1 hchild
  have hmem := (mem_filter.1 hentry).1
  unfold childrenOf ReverseIndex.childrenOf at hmem
  cases hget : s.children[parent]? with
  | none => simp [hget] at hmem
  | some children =>
    rw [hget, Option.getD_some] at hmem
    apply mem_flatMap.2
    refine ⟨(parent, children), ?_, mem_map_of_mem hmem⟩
    exact Std.ExtTreeMap.mem_toList_iff_getElem?_eq_some.2 hget

def CascadeEdge (s : State) (parent child : MoteId) : Prop :=
  ∃ edge, (child, edge) ∈ s.childrenOf parent ∧
    (edge.kind = .data ∨ edge.kind = .control ∧ edge.nonCascade = false)

theorem mem_consumersOf_iff_cascadeEdge :
    child ∈ s.consumersOf parent ↔ s.CascadeEdge parent child := by
  unfold consumersOf CascadeEdge
  simp only [mem_map, mem_filter, Prod.exists, exists_and_right, exists_eq_right]
  apply exists_congr
  intro edge
  apply and_congr_right
  intro _
  unfold cascades
  cases edge.kind <;> simp

/-- The walk drains its queue whatever the graph, cycles and parallel edges included, and
what it lists, each Mote once, is what a non-empty path of cascade edges leads to. An edge
that opts out does not hide another one that does not. -/
theorem transitiveConsumers_exact (s : State) (root : MoteId) :
    (∃ turns, (Worklist.turn s.consumersOf)^[turns] ([root], []) =
        ([], s.transitiveConsumers root)) ∧
      (s.transitiveConsumers root).Nodup ∧
      (∀ id, id ∈ s.transitiveConsumers root ↔ TransGen s.CascadeEdge root id) ∧
      (∀ parent child optedOut cascading,
        parent = root ∨ parent ∈ s.transitiveConsumers root →
        (child, optedOut) ∈ s.childrenOf parent → cascades optedOut = false →
        (child, cascading) ∈ s.childrenOf parent → cascades cascading = true →
        child ∈ s.transitiveConsumers root) := by
  have hsucc : ∀ parent, ∀ child ∈ s.consumersOf parent, child ∈ s.childrenEdges :=
    fun _ _ hchild => mem_childrenEdges hchild
  have hrel : (fun parent child => child ∈ s.consumersOf parent) = s.CascadeEdge := by
    funext parent child
    exact propext mem_consumersOf_iff_cascadeEdge
  have hmem : ∀ id, id ∈ s.transitiveConsumers root ↔
      TransGen s.CascadeEdge root id := by
    intro id
    rw [← hrel]
    exact mem_search_root hsucc le_rfl
  refine ⟨⟨s.childrenEdges.length + 1, ?_⟩, nodup_search nodup_nil, hmem, ?_⟩
  · apply Prod.ext
    · apply iterate_turn_fst hsucc nodup_nil (nil_subset _)
      simp only [length_singleton, length_nil]
      omega
    · exact iterate_turn_snd _ _ _
  · intro parent child _ cascading hparent _ _ hchild hcascades
    have hedge : s.CascadeEdge parent child :=
      mem_consumersOf_iff_cascadeEdge.1
        (mem_map.2 ⟨_, mem_filter.2 ⟨hchild, hcascades⟩, rfl⟩)
    rw [hmem]
    rcases hparent with rfl | hparent
    · exact .single hedge
    · exact ((hmem parent).1 hparent).tail hedge

end Downstream

section Approvals

variable {materializer : Option TopologyMaterializer} {s : State} {es : List JournalEntry}

def isRequested : ApprovalState → Bool
  | .requested .. => true
  | _ => false

/-- `pending_approvals`: the index is walked, so the request ids give the order. -/
def pendingApprovals (s : State) : List ApprovalRecord :=
  (s.approvalIndex.toList.filterMap fun entry => s.approvals[entry.2]?).filter fun a =>
    isRequested a.state

def approvalOf : JournalEntry → Option ApprovalRecord
  | .approval e => some e
  | _ => none

theorem collects_approvals : Collects State.approvals approvalOf where
  runRecords _ := rfl
  recordsAfter s e := by
    cases e with
    | reactRound e | approval e => simp [State.recordsAfter, subject, State.advance, approvalOf]
    | _ => exact (append_nil _).symm

/-- The index of a list points to the last record of each request. -/
theorem approvalIndexOf_spec (approvals : List ApprovalRecord)
    (requestId : ByteVec APPROVAL_REQUEST_ID_LEN) :
    ((approvalIndexOf approvals)[requestId]?.bind fun idx => approvals[idx]?) =
        (approvals.filter fun a => a.requestId = requestId).getLast? ∧
      ∀ idx, (approvalIndexOf approvals)[requestId]? = some idx → idx < approvals.length := by
  induction approvals using List.reverseRecOn with
  | nil => simp [approvalIndexOf]
  | append_singleton approvals record ih =>
    obtain ⟨hlatest, hbound⟩ := ih
    rw [approvalIndexOf_concat, Std.ExtTreeMap.getElem?_insert, filter_append,
      length_append, length_singleton]
    by_cases hsame : record.requestId = requestId
    · simp [hsame]
    simp only [Std.compare_eq_iff_eq, hsame, if_false, filter_singleton, decide_false,
      cond_false, append_nil]
    refine ⟨?_, fun idx hidx => Nat.lt_succ_of_lt (hbound idx hidx)⟩
    rw [← hlatest]
    cases hidx : (approvalIndexOf approvals)[requestId]? with
    | none => rfl
    | some idx => exact List.getElem?_append_left (hbound idx hidx)

theorem approvalLatestFor_eq (hs : s.Derived) (requestId : ByteVec APPROVAL_REQUEST_ID_LEN) :
    s.approvalLatestFor requestId =
      (s.approvals.filter fun a => a.requestId = requestId).getLast? := by
  unfold approvalLatestFor
  rw [hs.approval]
  exact (approvalIndexOf_spec s.approvals requestId).1

variable {a : ApprovalRecord}

/-- What the index points to is the latest record of the request it is entered under. -/
theorem latest_of_mem_approvalIndex (hs : s.Derived)
    (hentry : entry ∈ s.approvalIndex.toList) (ha : s.approvals[entry.2]? = some a) :
    a.requestId = entry.1 ∧ s.approvalLatestFor a.requestId = some a := by
  have hlatest : s.approvalLatestFor entry.1 = some a := by
    unfold approvalLatestFor
    rw [Std.ExtTreeMap.mem_toList_iff_getElem?_eq_some.1 hentry]
    exact ha
  have hid : a.requestId = entry.1 := by
    rw [approvalLatestFor_eq hs] at hlatest
    simpa using (mem_filter.1 (mem_of_getLast? hlatest)).2
  rw [hid]
  exact ⟨rfl, hlatest⟩

theorem mem_pendingApprovals (hs : s.Derived) :
    a ∈ s.pendingApprovals ↔
      s.approvalLatestFor a.requestId = some a ∧ isRequested a.state = true := by
  unfold pendingApprovals
  rw [mem_filter, mem_filterMap]
  apply and_congr_left
  intro _
  constructor
  · rintro ⟨entry, hentry, ha⟩
    exact (latest_of_mem_approvalIndex hs hentry ha).2
  · intro hlatest
    obtain ⟨idx, hidx, ha⟩ := Option.bind_eq_some_iff.1 hlatest
    exact ⟨(a.requestId, idx), Std.ExtTreeMap.mem_toList_iff_getElem?_eq_some.2 hidx, ha⟩

/-- The pending approvals stand in the order of their request ids. -/
theorem pairwise_pendingApprovals (hs : s.Derived) :
    s.pendingApprovals.Pairwise fun a b => compare a.requestId b.requestId = .lt := by
  apply List.Pairwise.filter
  rw [pairwise_filterMap]
  apply List.Pairwise.imp_of_mem _ Std.ExtTreeMap.ordered_keys_toList
  intro x y hx hy hlt a ha b hb
  rw [(latest_of_mem_approvalIndex hs hx ha).1, (latest_of_mem_approvalIndex hs hy hb).1]
  exact hlt

/-- Of the entries the last approval of its request, and one that still asks. -/
def StillAsks (es : List JournalEntry) (a : ApprovalRecord) : Prop :=
  ((es.filterMap approvalOf).filter fun b => b.requestId = a.requestId).getLast? = some a ∧
    isRequested a.state = true

def Ascends (a b : ApprovalRecord) : Prop :=
  compare a.requestId b.requestId = .lt → a.seq < b.seq

/-- After any journal the latest record of a request is the last folded for it, and the
pending approvals are the requests whose last record still asks, each once. They stand in
the order of the journal exactly if the ids of these requests are in that order. Loading a
checkpoint brings the same state back. -/
theorem pendingApprovals_exact (hreplay : replay materializer {} es = .ok s) :
    (∀ requestId, s.approvalLatestFor requestId =
        ((es.filterMap approvalOf).filter fun a => a.requestId = requestId).getLast?) ∧
      (∀ a, a ∈ s.pendingApprovals ↔ StillAsks es a) ∧
      (s.pendingApprovals.map (·.requestId)).Nodup ∧
      ((s.pendingApprovals.Pairwise fun a b => a.seq < b.seq) ↔
        ∀ a b, StillAsks es a → StillAsks es b → Ascends a b) ∧
      ∀ loaded, (CheckpointState.ofState s).toState = .ok loaded → loaded = s := by
  have hs : s.Derived := by
    rw [← (replay_eq_ok.1 hreplay).1]
    exact derived_foldMany derived_default es
  have hordered := pairwise_pendingApprovals hs
  have happrovals : s.approvals = es.filterMap approvalOf := collects_approvals.replay hreplay
  have hasks : ∀ a, a ∈ s.pendingApprovals ↔ StillAsks es a := by
    intro a
    rw [mem_pendingApprovals hs, approvalLatestFor_eq hs, happrovals]
    rfl
  rw [← happrovals]
  refine ⟨approvalLatestFor_eq hs, hasks, ?_, ⟨fun hseqs a b ha hb => ?_, fun hascend => ?_⟩, ?_⟩
  · apply pairwise_map.2
    apply hordered.imp
    intro a b hlt heq
    have hself : compare b.requestId b.requestId = .eq := Std.ReflCmp.compare_self
    rw [heq, hself] at hlt
    cases hlt
  · have hahead : s.pendingApprovals.Pairwise Ascends := by
      apply hseqs.imp
      exact fun hlt _ => hlt
    have hback : s.pendingApprovals.Pairwise (flip Ascends) := by
      apply hordered.imp
      intro a b hlt hgt
      rw [Std.OrientedCmp.gt_of_lt hlt] at hgt
      cases hgt
    exact hahead.forall_of_forall_of_flip (by simp [Ascends]) hback ((hasks a).2 ha)
      ((hasks b).2 hb)
  · exact hordered.imp_of_mem fun ha hb hlt => hascend _ _ ((hasks _).1 ha) ((hasks _).1 hb) hlt
  · intro loaded hload
    obtain ⟨hstored, hloaded⟩ := toState_eq_ok hload
    exact hloaded.eq_of_ofState hs hstored

def requestAt (byte : UInt8) (seq : UInt64) : ApprovalRecord where
  instanceId := .replicate 16 0
  requestId := .replicate 16 byte
  awaitingMoteId := ⟨.replicate 32 0⟩
  state := .requested "" "" "" 0 0
  seq := seq

theorem pendingApprovals_exact_ascending :
    ∃ s, replay none {} [.approval (requestAt 1 1), .approval (requestAt 2 2)] = .ok s ∧
      s.pendingApprovals = [requestAt 1 1, requestAt 2 2] ∧
      s.pendingApprovals.Pairwise fun a b => a.seq < b.seq := by
  have hreplay : ∃ s,
      replay none {} [.approval (requestAt 1 1), .approval (requestAt 2 2)] = .ok s ∧
      s.pendingApprovals = [requestAt 1 1, requestAt 2 2] := ⟨_, rfl, by decide +kernel⟩
  obtain ⟨s, hs, hpending⟩ := hreplay
  obtain ⟨-, hasks, -, hascend, -⟩ := pendingApprovals_exact hs
  refine ⟨s, hs, hpending, hascend.2 fun a b ha hb => ?_⟩
  rw [← hasks, hpending] at ha hb
  rcases mem_pair.1 ha with rfl | rfl <;> rcases mem_pair.1 hb with rfl | rfl <;>
    unfold Ascends <;> decide +kernel

/-- The request folded first has the larger id and is listed last. -/
theorem pendingApprovals_by_requestId :
    ∃ s, replay none {} [.approval (requestAt 2 1), .approval (requestAt 1 2)] = .ok s ∧
      s.pendingApprovals = [requestAt 1 2, requestAt 2 1] :=
  ⟨_, rfl, by decide +kernel⟩

end Approvals

end State

end Kortecx.Projection
