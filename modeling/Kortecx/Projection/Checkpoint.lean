import Kortecx.Projection.Fold

/-!
A checkpoint stores a folded state next to the journal so that recovery can start from it. The
views derived from the run-level records are not stored: loading derives them again.

The serialization is bincode's, and enters as a pair of functions; what is known of them is stated
where it is used.
-/

namespace Kortecx.Projection

open Lib Mote Journal List Std

def CURRENT_FORMAT_VERSION : UInt16 := 11
def PAYLOAD_CODEC : UInt8 := 0

inductive CheckpointError where
  | tooShort (got need : Nat)
  | unsupportedVersion (got : UInt16)
  | unsupportedCodec (got : UInt8)
  | digestMismatch
  | decode (reason : String)
  | malformedParent (edgeKind nonCascade : UInt8)
deriving DecidableEq, Repr

@[ext]
structure CheckpointState where
  motes : ExtTreeMap MoteId MoteInfo
  children : ReverseIndex MoteId MoteId EdgeMeta
  lastSeq : UInt64
  runRegistration : Option RunRegistration
  runResolvedVersions : List RunResolvedVersions
  replanRounds : List ReplanRoundRecord
  reactRounds : List ReactRoundRecord
  approvals : List ApprovalRecord
  rerankRounds : List ReRankRoundRecord
  timers : List TimerRecord

def CheckpointState.ofState (s : State) : CheckpointState where
  motes := s.motes
  children := s.children
  lastSeq := s.lastSeq
  runRegistration := s.runRegistration
  runResolvedVersions := s.runResolvedVersions
  replanRounds := s.replanRounds
  reactRounds := s.reactRounds
  approvals := s.approvals
  rerankRounds := s.rerankRounds
  timers := s.timers

def ReactViews.ofRounds (rounds : List ReactRoundRecord) : ReactViews :=
  rounds.zipIdx.foldl (fun views round => views.index round.2 round.1) {}

def approvalIndexOf (approvals : List ApprovalRecord) : ApprovalIndex :=
  approvals.zipIdx.foldl (fun index approval => index.insert approval.1.requestId approval.2) ∅

def deriveReactIndex (s : State) : State :=
  { s with toReactViews := ReactViews.ofRounds s.reactRounds }

def deriveApprovalIndex (s : State) : State :=
  { s with approvalIndex := approvalIndexOf s.approvals }

/-- The edge bytes of every parent are read again, as the journal's decoder does. -/
def CommittedInfo.tryFrom (dto : CommittedInfo) : Except CheckpointError CommittedInfo := do
  let parents ← dto.parentsInEntry.mapM fun parent =>
    if parent.toParentRef.isNone then
      .error (.malformedParent parent.edgeKind parent.nonCascade)
    else .ok parent
  return { dto with parentsInEntry := parents }

def MoteInfo.tryFrom (dto : MoteInfo) : Except CheckpointError MoteInfo :=
  match dto.committed with
  | none => .ok dto
  | some committed => (CommittedInfo.tryFrom committed).map fun c => { dto with committed := some c }

def CheckpointState.toState (dto : CheckpointState) : Except CheckpointError State := do
  let motes ← dto.motes.toList.foldlM (fun decoded mote => do
    let info ← MoteInfo.tryFrom mote.2
    return decoded.insert mote.1 info) (∅ : ExtTreeMap MoteId MoteInfo)
  let state : State :=
    { motes
      children := dto.children
      lastSeq := dto.lastSeq
      runRegistration := dto.runRegistration
      runResolvedVersions := dto.runResolvedVersions
      replanRounds := dto.replanRounds
      reactRounds := dto.reactRounds
      approvals := dto.approvals
      rerankRounds := dto.rerankRounds
      timers := dto.timers }
  return deriveApprovalIndex (deriveReactIndex state)

/-- Serialization of a stored state. Decoding also says how many bytes it used. -/
structure Bincode where
  encode : CheckpointState → List UInt8
  decode : List UInt8 → Except String (CheckpointState × Nat)

/-- What was encoded is decoded again, from all of its bytes. -/
def Bincode.RoundTrips (bincode : Bincode) (dto : CheckpointState) : Prop :=
  bincode.decode (bincode.encode dto) = .ok (dto, (bincode.encode dto).length)

def encodeState (bincode : Bincode) (s : State) : List UInt8 :=
  bincode.encode (.ofState s)

structure FoldCheckpoint where
  formatVersion : UInt16
  payloadCodec : UInt8
  journalOffset : UInt64
  digest : ByteVec 32
  payload : List UInt8
deriving DecidableEq, Repr

section Envelope

variable (blake3 : List UInt8 → ByteVec 32) (bincode : Bincode)

/-- `state_digest`, the value a seal in the journal carries. -/
def stateContentDigest (s : State) : ByteVec 32 :=
  blake3 (encodeState bincode s)

def envelopeDigest (version : UInt16) (codec : UInt8) (offset : UInt64) (payload : List UInt8) :
    ByteVec 32 :=
  blake3 (leBytes 2 version.toNat ++ [codec] ++ leBytes 8 offset.toNat ++ payload)

namespace FoldCheckpoint

def fromState (s : State) : FoldCheckpoint :=
  let payload := encodeState bincode s
  { formatVersion := CURRENT_FORMAT_VERSION
    payloadCodec := PAYLOAD_CODEC
    journalOffset := s.lastSeq
    digest := envelopeDigest blake3 CURRENT_FORMAT_VERSION PAYLOAD_CODEC s.lastSeq payload
    payload }

def verify (cp : FoldCheckpoint) : Bool :=
  cp.formatVersion == CURRENT_FORMAT_VERSION && cp.payloadCodec == PAYLOAD_CODEC &&
    envelopeDigest blake3 cp.formatVersion cp.payloadCodec cp.journalOffset cp.payload == cp.digest

def payloadStateDigest (cp : FoldCheckpoint) : ByteVec 32 :=
  blake3 cp.payload

def decodeState (cp : FoldCheckpoint) : Except CheckpointError State := do
  let (dto, consumed) ← (bincode.decode cp.payload).mapError .decode
  let len := cp.payload.length
  if consumed ≠ len then
    throw (.decode s!"trailing bytes: consumed {consumed} of {len}")
  dto.toState

end FoldCheckpoint

end Envelope

structure State.Derived (s : State) : Prop where
  react : s.toReactViews = ReactViews.ofRounds s.reactRounds
  approval : s.approvalIndex = approvalIndexOf s.approvals

theorem ofRounds_concat (rounds : List ReactRoundRecord) (record : ReactRoundRecord) :
    ReactViews.ofRounds (rounds ++ [record]) =
      (ReactViews.ofRounds rounds).index rounds.length record := by
  unfold ReactViews.ofRounds
  rw [zipIdx_append, foldl_append]
  simp

theorem approvalIndexOf_concat (approvals : List ApprovalRecord) (record : ApprovalRecord) :
    approvalIndexOf (approvals ++ [record]) =
      (approvalIndexOf approvals).insert record.requestId approvals.length := by
  unfold approvalIndexOf
  rw [zipIdx_append, foldl_append]
  simp

theorem derived_default : ({} : State).Derived := ⟨rfl, rfl⟩

variable {s : State}

theorem derived_reindexChildEdges (hs : s.Derived) (child : MoteId)
    (oldEffective : List (MoteId × EdgeMeta)) :
    (s.reindexChildEdges child oldEffective).Derived := by
  rw [State.reindexChildEdges_eq]
  exact ⟨hs.react, hs.approval⟩

/-- Entering a new record into the views gives the views of the longer list. -/
theorem derived_foldRunMetadata (hs : s.Derived) (e : JournalEntry) :
    (foldRunMetadata s e).Derived := by
  cases e with
  | reactRound e =>
    rw [foldRunMetadata_reactRound]
    refine ⟨?_, hs.approval⟩
    simp only [State.advance]
    rw [ofRounds_concat, hs.react]
  | approval e =>
    rw [foldRunMetadata_approval]
    refine ⟨hs.react, ?_⟩
    simp only [State.advance]
    rw [approvalIndexOf_concat, hs.approval]
  | _ => exact ⟨hs.react, hs.approval⟩

variable {materializer : Option TopologyMaterializer}

theorem derived_fold (hs : s.Derived) (e : JournalEntry) : (fold materializer s e).1.Derived := by
  apply fold_preserves e hs
  · exact fun s _ _ _ hs => ⟨hs.react, hs.approval⟩
  · exact fun s _ hs => ⟨hs.react, hs.approval⟩
  · intro s c _ hs
    apply derived_reindexChildEdges
    exact ⟨hs.react, hs.approval⟩
  · intro s reg hs
    apply derived_reindexChildEdges
    exact ⟨hs.react, hs.approval⟩
  · exact fun s e hs => derived_foldRunMetadata hs e

theorem derived_foldMany (hs : s.Derived)
    (es : List JournalEntry) : (foldMany materializer s es).1.Derived :=
  foldMany_preserves es hs fun _ e hs => derived_fold hs e

theorem CommittedInfo.eq_of_tryFrom (hok : CommittedInfo.tryFrom dto = .ok c) : c = dto := by
  obtain ⟨parents, hparents, hc⟩ := except_bind_eq_ok.mp hok
  have hsame : parents.map id = dto.parentsInEntry.map id := by
    apply map_eq_of_mapM_ok hparents
    intro parent _ parent' heq
    split at heq
    · cases heq
    cases heq
    rfl
  rw [map_id, map_id] at hsame
  cases hc
  rw [hsame]

theorem MoteInfo.eq_of_tryFrom (hok : MoteInfo.tryFrom dto = .ok info) :
    info = dto := by
  unfold MoteInfo.tryFrom at hok
  cases hcommitted : dto.committed with
  | none =>
    rw [hcommitted] at hok
    cases hok
    rfl
  | some committed =>
    rw [hcommitted] at hok
    obtain ⟨c, hc, rfl⟩ := except_map_eq_ok.1 hok
    rw [CommittedInfo.eq_of_tryFrom hc, ← hcommitted]

/-- Inserting a map's entries one by one rebuilds the map. -/
theorem foldl_insert_toList {motes : ExtTreeMap MoteId MoteInfo} :
    motes.toList.foldl (fun decoded mote => decoded.insert mote.1 mote.2) ∅ = motes := by
  have hmany : ∀ (entries : List (MoteId × MoteInfo)) (init : ExtTreeMap MoteId MoteInfo),
      entries.foldl (fun decoded mote => decoded.insert mote.1 mote.2) init =
        init.insertMany entries := by
    intro entries
    induction entries with
    | nil => simp
    | cons entry entries ih =>
      intro init
      rw [foldl_cons, ih, ExtTreeMap.insertMany_cons]
  have hdistinct : motes.toList.Pairwise fun a b => ¬ compare a.1 b.1 = .eq := by
    apply ExtTreeMap.ordered_keys_toList.imp
    intro a b hlt heq
    rw [hlt] at heq
    cases heq
  rw [hmany, ← ExtTreeMap.ofList_eq_insertMany_empty]
  apply ExtTreeMap.ext_getElem?
  intro id
  cases hid : motes[id]? with
  | some info =>
    exact ExtTreeMap.getElem?_ofList_of_mem ReflCmp.compare_self hdistinct
      (ExtTreeMap.mem_toList_iff_getElem?_eq_some.mpr hid)
  | none =>
    apply ExtTreeMap.getElem?_ofList_of_contains_eq_false
    rw [ExtTreeMap.map_fst_toList_eq_keys, contains_eq_mem, decide_eq_false_iff_not,
      ExtTreeMap.mem_keys, ExtTreeMap.mem_iff_isSome_getElem?, hid]
    simp

theorem eq_of_foldlM_tryFrom {motes : List (MoteId × MoteInfo)}
    {init decoded : ExtTreeMap MoteId MoteInfo}
    (hok : motes.foldlM (fun decoded mote => do
      let info ← MoteInfo.tryFrom mote.2
      return decoded.insert mote.1 info) init = .ok decoded) :
    decoded = motes.foldl (fun decoded mote => decoded.insert mote.1 mote.2) init := by
  induction motes generalizing init with
  | nil =>
    cases hok
    rfl
  | cons mote motes ih =>
    rw [foldlM_cons] at hok
    obtain ⟨next, hnext, hrest⟩ := except_bind_eq_ok.mp hok
    obtain ⟨info, hinfo, hinsert⟩ := except_bind_eq_ok.mp hnext
    cases hinsert
    rw [foldl_cons, ← MoteInfo.eq_of_tryFrom hinfo]
    exact ih hrest

/-- Loading changes nothing of what is stored, and derives the views. -/
theorem toState_eq_ok {dto : CheckpointState} (hok : dto.toState = .ok s) :
    CheckpointState.ofState s = dto ∧ s.Derived := by
  obtain ⟨motes, hmotes, hs⟩ := except_bind_eq_ok.mp hok
  have hsame : motes = dto.motes := (eq_of_foldlM_tryFrom hmotes).trans foldl_insert_toList
  cases hs
  exact ⟨CheckpointState.ext hsame rfl rfl rfl rfl rfl rfl rfl rfl rfl, rfl, rfl⟩

/-- A payload that is the encoding of a state decodes to what was stored of that state. -/
theorem decodeState_eq_toState {bincode : Bincode} {cp : FoldCheckpoint}
    (hpayload : cp.payload = encodeState bincode s) (hbincode : bincode.RoundTrips (.ofState s)) :
    cp.decodeState bincode = (CheckpointState.ofState s).toState := by
  have hdecode : bincode.decode cp.payload = .ok (.ofState s, cp.payload.length) := by
    rw [hpayload]
    exact hbincode
  unfold FoldCheckpoint.decodeState
  rw [hdecode]
  simp only [Except.mapError, bind, Except.bind, ne_eq, not_true_eq_false, if_false]

/-- A state with derived views is determined by what a checkpoint stores of it. -/
theorem State.Derived.eq_of_ofState {s' : State} (hs : s.Derived) (hs' : s'.Derived)
    (hstored : CheckpointState.ofState s = .ofState s') : s = s' := by
  have hfields := CheckpointState.ext_iff.mp hstored
  obtain ⟨hmotes, hchildren, hlast, hrun, hversions, hreplan, hreact, happrovals, hrerank,
    htimers⟩ := hfields
  simp only [CheckpointState.ofState] at *
  have hviews : s.toReactViews = s'.toReactViews := by rw [hs.react, hs'.react, hreact]
  have hindex : s.approvalIndex = s'.approvalIndex := by rw [hs.approval, hs'.approval, happrovals]
  obtain ⟨hreactIndex, hturns, htools⟩ := ReactViews.ext_iff.mp hviews
  exact State.ext hreactIndex hturns htools hmotes hchildren hlast hrun hversions hreplan hreact
    happrovals hindex hrerank htimers

end Kortecx.Projection
