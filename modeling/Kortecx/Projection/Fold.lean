import Kortecx.Journal.Store
import Kortecx.Projection.State

/-!
Folding journal entries into the state, one at a time. A fold can fail, and what it
wrote until then stays written, so `fold` returns a state with every result. What an
entry of any kind can do to the state is said once, in `fold_preserves`.
-/

namespace Kortecx.Projection

open Lib Mote Journal List

structure RoleId where
  name : String
deriving DecidableEq, Repr

inductive ProjectionError where
  | duplicateCommitted (moteId : MoteId)
  | journal (e : JournalError)
  | contentStoreFetch (resultRef : ContentRef) (details : String)
  | topologyDecodeFailed (resultRef : ContentRef) (details : String)
  | warrantStoreFetch (warrantRef : ContentRef) (details : String)
  | warrantDecodeFailed (warrantRef : ContentRef) (details : String)
  | roleNotRegistered (roleId : RoleId) (descriptorIndex : Nat)
  | narrowingFailed (descriptorIndex : Nat) (details : String)
deriving DecidableEq, Repr

structure RegisterMote where
  moteId : MoteId
  ndClass : NdClass
  effectPattern : EffectPattern
  criticFor : Option MoteId
  isTopologyShaper : Bool
  parents : List ParentRef
  warrantRef : ContentRef
deriving DecidableEq, Repr

/-- `try_materialize`: the Motes a committed shaper spawns, and none for a Mote that is
not a shaper. -/
abbrev TopologyMaterializer :=
  MoteId → MoteDefHash → ContentRef → ContentRef →
    Except ProjectionError (Option (List RegisterMote))

def registerMote (s : State) (reg : RegisterMote) : State :=
  s.setDeclared reg.moteId
    { ndClass := reg.ndClass
      effectPattern := reg.effectPattern
      criticFor := reg.criticFor
      isTopologyShaper := reg.isTopologyShaper
      parents := reg.parents
      warrantRef := reg.warrantRef }

/-- The reason and the detail of the first terminal failure are kept together. -/
def foldFailed (reasonClass : FailureReason) (detail : String) (info : MoteInfo) : MoteInfo :=
  if info.committed.isSome then info
  else
    let failed := { info with failedPendingReattempt := true }
    let terminal :=
      if isPreCommitCrash reasonClass then failed
      else
        let observed := { failed with terminalFailureObserved := true }
        if observed.failureReason.isNone then
          { observed with failureReason := some reasonClass, failureDetail := detail }
        else observed
    if reasonClass = .quarantinedAtLeastOnce then { terminal with quarantined := true }
    else terminal

/-- A repudiation counts against the committed attempt it names, and against a Mote
that staged an effect and never committed. -/
def foldRepudiated (targetCommittedSeq : UInt64) (info : MoteInfo) : MoteInfo :=
  match info.committed with
  | some c =>
    if c.seq = targetCommittedSeq then { info with committed := some { c with repudiated := true } }
    else info
  | none => if info.effectStagedObserved then { info with inconsistent := true } else info

/-- The entries that name no Mote of the graph. -/
def foldRunMetadata (s : State) : JournalEntry → State
  | .runRegistered e =>
    { s with runRegistration := some ⟨e.instanceId, e.recipeFingerprint⟩ }.advance e.seq
  | .runVersionsResolved e =>
    let resolved : RunResolvedVersions :=
      ⟨e.instanceId, e.warrantRef, e.modelId, e.capability⟩
    { s with runResolvedVersions := s.runResolvedVersions ++ [resolved] }.advance e.seq
  | .digestSealed e => s.advance e.seq
  | .replanRound e => { s with replanRounds := s.replanRounds ++ [e] }.advance e.seq
  | .reactRound e =>
    { s with reactRounds := s.reactRounds ++ [e] }.indexLastReactRound.advance e.seq
  | .approval e => { s with approvals := s.approvals ++ [e] }.indexLastApproval.advance e.seq
  | .reRankRound e => { s with rerankRounds := s.rerankRounds ++ [e] }.advance e.seq
  | .timerArmed e => { s with timers := s.timers ++ [e] }.advance e.seq
  -- Unreachable: `fold` hands over no other kind.
  | _ => s

@[simp]
theorem foldRunMetadata_reactRound (s : State) (e : ReactRound) :
    foldRunMetadata s (.reactRound e) =
      ({ s with
        reactRounds := s.reactRounds ++ [e]
        toReactViews := s.toReactViews.index s.reactRounds.length e } : State).advance e.seq := by
  simp [foldRunMetadata, State.indexLastReactRound]

@[simp]
theorem foldRunMetadata_approval (s : State) (e : Approval) :
    foldRunMetadata s (.approval e) =
      ({ s with
        approvals := s.approvals ++ [e]
        approvalIndex := s.approvalIndex.insert e.requestId s.approvals.length } :
          State).advance e.seq := by
  simp [foldRunMetadata, State.indexLastApproval]

/-- The state once the entry is recorded and before its Mote may spawn others. -/
def recordCommitted (s : State) (e : Committed) : State :=
  let oldEffective := s.parentsOfId e.moteId
  let committed : CommittedInfo :=
    { seq := e.seq
      resultRef := e.resultRef
      nondeterminism := e.nondeterminism
      parentsInEntry := e.parents
      warrantRef := e.warrantRef
      moteDefHash := e.moteDefHash
      repudiated := false }
  ((s.moteinfoMut e.moteId fun info => { info with committed := some committed }).advance
    e.seq).indexCommitted e.moteId oldEffective

/-- The second commit of a Mote is refused. A materializer that fails leaves the commit
recorded. -/
def foldCommitted (materializer : Option TopologyMaterializer) (s : State) (e : Committed) :
    State × Except ProjectionError UInt64 :=
  if (s.info e.moteId).committed.isSome then
    (s.moteinfoMut e.moteId id, .error (.duplicateCommitted e.moteId))
  else
    let recorded := recordCommitted s e
    match materializer with
    | none => (recorded, .ok s.lastSeq)
    | some tryMaterialize =>
      match tryMaterialize e.moteId e.moteDefHash e.resultRef e.warrantRef with
      | .error err => (recorded, .error err)
      | .ok none => (recorded, .ok s.lastSeq)
      | .ok (some children) => (children.foldl registerMote recorded, .ok s.lastSeq)

def fold (materializer : Option TopologyMaterializer) (s : State) :
    JournalEntry → State × Except ProjectionError UInt64
  | .proposed e =>
    ((s.moteinfoMut e.moteId fun info =>
      { info with hasProposed := true, failedPendingReattempt := false }).advance e.seq,
      .ok s.lastSeq)
  | .committed e => foldCommitted materializer s e
  | .failed e =>
    ((s.moteinfoMut e.moteId (foldFailed e.reasonClass e.detail)).advance e.seq, .ok s.lastSeq)
  | .repudiated e =>
    ((s.moteinfoMut e.targetMoteId (foldRepudiated e.targetCommittedSeq)).advance e.seq,
      .ok s.lastSeq)
  | .effectStaged e =>
    ((s.moteinfoMut e.moteId fun info => { info with effectStagedObserved := true }).advance
      e.seq, .ok s.lastSeq)
  | e => (foldRunMetadata s e, .ok s.lastSeq)

/-- Fold a list of entries, stopping at the first that fails. The value returned is the
frontier after the last. -/
def foldMany (materializer : Option TopologyMaterializer) (s : State) :
    List JournalEntry → State × Except ProjectionError UInt64
  | [] => (s, .ok s.lastSeq)
  | e :: es =>
    match fold materializer s e with
    | (s', .ok _) => foldMany materializer s' es
    | (s', .error err) => (s', .error err)

/-- Fold the entries in order; the first error is the result. -/
def replay (materializer : Option TopologyMaterializer) (s : State) (es : List JournalEntry) :
    Except ProjectionError State :=
  let folded := foldMany materializer s es
  folded.2.map fun _ => folded.1

/-- What a mark on a Mote may change: anything but where its edges come from. -/
def KeepsParents (f : MoteInfo → MoteInfo) : Prop :=
  ∀ info, (f info).effectiveParents = info.effectiveParents

theorem keepsParents_foldFailed :
    KeepsParents (foldFailed reasonClass detail) := by
  intro info
  unfold foldFailed
  dsimp only
  split
  · rfl
  · split <;> split <;> (try split) <;> rfl

theorem keepsParents_foldRepudiated :
    KeepsParents (foldRepudiated targetCommittedSeq) := by
  intro info
  unfold foldRepudiated
  cases hcommitted : info.committed with
  | none | some _ =>
    dsimp only
    split
    · simp only [MoteInfo.effectiveParents, hcommitted]
    · rfl

variable {P : State → Prop} {materializer : Option TopologyMaterializer} {s : State}

/-- A commit that is folded is the first of its Mote. It is recorded, and the Motes that it
spawns are declared. -/
theorem fold_committed_eq_ok (hfold : fold materializer s (.committed c) = (s', .ok seq)) :
    (s.info c.moteId).committed = none ∧
      ∃ regs : List RegisterMote, s' = regs.foldl registerMote (recordCommitted s c) := by
  simp only [fold, foldCommitted] at hfold
  split at hfold
  · cases hfold
  rename_i hnone
  refine ⟨by simpa using hnone, ?_⟩
  split at hfold
  · cases hfold
    exact ⟨[], rfl⟩
  split at hfold
  · cases hfold
  · cases hfold
    exact ⟨[], rfl⟩
  · cases hfold
    exact ⟨_, rfl⟩

/-- What folding an entry can do: mark a Mote, record a commit, declare the Motes it
spawns, move the frontier, and keep a run-level record. A property that each of these
keeps is kept by every fold, also by one that fails. -/
theorem fold_preserves (e : JournalEntry) (hs : P s)
    (hmark : ∀ s id f, KeepsParents f → P s → P (s.moteinfoMut id f))
    (hadvance : ∀ s seq, P s → P (s.advance seq))
    (hrecord : ∀ s c, (s.info c.moteId).committed = none → P s → P (recordCommitted s c))
    (hdeclare : ∀ s reg, P s → P (registerMote s reg))
    (hmetadata : ∀ s e, P s → P (foldRunMetadata s e)) : P (fold materializer s e).1 := by
  cases e with
  | proposed _ | effectStaged _ => exact hadvance _ _ (hmark _ _ _ (fun _ => rfl) hs)
  | failed e => exact hadvance _ _ (hmark _ _ _ keepsParents_foldFailed hs)
  | repudiated e => exact hadvance _ _ (hmark _ _ _ keepsParents_foldRepudiated hs)
  | committed e =>
    have hspawn : ∀ (regs : List RegisterMote) (s : State), P s →
        P (regs.foldl registerMote s) := by
      intro regs
      induction regs with
      | nil => exact fun _ hs => hs
      | cons reg regs ih => exact fun s hs => ih _ (hdeclare s reg hs)
    simp only [fold, foldCommitted]
    split
    · exact hmark s _ id (fun _ => rfl) hs
    rename_i hfresh
    have hrecorded := hrecord s e (by simpa using hfresh) hs
    cases materializer with
    | none => exact hrecorded
    | some tryMaterialize =>
      dsimp only
      split
      · exact hrecorded
      · exact hrecorded
      · exact hspawn _ _ hrecorded
  | runRegistered e => exact hmetadata s (.runRegistered e) hs
  | runVersionsResolved e => exact hmetadata s (.runVersionsResolved e) hs
  | digestSealed e => exact hmetadata s (.digestSealed e) hs
  | replanRound e => exact hmetadata s (.replanRound e) hs
  | reactRound e => exact hmetadata s (.reactRound e) hs
  | approval e => exact hmetadata s (.approval e) hs
  | reRankRound e => exact hmetadata s (.reRankRound e) hs
  | timerArmed e => exact hmetadata s (.timerArmed e) hs

/-- What every fold keeps, a list of them keeps. -/
theorem foldMany_preserves (es : List JournalEntry) (hs : P s)
    (hstep : ∀ s e, P s → P (fold materializer s e).1) : P (foldMany materializer s es).1 := by
  induction es generalizing s with
  | nil => exact hs
  | cons e es ih =>
    have hfold := hstep s e hs
    unfold foldMany
    split
    · rename_i heq
      rw [heq] at hfold
      exact ih hfold
    rename_i heq
    rwa [heq] at hfold

variable (materializer s)

theorem foldMany_append (es fs : List JournalEntry) :
    foldMany materializer s (es ++ fs) =
      match foldMany materializer s es with
      | (s', .ok _) => foldMany materializer s' fs
      | (s', .error err) => (s', .error err) := by
  induction es generalizing s with
  | nil => rfl
  | cons e es ih =>
    simp only [cons_append, foldMany]
    split
    · exact ih _
    · rfl

theorem replay_append (es fs : List JournalEntry) :
    replay materializer s (es ++ fs) =
      replay materializer s es >>= fun s' => replay materializer s' fs := by
  unfold replay
  rw [foldMany_append]
  rcases foldMany materializer s es with ⟨s', err | seq⟩ <;> rfl

variable {materializer s} {es : List JournalEntry}

theorem replay_eq_ok : replay materializer s es = .ok s' ↔
      (foldMany materializer s es).1 = s' ∧ ∃ seq, (foldMany materializer s es).2 = .ok seq := by
  unfold replay
  rcases foldMany materializer s es with ⟨folded, err | seq⟩ <;> simp [Except.map]

/-- What the fold accepts, it accepts up to any point. -/
theorem replay_isPrefix (hreplay : replay materializer s es = .ok s') (hextends : fs <+: es) :
    ∃ sf, replay materializer s fs = .ok sf := by
  obtain ⟨rest, rfl⟩ := hextends
  rw [replay_append] at hreplay
  obtain ⟨sf, hfirst, -⟩ := except_bind_eq_ok.1 hreplay
  exact ⟨sf, hfirst⟩

/-- The last of the entries that the fold accepted, folded by itself. -/
theorem replay_concat_eq_ok (hreplay : replay materializer s (es ++ [e]) = .ok s') :
    ∃ before seq, replay materializer s es = .ok before ∧
      fold materializer before e = (s', .ok seq) := by
  obtain ⟨before, hbefore⟩ := replay_isPrefix hreplay (prefix_append es [e])
  rw [replay_append, hbefore] at hreplay
  obtain ⟨hlast, seq, hok⟩ := replay_eq_ok.1 hreplay
  unfold foldMany at hlast hok
  rcases hfold : fold materializer before e with ⟨folded, err | prev⟩
  · rw [hfold] at hok
    cases hok
  rw [hfold] at hlast
  change folded = s' at hlast
  rw [hlast] at hfold
  exact ⟨before, prev, hbefore, hfold⟩

section Failing

variable {s s' : State}

/-- The entry is the first commit of its Mote, and the materializer fails on it. -/
def FailsRecorded (materializer : Option TopologyMaterializer) (s : State) (e : JournalEntry) :
    Prop :=
  ∃ tryMaterialize c err, materializer = some tryMaterialize ∧ e = .committed c ∧
    (s.info c.moteId).committed = none ∧
    tryMaterialize c.moteId c.moteDefHash c.resultRef c.warrantRef = .error err

/-- Looking a known Mote up does not change the table. -/
theorem moteinfoMut_id_of_committed {k : MoteId} (hcommitted : (s.info k).committed.isSome) :
    s.moteinfoMut k id = s := by
  unfold State.moteinfoMut
  unfold State.info at hcommitted ⊢
  cases hget : s.motes[k]? with
  | none =>
    rw [hget] at hcommitted
    cases hcommitted
  | some info =>
    have hsame : s.motes.insert k info = s.motes := by
      apply Std.ExtTreeMap.ext_getElem?
      intro k'
      rw [Std.ExtTreeMap.getElem?_insert]
      split
      · rename_i hk
        rw [← Std.LawfulEqCmp.eq_of_compare hk, hget]
      · rfl
    simp only [Option.getD_some, id_eq, hsame]

variable {err : ProjectionError}

theorem committed_recordCommitted (s : State) (c : Committed) :
    ((recordCommitted s c).info c.moteId).committed.isSome := by
  unfold recordCommitted State.indexCommitted
  rw [State.info_reindexChildEdges, State.info_advance, State.info_moteinfoMut_self]
  rfl

/-- A fold fails on a second commit, before it changed anything, and on a commit whose
Motes cannot be materialized, after it was recorded. -/
theorem fold_eq_error (hfold : fold materializer s e = (s', .error err)) :
    s' = s ↔ ¬ FailsRecorded materializer s e := by
  cases e with
  | committed c =>
    simp only [fold, foldCommitted] at hfold
    split at hfold
    case isTrue hcommitted =>
      rw [← (Prod.mk.inj hfold).1, moteinfoMut_id_of_committed hcommitted]
      refine iff_of_true rfl ?_
      rintro ⟨_, _, _, -, ⟨⟩, hnone, -⟩
      simp [hnone] at hcommitted
    case isFalse hcommitted =>
    cases materializer with
    | none => cases hfold
    | some tryMaterialize =>
      dsimp only at hfold
      split at hfold
      · rename_i err' herr
        rw [← (Prod.mk.inj hfold).1]
        refine iff_of_false ?_ (not_not.2 ⟨_, c, err', rfl, rfl, by simpa using hcommitted, herr⟩)
        intro hsame
        exact hcommitted (hsame ▸ committed_recordCommitted s c)
      · cases hfold
      · cases hfold
  | _ => cases hfold

theorem foldMany_eq_error (hfold : foldMany materializer s es = (s', .error err)) :
    ∃ before e after stopped seq, es = before ++ e :: after ∧
      foldMany materializer s before = (stopped, .ok seq) ∧
      fold materializer stopped e = (s', .error err) := by
  induction es generalizing s with
  | nil => cases hfold
  | cons e es ih =>
    unfold foldMany at hfold
    rcases hstep : fold materializer s e with ⟨folded, err' | prev⟩
    · rw [hstep] at hfold
      cases hfold
      exact ⟨[], e, es, s, s.lastSeq, rfl, rfl, hstep⟩
    · rw [hstep] at hfold
      obtain ⟨before, e', after, stopped, seq, rfl, hbefore, hlast⟩ := ih hfold
      refine ⟨e :: before, e', after, stopped, seq, rfl, ?_, hlast⟩
      unfold foldMany
      rw [hstep]
      exact hbefore

/-- A failing fold changes nothing, and folding a list ends in the state of the entries before
the one that failed, exactly if that one is no first commit on which the materializer fails. -/
theorem failing_fold_unchanged (materializer : Option TopologyMaterializer) (s s' : State)
    (err : ProjectionError) :
    (∀ e, fold materializer s e = (s', .error err) →
        (s' = s ↔ ¬ FailsRecorded materializer s e)) ∧
      ∀ es, foldMany materializer s es = (s', .error err) →
        ∃ before e after stopped seq, es = before ++ e :: after ∧
          foldMany materializer s before = (stopped, .ok seq) ∧
          fold materializer stopped e = (s', .error err) ∧
          (s' = stopped ↔ ¬ FailsRecorded materializer stopped e) := by
  refine ⟨fun _ hfold => fold_eq_error hfold, fun es hfold => ?_⟩
  obtain ⟨before, e, after, stopped, seq, hes, hbefore, hlast⟩ := foldMany_eq_error hfold
  exact ⟨before, e, after, stopped, seq, hes, hbefore, hlast, fold_eq_error hlast⟩

/-- A commit whose result the content store does not have. -/
def unfetchable : Committed where
  moteId := ⟨.replicate 32 1⟩
  idempotencyKey := .replicate 32 1
  seq := 1
  nondeterminism := .pure
  resultRef := ⟨.replicate 32 2⟩
  parents := []
  warrantRef := ⟨.replicate 32 3⟩
  moteDefHash := ⟨.replicate 32 4⟩

def fetchFails : TopologyMaterializer :=
  fun _ _ resultRef _ => .error (.contentStoreFetch resultRef "NotFound")

/-- The second commit of a Mote is refused and changes nothing, although its result cannot be
fetched. -/
theorem failing_fold_unchanged_duplicate :
    let s := (fold none {} (.committed unfetchable)).1
    (fold (some fetchFails) s (.committed unfetchable)).1 = s := by
  apply ((failing_fold_unchanged (some fetchFails) _ _
    (.duplicateCommitted unfetchable.moteId)).1 (.committed unfetchable) rfl).2
  rintro ⟨_, _, _, -, ⟨⟩, hnone, -⟩
  revert hnone
  decide +kernel

/-- The fold fails, and the Mote is committed and the frontier moved. -/
theorem failing_fold_records_commit :
    let folded := fold (some fetchFails) {} (.committed unfetchable)
    folded.2 = .error (.contentStoreFetch unfetchable.resultRef "NotFound") ∧
      folded.1.lastSeq = 1 ∧ (folded.1.info unfetchable.moteId).committed.isSome = true ∧
      folded.1 ≠ {} ∧
      (foldMany (some fetchFails) {} [.committed unfetchable]).1.lastSeq = 1 := by
  refine ⟨rfl, rfl, by decide +kernel, ?_, rfl⟩
  intro hsame
  have hseq : (1 : UInt64) = 0 := congrArg State.lastSeq hsame
  exact absurd hseq (by decide)

end Failing

end Kortecx.Projection
