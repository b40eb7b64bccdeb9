import Kortecx.Coordinator.Machine

/-!
Which facts of a run the functions of the coordinator note. Most of them note none, and the
others facts of one kind or two; what is said of a kind of facts is said where its few
writers are.
-/

namespace Kortecx.Coordinator

open Lib Mote Journal Projection Warrant Lib.Program

inductive FactKind where
  | runRegistered
  | runVersionsResolved
  | replanRound
  | reactRound
  | approval
  | reRankAnchor
  | reRankRound
deriving DecidableEq, Repr

/-- A rerank that is anchored and one that is settled are facts of two kinds. -/
def RunFact.kind : RunFact → FactKind
  | .runRegistered _ => .runRegistered
  | .runVersionsResolved _ => .runVersionsResolved
  | .replanRound _ => .replanRound
  | .reactRound .. => .reactRound
  | .approval _ => .approval
  | .reRankRound r => if r.outcome = .pending then .reRankAnchor else .reRankRound

theorem RunFact.kind_reRankRound_ne {kind : FactKind} (hanchor : kind ≠ .reRankAnchor)
    (hround : kind ≠ .reRankRound) (r : ReRankRound) : (RunFact.reRankRound r).kind ≠ kind := by
  change (if r.outcome = .pending then FactKind.reRankAnchor else .reRankRound) ≠ kind
  split_ifs
  · exact hanchor.symm
  · exact hround.symm

def Chore.Omits (kind : FactKind) : Chore → Prop
  | .note fact _ => fact.kind ≠ kind
  | _ => True

def Effect.Omits (kind : FactKind) : Effect → Prop
  | .chore c => c.Omits kind
  | _ => True

variable {J : Backend} {kind : FactKind}

theorem Effect.exists_note_of_not_omits {e : Effect} (h : ¬ e.Omits kind) :
    ∃ fact strict, e = .chore (.note fact strict) ∧ fact.kind = kind := by
  unfold Effect.Omits at h
  split at h
  · unfold Chore.Omits at h
    split at h
    · exact ⟨_, _, rfl, not_not.1 h⟩
    · exact absurd trivial h
  · exact absurd trivial h

section Omitting

variable {α : Type}

abbrev Quiet (kind : FactKind) (p : Routine J α) : Prop :=
  p.Only (Chore.Omits kind)

/-- As `Quiet`, of a program that may also decide what becomes of a Mote. -/
abbrev QuietThread (kind : FactKind) (p : Coord J α) : Prop :=
  p.Only (Effect.Omits kind)

variable (p : Reading J α) (bytes : List UInt8) (e : Edit)

theorem quiet_reading : Quiet kind (reading p : Routine J α) :=
  (Program.only_of_forall (P := fun _ => True) (fun _ => trivial) p).embed fun _ _ => trivial

theorem quiet_look : Quiet kind (look : Routine J (Core J)) :=
  quiet_reading _

theorem quiet_put : Quiet kind (put bytes : Routine J (Option ContentRef)) :=
  quiet_reading _

theorem quiet_edit : Quiet kind (edit e : Routine J Unit) :=
  only_call trivial

variable {fact : RunFact}

theorem quiet_note (hkind : fact.kind ≠ kind) :
    Quiet kind (note fact : Routine J (Except RecordError UInt64)) :=
  only_call hkind

theorem quiet_noteStrict (hkind : fact.kind ≠ kind) :
    Quiet kind (noteStrict fact : Routine J (Except RecordError UInt64)) :=
  only_call hkind

theorem Quiet.thread {p : Routine J α} (hp : Quiet kind p) :
    QuietThread kind (routine p : Coord J α) :=
  hp.embed fun _ h => h

theorem quietThread_reading : QuietThread kind (reading p : Coord J α) :=
  (quiet_reading p).thread

theorem quietThread_look : QuietThread kind (look : Coord J (Core J)) :=
  quietThread_reading _

theorem quietThread_put :
    QuietThread kind (put bytes : Coord J (Option ContentRef)) :=
  quietThread_reading _

theorem quietThread_edit : QuietThread kind (edit e : Coord J Unit) :=
  (quiet_edit e).thread

theorem quietThread_update : QuietThread kind (update op : Coord J Unit) :=
  only_call trivial

variable {ops : List Op} {e : JournalEntry}

theorem quietThread_record :
    QuietThread kind (record e ops : Coord J (Except RecordError UInt64)) :=
  only_call trivial

theorem quietThread_recordStrict :
    QuietThread kind (recordStrict e ops : Coord J (Except RecordError UInt64)) :=
  only_call trivial

end Omitting

variable {instanceId : InstanceId}

namespace Platform

variable {P : Platform} {warrant : WarrantSpec}

theorem quiet_materialize (shaper : Bool) (parents : List ParentRef) (mote : Mote)
    (warrantRef : ContentRef) (warrant : WarrantSpec) :
    Quiet kind (P.materialize shaper parents mote warrantRef warrant : Routine J Unit) := by
  refine Only.bind ?_ fun _ => (quiet_edit _).bind fun _ => (quiet_edit _).bind fun _ =>
    quiet_edit _
  exact (quiet_put _).bind fun _ => only_pure _

theorem quiet_materializeChild (child : ShaperChild) :
    Quiet kind (P.materializeChild child : Routine J Unit) := by
  refine Only.bind ?_ fun _ => (quiet_edit _).bind fun _ => (quiet_edit _).bind fun _ =>
    quiet_edit _
  exact (quiet_put _).bind fun _ => only_pure _

theorem quiet_materializeCommittedShaper :
    Quiet kind (P.materializeCommittedShaper shaperMoteId shaperDef warrant : Routine J Unit) := by
  refine quiet_look.bind fun w => ?_
  split
  · split
    · exact only_forEach fun child => quiet_materializeChild child
    · exact only_pure _
  · exact only_pure _

section Replanning

theorem quiet_writeReplanAnchor (hkind : kind ≠ .replanRound) (shaperId : MoteId)
    (shaperDef : MoteDef) (warrant : WarrantSpec) :
    Quiet kind (P.writeReplanAnchor shaperId shaperDef warrant : Routine J Unit) := by
  refine quiet_look.bind fun w => ?_
  split_ifs
  · exact only_pure _
  · exact only_pure _
  split
  · exact only_pure _
  refine (quiet_put _).bind fun _ => (quiet_put _).bind fun _ => ?_
  split
  · exact Only.bind (quiet_note hkind.symm) fun _ => only_pure _
  · exact only_pure _

theorem quiet_settleReplanRounds (hkind : kind ≠ .replanRound) :
    Quiet kind (P.settleReplanRounds : Routine J Unit) := by
  refine quiet_look.bind fun w => ?_
  split
  · split
    · refine (quiet_put _).bind fun _ => ?_
      split
      · exact only_pure _
      refine Only.bind (quiet_noteStrict hkind.symm) fun _ => ?_
      split
      · exact only_pure _
      · exact quiet_materialize ..
    · exact only_pure _
  · exact only_pure _

variable (r : ReplanRoundRecord)

theorem quiet_recoverCommittedRound :
    Quiet kind (P.recoverCommittedRound r : Routine J Unit) := by
  refine quiet_look.bind fun w => ?_
  split
  · exact only_pure _
  split_ifs
  · exact only_pure _
  split
  · exact only_pure _
  · exact quiet_materializeCommittedShaper

theorem quiet_recoverOpenRound :
    Quiet kind (P.recoverOpenRound r : Routine J Unit) := by
  refine quiet_look.bind fun w => ?_
  split
  · exact only_pure _
  split_ifs
  · exact only_pure _
  split
  · exact only_pure _
  · exact quiet_materialize ..

end Replanning

theorem quiet_writeRerankAnchor (hkind : kind ≠ .reRankAnchor) :
    Quiet kind (writeRerankAnchor rerankMote instanceId baseResultsRef queryRef warrantRef
      candidateCount : Routine J (Except RecordError Unit)) := by
  refine quiet_look.bind fun w => ?_
  split_ifs
  · exact only_pure _
  · exact Only.bind (quiet_noteStrict hkind.symm) fun _ => only_pure _

theorem rerankOutcome_ne_pending (houtcome : P.rerankOutcome s store anchor = some outcome) :
    outcome ≠ .pending := by
  unfold rerankOutcome at houtcome
  dsimp only at houtcome
  split_ifs at houtcome
  · obtain ⟨bytes, _, rfl⟩ := Option.map_eq_some_iff.1 houtcome
    split <;> simp
  cases houtcome
  simp

theorem quiet_settleRerankRounds (hkind : kind ≠ .reRankRound) :
    Quiet kind (P.settleRerankRounds : Routine J Unit) := by
  refine quiet_look.bind fun w => ?_
  split_ifs
  · exact only_pure _
  refine only_forEach fun anchor => ?_
  refine quiet_look.bind fun w => ?_
  split
  · exact only_pure _
  next outcome houtcome =>
    obtain ⟨store, _, houtcome⟩ := Option.bind_eq_some_iff.1 houtcome
    have hne := rerankOutcome_ne_pending houtcome
    refine (quiet_reading _).bind fun _ => ?_
    refine quiet_look.bind fun w => ?_
    split_ifs
    · exact only_pure _
    refine Only.bind (quiet_note ?_) fun _ => only_pure _
    simpa [RunFact.kind, hne] using hkind.symm

theorem quiet_recoverRerank (anchor : ReRankRoundRecord) :
    Quiet kind (P.recoverRerank anchor : Routine J Unit) := by
  refine quiet_look.bind fun w => ?_
  split_ifs
  · exact only_pure _
  split
  · exact only_pure _
  dsimp only
  split_ifs
  · exact only_pure _
  · exact quiet_materialize ..

theorem quiet_settleChatRagRerank (hkind : kind ≠ .reRankAnchor) :
    Quiet kind (P.settleChatRagRerank answer warrant : Routine J Unit) := by
  refine (quiet_reading _).bind fun _ => ?_
  split
  · exact only_pure _
  refine quiet_look.bind fun w => ?_
  split
  · refine (quiet_put _).bind fun _ => ?_
    split
    · exact only_pure _
    refine (quiet_writeRerankAnchor hkind).bind fun _ => ?_
    split
    · exact only_pure _
    · exact quiet_materialize ..
  · split
    · exact only_pure _
    · exact (quiet_put _).bind fun _ => only_pure _
  · exact only_pure _
  · exact only_pure _

theorem quiet_settleChatRagReranks (hkind : kind ≠ .reRankAnchor) :
    Quiet kind (P.settleChatRagReranks : Routine J Unit) := by
  refine quiet_look.bind fun w => ?_
  split_ifs
  · exact only_pure _
  · exact only_forEach fun x => quiet_settleChatRagRerank hkind

section Chains

variable {anchor : ReactRoundRecord} {turnMoteId : MoteId} {turn : UInt32}
  {rounds : List ReactRoundRecord} {calls : List (String × String)}

theorem quiet_appendReactBranch (hkind : kind ≠ .reactRound) {branch : ReactBranch}
    (hbranch : branch.Readable) :
    Quiet kind (appendReactBranch anchor turnMoteId turn branch hbranch : Routine J Unit) := by
  refine quiet_look.bind fun w => ?_
  split_ifs
  · exact only_pure _
  · exact Only.bind (quiet_note hkind.symm) fun _ => only_pure _

theorem quiet_appendApproval (hkind : kind ≠ .approval) :
    Quiet kind (appendApproval instanceId requestId awaitingMoteId state : Routine J Unit) := by
  exact Only.bind (quiet_note hkind.symm) fun _ => only_pure _

theorem quiet_writeReactAnchor (hkind : kind ≠ .reactRound) (instanceId : InstanceId)
    (stepSalt : Option (ByteVec 32)) (isAgenticLaunch : Bool) (turn0 : Mote)
    (warrant : WarrantSpec) (maxTurns maxToolCalls : UInt32) (requireApproval : Bool) :
    Quiet kind (P.writeReactAnchor instanceId stepSalt isAgenticLaunch turn0 warrant maxTurns
      maxToolCalls requireApproval : Routine J (Except CoordinatorError Unit)) := by
  refine quiet_look.bind fun w => ?_
  split_ifs
  · exact only_pure _
  split
  · exact only_pure _
  refine (quiet_put _).bind fun _ => (quiet_put _).bind fun _ => ?_
  split
  · refine (quiet_reading _).bind fun _ => ?_
    split
    · exact only_pure _
    split
    · exact only_pure _
    · exact Only.bind (quiet_noteStrict hkind.symm) fun _ => only_pure _
  · exact only_pure _

theorem quiet_advanceReactChain (hkind : kind ≠ .reactRound) :
    Quiet kind (P.advanceReactChain anchor rounds turn : Routine J ReactChainStatus) := by
  unfold advanceReactChain
  dsimp only
  split_ifs
  · exact only_pure _
  · split
    · exact only_pure _
    split
    all_goals first
      | exact only_pure _
      | exact (quiet_appendReactBranch hkind ..).bind fun _ => only_pure _
  · refine quiet_look.bind fun w => ?_
    split
    · exact only_pure _
    split
    · exact only_pure _
    split
    · exact only_pure _
    refine (quiet_appendReactBranch hkind ..).bind fun _ => ?_
    exact (quiet_materialize ..).bind fun _ => only_pure _

theorem quiet_maybeGateOnRerank (hkind : kind ≠ .reRankAnchor) :
    Quiet kind (P.maybeGateOnRerank anchor turn turnMoteId calls :
      Routine J (Option ReactChainStatus)) := by
  refine quiet_look.bind fun w => ?_
  dsimp only
  split_ifs
  · exact only_pure _
  split
  · split
    · exact only_pure _
    split_ifs
    · exact only_pure _
    refine (quiet_put _).bind fun _ => ?_
    split
    · exact only_pure _
    refine quiet_look.bind fun w => ?_
    split
    · exact only_pure _
    refine quiet_look.bind fun w => ?_
    split
    · refine (quiet_writeRerankAnchor hkind).bind fun _ => ?_
      split
      · exact only_pure _
      · exact (quiet_materialize ..).bind fun _ => only_pure _
    all_goals exact only_pure _
  · exact only_pure _

theorem quiet_approvalBarrier (hkind : kind ≠ .approval) :
    Quiet kind (P.approvalBarrier anchor obsId toolId toolVersion : Routine J ApprovalGate) := by
  refine quiet_look.bind fun w => ?_
  split_ifs
  · refine quiet_look.bind fun w => ?_
    dsimp only
    split
    · split <;> exact only_pure _
    · exact (quiet_appendApproval hkind).bind fun _ => only_pure _
  · exact only_pure _

section Driven

variable (hreact : kind ≠ .reactRound) (happroval : kind ≠ .approval)

include hreact happroval

theorem quiet_progressCall :
    Quiet kind (P.progressCall anchor warrant turn turnMoteId toolId toolVersion callIndex :
      Routine J CallProgress) := by
  unfold progressCall
  dsimp only
  refine quiet_look.bind fun w => ?_
  split_ifs
  · exact only_pure _
  · exact only_pure _
  · exact (quiet_appendReactBranch hreact ..).bind fun _ => only_pure _
  · refine (quiet_appendReactBranch hreact ..).bind fun _ => (quiet_edit _).bind fun _ =>
      (quiet_edit _).bind fun _ => (quiet_edit _).bind fun _ => only_pure _
  refine (quiet_approvalBarrier happroval).bind fun _ => ?_
  split
  · exact only_pure _
  · exact (quiet_appendReactBranch hreact ..).bind fun _ => only_pure _
  · exact (quiet_materialize ..).bind fun _ => only_pure _

theorem quiet_progressCalls {calls : List ((String × String) × Nat)} :
    Quiet kind (P.progressCalls anchor warrant turn turnMoteId calls :
      Routine J CallProgress) := by
  induction calls with
  | nil => exact only_pure _
  | cons call calls ih =>
    refine (quiet_progressCall hreact happroval).bind fun _ => ?_
    split
    · exact only_pure _
    · exact ih
    refine ih.bind fun _ => ?_
    split <;> exact only_pure _

theorem quiet_progressToolBatch (hrerank : kind ≠ .reRankAnchor) :
    Quiet kind (P.progressToolBatch anchor rounds turn turnMoteId calls :
      Routine J ReactChainStatus) := by
  refine quiet_look.bind fun w => ?_
  split
  · exact only_pure _
  dsimp only
  split_ifs
  · exact (quiet_appendReactBranch hreact ..).bind fun _ => only_pure _
  refine (quiet_progressCalls hreact happroval).bind fun _ => ?_
  split
  · exact only_pure _
  · exact only_pure _
  refine (quiet_maybeGateOnRerank hrerank).bind fun _ => ?_
  split
  · exact only_pure _
  · exact quiet_advanceReactChain hreact

theorem quiet_driveReactChain (hrerank : kind ≠ .reRankAnchor) (chain : ChainKey) :
    Quiet kind (P.driveReactChain chain : Routine J ReactChainStatus) := by
  refine quiet_look.bind fun w => ?_
  dsimp only
  split
  · split
    · exact only_pure _
    · exact only_pure _
    · exact quiet_advanceReactChain hreact
    · exact quiet_progressToolBatch hreact happroval hrerank
    · exact quiet_progressToolBatch hreact happroval hrerank
    split_ifs
    · exact only_pure _
    · refine quiet_look.bind fun w => ?_
      split
      · split
        · refine (quiet_appendReactBranch hreact ..).bind fun _ => quiet_look.bind fun w => ?_
          split
          · exact quiet_progressToolBatch hreact happroval hrerank
          · exact quiet_progressToolBatch hreact happroval hrerank
          · exact quiet_advanceReactChain hreact
          · exact only_pure _
        · exact only_pure _
      · exact only_pure _
    · exact only_pure _
    · exact (quiet_appendReactBranch hreact ..).bind fun _ => only_pure _
  · exact only_pure _

end Driven

theorem quiet_recoverChainTurn (chain : ChainKey) :
    Quiet kind (P.recoverChainTurn chain : Routine J Unit) := by
  refine quiet_look.bind fun w => ?_
  split
  · exact only_pure _
  split_ifs
  · exact only_pure _
  · exact only_pure _
  split
  · dsimp only
    split_ifs
    · exact only_pure _
    · exact quiet_materialize ..
  · exact only_pure _

theorem quiet_commitAgenticLaunch :
    QuietThread kind (commitAgenticLaunch P launch warrant resultRef : Coord J Unit) := by
  exact quietThread_record.bind fun _ => only_pure _

theorem quiet_deadLetterAgenticLaunch :
    QuietThread kind (deadLetterAgenticLaunch launchId : Coord J Unit) := by
  exact quietThread_record.bind fun _ => only_pure _

theorem quiet_finalizeAgenticLaunch :
    QuietThread kind (P.finalizeAgenticLaunch instanceId stepSalt : Coord J ReactChainStatus) := by
  refine quietThread_look.bind fun w => ?_
  dsimp only
  split_ifs
  · exact only_pure _
  split
  · exact only_pure _
  split
  · exact quiet_deadLetterAgenticLaunch.bind fun _ => only_pure _
  split
  · split
    · exact only_pure _
    refine (quietThread_reading _).bind fun _ => ?_
    exact quiet_commitAgenticLaunch.bind fun _ => only_pure _
  · exact only_pure _

end Chains

theorem quiet_synthCommitSubject :
    QuietThread kind (synthCommitSubject P m warrant resultRef : Coord J Unit) := by
  exact quietThread_record.bind fun _ => only_pure _

theorem quiet_deadLetterParkedWait :
    QuietThread kind (deadLetterParkedWait waitId : Coord J Unit) := by
  exact quietThread_record.bind fun _ => only_pure _

theorem quiet_settleWaitSteps : QuietThread kind (P.settleWaitSteps : Coord J Unit) := by
  refine quietThread_look.bind fun w => only_forEach fun x => ?_
  refine quietThread_look.bind fun w => ?_
  split
  · exact quietThread_edit _
  split_ifs
  · exact quietThread_edit _
  split
  · exact quietThread_update.bind fun _ => quietThread_edit _
  split
  · exact quiet_deadLetterParkedWait
  · exact only_pure _
  refine quietThread_look.bind fun w => ?_
  split
  · exact quiet_deadLetterParkedWait
  · exact quietThread_record.bind fun _ => only_pure _

theorem quiet_settleSkipGuards : QuietThread kind (P.settleSkipGuards : Coord J Unit) := by
  refine quietThread_look.bind fun w => only_forEach fun x => ?_
  refine quietThread_look.bind fun w => ?_
  split
  · exact quietThread_edit _
  split_ifs
  · exact quietThread_edit _
  split
  · exact quiet_deadLetterParkedWait.bind fun _ => quietThread_edit _
  · exact only_pure _
  split
  · exact quietThread_edit _
  · exact only_pure _
  refine quietThread_look.bind fun w => ?_
  split_ifs
  · exact only_pure _
  refine (quietThread_put _).bind fun _ => ?_
  split
  · exact only_pure _
  · exact quiet_synthCommitSubject.bind fun _ => quietThread_edit _

theorem quiet_climb :
    QuietThread kind (P.climb launchId instanceId launch warrant fuel n : Coord J Bool) := by
  induction fuel generalizing n with
  | zero => exact only_pure _
  | succ fuel ih =>
    refine quietThread_look.bind fun w => ?_
    dsimp only
    split
    · split
      · exact only_pure _
      refine quiet_synthCommitSubject.bind fun _ => ?_
      exact (quietThread_edit _).bind fun _ => only_pure _
    · exact ih
    · exact ih
    · exact ih
    all_goals
      split_ifs
      · exact only_pure _
      · exact (quiet_materialize ..).thread.bind fun _ => only_pure _
      refine Only.bind ?_ fun _ => only_pure _
      refine quietThread_look.bind fun w => ?_
      split
      · exact quietThread_update
      · exact quietThread_record.bind fun _ => only_pure _

theorem quiet_settlePoliciedSteps : QuietThread kind (P.settlePoliciedSteps : Coord J Unit) := by
  refine quietThread_look.bind fun w => only_forEach fun x => ?_
  refine quietThread_look.bind fun w => ?_
  split
  · exact quietThread_edit _
  split_ifs
  · exact quietThread_edit _
  split
  · exact quiet_deadLetterParkedWait.bind fun _ => quietThread_edit _
  · exact only_pure _
  split
  · exact quiet_deadLetterParkedWait.bind fun _ => quietThread_edit _
  refine quiet_climb.bind fun _ => ?_
  split_ifs
  · exact only_pure _
  unfold exhausted
  split
  · exact quiet_deadLetterParkedWait.bind fun _ => quietThread_edit _
  refine quietThread_look.bind fun w => ?_
  split_ifs
  · exact only_pure _
  refine (quietThread_put _).bind fun _ => ?_
  split
  · exact only_pure _
  · exact quiet_synthCommitSubject.bind fun _ => quietThread_edit _

theorem quiet_fireDueTimers : QuietThread kind (P.fireDueTimers : Coord J Unit) := by
  refine quietThread_look.bind fun w => ?_
  refine Only.bind (only_forEach fun x => ?_) fun _ =>
    only_forEach fun x => ?_
  · refine quietThread_update.bind fun _ => quietThread_look.bind fun w => ?_
    split_ifs
    · exact only_pure _
    split
    · exact only_pure _
    · exact (quiet_materialize ..).thread
  · refine quietThread_look.bind fun w => ?_
    split
    · exact quietThread_update
    split
    · exact only_pure _
    split
    · exact quiet_synthCommitSubject
    split
    · exact only_pure _
    refine (quietThread_put _).bind fun _ => ?_
    split
    · exact only_pure _
    · exact quiet_synthCommitSubject

theorem quiet_rearmTimers : QuietThread kind (rearmTimers : Coord J Unit) := by
  exact quietThread_look.bind fun w => only_forEach fun t => quietThread_update

section Commands

theorem quiet_serveLease (req : LeaseReq) :
    QuietThread kind (P.serveLease req : Coord J (List LeasedItem × Option InstanceId)) := by
  refine Only.bind ?_ fun _ => (quietThread_reading _).bind fun _ =>
    quietThread_update.bind fun _ => quietThread_look.bind fun _ => only_pure _
  refine quietThread_look.bind fun w => only_forEach fun worker => ?_
  refine quietThread_look.bind fun w => ?_
  split_ifs
  · exact only_pure _
  refine quietThread_update.bind fun _ => only_forEach fun id => ?_
  refine quietThread_look.bind fun w => ?_
  split_ifs
  · exact quietThread_edit _
  · exact quietThread_record.bind fun _ => only_pure _

theorem quiet_repudiateCascade :
    QuietThread kind (repudiateCascade P.ids.blake3 target reason repudiatorId :
      Coord J (Except RepudiationError RepudiationOutcome)) := by
  refine quietThread_look.bind fun w => ?_
  split
  · exact only_pure _
  · exact ⟨trivial, fun _ => only_pure _⟩

variable (mote : Mote) (moteId : MoteId) (warrant) (idempotencyKey : IdempotencyKey)

theorem quiet_stageEffect :
    QuietThread kind (stageEffect moteId idempotencyKey :
      Coord J (Except CoordinatorError UInt64)) := by
  exact quietThread_recordStrict.bind fun _ => only_pure _

theorem quiet_deadLetterFailure :
    QuietThread kind (deadLetterFailure moteId idempotencyKey reason worker detail :
      Coord J (Except CoordinatorError (UInt64 × Bool))) := by
  refine quietThread_look.bind fun w => ?_
  split_ifs
  · exact (quietThread_edit _).bind fun _ => only_pure _
  · exact only_pure _
  · exact quietThread_recordStrict.bind fun _ => only_pure _

theorem quiet_registerRun (hkind : kind ≠ .runRegistered) :
    Quiet kind (registerRun recipeFingerprint :
      Routine J (Except CoordinatorError InstanceId)) := by
  refine quiet_look.bind fun w => ?_
  split
  · exact only_pure _
  split_ifs
  · exact only_pure _
  · exact Only.bind (quiet_noteStrict hkind.symm) fun _ => only_pure _

theorem quiet_decideApproval (hkind : kind ≠ .approval) :
    Quiet kind (decideApproval requestId grant operatorId reason : Routine J Bool) := by
  refine quiet_look.bind fun w => ?_
  split
  · exact only_pure _
  split
  · exact (quiet_appendApproval hkind).bind fun _ => only_pure _
  · exact only_pure _

theorem quiet_handleSubmit :
    Quiet kind (P.handleSubmit mote warrant : Routine J Bool) := by
  refine Only.bind ((quiet_put _).bind fun _ => only_pure _) fun _ =>
    quiet_look.bind fun w => ?_
  split_ifs
  · exact only_pure _
  exact (quiet_edit _).bind fun _ => (quiet_edit _).bind fun _ => (quiet_edit _).bind fun _ =>
    (quiet_edit _).bind fun _ => only_pure _

theorem quiet_parkUnlessCommitted {id : MoteId} :
    Quiet kind (parkUnlessCommitted shaped park id instanceId : Routine J Unit) := by
  refine quiet_look.bind fun w => ?_
  split_ifs
  · exact quiet_edit _
  · exact only_pure _

theorem quiet_parkSubmitted :
    Quiet kind (parkSubmitted mote duplicate instanceId : Routine J Unit) := by
  have hrest : Quiet kind (do
      parkUnlessCommitted (isWaitStep mote) .waits mote.id instanceId
      parkUnlessCommitted (isSkipGuard mote) .guards mote.id instanceId
      parkUnlessCommitted (isPoliciedStep mote) .policied mote.id instanceId : Routine J Unit) :=
    quiet_parkUnlessCommitted.bind fun _ => quiet_parkUnlessCommitted.bind fun _ =>
      quiet_parkUnlessCommitted
  unfold parkSubmitted
  split_ifs
  · exact (quiet_edit _).bind fun _ => hrest
  · exact hrest

theorem quiet_captureRunVersions (hkind : kind ≠ .runVersionsResolved) (instanceId : InstanceId)
    (warrant : WarrantSpec) (events : List ResolvedCapabilityRecord) :
    Quiet kind (P.captureRunVersions instanceId warrant events : Routine J Unit) := by
  have happend : ∀ capability : Option ResolvedCapabilityRecord,
      Quiet kind (appendRunVersions instanceId (P.warrantRefOf warrant)
        warrant.modelRoute.modelId capability : Routine J Unit) := by
    intro capability
    exact Only.bind (quiet_note hkind.symm) fun _ => only_pure _
  unfold captureRunVersions
  split_ifs
  · exact happend _
  · exact only_forEach fun event => happend _

theorem quiet_rematerialize :
    Quiet kind (P.rematerialize mote warrant : Routine J Unit) := by
  refine quiet_look.bind fun w => ?_
  split_ifs
  · exact quiet_materializeCommittedShaper
  · exact only_pure _

theorem quiet_flushCommits (pending : List CommitProposal) :
    QuietThread kind (P.flushCommits pending :
      Coord J (List (CommitProposal × Except CoordinatorError CommitApplied))) := by
  refine quietThread_look.bind fun w => ?_
  dsimp only
  split_ifs
  · exact only_pure _
  refine Only.call_bind trivial fun applied => ?_
  split
  · exact only_pure _
  refine Only.bind (Quiet.thread (only_forEach fun id => ?_)) fun _ =>
    only_pure _
  refine quiet_look.bind fun w => ?_
  have hretire : Quiet kind (do edit (.undefine id); edit (.resolve id) : Routine J Unit) :=
    (quiet_edit _).bind fun _ => quiet_edit _
  split
  · split_ifs
    · exact quiet_materializeCommittedShaper.bind fun _ => hretire
    · exact hretire
  · exact hretire

end Commands

end Platform

section Seeds

open Platform List

variable {P : Platform} {seed : Mote} {params : SeedParams} {outside : Outside} {reactSeed : Bool}

/-- The Mote is the turn 0 of a chain, as its maker made it, or with further configuration. -/
def StartsChain (P : Platform) (instanceId : InstanceId) (stepSalt : Option (ByteVec 32))
    (warrant : WarrantSpec) (turn0 : Mote) : Prop :=
  ∃ modelId instruction, ∃ built : Mote,
    built = P.buildChainTurn modelId instruction 0 instanceId stepSalt
      warrant.modelRoute.maxOutputTokens ∧
    turn0.id = built.id ∧ turn0.def.modelId = built.def.modelId ∧
    turn0.def.configSubset[PROMPT_KEY]? = built.def.configSubset[PROMPT_KEY]?

/-- A seed whose budget is none, or over the limits, is refused. -/
theorem budget_of_reactSeedParams {requireApprovalDefault : Bool}
    (hparams : P.reactSeedParams requireApprovalDefault seed = .ok params) :
    (0 < params.maxTurns.toNat ∧ params.maxTurns ≤ REACT_MAX_TURNS) ∧
      0 < params.maxToolCalls.toNat ∧ params.maxToolCalls ≤ REACT_MAX_TOOL_CALLS := by
  unfold reactSeedParams at hparams
  dsimp only at hparams
  split at hparams
  · obtain ⟨instruction, -, hparams⟩ := except_bind_eq_ok.1 hparams
    obtain ⟨maxTurns, -, hparams⟩ := except_bind_eq_ok.1 hparams
    obtain ⟨maxToolCalls, -, hparams⟩ := except_bind_eq_ok.1 hparams
    split at hparams
    · cases hparams
    rename_i hbounds
    simp only [not_or, gt_iff_lt, UInt32.not_lt] at hbounds
    obtain ⟨hturns, hturnsMax, hcalls, hcallsMax⟩ := hbounds
    have hpos : ∀ {n : UInt32}, n ≠ 0 → 0 < n.toNat := fun hn =>
      Nat.pos_of_ne_zero fun h => hn (UInt32.toNat_inj.1 h)
    repeat' split at hparams
    all_goals
      cases hparams
    all_goals
      exact ⟨⟨hpos hturns, hturnsMax⟩, hpos hcalls, hcallsMax⟩
  · cases hparams

theorem getElem?_insertAll {cfg : List (ConfigKey × ConfigVal)} {key : ConfigKey}
    (hkey : ∀ entry ∈ cfg, entry.1 ≠ key) (m : Std.ExtTreeMap ConfigKey ConfigVal) :
    (cfg.foldl (fun cfg (key, value) => cfg.insert key value) m)[key]? = m[key]? := by
  induction cfg generalizing m with
  | nil => rfl
  | cons entry cfg ih =>
    rw [foldl_cons, ih (fun e he => hkey e (by simp [he]))]
    have hne : compare entry.1 key ≠ .eq := fun h =>
      hkey entry (by simp) (Std.LawfulEqOrd.eq_of_compare h)
    simp [Std.ExtTreeMap.getElem?_insert, hne]

variable {warrant : WarrantSpec}

/-- What a seed adds to its turn 0 is not its prompt. -/
theorem startsChain_seed {instruction : String} :
    StartsChain P instanceId (some seed.id.bytes) warrant
      (reactAnchorClone (P.buildChainTurn seed.def.modelId instruction 0 instanceId
        (some seed.id.bytes) warrant.modelRoute.maxOutputTokens) (seedAnchorCfg seed)) := by
  refine ⟨seed.def.modelId, instruction, _, rfl, rfl, rfl, getElem?_insertAll ?_ _⟩
  intro entry hentry
  obtain ⟨key, hkey, hvalue⟩ := mem_filterMap.1 hentry
  obtain ⟨value, -, rfl⟩ := Option.map_eq_some_iff.1 hvalue
  fin_cases hkey
  · exact (by decide : IMAGE_REF_KEY ≠ PROMPT_KEY)
  · exact (by decide : CONTEXT_ITEMS_KEY ≠ PROMPT_KEY)

variable {mote : Mote}

theorem swapSeed_eq_ok
    (hswap : P.swapSeed outside instanceId seed warrant reactSeed = .ok (mote, some params)) :
    P.reactSeedParams outside.serveRequireApprovalDefault seed = .ok params ∧
      mote = P.buildChainTurn seed.def.modelId params.instruction 0 instanceId
        (some seed.id.bytes) warrant.modelRoute.maxOutputTokens := by
  unfold swapSeed at hswap
  split_ifs at hswap
  · obtain ⟨params', hparams, hmote⟩ := except_bind_eq_ok.1 hswap
    cases hmote
    exact ⟨hparams, rfl⟩
  · cases hswap

end Seeds

/-- Of routines `R`, and of programs that may also decide what becomes of a Mote `T`: what
sequencing keeps, what those have which note no fact of the kind, and what the functions have
that note one. -/
structure Platform.Walks (P : Platform) (kind : FactKind) (R : (α : Type) → Routine J α → Prop)
    (T : (α : Type) → Coord J α → Prop) : Prop where
  rounds : kind = .replanRound ∨ kind = .reRankRound ∨ kind = .reactRound
  quiet : ∀ {α : Type} {p : Routine J α}, Quiet kind p → R α p
  bind : ∀ {α β : Type} {p : Routine J α} {f : α → Routine J β},
    R α p → (∀ a, R β (f a)) → R β (p >>= f)
  thread : ∀ {α : Type} {p : Routine J α}, R α p → T α (routine p)
  quietThread : ∀ {α : Type} {p : Coord J α}, QuietThread kind p → T α p
  bindThread : ∀ {α β : Type} {p : Coord J α} {f : α → Coord J β},
    T α p → (∀ a, T β (f a)) → T β (p >>= f)
  replanAnchor : kind = .replanRound → ∀ shaperId shaperDef warrant,
    R Unit (P.writeReplanAnchor shaperId shaperDef warrant) := by rintro ⟨⟩
  replanRounds : kind = .replanRound → R Unit P.settleReplanRounds := by rintro ⟨⟩
  rerankRounds : kind = .reRankRound → R Unit P.settleRerankRounds := by rintro ⟨⟩
  reactChain : kind = .reactRound → ∀ chain, R _ (P.driveReactChain chain) := by rintro ⟨⟩
  reactAnchor : kind = .reactRound → ∀ instanceId stepSalt isAgenticLaunch turn0 warrant
    (maxTurns maxToolCalls : UInt32) requireApproval,
    StartsChain P instanceId stepSalt warrant turn0 →
    (0 < maxTurns.toNat ∧ maxTurns ≤ REACT_MAX_TURNS) →
    (0 < maxToolCalls.toNat ∧ maxToolCalls ≤ REACT_MAX_TOOL_CALLS) →
    R _ (P.writeReactAnchor instanceId stepSalt isAgenticLaunch turn0 warrant maxTurns maxToolCalls
      requireApproval) := by rintro ⟨⟩

namespace Platform.Walks

variable {P : Platform} {R : (α : Type) → Routine J α → Prop} {T : (α : Type) → Coord J α → Prop}
  {warrant : WarrantSpec} (h : P.Walks kind R T)

include h

theorem kind_ne (hother : other ≠ .replanRound ∧ other ≠ .reRankRound ∧ other ≠ .reactRound) :
    kind ≠ other := by
  rintro rfl
  rcases h.rounds with hkind | hkind | hkind
  · exact hother.1 hkind
  · exact hother.2.1 hkind
  · exact hother.2.2 hkind

theorem writeReplanAnchor (shaperId : MoteId) (shaperDef : MoteDef) (warrant : WarrantSpec) :
    R Unit (P.writeReplanAnchor shaperId shaperDef warrant) := by
  by_cases hkind : kind = .replanRound
  · exact h.replanAnchor hkind ..
  · exact h.quiet (P.quiet_writeReplanAnchor hkind ..)

theorem settleReplanRounds : R Unit P.settleReplanRounds := by
  by_cases hkind : kind = .replanRound
  · exact h.replanRounds hkind
  · exact h.quiet (P.quiet_settleReplanRounds hkind)

theorem recoverReplanChain : R Unit P.recoverReplanChain := by
  refine h.bind (h.quiet quiet_look) fun w => ?_
  split_ifs
  · exact h.quiet (only_pure _)
  · exact h.quiet (only_pure _)
  refine h.bind (h.quiet (only_forEach fun r => P.quiet_recoverCommittedRound r)) fun _ => ?_
  split
  · exact h.settleReplanRounds
  · exact h.bind (h.quiet (P.quiet_recoverOpenRound _)) fun _ => h.settleReplanRounds

theorem settleRerankRounds : R Unit P.settleRerankRounds := by
  by_cases hkind : kind = .reRankRound
  · exact h.rerankRounds hkind
  · exact h.quiet (P.quiet_settleRerankRounds hkind)

theorem recoverRerankChain : R Unit P.recoverRerankChain := by
  refine h.bind (h.quiet quiet_look) fun w => ?_
  dsimp only
  split_ifs
  · exact h.quiet (only_pure _)
  · exact h.quiet (only_pure _)
  exact h.bind (h.quiet (only_forEach fun anchor => P.quiet_recoverRerank anchor)) fun _ =>
    h.settleRerankRounds

theorem driveReactChain (chain : ChainKey) : R _ (P.driveReactChain chain) := by
  by_cases hkind : kind = .reactRound
  · exact h.reactChain hkind chain
  · exact h.quiet (P.quiet_driveReactChain hkind (h.kind_ne (by decide)) (h.kind_ne (by decide))
      chain)

theorem writeReactAnchor {stepSalt : Option (ByteVec 32)} {maxTurns maxToolCalls : UInt32}
    (hstarts : StartsChain P instanceId stepSalt warrant turn0)
    (hturns : 0 < maxTurns.toNat ∧ maxTurns ≤ REACT_MAX_TURNS)
    (hcalls : 0 < maxToolCalls.toNat ∧ maxToolCalls ≤ REACT_MAX_TOOL_CALLS)
    (isAgenticLaunch requireApproval : Bool) :
    R _ (P.writeReactAnchor instanceId stepSalt isAgenticLaunch turn0 warrant maxTurns maxToolCalls
      requireApproval) := by
  by_cases hkind : kind = .reactRound
  · exact h.reactAnchor hkind _ _ _ _ _ _ _ _ hstarts hturns hcalls
  · exact h.quiet (P.quiet_writeReactAnchor hkind ..)

theorem captureSubmission {params : Option SeedParams}
    (hswap : P.swapSeed outside instanceId seed warrant reactSeed = .ok (mote, params))
    (resolution : Option (List ResolvedTool)) :
    R _ (P.captureSubmission instanceId seed mote warrant resolution params) := by
  have hanchor : ∀ body : Routine J (Except CoordinatorError Unit), R _ body →
      R _ (show Routine J (Except CoordinatorError Unit) from do
        let w ← look
        if mote.def.isTopologyShaper && w.outside.store.isSome then
          P.writeReplanAnchor mote.id mote.def warrant
        body) := by
    intro body hbody
    refine h.bind (h.quiet quiet_look) fun w => ?_
    split_ifs
    · exact h.bind (h.writeReplanAnchor ..) fun _ => hbody
    · exact hbody
  have hcapture : ∀ events, R _ (P.captureRunVersions instanceId warrant events) :=
    fun events => h.quiet (P.quiet_captureRunVersions (h.kind_ne (by decide)) ..)
  cases params with
  | none =>
    have hnone := hanchor (pure (.ok ())) (h.quiet (only_pure _))
    cases resolution with
    | none => exact hnone
    | some tools => exact h.bind (hcapture _) fun _ => hnone
  | some params =>
    obtain ⟨hparams, hmote⟩ := swapSeed_eq_ok hswap
    obtain ⟨hturns, hcalls⟩ := budget_of_reactSeedParams hparams
    have hstarts : StartsChain P instanceId (some seed.id.bytes) warrant
        (reactAnchorClone mote (seedAnchorCfg seed)) := by
      rw [hmote]
      exact startsChain_seed
    have hsome := hanchor _ (h.writeReactAnchor hstarts hturns hcalls false params.requireApproval)
    cases resolution with
    | none => exact hsome
    | some tools => exact h.bind (hcapture _) fun _ => hsome

theorem submitAndCapture (seed : Mote) (warrant : WarrantSpec)
    (acceptAtLeastOnce reactSeed : Bool) :
    R _ (P.submitAndCapture seed warrant acceptAtLeastOnce reactSeed) := by
  have hpure : ∀ answer : Except CoordinatorError SubmitOutcome, R _ (pure answer) :=
    fun _ => h.quiet (only_pure _)
  refine h.bind (h.quiet quiet_look) fun w => ?_
  split
  · exact hpure _
  dsimp only
  split
  · exact hpure _
  split
  · exact hpure _
  rename_i mote params hswap
  have hanswer : ∀ answer : Except CoordinatorError SubmitOutcome,
      R _ (P.rematerialize mote warrant >>= fun _ => pure answer) :=
    fun answer => h.bind (h.quiet (P.quiet_rematerialize ..)) fun _ => hpure _
  refine h.bind (h.quiet (P.quiet_handleSubmit ..)) fun duplicate => ?_
  split
  · refine h.bind (h.quiet (quiet_parkSubmitted ..)) fun _ => ?_
    split
    · exact hanswer _
    refine h.bind (h.captureSubmission hswap _) fun captured => ?_
    cases captured with
    | error err => exact hpure _
    | ok _ => exact hanswer _
  · split
    · exact hanswer _
    refine h.bind (h.captureSubmission hswap _) fun captured => ?_
    cases captured with
    | error err => exact hpure _
    | ok _ => exact hanswer _

theorem settleChains (chains : List ChainKey) : T _ (P.settleChains chains) := by
  induction chains with
  | nil => exact h.quietThread (only_pure _)
  | cons chain chains ih =>
    refine h.bindThread ?_ fun status => h.bindThread ih fun settled => ?_
    · refine h.bindThread (h.thread (h.driveReactChain chain)) fun status => h.quietThread ?_
      refine Only.bind quietThread_look fun w => ?_
      split
      · split_ifs
        · exact quiet_finalizeAgenticLaunch
        · exact only_pure _
      · exact only_pure _
    · cases status <;> exact h.quietThread (only_pure _)

theorem settleReactRounds : T Unit P.settleReactRounds := by
  refine h.bindThread (h.quietThread quietThread_look) fun w => ?_
  split_ifs
  · exact h.quietThread (only_pure _)
  all_goals
    refine h.bindThread (h.settleChains _) fun settled => h.quietThread ?_
    exact Only.bind quietThread_look fun w => quietThread_edit _

theorem settleAgenticLaunches : T Unit P.settleAgenticLaunches := by
  have hforEach : ∀ (launches : List (MoteId × InstanceId)) body, (∀ launch, T Unit (body launch)) →
      T Unit (forEach launches body) := by
    intro launches body hbody
    induction launches with
    | nil => exact h.quietThread (only_pure _)
    | cons launch launches ih => exact h.bindThread (hbody launch) fun _ => ih
  have hedit : ∀ e, T Unit (edit e) := fun e => h.quietThread (quietThread_edit e)
  refine h.bindThread (h.quietThread quietThread_look) fun w => ?_
  split_ifs
  · exact h.quietThread (only_pure _)
  refine hforEach _ _ fun launch => h.bindThread (h.quietThread quietThread_look) fun w => ?_
  split
  · exact hedit _
  split
  · exact hedit _
  split
  · exact h.bindThread (h.quietThread quiet_deadLetterAgenticLaunch) fun _ => hedit _
  · exact h.quietThread (only_pure _)
  split_ifs
  · exact hedit _
  -- the launch is anchored
  refine h.bindThread (h.quietThread quietThread_look) fun w => ?_
  split
  · exact h.bindThread (h.quietThread quiet_deadLetterAgenticLaunch) fun _ => hedit _
  rename_i params hparams
  obtain ⟨hturns, hcalls⟩ := budget_of_reactSeedParams hparams
  refine h.bindThread (h.thread (h.writeReactAnchor ⟨_, params.instruction, _, rfl, rfl, rfl, rfl⟩
    hturns hcalls ..)) fun anchored => ?_
  split
  · exact h.quietThread (only_pure _)
  · exact h.bindThread (h.quietThread (P.quiet_materialize ..).thread) fun _ => hedit _

/-- All that the coordinator does. -/
theorem act (action : Action) : T Reply (P.act action) := by
  have hpure : ∀ {α : Type} (a : α), T α (pure a) := fun _ => h.quietThread (only_pure _)
  have hquiet : ∀ {α : Type} {p : Coord J α} {f : α → Reply}, QuietThread kind p →
      T Reply (p >>= fun a => pure (f a)) :=
    fun hp => h.bindThread (h.quietThread hp) fun _ => hpure _
  have hreranks := (P.quiet_settleChatRagReranks (J := J) (h.kind_ne (by decide))).thread
  cases action with
  | recover =>
    refine h.bindThread ?_ fun _ => hpure _
    refine h.bindThread (h.thread h.recoverReplanChain) fun _ => ?_
    refine h.bindThread (h.thread h.recoverRerankChain) fun _ => ?_
    refine h.bindThread (h.quietThread hreranks) fun _ => ?_
    refine h.bindThread ?_ fun _ => h.quietThread quiet_rearmTimers
    refine h.bindThread (h.quietThread quietThread_look) fun w => ?_
    split_ifs
    · exact hpure _
    exact h.bindThread (h.quietThread (Quiet.thread (only_forEach fun chain =>
      P.quiet_recoverChainTurn chain))) fun _ => h.settleReactRounds
  | flush pending => exact hquiet (P.quiet_flushCommits pending)
  | command command =>
    cases command with
    | submit d inputDataId graphPosition parents warrant acceptAtLeastOnce reactSeed =>
      exact h.bindThread (h.thread (h.submitAndCapture ..)) fun _ => hpure _
    | commit _ | query => exact hpure _
    | leaseWork req => exact hquiet (P.quiet_serveLease req)
    | repudiate target reason repudiatorId => exact hquiet quiet_repudiateCascade
    | reportEffectStaged moteId idempotencyKey => exact hquiet (quiet_stageEffect ..)
    | reportFailure moteId idempotencyKey reason worker detail =>
      exact hquiet (quiet_deadLetterFailure ..)
    | registerRun recipeFingerprint =>
      exact hquiet (quiet_registerRun (h.kind_ne (by decide))).thread
    | grantApproval _ _ _ | denyApproval _ _ _ =>
      exact hquiet (quiet_decideApproval (h.kind_ne (by decide))).thread
  | settle =>
    refine h.bindThread ?_ fun _ => hpure _
    refine h.bindThread (h.thread h.settleReplanRounds) fun _ => ?_
    refine h.bindThread h.settleAgenticLaunches fun _ => ?_
    refine h.bindThread (h.quietThread P.quiet_settleWaitSteps) fun _ => ?_
    refine h.bindThread (h.quietThread P.quiet_settleSkipGuards) fun _ => ?_
    refine h.bindThread (h.quietThread P.quiet_settlePoliciedSteps) fun _ => ?_
    refine h.bindThread (h.quietThread P.quiet_fireDueTimers) fun _ => ?_
    refine h.bindThread (h.thread h.settleRerankRounds) fun _ => ?_
    exact h.bindThread (h.quietThread hreranks) fun _ => h.settleReactRounds

end Platform.Walks

end Kortecx.Coordinator
