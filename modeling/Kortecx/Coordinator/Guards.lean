import Kortecx.Coordinator.Machine

/-!
What the coordinator makes sure of before it does something that decides what becomes of a Mote.
Every such effect is performed right after a look at the state, and the look says when it is
permitted: `Guarded` collects these conditions, and each function of the coordinator is shown to
keep to them.
-/

namespace Kortecx.Coordinator

open Lib Mote Journal Projection Warrant List Std Lib.Program

def Op.Retires (id : MoteId) : Op → Prop
  | .edit (.expel k) => k = id
  | .edit (.undefine k) => k = id
  | .edit (.unpark _ k) => k = id
  | .edit (.resolve k) => k = id
  | .disarm k => k = id
  | _ => False

/-- The edits made with a commit or a dead letter. -/
structure Retirement (id : MoteId) (ops : List Op) : Prop where
  retires : ∀ op ∈ ops, op.Retires id
  resolves : Op.edit (.resolve id) ∈ ops
  expels : Op.edit (.expel id) ∈ ops

/-- What a caller may know where the crash of a Mote is recorded, and where a group of
reported commits is. -/
structure Known (J : Backend) where
  crash : Core J → MoteId → Prop
  report : Core J → List JournalEntry → Prop

def Known.nothing {J : Backend} : Known J where
  crash _ _ := True
  report _ _ := True

namespace Platform

variable (P : Platform) {J : Backend}

/-- A Mote that a worker may be handed: it is not committed, not held by another worker, its
effect has not happened unless it may happen again, and it is ready or crash-failed and
fit for another run. -/
structure Offered (w : Core J) (worker : WorkerId) (id : MoteId) : Prop where
  defined : ∃ mote warrant, w.dispatch.defs[id]? = some (mote, warrant)
  uncommitted : w.projection.stateOfId id ≠ .committed
  free : w.dispatch.tracker.isLeasedByOther id worker = false
  fresh : atLeastOnceAlreadyStaged w.dispatch w.projection id = false
  candidate : (∃ store, id ∈ P.gatedReadySet w.projection store) ∨
    id ∈ w.dispatch.tracker.crashFailed ∧ redispatchAdmissible w.dispatch w.projection id = true

/-- An attempt that the ladder passes over. -/
def Spent (s : State) (id : MoteId) : Prop :=
  s.stateOfId id = .failed ∨ s.stateOfId id = .inconsistent ∨ s.stateOfId id = .repudiated

/-- Attempt `n` of a launch comes next: the attempts before it are spent. -/
structure Due (w : Core J) (launchId : MoteId) (launch : Mote) (n : Nat) : Prop where
  defined : ∃ warrant, w.dispatch.defs[launchId]? = some (launch, warrant)
  range : 2 ≤ n ∧ n ≤ maxAttempts launch
  spent : ∀ k, 1 ≤ k → k < n → Spent w.projection (P.attemptMote launch (UInt32.ofNat k)).id

def ArmsRightly (w : Core J) (t : TimerArmed) : Prop :=
  t.purpose = 0 ∨ t.purpose = 1 ∧
    ∃ launch n, t.attempt = UInt32.ofNat n ∧ P.Due w t.subjectMoteId launch n

/-- What holds where an effect is performed, with what else is known there. -/
def GuardedBy (K : Known J) (w : Core J) : Effect → Prop
  | .chore _ => True
  | .record (.committed c) _ ops =>
    (JournalEntry.committed c).Readable ∧ c.idempotencyKey = c.moteId.bytes ∧
      isTerminal (w.projection.stateOfId c.moteId) = false ∧ Retirement c.moteId ops
  | .record (.failed f) _ ops =>
    (f.reasonClass = .workerCrashed ∧ w.projection.stateOfId f.moteId ≠ .committed ∧
      K.crash w f.moteId ∧ ops = [.recordCrash f.moteId]) ∨
    (isPreCommitCrash f.reasonClass = false ∧
      isTerminal (w.projection.stateOfId f.moteId) = false ∧ Retirement f.moteId ops)
  | .record (.effectStaged _) _ ops => ops = []
  | .record (.timerArmed t) _ ops => P.ArmsRightly w t ∧
      ∀ op ∈ ops, op = .arm t.subjectMoteId ⟨t.fireAtUnixMs, t.purpose, t.attempt⟩ ∨
        op = .edit (.unpark .waits t.subjectMoteId)
  | .record _ _ _ => False
  | .recordCommits es =>
    K.report w es ∧ ∃ ps : List CommitProposal, es = ps.map committedEntry ∧
      ∀ p ∈ ps, p.moteId ∈ w.dispatch.submitted
  | .recordRepudiations es =>
    ∃ target reason repudiatorId, cascadeRepudiationEntries P.ids.blake3 w.projection target
      reason repudiatorId DEFAULT_CASCADE_CEILING = .ok es
  | .update (.arm id timer) =>
    ∃ t ∈ w.projection.timers, t.subjectMoteId = id ∧ t.purpose = timer.purpose ∧
      t.attempt = timer.attempt
  | .update (.disarm _) => True
  | .update (.recordLease worker motes) => ∀ id ∈ motes, P.Offered w worker id
  | .update (.takeLeases worker) => w.outside.status worker = some .dead
  | .update _ => False

abbrev Guarded (w : Core J) (e : Effect) : Prop :=
  P.GuardedBy Known.nothing w e

variable (K : Known J) {w : Core J} {α : Type}

/-- The program performs guarded effects only. -/
abbrev Keeps (p : Coord J α) (w : Core J) : Prop :=
  p.Along (P.handler J) (P.GuardedBy K) w

variable {P K}

theorem GuardedBy.guarded (he : P.GuardedBy K w e) : P.Guarded w e := by
  cases e with
  | record x strict ops =>
    cases x with
    | failed f =>
      obtain ⟨hcrash, hstate, -, hops⟩ | hterminal := he
      · exact .inl ⟨hcrash, hstate, trivial, hops⟩
      · exact .inr hterminal
    | _ => exact he
  | recordCommits es => exact ⟨trivial, he.2⟩
  | update op => cases op <;> exact he
  | _ => exact he

theorem keeps_routine (w : Core J) : P.Keeps K (routine p) w :=
  along_routine fun _ _ => trivial

theorem keeps_reading : P.Keeps K (reading p) w :=
  along_reading fun _ _ => trivial

theorem keeps_edit : P.Keeps K (edit e) w :=
  along_edit.2 trivial

theorem keeps_look_bind (hf : P.Keeps K (f w) w) :
    P.Keeps K (look >>= f) w :=
  along_look_bind.2 ⟨trivial, hf⟩

section Settling

variable {m : Mote} {warrant : WarrantSpec} {ref : ContentRef} {id : MoteId}

theorem readable_synthesizedCommit (P : Platform) (m : Mote) (warrant : WarrantSpec)
    (ref : ContentRef) : (P.synthesizedCommit m warrant ref).Readable := by
  intro p hp
  obtain ⟨parent, _, rfl⟩ := mem_map.1 hp
  exact ParentEntry.readable_fromParentRef parent

variable {ops : List Op} {strict : Bool}

theorem guarded_synthesizedCommit (hopen : isTerminal (w.projection.stateOfId m.id) = false)
    (hops : Retirement m.id ops) :
    P.GuardedBy K w (.record (P.synthesizedCommit m warrant ref) strict ops) :=
  ⟨readable_synthesizedCommit P m warrant ref, rfl, hopen, hops⟩

theorem guarded_deadLetter (hopen : isTerminal (w.projection.stateOfId id) = false)
    (hops : Retirement id ops) :
    P.GuardedBy K w (.record (deadLetterEntry id) strict ops) :=
  .inr ⟨rfl, hopen, hops⟩

theorem keeps_synthCommitSubject (hopen : isTerminal (w.projection.stateOfId m.id) = false) :
    P.Keeps K (synthCommitSubject P m warrant ref) w := by
  apply along_record_bind.2
  refine ⟨guarded_synthesizedCommit hopen ⟨?_, by simp, by simp⟩, trivial⟩
  simp [Op.Retires]

theorem keeps_deadLetterParkedWait (hopen : isTerminal (w.projection.stateOfId id) = false) :
    P.Keeps K (deadLetterParkedWait id) w := by
  apply along_record_bind.2
  refine ⟨guarded_deadLetter hopen ⟨?_, by simp, by simp⟩, trivial⟩
  simp [Op.Retires]

theorem keeps_commitAgenticLaunch (hopen : isTerminal (w.projection.stateOfId m.id) = false) :
    P.Keeps K (commitAgenticLaunch P m warrant ref) w := by
  apply along_record_bind.2
  refine ⟨guarded_synthesizedCommit hopen ⟨?_, by simp, by simp⟩, trivial⟩
  simp [Op.Retires]

theorem keeps_deadLetterAgenticLaunch (hopen : isTerminal (w.projection.stateOfId id) = false) :
    P.Keeps K (deadLetterAgenticLaunch id) w := by
  apply along_record_bind.2
  refine ⟨guarded_deadLetter hopen ⟨?_, by simp, by simp⟩, trivial⟩
  simp [Op.Retires]

/-- A step that is pending has not come to an end. -/
theorem open_of_pending {s : State} (hpending : ¬ s.stateOfId id ≠ .pending) :
    isTerminal (s.stateOfId id) = false := by
  rw [not_not] at hpending
  rw [hpending]
  rfl

end Settling

section Passes

theorem keeps_anchorLaunch (hopen : isTerminal (w.projection.stateOfId launchId) = false) :
    P.Keeps K (P.anchorLaunch launchId instanceId launch warrant) w := by
  apply keeps_look_bind
  split
  · exact along_bind.2 ⟨keeps_deadLetterAgenticLaunch hopen, keeps_edit⟩
  refine along_bind.2 ⟨keeps_routine _, ?_⟩
  split
  · trivial
  · exact along_bind.2 ⟨keeps_routine _, keeps_edit⟩

theorem keeps_settleAgenticLaunch (w : Core J) :
    P.Keeps K (P.settleAgenticLaunch launchId instanceId) w := by
  apply keeps_look_bind
  split
  · exact keeps_edit
  split
  · exact keeps_edit
  rename_i hpending
  split
  · exact along_bind.2 ⟨keeps_deadLetterAgenticLaunch (open_of_pending hpending), keeps_edit⟩
  · trivial
  split
  · exact keeps_edit
  · exact keeps_anchorLaunch (open_of_pending hpending)

theorem keeps_settleAgenticLaunches : P.Keeps K P.settleAgenticLaunches w := by
  apply keeps_look_bind
  split
  · trivial
  · exact along_forEach fun _ _ w => keeps_settleAgenticLaunch w

variable {waitId guardId : MoteId}

theorem keeps_armWait (hopen : isTerminal (w.projection.stateOfId waitId) = false) :
    P.Keeps K (P.armWait waitId instanceId wait) w := by
  apply keeps_look_bind
  split
  · exact keeps_deadLetterParkedWait hopen
  refine along_record_bind.2 ⟨⟨.inl rfl, ?_⟩, trivial⟩
  simp

theorem keeps_settleWaitStep (w : Core J) :
    P.Keeps K (P.settleWaitStep waitId instanceId) w := by
  apply keeps_look_bind
  split
  · exact keeps_edit
  split
  · exact keeps_edit
  rename_i hpending
  split
  · rename_i rec hrec
    have harmed : P.GuardedBy K w
        (.update (.arm waitId ⟨rec.fireAtUnixMs, rec.purpose, rec.attempt⟩)) :=
      ⟨rec, mem_of_find?_eq_some hrec, by simpa using List.find?_some hrec, rfl, rfl⟩
    exact along_update_bind.2 ⟨harmed, keeps_edit⟩
  · split
    · exact keeps_deadLetterParkedWait (open_of_pending hpending)
    · trivial
    · exact keeps_armWait (open_of_pending hpending)

theorem keeps_settleWaitSteps : P.Keeps K P.settleWaitSteps w := by
  apply keeps_look_bind
  exact along_forEach fun _ _ w => keeps_settleWaitStep w

theorem keeps_skipGuard {m : Mote} (hopen : isTerminal (w.projection.stateOfId m.id) = false) :
    P.Keeps K (P.skipGuard guardId m warrant) w := by
  apply keeps_look_bind
  split
  · trivial
  refine along_put_bind.2 ⟨trivial, ?_⟩
  split
  · trivial
  refine along_bind.2 ⟨keeps_synthCommitSubject ?_, keeps_edit⟩
  rwa [Core.projection_put]

theorem keeps_settleSkipGuard (w : Core J) :
    P.Keeps K (P.settleSkipGuard guardId) w := by
  apply keeps_look_bind
  split
  · exact keeps_edit
  rename_i m warrant hdef
  split
  · exact keeps_edit
  rename_i hpending
  split
  · exact along_bind.2 ⟨keeps_deadLetterParkedWait (open_of_pending hpending), keeps_edit⟩
  · trivial
  split
  · exact keeps_edit
  · trivial
  apply keeps_skipGuard
  rw [w.dispatch.defs_keyed _ _ _ hdef]
  exact open_of_pending hpending

theorem keeps_settleSkipGuards : P.Keeps K P.settleSkipGuards w := by
  apply keeps_look_bind
  exact along_forEach fun _ _ w => keeps_settleSkipGuard w

end Passes

section Ladder

variable {launchId : MoteId} {instanceId : InstanceId} {launch : Mote} {warrant : WarrantSpec}
  {n : Nat}

theorem keeps_armBackoff (hdue : P.Due w launchId launch n) :
    P.Keeps K (P.armBackoff launchId instanceId launch n) w := by
  apply keeps_look_bind
  split
  · rename_i rec hrec
    have hfound := List.find?_some hrec
    simp only [decide_eq_true_eq] at hfound
    exact along_update.2 ⟨rec, mem_of_find?_eq_some hrec, hfound⟩
  · refine along_record_bind.2 ⟨⟨.inr ⟨rfl, launch, n, rfl, hdue⟩, ?_⟩, trivial⟩
    simp

/-- One more attempt is spent. -/
theorem spent_succ
    (hbefore : ∀ k, 1 ≤ k → k < n → Spent s (P.attemptMote launch (UInt32.ofNat k)).id)
    (hn : Spent s (P.attemptMote launch (UInt32.ofNat n)).id) :
    ∀ k, 1 ≤ k → k < n + 1 → Spent s (P.attemptMote launch (UInt32.ofNat k)).id := by
  intro k hpos hlt
  rcases Nat.lt_succ_iff_lt_or_eq.1 hlt with hlt | rfl
  · exact hbefore k hpos hlt
  · exact hn

variable {fuel : Nat}

/-- The ladder acts at the first attempt that is not spent. The induction is on the
attempts left. -/
theorem keeps_climb (hdef : w.dispatch.defs[launchId]? = some (launch, warrant))
    (hopen : isTerminal (w.projection.stateOfId launchId) = false) (hpos : 1 ≤ n)
    (hfuel : n + fuel = maxAttempts launch + 1)
    (hspent : ∀ k, 1 ≤ k → k < n → Spent w.projection (P.attemptMote launch (UInt32.ofNat k)).id) :
    P.Keeps K (P.climb launchId instanceId launch warrant fuel n) w := by
  induction fuel generalizing n with
  | zero => trivial
  | succ fuel ih =>
    have hnext : n + 1 + fuel = maxAttempts launch + 1 := by omega
    apply keeps_look_bind
    dsimp only
    split
    · split
      · trivial
      refine along_bind.2 ⟨keeps_synthCommitSubject ?_, ?_⟩
      · rwa [w.dispatch.defs_keyed _ _ _ hdef]
      · exact along_bind.2 ⟨keeps_edit, trivial⟩
    · rename_i hfailed
      exact ih (by omega) hnext (spent_succ hspent (.inl hfailed))
    · rename_i hinconsistent
      exact ih (by omega) hnext (spent_succ hspent (.inr (.inl hinconsistent)))
    · rename_i hrepudiated
      exact ih (by omega) hnext (spent_succ hspent (.inr (.inr hrepudiated)))
    all_goals
      split
      · trivial
      split
      · exact along_bind.2 ⟨keeps_routine _, trivial⟩
      rename_i hne
      have hdue : P.Due w launchId launch n :=
        ⟨⟨warrant, hdef⟩, ⟨by omega, by omega⟩, hspent⟩
      exact along_bind.2 ⟨keeps_armBackoff hdue, trivial⟩

/-- The ladder decides nothing only if every attempt it looked at is spent, and then it
has done nothing. -/
theorem climb_eq_false
    (hfalse : ((P.climb launchId instanceId launch warrant fuel n).run (P.handler J) w).1 = false) :
    ((P.climb launchId instanceId launch warrant fuel n).run (P.handler J) w).2 = w ∧
      ∀ k, n ≤ k → k < n + fuel →
        Spent w.projection (P.attemptMote launch (UInt32.ofNat k)).id := by
  induction fuel generalizing n with
  | zero => exact ⟨rfl, fun k hle hlt => absurd hlt (by omega)⟩
  | succ fuel ih =>
    have hrest : ∀ (_ : Spent w.projection (P.attemptMote launch (UInt32.ofNat n)).id)
        (_ : ((P.climb launchId instanceId launch warrant fuel (n + 1)).run
          (P.handler J) w).1 = false),
        ((P.climb launchId instanceId launch warrant fuel (n + 1)).run (P.handler J) w).2 = w ∧
          ∀ k, n ≤ k → k < n + (fuel + 1) →
            Spent w.projection (P.attemptMote launch (UInt32.ofNat k)).id := by
      intro hn hnext
      obtain ⟨hsame, hspent⟩ := ih hnext
      refine ⟨hsame, fun k hle hlt => ?_⟩
      rcases Nat.eq_or_lt_of_le hle with rfl | hlt'
      · exact hn
      · exact hspent k hlt' (by omega)
    unfold climb at hfalse ⊢
    rw [run_look_bind] at hfalse ⊢
    dsimp only at hfalse ⊢
    split at hfalse
    · split at hfalse
      · cases hfalse
      rw [run_bind, run_bind] at hfalse
      cases hfalse
    · rename_i hfailed
      exact hrest (.inl hfailed) hfalse
    · rename_i hinconsistent
      exact hrest (.inr (.inl hinconsistent)) hfalse
    · rename_i hrepudiated
      exact hrest (.inr (.inr hrepudiated)) hfalse
    all_goals
      split at hfalse
      · cases hfalse
      split at hfalse
      · rw [run_bind] at hfalse
        cases hfalse
      rw [run_bind] at hfalse
      cases hfalse

theorem keeps_exhausted (hdef : w.dispatch.defs[launchId]? = some (launch, warrant))
    (hopen : isTerminal (w.projection.stateOfId launchId) = false) :
    P.Keeps K (P.exhausted launchId launch warrant mode) w := by
  unfold exhausted
  split
  · exact along_bind.2 ⟨keeps_deadLetterParkedWait hopen, keeps_edit⟩
  apply keeps_look_bind
  split
  · trivial
  refine along_put_bind.2 ⟨trivial, ?_⟩
  split
  · trivial
  refine along_bind.2 ⟨keeps_synthCommitSubject ?_, keeps_edit⟩
  rwa [Core.projection_put, w.dispatch.defs_keyed _ _ _ hdef]

theorem keeps_settlePoliciedStep (w : Core J) :
    P.Keeps K (P.settlePoliciedStep launchId instanceId) w := by
  apply keeps_look_bind
  split
  · exact keeps_edit
  rename_i launch warrant hdef
  split
  · exact keeps_edit
  rename_i hpending
  have hopen := open_of_pending hpending
  split
  · exact along_bind.2 ⟨keeps_deadLetterParkedWait hopen, keeps_edit⟩
  · trivial
  split
  · exact along_bind.2 ⟨keeps_deadLetterParkedWait hopen, keeps_edit⟩
  have hnone : ∀ k, 1 ≤ k → k < 1 →
      Spent w.projection (P.attemptMote launch (UInt32.ofNat k)).id :=
    fun k hpos hlt => absurd hlt (by omega)
  refine along_bind.2 ⟨keeps_climb hdef hopen le_rfl (Nat.add_comm _ _) hnone, ?_⟩
  split
  · trivial
  rename_i hunsettled
  have hsame := (climb_eq_false (by simpa using hunsettled)).1
  rw [hsame]
  exact keeps_exhausted hdef hopen

theorem keeps_settlePoliciedSteps : P.Keeps K P.settlePoliciedSteps w := by
  apply keeps_look_bind
  exact along_forEach fun _ _ w => keeps_settlePoliciedStep w

end Ladder

theorem keeps_fireBackoff (w : Core J) :
    P.Keeps K (P.fireBackoff launchId attempt) w := by
  refine along_update_bind.2 ⟨trivial, along_look_bind.2 ⟨trivial, ?_⟩⟩
  split
  · trivial
  split
  · trivial
  · exact keeps_routine _

theorem keeps_fireWait (w : Core J) : P.Keeps K (P.fireWait waitId) w := by
  apply keeps_look_bind
  split
  · exact along_update.2 trivial
  rename_i hpending
  split
  · trivial
  rename_i wait warrant hdef
  have hopen : isTerminal (w.projection.stateOfId wait.id) = false := by
    rw [w.dispatch.defs_keyed _ _ _ hdef]
    exact open_of_pending hpending
  split
  · exact keeps_synthCommitSubject hopen
  split
  · trivial
  refine along_put_bind.2 ⟨trivial, ?_⟩
  split
  · trivial
  apply keeps_synthCommitSubject
  rwa [Core.projection_put]

theorem keeps_fireDueTimers : P.Keeps K P.fireDueTimers w := by
  refine along_look_bind.2 ⟨trivial, along_bind.2 ⟨?_, ?_⟩⟩
  · exact along_forEach fun _ _ w => keeps_fireBackoff w
  · exact along_forEach fun _ _ w => keeps_fireWait w

theorem keeps_finalizeAgenticLaunch :
    P.Keeps K (P.finalizeAgenticLaunch instanceId stepSalt) w := by
  apply keeps_look_bind
  dsimp only
  split
  · trivial
  rename_i hopen
  rw [Bool.not_eq_true] at hopen
  split
  · trivial
  rename_i launch warrant hdef
  split
  · exact along_bind.2 ⟨keeps_deadLetterAgenticLaunch hopen, trivial⟩
  split
  · split
    · trivial
    refine along_bind.2 ⟨keeps_reading, ?_⟩
    refine along_bind.2 ⟨keeps_commitAgenticLaunch ?_, trivial⟩
    rwa [projection_run_reading, w.dispatch.defs_keyed _ _ _ hdef]
  · trivial

theorem keeps_settleReactChain :
    P.Keeps K (P.settleReactChain chain) w := by
  refine along_bind.2 ⟨keeps_routine _, along_look_bind.2 ⟨trivial, ?_⟩⟩
  split
  · split
    · exact keeps_finalizeAgenticLaunch
    · trivial
  · trivial

theorem keeps_settleChains {chains : List ChainKey} {w : Core J} :
    P.Keeps K (P.settleChains chains) w := by
  induction chains generalizing w with
  | nil => trivial
  | cons chain chains ih =>
    refine along_bind.2 ⟨keeps_settleReactChain, along_bind.2 ⟨ih, ?_⟩⟩
    dsimp only
    split <;> trivial

theorem keeps_settleReactRounds : P.Keeps K P.settleReactRounds w := by
  apply keeps_look_bind
  split
  · trivial
  refine along_bind.2 ⟨keeps_settleChains, along_look_bind.2 ⟨trivial, ?_⟩⟩
  exact keeps_edit

theorem keeps_recoverReactChain : P.Keeps K P.recoverReactChain w := by
  apply keeps_look_bind
  split
  · trivial
  · exact along_bind.2 ⟨keeps_routine _, keeps_settleReactRounds⟩

theorem keeps_runSettlePasses : P.Keeps K P.runSettlePasses w := by
  refine along_bind.2 ⟨keeps_routine _, ?_⟩
  refine along_bind.2 ⟨keeps_settleAgenticLaunches, ?_⟩
  refine along_bind.2 ⟨keeps_settleWaitSteps, ?_⟩
  refine along_bind.2 ⟨keeps_settleSkipGuards, ?_⟩
  refine along_bind.2 ⟨keeps_settlePoliciedSteps, ?_⟩
  refine along_bind.2 ⟨keeps_fireDueTimers, ?_⟩
  refine along_bind.2 ⟨keeps_routine _, ?_⟩
  exact along_bind.2 ⟨keeps_routine _, keeps_settleReactRounds⟩

section Leases

variable {w' : Core J} {req : LeaseReq} {id : MoteId}

/-- What may be handed out depends on the projection and the bookkeeping only. -/
theorem Offered.congr (hoffered : P.Offered w worker id)
    (hprojection : w'.projection = w.projection) (hdispatch : w'.dispatch = w.dispatch) :
    P.Offered w' worker id where
  defined := hdispatch ▸ hoffered.defined
  uncommitted := hprojection ▸ hoffered.uncommitted
  free := hdispatch ▸ hoffered.free
  fresh := hprojection ▸ hdispatch ▸ hoffered.fresh
  candidate := hprojection ▸ hdispatch ▸ hoffered.candidate

theorem mem_leaseCandidates (hid : id ∈ P.leaseCandidates w) :
    ((∃ store, id ∈ P.gatedReadySet w.projection store) ∨
      id ∈ w.dispatch.tracker.crashFailed ∧
        redispatchAdmissible w.dispatch w.projection id = true) ∧
      atLeastOnceAlreadyStaged w.dispatch w.projection id = false := by
  unfold leaseCandidates at hid
  rw [mem_eraseDups, mem_filter, mem_append, mem_filter,
    ExtTreeSet.mem_toList] at hid
  obtain ⟨hcandidate, hfresh⟩ := hid
  exact ⟨hcandidate.imp_left fun hready => ⟨_, hready⟩, by simpa using hfresh⟩

theorem mayLease_eq_true (hmay : ((P.mayLease req id).run (ask P.ids.blake3 J) w).1 = true) :
    w.projection.stateOfId id ≠ .committed ∧
      w.dispatch.tracker.isLeasedByOther id req.worker = false := by
  unfold mayLease at hmay
  rw [run_ask_look_bind] at hmay
  split at hmay
  · cases hmay
  rename_i hcommitted
  split at hmay
  · cases hmay
  rename_i hfree
  exact ⟨hcommitted, by simpa using hfree⟩

variable {item : LeasedItem}

theorem leaseItem_eq_some (hitem : ((P.leaseItem id).run (ask P.ids.blake3 J) w).1 = some item) :
    item.mote.id = id ∧ w.dispatch.defs[id]? = some (item.mote, item.warrant) := by
  unfold leaseItem at hitem
  rw [run_ask_look_bind] at hitem
  split at hitem
  · cases hitem
  rename_i mote warrant hdef
  split at hitem
  · cases hitem
  rw [run_bind] at hitem
  cases hitem
  exact ⟨w.dispatch.defs_keyed _ _ _ hdef, hdef⟩

/-- A poll hands out offered Motes, as the bookkeeping defines them. -/
theorem offered_of_mem_leaseReady
    (hitem : item ∈ ((P.leaseReady req).run (ask P.ids.blake3 J) w).1) :
    P.Offered w req.worker item.mote.id ∧
      w.dispatch.defs[item.mote.id]? = some (item.mote, item.warrant) := by
  unfold leaseReady at hitem
  rw [run_ask_look_bind, run_bind] at hitem
  -- Neither loop changes the projection or the bookkeeping.
  have hframe : ∀ {α γ : Type} (p : γ → Reading J α) (x : γ) (w₁ : Core J),
      w₁.projection = w.projection ∧ w₁.dispatch = w.dispatch →
        ((p x).run (ask P.ids.blake3 J) w₁).2.projection = w.projection ∧
          ((p x).run (ask P.ids.blake3 J) w₁).2.dispatch = w.dispatch := by
    intro α γ p x w₁ hw₁
    obtain ⟨hprojection, hdispatch⟩ := run_ask_frame (p x) w₁
    exact ⟨hprojection.trans hw₁.1, hdispatch.trans hw₁.2⟩
  have hselected := fun id => @Program.mem_run_filterEach _ _ _ _ (ask P.ids.blake3 J)
    (fun w₁ => w₁.projection = w.projection ∧ w₁.dispatch = w.dispatch) w
    (P.leaseCandidates w) (P.mayLease req) id (hframe _) ⟨rfl, rfl⟩
  obtain ⟨id, hid, w₁, hw₁, hfound⟩ := Program.mem_run_collectEach (hframe P.leaseItem)
    (run_ask_frame (Program.filterEach (P.leaseCandidates w) (P.mayLease req)) w) hitem
  have hmem : id ∈ ((Program.filterEach (P.leaseCandidates w) (P.mayLease req)).run
      (ask P.ids.blake3 J) w).1 := by
    rcases mem_append.1 (mem_of_mem_take hid) with hin | hin
    · exact mem_of_mem_filter hin
    · exact mem_of_mem_filter hin
  obtain ⟨hcandidate, w₂, hw₂, hmay⟩ := hselected id hmem
  obtain ⟨rfl, hdef⟩ := leaseItem_eq_some hfound
  obtain ⟨huncommitted, hfree⟩ := mayLease_eq_true hmay
  obtain ⟨hsource, hfresh⟩ := mem_leaseCandidates hcandidate
  rw [hw₁.2] at hdef
  rw [hw₂.1] at huncommitted
  rw [hw₂.2] at hfree
  exact ⟨⟨⟨_, _, hdef⟩, huncommitted, hfree, hfresh, hsource⟩, hdef⟩

theorem keeps_reapMote (hcrash : K.crash w id) : P.Keeps K (reapMote id) w := by
  apply keeps_look_bind
  split
  · exact keeps_edit
  rename_i huncommitted
  exact along_record_bind.2 ⟨.inl ⟨rfl, huncommitted, hcrash, rfl⟩, trivial⟩

theorem keeps_reapWorker (hcrash : ∀ w id, K.crash w id) (worker : WorkerId) (w : Core J) :
    P.Keeps K (reapWorker worker) w := by
  apply keeps_look_bind
  split
  · trivial
  rename_i hdead
  refine along_update_bind.2 ⟨not_not.1 hdead, ?_⟩
  exact along_forEach fun _ _ w => keeps_reapMote (hcrash w _)

theorem keeps_reapDeadWorkers (hcrash : ∀ w id, K.crash w id) (w : Core J) :
    P.Keeps K reapDeadWorkers w := by
  apply keeps_look_bind
  exact along_forEach fun _ _ w => keeps_reapWorker hcrash _ w

/-- The lease recorded at the end of a poll is of offered Motes. -/
theorem guarded_recordLease :
    P.GuardedBy K ((reading (P.leaseReady req) : Coord J _).run (P.handler J) w).2
      (.update (.recordLease req.worker
        (((reading (P.leaseReady req) : Coord J _).run (P.handler J) w).1.map (·.mote.id)))) := by
  intro id hid
  obtain ⟨item, hitem, rfl⟩ := mem_map.1 hid
  rw [run_reading] at hitem
  exact (offered_of_mem_leaseReady hitem).1.congr (projection_run_reading _)
    (dispatch_run_reading _)

/-- A poll keeps to the guards if its reaping does. -/
theorem keeps_serveLease (req : LeaseReq) (hreap : P.Keeps K reapDeadWorkers w) :
    P.Keeps K (P.serveLease req) w := by
  refine along_bind.2 ⟨hreap, ?_⟩
  refine along_bind.2 ⟨keeps_reading, ?_⟩
  refine along_update_bind.2 ⟨guarded_recordLease, ?_⟩
  exact along_look_bind.2 ⟨trivial, trivial⟩

end Leases

theorem keeps_deadLetterFailure (hreason : isPreCommitCrash reason = false)
    (id : MoteId) (key : IdempotencyKey) (worker : WorkerId) (detail : String) (w : Core J) :
    P.Keeps K (deadLetterFailure id key reason worker detail) w := by
  apply keeps_look_bind
  split
  · exact along_edit_bind.2 ⟨trivial, trivial⟩
  rename_i hopen
  split
  · trivial
  refine along_recordStrict_bind.2 ⟨.inr ⟨hreason, by simpa using hopen, ?_, by simp, by simp⟩,
    trivial⟩
  simp [Op.Retires]

theorem keeps_repudiateCascade :
    P.Keeps K (repudiateCascade P.ids.blake3 target reason repudiatorId) w := by
  apply keeps_look_bind
  split
  · trivial
  rename_i entries hentries
  exact Program.along_call_bind.2 ⟨⟨target, reason, repudiatorId, hentries⟩, trivial⟩

theorem submitted_of_refusal (hadmitted : (refusal w p).isNone) :
    p.moteId ∈ w.dispatch.submitted := by
  unfold refusal at hadmitted
  split at hadmitted
  · cases hadmitted
  rename_i hsubmitted
  exact not_not.1 hsubmitted

theorem keeps_flushCommits
    (hreport : ∀ w ps, ps ⊆ pending → K.report w (ps.map committedEntry)) :
    P.Keeps K (P.flushCommits pending) w := by
  apply keeps_look_bind
  dsimp only
  split
  · trivial
  refine Program.along_call_bind.2 ⟨⟨hreport _ _ filter_sublist.subset, _, rfl, ?_⟩, ?_⟩
  · exact fun p hp => submitted_of_refusal (mem_filter.1 hp).2
  · split
    · trivial
    · exact along_bind.2 ⟨keeps_routine _, trivial⟩

theorem keeps_handleCommand
    (hreap : ∀ req, command = .leaseWork req → P.Keeps K reapDeadWorkers w) :
    P.Keeps K (P.handleCommand command) w := by
  cases command with
  | commit _ | query => trivial
  | leaseWork req => exact along_bind.2 ⟨keeps_serveLease req (hreap req rfl), trivial⟩
  | repudiate target reason repudiatorId =>
    exact along_bind.2 ⟨keeps_repudiateCascade, trivial⟩
  | reportEffectStaged id key =>
    refine along_bind.2 ⟨?_, trivial⟩
    exact along_recordStrict_bind.2 ⟨rfl, trivial⟩
  | reportFailure id key reason worker detail =>
    refine along_bind.2 ⟨keeps_deadLetterFailure ?_ _ _ _ _ _, trivial⟩
    cases reason <;> rfl
  | _ => exact along_bind.2 ⟨keeps_routine _, trivial⟩

theorem keeps_rearmTimers : P.Keeps K rearmTimers w := by
  apply keeps_look_bind
  have harm : ∀ t ∈ w.projection.timers.filter fun t =>
      !isTerminal (w.projection.stateOfId t.subjectMoteId),
      ∀ w' : Core J, w'.projection = w.projection →
        P.Keeps K (update (.arm t.subjectMoteId ⟨t.fireAtUnixMs, t.purpose, t.attempt⟩)) w' ∧
          w'.projection = w.projection := by
    intro t ht w' hw'
    refine ⟨along_update.2 ⟨t, ?_, rfl, rfl, rfl⟩, hw'⟩
    rw [hw']
    exact mem_of_mem_filter ht
  exact (Program.along_forEach_of_inv harm rfl).1

variable (action : Action)

/-- Whatever the loop does, it keeps to the guards if its reaping and its flushing do. -/
theorem keeps_act_of
    (hreap : ∀ req, action = .command (.leaseWork req) → P.Keeps K reapDeadWorkers w)
    (hreport : ∀ pending, action = .flush pending →
      ∀ w ps, ps ⊆ pending → K.report w (ps.map committedEntry)) :
    P.Keeps K (P.act action) w := by
  cases action with
  | recover =>
    refine along_bind.2 ⟨?_, trivial⟩
    refine along_bind.2 ⟨keeps_routine _, ?_⟩
    refine along_bind.2 ⟨keeps_routine _, ?_⟩
    refine along_bind.2 ⟨keeps_routine _, ?_⟩
    exact along_bind.2 ⟨keeps_recoverReactChain, keeps_rearmTimers⟩
  | flush pending =>
    exact along_bind.2 ⟨keeps_flushCommits (hreport pending rfl), trivial⟩
  | command command => exact keeps_handleCommand fun req heq => hreap req (congrArg _ heq)
  | settle => exact along_bind.2 ⟨keeps_runSettlePasses, trivial⟩

theorem keeps_act : (P.act action).Along (P.handler J) P.Guarded w :=
  keeps_act_of action (fun _ _ => keeps_reapDeadWorkers (fun _ _ => trivial) w)
    fun _ _ _ _ _ => trivial

end Platform

end Kortecx.Coordinator
