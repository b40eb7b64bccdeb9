import Kortecx.Coordinator.Leases

/-!
When a Mote is handed out again. While a worker that is not known to be dead holds it, no
other worker is handed it. Once its worker was found dead, the death is a fact of the
journal, and the Mote is handed out again only if it is pure or its effect was staged.
-/

namespace Kortecx.Coordinator

open Lib Mote Journal Projection Platform List LeaseTracker Program State RunInvariant
  ProcessInvariant Lib.Program

variable {P : Platform} {J : Backend}

namespace Platform

variable (P)

def reaped (w : Core J) : Core J :=
  (reapDeadWorkers.run (P.handler J) w).2

def handedOut (req : LeaseReq) (w : Core J) : List LeasedItem :=
  ((P.serveLease req).run (P.handler J) w).1.1

variable {P}

theorem handedOut_eq (req : LeaseReq) (w : Core J) :
    P.handedOut req w = ((P.leaseReady req).run (ask P.ids.blake3 J) (P.reaped w)).1 := by
  unfold handedOut serveLease
  rw [run_bind, run_bind, run_update_bind, run_look_bind, run_pure, run_reading]
  rfl

theorem offered_of_mem_handedOut {w : Core J} (hitem : item ∈ P.handedOut req w) :
    P.Offered (P.reaped w) req.worker item.mote.id ∧
      (P.reaped w).dispatch.defs[item.mote.id]? = some (item.mote, item.warrant) := by
  rw [handedOut_eq] at hitem
  exact offered_of_mem_leaseReady hitem

end Platform

variable {rel : J.State → List JournalEntry → Prop} {Q : Core J → Effect → Prop}
  {id : MoteId}

section Lapse

variable {w w' : Core J} {log new : List JournalEntry} {e : Effect}

/-- A failure of the Mote is folded, or a commit. -/
def Lapsed (info : MoteInfo) : Prop :=
  info.failedPendingReattempt = true ∨ info.committed.isSome = true

variable {info : MoteInfo}

theorem Lapsed.of_undeclared {info' : MoteInfo} (hsame : info'.undeclared = info.undeclared)
    (hlapsed : Lapsed info) : Lapsed info' := by
  rw [MoteInfo.eq_of_undeclared hsame]
  exact hlapsed

/-- Only a proposal undoes it. -/
theorem Lapsed.after (hlapsed : Lapsed info)
    (hx : ∀ p, x ≠ .proposed p) : Lapsed (info.after x) := by
  cases x with
  | proposed p => exact absurd rfl (hx p)
  | committed c => exact .inr rfl
  | failed f =>
    unfold Lapsed MoteInfo.after foldFailed at *
    grind
  | repudiated r =>
    unfold Lapsed MoteInfo.after foldRepudiated at *
    grind
  | _ => exact hlapsed

theorem Lapsed.of_committed (hcommitted : info.state = .committed) :
    Lapsed info := by
  obtain ⟨_, c, hc, _⟩ := MoteInfo.state_eq_committed.1 hcommitted
  right
  rw [hc]
  rfl

theorem lapsed_foldFailed (info : MoteInfo) :
    Lapsed (foldFailed reason detail info) := by
  unfold Lapsed foldFailed
  grind

/-- The coordinator proposes nothing. -/
theorem Did.not_proposed (hguarded : P.Guarded w e)
    (hdid : Did blake3 w log e new w') (p : Proposed) : .proposed p ∉ new := by
  intro hp
  obtain ⟨y, hy, n, hstamp⟩ := hdid.exists_entry hp
  cases y with
  | proposed p₀ =>
    rcases hguarded.mem_entries hy with ⟨fact, _, _, hfact⟩ | ⟨strict, ops, rfl⟩ |
      ⟨_, _, _, hentry, _⟩ | ⟨_, _, _, _, _, _, _, hentry⟩
    · cases fact <;> cases hfact
    · exact hguarded.elim
    · cases hentry
    · cases hentry
  | _ => cases hstamp

def lapsedRuns (P : Platform) (J : Backend) (rel : J.State → List JournalEntry → Prop)
    (Q : Core J → Effect → Prop) (id : MoteId) : RunInvariant P J rel Q :=
  .ofInfo id Lapsed Lapsed.of_undeclared <| by
    intro w log e new w' _ _ hguarded _ hdid x hx _ info hinfo
    apply hinfo.after
    rintro p rfl
    exact hdid.not_proposed hguarded p hx

end Lapse

variable {w : Core J}

section Reaping

variable {R : MoteInfo → Prop} {worker : WorkerId} {status : WorkerId → Option WorkerStatus}

/-- What is known of a committed Mote, and what the death of a worker does not undo. -/
structure OutlastsCrash (R : MoteInfo → Prop) : Prop where
  of_undeclared : ∀ {info info' : MoteInfo}, info'.undeclared = info.undeclared → R info → R info'
  of_committed : ∀ {info : MoteInfo}, info.state = .committed → R info
  after_failed : ∀ {info : MoteInfo} {reason detail}, R info → R (foldFailed reason detail info)

theorem outlastsCrash_committed : OutlastsCrash fun info => info.state = .committed where
  of_undeclared := by
    intro info info' hsame hcommitted
    rw [MoteInfo.eq_of_undeclared hsame]
    exact hcommitted
  of_committed hcommitted := hcommitted
  after_failed := by
    intro info reason detail hcommitted
    obtain ⟨_, c, hc, _⟩ := MoteInfo.state_eq_committed.1 hcommitted
    unfold foldFailed
    rw [hc]
    exact hcommitted

theorem outlastsCrash_lapsed : OutlastsCrash Lapsed where
  of_undeclared := Lapsed.of_undeclared
  of_committed := Lapsed.of_committed
  after_failed _ := lapsed_foldFailed _

/-- While the dead workers are reaped: the worker holds the Mote, or `R` is known of it. -/
structure Followed (rel : J.State → List JournalEntry → Prop) (R : MoteInfo → Prop)
    (status : WorkerId → Option WorkerStatus) (worker : WorkerId) (id : MoteId) (w : Core J) :
    Prop where
  mirrored : ∃ log, Mirrored rel w log
  status : w.outside.status = status
  held : w.dispatch.tracker.Holds worker id ∨ R (w.projection.info id)

variable (hJ : J.ReadsBack P.ids.blake3 rel)

include hJ

theorem Followed.reapMote (hroom : ∀ w e, Q w e → HasRoom w e) (hR : OutlastsCrash R)
    (hlawful : (reapMote m).Along (P.handler J) Q w) (hw : Followed rel R status worker id w) :
    Followed rel R status worker id ((Coordinator.reapMote m).run (P.handler J) w).2 := by
  obtain ⟨⟨log, hmirrored⟩, hstatus, hheld⟩ := hw
  rcases reapMote_cases hJ hroom hmirrored hlawful with
    ⟨hcommitted, heq⟩ | ⟨_, new, hdid, hmirrored', _⟩
  · rw [heq]
    refine ⟨⟨log, hmirrored.edit _⟩, hstatus, ?_⟩
    by_cases hid : id = m
    · right
      rw [stateOfId_eq_state, ← hid] at hcommitted
      exact hR.of_committed hcommitted
    · exact hheld.imp_left fun hheld => holds_resolveCommitted.2 ⟨hid, hheld⟩
  · refine ⟨⟨_, hmirrored'⟩, (hdid.status).trans hstatus, ?_⟩
    rcases hheld with hheld | hinfo
    · left
      rcases hdid.dispatch with ⟨_, hsame⟩ | hdispatch
      · rw [hsame]
        exact hheld
      rw [hdispatch]
      exact holds_recordCrash.2 hheld
    · right
      refine hdid.info_preserves hR.of_undeclared ?_ hinfo
      intro x hx _ info hinfo
      obtain ⟨y, hy, n, rfl⟩ := hdid.exists_entry hx
      rw [mem_singleton.1 hy]
      exact hR.after_failed hinfo

/-- A worker that holds nothing of interest is reaped. -/
theorem Followed.reapWorker (hroom : ∀ w e, Q w e → HasRoom w e) (hR : OutlastsCrash R)
    (hother : status other = some .dead → other ≠ worker)
    (hlawful : (reapWorker other).Along (P.handler J) Q w)
    (hw : Followed rel R status worker id w) :
    Followed rel R status worker id ((Coordinator.reapWorker other).run (P.handler J) w).2 := by
  unfold Coordinator.reapWorker at hlawful ⊢
  rw [along_look_bind] at hlawful
  rw [run_look_bind]
  split
  · exact hw
  rename_i hdead
  rw [if_neg hdead, along_update_bind] at hlawful
  rw [run_update_bind]
  have htaken : Followed rel R status worker id (w.apply (.takeLeases other)) := by
    obtain ⟨⟨log, hmirrored⟩, hstatus, hheld⟩ := hw
    refine ⟨⟨log, hmirrored.apply _⟩, hstatus, hheld.imp_left fun hheld => ?_⟩
    rw [not_not, hstatus] at hdead
    exact holds_takeLeases.2 ⟨(hother hdead).symm, hheld⟩
  exact hlawful.2.2.loop_preserves (fun m _ w hw halong => hw.reapMote hJ hroom hR halong) htaken

/-- A Mote that lapsed has lapsed after whatever the coordinator does. -/
theorem lapsed_run (hroom : ∀ w e, Q w e → HasRoom w e) {α : Type} {p : Coord J α}
    (hkeeps : p.Along (P.handler J) P.Guarded w) (hlawful : p.Along (P.handler J) Q w)
    (hw : ∃ log, Mirrored rel w log) (hlapsed : Lapsed (w.projection.info id)) :
    Lapsed ((p.run (P.handler J) w).2.projection.info id) := by
  obtain ⟨log, hmirrored⟩ := hw
  obtain ⟨_, _, hafter⟩ := live_run (I := (lapsedRuns P J rel Q id).toProcessInvariant) hJ hroom
    hkeeps hlawful ⟨log, hmirrored, hlapsed⟩
  exact hafter

/-- At its turn a Mote of a dead worker lapses. -/
theorem lapsed_reapMote (hlaw : ∀ w e, Q w e → HasRoom w e ∧ Recorded w e)
    (hlawful : (reapMote id).Along (P.handler J) Q w) (hw : ∃ log, Mirrored rel w log) :
    Lapsed (((reapMote id).run (P.handler J) w).2.projection.info id) := by
  obtain ⟨log, hmirrored⟩ := hw
  rcases reapMote_cases hJ (fun w e hQ => (hlaw w e hQ).1) hmirrored hlawful with
    ⟨hcommitted, heq⟩ | ⟨hQ, new, hdid, _, hrecorded⟩
  · rw [heq]
    rw [stateOfId_eq_state] at hcommitted
    exact Lapsed.of_committed hcommitted
  obtain ⟨n, rfl⟩ := hrecorded (hlaw _ _ hQ).2
  refine hdid.info_of_mem Lapsed.of_undeclared (mem_singleton_self _) rfl ?_ ?_
  · exact fun info => lapsed_foldFailed info
  · intro y hy _ info _
    rw [mem_singleton.1 hy]
    exact lapsed_foldFailed info

/-- The Motes of a worker that is found dead lapse. -/
theorem lapsed_reapWorker (hlaw : ∀ w e, Q w e → HasRoom w e ∧ Recorded w e)
    (hdead : status worker = some .dead) (hlawful : (reapWorker worker).Along (P.handler J) Q w)
    (hw : Followed rel Lapsed status worker id w) :
    Lapsed (((reapWorker worker).run (P.handler J) w).2.projection.info id) := by
  have hroom : ∀ w e, Q w e → HasRoom w e := fun w e hQ => (hlaw w e hQ).1
  obtain ⟨⟨log, hmirrored⟩, hstatus, hheld | hlapsed⟩ := hw
  · unfold reapWorker at hlawful ⊢
    rw [along_look_bind] at hlawful
    rw [run_look_bind]
    have hreap : ¬ w.outside.status worker ≠ some .dead := by
      rw [hstatus, not_not]
      exact hdead
    rw [if_neg hreap, along_update_bind] at hlawful
    rw [if_neg hreap, run_update_bind]
    have hmem : id ∈ (w.dispatch.tracker.leasesOf worker).toList := by
      rw [Std.ExtTreeSet.mem_toList]
      exact mem_leasesOf.2 hheld
    -- The death is recorded at the Mote's own turn; no other turn undoes it.
    have hbody : ∀ m ∈ (w.dispatch.tracker.leasesOf worker).toList, ∀ w : Core J,
        (∃ log, Mirrored rel w log) → (reapMote m).Along (P.handler J) Q w →
          ∃ log, Mirrored rel ((reapMote m).run (P.handler J) w).2 log :=
      fun m _ w hw halong => (mirrored_run hJ hroom (keeps_reapMote trivial) halong hw).1
    refine hlawful.2.2.loop_establishes (G := fun w => Lapsed (w.projection.info id)) hbody ?_
      ⟨log, hmirrored.apply _⟩ hmem ?_
    · exact fun m _ w hw hlapsed halong =>
        lapsed_run hJ hroom (keeps_reapMote trivial) halong hw hlapsed
    · exact fun w hw halong => lapsed_reapMote hJ hlaw halong hw
  · exact lapsed_run hJ hroom (keeps_reapWorker (fun _ _ => trivial) worker w) hlawful
      ⟨log, hmirrored⟩ hlapsed

/-- A worker that is not dead keeps its Motes, unless they are committed. -/
theorem Followed.reaped (hroom : ∀ w e, Q w e → HasRoom w e) (hR : OutlastsCrash R)
    (hlive : status worker ≠ some .dead) (hlawful : reapDeadWorkers.Along (P.handler J) Q w)
    (hw : Followed rel R status worker id w) : Followed rel R status worker id (P.reaped w) := by
  unfold reapDeadWorkers at hlawful
  rw [along_look_bind] at hlawful
  unfold Platform.reaped reapDeadWorkers
  rw [run_look_bind]
  refine hlawful.2.loop_preserves ?_ hw
  intro other _ w hw halong
  refine hw.reapWorker hJ hroom hR ?_ halong
  rintro hdead rfl
  exact hlive hdead

theorem lapsed_reaped (hlaw : ∀ w e, Q w e → HasRoom w e ∧ Recorded w e)
    (hlawful : reapDeadWorkers.Along (P.handler J) Q w) (hw : ∃ log, Mirrored rel w log)
    (hheld : w.dispatch.tracker.Holds worker id) (hdead : w.outside.status worker = some .dead) :
    Lapsed ((P.reaped w).projection.info id) := by
  have hroom : ∀ w e, Q w e → HasRoom w e := fun w e hQ => (hlaw w e hQ).1
  have hmem := mem_leasingWorkers hheld
  unfold reapDeadWorkers at hlawful
  rw [along_look_bind] at hlawful
  unfold reaped reapDeadWorkers
  rw [run_look_bind]
  set workers := w.dispatch.tracker.leasingWorkers
  set status := w.outside.status
  have hbody : ∀ other ∈ workers, ∀ w : Core J, Followed rel Lapsed status worker id w →
      (reapWorker other).Along (P.handler J) Q w →
        Followed rel Lapsed status worker id ((reapWorker other).run (P.handler J) w).2 := by
    intro other _ w hw halong
    by_cases hother : other = worker
    · rw [hother] at halong ⊢
      have hkept := mirrored_run hJ hroom (keeps_reapWorker (fun _ _ => trivial) _ w)
        halong hw.mirrored
      exact ⟨hkept.1, hkept.2.trans hw.status, .inr (lapsed_reapWorker hJ hlaw hdead halong hw)⟩
    · exact hw.reapWorker hJ hroom outlastsCrash_lapsed (fun _ => hother) halong
  refine hlawful.2.loop_establishes (G := fun w => Lapsed (w.projection.info id)) hbody ?_
    ⟨hw, rfl, .inl hheld⟩ hmem ?_
  · exact fun other _ w hw hlapsed halong => lapsed_run hJ hroom
      (keeps_reapWorker (fun _ _ => trivial) _ w) halong hw.mirrored hlapsed
  · exact fun w hw halong => lapsed_reapWorker hJ hlaw hdead halong hw

end Reaping

structure Polls (P : Platform) {J : Backend} (Q : Core J → Effect → Prop) (w : Core J)
    (req : LeaseReq) (outside : Outside) (todo : List Action) : Prop where
  reaches : Reaches P J Q (.up w (.command (.leaseWork req) :: todo))
  lawful : (P.act (.command (.leaseWork req))).Along (P.handler J) Q (w.facing outside)

def MayRunAgain (P : Platform) {J : Backend} (w : Core J) (item : LeasedItem) : Prop :=
  item.mote.ndClass = .pure ∨ (J.durable (P.reaped w).journal).any (stages item.mote.id) = true

section Polls

variable {req : LeaseReq} {outside : Outside} {todo : List Action} {item : LeasedItem}

theorem Polls.serve (hpolls : Polls P Q w req outside todo) :
    (P.serveLease req).Along (P.handler J) Q (w.facing outside) :=
  (along_bind.1 hpolls.lawful).1

theorem Polls.reap (hpolls : Polls P Q w req outside todo) :
    reapDeadWorkers.Along (P.handler J) Q (w.facing outside) :=
  (along_bind.1 hpolls.serve).1

theorem Polls.mirrored (hJ : J.ReadsBack P.ids.blake3 rel) (hroom : ∀ w e, Q w e → HasRoom w e)
    (hpolls : Polls P Q w req outside todo) : ∃ log, Mirrored rel (w.facing outside) log := by
  have hholds := (mirroredRuns P J rel Q).holds_of_reaches hJ hroom trivial hpolls.reaches
  obtain ⟨log, hmirrored, _⟩ := live_facing hholds outside
  exact ⟨log, hmirrored⟩

/-- What is handed out again after a lapse may run again. -/
theorem Platform.Offered.pure_or_staged (hoffered : P.Offered w worker id)
    (hdef : w.dispatch.defs[id]? = some (mote, warrant)) (hlapsed : Lapsed (w.projection.info id)) :
    mote.ndClass = .pure ∨ (w.projection.info id).effectStagedObserved = true := by
  rcases hoffered.candidate with ⟨store, hready⟩ | ⟨_, hadmissible⟩
  · right
    have hpending := pending_of_mem_readySetAuto hready
    rw [stateOfId_eq_state, MoteInfo.state_eq_pending] at hpending
    obtain ⟨_, hcommitted, _, hstaged | ⟨hfresh, _⟩⟩ := hpending
    · exact hstaged
    rcases hlapsed with hfailed | hsome
    · rw [hfresh] at hfailed
      cases hfailed
    rw [hcommitted] at hsome
    cases hsome
  · unfold redispatchAdmissible at hadmissible
    rw [hdef] at hadmissible
    rcases Bool.or_eq_true_iff.1 hadmissible with hpure | hredispatch
    · exact .inl (of_decide_eq_true hpure)
    · exact .inr ((canRedispatchWorldEffectId_iff _ _).1 hredispatch).1

theorem mayRunAgain_of_lapsed (hJ : J.ReadsBack P.ids.blake3 rel)
    (hmirrored : ∃ log, Mirrored rel (P.reaped w) log)
    (hlapsed : Lapsed ((P.reaped w).projection.info item.mote.id))
    (hitem : item ∈ P.handedOut req w) : MayRunAgain P w item := by
  obtain ⟨hoffered, hdef⟩ := offered_of_mem_handedOut hitem
  obtain ⟨log, hmirrored⟩ := hmirrored
  refine (hoffered.pure_or_staged hdef hlapsed).imp_right fun hstaged => ?_
  rw [hJ.durable hmirrored.rel, ← (hmirrored.tracks _).staged]
  exact hstaged

/-- A lapse in the reaping of a poll is there when the poll is over. -/
theorem lapsed_poll (hJ : J.ReadsBack P.ids.blake3 rel) (hroom : ∀ w e, Q w e → HasRoom w e)
    (hlawful : (P.act (.command (.leaseWork req))).Along (P.handler J) Q w)
    (hmirrored : ∃ log, Mirrored rel (P.reaped w) log)
    (hlapsed : Lapsed ((P.reaped w).projection.info id)) :
    Lapsed (((P.act (.command (.leaseWork req))).run (P.handler J) w).2.projection.info id) := by
  have hserve := (along_bind.1 hlawful).1
  have hkeeps : (P.serveLease req).Along (P.handler J) P.Guarded w :=
    keeps_serveLease req (keeps_reapDeadWorkers (fun _ _ => trivial) w)
  have hend : ((P.act (.command (.leaseWork req))).run (P.handler J) w).2 =
      ((P.serveLease req).run (P.handler J) w).2 :=
    congrArg Prod.snd (run_bind (P.serveLease req) w)
  rw [hend]
  unfold serveLease at hserve hkeeps ⊢
  rw [run_bind]
  exact lapsed_run hJ hroom (along_bind.1 hkeeps).2 (along_bind.1 hserve).2
    hmirrored hlapsed

/-- In every run without an error of the journal: a Mote has one holder at most; it is not
handed out while another worker that is not dead holds it; and once a worker that held it is
reaped as dead, it is handed out, by the same poll or by any later one, only if it is pure or
its effect is known to be staged. -/
theorem lease_safety (hJ : IsJournal P J) :
    (∀ {w : Core J} {todo}, Reaches P J Faultless (.up w todo) → ∀ {id u v},
      w.dispatch.tracker.Holds u id → w.dispatch.tracker.Holds v id → u = v) ∧
    ∀ {w : Core J} {req outside todo}, Polls P Faultless w req outside todo →
      (∀ item ∈ P.handedOut req (w.facing outside), ∀ other, other ≠ req.worker →
        w.dispatch.tracker.Holds other item.mote.id → outside.status other = some .dead) ∧
      ∀ {worker id}, w.dispatch.tracker.Holds worker id → outside.status worker = some .dead →
        (∀ item ∈ P.handedOut req (w.facing outside), item.mote.id = id →
          MayRunAgain P (w.facing outside) item) ∧
        ∀ {w' : Core J} {req' outside' todo'},
          Relation.ReflTransGen (Step P J Faultless)
            (.up ((P.act (.command (.leaseWork req))).run (P.handler J) (w.facing outside)).2 todo)
            (.up w' (.command (.leaseWork req') :: todo')) →
          Polls P Faultless w' req' outside' todo' →
          ∀ item ∈ P.handedOut req' (w'.facing outside'), item.mote.id = id →
            MayRunAgain P (w'.facing outside') item := by
  obtain ⟨rel, hreads⟩ := hJ.readsBack
  have hroom : ∀ (w : Core J) e, Faultless w e → HasRoom w e := fun _ _ hQ => hQ.1
  have hreaped : ∀ {w : Core J} {req outside todo}, Polls P Faultless w req outside todo →
      ∃ log, Mirrored rel (P.reaped (w.facing outside)) log := fun hpolls =>
    (mirrored_run hreads hroom (keeps_reapDeadWorkers (fun _ _ => trivial) _) hpolls.reap
      (hpolls.mirrored hreads hroom)).1
  refine ⟨?_, ?_⟩
  · intro w todo hreaches id u v hu hv
    obtain ⟨_, _, hsound⟩ := sound_of_reaches hreads hroom hreaches
    exact hsound.single hu hv
  · intro w req outside todo hpolls
    refine ⟨?_, ?_⟩
    · intro item hitem other hne hheld
      by_contra hlive
      have hfollowed : Followed rel (fun info => info.state = .committed) outside.status other
          item.mote.id (w.facing outside) :=
        ⟨hpolls.mirrored hreads hroom, rfl, .inl hheld⟩
      have hoffered := (offered_of_mem_handedOut hitem).1
      rcases (hfollowed.reaped hreads hroom outlastsCrash_committed hlive hpolls.reap).held with
        hheld | hcommitted
      · have hfree := hoffered.free
        rw [isLeasedByOther_iff.2 ⟨other, hne, hheld⟩] at hfree
        cases hfree
      rw [← stateOfId_eq_state] at hcommitted
      exact hoffered.uncommitted hcommitted
    · intro worker id hheld hdead
      have hlapsed : Lapsed ((P.reaped (w.facing outside)).projection.info id) :=
        lapsed_reaped hreads (fun _ _ hQ => hQ) hpolls.reap (hpolls.mirrored hreads hroom) hheld
          hdead
      refine ⟨?_, ?_⟩
      · rintro item hitem rfl
        exact mayRunAgain_of_lapsed hreads (hreaped hpolls) hlapsed hitem
      rintro w' req' outside' todo' hsteps hpolls' item hitem rfl
      obtain ⟨log, hafter⟩ := (mirrored_run hreads hroom (keeps_act _) hpolls.lawful
        (hpolls.mirrored hreads hroom)).1
      have hstart : (lapsedRuns P J rel Faultless item.mote.id).Holds (.up _ todo) :=
        ⟨log, hafter, lapsed_poll hreads hroom hpolls.lawful (hreaped hpolls) hlapsed⟩
      have hlater := holds_of_steps hreads hroom hsteps hstart
      obtain ⟨log', hmirrored', hlapsed'⟩ := live_facing hlater outside'
      apply mayRunAgain_of_lapsed hreads (hreaped hpolls') _ hitem
      exact lapsed_run hreads hroom (keeps_reapDeadWorkers (fun _ _ => trivial) _)
        hpolls'.reap ⟨log', hmirrored'⟩ hlapsed'

end Polls

def readDef : MoteDef :=
  { pureDef ∅ with ndClass := .readOnlyNondet }

/-- Worker 1 leases a pure step and two that read, and stages the effect of one of these. -/
def leaseToOne : List Command :=
  [registerSampleRun, submitAt (pureDef ∅) 1 [], submitAt readDef 2 [], submitAt readDef 3 [],
    poll 1, .reportEffectStaged (stepAt readDef 2 []).id (stepAt readDef 2 []).id.bytes]

/-- The poll of worker 2 is next. -/
def leasedToOne : Core sampleJournal :=
  (sampleStart.after samplePlatform sampleOutside (plan [] leaseToOne)).after samplePlatform
    sampleOutside [.flush []]

def withoutOne : Outside :=
  { sampleOutside with status := fun worker => some (if worker = 1 then .dead else .live) }

theorem polls_leasedToOne :
    Polls samplePlatform Faultless leasedToOne ⟨2, .bwrap, 10⟩ withoutOne [.flush [], .settle] := by
  refine ⟨?_, by decide +kernel⟩
  have hstart : Lawful samplePlatform Faultless sampleOutside [.recover]
      (started sampleOutside samplePlatform.ids.blake3 .new) := by decide +kernel
  have hbatch : Lawful samplePlatform Faultless sampleOutside (plan [] leaseToOne) sampleStart := by
    decide +kernel
  have hflush : Lawful samplePlatform Faultless sampleOutside [.flush []]
      (sampleStart.after samplePlatform sampleOutside (plan [] leaseToOne)) := by decide +kernel
  have hsteps := (reaches_started sampleOutside).trans (steps_after sampleOutside hstart)
  refine (hsteps.trans (steps_batch sampleOutside leaseToOne (by decide) hbatch)).trans ?_
  exact .head (.drain [poll 2] (by decide) (by decide)) (steps_actions sampleOutside _ hflush)

/-- Worker 2 is handed the staged step of the dead worker 1 and the pure one, not the third. -/
theorem lease_safety_leasedToOne :
    let again := [(stepAt readDef 2 []).id, (stepAt (pureDef ∅) 1 []).id]
    let out := samplePlatform.handedOut ⟨2, .bwrap, 10⟩ (leasedToOne.facing withoutOne)
    (∀ id ∈ again ++ [(stepAt readDef 3 []).id], leasedToOne.dispatch.tracker.Holds 1 id) ∧
      out.map (·.mote.id) = again ∧
      ∀ item ∈ out, MayRunAgain samplePlatform (leasedToOne.facing withoutOne) item := by
  intro again out
  have hheld : ∀ id ∈ again ++ [(stepAt readDef 3 []).id],
      leasedToOne.dispatch.tracker.Holds 1 id := by
    have hall : (again ++ [(stepAt readDef 3 []).id]).all
        (leasedToOne.dispatch.tracker.isHeldBy · 1) = true := by
      decide +kernel
    exact fun id hid => isHeldBy_iff.1 (all_eq_true.1 hall id hid)
  have hout : out.map (·.mote.id) = again := by decide +kernel
  refine ⟨hheld, hout, fun item hitem => ?_⟩
  have hJ : IsJournal samplePlatform sampleJournal := .inl rfl
  have hid : item.mote.id ∈ again := hout ▸ mem_map_of_mem hitem
  exact (((lease_safety hJ).2 polls_leasedToOne).2 (hheld _ (mem_append_left _ hid)) rfl).1
    item hitem rfl

namespace Platform

variable (P) (w)

/-- The Motes that pass every gate of a poll. -/
def selected (req : LeaseReq) : List MoteId :=
  ((Program.filterEach (P.leaseCandidates w) (P.mayLease req)).run (ask P.ids.blake3 J) w).1

/-- The order in which a poll offers them: the worker's preferred ones come first. -/
def ordered (req : LeaseReq) : List MoteId :=
  let isPreferred := fun id => w.outside.place req.executorClass id == req.worker
  (P.selected w req).filter isPreferred ++ (P.selected w req).filter fun id => !isPreferred id

/-- The Mote is defined, and has its arguments or needs none. -/
def resolves (id : MoteId) : Bool :=
  w.dispatch.defs[id]?.any fun (mote, warrant) => (P.leaseToolArgs w mote warrant).isSome

variable {P w}

end Platform

end Kortecx.Coordinator
