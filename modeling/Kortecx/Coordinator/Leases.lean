import Kortecx.Coordinator.Runs

/-!
What the lease tracker owes to the journal. A lease is recorded only for a Mote that is
offered, and everything else only takes leases away; so a Mote has one holder at most, and
one that has come to an end has none and is no candidate for another run.
-/

namespace Kortecx.Coordinator

open Lib Mote Journal Projection Platform List LeaseTracker Program

variable {id : MoteId}

section Tracker

def Op.Gentle : Op → Prop
  | .recordLease .. => False
  | .recordCrash _ => False
  | _ => True

/-- Nothing comes in. -/
structure LeaseTracker.Shrinks (t t' : LeaseTracker) : Prop where
  holds : ∀ {worker id}, t'.Holds worker id → t.Holds worker id
  crashFailed : ∀ {id}, id ∈ t'.crashFailed → id ∈ t.crashFailed

variable {d : Dispatch} {ops : List Op}

theorem shrinks_edit (d : Dispatch) (e : Edit) : d.tracker.Shrinks (d.edit e).tracker := by
  cases e with
  | resolve id =>
    constructor
    · exact fun hheld => (holds_resolveCommitted.1 hheld).2
    · exact fun hmem => (mem_crashFailed_resolveCommitted.1 hmem).2
  | _ => exact ⟨id, id⟩

variable {op : Op}

theorem shrinks_apply (hop : op.Gentle) : d.tracker.Shrinks (d.apply op).tracker := by
  cases op with
  | edit e => exact shrinks_edit d e
  | takeLeases worker =>
    constructor
    · exact fun hheld => (holds_takeLeases.1 hheld).2
    · exact fun hmem => hmem
  | recordLease | recordCrash => exact hop.elim
  | _ => exact ⟨id, id⟩

theorem shrinks_applyAll (hops : ∀ op ∈ ops, op.Gentle) :
    d.tracker.Shrinks (d.applyAll ops).tracker := by
  induction ops generalizing d with
  | nil => exact ⟨id, id⟩
  | cons op ops ih =>
    have hfirst := shrinks_apply (d := d) (hops op (by simp))
    have hrest := @ih (d.apply op) fun x hx => hops x (by simp [hx])
    constructor
    · exact fun hheld => hfirst.holds (hrest.holds hheld)
    · exact fun hmem => hfirst.crashFailed (hrest.crashFailed hmem)

theorem Op.Retires.gentle (hop : op.Retires id) : op.Gentle := by
  cases op with
  | recordLease | recordCrash => exact hop.elim
  | _ => trivial

theorem Dispatch.applyAll_append_cons (before after : List Op) :
    d.applyAll (before ++ op :: after) = ((d.applyAll before).apply op).applyAll after := by
  unfold Dispatch.applyAll
  rw [foldl_append, foldl_cons]

/-- A Mote that is retired has no holder, and is not tried again. -/
theorem Retirement.untracked (hops : Retirement id ops) (d : Dispatch) :
    (∀ worker, ¬ (d.applyAll ops).tracker.Holds worker id) ∧
      id ∉ (d.applyAll ops).tracker.crashFailed := by
  obtain ⟨before, after, rfl⟩ := append_of_mem hops.resolves
  have hgentle : ∀ op ∈ after, op.Gentle := fun op hop => (hops.retires op (by simp [hop])).gentle
  have hshrinks := shrinks_applyAll (d := (d.applyAll before).apply (.edit (.resolve id))) hgentle
  rw [d.applyAll_append_cons]
  constructor
  · intro worker hheld
    exact (holds_resolveCommitted.1 (hshrinks.holds hheld)).1 rfl
  · intro hmem
    exact (mem_crashFailed_resolveCommitted.1 (hshrinks.crashFailed hmem)).1 rfl

end Tracker

variable {P : Platform} {J : Backend} {w : Core J} {e : Effect}

namespace Platform

variable {K : Known J}

variable (hguarded : P.GuardedBy K w e)

include hguarded

/-- A guarded effect leases, or reaps, or takes away from the tracker only. -/
theorem GuardedBy.shrinks : (∃ worker motes, e = .update (.recordLease worker motes)) ∨
    (∃ f strict, e = .record (.failed f) strict [.recordCrash f.moteId]) ∨
    w.dispatch.tracker.Shrinks (w.dispatch.applyAll e.edits).tracker := by
  rw [or_iff_not_imp_left, or_iff_not_imp_left]
  intro hlease hcrash
  push Not at hlease hcrash
  refine shrinks_applyAll fun op hop => ?_
  cases e with
  | chore c =>
    cases c with
    | edit => rw [mem_singleton.1 hop]; trivial
    | _ => cases hop
  | record x strict ops =>
    cases x with
    | committed c => exact (hguarded.2.2.2.retires op hop).gentle
    | failed f =>
      rcases hguarded with ⟨_, _, _, rfl⟩ | ⟨_, _, hops⟩
      · exact absurd rfl (hcrash f strict)
      · exact (hops.retires op hop).gentle
    | effectStaged f =>
      cases hguarded
      cases hop
    | timerArmed t => rcases hguarded.2 op hop with rfl | rfl <;> trivial
    | _ => exact hguarded.elim
  | update x =>
    rw [mem_singleton.1 hop]
    cases x with
    | recordLease worker motes => exact absurd rfl (hlease worker motes)
    | recordCrash => exact hguarded.elim
    | _ => trivial
  | _ => cases hop

/-- Who holds a Mote after a guarded effect held it before, or was leased it. -/
theorem GuardedBy.holds (hheld : (w.dispatch.applyAll e.edits).tracker.Holds worker id) :
    w.dispatch.tracker.Holds worker id ∨
      ∃ motes, e = .update (.recordLease worker motes) ∧ id ∈ motes := by
  rcases hguarded.shrinks with ⟨other, motes, rfl⟩ | ⟨f, strict, rfl⟩ | hshrinks
  · rcases holds_recordLease.1 hheld with ⟨rfl, hmem⟩ | hbefore
    · exact .inr ⟨motes, rfl, hmem⟩
    · exact .inl hbefore
  · exact .inl (holds_recordCrash.1 hheld)
  · exact .inl (hshrinks.holds hheld)

/-- A candidate for another run was one before, or its worker's death is recorded now. -/
theorem GuardedBy.crashFailed (hmem : id ∈ (w.dispatch.applyAll e.edits).tracker.crashFailed) :
    id ∈ w.dispatch.tracker.crashFailed ∨ K.crash w id := by
  rcases hguarded.shrinks with ⟨other, motes, rfl⟩ | ⟨f, strict, rfl⟩ | hshrinks
  · exact .inl hmem
  · rcases crashFailed_recordCrash hmem with rfl | hbefore
    · rcases hguarded with ⟨_, _, hcrash, _⟩ | ⟨_, _, hops⟩
      · exact .inr hcrash
      have hresolves := hops.resolves
      rw [mem_singleton] at hresolves
      cases hresolves
    · exact .inl hbefore
  · exact .inl (hshrinks.crashFailed hmem)

/-- A failure is appended by itself. -/
theorem GuardedBy.failed_of_mem
    (hf : .failed f ∈ e.entries) : ∃ strict ops, e = .record (.failed f) strict ops := by
  rcases hguarded.mem_entries hf with ⟨fact, _, _, hfact⟩ | hrecord | ⟨_, _, _, hentry, _⟩ |
    ⟨_, _, _, _, _, _, _, hentry⟩
  · cases fact <;> cases hfact
  · exact hrecord
  · cases hentry
  · cases hentry

end Platform

variable {blake3 : List UInt8 → ByteVec 32}

section Soundness

variable {w' : Core J} {log new : List JournalEntry} {but : List MoteId}

def Ended (info : MoteInfo) : Prop :=
  info.terminalFailureObserved = true ∨ info.committed.isSome = true

theorem Ended.of_undeclared {info info' : MoteInfo} (hsame : info'.undeclared = info.undeclared)
    (hended : Ended info) : Ended info' := by
  rw [MoteInfo.eq_of_undeclared hsame]
  exact hended

def ends : JournalEntry → Bool
  | .committed _ => true
  | .failed f => !isPreCommitCrash f.reasonClass
  | _ => false

theorem Ended.of_after {info : MoteInfo} (hended : Ended (info.after x))
    (hx : ends x = false) : Ended info := by
  cases x with
  | committed c => cases hx
  | failed f =>
    unfold Ended MoteInfo.after foldFailed at *
    simp only [ends, Bool.not_eq_false'] at hx
    grind
  | repudiated r =>
    unfold Ended MoteInfo.after foldRepudiated at *
    grind
  | _ => exact hended

theorem Did.not_ended (hdid : Did blake3 w log e new w')
    (hnew : ∀ x ∈ new, subject x = some id → ends x = false)
    (hbefore : ¬ Ended (w.projection.info id)) : ¬ Ended (w'.projection.info id) := by
  have hundeclared : ∀ {info info' : MoteInfo}, info'.undeclared = info.undeclared →
      ¬ Ended info → ¬ Ended info' :=
    fun hsame hnot hinfo => hnot (hinfo.of_undeclared hsame.symm)
  refine hdid.info_preserves hundeclared ?_ hbefore
  intro x hx hsubject info hinfo hafter
  exact hinfo (hafter.of_after (hnew x hx hsubject))

def Effect.reported : Effect → List MoteId
  | .recordCommits es => es.filterMap subject
  | _ => []

/-- A Mote that fails for good is retired. -/
theorem Did.retires_failed (hguarded : P.GuardedBy K w e) (hdid : Did blake3 w log e new w')
    (hf : .failed f ∈ new) (hends : ends (.failed f)) : Retirement f.moteId e.edits := by
  obtain ⟨y, hy, n, hstamp⟩ := hdid.exists_entry hf
  cases y with
  | failed f₀ =>
    cases hstamp
    obtain ⟨strict, ops, rfl⟩ := hguarded.failed_of_mem hy
    rcases hguarded with ⟨hcrash, _⟩ | ⟨_, _, hops⟩
    · simp [ends, hcrash, isPreCommitCrash] at hends
    · exact hops
  | _ => cases hstamp

/-- The effect that ends a Mote retires it, unless the end is reported. -/
theorem Did.retires_ended (hguarded : P.GuardedBy K w e)
    (hdid : Did blake3 w log e new w') (hbefore : ¬ Ended (w.projection.info id))
    (hended : Ended (w'.projection.info id)) : Retirement id e.edits ∨ id ∈ e.reported := by
  by_contra hnone
  push Not at hnone
  refine hdid.not_ended ?_ hbefore hended
  intro x hx hsubject
  by_contra hends
  rw [Bool.not_eq_false] at hends
  cases x with
  | committed c =>
    have hid : c.moteId = id := Option.some.inj hsubject
    obtain ⟨c₀, hc₀, ⟨strict, ops, rfl⟩ | ⟨es, rfl, hmem⟩⟩ := hdid.commit_source hguarded.guarded hx
    · have hops := hguarded.2.2.2
      rw [show c₀.moteId = id from (congrArg Committed.moteId hc₀).symm.trans hid] at hops
      exact hnone.1 hops
    refine hnone.2 (mem_filterMap.2 ⟨_, hmem, ?_⟩)
    exact congrArg some ((congrArg Committed.moteId hc₀).symm.trans hid)
  | failed f => exact hnone.1 (Option.some.inj hsubject ▸ hdid.retires_failed hguarded hx hends)
  | _ => cases hends

def LeaseTracker.Free (t : LeaseTracker) (id : MoteId) : Prop :=
  (∀ worker, ¬ t.Holds worker id) ∧ id ∉ t.crashFailed

theorem LeaseTracker.Shrinks.free {t t' : LeaseTracker} (hshrinks : t.Shrinks t')
    (hfree : t.Free id) : t'.Free id :=
  ⟨fun worker hheld => hfree.1 worker (hshrinks.holds hheld),
    fun hmem => hfree.2 (hshrinks.crashFailed hmem)⟩

/-- What the tracker owes to the rest of the state, but for some Motes. -/
structure LeaseSound (but : List MoteId) (w : Core J) : Prop where
  single : ∀ {id u v}, w.dispatch.tracker.Holds u id → w.dispatch.tracker.Holds v id → u = v
  free : ∀ {id}, id ∉ but → Ended (w.projection.info id) → w.dispatch.tracker.Free id

/-- A Mote that has come to an end is not offered. -/
theorem Platform.Offered.not_ended (hoffered : P.Offered w worker id)
    (hsound : LeaseSound but w) (hid : id ∉ but) : ¬ Ended (w.projection.info id) := by
  intro hended
  rcases hoffered.candidate with ⟨store, hready⟩ | ⟨hcrashed, _⟩
  · have hpending := State.pending_of_mem_readySetAuto hready
    rw [State.stateOfId_eq_state, MoteInfo.state_eq_pending] at hpending
    obtain ⟨_, hcommitted, hterminal, _⟩ := hpending
    rcases hended with hfailed | hsome
    · rw [hterminal] at hfailed
      cases hfailed
    rw [hcommitted] at hsome
    cases hsome
  · exact (hsound.free hid hended).2 hcrashed

def Unended (w : Core J) (id : MoteId) : Prop :=
  ¬ Ended (w.projection.info id)

/-- Whoever holds a Mote when it is leased is the worker it is leased to. -/
theorem Platform.GuardedBy.holder_of_lease
    (hguarded : P.GuardedBy K w (.update (.recordLease worker motes)))
    (hmem : id ∈ motes) (hheld : w.dispatch.tracker.Holds other id) : other = worker := by
  have hfree := (hguarded id hmem).free
  by_contra hne
  rw [isLeasedByOther_iff.2 ⟨other, hne, hheld⟩] at hfree
  cases hfree

theorem LeaseSound.single_did (hsound : LeaseSound but w) (hguarded : P.GuardedBy K w e)
    (hu : (w.dispatch.applyAll e.edits).tracker.Holds u id)
    (hv : (w.dispatch.applyAll e.edits).tracker.Holds v id) : u = v := by
  rcases hguarded.holds hu with hbefore | ⟨motes, rfl, hmem⟩
  · rcases hguarded.holds hv with hv | ⟨motes, rfl, hmem⟩
    · exact hsound.single hbefore hv
    · exact hguarded.holder_of_lease hmem hbefore
  rcases hguarded.holds hv with hv | ⟨motes', he, _⟩
  · exact (hguarded.holder_of_lease hmem hv).symm
  cases he
  rfl

/-- An effect leaves the tracker sound, but for the Motes it reports. -/
theorem LeaseSound.did {report : Core J → List JournalEntry → Prop} (hsound : LeaseSound but w)
    (hguarded : P.GuardedBy ⟨Unended, report⟩ w e) (hdid : Did blake3 w log e new w') :
    LeaseSound (but ++ e.reported) w' := by
  rcases hdid.dispatch with ⟨rfl, hsame⟩ | hdispatch
  · -- Nothing is appended, so no end is new.
    constructor
    · rw [hsame]
      exact hsound.single
    · intro id hid hended
      rw [mem_append, not_or] at hid
      rw [hsame]
      apply hsound.free hid.1
      by_contra hbefore
      exact hdid.not_ended (by simp) hbefore hended
  · constructor
    · rw [hdispatch]
      exact hsound.single_did hguarded
    intro id hid hended
    rw [mem_append, not_or] at hid
    rw [hdispatch]
    by_cases hbefore : Ended (w.projection.info id)
    · obtain ⟨hfree, hcrash⟩ := hsound.free hid.1 hbefore
      constructor
      · intro worker hheld
        rcases hguarded.holds hheld with hheld | ⟨motes, rfl, hmem⟩
        · exact hfree worker hheld
        · exact (hguarded id hmem).not_ended hsound hid.1 hbefore
      · intro hmem
        rcases hguarded.crashFailed hmem with hmem | hunended
        · exact hcrash hmem
        · exact hunended hbefore
    · rcases hdid.retires_ended hguarded hbefore hended with hops | hreported
      · exact hops.untracked w.dispatch
      · exact absurd hreported hid.2

end Soundness

variable {rel : J.State → List JournalEntry → Prop} {Q : Core J → Effect → Prop}

section Reaping

def Known.unended : Known J where
  crash := Unended
  report _ _ := False

def Sound (rel : J.State → List JournalEntry → Prop) (but : List MoteId) (w : Core J) : Prop :=
  ∃ log, Mirrored rel w log ∧ LeaseSound but w

variable (hJ : J.ReadsBack P.ids.blake3 rel) (hroom : ∀ w e, Q w e → HasRoom w e)

include hJ hroom

theorem Sound.run {α : Type} {p : Coord J α} {but : List MoteId} (hkeeps : P.Keeps .unended p w)
    (hlawful : p.Along (P.handler J) Q w) (hsound : Sound rel but w) :
    Sound rel but (p.run (P.handler J) w).2 := by
  refine (hkeeps.and hlawful).preserves ?_ hsound
  rintro w e ⟨log, hmirrored, hlease⟩ ⟨hguarded, hQ⟩
  obtain ⟨new, hdid, hmirrored', _⟩ := hmirrored.perform hJ hguarded.guarded (hroom w e hQ)
  have hnone : e.reported = [] := by
    cases e with
    | recordCommits es => exact hguarded.1.elim
    | _ => rfl
  have hafter := hlease.did hguarded hdid
  rw [hnone, append_nil] at hafter
  exact ⟨log ++ new, hmirrored', hafter⟩

def crashRecord (m : MoteId) : Effect :=
  .record (failedWorkerCrashedEntry m) false [.recordCrash m]

variable {m : MoteId}

omit hJ hroom in
/-- A crash is appended each time it is observed. -/
theorem appendAll_crashRecord {log new : List JournalEntry}
    (hlog : (DedupLog.appendAll entryScheme log (crashRecord m).entries).1 = log ++ new) :
    ∃ n, new = [(failedWorkerCrashedEntry m).setSeq n] := by
  have hfresh : DedupLog.find entryScheme log (failedWorkerCrashedEntry m) = none := rfl
  have hentries : (crashRecord m).entries = [failedWorkerCrashedEntry m] := rfl
  rw [hentries, DedupLog.appendAll_cons, DedupLog.append_of_fresh hfresh] at hlog
  exact ⟨_, (append_cancel_left hlog).symm⟩

/-- What becomes of a Mote of a dead worker. -/
theorem reapMote_cases (hmirrored : Mirrored rel w log)
    (hlawful : (reapMote m).Along (P.handler J) Q w) :
    (w.projection.stateOfId m = .committed ∧
        ((reapMote m).run (P.handler J) w).2 = w.edit (.resolve m)) ∨
      Q w (crashRecord m) ∧ ∃ new,
        Did P.ids.blake3 w log (crashRecord m) new ((reapMote m).run (P.handler J) w).2 ∧
        Mirrored rel ((reapMote m).run (P.handler J) w).2 (log ++ new) ∧
        (Recorded w (crashRecord m) → ∃ n, new = [(failedWorkerCrashedEntry m).setSeq n]) := by
  unfold reapMote at hlawful ⊢
  rw [along_look_bind] at hlawful
  rw [run_look_bind]
  split
  · rename_i hcommitted
    exact .inl ⟨hcommitted, rfl⟩
  rename_i huncommitted
  rw [if_neg huncommitted, along_record_bind] at hlawful
  have hguarded : P.Guarded w (crashRecord m) := .inl ⟨rfl, huncommitted, trivial, rfl⟩
  obtain ⟨new, hdid, hmirrored', hlog, _⟩ := hmirrored.perform hJ hguarded (hroom _ _ hlawful.2.1)
  exact .inr ⟨hlawful.2.1, new, hdid, hmirrored', fun hok => appendAll_crashRecord (hlog hok)⟩

/-- The death of a worker is no end of its Motes. -/
theorem unended_reapMote (hmirrored : Mirrored rel w log)
    (hlawful : (reapMote m).Along (P.handler J) Q w) (hbefore : Unended w id) :
    Unended ((reapMote m).run (P.handler J) w).2 id := by
  rcases reapMote_cases hJ hroom hmirrored hlawful with ⟨_, heq⟩ | ⟨_, new, hdid, _, _⟩
  · rw [heq]
    exact hbefore
  refine hdid.not_ended ?_ hbefore
  intro x hx _
  obtain ⟨y, hy, n, rfl⟩ := hdid.exists_entry hx
  rw [mem_singleton.1 hy]
  rfl

theorem keeps_reapWorker_of_sound (worker : WorkerId)
    (hlawful : (reapWorker worker).Along (P.handler J) Q w) (hsound : Sound rel [] w) :
    P.Keeps .unended (reapWorker worker) w := by
  obtain ⟨log, hmirrored, hlease⟩ := hsound
  unfold reapWorker at hlawful ⊢
  rw [along_look_bind] at hlawful
  refine along_look_bind.2 ⟨trivial, ?_⟩
  split
  · trivial
  rename_i hdead
  rw [if_neg hdead, along_update_bind] at hlawful
  refine along_update_bind.2 ⟨not_not.1 hdead, ?_⟩
  -- The Motes it held have not ended, and the deaths recorded on the way do not change that.
  set ids := (w.dispatch.tracker.leasesOf worker).toList
  have hunended : ∀ id ∈ ids, Unended w id := by
    intro id hid hended
    rw [Std.ExtTreeSet.mem_toList] at hid
    exact (hlease.free not_mem_nil hended).1 worker (mem_leasesOf.1 hid)
  have hbody : ∀ m ∈ ids, ∀ w : Core J,
      ((∃ log, Mirrored rel w log) ∧ ∀ id ∈ ids, Unended w id) →
      (reapMote m).Along (P.handler J) Q w →
        P.Keeps .unended (reapMote m) w ∧
          (∃ log, Mirrored rel ((reapMote m).run (P.handler J) w).2 log) ∧
            ∀ id ∈ ids, Unended ((reapMote m).run (P.handler J) w).2 id := by
    rintro m hm w ⟨⟨log, hmirrored⟩, hids⟩ halong
    refine ⟨keeps_reapMote (hids m hm), ?_, ?_⟩
    · exact (mirrored_run hJ hroom (keeps_reapMote trivial) halong ⟨log, hmirrored⟩).1
    · exact fun id hid => unended_reapMote hJ hroom hmirrored halong (hids id hid)
  exact (hlawful.2.2.loop hbody ⟨⟨log, hmirrored.apply _⟩, hunended⟩).1

theorem keeps_reapDeadWorkers_of_sound (hlawful : reapDeadWorkers.Along (P.handler J) Q w)
    (hsound : Sound rel [] w) : P.Keeps .unended reapDeadWorkers w := by
  unfold reapDeadWorkers at hlawful ⊢
  rw [along_look_bind] at hlawful
  refine along_look_bind.2 ⟨trivial, (hlawful.2.loop ?_ hsound).1⟩
  intro worker _ w hw halong
  have hkeeps := keeps_reapWorker_of_sound hJ hroom worker halong hw
  exact ⟨hkeeps, hw.run hJ hroom hkeeps halong⟩

end Reaping

theorem dispatch_foldNew (w : Core J) (e : JournalEntry) :
    (w.foldNew e).2.dispatch = w.dispatch := by
  unfold Core.foldNew
  split
  · split <;> rfl
  · rfl

theorem dispatch_record_nil (w : Core J) (e : JournalEntry) (strict : Bool) :
    (w.record e strict []).2.dispatch = w.dispatch := by
  unfold Core.record
  split
  · split
    · rfl
    rename_i durable _
    have hfold := dispatch_foldNew { w with journal := (J.append w.journal e).state } durable
    split
    · rename_i heq
      rw [heq] at hfold
      exact hfold
    rename_i heq
    rw [heq] at hfold
    split <;> exact hfold
  · rfl

/-- No chore gives a lease. -/
theorem shrinks_tend (c : Chore) (w : Core J) :
    w.dispatch.tracker.Shrinks (tend blake3 J c w).2.dispatch.tracker := by
  cases c with
  | query q =>
    cases q with
    | read => exact ⟨fun hheld => hheld, fun hmem => hmem⟩
    | put bytes =>
      change w.dispatch.tracker.Shrinks (w.put blake3 bytes).2.dispatch.tracker
      rw [Core.dispatch_put]
      exact ⟨fun hheld => hheld, fun hmem => hmem⟩
  | note fact strict =>
    change w.dispatch.tracker.Shrinks (w.record fact.entry strict []).2.dispatch.tracker
    rw [dispatch_record_nil]
    exact ⟨fun hheld => hheld, fun hmem => hmem⟩
  | edit e =>
    change w.dispatch.tracker.Shrinks (w.apply e).dispatch.tracker
    rw [dispatch_apply]
    exact shrinks_edit w.dispatch e

theorem free_run_routine {α : Type} {p : Routine J α} (hfree : w.dispatch.tracker.Free id) :
    ((routine p : Coord J α).run (perform blake3 J) w).2.dispatch.tracker.Free id := by
  induction p generalizing w with
  | done a => exact hfree
  | perform c next ih => exact ih _ ((shrinks_tend c w).free hfree)

theorem free_edit_resolve (id : MoteId) :
    (w.edit (.resolve id)).dispatch.tracker.Free id :=
  ⟨fun _ hheld => (holds_resolveCommitted.1 hheld).1 rfl,
    fun hmem => (mem_crashFailed_resolveCommitted.1 hmem).1 rfl⟩

/-- A Mote whose commit is reported is no longer tracked. -/
theorem free_finishCommit (id : MoteId) (w : Core J) :
    ((routine (P.finishCommit id) : Coord J Unit).run (perform blake3 J) w).2.dispatch.tracker.Free
      id := by
  unfold finishCommit
  rw [run_routine_bind]
  split
  · split
    · rw [run_routine_bind, run_routine_bind]
      exact free_edit_resolve id
    rw [run_routine_bind]
    exact free_edit_resolve id
  · rw [run_routine_bind]
    exact free_edit_resolve id

theorem free_finishCommits {ids : List MoteId} (hid : id ∈ ids) :
    ((routine (Program.forEach ids P.finishCommit) : Coord J Unit).run
      (perform blake3 J) w).2.dispatch.tracker.Free id := by
  induction ids generalizing w with
  | nil => cases hid
  | cons x xs ih =>
    unfold Program.forEach
    rw [run_routine_bind]
    rcases mem_cons.1 hid with rfl | hid
    · exact free_run_routine (free_finishCommit id w)
    · exact ih hid

/-- A flush frees the Motes it commits. -/
theorem Sound.flushCommits (hJ : J.ReadsBack P.ids.blake3 rel)
    (hroom : ∀ w e, Q w e → HasRoom w e) (pending : List CommitProposal)
    (hlawful : (P.flushCommits pending).Along (P.handler J) Q w) (hsound : Sound rel [] w) :
    Sound rel [] ((P.flushCommits pending).run (P.handler J) w).2 := by
  obtain ⟨log, hmirrored, hlease⟩ := hsound
  unfold Platform.flushCommits at hlawful ⊢
  rw [along_look_bind] at hlawful
  rw [run_look_bind]
  dsimp only at hlawful ⊢
  split
  · exact ⟨log, hmirrored, hlease⟩
  rename_i hsome
  rw [if_neg hsome, along_call_bind] at hlawful
  rw [run_call_bind]
  set admitted := pending.filter fun p => (refusal w p).isNone
  have hguarded : P.GuardedBy ⟨Unended, fun _ _ => True⟩ w
      (.recordCommits (admitted.map committedEntry)) :=
    ⟨trivial, admitted, rfl, fun p hp => submitted_of_refusal (mem_filter.1 hp).2⟩
  obtain ⟨new, hdid, hmirrored', _, hrefused⟩ :=
    hmirrored.perform hJ hguarded.guarded (hroom _ _ hlawful.2.1)
  set recorded := (perform P.ids.blake3 J (.recordCommits (admitted.map committedEntry)) w).2
  split
  · rename_i err herr
    have hnot : ¬ Recorded w (.recordCommits (admitted.map committedEntry)) := by
      change (w.recordCommits (admitted.map committedEntry)).1 = .error err at herr
      change ¬ (w.recordCommits (admitted.map committedEntry)).1.isOk = true
      rw [herr]
      exact Bool.false_ne_true
    rw [run_pure, hrefused hnot]
    exact ⟨log, hmirrored, hlease⟩
  · rename_i applied hok
    rw [hok] at hlawful
    have hreported : LeaseSound (admitted.map (·.moteId)) recorded := by
      have hids : (admitted.map committedEntry).filterMap subject = admitted.map (·.moteId) := by
        rw [filterMap_map]
        exact congrFun filterMap_eq_map admitted
      have hafter := hlease.did hguarded hdid
      rwa [nil_append, Effect.reported, hids] at hafter
    rw [run_bind, run_pure]
    obtain ⟨log', hmirrored'', hlease'⟩ := Sound.run hJ hroom (keeps_routine recorded)
      (along_bind.1 hlawful.2.2).1 ⟨_, hmirrored', hreported⟩
    refine ⟨log', hmirrored'', hlease'.single, ?_⟩
    intro id _ hended
    by_cases hid : id ∈ admitted.map (·.moteId)
    · exact free_finishCommits hid
    · exact hlease'.free hid hended

theorem Sound.act (hJ : J.ReadsBack P.ids.blake3 rel) (hroom : ∀ w e, Q w e → HasRoom w e)
    {action : Action} (hlawful : (P.act action).Along (P.handler J) Q w)
    (hsound : Sound rel [] w) : Sound rel [] ((P.act action).run (P.handler J) w).2 := by
  by_cases hflush : ∃ pending, action = .flush pending
  · obtain ⟨pending, rfl⟩ := hflush
    have hend : ((P.act (.flush pending)).run (P.handler J) w).2 =
        ((P.flushCommits pending).run (P.handler J) w).2 :=
      congrArg Prod.snd (run_bind (P.flushCommits pending) w)
    rw [hend]
    exact hsound.flushCommits hJ hroom pending (along_bind.1 hlawful).1
  · apply hsound.run hJ hroom _ hlawful
    apply keeps_act_of
    · rintro req rfl
      have hserve := (along_bind.1 hlawful).1
      exact keeps_reapDeadWorkers_of_sound hJ hroom (along_bind.1 hserve).1 hsound
    · exact fun pending heq => absurd ⟨pending, heq⟩ hflush

theorem Sound.facing (hsound : Sound rel but w) (outside : Outside) :
    Sound rel but (w.facing outside) := by
  obtain ⟨log, hmirrored, hlease⟩ := hsound
  exact ⟨log, ⟨hmirrored.of_journaled rfl rfl, hmirrored.rel⟩, hlease.single, hlease.free⟩

/-- The tracker is sound between any two things the coordinator does. -/
theorem sound_of_reaches (hJ : J.ReadsBack P.ids.blake3 rel) (hroom : ∀ w e, Q w e → HasRoom w e)
    (hreaches : Reaches P J Q (.up w todo)) : Sound rel [] w := by
  have hall : ∀ moment, Reaches P J Q moment →
      ∀ w todo, moment = .up w todo → Sound rel [] w := by
    intro moment hreaches
    induction hreaches with
    | refl => exact fun w todo heq => by cases heq
    | tail hbefore hstep ih =>
      rintro w todo rfl
      cases hstep with
      | boot hrecover =>
        obtain ⟨log, hkept, _⟩ :=
          (mirroredRuns P J rel Q).holds_of_reaches hJ hroom trivial hbefore
        obtain ⟨hmirrored, _, hdispatch⟩ := hkept.mirrored_recover hJ hrecover
        refine ⟨log, hmirrored, ?_, ?_⟩
        · intro id u v hu
          rw [hdispatch] at hu
          exact absurd hu not_holds_new
        · intro id _ _
          rw [hdispatch]
          exact ⟨fun worker => not_holds_new, Std.ExtTreeSet.not_mem_empty⟩
      | drain commands _ _ => exact ih w [] rfl
      | act action outside hlawful => exact ((ih _ _ rfl).facing outside).act hJ hroom hlawful
  exact hall _ hreaches w todo rfl

end Kortecx.Coordinator
