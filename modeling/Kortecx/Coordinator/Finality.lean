import Kortecx.Coordinator.AgentLoop
import Kortecx.Coordinator.Leases

/-!
Terminal failures. The journal keeps the failure of a Mote for good, but what keeps the Mote
from committing afterwards is that it is no longer admitted: whatever records the failure
expels it. A process that starts from the journal admits every Mote the journal names, so
from then on the failure is final only as long as no commit of the Mote is reported.
-/

namespace Kortecx.Coordinator

open Lib Mote Journal Projection Platform List Relation

def FinallyFailed (info : MoteInfo) : Prop :=
  info.terminalFailureObserved = true ∧ info.committed = none

instance (info : MoteInfo) : Decidable (FinallyFailed info) :=
  inferInstanceAs (Decidable (_ ∧ _))

namespace FinallyFailed

variable {info info' : MoteInfo}

theorem of_undeclared (hsame : info'.undeclared = info.undeclared) (hfailed : FinallyFailed info) :
    FinallyFailed info' := by
  rw [MoteInfo.eq_of_undeclared hsame]
  exact hfailed

/-- No entry but a commit undoes it. -/
theorem after (hfailed : FinallyFailed info) (he : ∀ c, e ≠ .committed c) :
    FinallyFailed (info.after e) := by
  obtain ⟨hterminal, hcommitted⟩ := hfailed
  cases e with
  | committed c => exact absurd rfl (he c)
  | failed f =>
    unfold FinallyFailed MoteInfo.after foldFailed
    grind
  | repudiated r =>
    unfold FinallyFailed MoteInfo.after foldRepudiated
    grind
  | _ => exact ⟨hterminal, hcommitted⟩

theorem isTerminal {s : State} {id : MoteId} (hfailed : FinallyFailed (s.info id)) :
    isTerminal (s.stateOfId id) = true := by
  rw [State.stateOfId_eq_state]
  obtain ⟨hterminal, hcommitted⟩ := hfailed
  unfold MoteInfo.state
  rw [hcommitted, hterminal]
  split <;> rfl

/-- It is brought about by the entry that reports it. -/
theorem of_after (hfailed : FinallyFailed (info.after x)) (hx : ∀ f, x = .failed f → ¬ ends x) :
    FinallyFailed info := by
  cases x with
  | committed c =>
    obtain ⟨-, hnone⟩ := hfailed
    cases hnone
  | failed f =>
    have hcrash := hx f rfl
    simp only [ends, Bool.not_eq_true', Bool.not_eq_false] at hcrash
    unfold FinallyFailed MoteInfo.after foldFailed at *
    grind
  | repudiated r =>
    unfold FinallyFailed MoteInfo.after foldRepudiated at *
    grind
  | _ => exact hfailed

end FinallyFailed

section Admission

variable {P : Platform} {J : Backend} {w : Core J} {d : Dispatch} {ops : List Op} {id : MoteId}

theorem not_mem_submitted_apply (hop : op ≠ .edit (.enrol id)) (hout : id ∉ d.submitted) :
    id ∉ (d.apply op).submitted := by
  cases op with
  | edit e =>
    cases e with
    | enrol k =>
      have hne : k ≠ id := by
        rintro rfl
        exact hop rfl
      simpa [Dispatch.apply, Dispatch.edit, hne] using hout
    | expel k =>
      intro hmem
      exact hout (Std.ExtTreeSet.mem_of_mem_erase hmem)
    | _ => exact hout
  | _ => exact hout

theorem not_mem_submitted_applyAll (hops : .edit (.enrol id) ∉ ops) (hout : id ∉ d.submitted) :
    id ∉ (d.applyAll ops).submitted := by
  induction ops generalizing d with
  | nil => exact hout
  | cons op ops ih =>
    rw [mem_cons, not_or] at hops
    exact ih hops.2 (not_mem_submitted_apply (Ne.symm hops.1) hout)

/-- A Mote that is retired is no longer admitted. -/
theorem Retirement.expelled (hops : Retirement id ops) (d : Dispatch) :
    id ∉ (d.applyAll ops).submitted := by
  obtain ⟨before, after, rfl⟩ := append_of_mem hops.expels
  rw [d.applyAll_append_cons]
  refine not_mem_submitted_applyAll (fun hop => hops.retires (.edit (.enrol id)) (by simp [hop])) ?_
  simp [Dispatch.apply, Dispatch.edit]

/-- No guarded effect admits a Mote, enrolling it apart. -/
theorem Platform.GuardedBy.not_enrols (hguarded : P.GuardedBy K w e)
    (he : e ≠ .chore (.edit (.enrol id))) : .edit (.enrol id) ∉ e.edits := by
  intro hop
  cases e with
  | chore c =>
    cases c with
    | edit x =>
      cases mem_singleton.1 hop
      exact he rfl
    | _ => cases hop
  | record x strict ops =>
    cases x with
    | committed c => exact hguarded.2.2.2.retires _ hop
    | failed f =>
      rcases hguarded with ⟨_, _, _, rfl⟩ | ⟨_, _, hops⟩
      · cases mem_singleton.1 hop
      · exact hops.retires _ hop
    | effectStaged f =>
      cases hguarded
      cases hop
    | timerArmed t => rcases hguarded.2 _ hop with h | h <;> cases h
    | _ => exact hguarded.elim
  | update x =>
    cases mem_singleton.1 hop
    exact hguarded
  | _ => cases hop

end Admission

/-- The failure of the Mote is folded, or is in the journal of a coordinator that is down. -/
def Moment.FinallyFailed {J : Backend} (id : MoteId) : Moment J → Prop
  | .up w _ => Coordinator.FinallyFailed (w.projection.info id)
  | .down journal => ∃ s, fromJournal J journal = .ok s ∧ Coordinator.FinallyFailed (s.info id)

def Action.reports : Action → List MoteId
  | .flush pending => pending.map (·.moteId)
  | _ => []

/-- The Motes whose commits are reported next. -/
def Moment.reports {J : Backend} : Moment J → List MoteId
  | .up _ (action :: _) => action.reports
  | _ => []

/-- A Mote that has failed for good is not enrolled again, unless it had failed before. -/
def Readmits {J : Backend} (id : MoteId) (stale : Prop) (w : Core J) : Effect → Prop
  | .chore (.edit (.enrol k)) => k = id → FinallyFailed (w.projection.info k) → stale
  | _ => True

instance {J : Backend} {id : MoteId} {stale : Prop} [Decidable stale] (w : Core J) (e : Effect) :
    Decidable (Readmits id stale w e) := by
  unfold Readmits
  split <;> infer_instance

/-- A step, with whether the Mote had already failed for good when the coordinator was last down.
If it had, no commit is reported for it. -/
inductive SparingStep (P : Platform) (J : Backend) (id : MoteId) :
    Moment J × Prop → Moment J × Prop → Prop
  | up {a w todo stale}
      (hstep : Step P J (fun w e => HasRoom w e ∧ Readmits id stale w e) a (.up w todo))
      (hunreported : stale → id ∉ a.reports) : SparingStep P J id (a, stale) (.up w todo, stale)
  | down {a journal stale}
      (hstep : Step P J (fun w e => HasRoom w e ∧ Readmits id stale w e) a (.down journal))
      (hunreported : stale → id ∉ a.reports) :
      SparingStep P J id (a, stale) (.down journal, (Moment.down journal).FinallyFailed id)

section Runs

variable {P : Platform} {J : Backend} {rel : J.State → List JournalEntry → Prop} {w w' : Core J}
  {log new : List JournalEntry} {e : Effect} {id : MoteId}

/-- The Motes an action commits for a worker are among those reported to it. -/
theorem reported_act (action : Action) (w : Core J) :
    (P.act action).Along (P.handler J) (fun _ e => e.reported ⊆ action.reports) w := by
  have hkeeps : P.Keeps ⟨fun _ _ => True, fun _ es => es.filterMap subject ⊆ action.reports⟩
      (P.act action) w := by
    refine keeps_act_of action (fun _ _ => keeps_reapDeadWorkers (fun _ _ => trivial) w) ?_
    rintro pending rfl _ ps hps id hid
    obtain ⟨x, hx, hsubject⟩ := mem_filterMap.1 hid
    obtain ⟨p, hp, rfl⟩ := mem_map.1 hx
    cases hsubject
    exact mem_map.2 ⟨p, hps hp, rfl⟩
  refine hkeeps.mono fun w e he => ?_
  cases e with
  | recordCommits es => exact he.1
  | _ => exact nil_subset _

theorem Did.finallyFailed_source (hdid : Did blake3 w log e new w')
    (hbefore : ¬ FinallyFailed (w.projection.info id))
    (hfailed : FinallyFailed (w'.projection.info id)) :
    ∃ f, .failed f ∈ new ∧ f.moteId = id ∧ ends (.failed f) := by
  by_contra hnone
  push Not at hnone
  have hundeclared : ∀ {info info' : MoteInfo}, info'.undeclared = info.undeclared →
      ¬ FinallyFailed info → ¬ FinallyFailed info' :=
    fun hsame hnot hinfo => hnot (hinfo.of_undeclared hsame.symm)
  refine hdid.info_preserves hundeclared ?_ hbefore hfailed
  intro x hx hsubject info hinfo hafter
  apply hinfo
  apply hafter.of_after
  rintro f rfl
  exact hnone f hx (Option.some.inj hsubject)

/-- A Mote that failed for good is not admitted, unless it failed before the process started. -/
def Barred (id : MoteId) (stale : Prop) (w : Core J) : Prop :=
  FinallyFailed (w.projection.info id) → id ∉ w.dispatch.submitted ∨ stale

theorem Barred.did (hbarred : Barred id stale w) (hguarded : P.Guarded w e)
    (hreadmits : Readmits id stale w e) (hdid : Did blake3 w log e new w') :
    Barred id stale w' := by
  intro hfailed
  by_cases hbefore : FinallyFailed (w.projection.info id)
  · rcases hbarred hbefore with hout | hstale
    · by_cases he : e = .chore (.edit (.enrol id))
      · subst he
        exact .inr (hreadmits rfl hbefore)
      left
      rcases hdid.dispatch with ⟨_, hsame⟩ | hdispatch
      · rwa [hsame]
      · rw [hdispatch]
        exact not_mem_submitted_applyAll (hguarded.not_enrols he) hout
    · exact .inr hstale
  · obtain ⟨f, hf, rfl, hends⟩ := hdid.finallyFailed_source hbefore hfailed
    left
    rcases hdid.dispatch with ⟨rfl, _⟩ | hdispatch
    · cases hf
    · rw [hdispatch]
      exact (hdid.retires_failed hguarded hf hends).expelled _

/-- Nothing that is appended for a Mote that finally failed is a commit. -/
theorem FinallyFailed.not_commits (hfailed : FinallyFailed (w.projection.info id))
    (hbarred : Barred id stale w) (hguarded : P.Guarded w e) (hspared : stale → id ∉ e.reported)
    (hdid : Did blake3 w log e new w') (hc : .committed c ∈ new) : c.moteId ≠ id := by
  rintro rfl
  obtain ⟨c₀, hc₀, ⟨strict, ops, rfl⟩ | ⟨es, rfl, hmem⟩⟩ := hdid.commit_source hguarded hc
  · -- The coordinator commits no Mote that has come to an end.
    have hopen := hguarded.2.2.1
    rw [← congrArg Committed.moteId hc₀, hfailed.isTerminal] at hopen
    cases hopen
  · -- A reported commit is taken for an admitted Mote only.
    have hsame : c₀.moteId = c.moteId := (congrArg Committed.moteId hc₀).symm
    rcases hbarred hfailed with hout | hstale
    · obtain ⟨-, ps, rfl, hadmitted⟩ := hguarded
      obtain ⟨p, hp, heq⟩ := mem_map.1 hmem
      have hid : p.moteId = c₀.moteId := Option.some.inj (congrArg subject heq)
      exact hout (hsame ▸ hid ▸ hadmitted p hp)
    · exact hspared hstale (mem_filterMap.2 ⟨_, hmem, congrArg some hsame⟩)

def barredProcesses (P : Platform) (J : Backend) (rel : J.State → List JournalEntry → Prop)
    (id : MoteId) (stale failed : Prop) : ProcessInvariant P J rel fun w e =>
      (HasRoom w e ∧ Readmits id stale w e) ∧ (stale → id ∉ e.reported) where
  up w _ := Barred id stale w ∧ (failed → FinallyFailed (w.projection.info id))
  facing _ hup := hup
  step := by
    rintro w log e new w' _ ⟨hbarred, hfailed⟩ hguarded ⟨⟨_, hreadmits⟩, hspared⟩ hdid _
    refine ⟨hbarred.did hguarded hreadmits hdid, fun hf => ?_⟩
    refine hdid.info_preserves FinallyFailed.of_undeclared ?_ (hfailed hf)
    intro x hx hsubject info hinfo
    apply hinfo.after
    rintro c rfl
    exact (hfailed hf).not_commits hbarred hguarded hspared hdid hx (Option.some.inj hsubject)

theorem Mirrored.finallyFailed_down (hreads : J.ReadsBack P.ids.blake3 rel)
    (hmirrored : Mirrored rel w log) (hfailed : FinallyFailed (w.projection.info id)) :
    (Moment.down w.journal).FinallyFailed id := by
  obtain ⟨s, hs, hjournaled⟩ := hmirrored.journaled
  refine ⟨s, ?_, hfailed.of_undeclared ((State.journaled_eq_iff.1 hjournaled).1 id).symm⟩
  rw [fromJournal_eq_replay hreads hmirrored.rel hmirrored.room, hs]

/-- No commit of the Mote is taken if none is reported. -/
theorem Step.spares (hunreported : stale → id ∉ a.reports)
    (hstep : Step P J (fun w e => HasRoom w e ∧ Readmits id stale w e) a b) :
    Step P J (fun w e => (HasRoom w e ∧ Readmits id stale w e) ∧ (stale → id ∉ e.reported))
      a b := by
  cases hstep with
  | boot hrecover => exact .boot hrecover
  | drain commands hsome hbound => exact .drain commands hsome hbound
  | act action outside hlawful =>
    refine .act action outside ((hlawful.and (reported_act action _)).mono fun _ _ he => ?_)
    exact ⟨he.1, fun hstale hmem => hunreported hstale (he.2 hmem)⟩
  | crash action outside hduring =>
    refine .crash action outside ((hduring.and (reported_act action _)).mono fun _ _ he => ?_)
    exact ⟨he.1, fun hstale hmem => hunreported hstale (he.2 hmem)⟩
  | stop => exact .stop

/-- What is known of the Mote at a moment. -/
def Tracked (rel : J.State → List JournalEntry → Prop) (id : MoteId) : Moment J × Prop → Prop
  | (.up w _, stale) => ∃ log, Mirrored rel w log ∧ Barred id stale w
  | (.down journal, stale) =>
    (∃ log, Kept rel journal log) ∧ ((Moment.down journal).FinallyFailed id → stale)

theorem Tracked.step (hreads : J.ReadsBack P.ids.blake3 rel) (hstep : SparingStep P J id a b)
    (ha : Tracked rel id a) :
    Tracked rel id b ∧ (a.1.FinallyFailed id → b.1.FinallyFailed id) := by
  obtain ⟨a, stale⟩ := a
  cases a with
  | down journal =>
    obtain ⟨⟨log, hkept⟩, hdown⟩ := ha
    cases hstep with
    | up hstep _ =>
      cases hstep with
      | boot hrecover =>
        obtain ⟨hmirrored, hreplay, _⟩ := hkept.mirrored_recover hreads hrecover
        have hfolds := fromJournal_eq_replay hreads hkept.rel hkept.room
        rw [hreplay] at hfolds
        refine ⟨⟨log, hmirrored, fun hfailed => .inr (hdown ⟨_, hfolds, hfailed⟩)⟩, ?_⟩
        rintro ⟨s, hs, hfailed⟩
        cases hfolds.symm.trans hs
        exact hfailed
    | down hstep _ => cases hstep
  | up w todo =>
    obtain ⟨log, hmirrored, hbarred⟩ := ha
    set I := barredProcesses P J rel id stale (FinallyFailed (w.projection.info id))
    have hlive : I.Live w := ⟨log, hmirrored, hbarred, fun hfailed => hfailed⟩
    cases hstep with
    | up hstep hunreported =>
      obtain ⟨log', hmirrored', hbarred', hkept⟩ :=
        I.live_step hreads (fun _ _ he => he.1.1) (hstep.spares hunreported) hlive
      exact ⟨⟨log', hmirrored', hbarred'⟩, hkept⟩
    | down hstep hunreported =>
      obtain ⟨w', ⟨log', hmirrored', _, hkept⟩, rfl⟩ :=
        I.live_step hreads (fun _ _ he => he.1.1) (hstep.spares hunreported) hlive
      exact ⟨⟨⟨log', hmirrored'.kept⟩, fun hfailed => hfailed⟩,
        fun hfailed => hmirrored'.finallyFailed_down hreads (hkept hfailed)⟩

end Runs

/-- A call of an agent fails for good. The scheduler has never seen it. -/
def failCall : List (List Command) :=
  [[registerSampleRun, submitSeed ∅], [.commit (commitText (agentTurn ∅).id [1])],
    [poll 1, .reportFailure (agentCall ∅ 0).id (agentCall ∅ 0).id.bytes .deadLettered 1 ""]]

/-- So it can be submitted as a step of its own, and its commit is reported. -/
def resubmitCall : List Command :=
  [.submit (agentCall ∅ 0).«def» (agentCall ∅ 0).inputDataId (agentCall ∅ 0).graphPosition
    (agentCall ∅ 0).parents {} false false, .commit (commitText (agentCall ∅ 0).id [])]

/-- A Mote that is enrolled again commits in the very process in which it failed. -/
theorem not_finallyFailed_resubmitCall :
    let w := (agentAfter failCall).after agentPlatform agentOutside (plan [] resubmitCall)
    Reaches agentPlatform agentJournal HasRoom (.up (agentAfter failCall) []) ∧
      ReflTransGen (Step agentPlatform agentJournal HasRoom)
        (.up (agentAfter failCall) []) (.up w []) ∧
      (Moment.up (agentAfter failCall) []).FinallyFailed (agentCall ∅ 0).id ∧
      w.projection.stateOfId (agentCall ∅ 0).id = .committed := by
  refine ⟨reaches_batches agentOutside _ (by decide) (by decide +kernel), ?_, ?_,
    by decide +kernel⟩
  · exact steps_batch agentOutside _ (by decide) (by decide +kernel)
  · change FinallyFailed _
    decide +kernel

end Kortecx.Coordinator
