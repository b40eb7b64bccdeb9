import Kortecx.Coordinator.Reoffer

/-!
Effects that may happen once only. The class of a tool is captured in the journal when a Mote is
admitted, and a Mote with a tool whose effect cannot be told from its repetition is not handed out
again once its effect is staged.
-/

namespace Kortecx.Coordinator

open Lib Mote Journal Projection Warrant List Std

def captured (log : List JournalEntry) : List ResolvedCapabilityRecord :=
  log.filterMap resolvedCapability

def CapturesNone (e : Effect) : Prop :=
  ∀ x ∈ e.entries, resolvedCapability x = none

def AlwaysAtLeastOnce (tool : String) (caps : List ResolvedCapabilityRecord) : Prop :=
  ∀ cap ∈ caps, cap.toolId = tool → cap.idempotencyClass = .atLeastOnce

/-- If the records of a tool agree, the first is as good as any. -/
theorem idempotencyClassForTool_eq {s : State}
    (hcap : cap ∈ s.capabilities) (hid : cap.toolId = tool)
    (hagree : AlwaysAtLeastOnce tool s.capabilities) :
    s.idempotencyClassForTool tool = some .atLeastOnce := by
  change (s.capabilities.find? fun cap => cap.toolId = tool).map (·.idempotencyClass) = _
  cases hfind : s.capabilities.find? fun cap => cap.toolId = tool with
  | none =>
    have hother := List.find?_eq_none.1 hfind cap hcap
    simp [hid] at hother
  | some first =>
    have hfirst : first.toolId = tool := by simpa using List.find?_some hfind
    have hclass := hagree first (mem_of_find?_eq_some hfind) hfirst
    rw [Option.map_some, hclass]

variable {P : Platform} {J : Backend} {log new : List JournalEntry}

section Consistency

variable {w w' : Core J} {e : Effect} {id : MoteId}

/-- What is repudiated has committed. -/
theorem Platform.Guarded.committed_of_repudiated (hguarded : P.Guarded w e)
    (hr : .repudiated r ∈ e.entries) :
    (w.projection.info r.targetMoteId).committed.isSome = true := by
  rcases hguarded.mem_entries hr with ⟨fact, _, _, hfact⟩ | ⟨_, _, rfl⟩ | ⟨_, _, _, hentry, _⟩ |
    ⟨_, _, _, _, _, _, hseq, hentry⟩
  · cases fact <;> cases hfact
  · cases hguarded
  · cases hentry
  cases hentry
  obtain ⟨c, hcommitted, -⟩ := Option.map_eq_some_iff.1 hseq
  rw [hcommitted]
  rfl

theorem inconsistent_foldFailed :
    (foldFailed reason detail info).inconsistent = info.inconsistent := by
  unfold foldFailed
  grind

/-- No effect leaves a Mote with a staged effect repudiated and uncommitted. -/
theorem Did.consistent (hguarded : P.Guarded w e) (hdid : Did P.ids.blake3 w log e new w')
    (hconsistent : (w.projection.info id).inconsistent = false) :
    (w'.projection.info id).inconsistent = false := by
  by_cases hcommitted : (w.projection.info id).committed.isSome = true
  · have hkept : (w'.projection.info id).inconsistent = false ∧
        (w'.projection.info id).committed.isSome = true := by
      refine hdid.info_preserves (R := fun info => info.inconsistent = false ∧
        info.committed.isSome = true) ?_ ?_ ⟨hconsistent, hcommitted⟩
      · intro info info' hsame hinfo
        rw [MoteInfo.eq_of_undeclared hsame]
        exact hinfo
      · intro x _ hid info hinfo
        have hadvances : Advances id x info (info.after x) := advances_after hid
        rw [hadvances.inconsistent, hadvances.committed, hinfo.1, hinfo.2]
        simp
    exact hkept.1
  · refine hdid.info_preserves (R := fun info => info.inconsistent = false) ?_ ?_ hconsistent
    · intro info info' hsame hinfo
      rw [MoteInfo.eq_of_undeclared hsame]
      exact hinfo
    · intro x hx hsubject info hinfo
      obtain ⟨y, hy, n, rfl⟩ := hdid.exists_entry hx
      cases y with
      | failed f => exact inconsistent_foldFailed.trans hinfo
      | repudiated r =>
        have htarget := hguarded.committed_of_repudiated hy
        rw [Option.some.inj hsubject] at htarget
        exact absurd htarget hcommitted
      | _ => exact hinfo

def consistentRuns (P : Platform) (J : Backend) (rel : J.State → List JournalEntry → Prop)
    (Q : Core J → Effect → Prop) (id : MoteId) : RunInvariant P J rel Q where
  up w _ := (w.projection.info id).inconsistent = false
  down log := ∃ s, replay none {} log = .ok s ∧ (s.info id).inconsistent = false
  boot _ _ hreplay _ := of_replay hreplay
  facing _ hinfo := hinfo
  crash hmirrored hinfo := by
    obtain ⟨s, hs, hjournaled⟩ := hmirrored.journaled
    have hsame := congrArg MoteInfo.inconsistent ((State.journaled_eq_iff.1 hjournaled).1 id)
    exact ⟨s, hs, hsame.symm.trans hinfo⟩
  step _ hinfo hguarded _ hdid _ := hdid.consistent hguarded hinfo

end Consistency

variable {w : Core J} {rel : J.State → List JournalEntry → Prop} {id : MoteId}

section Oracle

variable {todo todo' : List Action} {w' : Core J}

/-- In every run no repudiation leaves a Mote inconsistent, so that the only anomaly there is to
report is a quarantine. -/
theorem anomalies_of_reaches (hJ : IsJournal P J) (hreaches : Reaches P J HasRoom (.up w todo)) :
    (∀ id, w.projection.stateOfId id ≠ .inconsistent) ∧
      ∀ anomaly ∈ w.projection.anomalyMotes, anomaly.2 = .quarantinedAtLeastOnceEffect := by
  obtain ⟨rel, hreads⟩ := hJ.readsBack
  have hconsistent : ∀ id, (w.projection.info id).inconsistent = false := by
    intro id
    obtain ⟨_, _, hinfo⟩ := (consistentRuns P J rel _ id).holds_of_reaches hreads
      (fun _ _ hroom => hroom) ⟨{}, rfl, rfl⟩ hreaches
    exact hinfo
  constructor
  · intro id
    rw [State.stateOfId_eq_state, MoteInfo.state, hconsistent id]
    grind
  · intro anomaly hanomaly
    obtain ⟨⟨k, info⟩, hknown, hmem⟩ := mem_flatMap.1 hanomaly
    have hinfo := hconsistent k
    rw [w.projection.info_of_mem_toList k hknown] at hinfo
    grind

def extendingRuns (P : Platform) (J : Backend) (rel : J.State → List JournalEntry → Prop)
    (Q : Core J → Effect → Prop) (start : List JournalEntry) : RunInvariant P J rel Q where
  up _ log := start <+: log
  down log := start <+: log
  boot _ _ _ _ hextends := hextends
  facing _ hextends := hextends
  crash _ hextends := hextends
  step _ hextends _ _ _ _ := hextends.trans (prefix_append ..)

/-- In every run the journal only grows, over crashes and restarts. At every moment the oracle
permits another dispatch exactly if the journal does, and once it refuses one for a staged
effect, it refuses it for good. -/
theorem canRedispatch_of_steps (hJ : IsJournal P J) (hreaches : Reaches P J HasRoom (.up w todo))
    (hsteps : Relation.ReflTransGen (Step P J HasRoom) (.up w todo) (.up w' todo')) :
    J.durable w.journal <+: J.durable w'.journal ∧
      (w'.projection.canRedispatchWorldEffectId id = true ↔
        Redispatchable id (J.durable w'.journal)) ∧
      ((J.durable w.journal).any (stages id) → w.projection.canRedispatchWorldEffectId id = false →
        w'.projection.canRedispatchWorldEffectId id = false) := by
  obtain ⟨rel, hreads⟩ := hJ.readsBack
  obtain ⟨log, hmirrored, _⟩ :=
    (mirroredRuns P J rel _).holds_of_reaches hreads (fun _ _ hroom => hroom) trivial hreaches
  obtain ⟨log', hmirrored', hextends⟩ := (extendingRuns P J rel _ log).holds_of_steps hreads
    (fun _ _ hroom => hroom) hsteps ⟨log, hmirrored, prefix_rfl⟩
  have hnow := canRedispatch_iff_of_tracks (hmirrored.tracks id)
  have hlater := canRedispatch_iff_of_tracks (hmirrored'.tracks id)
  rw [hreads.durable hmirrored.rel, hreads.durable hmirrored'.rel]
  refine ⟨hextends, hlater, ?_⟩
  intro hstaged hrefused
  rw [← Bool.not_eq_true, hnow] at hrefused
  rw [← Bool.not_eq_true, hlater]
  exact not_redispatchable_of_isPrefix hstaged hrefused hextends

end Oracle

/-- A step commits with its effect staged, and is repudiated. -/
def repudiatedOneStep : Core sampleJournal :=
  let id := (stepAt (pureDef ∅) 1 []).id
  sampleStart.after samplePlatform sampleOutside (plan []
    (commitOneStep.insertIdx 3 (.reportEffectStaged id id.bytes) ++
      [.repudiate id .operatorAction 0]))

theorem reaches_repudiatedOneStep :
    Reaches samplePlatform sampleJournal HasRoom (.up repudiatedOneStep []) :=
  reaches_sampleStart.trans (steps_batch sampleOutside _ (by decide) (by decide +kernel))

theorem anomalies_of_reaches_repudiated :
    repudiatedOneStep.projection.stateOfId (stepAt (pureDef ∅) 1 []).id = .repudiated ∧
      ∀ id, repudiatedOneStep.projection.stateOfId id ≠ .inconsistent :=
  ⟨by decide +kernel, (anomalies_of_reaches (.inl rfl) reaches_repudiatedOneStep).1⟩

/-- The process that starts next refuses the effect, too. -/
theorem canRedispatch_of_steps_restarted :
    let next := started sampleOutside samplePlatform.ids.blake3 repudiatedOneStep.journal
    next.projection.canRedispatchWorldEffectId (stepAt (pureDef ∅) 1 []).id = false :=
  (canRedispatch_of_steps (.inl rfl) reaches_repudiatedOneStep
    (steps_restart sampleOutside reaches_repudiatedOneStep)).2.2 (by decide +kernel)
    (by decide +kernel)

section Reaping

variable {Q : Core J → Effect → Prop}

theorem capturesNone_of_entries {e : Effect} (hentries : e.entries = []) : CapturesNone e := by
  intro x hx
  rw [hentries] at hx
  cases hx

theorem capturesNone_reapMote (w : Core J) :
    (reapMote id).Along (P.handler J) (fun _ e => CapturesNone e) w := by
  refine along_look_bind.2 ⟨capturesNone_of_entries rfl, ?_⟩
  split
  · exact along_edit.2 (capturesNone_of_entries rfl)
  refine along_record_bind.2 ⟨?_, trivial⟩
  intro x hx
  rw [mem_singleton.1 hx]
  rfl

theorem capturesNone_reapDeadWorkers (w : Core J) :
    reapDeadWorkers.Along (P.handler J) (fun _ e => CapturesNone e) w := by
  have hworker : ∀ worker (w : Core J),
      (reapWorker worker).Along (P.handler J) (fun _ e => CapturesNone e) w := by
    intro worker w
    refine along_look_bind.2 ⟨capturesNone_of_entries rfl, ?_⟩
    split
    · trivial
    refine along_update_bind.2 ⟨capturesNone_of_entries rfl, ?_⟩
    exact Program.along_forEach fun _ _ w => capturesNone_reapMote w
  refine along_look_bind.2 ⟨capturesNone_of_entries rfl, ?_⟩
  exact Program.along_forEach fun _ _ w => hworker _ w

theorem Did.captured_eq_nil
    (hdid : Did blake3 w log e new w') (hnone : CapturesNone e) : captured new = [] := by
  refine filterMap_eq_nil_iff.2 fun x hx => ?_
  obtain ⟨y, hy, n, rfl⟩ := hdid.exists_entry hx
  have hcapability := hnone y hy
  cases y <;> exact hcapability

/-- While the dead are reaped the log grows, and no class is captured. -/
theorem Mirrored.reaped (hJ : J.ReadsBack P.ids.blake3 rel) (hroom : ∀ w e, Q w e → HasRoom w e)
    (hlawful : reapDeadWorkers.Along (P.handler J) Q w) (hmirrored : Mirrored rel w log)
    (hconsistent : (w.projection.info id).inconsistent = false) :
    ∃ more, Mirrored rel (P.reaped w) (log ++ more) ∧ captured more = [] ∧
      ((P.reaped w).projection.info id).inconsistent = false := by
  have hkeeps : reapDeadWorkers.Along (P.handler J) P.Guarded w :=
    Platform.keeps_reapDeadWorkers (fun _ _ => trivial) w
  refine grows_run (G := fun w' more => captured more = [] ∧
    (w'.projection.info id).inconsistent = false) hJ (fun w e he => hroom w e he.1) hkeeps
    (hlawful.and (capturesNone_reapDeadWorkers w)) ?_ hmirrored ⟨rfl, hconsistent⟩
  rintro w' more e new w'' hguarded ⟨_, hnone⟩ hdid ⟨hmore, hconsistent'⟩
  refine ⟨?_, hdid.consistent hguarded hconsistent'⟩
  unfold captured at hmore ⊢
  rw [filterMap_append, hmore, nil_append]
  exact hdid.captured_eq_nil hnone

end Reaping

theorem Mirrored.capabilities_eq (hmirrored : Mirrored rel w log) :
    w.projection.capabilities = captured log :=
  hmirrored.collected collects_capabilities rfl

/-- A Mote that is offered and open has no effect to repeat, if one of its tools forbids it. -/
theorem Platform.Offered.unstaged
    (hoffered : P.Offered w worker id) (hopen : ¬ Ended (w.projection.info id))
    (hconsistent : (w.projection.info id).inconsistent = false)
    (hdef : w.dispatch.defs[id]? = some (mote, warrant))
    (htool : mote.def.toolContract[tool]? = some version)
    (hclass : w.projection.idempotencyClassForTool tool = some .atLeastOnce) :
    (w.projection.info id).effectStagedObserved = false := by
  have hdispatches : moteDispatchesAtLeastOnce w.projection mote = true := by
    refine any_eq_true.2 ⟨tool, ?_, decide_eq_true hclass⟩
    rw [ExtTreeMap.mem_keys]
    exact ExtTreeMap.mem_iff_isSome_getElem?.2 (by rw [htool]; rfl)
  have hstays : w.projection.canRedispatchWorldEffectId id = false := by
    have hfresh := hoffered.fresh
    unfold atLeastOnceAlreadyStaged at hfresh
    rw [hdef] at hfresh
    dsimp only at hfresh
    rwa [hdispatches, Bool.true_and] at hfresh
  have hunended := not_or.1 hopen
  apply Bool.eq_false_of_not_eq_true
  intro hstaged
  have hagain := (State.canRedispatchWorldEffectId_iff _ _).2 ⟨hstaged,
    Option.not_isSome_iff_eq_none.1 hunended.2, Bool.eq_false_of_not_eq_true hunended.1,
    hconsistent⟩
  rw [hstays] at hagain
  cases hagain

/-- In every run, a poll hands out no Mote whose effect is staged in the journal, if it has a
tool that was captured as one to dispatch at least once and every record of that tool says so. -/
theorem unstaged_of_polls (hJ : IsJournal P J) {req : LeaseReq} {outside : Outside}
    {todo : List Action} (hpolls : Polls P HasRoom w req outside todo) {item : LeasedItem}
    (hitem : item ∈ P.handedOut req (w.facing outside)) {tool : ToolName}
    {version : ToolVersion} (htool : item.mote.def.toolContract[tool]? = some version)
    (hcaptured : ∃ cap ∈ captured (J.durable w.journal), cap.toolId = tool ∧
      cap.toolVersion = version ∧ cap.idempotencyClass = .atLeastOnce)
    (hagree : AlwaysAtLeastOnce tool (captured (J.durable w.journal))) :
    (J.durable w.journal).any (stages item.mote.id) = false := by
  obtain ⟨rel, hreads⟩ := hJ.readsBack
  obtain ⟨log, hmirrored⟩ := hpolls.mirrored hreads fun _ _ hroom => hroom
  have hlog : J.durable w.journal = log := hreads.durable hmirrored.rel
  rw [hlog] at hcaptured hagree ⊢
  have hroom : ∀ (w : Core J) e, HasRoom w e → HasRoom w e := fun _ _ hroom => hroom
  have hnew : ∃ s, replay none {} [] = .ok s ∧ (s.info item.mote.id).inconsistent = false :=
    ⟨{}, rfl, rfl⟩
  obtain ⟨_, _, hconsistent⟩ := (consistentRuns P J rel HasRoom item.mote.id).holds_of_reaches
    hreads hroom hnew hpolls.reaches
  obtain ⟨more, hreaped, hmore, hconsistent⟩ :=
    hmirrored.reaped hreads hroom hpolls.reap hconsistent
  have hsound := (sound_of_reaches hreads hroom hpolls.reaches).facing outside
  have hkeeps := keeps_reapDeadWorkers_of_sound hreads hroom hpolls.reap hsound
  obtain ⟨_, _, hlease⟩ := hsound.run hreads hroom hkeeps hpolls.reap
  have hcapabilities : (P.reaped (w.facing outside)).projection.capabilities = captured log := by
    rw [hreaped.capabilities_eq]
    unfold captured at hmore ⊢
    rw [filterMap_append, hmore, append_nil]
  obtain ⟨cap, hcap, hid, -, -⟩ := hcaptured
  rw [← hcapabilities] at hcap hagree
  obtain ⟨hoffered, hdef⟩ := Platform.offered_of_mem_handedOut hitem
  have hopen := hoffered.not_ended hlease not_mem_nil
  have hunstaged := hoffered.unstaged hopen hconsistent hdef htool
    (idempotencyClassForTool_eq hcap hid hagree)
  rw [(hreaped.tracks _).staged, any_append, Bool.or_eq_false_iff] at hunstaged
  exact hunstaged.1

def payDef (version : ToolVersion) : MoteDef :=
  { pureDef ∅ with
    ndClass := .worldMutating
    toolContract := (∅ : ExtTreeMap ToolName ToolVersion).insert "pay" version }

def submitPay (version : ToolVersion) (position : UInt8) : Command :=
  .submit (payDef version) (.replicate 32 0) [position] []
    { toolGrants := (∅ : ExtTreeSet ToolGrant).insert ⟨"pay", version⟩ } true false

/-- The second version of the tool cannot tell a repetition. -/
def payClass (version : ToolVersion) : IdempotencyClassTag :=
  if version = "2" then .atLeastOnce else .token

def payOutside : Outside :=
  { sampleOutside with
    resolve := fun grant _ => some ⟨payClass grant.toolVersion,
      ⟨grant.toolId, grant.toolVersion, .builtin, ⟨.replicate 32 0⟩,
        payClass grant.toolVersion⟩⟩ }

def payOutsideWithoutOne : Outside :=
  { payOutside with status := fun worker => some (if worker = 1 then .dead else .live) }

def payAt (version : ToolVersion) (position : UInt8) : Mote :=
  stepAt (payDef version) position []

/-- The state after these batches, with the poll of a worker next. -/
def payThen (batches : List (List Command)) : Core sampleJournal :=
  ((started payOutside samplePlatform.ids.blake3 .new).after samplePlatform payOutside
    (.recover :: batches.flatMap (plan []))).after samplePlatform payOutside [.flush []]

theorem polls_payThen (worker : WorkerId) (outside : Outside)
    (hcount : ∀ commands ∈ batches, 0 < commands.length ∧ commands.length ≤ MAX_DRAIN)
    (hlawful : Lawful samplePlatform Q payOutside
      ([.recover] ++ (batches.flatMap (plan []) ++ [.flush []]))
      (started payOutside samplePlatform.ids.blake3 .new))
    (hpoll : (samplePlatform.act (.command (poll worker))).Along (samplePlatform.handler _) Q
      ((payThen batches).facing outside)) :
    Polls samplePlatform Q (payThen batches) ⟨worker, .bwrap, 10⟩ outside [.flush [], .settle] := by
  rw [lawful_append, lawful_append] at hlawful
  obtain ⟨hstart, hbatches, hflush⟩ := hlawful
  refine ⟨?_, hpoll⟩
  have hsteps := ((reaches_started payOutside).trans (steps_after payOutside hstart)).trans
    (steps_batches payOutside batches hcount hbatches)
  have hone : [poll worker].length ≤ MAX_DRAIN := (by decide : 1 ≤ MAX_DRAIN)
  exact hsteps.trans (.head (.drain [poll worker] (cons_ne_nil _ _) hone)
    (steps_actions payOutside _ hflush))

/-- One payment is staged, and another is submitted. -/
def payTwice : List (List Command) :=
  [[registerSampleRun, submitPay "2" 2, poll 1],
    [.reportEffectStaged (payAt "2" 2).id (payAt "2" 2).id.bytes, submitPay "2" 3]]

/-- The worker dies after it staged the first payment. The other one is handed out, the first is
not. -/
theorem unstaged_of_polls_payTwice :
    let w := payThen payTwice
    (sampleJournal.durable w.journal).any (stages (payAt "2" 2).id) = true ∧
      (samplePlatform.handedOut ⟨2, .bwrap, 10⟩ (w.facing payOutsideWithoutOne)).map (·.mote.id) =
        [(payAt "2" 3).id] ∧
      ∀ item ∈ samplePlatform.handedOut ⟨2, .bwrap, 10⟩ (w.facing payOutsideWithoutOne),
        (sampleJournal.durable w.journal).any (stages item.mote.id) = false := by
  have hpolls : Polls samplePlatform HasRoom (payThen payTwice) ⟨2, .bwrap, 10⟩
      payOutsideWithoutOne [.flush [], .settle] :=
    polls_payThen 2 payOutsideWithoutOne (by decide) (by decide +kernel) (by decide +kernel)
  have hitems : ∀ item ∈ samplePlatform.handedOut ⟨2, .bwrap, 10⟩
      ((payThen payTwice).facing payOutsideWithoutOne),
      item.mote.def.toolContract["pay"]? = some "2" := by decide +kernel
  refine ⟨by decide +kernel, by decide +kernel, ?_⟩
  intro item hitem
  exact unstaged_of_polls (.inl rfl) hpolls hitem (hitems item hitem) (by decide +kernel)
    (by unfold AlwaysAtLeastOnce; decide +kernel)

/-- Two versions of the tool are in use, and a payment with the second is staged. -/
def stageSecond : List (List Command) :=
  [[registerSampleRun, submitPay "1" 1, submitPay "2" 2, poll 1],
    [.reportEffectStaged (payAt "2" 2).id (payAt "2" 2).id.bytes]]

/-- The worker dies after it staged the payment, and the payment is handed out again: the class of
the tool is that of its first version. -/
theorem not_unstaged_stageSecond :
    let w := payThen stageSecond
    Polls samplePlatform Faultless w ⟨2, .bwrap, 10⟩ payOutsideWithoutOne [.flush [], .settle] ∧
      (payAt "2" 2).def.toolContract["pay"]? = some "2" ∧
      (∃ cap ∈ captured (sampleJournal.durable w.journal), cap.toolId = "pay" ∧
        cap.toolVersion = "2" ∧ cap.idempotencyClass = .atLeastOnce) ∧
      (sampleJournal.durable w.journal).any (stages (payAt "2" 2).id) = true ∧
      (sampleJournal.durable w.journal).any (commits (payAt "2" 2).id) = false ∧
      (samplePlatform.handedOut ⟨2, .bwrap, 10⟩ (w.facing payOutsideWithoutOne)).map (·.mote.id) =
        [(payAt "2" 2).id] := by
  have hpolls : Polls samplePlatform Faultless (payThen stageSecond) ⟨2, .bwrap, 10⟩
      payOutsideWithoutOne [.flush [], .settle] :=
    polls_payThen 2 payOutsideWithoutOne (by decide) (by decide +kernel) (by decide +kernel)
  exact ⟨hpolls, by decide +kernel, by decide +kernel, by decide +kernel, by decide +kernel,
    by decide +kernel⟩

end Kortecx.Coordinator
