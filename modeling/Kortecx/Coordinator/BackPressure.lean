import Kortecx.Coordinator.AgentLoop

/-!
Back-pressure. A turn that fired calls is followed by the next turn when all of them have
landed, or when the turn was superseded because one of them failed. In the second case the
other calls may still be in flight; if a call fails for good only when the others of its batch are
at an end, no call of an earlier turn is ever in flight while a later turn runs.
-/

namespace Kortecx.Coordinator

open Lib Mote Journal Projection Warrant List

variable {P : Platform} {J : Backend} {made : Set MoteId}

def Over (info : MoteInfo) : Prop :=
  info.inconsistent = true ∨ info.committed.isSome = true ∨ info.terminalFailureObserved = true

/-- A failure has a reason once it is final, and the reason is no crash. -/
def Reasoned (info : MoteInfo) : Prop :=
  info.failureReason.isSome = info.terminalFailureObserved ∧
    ∀ reason ∈ info.failureReason, isPreCommitCrash reason = false

section Info

variable {info info' : MoteInfo}

theorem Over.of_undeclared (hsame : info'.undeclared = info.undeclared) (hover : Over info) :
    Over info' := by
  rw [MoteInfo.eq_of_undeclared hsame]
  exact hover

/-- Nothing that is appended undoes it. -/
theorem Over.after {id : MoteId} (hover : Over info) (hid : subject e = some id) :
    Over (info.after e) := by
  have hadvances : Advances id e info (info.after e) := advances_after hid
  unfold Over at *
  rw [hadvances.inconsistent, hadvances.committed, hadvances.terminal]
  grind

theorem Reasoned.of_undeclared (hsame : info'.undeclared = info.undeclared)
    (hreasoned : Reasoned info) : Reasoned info' := by
  rw [MoteInfo.eq_of_undeclared hsame]
  exact hreasoned

theorem Reasoned.after (hreasoned : Reasoned info) (e : JournalEntry) :
    Reasoned (info.after e) := by
  cases e with
  | failed f =>
    change Reasoned (foldFailed f.reasonClass f.detail info)
    unfold foldFailed
    dsimp only
    by_cases hcrash : isPreCommitCrash f.reasonClass = true
    · rw [if_pos hcrash]
      split_ifs <;> exact hreasoned
    rw [if_neg hcrash]
    by_cases hnone : info.failureReason.isNone = true
    · have hfirst : ∀ r ∈ some f.reasonClass, isPreCommitCrash r = false := by
        rintro r ⟨⟩
        exact Bool.eq_false_iff.2 hcrash
      rw [if_pos hnone]
      split_ifs
      · exact hreasoned
      · exact ⟨rfl, hfirst⟩
      · exact ⟨rfl, hfirst⟩
    · have hkept : info.failureReason.isSome = true := by
        rwa [← Option.not_isSome, Bool.not_eq_true', Bool.not_eq_false] at hnone
      rw [if_neg hnone]
      split_ifs
      · exact hreasoned
      · exact ⟨hkept, hreasoned.2⟩
      · exact ⟨hkept, hreasoned.2⟩
  | repudiated r =>
    unfold Reasoned MoteInfo.after foldRepudiated at *
    grind
  | _ => exact hreasoned

theorem atEnd_iff_over {s : State} {id : MoteId} (hreasoned : Reasoned (s.info id)) :
    AtEnd s id ↔ Over (s.info id) := by
  unfold AtEnd crashRetryable State.failureReasonOf
  rw [State.stateOfId_eq_state]
  generalize s.info id = info at hreasoned
  obtain ⟨hsome, hreason⟩ := hreasoned
  unfold Over MoteInfo.state
  cases hinconsistent : info.inconsistent with
  | true => simp [isTerminal]
  | false =>
    cases hcommitted : info.committed with
    | some c =>
      cases hrepudiated : c.repudiated <;> simp [isTerminal, hrepudiated]
    | none =>
      cases hfailed : info.failureReason with
      | some reason =>
        rw [hfailed] at hsome hreason
        simp [isTerminal, ← hsome, hreason reason rfl]
      | none =>
        rw [hfailed] at hsome
        simp [isTerminal, ← hsome]
        grind

end Info

def Drained (P : Platform) (made : Set MoteId) (s : State) (x : ReactRoundRecord) : Prop :=
  ∀ i tool, (firedCalls x.branch)[i]? = some tool → (P.observationAt x x tool i).id ∈ made →
    AtEnd s (P.observationAt x x tool i).id

def Makes (made : Set MoteId) : Effect → Prop
  | .chore (.edit (.define mote _)) => mote.id ∈ made
  | _ => True

/-- A call of the fact came to an end for good and did not commit. -/
def Misses (P : Platform) (s : State) (x : ReactRoundRecord) : Prop :=
  ∃ call ∈ (firedCalls x.branch).zipIdx, AtEnd s (P.observationAt x x call.1 call.2).id ∧
    s.stateOfId (P.observationAt x x call.1 call.2).id ≠ .committed

instance (P : Platform) (s : State) (x : ReactRoundRecord) : Decidable (Misses P s x) :=
  inferInstanceAs (Decidable (∃ _ ∈ _, _))

/-- No call fails for good while another call of its batch is in flight. -/
def FailsLast (P : Platform) (made : Set MoteId) (s : State) : Prop :=
  ∀ x ∈ s.reactRounds, Misses P s x → Drained P made s x

/-- As `Drained`, of what the journal says of the Motes. -/
def CallsOver (P : Platform) (made : Set MoteId) (info : MoteId → MoteInfo) (x : ReactRoundRecord) :
    Prop :=
  ∀ i tool, (firedCalls x.branch)[i]? = some tool → (P.observationAt x x tool i).id ∈ made →
    Over (info (P.observationAt x x tool i).id)

variable {x : ReactRoundRecord} {info info' : MoteId → MoteInfo}

theorem CallsOver.mono (hover : CallsOver P made info x)
    (hmono : ∀ id, Over (info id) → Over (info' id)) : CallsOver P made info' x :=
  fun i tool htool hmade => hmono _ (hover i tool htool hmade)

theorem callsOver_of_pending (hpending : x.branch = .pending) : CallsOver P made info x := by
  intro i tool htool
  rw [hpending] at htool
  cases htool

/-- The calls of every turn before the last one are over, and so are those of every fact before
the last one, if the next turn may follow. All facts are of one chain. -/
structure Pressed (P : Platform) (made : Set MoteId) (info : MoteId → MoteInfo)
    (front : List ReactRoundRecord) (last : ReactRoundRecord) : Prop where
  earlier : ∀ x ∈ front, x.turn < last.turn → CallsOver P made info x
  spent : isSpent last.branch = true → ∀ x ∈ front, CallsOver P made info x
  kin : ∀ x ∈ front ++ [last], ∀ y ∈ front ++ [last],
    x.modelId = y.modelId ∧ x.instanceId = y.instanceId ∧ x.stepSalt = y.stepSalt

/-- An observation is made from what all facts of its chain have in common. -/
theorem observationAt_of_kin (P : Platform) {a : ReactRoundRecord} (x : ReactRoundRecord)
    (tool : String × String) (i : Nat)
    (hkin : a.modelId = x.modelId ∧ a.instanceId = x.instanceId ∧ a.stepSalt = x.stepSalt) :
    P.observationAt a x tool i = P.observationAt x x tool i := by
  obtain ⟨hmodel, hinstance, hsalt⟩ := hkin
  unfold Platform.observationAt
  rw [hmodel, hinstance, hsalt]

section Steps

variable {w : Core J} {front : List ReactRoundRecord} {anchor last : ReactRoundRecord}
  {r : ReactRound}

/-- A fact that goes on from the last one keeps the earlier calls over. -/
theorem Pressed.goes (hpressed : Pressed P made w.projection.info front last)
    (hgrown : Grown front last) (hhead : (front ++ [last]).head? = some anchor)
    (hreasoned : ∀ id, Reasoned (w.projection.info id))
    (hr : Continues P w (front ++ [last]) anchor last r)
    (hmisses : Misses P w.projection last → Drained P made w.projection last) (seq : UInt64) :
    Pressed P made w.projection.info (front ++ [last]) { r with seq } := by
  have hanchor : anchor ∈ front ++ [last] := mem_of_mem_head? hhead
  have hsame : ∀ x ∈ front ++ [last],
      x.modelId = r.modelId ∧ x.instanceId = r.instanceId ∧ x.stepSalt = r.stepSalt := by
    intro x hx
    have hkin := hpressed.kin x hx anchor hanchor
    cases hr <;> exact hkin
  -- The calls of the last fact are over in the cases in which the chain goes on.
  have hfront : ∀ {x}, x ∈ front ++ [last] →
      (∀ y ∈ front, CallsOver P made w.projection.info y) →
      CallsOver P made w.projection.info last → CallsOver P made w.projection.info x := by
    intro x hx hbefore hlast
    rcases mem_append.1 hx with hx | hx
    · exact hbefore x hx
    · rwa [mem_singleton.1 hx]
  have hdrained : Drained P made w.projection last → CallsOver P made w.projection.info last :=
    fun hdrained i tool htool hmade =>
      (atEnd_iff_over (hreasoned _)).1 (hdrained i tool htool hmade)
  refine ⟨?_, ?_, ?_⟩
  · intro x hx hlt
    have hsameTurn : r.turn = last.turn → CallsOver P made w.projection.info x := by
      intro hturn
      rw [hturn] at hlt
      rcases mem_append.1 hx with hx | hx
      · exact hpressed.earlier x hx hlt
      rw [mem_singleton.1 hx] at hlt
      exact absurd hlt (UInt32.lt_irrefl _)
    cases hr with
    | advanced hspent hlanded =>
      refine hfront hx (fun y hy => hpressed.spent hspent y hy) ?_
      intro i tool htool _
      have hcommitted := hlanded i tool htool
      rw [observationAt_of_kin P last tool i (hpressed.kin anchor hanchor last (by simp)),
        State.stateOfId_eq_state] at hcommitted
      obtain ⟨-, c, hc, -⟩ := MoteInfo.state_eq_committed.1 hcommitted
      exact .inr (.inl (Option.isSome_of_eq_some hc))
    | _ => exact hsameTurn rfl
  · intro hspent x hx
    cases hr with
    | froze hpending =>
      refine hfront hx (fun y hy => hpressed.earlier y hy ?_) (callsOver_of_pending hpending)
      have hle := (hgrown.le_last y hy).1
      have hne := hgrown.turn_ne_of_pending hpending y hy
      rw [UInt32.lt_iff_toNat_lt]
      exact lt_of_le_of_ne hle fun heq => hne (UInt32.toNat_inj.1 heq)
    | gaveUp | advanced => cases hspent
    | @superseded i tool reason htool hfailed hmissed =>
      have hlast : isSpent last.branch = true := by
        cases hbranch : last.branch with
        | tool _ _ => rfl
        | toolBatch _ => rfl
        | rejected _ => rfl
        | _ =>
          rw [hbranch] at htool
          cases htool
      rw [observationAt_of_kin P last tool i (hpressed.kin anchor hanchor last (by simp))]
        at hfailed hmissed
      refine hfront hx (fun y hy => hpressed.spent hlast y hy) (hdrained (hmisses ?_))
      exact ⟨(tool, i), mem_zipIdx_iff_getElem?.2 htool, hfailed, hmissed⟩
  · intro x hx y hy
    have hall : ∀ x ∈ front ++ [last] ++ [({ r with seq } : ReactRoundRecord)],
        x.modelId = r.modelId ∧ x.instanceId = r.instanceId ∧ x.stepSalt = r.stepSalt := by
      intro x hx
      rcases mem_append.1 hx with hx | hx
      · exact hsame x hx
      rw [mem_singleton.1 hx]
      exact ⟨rfl, rfl, rfl⟩
    obtain ⟨hmodel, hinstance, hsalt⟩ := hall x hx
    obtain ⟨hmodel', hinstance', hsalt'⟩ := hall y hy
    exact ⟨hmodel.trans hmodel'.symm, hinstance.trans hinstance'.symm, hsalt.trans hsalt'.symm⟩

theorem Pressed.mono (hpressed : Pressed P made info front last)
    (hmono : ∀ id, Over (info id) → Over (info' id)) : Pressed P made info' front last :=
  ⟨fun x hx hlt => (hpressed.earlier x hx hlt).mono hmono,
    fun hspent x hx => (hpressed.spent hspent x hx).mono hmono, hpressed.kin⟩

end Steps

/-- What is known of the Motes and chains of a log: the failures have reasons, the chains are
in order, and the calls of earlier turns are over. -/
structure PressedLog (P : Platform) (made : Set MoteId) (info : MoteId → MoteInfo)
    (log : List JournalEntry) : Prop where
  reasoned : ∀ id, Reasoned (info id)
  orderly : Orderly log
  pressed : ∀ {chain front last}, chainRounds log chain = front ++ [last] →
    Pressed P made info front last

theorem PressedLog.of_undeclared (hlog : PressedLog P made info log)
    (hsame : ∀ id, (info' id).undeclared = (info id).undeclared) : PressedLog P made info' log :=
  ⟨fun id => (hlog.reasoned id).of_undeclared (hsame id), hlog.orderly,
    fun hrounds => (hlog.pressed hrounds).mono fun id => Over.of_undeclared (hsame id)⟩

section Runs

variable {rel : J.State → List JournalEntry → Prop}

theorem PressedLog.did {w : Core J}
    (hlog : PressedLog P made w.projection.info log) (hmirrored : Mirrored rel w log)
    (hguarded : P.Guarded w e) (hlast : FailsLast P made w.projection)
    (hplaces : PlacesFacts P Set.univ w e) (hdid : Did P.ids.blake3 w log e new w') :
    PressedLog P made w'.projection.info (log ++ new) := by
  have hmono : ∀ id, Over (w.projection.info id) → Over (w'.projection.info id) := fun id hover =>
    hdid.info_preserves Over.of_undeclared (fun _ _ hid _ hinfo => hinfo.after hid) hover
  refine ⟨?_, hlog.orderly.did hmirrored hguarded hplaces hdid, ?_⟩
  · intro id
    exact hdid.info_preserves Reasoned.of_undeclared (fun x _ _ info hinfo => hinfo.after x)
      (hlog.reasoned id)
  · intro chain front last hrounds
    have hextends := hdid.extends hmirrored hguarded hplaces chain
    rw [hrounds] at hextends
    generalize hbefore : chainRounds log chain = rounds at hextends
    generalize hafter : front ++ [last] = rounds' at hextends
    apply Pressed.mono _ hmono
    cases hextends with
    | same => exact hlog.pressed (hbefore.trans hafter.symm)
    | starts _ hanchors =>
      obtain ⟨rfl, hlast⟩ := append_inj' (hafter.trans (nil_append _).symm) rfl
      cases hlast
      refine ⟨by simp, by simp, ?_⟩
      intro x hx y hy
      rw [mem_singleton.1 hx, mem_singleton.1 hy]
      exact ⟨rfl, rfl, rfl⟩
    | @goes r front' last' anchor hreadable strict hnotes hkey hhead hr =>
      obtain ⟨rfl, hlast⟩ := append_inj' hafter rfl
      cases hlast
      refine (hlog.pressed hbefore).goes (hlog.orderly.grown hbefore) hhead hlog.reasoned hr ?_ _
      refine hlast last' ?_
      have hmem : last' ∈ w.projection.reactRoundsOf chain.1 chain.2 := by
        rw [hmirrored.chainRounds_eq chain, hbefore]
        simp
      obtain ⟨_, _, hat⟩ := mem_filterMap.1 hmem
      exact mem_of_getElem? hat

def pressedRuns (P : Platform) (J : Backend) (rel : J.State → List JournalEntry → Prop)
    (made : Set MoteId) : RunInvariant P J rel fun w e =>
      (Lasting Set.univ w e ∧ Makes made e ∧ FailsLast P made w.projection) ∧
        PlacesFacts P Set.univ w e where
  up w log := PressedLog P made w.projection.info log
  down log := ∃ s, replay none {} log = .ok s ∧ PressedLog P made s.info log
  boot _ _ hreplay _ := of_replay hreplay
  facing _ hup := hup
  crash hmirrored hup := by
    obtain ⟨s, hs, hjournaled⟩ := hmirrored.journaled
    exact ⟨s, hs, hup.of_undeclared fun id => ((State.journaled_eq_iff.1 hjournaled).1 id).symm⟩
  step hmirrored hup hguarded he hdid _ := hup.did hmirrored hguarded he.1.2.2 he.2 hdid

theorem pressedLog_nil : PressedLog P made (State.info {}) [] := by
  refine ⟨fun id => ?_, orderly_nil, fun hnil => absurd hnil.symm (by simp [chainRounds])⟩
  have hinfo : State.info {} id = {} := rfl
  rw [hinfo]
  refine ⟨rfl, ?_⟩
  intro reason hreason
  cases hreason

/-- In every run in which no call fails for good while another call of its batch is in flight, no
call of an earlier turn is in flight once a later turn is recorded. -/
theorem drained_of_reaches (hJ : IsJournal P J) {w : Core J} {todo : List Action}
    (hreaches : Reaches P J
      (fun w e => Faultless w e ∧ Makes made e ∧ FailsLast P made w.projection) (.up w todo))
    {chain : ChainKey} {x y : ReactRoundRecord}
    (hx : x ∈ w.projection.reactRoundsOf chain.1 chain.2)
    (hy : y ∈ w.projection.reactRoundsOf chain.1 chain.2) (hlater : x.turn < y.turn) :
    Drained P made w.projection x := by
  obtain ⟨rel, hreads⟩ := hJ.readsBack
  obtain ⟨log, hmirrored, hlog⟩ := holds_of_reaches_of_order hreads
    (I := pressedRuns P J rel made) (fun _ _ hlog => hlog.orderly) ⟨{}, rfl, pressedLog_nil⟩
    (hreaches.mono fun _ _ he => ⟨lasting_univ he.1, he.2⟩)
  have hsome : chainRounds log chain ≠ [] := by
    rw [← hmirrored.chainRounds_eq chain]
    exact ne_nil_of_mem hx
  have hsnoc := (dropLast_append_getLast hsome).symm
  rw [hmirrored.chainRounds_eq chain, hsnoc] at hx hy
  have hgrown := hlog.orderly.grown hsnoc
  have hlast : x.turn < ((chainRounds log chain).getLast hsome).turn := by
    rw [UInt32.lt_iff_toNat_lt] at hlater ⊢
    rcases mem_append.1 hy with hy | hy
    · exact hlater.trans_le (hgrown.le_last y hy).1
    · rwa [mem_singleton.1 hy] at hlater
  rcases mem_append.1 hx with hx | hx
  · intro i tool htool hmade
    exact (atEnd_iff_over (hlog.reasoned _)).2
      ((hlog.pressed hsnoc).earlier x hx hlast i tool htool hmade)
  rw [mem_singleton.1 hx] at hlast
  exact absurd hlast (UInt32.lt_irrefl _)

end Runs

theorem makes_univ (e : Effect) : Makes Set.univ e := by
  unfold Makes
  split <;> trivial

theorem drained_of_reaches_callOnce :
    let w := agentAfter callOnce
    ∃ x ∈ w.projection.reactRoundsOf (agentChain ∅).1 (agentChain ∅).2,
      firedCalls x.branch = [("echo", "1")] ∧ Drained agentPlatform Set.univ w.projection x := by
  have hreaches : Reaches agentPlatform agentJournal (fun w e => Faultless w e ∧
      ∀ x ∈ w.projection.reactRounds, ¬ Misses agentPlatform w.projection x)
      (.up (agentAfter callOnce) []) :=
    reaches_batches agentOutside _ (by decide) (by decide +kernel)
  have hlawful := hreaches.mono (R := fun w e => Faultless w e ∧ Makes Set.univ e ∧
    FailsLast agentPlatform Set.univ w.projection)
    fun _ e he => ⟨he.1, makes_univ e, fun x hx hmisses => absurd hmisses (he.2 x hx)⟩
  have hfacts : ∃ x ∈ (agentAfter callOnce).projection.reactRoundsOf (agentChain ∅).1
      (agentChain ∅).2, ∃ y ∈ (agentAfter callOnce).projection.reactRoundsOf (agentChain ∅).1
      (agentChain ∅).2, x.turn < y.turn ∧ firedCalls x.branch = [("echo", "1")] := by
    decide +kernel
  obtain ⟨x, hx, y, hy, hlater, hfired⟩ := hfacts
  exact ⟨x, hx, hfired, drained_of_reaches (.inl rfl) hlawful hx hy hlater⟩

/-- The first turn asks for two calls. One fails for good while the other is in flight. -/
def abandonCall : List (List Command) :=
  [[registerSampleRun, submitSeed ∅], [.commit (commitText (agentTurn ∅).id [1, 2])],
    [poll 1, .reportFailure (agentCall ∅ 0).id (agentCall ∅ 0).id.bytes .deadLettered 1 ""],
    [.query]]

/-- The second turn is pending, and the second call of the first turn has not ended: it is
ready for dispatch, and leased. -/
theorem not_drained_abandonCall :
    let w := agentAfter abandonCall
    Reaches agentPlatform agentJournal Faultless (.up w []) ∧
      (∃ x ∈ w.projection.reactRoundsOf (agentChain ∅).1 (agentChain ∅).2,
        ∃ y ∈ w.projection.reactRoundsOf (agentChain ∅).1 (agentChain ∅).2,
        x.turn < y.turn ∧ y.branch = .pending ∧
        firedCalls x.branch = [("echo", "1"), ("echo", "1")] ∧
        (agentPlatform.observationAt x x ("echo", "1") 1).id = (agentCall ∅ 1).id) ∧
      w.projection.stateOfId (agentCall ∅ 1).id = .pending ∧
      w.dispatch.defs.contains (agentCall ∅ 1).id = true ∧
      w.dispatch.tracker.isLeased (agentCall ∅ 1).id = true := by
  have hreaches : Reaches agentPlatform agentJournal Faultless (.up (agentAfter abandonCall) []) :=
    reaches_batches agentOutside _ (by decide) (by decide +kernel)
  exact ⟨hreaches, by decide +kernel, by decide +kernel, by decide +kernel, by decide +kernel⟩

end Kortecx.Coordinator
