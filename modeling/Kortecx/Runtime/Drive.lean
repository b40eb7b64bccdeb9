import Kortecx.Runtime.Engine
import Mathlib.Algebra.BigOperators.Group.Finset.Basic
import Mathlib.Algebra.Order.BigOperators.Group.Finset

/-!
The drive loop under a failure policy: take the next Mote, dispatch it, fold what it
journaled, and on a failure retry it or dead-letter it. A dispatch is known here by what it
journals and how it ends; both are left open. The loop ends because a Mote that is
dispatched is then either over for good or one attempt closer to its budget.
-/

namespace Kortecx.Runtime

open Lib Mote Journal Projection List State Function Relation

inductive FailureClass where
  | transientInfra
  | terminalLogic
deriving DecidableEq, Repr

/-- The pause between attempts is left out. -/
structure FailurePolicy where
  maxAttempts : UInt32

/-- The class of a dispatch's error, and the bounded detail that the model may be told. -/
structure Failure where
  failureClass : FailureClass
  detail : String

def reasonFor : FailureClass → FailureReason
  | .transientInfra | .terminalLogic => .deadLettered

def RUNTIME_REPORTER_ID : BitVec 128 := 0x6b785f72756e74696d65000000000001

def deadLetter (id : MoteId) (failure : Failure) (seq : UInt64) : Failed where
  moteId := id
  idempotencyKey := id.bytes
  seq := seq
  reasonClass := reasonFor failure.failureClass
  reporterId := RUNTIME_REPORTER_ID
  detail := failure.detail

/-- What `handle_failure` did: it ended the run with an error, left a terminal Mote alone,
let the Mote be tried again, or dead-lettered it. -/
inductive Handled where
  | stopped
  | terminal (s : State)
  | retry (s : State) (attempts : Nat)
  | deadLettered (s : State) (attempts : Nat)

/-- `journaled` is what the failed dispatch appended, and `appended` the position of the
dead letter if the journal takes it. -/
def handleFailure (materializer : Option TopologyMaterializer) (policy : FailurePolicy)
    (id : MoteId) (failure : Failure) (journaled : List JournalEntry) (appended : Option UInt64)
    (s : State) (attempts : Nat) : Handled :=
  match foldMany materializer s journaled with
  | (_, .error _) => .stopped
  | (s, .ok _) =>
    if isTerminal (s.stateOfId id) then .terminal s
    else
      let n := if failure.failureClass = .transientInfra then attempts + 1 else attempts
      if failure.failureClass = .transientInfra ∧ n < policy.maxAttempts.toNat then .retry s n
      else
        match appended with
        | none => .stopped
        | some seq =>
          match fold materializer s (.failed (deadLetter id failure seq)) with
          | (_, .error _) => .stopped
          | (s, .ok _) => .deadLettered s n

structure Loop where
  runnable : List WorkflowMote
  projection : State
  childrenDerived : Bool := false
  attempts : MoteId → Nat := fun _ => 0
  dispatched : List MoteId := []
  stopped : Bool := false

/-- What the loop is told in one pass: the children of the shaper once it is committed, the
verdicts, and how the dispatch went. -/
structure Answers where
  children : Option (List WorkflowMote) := none
  verdicts : VerdictLookup := noVerdicts
  journaled : List JournalEntry := []
  failure : Option Failure := none
  appended : Option UInt64 := none

def Action.workflowMote : Action → WorkflowMote
  | .runPure w | .runNativeCritic w | .runWm w _ => w

/-- The children of the shaper are taken up once. -/
def Loop.derive (l : Loop) (a : Answers) : Loop :=
  if l.childrenDerived then l
  else
    match a.children with
    | none => l
    | some children => { l with runnable := l.runnable ++ children, childrenDerived := true }

/-- The rest of a pass, once a Mote is picked. -/
def Loop.dispatch (materializer : Option TopologyMaterializer) (policy : FailurePolicy)
    (a : Answers) (id : MoteId) (l : Loop) : Loop :=
  let l := { l with dispatched := id :: l.dispatched }
  match a.failure with
  | none =>
    match foldMany materializer l.projection a.journaled with
    | (_, .error _) => { l with stopped := true }
    | (s, .ok _) => { l with projection := s }
  | some failure =>
    match handleFailure materializer policy id failure a.journaled a.appended l.projection
        (l.attempts id) with
    | .stopped => { l with stopped := true }
    | .terminal s => { l with projection := s }
    | .retry s n | .deadLettered s n =>
      { l with projection := s, attempts := update l.attempts id n }

/-- What a dispatch may leave in the journal: a success the commit of its Mote, and no
dispatch the report of a crashed worker. -/
structure Answers.Journals (a : Answers) (id : MoteId) : Prop where
  commits : a.failure = none → a.journaled.any (commits id)
  noCrash : ∀ x, .failed x ∈ a.journaled → isPreCommitCrash x.reasonClass = false

inductive Pass (materializer : Option TopologyMaterializer) (policy : FailurePolicy) :
    Loop → Loop → Prop where
  | dispatch {l : Loop} {a : Answers} {action : Action} (hrunning : l.stopped = false)
      (hpick : pickNext (l.derive a).runnable (l.derive a).projection a.verdicts = some action)
      (hjournals : a.Journals action.workflowMote.mote.id) :
      Pass materializer policy l
        ((l.derive a).dispatch materializer policy a action.workflowMote.mote.id)

variable {materializer : Option TopologyMaterializer} {policy : FailurePolicy} {s s' : State}
  {id : MoteId} {e : JournalEntry} {es : List JournalEntry} {seq : UInt64} {l l' : Loop}

section Settling

/-- Nothing that is folded later changes that the Mote is over. -/
def Settled (info : MoteInfo) : Prop :=
  info.inconsistent = true ∨ info.committed.isSome = true ∨ info.terminalFailureObserved = true

def Uncrashed (info : MoteInfo) : Prop :=
  info.effectStagedObserved = true ∨ info.failedPendingReattempt = false

theorem isTerminal_eq_false {info : MoteInfo} :
    isTerminal info.state = false ↔ ¬ Settled info ∧ Uncrashed info := by
  unfold MoteInfo.state Settled Uncrashed
  cases hcommitted : info.committed <;> grind [isTerminal]

/-- Only a failure of the Mote itself leaves it waiting for another attempt. -/
theorem failedPendingReattempt_fold (hfold : fold materializer s e = (s', .ok seq))
    (hwaits : (s'.info id).failedPendingReattempt = true) :
    (s.info id).failedPendingReattempt = true ∨ ∃ x, e = .failed x ∧ x.moteId = id := by
  rw [MoteInfo.eq_of_undeclared (undeclared_fold hfold id)] at hwaits
  change (ite _ _ _ : MoteInfo).failedPendingReattempt = true at hwaits
  split at hwaits
  · rename_i hid
    cases e with
    | failed x => exact .inr ⟨x, rfl, Option.some.inj hid⟩
    | repudiated x =>
      change (foldRepudiated x.targetCommittedSeq (s.info id)).failedPendingReattempt = true
        at hwaits
      unfold foldRepudiated at hwaits
      left
      split at hwaits <;> split at hwaits <;> exact hwaits
    | proposed x => cases hwaits
    | _ => exact .inl hwaits
  · exact .inl hwaits

theorem settled_fold (hfold : fold materializer s e = (s', .ok seq))
    (hsettled : Settled (s.info id) ∨ commits id e = true) : Settled (s'.info id) := by
  have hadvances : Advances id e (s.info id) (s'.info id) := advances_fold hfold
  unfold Settled at hsettled ⊢
  rw [hadvances.inconsistent, hadvances.committed, hadvances.terminal]
  grind

/-- As long as no crash is folded, a Mote is over for good or has not crashed. -/
theorem uncrashed_fold (hfold : fold materializer s e = (s', .ok seq))
    (hcrash : ∀ x, e = .failed x → isPreCommitCrash x.reasonClass = false)
    (huncrashed : Uncrashed (s.info id)) : Settled (s'.info id) ∨ Uncrashed (s'.info id) := by
  have hadvances : Advances id e (s.info id) (s'.info id) := advances_fold hfold
  by_cases hwaits : (s'.info id).failedPendingReattempt = true
  · rcases failedPendingReattempt_fold hfold hwaits with hbefore | ⟨x, rfl, hid⟩
    · rcases huncrashed with hstaged | hnot
      · refine .inr (.inl ?_)
        rw [hadvances.staged, hstaged, Bool.true_or]
      rw [hbefore] at hnot
      cases hnot
    · left
      unfold Settled
      rw [hadvances.terminal, hadvances.committed]
      simp only [failsTerminally, hid, hcrash x rfl]
      cases (s.info id).committed <;> simp
  · exact .inr (.inr (Bool.eq_false_of_not_eq_true hwaits))

theorem settled_foldMany (hfold : foldMany materializer s es = (s', .ok seq))
    (hcrash : ∀ x, .failed x ∈ es → isPreCommitCrash x.reasonClass = false) :
    (Settled (s.info id) ∨ es.any (commits id) = true → Settled (s'.info id)) ∧
      (Settled (s.info id) ∨ Uncrashed (s.info id) →
        Settled (s'.info id) ∨ Uncrashed (s'.info id)) := by
  induction es generalizing s with
  | nil =>
    cases hfold
    exact ⟨fun h => by simpa using h, fun h => h⟩
  | cons e es ih =>
    unfold foldMany at hfold
    split at hfold
    · rename_i mid prev hstep
      obtain ⟨hsettles, hlives⟩ := ih hfold fun x hx => hcrash x (mem_cons_of_mem e hx)
      refine ⟨?_, ?_⟩
      · intro h
        apply hsettles
        rw [any_cons, Bool.or_eq_true, ← or_assoc] at h
        exact h.imp_left (settled_fold hstep)
      · intro h
        apply hlives
        rcases h with hsettled | huncrashed
        · exact .inl (settled_fold hstep (.inl hsettled))
        · exact uncrashed_fold hstep (fun x hx => hcrash x (hx ▸ mem_cons_self)) huncrashed
    · cases hfold

variable {failure : Failure}

/-- A dead letter ends the Mote. -/
theorem settled_deadLetter
    (hfold : fold materializer s (.failed (deadLetter id failure position)) = (s', .ok seq)) :
    Settled (s'.info id) := by
  have hadvances : Advances id _ (s.info id) (s'.info id) := advances_fold hfold
  have hreason : reasonFor failure.failureClass = .deadLettered := by
    cases failure.failureClass <;> rfl
  unfold Settled
  rw [hadvances.terminal, hadvances.committed]
  simp only [failsTerminally, deadLetter, hreason, isPreCommitCrash]
  cases (s.info id).committed <;> simp

/-- What may be left of a Mote that was dispatched: it is over, or it was given one attempt
more and has some left. -/
def Handled.Leaves (s : State) (id : MoteId) (policy : FailurePolicy) (attempts : Nat) :
    Handled → Prop
  | .stopped => True
  | .terminal s' | .deadLettered s' _ =>
    Settled (s'.info id) ∧ ∀ k, Settled (s.info k) → Settled (s'.info k)
  | .retry s' n =>
    (n = attempts + 1 ∧ n < policy.maxAttempts.toNat) ∧
      ∀ k, Settled (s.info k) → Settled (s'.info k)

theorem handleFailure_leaves (hcrash : ∀ x, .failed x ∈ es → isPreCommitCrash x.reasonClass = false)
    (hlive : Uncrashed (s.info id)) :
    (handleFailure materializer policy id failure es appended s attempts).Leaves s id policy
      attempts := by
  unfold handleFailure
  split
  · trivial
  rename_i folded seq hfolded
  have hkept : ∀ k, Settled (s.info k) → Settled (folded.info k) :=
    fun k hk => (settled_foldMany hfolded hcrash).1 (.inl hk)
  split
  · rename_i hterminal
    refine ⟨?_, hkept⟩
    by_contra hunsettled
    rcases (settled_foldMany hfolded hcrash).2 (.inr hlive) with hsettled | huncrashed
    · exact hunsettled hsettled
    rw [stateOfId_eq_state, isTerminal_eq_false.2 ⟨hunsettled, huncrashed⟩] at hterminal
    cases hterminal
  · dsimp only
    generalize hn : (if failure.failureClass = .transientInfra then attempts + 1 else attempts) = n
    split
    · rename_i hretry
      rw [if_pos hretry.1] at hn
      exact ⟨⟨hn.symm, hretry.2⟩, hkept⟩
    split
    · trivial
    rename_i position
    have hdead : fold materializer folded (.failed (deadLetter id failure position)) =
        (_, .ok folded.lastSeq) := rfl
    exact ⟨settled_deadLetter hdead, fun k hk => settled_fold hdead (.inl (hkept k hk))⟩

end Settling

section Counting

/-- Only runnable Motes are dispatched, none more often than the policy allows, and one
that is not over has been dispatched once for each of its attempts. -/
structure Loop.Counted (policy : FailurePolicy) (l : Loop) : Prop where
  runnable : ∀ id ∈ l.dispatched, id ∈ l.runnable.map (·.mote.id)
  count : ∀ id, l.dispatched.count id ≤ max 1 policy.maxAttempts.toNat
  attempts : l.stopped = false → ∀ id, ¬ Settled (l.projection.info id) →
    l.dispatched.count id = l.attempts id ∧ l.attempts id < max 1 policy.maxAttempts.toNat

theorem Loop.Counted.derive (hl : l.Counted policy) (a : Answers) :
    (l.derive a).Counted policy ∧ (l.derive a).stopped = l.stopped := by
  unfold Loop.derive
  split
  · exact ⟨hl, rfl⟩
  split
  · exact ⟨hl, rfl⟩
  refine ⟨⟨?_, hl.count, hl.attempts⟩, rfl⟩
  intro id hid
  rw [map_append]
  exact mem_append_left _ (hl.runnable id hid)

structure Loop.Dispatched (policy : FailurePolicy) (id : MoteId) (l l' : Loop) : Prop where
  runnable : l'.runnable = l.runnable
  dispatched : l'.dispatched = id :: l.dispatched
  kept : l'.stopped = false → ∀ k, Settled (l.projection.info k) → Settled (l'.projection.info k)
  others : ∀ k, k ≠ id → l'.attempts k = l.attempts k
  self : l'.stopped = false → Settled (l'.projection.info id) ∨
    l'.attempts id = l.attempts id + 1 ∧ l'.attempts id < max 1 policy.maxAttempts.toNat

theorem dispatched_dispatch {a : Answers} (hjournals : a.Journals id)
    (hlive : Uncrashed (l.projection.info id)) :
    l.Dispatched policy id (l.dispatch materializer policy a id) := by
  unfold Loop.dispatch
  cases hfailure : a.failure with
  | none =>
    dsimp only
    split
    · exact ⟨rfl, rfl, nofun, fun _ _ => rfl, nofun⟩
    rename_i hfolded
    have hsettles : ∀ k, Settled (l.projection.info k) ∨ a.journaled.any (commits k) = true → _ :=
      fun k => (settled_foldMany hfolded hjournals.noCrash).1
    exact ⟨rfl, rfl, fun _ k hk => hsettles k (.inl hk), fun _ _ => rfl,
      fun _ => .inl (hsettles id (.inr (hjournals.commits hfailure)))⟩
  | some failure =>
    have hleaves : (handleFailure materializer policy id failure a.journaled a.appended
        l.projection (l.attempts id)).Leaves l.projection id policy (l.attempts id) :=
      handleFailure_leaves hjournals.noCrash hlive
    dsimp only
    split
    · exact ⟨rfl, rfl, nofun, fun _ _ => rfl, nofun⟩
    · rename_i hhandled
      rw [hhandled] at hleaves
      exact ⟨rfl, rfl, fun _ => hleaves.2, fun _ _ => rfl, fun _ => .inl hleaves.1⟩
    · rename_i hhandled
      rw [hhandled] at hleaves
      refine ⟨rfl, rfl, fun _ => hleaves.2, fun k hk => update_of_ne hk _ _, ?_⟩
      dsimp only
      rw [update_self]
      exact fun _ => .inr ⟨hleaves.1.1, lt_max_of_lt_right hleaves.1.2⟩
    · rename_i hhandled
      rw [hhandled] at hleaves
      exact ⟨rfl, rfl, fun _ => hleaves.2, fun k hk => update_of_ne hk _ _,
        fun _ => .inl hleaves.1⟩

theorem Loop.Counted.dispatched (hl : l.Counted policy) (hrunning : l.stopped = false)
    (hid : ¬ Settled (l.projection.info id)) (hmem : id ∈ l.runnable.map (·.mote.id))
    (hnext : l.Dispatched policy id l') : l'.Counted policy := by
  obtain ⟨hcount, hbelow⟩ := hl.attempts hrunning id hid
  have hcounts : ∀ k, l'.dispatched.count k = l.dispatched.count k + if k = id then 1 else 0 := by
    intro k
    rw [hnext.dispatched, count_cons]
    by_cases heq : id = k
    · simp [heq]
    · simp [heq, Ne.symm heq]
  refine ⟨?_, ?_, ?_⟩
  · rw [hnext.runnable, hnext.dispatched]
    intro k hk
    rcases mem_cons.1 hk with rfl | hk
    · exact hmem
    · exact hl.runnable k hk
  · intro k
    have hk := hl.count k
    rw [hcounts]
    split
    · rename_i heq
      rw [heq]
      omega
    · exact hk
  · intro hrunning' k hk
    rw [hcounts]
    split
    · rename_i heq
      subst heq
      rcases hnext.self hrunning' with hsettled | ⟨hmore, hleft⟩
      · exact absurd hsettled hk
      · omega
    · rename_i hne
      rw [hnext.others k hne]
      exact hl.attempts hrunning k fun hsettled => hk (hnext.kept hrunning' k hsettled)

variable {runnable : List WorkflowMote}

theorem picked_of_pickNext (hpick : pickNext runnable s verdicts = some action) :
    action.workflowMote ∈ runnable ∧
      isTerminal (s.stateOfId action.workflowMote.mote.id) = false := by
  obtain ⟨w, hw, haction⟩ := exists_of_findSome?_eq_some hpick
  have hpicked : action.workflowMote = w ∧ isTerminal (s.stateOfId w.mote.id) = false := by
    unfold actionFor at haction
    grind [Action.workflowMote]
  rw [hpicked.1]
  exact ⟨hw, hpicked.2⟩

theorem Loop.Counted.pass (hl : l.Counted policy) (hpass : Pass materializer policy l l') :
    l'.Counted policy := by
  cases hpass with
  | dispatch hrunning hpick hjournals =>
    obtain ⟨hmem, hlive⟩ := picked_of_pickNext hpick
    rw [stateOfId_eq_state, isTerminal_eq_false] at hlive
    obtain ⟨hderived, hstopped⟩ := hl.derive _
    exact hderived.dispatched (hstopped.trans hrunning) hlive.1 (mem_map_of_mem hmem)
      (dispatched_dispatch hjournals hlive.2)

theorem counted_run
    (hrun : ReflTransGen (Pass materializer policy) { runnable, projection := s } l) :
    l.Counted policy := by
  induction hrun with
  | refl => exact ⟨by simp, by simp, fun _ _ _ => ⟨rfl, lt_max_of_lt_left Nat.one_pos⟩⟩
  | tail _ hpass ih => exact ih.pass hpass

/-- In every run each runnable Mote, the children of the shaper included, is dispatched at
most as often as the larger of one and `max_attempts`. -/
theorem dispatches_bounded {runnable : List WorkflowMote}
    (hrun : ReflTransGen (Pass materializer policy) { runnable, projection := s } l) :
    l.dispatched.length ≤ l.runnable.length * max 1 policy.maxAttempts.toNat := by
  have hcounted := counted_run hrun
  have hsubset : l.dispatched.toFinset ⊆ (l.runnable.map (·.mote.id)).toFinset := by
    intro id hid
    rw [mem_toFinset] at hid ⊢
    exact hcounted.runnable id hid
  have hcard : l.dispatched.toFinset.card ≤ l.runnable.length := by
    have hids := toFinset_card_le (l.runnable.map (·.mote.id))
    rw [length_map] at hids
    exact (Finset.card_le_card hsubset).trans hids
  calc l.dispatched.length
      = ∑ id ∈ l.dispatched.toFinset, l.dispatched.count id :=
        (sum_toFinset_count_eq_length _).symm
    _ ≤ l.dispatched.toFinset.card * max 1 policy.maxAttempts.toNat :=
        Finset.sum_le_card_nsmul _ _ _ fun id _ => hcounted.count id
    _ ≤ _ := Nat.mul_le_mul_right _ hcard

/-- A first dispatch that fails before anything is journaled. -/
theorem dispatches_bounded_sender :
    ∃ l, ReflTransGen (Pass none ⟨3⟩)
        { runnable := [sender], projection := afterFolding [] } l ∧
      l.dispatched = [sender.mote.id] ∧ l.dispatched.length ≤ l.runnable.length * 3 := by
  have hpass : Pass none ⟨3⟩ { runnable := [sender], projection := afterFolding [] } _ :=
    .dispatch (a := { failure := some ⟨.transientInfra, ""⟩ }) rfl rfl ⟨nofun, nofun⟩
  exact ⟨_, .single hpass, rfl, dispatches_bounded (.single hpass)⟩

end Counting

/-- The Mote is pending or may be run again as it is: it runs in the process, staged its
effect, or was never proposed. -/
def Resumable (w : WorkflowMote) (info : MoteInfo) : Prop :=
  w.runsInProcess = true ∨ info.effectStagedObserved = true ∨ info.hasProposed = false

def ParentsAdmit (s : State) (verdicts : VerdictLookup) (id : MoteId) : Prop :=
  (s.info id).declared.any (fun d => d.parents.all
    (admits s (fun s id => s.promotionStateWith id verdicts) d.criticFor)) = true

theorem eligible_iff_resumable {w : WorkflowMote}
    (hlive : isTerminal (s.stateOfId w.mote.id) = false)
    (hparents : ParentsAdmit s verdicts w.mote.id) :
    Eligible s verdicts w ↔ Resumable w (s.info w.mote.id) := by
  have hready : w.mote.id ∈ s.readySetPromoted verdicts ↔ s.stateOfId w.mote.id = .pending := by
    refine ⟨stateOfId_of_mem_readySetPromoted, fun hpending => (mem_readySetImplWith _ _).2 ?_⟩
    unfold isReady
    rw [Bool.and_eq_true, decide_eq_true_eq]
    exact ⟨hpending, hparents⟩
  unfold Eligible Resumable
  rw [hready]
  cases hstate : s.stateOfId w.mote.id with
  | pending =>
    rw [stateOfId_eq_state, MoteInfo.state_eq_pending] at hstate
    obtain ⟨-, -, -, hstaged | ⟨-, hfresh⟩⟩ := hstate
    · simp [hstaged]
    · simp [hfresh]
  | scheduled =>
    rw [stateOfId_eq_state, MoteInfo.state_eq_scheduled] at hstate
    simp [hstate.2.2.2.1, hstate.2.2.2.2.2]
  | _ =>
    rw [hstate] at hlive
    cases hlive

/-- A Mote that is to be tried again, with parents that admit it, can be picked again exactly if
it is resumable. In every run no Mote is dispatched more often than the policy allows, and no
resumable one is left over when nothing can be picked. -/
theorem retry_honoured (materializer : Option TopologyMaterializer) (policy : FailurePolicy) :
    (∀ w failure journaled appended s attempts s' n verdicts,
      handleFailure materializer policy w.mote.id failure journaled appended s attempts =
          .retry s' n →
        ParentsAdmit s' verdicts w.mote.id →
        (actionFor s' (s'.readySetPromoted verdicts) w ≠ none ↔
          Resumable w (s'.info w.mote.id))) ∧
      ∀ runnable s l,
        ReflTransGen (Pass materializer policy) { runnable, projection := s } l →
        (∀ id, l.dispatched.count id ≤ max 1 policy.maxAttempts.toNat) ∧
          ∀ verdicts, pickNext l.runnable l.projection verdicts = none → ∀ w ∈ l.runnable,
            Resumable w (l.projection.info w.mote.id) →
            ParentsAdmit l.projection verdicts w.mote.id →
            isTerminal (l.projection.stateOfId w.mote.id) = true := by
  refine ⟨?_, fun runnable s l hrun => ⟨(counted_run hrun).count, ?_⟩⟩
  · intro w failure journaled appended s attempts s' n verdicts hretry hparents
    have hlive : isTerminal (s'.stateOfId w.mote.id) = false := by
      unfold handleFailure at hretry
      grind
    rw [Ne, actionFor_spec.1, not_not]
    exact eligible_iff_resumable hlive hparents
  · intro verdicts hnone w hw hresumable hparents
    by_contra hlive
    have hskipped := List.findSome?_eq_none_iff.1 hnone w hw
    exact actionFor_spec.1.1 hskipped
      ((eligible_iff_resumable (Bool.eq_false_of_not_eq_true hlive) hparents).2 hresumable)

/-- A sender whose effect was staged when the dispatch failed is picked again. -/
theorem retry_honoured_stagedSender :
    ∃ s', handleFailure none ⟨3⟩ sender.mote.id ⟨.transientInfra, ""⟩
        [proposedSender, stagedSender] none (registerMote {} senderRegistration) 0 = .retry s' 1 ∧
      ParentsAdmit s' noVerdicts sender.mote.id ∧
      Resumable sender (s'.info sender.mote.id) ∧
      actionFor s' (s'.readySetPromoted noVerdicts) sender ≠ none := by
  obtain ⟨s', hretry, hparents, hstaged⟩ : ∃ s', handleFailure none ⟨3⟩ sender.mote.id
      ⟨.transientInfra, ""⟩ [proposedSender, stagedSender] none
      (registerMote {} senderRegistration) 0 = .retry s' 1 ∧
      ParentsAdmit s' noVerdicts sender.mote.id ∧
      (s'.info sender.mote.id).effectStagedObserved = true := ⟨_, rfl, rfl, rfl⟩
  have hresumable : Resumable sender (s'.info sender.mote.id) := .inr (.inl hstaged)
  have hpicked := (retry_honoured none ⟨3⟩).1 sender _ _ _ _ _ _ _ noVerdicts hretry hparents
  exact ⟨s', hretry, hparents, hresumable, hpicked.2 hresumable⟩

/-- A sender that relies on the remote side to recognise a repeated call. -/
def tokenSender : WorkflowMote :=
  { sender with mote := { sender.mote with «def» :=
    { sender.mote.def with effectPattern := .idempotentByConstruction } } }

/-- The dispatch failed at the broker, which may be tried again, once the Mote was
proposed: it is to be retried, and nothing picks it. -/
theorem retried_sender_stuck :
    ∃ s', handleFailure none ⟨3⟩ tokenSender.mote.id ⟨.transientInfra, ""⟩ [proposedSender] none
        (registerMote {} (tokenSender.registration fun _ => ⟨.replicate 32 0⟩)) 0 =
          .retry s' 1 ∧
      ParentsAdmit s' noVerdicts tokenSender.mote.id ∧
      s'.stateOfId tokenSender.mote.id = .scheduled ∧
      pickNext [tokenSender] s' noVerdicts = none :=
  ⟨_, rfl, rfl, rfl, rfl⟩

end Kortecx.Runtime
