import Kortecx.Mote.Definition
import Kortecx.Projection.ReadySet
import Kortecx.Projection.Redispatch

/-!
The single-process drive loop's choice of the next Mote. A Mote that staged its effect and
never committed should be taken up through recovery, which asks the redispatch oracle
first. The choice tests for a Mote in flight by its state, and the state of a staged Mote
is not the one it tests for: the recovery branch is never taken.
-/

namespace Kortecx.Runtime

open Lib Mote Journal Projection Warrant

structure WorkflowMote where
  mote : Mote
  warrant : WarrantSpec
  capability : ToolName

inductive Action where
  | runPure (w : WorkflowMote)
  | runNativeCritic (w : WorkflowMote)
  | runWm (wm : WorkflowMote) (recover : Bool)

def isTerminal : MoteState → Bool
  | .committed | .failed | .repudiated | .inconsistent => true
  | .pending | .scheduled => false

section PickNext

variable (s : State) (ready : List MoteId)

/-- One turn of the loop over the runnable Motes. -/
def actionFor (w : WorkflowMote) : Option Action :=
  let id := w.mote.id
  let state := s.stateOfId id
  if isTerminal state then none
  else
    let inReady := ready.contains id
    let scheduled := state == .scheduled
    if w.mote.def.criticCheck.isSome then
      if inReady || scheduled then some (.runNativeCritic w) else none
    else if w.mote.ndClass = .pure then
      if inReady || scheduled then some (.runPure w) else none
    else if inReady then some (.runWm w false)
    else if scheduled && s.canRedispatchWorldEffectId id then some (.runWm w true)
    else none

end PickNext

def pickNext (runnable : List WorkflowMote) (s : State) (verdicts : VerdictLookup) :
    Option Action :=
  runnable.findSome? (actionFor s (s.readySetPromoted verdicts))

/-- The declaration `Scheduler::submit` makes for a Mote. -/
def WorkflowMote.registration (warrantRefOf : WarrantSpec → ContentRef) (w : WorkflowMote) :
    RegisterMote where
  moteId := w.mote.id
  ndClass := w.mote.def.ndClass
  effectPattern := w.mote.def.effectPattern
  criticFor := w.mote.def.criticFor
  isTopologyShaper := w.mote.def.isTopologyShaper
  parents := w.mote.parents
  warrantRef := warrantRefOf w.warrant

/-- The projections the loop can hold: the entries `es` were folded one after the other,
and Motes were declared at any time in between. -/
inductive Projected (materializer : Option TopologyMaterializer) :
    List JournalEntry → State → Prop where
  | new : Projected materializer [] {}
  | fold {es : List JournalEntry} {s s' : State} {e : JournalEntry} {seq : UInt64}
      (hprojected : Projected materializer es s)
      (hfold : fold materializer s e = (s', .ok seq)) :
      Projected materializer (es ++ [e]) s'
  | register {es : List JournalEntry} {s : State} (reg : RegisterMote)
      (hprojected : Projected materializer es s) :
      Projected materializer es (registerMote s reg)

variable {materializer : Option TopologyMaterializer} {es : List JournalEntry}

/-- The flags of a Mote speak of the folded entries, whatever was declared. -/
theorem Projected.tracks {s : State} (hprojected : Projected materializer es s) (id : MoteId) :
    Tracks id es (s.info id) := by
  induction hprojected with
  | new => exact Tracks.default
  | fold _ hfold ih => exact ih.concat (advances_fold hfold)
  | register reg _ ih => exact ih.of_undeclared (undeclared_registerMote _ reg id)

/-- The Mote is run by the engine itself and has no effect on the world. -/
def WorkflowMote.runsInProcess (w : WorkflowMote) : Bool :=
  w.mote.def.criticCheck.isSome || w.mote.ndClass = .pure

section PickNextSpec

variable {s : State} {verdicts : VerdictLookup} {runnable : List WorkflowMote} {w wm : WorkflowMote}
  {recover : Bool} {id : MoteId}

/-- A scheduled Mote has staged no effect, so recovery may not dispatch it. -/
theorem not_canRedispatch_of_scheduled (hscheduled : s.stateOfId id = .scheduled) :
    s.canRedispatchWorldEffectId id = false := by
  rw [State.stateOfId_eq_state, MoteInfo.state_eq_scheduled] at hscheduled
  apply Bool.eq_false_of_not_eq_true
  rw [State.canRedispatchWorldEffectId_iff]
  rintro ⟨hstaged, _⟩
  rw [hscheduled.2.2.2.1] at hstaged
  cases hstaged

theorem stateOfId_of_mem_readySetPromoted
    (hready : id ∈ s.readySetPromoted verdicts) : s.stateOfId id = .pending := by
  have hisReady := (mem_readySetImplWith _ _).1 hready
  unfold isReady at hisReady
  simp only [Bool.and_eq_true, decide_eq_true_eq] at hisReady
  exact hisReady.1

/-- The loop stops at this Mote: it is ready, or it was left in flight and can be run
again from nothing. -/
def Eligible (s : State) (verdicts : VerdictLookup) (w : WorkflowMote) : Prop :=
  w.mote.id ∈ s.readySetPromoted verdicts ∨
    w.runsInProcess = true ∧ s.stateOfId w.mote.id = .scheduled

/-- A Mote is passed over unless it is eligible. The world is entered for a ready Mote only, and
always as for the first time. -/
theorem actionFor_spec :
    (actionFor s (s.readySetPromoted verdicts) w = none ↔ ¬ Eligible s verdicts w) ∧
    ∀ wm recover, actionFor s (s.readySetPromoted verdicts) w = some (.runWm wm recover) ↔
      w = wm ∧ recover = false ∧ w.runsInProcess = false ∧
        w.mote.id ∈ s.readySetPromoted verdicts := by
  unfold actionFor Eligible WorkflowMote.runsInProcess
  by_cases hready : w.mote.id ∈ s.readySetPromoted verdicts
  · have hpending := stateOfId_of_mem_readySetPromoted hready
    simp only [hready, hpending, isTerminal]
    grind
  by_cases hscheduled : s.stateOfId w.mote.id = .scheduled
  · simp only [hready, hscheduled, isTerminal, not_canRedispatch_of_scheduled hscheduled]
    grind
  · grind

theorem pickNext_eq_runWm :
    pickNext runnable s verdicts = some (.runWm wm recover) ↔
      recover = false ∧ wm.runsInProcess = false ∧
        wm.mote.id ∈ s.readySetPromoted verdicts ∧
        ∃ before after, runnable = before ++ wm :: after ∧
          ∀ w ∈ before, ¬ Eligible s verdicts w := by
  unfold pickNext
  rw [List.findSome?_eq_some_iff]
  constructor
  · rintro ⟨before, w, after, hrunnable, haction, hpassed⟩
    obtain ⟨rfl, hrecover, hworld, hready⟩ := (actionFor_spec.2 _ _).1 haction
    exact ⟨hrecover, hworld, hready, before, after, hrunnable,
      fun w hw => actionFor_spec.1.1 (hpassed w hw)⟩
  · rintro ⟨hrecover, hworld, hready, before, after, hrunnable, hpassed⟩
    exact ⟨before, wm, after, hrunnable, (actionFor_spec.2 _ _).2
      ⟨rfl, hrecover, hworld, hready⟩,
      fun w hw => actionFor_spec.1.2 (hpassed w hw)⟩

end PickNextSpec

def StagedUncommitted (es : List JournalEntry) (id : MoteId) : Prop :=
  es.any (stages id) ∧ ¬ es.any (commits id)

/-- A staged Mote that is ready is one the oracle lets recovery dispatch. -/
theorem Projected.redispatchable_iff {s : State} (hprojected : Projected materializer es s)
    {id : MoteId}
    (hpending : s.stateOfId id = .pending) : StagedUncommitted es id ↔ Redispatchable id es := by
  have htracks := hprojected.tracks id
  rw [State.stateOfId_eq_state, MoteInfo.state_eq_pending] at hpending
  obtain ⟨hinconsistent, _, hterminal, _⟩ := hpending
  have hnotFailed : ¬ Occurs (FailsUncommitted id) es := by
    rw [← htracks.terminal, hterminal]
    exact Bool.false_ne_true
  have hnotRepudiated : ¬ Occurs (RepudiatesStaged id) es := by
    rw [← htracks.inconsistent, hinconsistent]
    exact Bool.false_ne_true
  constructor
  · rintro ⟨hstaged, huncommitted⟩
    exact ⟨hstaged, huncommitted, hnotFailed, hnotRepudiated⟩
  · rintro ⟨hstaged, huncommitted, _⟩
    exact ⟨hstaged, huncommitted⟩

/-- The engine re-drives a staged effect through recovery only as long as it never comes to
a staged Mote: as soon as the first Mote it can act on is one that recovery may dispatch,
it runs that Mote as a fresh one. -/
theorem pickNext_recovers_iff {materializer : Option TopologyMaterializer}
    {es : List JournalEntry} {s : State} (hprojected : Projected materializer es s)
    (runnable : List WorkflowMote) (verdicts : VerdictLookup) :
    (∀ wm recover, pickNext runnable s verdicts = some (.runWm wm recover) →
        StagedUncommitted es wm.mote.id → recover = true) ↔
      ∀ before wm after, runnable = before ++ wm :: after →
        (∀ w ∈ before, ¬ Eligible s verdicts w) → wm.runsInProcess = false →
        wm.mote.id ∈ s.readySetPromoted verdicts → ¬ Redispatchable wm.mote.id es := by
  constructor
  · intro hrecovers before wm after hrunnable hpassed hworld hready hredispatchable
    have hpick : pickNext runnable s verdicts = some (.runWm wm false) :=
      pickNext_eq_runWm.2 ⟨rfl, hworld, hready, before, after, hrunnable, hpassed⟩
    have hpending := stateOfId_of_mem_readySetPromoted hready
    have hstaged := (hprojected.redispatchable_iff hpending).2 hredispatchable
    exact Bool.false_ne_true (hrecovers wm false hpick hstaged)
  · intro hnone wm recover hpick hstaged
    obtain ⟨_, hworld, hready, before, after, hrunnable, hpassed⟩ := pickNext_eq_runWm.1 hpick
    have hpending := stateOfId_of_mem_readySetPromoted hready
    have hredispatchable := (hprojected.redispatchable_iff hpending).1 hstaged
    exact absurd hredispatchable (hnone before wm after hrunnable hpassed hworld hready)

def sender : WorkflowMote where
  mote :=
    { id := stagedMote
      «def» :=
        { logicRef := .replicate 32 0
          modelId := ""
          promptTemplateHash := .replicate 32 0
          ndClass := .worldMutating
          effectPattern := .stageThenCommit
          schemaVersion := 5 }
      inputDataId := .replicate 32 0
      graphPosition := []
      parents := [] }
  warrant := {}
  capability := "send"

def senderRegistration : RegisterMote :=
  sender.registration fun _ => ⟨.replicate 32 0⟩

def afterFolding (es : List JournalEntry) : State :=
  registerMote (foldMany none {} es).1 senderRegistration

/-- The attempt before the crash. -/
def proposedSender : JournalEntry :=
  .proposed ⟨stagedMote, .replicate 32 3, 1, .worldMutating, 0, ⟨.replicate 32 0⟩⟩

def stagedSender : JournalEntry :=
  .effectStaged ⟨stagedMote, .replicate 32 3, 2⟩

/-- The journal of a process that died between staging the effect and committing it. -/
theorem pickNext_not_recovers :
    Projected none [proposedSender, stagedSender] (afterFolding [proposedSender, stagedSender]) ∧
      ¬ ∀ wm recover,
        pickNext [sender] (afterFolding [proposedSender, stagedSender]) noVerdicts =
            some (.runWm wm recover) →
          StagedUncommitted [proposedSender, stagedSender] wm.mote.id → recover = true := by
  have hproposed : Projected none [proposedSender] _ := .fold .new rfl
  have hstaged : Projected none ([proposedSender] ++ [stagedSender]) _ := .fold hproposed rfl
  refine ⟨.register senderRegistration hstaged, ?_⟩
  intro hrecovers
  have hpick : pickNext [sender] (afterFolding [proposedSender, stagedSender]) noVerdicts =
      some (.runWm sender false) := rfl
  exact Bool.false_ne_true (hrecovers sender false hpick ⟨by decide, by decide⟩)

def helper : WorkflowMote :=
  { sender with mote := { sender.mote with
    id := ⟨.replicate 32 9⟩
    «def» := { sender.mote.def with ndClass := .pure } } }

/-- The staged Mote is ready, but a Mote before it is picked. -/
theorem pickNext_recovers_iff_helper :
    let es := [proposedSender, stagedSender]
    let s := registerMote (afterFolding es) (helper.registration fun _ => ⟨.replicate 32 0⟩)
    Projected none es s ∧ StagedUncommitted es sender.mote.id ∧
      sender.mote.id ∈ s.readySetPromoted noVerdicts ∧
      ∀ before wm after, [helper, sender] = before ++ wm :: after →
        (∀ w ∈ before, ¬ Eligible s noVerdicts w) → wm.runsInProcess = false →
        wm.mote.id ∈ s.readySetPromoted noVerdicts → ¬ Redispatchable wm.mote.id es := by
  intro es s
  have hproposed : Projected none [proposedSender] _ := .fold .new rfl
  have hstaged : Projected none es _ := .fold hproposed rfl
  have hprojected : Projected none es s := .register _ (.register _ hstaged)
  have hpick : pickNext [helper, sender] s noVerdicts = some (.runPure helper) := rfl
  refine ⟨hprojected, ⟨by decide, by decide⟩, of_decide_eq_true rfl,
    (pickNext_recovers_iff hprojected _ noVerdicts).1 ?_⟩
  intro wm recover hworld
  cases hpick.symm.trans hworld

end Kortecx.Runtime
