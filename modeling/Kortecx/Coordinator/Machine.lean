import Kortecx.Coordinator.Commands

/-!
The owner thread's loop. It starts by folding the journal and taking up what was in flight;
then it takes commands from its inbox, a batch at a time, and runs the settle passes after
each batch. The process may end after any effect: then the journal is all that is left, and
the next process starts from it.
-/

namespace Kortecx.Coordinator

open Lib Mote Journal Projection Warrant Std

def MAX_DRAIN : Nat := 256

/-- What the loop does between two looks at what lies outside. -/
inductive Action where
  | recover
  | flush (pending : List CommitProposal)
  | command (command : Command)
  | settle

/-- The loop over a batch of commands. Commits that follow each other are collected and
flushed before the next command, and at the end. -/
def plan : List CommitProposal → List Command → List Action
  | pending, [] => [.flush pending, .settle]
  | pending, .commit proposal :: commands => plan (pending ++ [proposal]) commands
  | pending, command :: commands => .flush pending :: .command command :: plan [] commands

section Recovery

variable {J : Backend}

def emptyDispatch (submitted : ExtTreeSet MoteId) : Dispatch where
  submitted := submitted
  defs := ∅
  tracker := .new
  parked := fun _ => ∅
  armedTimers := ∅
  defs_keyed := by simp

/-- `recover`, and the state of a process that starts from it. Every Mote the fold knows
counts as admitted. -/
def recover (journal : J.State) (outside : Outside) : Option (Core J) :=
  match fromJournal J journal, J.currentSeq journal with
  | .ok projection, .ok foldedThrough =>
    some {
      journal
      projection
      foldedThrough
      dispatch := emptyDispatch (.ofList projection.iterMotes)
      scheduled := ∅
      reactCache := {}
      outside }
  | _, _ => none

def rearmTimers : Coord J Unit := do
  let w ← look
  let pending := w.projection.timers.filter fun t =>
    !isTerminal (w.projection.stateOfId t.subjectMoteId)
  Program.forEach pending fun t =>
    update (.arm t.subjectMoteId ⟨t.fireAtUnixMs, t.purpose, t.attempt⟩)

end Recovery

namespace Platform

variable (P : Platform) {J : Backend}

def recoverInFlight : Coord J Unit := do
  routine P.recoverReplanChain
  routine P.recoverRerankChain
  routine P.settleChatRagReranks
  P.recoverReactChain
  rearmTimers

def act : Action → Coord J Reply
  | .recover => do
    P.recoverInFlight
    return .none
  | .flush pending => do return .committed (← P.flushCommits pending)
  | .command command => P.handleCommand command
  | .settle => do
    P.runSettlePasses
    return .none

end Platform

/-- The coordinator is down, with its journal; or up, with what the loop has still to do
before it looks at its inbox again. -/
inductive Moment (J : Backend) where
  | down (journal : J.State)
  | up (w : Core J) (todo : List Action)

namespace Core

variable {J : Backend}

/-- What lies outside has changed. -/
def facing (w : Core J) (outside : Outside) : Core J :=
  { w with outside }

end Core

section Steps

variable (P : Platform) (J : Backend)

abbrev Platform.handler : Handler Effect (Effect.Answer J) (Core J) :=
  perform P.ids.blake3 J

/-- One step, all of whose effects satisfy `Q`. -/
inductive Step (Q : Core J → Effect → Prop) : Moment J → Moment J → Prop
  | boot {journal outside w} (hrecover : recover journal outside = some w) :
      Step Q (.down journal) (.up w [.recover])
  | drain {w} (commands : List Command) (hsome : commands ≠ [])
      (hbound : commands.length ≤ MAX_DRAIN) :
      Step Q (.up w []) (.up w (plan [] commands))
  | act {w todo} (action : Action) (outside : Outside)
      (hlawful : (P.act action).Along (P.handler J) Q (w.facing outside)) :
      Step Q (.up w (action :: todo))
        (.up ((P.act action).run (P.handler J) (w.facing outside)).2 todo)
  | crash {w todo w'} (action : Action) (outside : Outside)
      (hduring : (P.act action).During (P.handler J) Q (w.facing outside) w') :
      Step Q (.up w (action :: todo)) (.down w'.journal)
  | stop {w} : Step Q (.up w []) (.down w.journal)

/-- The moments a coordinator comes to, from an empty journal, by steps that satisfy `Q`. -/
def Reaches (Q : Core J → Effect → Prop) (moment : Moment J) : Prop :=
  Relation.ReflTransGen (Step P J Q) (.down J.new) moment

end Steps

end Kortecx.Coordinator
