import Kortecx.Executor.Ordering
import Kortecx.Lib.ProgramRun
import Mathlib.Data.Finset.Insert

/-!
The resource slot a dispatch holds. The manager numbers the slots it hands out and remembers
which are outstanding; every way out of a dispatch has to give its slot back. The journal, the
content store and the broker are an arbitrary handler, so that any of their calls may fail.
-/

namespace Kortecx.Executor

open Lib Mote Journal Program Lib.Program Warrant

/-- The state of a `LocalResourceManager`. Its lock is never poisoned. -/
structure LocalResourceState where
  cpuCapMilli : UInt32
  memCapBytes : UInt64
  fdCap : UInt32
  nextSlotId : UInt64 := 1
  outstanding : Finset UInt64 := ∅

namespace LocalResourceState

variable (m : LocalResourceState)

def acquire (ceiling : ResourceCeiling) : Except ResourceError ResourceSlot × LocalResourceState :=
  let ⟨cpu, mem, _, fds, _⟩ := ceiling
  let ⟨cpuCap, memCap, fdCap, id, _⟩ := m
  if cpu > cpuCap then
    (.error ⟨s!"cpu cap exceeded: requested {cpu} milli, cap {cpuCap}"⟩, m)
  else if mem > memCap then
    (.error ⟨s!"memory cap exceeded: requested {mem} bytes, cap {memCap}"⟩, m)
  else if fds > fdCap then
    (.error ⟨s!"fd cap exceeded: requested {fds}, cap {fdCap}"⟩, m)
  else
    -- The numbers saturate.
    let next := if id = 0xffffffffffffffff then id else id + 1
    (.ok id, { m with nextSlotId := next, outstanding := insert id m.outstanding })

def release (slot : ResourceSlot) : Except ResourceError Unit × LocalResourceState :=
  if slot ∈ m.outstanding then (.ok (), { m with outstanding := m.outstanding.erase slot })
  else (.error ⟨s!"unknown slot id {slot}"⟩, m)

theorem acquire_cases (ceiling : ResourceCeiling) :
    (∃ err, m.acquire ceiling = (.error err, m)) ∨
      (m.acquire ceiling).1 = .ok m.nextSlotId ∧
        (m.acquire ceiling).2.outstanding = insert m.nextSlotId m.outstanding := by
  unfold acquire
  dsimp only
  split
  · exact .inl ⟨_, rfl⟩
  split
  · exact .inl ⟨_, rfl⟩
  split
  · exact .inl ⟨_, rfl⟩
  · exact .inr ⟨rfl, rfl⟩

theorem outstanding_release (slot : ResourceSlot) :
    (m.release slot).2.outstanding = m.outstanding.erase slot := by
  unfold release
  split
  · rfl
  · rename_i hunknown
    exact (Finset.erase_eq_of_notMem hunknown).symm

end LocalResourceState

section Slotless

def Effect.Slotless : Effect → Prop
  | .acquire _ | .release _ => False
  | _ => True

variable (input : CommitInput)

theorem slotless_commitResult :
    (commitResult input resultRef).Only Effect.Slotless := by
  apply (only_enforceR11 (fun _ => trivial) (fun _ => trivial)).bind
  intro verified
  split
  · exact only_pure _
  · apply Program.Only.call_bind trivial
    intro written
    split <;> exact only_pure _

theorem slotless_dispatchAndCommit : (dispatchAndCommit input).Only Effect.Slotless := by
  apply Program.Only.call_bind trivial
  intro dispatched
  split
  · exact only_pure _
  · exact slotless_commitResult input

theorem slotless_commit : (commit input).Only Effect.Slotless := by
  unfold commit
  split
  · exact slotless_dispatchAndCommit input
  · apply Program.Only.call_bind trivial
    intro staged
    split
    · exact only_pure _
    · exact slotless_dispatchAndCommit input
  · exact slotless_dispatchAndCommit input

theorem slotless_probeThenRedispatch : (probeThenRedispatch input).Only Effect.Slotless := by
  have hprobe : (tryCommitFromReadback input).Only Effect.Slotless := by
    apply Program.Only.call_bind trivial
    intro probed
    split
    · exact only_pure _
    · exact only_pure _
    · exact (slotless_commitResult input).bind fun _ => only_pure _
  apply hprobe.bind
  intro probed
  split
  · exact only_pure _
  · exact only_pure _
  · apply (slotless_commit input).bind
    intro committed
    split <;> exact only_pure _

end Slotless

section Bracket

variable {W α β : Type} {outer : Handler Effect Effect.Answer W} {slot : ResourceSlot}
  {p : Prog α} {f : α → Prog β} {w : W × LocalResourceState}

/-- The manager answers for its own calls and the outer handler for all others. -/
def withManager (outer : Handler Effect Effect.Answer W) :
    Handler Effect Effect.Answer (W × LocalResourceState)
  | .acquire ceiling, w => ((w.2.acquire ceiling).1, w.1, (w.2.acquire ceiling).2)
  | .release slot, w => ((w.2.release slot).1, w.1, (w.2.release slot).2)
  | e, w => ((outer e w.1).1, (outer e w.1).2, w.2)

/-- The slots that are out once the program has run. -/
abbrev outstandingAfter (outer : Handler Effect Effect.Answer W) (p : Prog α)
    (w : W × LocalResourceState) : Finset UInt64 :=
  (p.run (withManager outer) w).2.2.outstanding

/-- A program without slots runs as it does under the outer handler alone. -/
theorem run_withManager (hp : p.Only Effect.Slotless) (w : W × LocalResourceState) :
    p.run (withManager outer) w = ((p.run outer w.1).1, (p.run outer w.1).2, w.2) := by
  induction p generalizing w with
  | done a => rfl
  | perform e next ih =>
    have hstep : withManager outer e w = ((outer e w.1).1, (outer e w.1).2, w.2) := by
      cases e with
      | acquire => exact hp.1.elim
      | release => exact hp.1.elim
      | _ => rfl
    simp only [Program.run, hstep, ih _ (hp.2 _)]

theorem manager_of_slotless (hp : p.Only Effect.Slotless) (w : W × LocalResourceState) :
    (p.run (withManager outer) w).2.2 = w.2 := by
  rw [run_withManager hp]

/-- Whatever happens on the way, the program gives this slot back and touches no other. -/
def Frees (outer : Handler Effect Effect.Answer W) (slot : ResourceSlot) (p : Prog α) : Prop :=
  ∀ w, outstandingAfter outer p w = w.2.outstanding.erase slot

theorem Frees.after (hp : p.Only Effect.Slotless) (hf : ∀ a, Frees outer slot (f a)) :
    Frees outer slot (p >>= f) := by
  intro w
  rw [outstandingAfter, run_bind]
  exact (hf _ _).trans (by rw [manager_of_slotless hp])

theorem Frees.bind (hp : Frees outer slot p) (hf : ∀ a, (f a).Only Effect.Slotless) :
    Frees outer slot (p >>= f) := by
  intro w
  rw [outstandingAfter, run_bind, manager_of_slotless (hf _)]
  exact hp w

theorem frees_release : Frees outer slot (Program.call (Effect.release slot) : Prog _) :=
  fun w => w.2.outstanding_release slot

theorem frees_releaseAndFail :
    Frees outer slot (releaseAndFail slot err : Prog (Except LifecycleError α)) :=
  frees_release.bind fun _ => only_pure _

variable {mote : Mote}

theorem frees_settleCommitted :
    Frees outer slot (settleCommitted mote slot submissionMotes warrantRef label committedSeq) := by
  apply Frees.after (only_scheduleSiblingCritic (fun _ _ => trivial))
  intro scheduled
  split
  · exact frees_releaseAndFail
  apply Frees.after (only_readCommittedResultRef (fun _ => trivial) _)
  intro found
  split
  · exact frees_releaseAndFail
  apply frees_release.bind
  intro released
  split <;> exact only_pure _

/-- The slot that is taken is the one that what follows frees. -/
theorem outstanding_bracket {ceiling : ResourceCeiling}
    {body : Except ResourceError ResourceSlot → Prog α}
    (hfresh : w.2.nextSlotId ∉ w.2.outstanding)
    (hrefused : ∀ err, (body (.error err)).Only Effect.Slotless)
    (hheld : ∀ slot, Frees outer slot (body (.ok slot))) :
    outstandingAfter outer (Program.call (Effect.acquire ceiling) >>= body) w =
      w.2.outstanding := by
  rw [outstandingAfter, run_call_bind]
  simp only [withManager]
  rcases w.2.acquire_cases ceiling with ⟨err, hrefusal⟩ | ⟨hslot, htaken⟩
  · rw [hrefusal, manager_of_slotless (hrefused err)]
  · rw [hslot]
    apply (hheld _ _).trans
    rw [htaken]
    exact Finset.erase_insert hfresh

/-- The gate before the slot is taken. -/
theorem outstanding_serveIfCommitted {id : MoteId}
    {body : Except LifecycleError (Option (UInt64 × ContentRef)) → Prog α}
    (hfailed : ∀ err, (body (.error err)).Only Effect.Slotless)
    (hserved : ∀ served, (body (.ok (some served))).Only Effect.Slotless)
    (hrun : ∀ w', w'.2 = w.2 → outstandingAfter outer (body (.ok none)) w' = w'.2.outstanding) :
    outstandingAfter outer (serveIfCommitted id >>= body) w = w.2.outstanding := by
  have hmanager : ((serveIfCommitted id).run (withManager outer) w).2.2 = w.2 :=
    manager_of_slotless (only_serveIfCommitted (fun _ => trivial) id) w
  rw [outstandingAfter, run_bind, ← hmanager]
  generalize (serveIfCommitted id).run (withManager outer) w = result at hmanager
  obtain ⟨_ | _ | served, w'⟩ := result
  · rw [manager_of_slotless (hfailed _)]
  · exact hrun w' hmanager
  · rw [manager_of_slotless (hserved _)]

variable (host : Host)

variable (hfresh : w.2.nextSlotId ∉ w.2.outstanding)

include hfresh

theorem outstanding_runWmMote (call : WmCall) :
    outstandingAfter outer (runWmMote host call) w = w.2.outstanding := by
  dsimp only [runWmMote]
  split
  · rfl
  refine outstanding_serveIfCommitted (fun _ => only_pure _) (fun _ => only_pure _) ?_
  intro w' hw'
  refine outstanding_bracket (by rwa [hw']) (fun _ => only_pure _) ?_
  intro slot
  apply Frees.after (only_call (by trivial))
  intro proposed
  cases proposed with
  | error err => exact frees_releaseAndFail
  | ok _ =>
    apply Frees.after (slotless_commit _)
    intro committed
    cases committed with
    | error err => exact frees_releaseAndFail
    | ok committedSeq => exact frees_settleCommitted

theorem outstanding_redispatchWmMote (call : WmCall)
    (idempotencyClass : Option IdempotencyClass) (oracle : MoteId → Bool) :
    outstandingAfter outer (redispatchWmMote host call idempotencyClass oracle) w =
      w.2.outstanding := by
  dsimp only [redispatchWmMote]
  split
  · rfl
  split
  · rfl
  refine outstanding_bracket hfresh (fun _ => only_pure _) ?_
  intro slot
  dsimp only
  split
  · apply Frees.after (only_compensateOrQuarantine (fun _ => trivial) (fun _ => trivial) trivial
      fun _ _ => trivial)
    intro outcome
    exact frees_release.bind fun _ => only_pure _
  · apply Frees.after (slotless_probeThenRedispatch _)
    intro probed
    cases probed with
    | error err => exact frees_releaseAndFail
    | ok settled => exact frees_settleCommitted.bind fun _ => only_pure _

/-- Of a PURE Mote that is run to a result under a slot, the journal takes both entries. -/
def TakesEntries (outer : Handler Effect Effect.Answer W) (mote : Mote) (warrant : WarrantSpec)
    (runResult : Except MoteExecutorError ContentRef) (w : W × LocalResourceState) : Prop :=
  let served := (serveIfCommitted mote.id).run outer w.1
  mote.ndClass = .pure → served.1.toOption = some none →
    (w.2.acquire warrant.resourceCeiling).1.isOk → ∀ resultRef, runResult = .ok resultRef →
      let proposed := outer (.append (.proposed (proposedFor mote (host.warrantRefOf warrant))))
        served.2
      let committed := outer (.append (.committed (pureCommitted host mote warrant resultRef)))
        proposed.2
      proposed.1.isOk ∧ committed.1.isOk

/-- The slot of a PURE Mote is given back exactly if the journal takes what is written while it
is held. -/
theorem outstanding_runPureMote (warrant : WarrantSpec)
    (runResult : Except MoteExecutorError ContentRef) :
    outstandingAfter outer (runPureMote host mote warrant runResult) w = w.2.outstanding ↔
      TakesEntries host outer mote warrant runResult w := by
  have hkept : insert w.2.nextSlotId w.2.outstanding ≠ w.2.outstanding := fun h =>
    hfresh (h ▸ Finset.mem_insert_self ..)
  unfold TakesEntries
  dsimp only [runPureMote]
  split
  · rename_i hclass
    exact ⟨fun _ hpure => absurd hpure hclass, fun _ => rfl⟩
  have hpure : mote.ndClass = .pure := by
    rename_i hclass
    exact not_not.1 hclass
  rw [outstandingAfter, run_bind, run_withManager (only_serveIfCommitted (fun _ => trivial) _)]
  generalize (serveIfCommitted mote.id).run outer w.1 = served
  obtain ⟨_ | _ | _, w₁⟩ := served
  · exact ⟨fun _ _ => nofun, fun _ => rfl⟩
  · dsimp only
    rw [run_call_bind]
    simp only [withManager]
    rcases w.2.acquire_cases warrant.resourceCeiling with ⟨err, hrefusal⟩ | ⟨hslot, htaken⟩
    · rw [hrefusal]
      exact ⟨fun _ _ _ => nofun, fun _ => rfl⟩
    rw [hslot]
    cases runResult with
    | error err =>
      refine ⟨fun _ _ _ _ => nofun, fun _ => (frees_releaseAndFail _).trans ?_⟩
      rw [htaken, Finset.erase_insert hfresh]
    | ok resultRef =>
      simp only [Except.ok.injEq, forall_eq', run_call_bind, withManager]
      generalize outer (.append (.proposed _)) w₁ = proposed
      obtain ⟨_ | _, w₂⟩ := proposed
      · exact ⟨fun h => absurd (htaken.symm.trans h) hkept, fun h => nomatch (h hpure rfl rfl).1⟩
      simp only [run_call_bind, withManager]
      generalize outer (.append (.committed _)) w₂ = committed
      obtain ⟨_ | written, w₃⟩ := committed
      · exact ⟨fun h => absurd (htaken.symm.trans h) hkept, fun h => nomatch (h hpure rfl rfl).2⟩
      refine ⟨fun _ _ _ _ => ⟨rfl, rfl⟩, fun _ => (Frees.bind frees_release ?_ _).trans ?_⟩
      · intro released
        cases released <;> exact only_pure _
      · rw [htaken, Finset.erase_insert hfresh]
  · exact ⟨fun _ _ => nofun, fun _ => rfl⟩

omit hfresh in
/-- Whatever fails, a dispatch leaves the outstanding slots as it found them: of a Mote that is
not PURE under every journal, of a PURE one exactly if the journal takes what is written while
the slot is held. The number of the slot must not be out already. -/
theorem outstanding_unchanged (outer : Handler Effect Effect.Answer W) (w : W × LocalResourceState)
    (hfresh : w.2.nextSlotId ∉ w.2.outstanding) :
    (∀ call, outstandingAfter outer (runWmMote host call) w = w.2.outstanding) ∧
      (∀ call idempotencyClass oracle,
        outstandingAfter outer (redispatchWmMote host call idempotencyClass oracle) w =
          w.2.outstanding) ∧
      ∀ mote warrant runResult,
        outstandingAfter outer (runPureMote host mote warrant runResult) w = w.2.outstanding ↔
          TakesEntries host outer mote warrant runResult w := by
  refine ⟨outstanding_runWmMote host hfresh, outstanding_redispatchWmMote host hfresh, ?_⟩
  intro mote warrant runResult
  exact outstanding_runPureMote host hfresh warrant runResult

end Bracket

def journalOnly (takes : Bool) : Handler Effect Effect.Answer Unit
  | .acquire _, w => (.error ⟨""⟩, w)
  | .release _, w => (.error ⟨""⟩, w)
  | .readCommitted _, w => (.ok none, w)
  | .append e, w => (if takes then .ok e else .error .sqlite, w)
  | .dispatch _, w => (.error ⟨"", "", true⟩, w)
  | .probeReadback _, w => (.ok none, w)
  | .compensate _, w => (.ok none, w)
  | .contains _, w => (true, w)
  | .get _, w => (true, w)

def pureMote : Mote :=
  { sendCall.mote with «def» := { sendCall.mote.def with ndClass := .pure } }

def idleManager : LocalResourceState :=
  ⟨0xffffffff, 0xffffffffffffffff, 0xffffffff, 1, ∅⟩

theorem outstanding_unchanged_pureMote :
    idleManager.nextSlotId ∉ idleManager.outstanding ∧
      outstandingAfter (journalOnly true)
        (runPureMote sampleHost pureMote {} (.ok ⟨.replicate 32 0⟩)) ((), idleManager) =
          ∅ :=
  ⟨by decide, (outstanding_unchanged sampleHost (journalOnly true) ((), idleManager)
    (by decide)).2.2 pureMote {} _ |>.2 fun _ _ _ _ _ => ⟨rfl, rfl⟩⟩

/-- The journal refuses the proposal, and the slot stays out. -/
theorem runPureMote_keeps_slot :
    outstandingAfter (journalOnly false)
      (runPureMote sampleHost pureMote {} (.ok ⟨.replicate 32 0⟩)) ((), idleManager) =
        {1} := by
  decide +kernel

end Kortecx.Executor
