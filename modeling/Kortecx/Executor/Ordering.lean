import Kortecx.Executor.Lifecycle
import Kortecx.Journal.Durable
import Kortecx.Projection.Redispatch

/-!
The order in which an effect is staged, dispatched and committed, over every run: any
number of dispatches in any interleaving, each of which may die after any call and be
taken up again, with a broker, a resource manager and a journal that may fail at any call.
What a process leaves behind is in the journal and in the content store only.
-/

namespace Kortecx.Executor

open Lib Mote Journal Journal.Backend Projection List State Lib.Discipline
open Lib.Program (only_pure only_of_forall)

/-- What outlives a process. -/
structure World (J : Backend) where
  journal : J.State
  store : ContentRef → Bool

section Semantics

variable (J : Backend)

/-- The broker stages what it likes and never removes anything. -/
def World.Stages (w w' : World J) : Prop :=
  w'.journal = w.journal ∧ ∀ r, w.store r = true → w'.store r = true

/-- What a call through a seam may answer. Calls that can fail may do so at any time; an
append that does not fail is the backend's, as long as there are seqs left. -/
def exec : Semantics Effect Effect.Answer (World J)
  | .acquire _, w, _, w' => w' = w
  | .release _, w, _, w' => w' = w
  | .readCommitted id, w, a, w' =>
    w' = w ∧ ((∃ err, a = .error err) ∨ a = .ok ((J.durable w.journal).find? (commits id)))
  | .append e, w, a, w' =>
    w'.store = w.store ∧
      ((w'.journal = w.journal ∧ ∃ err, a = .error err) ∨
        (J.records w.journal).length + 1 < SEQ_LIMIT ∧
          w'.journal = (J.append w.journal e).state ∧ a = (J.append w.journal e).result)
  | .dispatch _, w, _, w' => w.Stages J w'
  | .probeReadback _, w, _, w' => w.Stages J w'
  | .compensate _, w, _, w' => w.Stages J w'
  | .contains r, w, a, w' => w' = w ∧ a = w.store r
  | .get r, w, a, w' => w' = w ∧ (a = true → w.store r = true)

end Semantics

/-- A fresh dispatch, or one of recovery with the class the journal has for the tool. -/
inductive Call where
  | runWm (call : WmCall)
  | redispatchWm (call : WmCall) (idempotencyClass : Option IdempotencyClass)
      (oracle : MoteId → Bool)

inductive Outcome where
  | ran (result : Except LifecycleError WmLifecycleCommit)
  | recovered (result : Except LifecycleError WmRecoveryOutcome)

def program (host : Host) : Call → Prog Outcome
  | .runWm call => do return .ran (← runWmMote host call)
  | .redispatchWm call idempotencyClass oracle => do
    return .recovered (← redispatchWmMote host call idempotencyClass oracle)

variable {blake3 : List UInt8 → ByteVec 32}

section Entries

def KeyedByMote : JournalEntry → Prop
  | .committed e => e.idempotencyKey = e.moteId.bytes
  | .effectStaged e => e.idempotencyKey = e.moteId.bytes
  | _ => True

variable {log : List JournalEntry} {e : JournalEntry}

theorem keyedByMote_setSeq : KeyedByMote (e.setSeq n) ↔ KeyedByMote e := by
  cases e <;> exact Iff.rfl

theorem keyedByMote_derive : KeyedByMote (e.deriveIdempotencyKey blake3) ↔ KeyedByMote e := by
  cases e <;> exact Iff.rfl

theorem keyedByMote_append (hlog : ∀ x ∈ log, KeyedByMote x) (he : KeyedByMote e) :
    ∀ x ∈ (DedupLog.append entryScheme log e).1, KeyedByMote x := by
  intro x hx
  rcases DedupLog.mem_append_fst hx with hold | ⟨_, rfl⟩
  · exact hlog x hold
  · exact keyedByMote_setSeq.2 he

/-- After the staging of an effect is appended the log holds one for that Mote, new or
from an earlier attempt. -/
theorem stages_append (hlog : ∀ x ∈ log, KeyedByMote x) (staged : EffectStaged)
    (hkeyed : staged.idempotencyKey = staged.moteId.bytes) :
    (DedupLog.append entryScheme log (.effectStaged staged)).1.any (stages staged.moteId) := by
  have hmem := DedupLog.mem_append_snd entryScheme log (.effectStaged staged)
  have hkey : dedupeKey _ = dedupeKey (.effectStaged staged) :=
    DedupLog.key_append_snd entryScheme log (.effectStaged staged)
  have hall := keyedByMote_append (e := .effectStaged staged) hlog hkeyed
  generalize (DedupLog.append entryScheme log (.effectStaged staged)).2 = x at hmem hkey
  have hfact := (dedupeKey_eq_iff (b := .effectStaged staged) rfl).1 hkey
  rw [any_eq_true]
  refine ⟨x, hmem, ?_⟩
  cases x with
  | effectStaged y =>
    have hy : y.idempotencyKey = y.moteId.bytes := hall _ hmem
    have hsame : y.idempotencyKey = staged.idempotencyKey := hfact.2
    have hid : y.moteId = staged.moteId := MoteId.ext (by rw [← hy, hsame, hkeyed])
    simpa [stages] using hid
  | _ => simp +decide [JournalEntry.kind] at hfact

/-- A well-formed log whose entries are keyed by Mote commits each Mote at most once. -/
theorem commits_unique (hwf : DedupLog.WellFormed entryScheme log)
    (hlog : ∀ x ∈ log, KeyedByMote x) (id : MoteId) : (log.filter (commits id)).length ≤ 1 := by
  have hkey : ∀ x ∈ log, commits id x = true → dedupeKey x = some (KIND_COMMITTED, id.bytes) := by
    intro x hx hcommits
    cases x with
    | committed c =>
      have hid : c.moteId = id := by simpa [commits] using hcommits
      have hkeyed : c.idempotencyKey = c.moteId.bytes := hlog _ hx
      rw [← hid, ← hkeyed]
      rfl
    | _ => cases hcommits
  have hpairs : (log.filter (commits id)).Pairwise fun a b =>
      dedupeKey a = dedupeKey b → dedupeKey a = none := hwf.keys.sublist filter_sublist
  cases hcommitted : log.filter (commits id) with
  | nil => exact Nat.zero_le 1
  | cons x others =>
    cases others with
    | nil => exact le_refl 1
    | cons y rest =>
      rw [hcommitted] at hpairs
      have hx : x ∈ log ∧ commits id x = true :=
        mem_filter.1 (hcommitted ▸ mem_cons_self)
      have hy : y ∈ log ∧ commits id y = true :=
        mem_filter.1 (hcommitted ▸ mem_cons_of_mem x mem_cons_self)
      have hxkey := hkey x hx.1 hx.2
      have hnone := (pairwise_cons.1 hpairs).1 y mem_cons_self
        (hxkey.trans (hkey y hy.1 hy.2).symm)
      rw [hxkey] at hnone
      cases hnone

end Entries

variable {J : Backend} {rel : J.State → List JournalEntry → Prop}

section Discipline

def Inv (rel : J.State → List JournalEntry → Prop) (w : World J) : Prop :=
  ∃ log, rel w.journal log ∧ ∀ x ∈ log, KeyedByMote x

/-- Neither the journal nor the content store loses anything. -/
def Later (w w' : World J) : Prop :=
  J.durable w.journal <+: J.durable w'.journal ∧ ∀ r, w.store r = true → w'.store r = true

/-- A commit is appended when its result is in the store, and a staged effect is dispatched
when its staging is in the journal. -/
def Lawful : Effect → World J → Prop
  | .append e, w => e.Readable ∧ KeyedByMote e ∧
      ∀ c, e = .committed c → w.store c.resultRef = true
  | .dispatch call, w => call.mote.def.effectPattern = .stageThenCommit →
      (J.durable w.journal).any (stages call.mote.id) = true
  | _, _ => True

variable {a : Except JournalError JournalEntry} {w : World J} {e : JournalEntry}

/-- Everything an append can do: fail and leave the journal as it was, or do what the log
does. -/
theorem exec_append (hJ : J.ReadsBack blake3 rel)
    (hrel : rel w.journal log) (he : e.Readable) (hexec : exec J (.append e) w a w') :
    w'.store = w.store ∧
      ((w'.journal = w.journal ∧ ∃ err, a = .error err) ∨
        rel w'.journal (DedupLog.append entryScheme log (e.deriveIdempotencyKey blake3)).1 ∧
          a = .ok (DedupLog.append entryScheme log (e.deriveIdempotencyKey blake3)).2) := by
  obtain ⟨hstore, hfailed | ⟨hroom, hjournal, hanswer⟩⟩ := hexec
  · exact ⟨hstore, .inl hfailed⟩
  rw [hJ.length_records hrel] at hroom
  rcases hJ.append hrel hroom he with hdone | ⟨err, hrejects⟩
  · refine ⟨hstore, .inr ⟨?_, ?_⟩⟩
    · rw [hjournal]
      exact hdone.state
    · rw [hanswer]
      exact hdone.result
  · rw [hrejects] at hjournal hanswer
    exact ⟨hstore, .inl ⟨hjournal, err, hanswer⟩⟩

theorem Later.refl (w : World J) : Later w w :=
  ⟨List.prefix_rfl, fun _ h => h⟩

theorem Later.trans (h : Later w₁ w₂) (h' : Later w₂ w₃) : Later w₁ w₃ :=
  ⟨h.1.trans h'.1, fun r hr => h'.2 r (h.2 r hr)⟩

theorem Later.stages (h : Later w w') {id : MoteId}
    (hstaged : (J.durable w.journal).any (stages id) = true) :
    (J.durable w'.journal).any (Projection.stages id) = true := by
  obtain ⟨x, hx, hid⟩ := any_eq_true.1 hstaged
  exact any_eq_true.2 ⟨x, h.1.subset hx, hid⟩

theorem World.Stages.later (h : w.Stages J w') : Later w w' := by
  refine ⟨?_, h.2⟩
  rw [h.1]

theorem World.Stages.inv (h : w.Stages J w') (hinv : Inv rel w) : Inv rel w' := by
  unfold Inv
  rw [h.1]
  exact hinv

theorem keeps_append (hJ : J.ReadsBack blake3 rel)
    (hinv : Inv rel w) (he : e.Readable) (hkeyed : KeyedByMote e)
    (hexec : exec J (.append e) w a w') : Inv rel w' ∧ Later w w' := by
  obtain ⟨log, hrel, hlog⟩ := hinv
  obtain ⟨hstore, ⟨hjournal, _⟩ | ⟨hrel', _⟩⟩ := exec_append hJ hrel he hexec
  · refine ⟨⟨log, ?_, hlog⟩, ?_, fun r hr => ?_⟩
    · rwa [hjournal]
    · rw [hjournal]
    · rwa [hstore]
  · refine ⟨⟨_, hrel', keyedByMote_append hlog (keyedByMote_derive.2 hkeyed)⟩, ?_, fun r hr => ?_⟩
    · rw [hJ.durable hrel, hJ.durable hrel']
      exact DedupLog.prefix_append _ _ _
    · rwa [hstore]

def discipline (hJ : J.ReadsBack blake3 rel) : Discipline (exec J) where
  inv := Inv rel
  later := Later
  lawful := Lawful
  later_refl := Later.refl
  later_trans := Later.trans
  keeps {e w a w'} hinv hlawful hexec := by
    cases e with
    | append e => exact keeps_append hJ hinv hlawful.1 hlawful.2.1 hexec
    | dispatch call => exact ⟨World.Stages.inv hexec hinv, World.Stages.later hexec⟩
    | probeReadback call => exact ⟨World.Stages.inv hexec hinv, World.Stages.later hexec⟩
    | compensate call => exact ⟨World.Stages.inv hexec hinv, World.Stages.later hexec⟩
    | acquire ceiling => exact ⟨hexec ▸ hinv, hexec ▸ Later.refl w⟩
    | release slot => exact ⟨hexec ▸ hinv, hexec ▸ Later.refl w⟩
    | _ => exact ⟨hexec.1 ▸ hinv, hexec.1 ▸ Later.refl w⟩

end Discipline

variable {input : CommitInput}

section Effects

variable {Q : Effect → Prop}

section Commits

variable (hread : ∀ id, Q (.readCommitted id))

include hread

variable (moteId : MoteId)

theorem only_serveIfCommitted : (serveIfCommitted moteId).Only Q := by
  apply Program.Only.call_bind (hread moteId)
  intro found
  split <;> exact only_pure _

theorem only_readCommittedResultRef :
    (readCommittedResultRef moteId).Only Q := by
  apply Program.Only.call_bind (hread moteId)
  intro found
  split <;> exact only_pure _

variable {mote : Mote} {submissionMotes : Std.ExtTreeMap MoteId Mote} {warrantRef : ContentRef}
  {label : String}

omit hread in
theorem only_scheduleSiblingCritic
    (hproposed : ∀ m warrantRef, Q (.append (.proposed (proposedFor m warrantRef)))) :
    (scheduleSiblingCritic mote submissionMotes warrantRef label).Only Q := by
  unfold scheduleSiblingCritic
  split
  · exact only_pure _
  split
  · exact only_pure _
  apply Program.Only.call_bind (hproposed _ _)
  intro written
  cases written <;> exact only_pure _

theorem only_settleCommitted (hproposed : ∀ m warrantRef,
      Q (.append (.proposed (proposedFor m warrantRef)))) (hrelease : Q (.release slot)) :
    (settleCommitted mote slot submissionMotes warrantRef label committedSeq).Only Q := by
  have hfails : ∀ err,
      (releaseAndFail slot err : Prog (Except LifecycleError WmLifecycleCommit)).Only Q :=
    fun err => Program.Only.call_bind hrelease fun _ => only_pure _
  apply (only_scheduleSiblingCritic hproposed).bind
  intro critic
  cases critic with
  | error err => exact hfails err
  | ok criticProposedSeq =>
    apply (only_readCommittedResultRef hread mote.id).bind
    intro resultRef
    cases resultRef with
    | error err => exact hfails err
    | ok resultRef =>
      apply Program.Only.call_bind hrelease
      intro released
      cases released <;> exact only_pure _

end Commits

section Compensation

variable (hcontains : ∀ r, Q (.contains r)) (hget : ∀ r, Q (.get r))

include hcontains hget

theorem only_enforceR11 {moteId : MoteId} :
    (enforceR11 moteId resultRef).Only Q := by
  apply Program.Only.call_bind (hcontains _)
  intro present
  cases present with
  | false => exact only_pure _
  | true =>
    apply Program.Only.call_bind (hget _)
    intro readable
    cases readable <;> exact only_pure _

variable (hcompensate : Q (.compensate input.brokerCall))
  (hfailed : ∀ reason, isPreCommitCrash reason = false →
    Q (.append (.failed (input.failed reason))))

include hcompensate hfailed

theorem only_tryCompensate : (tryCompensate input).Only Q := by
  apply Program.Only.call_bind hcompensate
  intro compensated
  match compensated with
  | .error err => exact only_pure _
  | .ok none => exact only_pure _
  | .ok (some handle) =>
    apply (only_enforceR11 hcontains hget).bind
    intro verified
    cases verified with
    | error err => exact only_pure _
    | ok =>
      apply Program.Only.call_bind (hfailed _ rfl)
      intro written
      cases written <;> exact only_pure _

theorem only_compensateOrQuarantine : (compensateOrQuarantine input).Only Q := by
  apply (only_tryCompensate hcontains hget hcompensate hfailed).bind
  intro compensated
  match compensated with
  | .error err => exact only_pure _
  | .ok (some seq) => exact only_pure _
  | .ok none =>
    apply Program.Only.call_bind (hfailed _ rfl)
    intro written
    cases written <;> exact only_pure _

end Compensation

end Effects

section Safety

variable (hJ : J.ReadsBack blake3 rel) {w : World J}

/-- What every call of the protocol is made with. -/
structure Proper (input : CommitInput) : Prop where
  key : input.idempotencyKey = input.mote.id.bytes
  parents : ∀ p ∈ input.parents, p.Readable

variable {α : Type}

/-- An effect that is lawful in every world. -/
theorem safe_call_bind
    (hlawful : ∀ w : World J, Lawful e w) (hnext : ∀ a w, (discipline hJ).Safe Q (f a) w) :
    (discipline hJ).Safe Q (Program.call e >>= f) w := by
  apply Discipline.Safe.call_bind
  · exact fun w₁ _ _ => hlawful w₁
  · exact fun _ a w₂ _ _ _ _ => hnext a w₂

theorem enforceR11_safe (moteId : MoteId) (resultRef : ContentRef) :
    (discipline hJ).Safe (fun res w => res = .ok () → w.store resultRef = true)
      (enforceR11 moteId resultRef) w := by
  apply safe_call_bind hJ
  · exact fun _ => trivial
  intro present w
  cases present with
  | false => exact safe_pure nofun
  | true =>
    apply Discipline.Safe.call_bind
    · exact fun _ _ _ => trivial
    intro w₃ readable w₄ _ _ hget _
    cases readable with
    | false => exact safe_pure nofun
    | true =>
      apply safe_pure
      intro _
      rw [hget.1]
      exact hget.2 rfl

theorem commitResult_safe (hinput : Proper input) (resultRef : ContentRef) :
    (discipline hJ).Safe (fun _ _ => True) (commitResult input resultRef) w := by
  apply (enforceR11_safe hJ input.mote.id resultRef).bind
  intro verified w hpresent
  cases verified with
  | error err => exact safe_pure trivial
  | ok =>
    apply Discipline.Safe.call_bind
    · intro w₁ hlater _
      refine ⟨hinput.parents, hinput.key, ?_⟩
      rintro c ⟨⟩
      exact hlater.2 _ (hpresent rfl)
    intro _ written _ _ _ _ _
    cases written <;> exact safe_pure trivial

theorem dispatchAndCommit_safe (hinput : Proper input)
    (hstaged : input.mote.def.effectPattern = .stageThenCommit →
      (J.durable w.journal).any (stages input.mote.id) = true) :
    (discipline hJ).Safe (fun _ _ => True) (dispatchAndCommit input) w := by
  apply Discipline.Safe.call_bind
  · exact fun w₁ hlater _ hpattern => hlater.stages (hstaged hpattern)
  intro _ handle _ _ _ _ _
  cases handle with
  | error err => exact safe_pure trivial
  | ok handle => exact commitResult_safe hJ hinput handle.stagedRef

theorem commit_safe (hinput : Proper input) :
    (discipline hJ).Safe (fun _ _ => True) (commit input) w := by
  unfold commit
  cases hpattern : input.mote.def.effectPattern with
  | idempotentByConstruction | validateThenCommit =>
    exact dispatchAndCommit_safe hJ hinput fun hstage => by rw [hpattern] at hstage; cases hstage
  | stageThenCommit =>
    apply Discipline.Safe.call_bind
    · exact fun _ _ _ => ⟨trivial, hinput.key, nofun⟩
    intro w₁ staged w₂ _ hinv hexec _
    cases staged with
    | error err => exact safe_pure trivial
    | ok staged =>
      apply dispatchAndCommit_safe hJ hinput
      intro _
      obtain ⟨log, hrel, hlog⟩ := hinv
      obtain ⟨_, ⟨_, err, hfailed⟩ | ⟨hrel', _⟩⟩ := exec_append
        (e := .effectStaged input.effectStaged) hJ hrel trivial hexec
      · cases hfailed
      rw [hJ.durable hrel']
      exact stages_append hlog input.effectStaged hinput.key

theorem tryCommitFromReadback_safe (hinput : Proper input) :
    (discipline hJ).Safe (fun _ _ => True) (tryCommitFromReadback input) w := by
  apply safe_call_bind hJ
  · exact fun _ => trivial
  intro probed w
  match probed with
  | .error err => exact safe_pure trivial
  | .ok none => exact safe_pure trivial
  | .ok (some handle) =>
    exact (commitResult_safe hJ hinput handle.stagedRef).bind fun _ _ _ =>
      safe_pure trivial

theorem releaseAndFail_safe (slot : ResourceSlot) :
    (discipline hJ).Safe (fun _ _ => True) (releaseAndFail slot err : Prog (Except _ α)) w :=
  safe_call_bind hJ (fun _ => trivial) fun _ _ => safe_pure trivial

theorem settleCommitted_safe (mote : Mote) (slot : ResourceSlot) (label : String)
    (committedSeq : UInt64) :
    (discipline hJ).Safe (fun _ _ => True)
      (settleCommitted mote slot submissionMotes warrantRef label committedSeq) w :=
  safe_of_only (only_settleCommitted (fun _ _ => trivial)
    (fun _ _ _ => ⟨trivial, trivial, nofun⟩) (fun _ => trivial))

theorem compensateOrQuarantine_safe :
    (discipline hJ).Safe (fun _ _ => True) (compensateOrQuarantine input) w :=
  safe_of_only (only_compensateOrQuarantine (fun _ _ => trivial) (fun _ _ => trivial)
    (fun _ => trivial) fun _ _ _ => ⟨trivial, trivial, nofun⟩)

theorem probeThenRedispatch_safe (hinput : Proper input) :
    (discipline hJ).Safe (fun _ _ => True) (probeThenRedispatch input) w := by
  apply (tryCommitFromReadback_safe hJ hinput).bind
  intro probed w _
  match probed with
  | .error err => exact safe_pure trivial
  | .ok (some seq) => exact safe_pure trivial
  | .ok none =>
    apply (commit_safe hJ hinput).bind
    intro committed w _
    cases committed <;> exact safe_pure trivial

variable (host : Host) (call : WmCall) (idempotencyClass : Option IdempotencyClass)

theorem proper_commitInput :
    Proper (call.commitInput host idempotencyClass) where
  key := rfl
  parents := nofun

theorem runWmMote_safe :
    (discipline hJ).Safe (fun _ _ => True) (runWmMote host call) w := by
  dsimp only [runWmMote]
  split
  · exact safe_pure trivial
  apply (safe_of_only (only_serveIfCommitted (fun _ _ => trivial) call.mote.id)).bind
  intro served w _
  match served with
  | .error err => exact safe_pure trivial
  | .ok (some (seq, resultRef)) => exact safe_pure trivial
  | .ok none =>
    apply safe_call_bind hJ
    · exact fun _ => trivial
    intro slot w
    cases slot with
    | error err => exact safe_pure trivial
    | ok slot =>
      apply safe_call_bind hJ
      · exact fun _ => ⟨trivial, trivial, nofun⟩
      intro proposed w
      cases proposed with
      | error err => exact releaseAndFail_safe hJ slot
      | ok proposed =>
        apply (commit_safe hJ (proper_commitInput host call none)).bind
        intro committed w _
        cases committed with
        | error err => exact releaseAndFail_safe hJ slot
        | ok seq => exact settleCommitted_safe hJ call.mote slot "" seq

theorem redispatchWmMote_safe (oracle : MoteId → Bool) :
    (discipline hJ).Safe (fun _ _ => True)
      (redispatchWmMote host call idempotencyClass oracle) w := by
  dsimp only [redispatchWmMote]
  split
  · exact safe_pure trivial
  split
  · exact safe_pure trivial
  apply safe_call_bind hJ
  · exact fun _ => trivial
  intro slot w
  cases slot with
  | error err => exact safe_pure trivial
  | ok slot =>
    dsimp only
    split
    · apply (compensateOrQuarantine_safe hJ).bind
      intro outcome w _
      exact safe_call_bind hJ (fun _ => trivial) fun _ _ => safe_pure trivial
    apply (probeThenRedispatch_safe hJ (proper_commitInput host call idempotencyClass)).bind
    intro committed w _
    match committed with
    | .error err => exact releaseAndFail_safe hJ slot
    | .ok (seq, action) =>
      apply (settleCommitted_safe hJ call.mote slot " (recovery)" seq).bind
      exact fun _ _ _ => safe_pure trivial

theorem program_safe {call : Call} :
    (discipline hJ).Safe (fun _ _ => True) (program host call) w := by
  cases call with
  | runWm call =>
    exact (runWmMote_safe hJ host call).bind fun _ _ _ => safe_pure trivial
  | redispatchWm call idempotencyClass oracle =>
    exact (redispatchWmMote_safe hJ host call idempotencyClass oracle).bind fun _ _ _ =>
      safe_pure trivial

end Safety

section GivingUp

/-- What recovery of an at-most-once effect may do: anything but dispatch it again, and of
the journal nothing but record a terminal failure of the Mote. -/
def GivesUp (mote : Mote) : Effect → Prop
  | .dispatch _ => False
  | .append e => ∃ x : Failed, e = .failed x ∧ x.moteId = mote.id ∧
      isPreCommitCrash x.reasonClass = false
  | _ => True

def Call.Allows : Call → Effect → Prop
  | .redispatchWm call (some .atLeastOnce) _, e => GivesUp call.mote e
  | _, _ => True

theorem compensateOrQuarantine_givesUp : (compensateOrQuarantine input).Only (GivesUp input.mote) :=
  only_compensateOrQuarantine (fun _ => trivial) (fun _ => trivial) trivial fun reason hreason =>
    ⟨input.failed reason, rfl, rfl, hreason⟩

variable (host : Host)

theorem redispatchWmMote_givesUp (call : WmCall) (oracle : MoteId → Bool) :
    (redispatchWmMote host call (some .atLeastOnce) oracle).Only (GivesUp call.mote) := by
  dsimp only [redispatchWmMote]
  split
  · exact only_pure _
  split
  · exact only_pure _
  apply Program.Only.call_bind trivial
  intro slot
  cases slot with
  | error err => exact only_pure _
  | ok slot =>
    apply Program.Only.bind compensateOrQuarantine_givesUp
    intro outcome
    exact Program.Only.call_bind trivial fun _ => only_pure _

theorem program_allows (call : Call) : (program host call).Only call.Allows := by
  match call with
  | .runWm call => exact only_of_forall (fun _ => trivial) _
  | .redispatchWm call (some .atLeastOnce) oracle =>
    exact (redispatchWmMote_givesUp host call oracle).bind fun _ => only_pure _
  | .redispatchWm call none oracle => exact only_of_forall (fun _ => trivial) _
  | .redispatchWm call (some .token) oracle => exact only_of_forall (fun _ => trivial) _
  | .redispatchWm call (some .readback) oracle => exact only_of_forall (fun _ => trivial) _
  | .redispatchWm call (some .staged) oracle => exact only_of_forall (fun _ => trivial) _

end GivingUp

/-- What is known of the Mote is unchanged, or it failed for good. A Mote that was
inconsistent before stays so. -/
def LeftOrFailed (id : MoteId) (s s' : State) : Prop :=
  s'.info id = s.info id ∨
    (s'.info id).terminalFailureObserved = true ∧
      (s'.stateOfId id = .failed ∨ s.stateOfId id = .inconsistent ∧ s'.stateOfId id = .inconsistent)

section LeftOrFailed

variable {id : MoteId} {s s' s'' : State}

theorem LeftOrFailed.trans (h : LeftOrFailed id s s') (h' : LeftOrFailed id s' s'') :
    LeftOrFailed id s s'' := by
  rcases h' with hsame | ⟨hterminal, hstate⟩
  · unfold LeftOrFailed at h ⊢
    rw [stateOfId_eq_state s'', hsame, ← stateOfId_eq_state]
    exact h
  refine .inr ⟨hterminal, ?_⟩
  rcases hstate with hfailed | ⟨hbefore, hafter⟩
  · exact .inl hfailed
  refine .inr ⟨?_, hafter⟩
  rcases h with hsame | ⟨_, hfailed | ⟨hinconsistent, _⟩⟩
  · rwa [stateOfId_eq_state, ← hsame, ← stateOfId_eq_state]
  · rw [hbefore] at hfailed
    cases hfailed
  · exact hinconsistent

/-- A terminal failure counts against a Mote that is not committed, and against no other. -/
theorem leftOrFailed_fold {x : Failed} (hid : x.moteId = id)
    (hreason : isPreCommitCrash x.reasonClass = false) :
    LeftOrFailed id s (fold none s (.failed x)).1 := by
  have hinfo : (fold none s (.failed x)).1.info id =
      foldFailed x.reasonClass x.detail (s.info id) := by
    simp only [fold, info_advance, hid, info_moteinfoMut_self]
  unfold LeftOrFailed
  rw [stateOfId_eq_state, stateOfId_eq_state, hinfo]
  unfold foldFailed
  cases hcommitted : (s.info id).committed with
  | some c => exact .inl rfl
  | none =>
    refine .inr ?_
    cases hinconsistent : (s.info id).inconsistent <;> unfold MoteInfo.state <;> grind

end LeftOrFailed

section Runs

structure CommitOrdering (y : System Call Effect Effect.Answer (World J) Outcome) : Prop where
  /-- A staged effect is dispatched only once its staging is durable. -/
  staged : ∀ k call y', System.Performs (exec J) k (.dispatch call) y y' →
    call.mote.def.effectPattern = .stageThenCommit →
    (J.durable y.world.journal).any (stages call.mote.id) = true
  /-- A commit is appended only when its result is in the content store. -/
  present : ∀ k e y', System.Performs (exec J) k e y y' →
    ∀ c, .committed c ∈ J.durable y'.world.journal →
      .committed c ∈ J.durable y.world.journal ∨ y.world.store c.resultRef = true
  unique : ∀ id, ((J.durable y.world.journal).filter (commits id)).length ≤ 1
  /-- Recovery never dispatches an at-most-once effect again. -/
  neverDispatches : ∀ call oracle e y',
    System.Performs (exec J) (.redispatchWm call (some .atLeastOnce) oracle) e y y' →
    ∀ b, e ≠ .dispatch b
  /-- Nor does it do anything else to the Mote than fail it for good. -/
  leavesOrFails : ∀ call oracle y',
    Relation.ReflTransGen (fun y y' => ∃ e,
      System.Performs (exec J) (.redispatchWm call (some .atLeastOnce) oracle) e y y') y y' →
    ∃ s s', replay none {} (J.durable y.world.journal) = .ok s ∧
      replay none {} (J.durable y'.world.journal) = .ok s' ∧
      LeftOrFailed call.mote.id s s'

variable {host : Host} {store : ContentRef → Bool}
  {y y' : System Call Effect Effect.Answer (World J) Outcome}

section Reached

variable (hJ : J.ReadsBack blake3 rel)

include hJ

/-- What a sound system's journal replays to. -/
theorem exists_replay_of_inv (hinv : Inv rel w) :
    (∀ id, ((J.durable w.journal).filter (commits id)).length ≤ 1) ∧
      ∃ s, replay none {} (J.durable w.journal) = .ok s := by
  obtain ⟨log, hrel, hlog⟩ := hinv
  rw [hJ.durable hrel]
  have hunique := commits_unique (hJ.wellFormed hrel) hlog
  exact ⟨hunique, exists_replay hunique⟩

/-- The log after a performed effect: unchanged, or with the one entry appended. -/
theorem durable_of_exec (hinv : Inv rel w) (hlawful : Lawful e w) (hexec : exec J e w a w') :
    J.durable w'.journal = J.durable w.journal ∨
      ∃ x n, e = .append x ∧ J.durable w'.journal =
        J.durable w.journal ++ [(x.deriveIdempotencyKey blake3).setSeq n] := by
  obtain ⟨log, hrel, _⟩ := hinv
  cases e with
  | append x =>
    obtain ⟨_, ⟨hjournal, _⟩ | ⟨hrel', _⟩⟩ := exec_append hJ hrel hlawful.1 hexec
    · exact .inl (by rw [hjournal])
    rw [hJ.durable hrel, hJ.durable hrel']
    rcases DedupLog.append_cases entryScheme log (x.deriveIdempotencyKey blake3) with
      ⟨b, _, heq⟩ | ⟨_, heq⟩
    · exact .inl (by rw [heq])
    · exact .inr ⟨x, _, rfl, by rw [heq]; rfl⟩
  | acquire _ | release _ => exact .inl (by rw [hexec])
  | _ => exact .inl (by rw [hexec.1])

/-- A performed effect appends nothing but what it says, and a commit only with its
result in the store. -/
theorem present_of_performs (hsound : System.Sound (discipline hJ) y)
    (h : System.Performs (exec J) k e y y') (hc : .committed c ∈ J.durable y'.world.journal) :
    .committed c ∈ J.durable y.world.journal ∨ y.world.store c.resultRef = true := by
  have hlawful := hsound.lawful h
  obtain ⟨a, hexec⟩ := h.executed
  rcases durable_of_exec hJ hsound.inv hlawful hexec with hsame | ⟨x, n, rfl, hnew⟩
  · exact .inl (hsame ▸ hc)
  rw [hnew] at hc
  rcases mem_append.1 hc with hold | hlast
  · exact .inl hold
  refine .inr ?_
  cases x with
  | committed x =>
    cases mem_singleton.1 hlast
    exact hlawful.2.2 x rfl
  | _ => cases mem_singleton.1 hlast

variable {call : WmCall} {oracle : MoteId → Bool}
  (hreaches : System.Reaches (exec J) (program host) ⟨J.new, store⟩ y)

include hreaches

theorem sound_of_reaches : System.Sound (discipline hJ) y :=
  System.Reaches.sound (fun _ _ _ => program_safe hJ host) ⟨[], hJ.new, by simp⟩ hreaches

omit hJ in
theorem givesUp_of_performs
    (h : System.Performs (exec J) (.redispatchWm call (some .atLeastOnce) oracle) e y y') :
    GivesUp call.mote e := by
  obtain ⟨next, hmem⟩ := h.mem_tasks
  exact (hreaches.only (program_allows host) _ hmem).1

/-- One effect of recovering an at-most-once Mote. -/
theorem leftOrFailed_of_performs
    (h : System.Performs (exec J) (.redispatchWm call (some .atLeastOnce) oracle) e y y')
    (hs : replay none {} (J.durable y.world.journal) = .ok s) :
    ∃ s', replay none {} (J.durable y'.world.journal) = .ok s' ∧
      LeftOrFailed call.mote.id s s' := by
  have hsound := sound_of_reaches hJ hreaches
  obtain ⟨a, hexec⟩ := h.executed
  rcases durable_of_exec hJ hsound.inv (hsound.lawful h) hexec with hsame | ⟨x, n, rfl, hnew⟩
  · exact ⟨s, hsame ▸ hs, .inl rfl⟩
  obtain ⟨failed, rfl, hid, hreason⟩ := givesUp_of_performs hreaches h
  rw [hnew, replay_append, hs]
  exact ⟨_, rfl, leftOrFailed_fold (x := { failed with seq := n }) hid hreason⟩

theorem commitOrdering_of_reaches : CommitOrdering y where
  staged _ _ _ h hpattern := (sound_of_reaches hJ hreaches).lawful h hpattern
  present _ _ _ h _ hc := present_of_performs hJ (sound_of_reaches hJ hreaches) h hc
  unique := (exists_replay_of_inv hJ (sound_of_reaches hJ hreaches).inv).1
  neverDispatches _ _ _ _ h := by
    rintro b rfl
    exact givesUp_of_performs hreaches h
  leavesOrFails call oracle y' hrun := by
    obtain ⟨s, hs⟩ := (exists_replay_of_inv hJ (sound_of_reaches hJ hreaches).inv).2
    refine ⟨s, ?_⟩
    induction hrun with
    | refl => exact ⟨s, hs, hs, .inl rfl⟩
    | @tail b c hrun hstep ih =>
      obtain ⟨sb, _, hsb, hleft⟩ := ih
      obtain ⟨e, h⟩ := hstep
      have hb : System.Reaches (exec J) (program host) ⟨J.new, store⟩ b :=
        hreaches.trans (hrun.lift id fun _ _ ⟨_, h⟩ => .performs h)
      obtain ⟨sc, hsc, hnext⟩ := leftOrFailed_of_performs hJ hb h hsb
      exact ⟨sc, hs, hsc, hleft.trans hnext⟩

end Reached

/-- The commit protocol keeps its order in every run, over both backends: any number of
fresh dispatches and re-dispatches, interleaved in any way, each stopping after any call. -/
theorem commitOrdering_of_run (host : Host) (blake3 : List UInt8 → ByteVec 32)
    (store : ContentRef → Bool) :
    (∀ y, System.Reaches (exec (InMemory.inMemory blake3)) (program host)
        ⟨(InMemory.inMemory blake3).new, store⟩ y → CommitOrdering y) ∧
      ∀ y, System.Reaches (exec (Sqlite.sqlite blake3)) (program host)
        ⟨(Sqlite.sqlite blake3).new, store⟩ y → CommitOrdering y :=
  ⟨fun _ => commitOrdering_of_reaches (InMemory.readsBack blake3),
    fun _ => commitOrdering_of_reaches (Sqlite.readsBack blake3)⟩

def sendCall : WmCall where
  mote :=
    { id := stagedMote
      «def» :=
        { logicRef := .replicate 32 0
          modelId := ""
          promptTemplateHash := .replicate 32 0
          ndClass := .worldMutating
          effectPattern := .stageThenCommit
          schemaVersion := 5 }
      inputDataId := .replicate 32 0
      graphPosition := []
      parents := [] }
  warrant := {}
  capability := "send"
  effectRequest := ⟨[], .stageThenCommit, none, .none, {}, .none⟩

def sampleHost : Host where
  ids := ⟨fun _ => .replicate 32 0, fun _ => []⟩
  warrantRefOf _ := ⟨.replicate 32 0⟩

abbrev sampleJournal : Backend :=
  InMemory.inMemory fun _ => .replicate 32 0

theorem exec_append_of_room {w : World sampleJournal}
    (hroom : (sampleJournal.records w.journal).length + 1 < SEQ_LIMIT) :
    exec sampleJournal (.append e) w (sampleJournal.append w.journal e).result
      ⟨(sampleJournal.append w.journal e).state, w.store⟩ :=
  ⟨rfl, .inr ⟨hroom, rfl, rfl⟩⟩

/-- One dispatch up to its call of the broker, with a resource manager that grants slot 1. -/
theorem commitOrdering_of_run_staged :
    ∃ y : System Call Effect Effect.Answer (World sampleJournal) Outcome,
      System.Reaches (exec sampleJournal) (program sampleHost)
          ⟨sampleJournal.new, fun _ => false⟩ y ∧
        (∃ next, y.tasks = [(.runWm sendCall,
          .perform (.dispatch (sendCall.commitInput sampleHost none).brokerCall) next)]) ∧
        CommitOrdering y := by
  have hstart : System.Reaches (exec sampleJournal) (program sampleHost)
      ⟨sampleJournal.new, fun _ => false⟩ ⟨⟨sampleJournal.new, fun _ => false⟩, _⟩ :=
    System.Reaches.start (.runWm sendCall) .refl
  have hread := hstart.perform (a := .ok none) ⟨rfl, .inr rfl⟩
  have hacquire := hread.perform (a := .ok 1) rfl
  have hproposed := hacquire.perform (exec_append_of_room (by decide))
  have hstaged := hproposed.perform (exec_append_of_room (by decide))
  exact ⟨_, hstaged, ⟨_, rfl⟩, (commitOrdering_of_run sampleHost _ _).1 _ hstaged⟩

end Runs

end Kortecx.Executor
