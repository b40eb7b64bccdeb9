import Kortecx.Projection.Redispatch

/-!
The part of the state that comes from the journal. Declarations come from the requests of
a running process, and with them the edges of Motes that have not committed; everything
else is a function of the entries folded. What a fold does to one Mote is a function of
what was known of that Mote, and what it does to the records of the run does not look at
the Motes.
-/

namespace Kortecx.Projection

open Lib Mote Journal List State

section Fold

variable {s t : State} {e : JournalEntry}

theorem replay_singleton (hfold : fold none s e = (s', .ok seq)) :
    replay none s [e] = .ok s' := by
  unfold replay foldMany
  rw [hfold]
  rfl

variable {P : State → Prop} {es : List JournalEntry}

/-- What every fold that succeeds keeps, a replay keeps. -/
theorem replay_preserves (hreplay : replay none s es = .ok s') (hs : P s)
    (hstep : ∀ s e s' seq, e ∈ es → fold none s e = (s', .ok seq) → P s → P s') : P s' := by
  induction es generalizing s with
  | nil =>
    cases hreplay
    exact hs
  | cons e es ih =>
    have hsplit : replay none s ([e] ++ es) = .ok s' := hreplay
    rw [replay_append] at hsplit
    obtain ⟨s₁, hfirst, hsplit⟩ := except_bind_eq_ok.1 hsplit
    have hlast : replay none s ([] ++ [e]) = .ok s₁ := hfirst
    obtain ⟨before, seq, hbefore, hfold⟩ := replay_concat_eq_ok hlast
    cases hbefore
    exact ih hsplit (hstep s e s₁ seq (by simp) hfold hs)
      fun s x s' seq hx => hstep s x s' seq (by simp [hx])

theorem of_replay (hreplay : replay none {} es = .ok s)
    (hdown : ∃ s, replay none {} es = .ok s ∧ P s) : P s := by
  obtain ⟨s', hs, hP⟩ := hdown
  cases hreplay.symm.trans hs
  exact hP

/-- What the fold of one entry brings about, and no fold undoes, holds after a replay with
the entry. -/
theorem replay_establishes (hreplay : replay none s es = .ok s')
    (hx : x ∈ es) (hfold : ∀ s s' seq, fold none s x = (s', .ok seq) → P s')
    (hstep : ∀ s e s' seq, e ∈ es → fold none s e = (s', .ok seq) → P s → P s') : P s' := by
  obtain ⟨before, after, rfl⟩ := append_of_mem hx
  rw [append_cons, replay_append] at hreplay
  obtain ⟨s₁, hmiddle, hreplay⟩ := except_bind_eq_ok.1 hreplay
  obtain ⟨s₀, seq, _, hx⟩ := replay_concat_eq_ok hmiddle
  exact replay_preserves hreplay (hfold s₀ s₁ seq hx)
    fun s e s' seq he => hstep s e s' seq (by simp [he])

variable {info : MoteInfo}

theorem undeclared_foldFailed :
    (foldFailed reason detail info).undeclared = foldFailed reason detail info.undeclared := by
  unfold foldFailed MoteInfo.undeclared
  dsimp only
  split
  · rfl
  cases isPreCommitCrash reason with
  | true => split <;> rfl
  | false => cases info.failureReason <;> split <;> rfl

theorem undeclared_foldRepudiated :
    (foldRepudiated seq info).undeclared = foldRepudiated seq info.undeclared := by
  unfold foldRepudiated MoteInfo.undeclared
  cases hcommitted : info.committed with
  | none | some _ =>
    dsimp only
    split <;> simp only [hcommitted]

/-- What an entry does to a Mote does not look at its declaration. -/
theorem MoteInfo.undeclared_after (info : MoteInfo) (e : JournalEntry) :
    (info.after e).undeclared = info.undeclared.after e := by
  cases e with
  | failed x => exact undeclared_foldFailed
  | repudiated x => exact undeclared_foldRepudiated
  | _ => rfl

end Fold

namespace State

def runRecords (s : State) : State :=
  { s with motes := ∅, children := ∅ }

/-- What the state owes to the journal: what is known of each Mote besides its declaration,
and the records of the run. -/
def journaled (s : State) : (MoteId → MoteInfo) × State :=
  (fun id => (s.info id).undeclared, s.runRecords)

variable {s t : State}

theorem journaled_eq_iff :
    s.journaled = t.journaled ↔
      (∀ id, (s.info id).undeclared = (t.info id).undeclared) ∧ s.runRecords = t.runRecords := by
  unfold journaled
  rw [Prod.mk.injEq, funext_iff]

theorem runRecords_reindexChildEdges {s : State} :
    (s.reindexChildEdges child oldEffective).runRecords = s.runRecords := by
  rw [reindexChildEdges_eq]
  rfl

theorem journaled_registerMote (s : State) (reg : RegisterMote) :
    (registerMote s reg).journaled = s.journaled := by
  apply journaled_eq_iff.2
  constructor
  · exact undeclared_registerMote s reg
  · exact runRecords_reindexChildEdges

end State

def State.recordsAfter (records : State) (e : JournalEntry) : State :=
  if (subject e).isSome then records.advance e.seq else foldRunMetadata records e

theorem runRecords_foldRunMetadata :
    (foldRunMetadata s e).runRecords = foldRunMetadata s.runRecords e := by
  cases e with
  | reactRound e =>
    rw [foldRunMetadata_reactRound, foldRunMetadata_reactRound]
    rfl
  | approval e =>
    rw [foldRunMetadata_approval, foldRunMetadata_approval]
    rfl
  | _ => rfl

section Fold

variable {materializer : Option TopologyMaterializer}
variable {s s' t : State} {e : JournalEntry} {seq : UInt64}

theorem runRecords_fold (hfold : fold materializer s e = (s', .ok seq)) :
    s'.runRecords = s.runRecords.recordsAfter e := by
  cases e with
  | committed x =>
    obtain ⟨-, regs, rfl⟩ := fold_committed_eq_ok hfold
    apply foldlRecOn regs registerMote (motive := fun t => t.runRecords = _)
    · exact runRecords_reindexChildEdges
    · exact fun t ht reg _ => runRecords_reindexChildEdges.trans ht
  | proposed x | failed x | repudiated x | effectStaged x =>
    cases hfold
    rfl
  | _ =>
    cases hfold
    exact runRecords_foldRunMetadata

structure Collects {β : Type} (get : State → List β) (pick : JournalEntry → Option β) : Prop where
  runRecords : ∀ s, get s.runRecords = get s
  recordsAfter : ∀ s e, get (State.recordsAfter s e) = get s ++ (pick e).toList

/-- Such a list is what the entries add to it, in order. -/
theorem Collects.replay {β : Type} {get : State → List β} {pick : JournalEntry → Option β}
    (hcollects : Collects get pick) {es : List JournalEntry}
    (hreplay : replay materializer s es = .ok s') :
    get s' = get s ++ es.filterMap pick := by
  induction es using List.reverseRecOn generalizing s' with
  | nil =>
    cases hreplay
    exact (append_nil _).symm
  | append_singleton es x ih =>
    obtain ⟨before, seq, hbefore, hfold⟩ := replay_concat_eq_ok hreplay
    have hlast : get s' = get before ++ (pick x).toList := by
      rw [← hcollects.runRecords, runRecords_fold hfold, hcollects.recordsAfter,
        hcollects.runRecords]
    rw [hlast, ih hbefore, append_assoc, filterMap_append]
    cases hpick : pick x <;> simp [hpick]

def State.capabilities (s : State) : List ResolvedCapabilityRecord :=
  s.runResolvedVersions.filterMap (·.capability)

def resolvedCapability : JournalEntry → Option ResolvedCapabilityRecord
  | .runVersionsResolved e => e.capability
  | _ => none

theorem collects_capabilities : Collects State.capabilities resolvedCapability where
  runRecords _ := rfl
  recordsAfter s e := by
    cases e with
    | runVersionsResolved e =>
      change (s.runResolvedVersions ++ [_]).filterMap _ = _
      rw [filterMap_append]
      cases hcapability : e.capability <;>
        simp [resolvedCapability, State.capabilities, hcapability]
    | reactRound e | approval e =>
      simp [State.recordsAfter, subject, State.advance, State.capabilities, resolvedCapability]
    | _ => exact (append_nil _).symm

def reactRoundOf : JournalEntry → Option ReactRoundRecord
  | .reactRound e => some e
  | _ => none

theorem collects_reactRounds : Collects State.reactRounds reactRoundOf where
  runRecords _ := rfl
  recordsAfter s e := by
    cases e with
    | reactRound e | approval e => simp [State.recordsAfter, subject, State.advance, reactRoundOf]
    | _ => exact (append_nil _).symm

def replanRoundOf : JournalEntry → Option ReplanRoundRecord
  | .replanRound e => some e
  | _ => none

theorem collects_replanRounds : Collects State.replanRounds replanRoundOf where
  runRecords _ := rfl
  recordsAfter s e := by
    cases e with
    | replanRound e => rfl
    | reactRound e | approval e => simp [State.recordsAfter, subject, State.advance, replanRoundOf]
    | _ => exact (append_nil _).symm

/-- Two states that owe the same to the journal before an entry do so after it. -/
theorem journaled_fold (hjournaled : s.journaled = t.journaled)
    (hfold : fold none s e = (s', .ok seq)) (hfold' : fold none t e = (t', .ok seq')) :
    s'.journaled = t'.journaled := by
  obtain ⟨hinfo, hrecords⟩ := journaled_eq_iff.1 hjournaled
  apply journaled_eq_iff.2
  constructor
  · intro id
    rw [undeclared_fold hfold, undeclared_fold hfold']
    split
    · rw [MoteInfo.undeclared_after, MoteInfo.undeclared_after, hinfo]
    · exact hinfo id
  · rw [runRecords_fold hfold, runRecords_fold hfold', hrecords]

/-- If one of two such states takes an entry, the other does. -/
theorem exists_fold_of_journaled (hjournaled : s.journaled = t.journaled)
    (hfold : fold none s e = (s', .ok seq)) : ∃ t' seq', fold none t e = (t', .ok seq') := by
  have hfresh : ∀ c, e = .committed c → (t.info c.moteId).committed = none := by
    rintro c rfl
    have hinfo := (journaled_eq_iff.1 hjournaled).1 c.moteId
    have hcommitted := congrArg MoteInfo.committed hinfo
    exact hcommitted.symm.trans (fold_committed_eq_ok hfold).1
  obtain ⟨seq', hok⟩ := fold_none_eq_ok e hfresh
  exact ⟨_, seq', Prod.ext rfl hok⟩

end Fold

end Kortecx.Projection
