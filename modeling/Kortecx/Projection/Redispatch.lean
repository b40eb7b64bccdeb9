import Kortecx.Lib.History
import Kortecx.Projection.Fold

/-!
When recovery may dispatch a staged effect once more, and which Motes it reports as
anomalous. Both answers are read off flags of the Mote, set by entries of different kinds
in whatever order they come; here they are stated in terms of the journal alone.
-/

namespace Kortecx.Projection

open Lib Mote Journal List State

section Entries

variable (id : MoteId)

def stages : JournalEntry → Bool
  | .effectStaged e => e.moteId = id
  | _ => false

def commits : JournalEntry → Bool
  | .committed e => e.moteId = id
  | _ => false

/-- A failure after which the same attempt is not retried. -/
def failsTerminally : JournalEntry → Bool
  | .failed e => e.moteId = id && !isPreCommitCrash e.reasonClass
  | _ => false

/-- Recovery gave up on an effect that may have happened. -/
def quarantines : JournalEntry → Bool
  | .failed e => e.moteId = id && e.reasonClass = .quarantinedAtLeastOnce
  | _ => false

def repudiates : JournalEntry → Bool
  | .repudiated e => e.targetMoteId = id
  | _ => false

def FailsUncommitted (before : List JournalEntry) (e : JournalEntry) : Prop :=
  failsTerminally id e ∧ ¬ before.any (commits id)

def QuarantinesUncommitted (before : List JournalEntry) (e : JournalEntry) : Prop :=
  quarantines id e ∧ ¬ before.any (commits id)

/-- A repudiation of the Mote after its effect was staged and before any commit of it. -/
def RepudiatesStaged (before : List JournalEntry) (e : JournalEntry) : Prop :=
  repudiates id e ∧ before.any (stages id) ∧ ¬ before.any (commits id)

/-- The journal permits another dispatch of the Mote's effect. -/
def Redispatchable (es : List JournalEntry) : Prop :=
  es.any (stages id) ∧ ¬ es.any (commits id) ∧
    ¬ Occurs (FailsUncommitted id) es ∧ ¬ Occurs (RepudiatesStaged id) es

end Entries

/-- What the flags say of the entries folded so far. -/
structure Tracks (id : MoteId) (es : List JournalEntry) (info : MoteInfo) : Prop where
  staged : info.effectStagedObserved = es.any (stages id)
  committed : info.committed.isSome = es.any (commits id)
  terminal : info.terminalFailureObserved ↔ Occurs (FailsUncommitted id) es
  inconsistent : info.inconsistent ↔ Occurs (RepudiatesStaged id) es
  quarantined : info.quarantined ↔ Occurs (QuarantinesUncommitted id) es

/-- The flags after one more entry, from the flags before it. -/
structure Advances (id : MoteId) (e : JournalEntry) (info info' : MoteInfo) : Prop where
  staged : info'.effectStagedObserved = (info.effectStagedObserved || stages id e)
  committed : info'.committed.isSome = (info.committed.isSome || commits id e)
  terminal : info'.terminalFailureObserved =
    (info.terminalFailureObserved || failsTerminally id e && !info.committed.isSome)
  inconsistent : info'.inconsistent =
    (info.inconsistent || repudiates id e && info.effectStagedObserved && !info.committed.isSome)
  quarantined : info'.quarantined = (info.quarantined || quarantines id e && !info.committed.isSome)

variable {id : MoteId} {es : List JournalEntry} {e : JournalEntry}

theorem Tracks.default : Tracks id [] {} where
  staged := rfl
  committed := rfl
  terminal := by simpa using occurs_nil
  inconsistent := by simpa using occurs_nil
  quarantined := by simpa using occurs_nil

theorem Tracks.concat {info info' : MoteInfo} (htracks : Tracks id es info)
    (hadvances : Advances id e info info') : Tracks id (es ++ [e]) info' where
  staged := by
    rw [hadvances.staged, htracks.staged]
    simp
  committed := by
    rw [hadvances.committed, htracks.committed]
    simp
  terminal := by
    rw [hadvances.terminal, occurs_concat, ← htracks.terminal, htracks.committed]
    simp [FailsUncommitted]
  inconsistent := by
    rw [hadvances.inconsistent, occurs_concat, ← htracks.inconsistent, htracks.staged,
      htracks.committed]
    simp [RepudiatesStaged, and_assoc]
  quarantined := by
    rw [hadvances.quarantined, occurs_concat, ← htracks.quarantined, htracks.committed]
    simp [QuarantinesUncommitted]

variable {s : State}

theorem canRedispatch_iff_of_tracks (htracks : Tracks id es (s.info id)) :
    s.canRedispatchWorldEffectId id = true ↔ Redispatchable id es := by
  rw [canRedispatchWorldEffectId_iff]
  unfold Redispatchable
  rw [← htracks.staged, ← htracks.committed, ← htracks.terminal, ← htracks.inconsistent]
  simp

section Step

variable {info info' : MoteInfo}

/-- What a commit records. -/
def CommittedInfo.ofEntry (e : Committed) : CommittedInfo where
  seq := e.seq
  resultRef := e.resultRef
  nondeterminism := e.nondeterminism
  parentsInEntry := e.parents
  warrantRef := e.warrantRef
  moteDefHash := e.moteDefHash
  repudiated := false

def MoteInfo.after (info : MoteInfo) : JournalEntry → MoteInfo
  | .proposed _ => { info with hasProposed := true, failedPendingReattempt := false }
  | .committed e => { info with committed := some (.ofEntry e) }
  | .failed e => foldFailed e.reasonClass e.detail info
  | .repudiated e => foldRepudiated e.targetCommittedSeq info
  | .effectStaged _ => { info with effectStagedObserved := true }
  | _ => info

def subject : JournalEntry → Option MoteId
  | .proposed e => some e.moteId
  | .committed e => some e.moteId
  | .failed e => some e.moteId
  | .repudiated e => some e.targetMoteId
  | .effectStaged e => some e.moteId
  | _ => none

def MoteInfo.undeclared (info : MoteInfo) : MoteInfo :=
  { info with declared := none }

theorem MoteInfo.eq_of_undeclared (hsame : info'.undeclared = info.undeclared) :
    info' = { info with declared := info'.declared } :=
  congrArg (fun i : MoteInfo => { i with declared := info'.declared }) hsame

theorem Advances.of_undeclared (hadvances : Advances id e info info')
    (hsame : info''.undeclared = info'.undeclared) : Advances id e info info'' := by
  rw [MoteInfo.eq_of_undeclared hsame]
  exact { hadvances with }

theorem Tracks.of_undeclared (htracks : Tracks id es info)
    (hsame : info'.undeclared = info.undeclared) : Tracks id es info' := by
  rw [MoteInfo.eq_of_undeclared hsame]
  exact { htracks with }

theorem undeclared_registerMote (s : State) (reg : RegisterMote) (id : MoteId) :
    ((registerMote s reg).info id).undeclared = (s.info id).undeclared := by
  unfold registerMote State.setDeclared
  rw [info_reindexChildEdges, info_moteinfoMut]
  split
  · rename_i heq
    rw [← heq]
    rfl
  · rfl

theorem undeclared_foldl_registerMote (regs : List RegisterMote) (s : State) (id : MoteId) :
    ((regs.foldl registerMote s).info id).undeclared = (s.info id).undeclared := by
  induction regs generalizing s with
  | nil => rfl
  | cons reg regs ih => rw [foldl_cons, ih, undeclared_registerMote]

theorem info_foldRunMetadata (s : State) (e : JournalEntry) :
    (foldRunMetadata s e).info id = s.info id := by
  cases e with
  | reactRound e =>
    rw [foldRunMetadata_reactRound]
    rfl
  | approval e =>
    rw [foldRunMetadata_approval]
    rfl
  | _ => rfl

variable {seq : UInt64}

theorem advances_foldFailed (x : Failed) (hid : x.moteId = id) :
    Advances id (.failed x) info (foldFailed x.reasonClass x.detail info) := by
  have hfails : failsTerminally id (.failed x) = !isPreCommitCrash x.reasonClass := by
    simp [failsTerminally, hid]
  have hquarantines : quarantines id (.failed x) =
      decide (x.reasonClass = .quarantinedAtLeastOnce) := by
    simp [quarantines, hid]
  unfold foldFailed
  cases hcommitted : info.committed with
  | some c =>
    rw [if_pos Option.isSome_some]
    constructor <;> simp [stages, commits, repudiates, hcommitted]
  | none =>
    rw [if_neg (by simp)]
    dsimp only
    cases hcrash : isPreCommitCrash x.reasonClass with
    | true =>
      rw [hcrash] at hfails
      rw [if_pos rfl]
      split <;> rename_i hreason <;> constructor <;>
        simp [stages, commits, repudiates, hfails, hquarantines, hcommitted, hreason]
    | false =>
      rw [hcrash] at hfails
      rw [if_neg Bool.false_ne_true]
      -- The reason kept with the first terminal failure is none of the flags.
      split <;> rename_i hreason <;> split <;> constructor <;>
        simp [stages, commits, repudiates, hfails, hquarantines, hcommitted, hreason]

theorem advances_foldRepudiated (x : Repudiated) (hid : x.targetMoteId = id) :
    Advances id (.repudiated x) info (foldRepudiated x.targetCommittedSeq info) := by
  have hrepudiates : repudiates id (.repudiated x) = true := by simp [repudiates, hid]
  unfold foldRepudiated
  cases hcommitted : info.committed with
  | some c =>
    dsimp only
    split <;> constructor <;>
      simp [stages, commits, failsTerminally, quarantines, hcommitted]
  | none =>
    dsimp only
    split <;> rename_i hstaged <;> constructor <;>
      simp [stages, commits, failsTerminally, quarantines, hrepudiates, hcommitted, hstaged]

theorem advances_after (hid : subject e = some id) : Advances id e info (info.after e) := by
  cases e with
  | failed x => exact advances_foldFailed x (Option.some.inj hid)
  | repudiated x => exact advances_foldRepudiated x (Option.some.inj hid)
  | proposed x | committed x | effectStaged x =>
    constructor <;> simp [MoteInfo.after, stages, commits, failsTerminally, quarantines,
      repudiates, Option.some.inj hid]
  | _ => cases hid

/-- A fold that succeeds changes what is known of the Mote its entry is about. Of the others
it may declare those that the Mote spawns, and nothing else. -/
theorem undeclared_fold (hfold : fold materializer s e = (s', .ok seq)) (id : MoteId) :
    (s'.info id).undeclared =
      (if subject e = some id then (s.info id).after e else s.info id).undeclared := by
  have hmark : ∀ {target : MoteId} {f : MoteInfo → MoteInfo} {seq : UInt64},
      ((s.moteinfoMut target f).advance seq).info id =
        if some target = some id then f (s.info id) else s.info id := by
    intro target f seq
    rw [info_advance, info_moteinfoMut]
    simp only [Option.some.injEq]
    split
    · rename_i hid
      rw [hid]
    · rfl
  cases e with
  | committed x =>
    have hrecorded : (recordCommitted s x).info id =
        if subject (.committed x) = some id then (s.info id).after (.committed x)
        else s.info id := by
      unfold recordCommitted State.indexCommitted
      rw [info_reindexChildEdges]
      exact hmark
    obtain ⟨-, regs, rfl⟩ := fold_committed_eq_ok hfold
    rw [undeclared_foldl_registerMote, hrecorded]
  | proposed x | failed x | repudiated x | effectStaged x =>
    cases hfold
    rw [hmark]
    rfl
  | _ =>
    cases hfold
    rw [info_foldRunMetadata]
    rfl

/-- What one fold that succeeds does to the flags of a Mote. -/
theorem advances_fold
    (hfold : fold materializer s e = (s', .ok seq)) : Advances id e (s.info id) (s'.info id) := by
  refine Advances.of_undeclared ?_ (undeclared_fold hfold id)
  split
  · rename_i hid
    exact advances_after hid
  · rename_i hother
    cases e <;> constructor <;>
      simp_all [subject, stages, commits, failsTerminally, quarantines, repudiates]

end Step

variable {materializer : Option TopologyMaterializer}

/-- The flags of a Mote after any accepted journal. -/
theorem tracks_replay (hreplay : replay materializer {} es = .ok s) : Tracks id es (s.info id) := by
  induction es using List.reverseRecOn generalizing s with
  | nil =>
    cases hreplay
    exact Tracks.default
  | append_singleton es e ih =>
    obtain ⟨before, seq, hbefore, hfold⟩ := replay_concat_eq_ok hreplay
    exact (ih hbefore).concat (advances_fold hfold)

/-- Without a materializer a fold fails on a second commit of a Mote only. -/
theorem fold_none_eq_ok (e : JournalEntry)
    (hfresh : ∀ c, e = .committed c → (s.info c.moteId).committed = none) :
    ∃ seq, (fold none s e).2 = .ok seq := by
  cases e with
  | committed c =>
    have hnone : (s.info c.moteId).committed.isSome = false := by rw [hfresh c rfl]; rfl
    simp only [fold, foldCommitted, hnone]
    exact ⟨_, rfl⟩
  | _ => exact ⟨_, rfl⟩

/-- A journal in which no Mote commits twice is accepted. -/
theorem exists_replay (hunique : ∀ id, (es.filter (commits id)).length ≤ 1) :
    ∃ s, replay none {} es = .ok s := by
  induction es using List.reverseRecOn with
  | nil => exact ⟨{}, rfl⟩
  | append_singleton es e ih =>
    have hbefore : ∀ id, (es.filter (commits id)).length ≤ 1 := by
      intro id
      have hlength := hunique id
      rw [filter_append, length_append] at hlength
      omega
    obtain ⟨s, hs⟩ := ih hbefore
    have hfresh : ∀ c, e = .committed c → (s.info c.moteId).committed = none := by
      rintro c rfl
      have hlength := hunique c.moteId
      rw [filter_append, length_append] at hlength
      have hone : ([JournalEntry.committed c].filter (commits c.moteId)).length = 1 := by
        simp [commits]
      have hnil : es.filter (commits c.moteId) = [] := by
        apply eq_nil_of_length_eq_zero
        omega
      have hnone : es.any (commits c.moteId) = false := by
        rw [any_eq_false]
        exact filter_eq_nil_iff.1 hnil
      have htracks : Tracks c.moteId es (s.info c.moteId) := tracks_replay hs
      rw [← htracks.committed] at hnone
      simpa using hnone
    obtain ⟨seq, hok⟩ := fold_none_eq_ok e hfresh
    refine ⟨(fold none s e).1, ?_⟩
    rw [replay_append, hs]
    apply replay_eq_ok.2
    unfold foldMany
    rw [show fold none s e = ((fold none s e).1, .ok seq) from Prod.ext rfl hok]
    exact ⟨rfl, _, rfl⟩

/-- A staged effect that may not be dispatched again stays so in every longer journal. -/
theorem not_redispatchable_of_isPrefix
    (hstaged : es.any (stages id)) (hrefused : ¬ Redispatchable id es)
    (hextends : es <+: longer) : ¬ Redispatchable id longer := by
  rintro ⟨_, huncommitted, hnoFailure, hnoAnomaly⟩
  apply hrefused
  refine ⟨hstaged, ?_, ?_, ?_⟩
  · intro hcommitted
    obtain ⟨e, he, hcommits⟩ := any_eq_true.1 hcommitted
    exact huncommitted (any_eq_true.2 ⟨e, hextends.subset he, hcommits⟩)
  · intro hfailure
    exact hnoFailure (hfailure.of_isPrefix hextends)
  · intro hanomaly
    exact hnoAnomaly (hanomaly.of_isPrefix hextends)

/-- At every prefix of an accepted journal, another dispatch of the Mote's effect is
permitted exactly when the entries of that prefix permit it; and once it is refused for a
staged effect, it is refused at every longer prefix. -/
theorem canRedispatchWorldEffect_along_journal {materializer : Option TopologyMaterializer}
    {s : State} (id : MoteId) (haccepted : replay materializer {} es = .ok s)
    {seen : List JournalEntry} (hseen : seen <+: es) :
    ∃ sp, replay materializer {} seen = .ok sp ∧
      (sp.canRedispatchWorldEffectId id = true ↔ Redispatchable id seen) ∧
      (seen.any (stages id) → sp.canRedispatchWorldEffectId id = false →
        ∀ longer, seen <+: longer → longer <+: es →
          ∃ sq, replay materializer {} longer = .ok sq ∧
            sq.canRedispatchWorldEffectId id = false) := by
  obtain ⟨sp, hsp⟩ := replay_isPrefix haccepted hseen
  have hat : sp.canRedispatchWorldEffectId id = true ↔ Redispatchable id seen :=
    canRedispatch_iff_of_tracks (tracks_replay hsp)
  refine ⟨sp, hsp, hat, ?_⟩
  intro hstaged hrefused longer hextends hlonger
  obtain ⟨sq, hsq⟩ := replay_isPrefix haccepted hlonger
  refine ⟨sq, hsq, ?_⟩
  apply Bool.eq_false_of_not_eq_true
  rw [canRedispatch_iff_of_tracks (tracks_replay hsq)]
  apply not_redispatchable_of_isPrefix hstaged ?_ hextends
  rw [← hat, hrefused]
  exact Bool.false_ne_true

def stagedMote : MoteId := ⟨.replicate 32 3⟩

def stagedThenCrashed : List JournalEntry :=
  [.effectStaged ⟨stagedMote, .replicate 32 3, 1⟩,
    .failed ⟨stagedMote, .replicate 32 3, 2, .workerCrashed, 0, ""⟩]

/-- A repudiation of the Mote comes before any commit of it. -/
def thenRepudiated : List JournalEntry :=
  stagedThenCrashed ++ [.repudiated ⟨stagedMote, .replicate 32 4, 3, 9, .operatorAction, 0⟩]

def thenProposed : List JournalEntry :=
  thenRepudiated ++
    [.proposed ⟨stagedMote, .replicate 32 3, 4, .worldMutating, 0, ⟨.replicate 32 0⟩⟩]

theorem canRedispatchWorldEffect_along_repudiated :
    ∃ s sc sr, replay none {} thenProposed = .ok s ∧
      (replay none {} stagedThenCrashed = .ok sc ∧ sc.canRedispatchWorldEffectId stagedMote = true ∧
        Redispatchable stagedMote stagedThenCrashed) ∧
      (replay none {} thenRepudiated = .ok sr ∧ ¬ Redispatchable stagedMote thenRepudiated) ∧
      s.canRedispatchWorldEffectId stagedMote = false := by
  have haccepted : replay none {} thenProposed = .ok (foldMany none {} thenProposed).1 := rfl
  have hcrashed : stagedThenCrashed <+: thenProposed := by
    unfold thenProposed thenRepudiated
    rw [append_assoc]
    exact List.prefix_append _ _
  have hrepudiated : thenRepudiated <+: thenProposed := List.prefix_append _ _
  obtain ⟨sc, hsc, hcan, _⟩ := canRedispatchWorldEffect_along_journal stagedMote haccepted hcrashed
  obtain ⟨sr, hsr, hcannot, hstays⟩ :=
    canRedispatchWorldEffect_along_journal stagedMote haccepted hrepudiated
  cases hsc
  cases hsr
  obtain ⟨s, hs, hrefused⟩ := hstays (by decide) (by decide) _ hrepudiated List.prefix_rfl
  have hpermitted : (foldMany none {} stagedThenCrashed).1.canRedispatchWorldEffectId stagedMote =
      true := by decide
  refine ⟨s, _, _, hs, ⟨rfl, hpermitted, hcan.1 hpermitted⟩, ⟨rfl, ?_⟩, hrefused⟩
  rw [← hcannot]
  decide

end Kortecx.Projection
