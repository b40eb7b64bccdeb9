import Kortecx.Coordinator.AgentLoop

/-!
Re-planning. A round of planning is replaced when its children have ended and some failed. The
pass that notes the next round knows one chain of rounds: it takes what the round is made from
from the first anchor of the journal, and looks at the highest round only.
-/

namespace Kortecx.Coordinator

open Lib Mote Journal Projection Warrant Platform List Option Lib.Program

/-- Where a round is noted: at an anchor, or after the round that is due, with what the first
anchor names. -/
def ReplansDue {J : Backend} (w : Core J) : Effect → Prop
  | .chore (.note (.replanRound r) _) => r.round = 0 ∨ ∃ anchor latest,
      replanDue w.projection = some (anchor, latest) ∧ r.round = latest.round + 1 ∧
      r.basePromptRef = anchor.basePromptRef ∧ r.warrantRef = anchor.warrantRef ∧
      r.modelId = anchor.modelId
  | _ => True

theorem replansDue_of_omits {J : Backend} {w : Core J} {e : Effect}
    (homits : e.Omits .replanRound) : ReplansDue w e := by
  unfold ReplansDue
  split
  · exact absurd rfl homits
  · trivial

section Programs

variable {J : Backend} (P : Platform) {α β : Type}

/-- The program notes rounds where they are due only. -/
abbrev Platform.Replans (p : Routine J α) : Prop :=
  ∀ w, p.Along (tend P.ids.blake3 J) (fun w c => ReplansDue w (.chore c)) w

/-- As `Replans`, of a program that may also decide what becomes of a Mote. -/
abbrev Platform.ReplansThread (p : Coord J α) : Prop :=
  ∀ w, p.Along (P.handler J) ReplansDue w

variable {P}

theorem replans_of_quiet {p : Routine J α} (hp : Quiet .replanRound p) : P.Replans p :=
  hp.along fun _ c homits => replansDue_of_omits (e := .chore c) homits

theorem Platform.Replans.bind (hp : P.Replans p)
    (hf : ∀ a, P.Replans (f a)) : P.Replans (p >>= f) :=
  fun w => along_bind.2 ⟨hp w, hf _ _⟩

theorem replansThread_of_quiet {p : Coord J α} (hp : QuietThread .replanRound p) :
    P.ReplansThread p :=
  hp.along fun _ _ homits => replansDue_of_omits homits

theorem Platform.ReplansThread.bind (hp : P.ReplansThread p)
    (hf : ∀ a, P.ReplansThread (f a)) : P.ReplansThread (p >>= f) :=
  fun w => along_bind.2 ⟨hp w, hf _ _⟩

theorem Platform.Replans.thread (hp : P.Replans p) :
    P.ReplansThread (routine p : Coord J α) := by
  intro w
  have hw := hp w
  clear hp
  induction p generalizing w with
  | done a => trivial
  | perform c next ih => exact ⟨hw.1, ih _ _ hw.2⟩

theorem replans_writeReplanAnchor :
    P.Replans (P.writeReplanAnchor shaperId shaperDef warrant : Routine J Unit) := by
  refine (replans_of_quiet quiet_look).bind fun w => ?_
  split_ifs
  · exact replans_of_quiet (only_pure _)
  · exact replans_of_quiet (only_pure _)
  split
  · exact replans_of_quiet (only_pure _)
  refine (replans_of_quiet (quiet_put _)).bind fun _ => ?_
  refine (replans_of_quiet (quiet_put _)).bind fun _ => ?_
  split
  · exact fun w => ⟨.inl rfl, trivial⟩
  · exact replans_of_quiet (only_pure _)

theorem replans_settleReplanRounds : P.Replans (P.settleReplanRounds : Routine J Unit) := by
  intro w
  refine along_tend_look_bind.2 ⟨trivial, ?_⟩
  split
  · rename_i store anchor latest _ hdue
    split
    · rename_i prompt warrant _ _
      refine along_tend_put_bind.2 ⟨trivial, ?_⟩
      have hsame := w.projection_put P.ids.blake3 (utf8Bytes (P.correctedPrompt prompt
        (replanFailures w.projection latest.shaperMoteId)))
      generalize w.put P.ids.blake3 _ = result at hsame
      obtain ⟨ref, w'⟩ := result
      cases ref with
      | none => trivial
      | some ref =>
        refine along_bind.2 ⟨⟨?_, trivial⟩, ?_⟩
        · refine .inr ⟨anchor, latest, ?_, rfl, rfl, rfl, rfl⟩
          rw [hsame]
          exact hdue
        · split
          · trivial
          · exact replans_of_quiet (P.quiet_materialize ..) _
    · trivial
  · trivial

theorem walks_replans :
    P.Walks .replanRound (fun _ p => P.Replans (J := J) p) fun _ p => P.ReplansThread p where
  rounds := .inl rfl
  quiet := replans_of_quiet
  bind hp hf := hp.bind hf
  thread hp := hp.thread
  quietThread := replansThread_of_quiet
  bindThread hp hf := hp.bind hf
  replanAnchor _ _ _ _ := replans_writeReplanAnchor
  replanRounds _ := replans_settleReplanRounds

/-- Whatever the coordinator does, rounds are noted where they are due. -/
theorem replansThread_act (action : Action) : P.ReplansThread (P.act action : Coord J Reply) :=
  walks_replans.act action

end Programs

section Rounds

def replanLog (log : List JournalEntry) : List ReplanRoundRecord :=
  log.filterMap replanRoundOf

/-- The rounds are made from the same prompt, under the same warrant, for the same model. -/
def SamePlan (r anchor : ReplanRoundRecord) : Prop :=
  r.basePromptRef = anchor.basePromptRef ∧ r.warrantRef = anchor.warrantRef ∧
    r.modelId = anchor.modelId

/-- The rounds of one chain: numbered one after the other, and made from what the first
names. -/
structure OneChain (rounds : List ReplanRoundRecord) : Prop where
  numbered : ∀ (i : Nat) (r : ReplanRoundRecord), rounds[i]? = some r → r.round.toNat = i
  bounded : rounds.length ≤ MAX_SHAPER_ROUNDS.toNat
  samePlan : ∀ r ∈ rounds, ∀ anchor ∈ rounds.head?, SamePlan r anchor

/-- The round is to be replaced: its shaper committed, its children ended, some failed, and the
budget allows another. -/
structure RoundOver (s : State) (latest : ReplanRoundRecord) : Prop where
  budget : latest.round + 1 < MAX_SHAPER_ROUNDS
  committed : s.stateOfId latest.shaperMoteId = .committed
  settled : ∀ c ∈ s.childrenOf latest.shaperMoteId, isTerminal (s.stateOfId c.1) = true
  failed : ∃ c ∈ s.childrenOf latest.shaperMoteId, s.stateOfId c.1 = .failed

variable {s : State} {anchor latest : ReplanRoundRecord}

theorem replanFailures_ne_nil (hfailed : ∃ c ∈ s.childrenOf shaperId, s.stateOfId c.1 = .failed) :
    replanFailures s shaperId ≠ [] := by
  obtain ⟨c, hc, hstate⟩ := hfailed
  have hmem : (c.1, s.failureReasonOf c.1) ∈ replanFailures s shaperId := by
    refine (mergeSort_perm _ _).mem_iff.2 (mem_map.2 ⟨c.1, ?_, rfl⟩)
    exact mem_filter.2 ⟨mem_map_of_mem hc, decide_eq_true hstate⟩
  exact ne_nil_of_mem hmem

/-- What the pass looks at. -/
theorem replanDue_eq_some (hdue : replanDue s = some (anchor, latest)) :
    s.replanRounds.find? (fun r => r.round = 0) = some anchor ∧
      lastMaxBy (fun a b => compare a.round b.round) s.replanRounds = some latest ∧
      latest.round + 1 < MAX_SHAPER_ROUNDS := by
  obtain ⟨anchor', hanchor, hdue⟩ := bind_eq_some_iff.1 hdue
  obtain ⟨latest', hlatest, hdue⟩ := bind_eq_some_iff.1 hdue
  dsimp only at hdue
  split at hdue
  · cases hdue
  rename_i hbudget
  split_ifs at hdue
  cases hdue
  exact ⟨hanchor, hlatest, UInt32.not_le.1 hbudget⟩

namespace OneChain

variable {front : List ReplanRoundRecord} {last : ReplanRoundRecord}
  (hchain : OneChain (front ++ [last]))

include hchain

theorem round_last : last.round.toNat = front.length :=
  hchain.numbered front.length last (by simp)

theorem round_lt (hr : r ∈ front) : r.round.toNat < last.round.toNat := by
  obtain ⟨i, hi, hget⟩ := mem_iff_getElem.1 hr
  rw [hchain.numbered i r (by rw [List.getElem?_append_left hi, ← hget, List.getElem?_eq_getElem]),
    hchain.round_last]
  exact hi

theorem find?_eq_head? :
    (front ++ [last]).find? (fun r => r.round = 0) = (front ++ [last]).head? := by
  cases hrounds : front ++ [last] with
  | nil => rfl
  | cons first rest =>
    have hzero := hchain.numbered 0 first (by rw [hrounds]; rfl)
    exact List.find?_cons_of_pos (decide_eq_true (UInt32.toNat_inj.1 hzero))

theorem latest_eq :
    lastMaxBy (fun a b : ReplanRoundRecord => compare a.round b.round) (front ++ [last]) =
      some last :=
  lastMaxBy_concat fun _ hr => compare_turn (hchain.round_lt hr).le

theorem toNat_next : (last.round + 1).toNat = last.round.toNat + 1 := by
  have hbounded := hchain.bounded
  rw [length_append, length_singleton] at hbounded
  have hlast := hchain.round_last
  have hmax : MAX_SHAPER_ROUNDS.toNat < 2 ^ 32 := by decide
  rw [UInt32.toNat_add, UInt32.toNat_one, Nat.mod_eq_of_lt (by omega)]

/-- A round that is over is due, and its anchor is the first of all rounds. -/
theorem replanDue_eq (hrounds : s.replanRounds = front ++ [last])
    (hhead : (front ++ [last]).head? = some anchor) (hover : RoundOver s last) :
    replanDue s = some (anchor, last) := by
  have hbudget := UInt32.not_le.2 hover.budget
  have hnext : ¬ (front ++ [last]).any (fun r => r.round = last.round + 1) = true := by
    intro hany
    obtain ⟨r, hr, hround⟩ := any_eq_true.1 hany
    have hsucc := congrArg UInt32.toNat (of_decide_eq_true hround)
    have hlt := UInt32.lt_iff_toNat_lt.1 hover.budget
    have hlast := hchain.toNat_next
    rcases mem_append.1 hr with hr | hr
    · have := hchain.round_lt hr
      omega
    rw [mem_singleton.1 hr] at hsucc
    omega
  have hchildren : (s.childrenOf last.shaperMoteId).isEmpty = false := by
    obtain ⟨c, hc, -⟩ := hover.failed
    exact isEmpty_eq_false_iff_exists_mem.2 ⟨c, hc⟩
  have hsettled : (s.childrenOf last.shaperMoteId).all (fun c => isTerminal (s.stateOfId c.1)) =
      true := all_eq_true.2 hover.settled
  have hfailures : (replanFailures s last.shaperMoteId).isEmpty = false := by
    rw [isEmpty_eq_false_iff]
    exact replanFailures_ne_nil hover.failed
  unfold replanDue
  rw [hrounds, hchain.find?_eq_head?, hhead, hchain.latest_eq]
  simp only [bind_eq_bind, bind_some, if_neg hbudget, if_neg hnext, hover.committed,
    hchildren, hsettled, hfailures]
  rfl

/-- The round that replaces the last one goes on with the chain. -/
theorem append_due (hhead : (front ++ [last]).head? = some anchor) {r : ReplanRoundRecord}
    (hbudget : last.round + 1 < MAX_SHAPER_ROUNDS) (hround : r.round = last.round + 1)
    (hsame : SamePlan r anchor) : OneChain (front ++ [last] ++ [r]) := by
  have hnext := hchain.toNat_next
  have hlast := hchain.round_last
  refine ⟨?_, ?_, ?_⟩
  · intro i x hx
    rcases Nat.lt_or_ge i (front ++ [last]).length with hi | hi
    · rw [List.getElem?_append_left hi] at hx
      exact hchain.numbered i x hx
    rw [List.getElem?_append_right hi] at hx
    obtain ⟨hzero, hget⟩ := List.getElem?_eq_some_iff.1 hx
    rw [length_singleton] at hzero
    have hi' : i = front.length + 1 := by
      rw [length_append, length_singleton] at hi hzero
      omega
    rw [getElem_singleton] at hget
    rw [← hget, hround, hnext, hlast, hi']
  · have hlt := UInt32.lt_iff_toNat_lt.1 hbudget
    simp only [length_append, length_singleton]
    omega
  · intro x hx a ha
    rw [List.head?_append, hhead] at ha
    cases ha
    rcases mem_append.1 hx with hx | hx
    · exact hchain.samePlan x hx anchor hhead
    · rwa [mem_singleton.1 hx]

end OneChain

end Rounds

def AnchorsOnce {J : Backend} (w : Core J) : Effect → Prop
  | .chore (.note (.replanRound r) _) => r.round = 0 → w.projection.replanRounds = []
  | _ => True

section Runs

variable {P : Platform} {J : Backend} {rel : J.State → List JournalEntry → Prop} {w w' : Core J}
  {log new : List JournalEntry} {e : Effect}

/-- The rounds of a running coordinator are those of its log. -/
theorem Mirrored.replanRounds_eq (hmirrored : Mirrored rel w log) :
    w.projection.replanRounds = replanLog log :=
  hmirrored.collected collects_replanRounds rfl

theorem replanLog_append : replanLog (log ++ new) = replanLog log ++ replanLog new :=
  filterMap_append

variable {r : ReplanRound}

/-- A round is brought into the journal by the note of it only. -/
theorem Platform.Guarded.note_of_replanRound (hguarded : P.Guarded w e)
    (hr : JournalEntry.replanRound r ∈ e.entries) :
    ∃ strict, e = .chore (.note (.replanRound r) strict) := by
  rcases hguarded.mem_entries hr with ⟨fact, strict, rfl, hfact⟩ | ⟨strict, ops, rfl⟩ |
    ⟨_, _, _, hentry, _⟩ | ⟨_, _, _, _, _, _, _, hentry⟩
  · cases fact <;> cases hfact
    exact ⟨strict, rfl⟩
  · cases hguarded
  · cases hentry
  · cases hentry

variable {blake3 : List UInt8 → ByteVec 32} {strict : Bool}

theorem Did.replanLog_of_omits (hdid : Did blake3 w log e new w') (hguarded : P.Guarded w e)
    (homits : e.Omits .replanRound) : replanLog new = [] := by
  apply filterMap_eq_nil_iff.2
  intro x hx
  obtain ⟨y, hy, n, rfl⟩ := hdid.exists_entry hx
  cases y with
  | replanRound r =>
    obtain ⟨_, rfl⟩ := hguarded.note_of_replanRound hy
    exact absurd rfl homits
  | _ => rfl

/-- The note of a round brings the round, numbered, or nothing. -/
theorem Did.new_of_replanRound
    (hdid : Did blake3 w log (.chore (.note (.replanRound r) strict)) new w') :
    new = [] ∨ new = [.replanRound { r with seq := UInt64.ofNat (log.length + 1) }] :=
  hdid.new_of_fresh rfl

/-- One effect keeps the rounds one chain. -/
theorem OneChain.did (hchain : OneChain (replanLog log)) (hmirrored : Mirrored rel w log)
    (hguarded : P.Guarded w e) (hdue : ReplansDue w e) (honce : AnchorsOnce w e)
    (hdid : Did P.ids.blake3 w log e new w') : OneChain (replanLog (log ++ new)) := by
  rw [replanLog_append]
  by_cases homits : e.Omits .replanRound
  · rwa [hdid.replanLog_of_omits hguarded homits, append_nil]
  obtain ⟨fact, strict, rfl, hkind⟩ := Effect.exists_note_of_not_omits homits
  cases fact with
  | replanRound r =>
    rcases hdid.new_of_replanRound with rfl | rfl
    · rwa [show replanLog [] = [] from rfl, append_nil]
    have hrounds := hmirrored.replanRounds_eq
    by_cases hzero : r.round = 0
    · rw [← hrounds, honce hzero]
      refine ⟨?_, (by decide : 1 ≤ MAX_SHAPER_ROUNDS.toNat), ?_⟩
      · intro i x hx
        obtain ⟨hi, hget⟩ := List.getElem?_eq_some_iff.1 hx
        have hi' : i = 0 := Nat.lt_one_iff.1 hi
        subst hi'
        rw [← hget]
        exact congrArg UInt32.toNat hzero
      · intro x hx a ha
        cases ha
        rw [mem_singleton.1 hx]
        exact ⟨rfl, rfl, rfl⟩
    · obtain ⟨anchor, latest, hlatest, hround, hsame⟩ := hdue.resolve_left hzero
      obtain ⟨hfind, hmax, hbudget⟩ := replanDue_eq_some hlatest
      rw [hrounds] at hfind hmax
      have hsome : replanLog log ≠ [] := by
        intro hnil
        rw [hnil] at hfind
        cases hfind
      have hsnoc := (dropLast_append_getLast hsome).symm
      rw [hsnoc] at hchain hfind hmax ⊢
      rw [hchain.find?_eq_head?] at hfind
      rw [hchain.latest_eq] at hmax
      cases hmax
      exact hchain.append_due hfind hbudget hround hsame
  | reRankRound r =>
    exact absurd hkind (RunFact.kind_reRankRound_ne (by decide) (by decide) r)
  | _ => cases hkind

def oneChainRuns (P : Platform) (J : Backend) (rel : J.State → List JournalEntry → Prop) :
    RunInvariant P J rel fun w e => (HasRoom w e ∧ AnchorsOnce w e) ∧ ReplansDue w e where
  up _ log := OneChain (replanLog log)
  down log := OneChain (replanLog log)
  boot _ _ _ _ hdown := hdown
  facing _ hup := hup
  crash _ hup := hup
  step hmirrored hup hguarded he hdid _ := hup.did hmirrored hguarded he.2 he.1.2 hdid

theorem oneChain_of_reaches (hJ : J.ReadsBack P.ids.blake3 rel)
    (hreaches : Reaches P J (fun w e => HasRoom w e ∧ AnchorsOnce w e) (.up w todo)) :
    ∃ log, Mirrored rel w log ∧ OneChain w.projection.replanRounds := by
  have hdoes : ∀ action w, (oneChainRuns P J rel).Live w → (P.act action).AsLong (P.handler J)
      (fun w e => (HasRoom w e ∧ AnchorsOnce w e) ∧ P.Guarded w e) ReplansDue w :=
    fun action w _ => (replansThread_act action w).asLong
  have hnew : OneChain (replanLog []) := ⟨by simp [replanLog], by decide, by simp [replanLog]⟩
  obtain ⟨log, hmirrored, hchain⟩ := RunInvariant.holds_of_reaches_of_asLong hJ
    (fun _ _ he => he.1) hdoes hnew hreaches
  exact ⟨log, hmirrored, hmirrored.replanRounds_eq.symm ▸ hchain⟩

def Holding (rel : J.State → List JournalEntry → Prop) (rounds : List ReplanRoundRecord)
    (w : Core J) : Prop :=
  ∃ log, Mirrored rel w log ∧ replanLog log = rounds

variable (hJ : J.ReadsBack P.ids.blake3 rel) {rounds : List ReplanRoundRecord}
include hJ

theorem Holding.tend (hw : Holding rel rounds w) (hfault : Faultless w (.chore c))
    (homits : c.Omits .replanRound) : Holding rel rounds (tend P.ids.blake3 J c w).2 := by
  obtain ⟨log, hmirrored, hlog⟩ := hw
  have hguarded : P.Guarded w (.chore c) := trivial
  obtain ⟨new, hdid, hmirrored', -⟩ := hmirrored.perform hJ hguarded hfault.1
  refine ⟨log ++ new, hmirrored', ?_⟩
  rw [replanLog_append, hdid.replanLog_of_omits hguarded homits, append_nil, hlog]

theorem Holding.note (hw : Holding rel rounds w)
    (hfault : Faultless w (.chore (.note (.replanRound r) strict))) :
    ∃ seq, Holding rel (rounds ++ [{ r with seq }])
      (Coordinator.tend P.ids.blake3 J (.note (.replanRound r) strict) w).2 := by
  obtain ⟨log, hmirrored, hlog⟩ := hw
  have hguarded : P.Guarded w (.chore (.note (.replanRound r) strict)) := trivial
  obtain ⟨new, hdid, hmirrored', hrecorded, -⟩ := hmirrored.perform hJ hguarded hfault.1
  have hnew : new = [.replanRound { r with seq := UInt64.ofNat (log.length + 1) }] := by
    rcases hdid.new_of_replanRound with rfl | hnew
    · have hlength := congrArg List.length (hrecorded hfault.2)
      rw [Effect.entries, DedupLog.appendAll_cons, DedupLog.append_of_fresh rfl] at hlength
      simp [DedupLog.appendAll] at hlength
    · exact hnew
  refine ⟨UInt64.ofNat (log.length + 1), log ++ new, hmirrored', ?_⟩
  rw [replanLog_append, hnew, hlog]
  rfl

theorem Holding.of_quiet (hw : Holding rel rounds w) {prog : Routine J Unit}
    (hquiet : Quiet .replanRound prog) :
    prog.Yields (Coordinator.tend P.ids.blake3 J) (fun w c => Faultless w (.chore c))
      (fun _ _ => True) w fun _ w' => Holding rel rounds w' := by
  refine ⟨(hquiet.along (fun _ _ _ => trivial) w).asLong, fun hfaultless => ?_⟩
  have homits : prog.Along (Coordinator.tend P.ids.blake3 J) (fun _ c => c.Omits .replanRound) w :=
    hquiet.along (fun _ _ homits => homits) w
  exact (hfaultless.and homits).preserves (fun _ _ hw he => hw.tend hJ he.1 he.2) hw

/-- The pass replaces a round that is over, if it can read the prompt and the warrant. -/
theorem settleReplanRounds_of_roundOver (hw : Holding rel (front ++ [last]) w)
    (hchain : OneChain (front ++ [last])) (hhead : (front ++ [last]).head? = some anchor)
    (hover : RoundOver w.projection last)
    (hstore : w.outside.store = some store) (htakes : store.takes = true)
    (hprompt : (store.get anchor.basePromptRef).bind decodeUtf8 = some prompt)
    (hwarrant : (store.get anchor.warrantRef).bind P.decodeWarrant = some warrant) :
    (P.settleReplanRounds : Routine J Unit).Yields (Coordinator.tend P.ids.blake3 J)
      (fun w c => Faultless w (.chore c)) (fun _ _ => True) w fun _ w' =>
        ∃ next, Holding rel (front ++ [last] ++ [next]) w' ∧ next.round = last.round + 1 ∧
          next.failedSteps = (replanFailures w.projection last.shaperMoteId).map (·.1) ∧
          SamePlan next anchor := by
  have hrounds : w.projection.replanRounds = front ++ [last] := by
    obtain ⟨log, hmirrored, hlog⟩ := hw
    rw [hmirrored.replanRounds_eq, hlog]
  have hdue := hchain.replanDue_eq hrounds hhead hover
  have hput : ∀ bytes, ∃ ref, (w.put P.ids.blake3 bytes).1 = some ref := by
    intro bytes
    unfold Core.put
    rw [hstore]
    dsimp only
    rw [if_pos htakes]
    exact ⟨_, rfl⟩
  refine yields_tend_look_bind trivial ?_
  rw [hstore, hdue]
  dsimp only
  rw [hprompt, hwarrant]
  refine Program.Yields.bind
    (S := fun ref w' => (∃ r, ref = some r) ∧ Holding rel (front ++ [last]) w')
    (yields_call fun hfault => ⟨trivial, hput _, hw.tend hJ hfault trivial⟩) ?_
  rintro _ w₁ ⟨⟨ref, rfl⟩, hw₁⟩
  refine Program.Yields.bind (S := fun _ w' => ∃ next,
      Holding rel (front ++ [last] ++ [next]) w' ∧ next.round = last.round + 1 ∧
      next.failedSteps = (replanFailures w.projection last.shaperMoteId).map (·.1) ∧
      SamePlan next anchor) (yields_call fun hfault => ⟨trivial, ?_⟩) ?_
  · obtain ⟨seq, hw₂⟩ := hw₁.note hJ hfault
    exact ⟨_, hw₂, rfl, rfl, rfl, rfl, rfl⟩
  rintro recorded w₂ ⟨next, hw₂, hnext⟩
  cases recorded with
  | error err => exact Program.yields_pure ⟨next, hw₂, hnext⟩
  | ok seq =>
    refine (hw₂.of_quiet hJ (P.quiet_materialize ..)).mono fun _ _ hw₃ => ?_
    exact ⟨next, hw₃, hnext⟩

end Runs

/-- While no second shaper is anchored, the rounds are one chain with one plan, and a round that
is over is replaced by the next of its chain. -/
theorem replan_of_reaches {P : Platform} {J : Backend} (hJ : IsJournal P J) {w : Core J}
    {todo : List Action}
    (hreaches : Reaches P J (fun w e => HasRoom w e ∧ AnchorsOnce w e) (.up w todo)) :
    OneChain w.projection.replanRounds ∧
      ∀ (front : List ReplanRoundRecord) (anchor last : ReplanRoundRecord),
      w.projection.replanRounds = front ++ [last] → (front ++ [last]).head? = some anchor →
      RoundOver w.projection last →
      ∀ (store : Store) (prompt : String) (warrant : WarrantSpec),
      w.outside.store = some store → store.takes = true →
      (store.get anchor.basePromptRef).bind decodeUtf8 = some prompt →
      (store.get anchor.warrantRef).bind P.decodeWarrant = some warrant →
      (P.settleReplanRounds : Routine J Unit).Along (tend P.ids.blake3 J)
        (fun w c => Faultless w (.chore c)) w →
      ∃ next, ((P.settleReplanRounds : Routine J Unit).run
          (tend P.ids.blake3 J) w).2.projection.replanRounds = front ++ [last] ++ [next] ∧
        next.round = last.round + 1 ∧
        next.failedSteps = (replanFailures w.projection last.shaperMoteId).map (·.1) ∧
        SamePlan next anchor := by
  obtain ⟨rel, hreads⟩ := hJ.readsBack
  obtain ⟨log, hmirrored, hchain⟩ := oneChain_of_reaches hreads hreaches
  refine ⟨hchain, ?_⟩
  intro front anchor last hrounds hhead hover store prompt warrant hstore htakes hprompt hwarrant
    hfaultless
  have hw : Holding rel (front ++ [last]) w :=
    ⟨log, hmirrored, hmirrored.replanRounds_eq.symm.trans hrounds⟩
  obtain ⟨next, ⟨log', hmirrored', hlog'⟩, hnext⟩ :=
    (settleReplanRounds_of_roundOver hreads hw (hrounds ▸ hchain) hhead hover hstore htakes hprompt
      hwarrant).post hfaultless
  exact ⟨next, hmirrored'.replanRounds_eq.trans hlog', hnext⟩

/-- A step that plans other steps. -/
def shaperDef (prompt : String) : MoteDef :=
  { pureDef ((∅ : Std.ExtTreeMap ConfigKey ConfigVal).insert PROMPT_KEY (utf8Bytes prompt)) with
    isTopologyShaper := true }

def planPlatform : Platform :=
  { agentPlatform with
    buildReplanShaper := fun _ prompt round => stepAt (shaperDef prompt) (round.toUInt8 + 10) [] }

abbrev planJournal : Backend := InMemory.inMemory planPlatform.ids.blake3

def planStore : Store where
  get ref := [utf8Bytes "a", utf8Bytes "b", planPlatform.encodeWarrant {}].find? fun text =>
    planPlatform.contentRefOf text = ref
  contains _ := true
  takes := true

def planOutside : Outside := { sampleOutside with store := some planStore }

def shaperAt (prompt : String) (position : UInt8) : Mote := stepAt (shaperDef prompt) position []

def submitShaper (prompt : String) (position : UInt8) : Command :=
  .submit (shaperDef prompt) (.replicate 32 0) [position] [] {} false false

def plannedStep (shaper : Mote) : Mote := stepAt (pureDef ∅) 5 [⟨shaper.id, ⟨.data, false⟩⟩]

def submitPlanned (shaper : Mote) : Command :=
  .submit (pureDef ∅) (.replicate 32 0) [5] [⟨shaper.id, ⟨.data, false⟩⟩] {} false false

def runPlanned (shaper : Mote) : List (List Command) :=
  [[.commit (commitOf shaper.id)], [submitPlanned shaper], [poll 1]]

def failPlanned (shaper : Mote) : Command :=
  .reportFailure (plannedStep shaper).id (plannedStep shaper).id.bytes .deadLettered 1 ""

def planStart : Core planJournal :=
  (started planOutside planPlatform.ids.blake3 .new).after planPlatform planOutside [.recover]

def planAfter (batches : List (List Command)) : Core planJournal :=
  planStart.after planPlatform planOutside (batches.flatMap (plan []))

instance {J : Backend} (w : Core J) (e : Effect) : Decidable (AnchorsOnce w e) := by
  unfold AnchorsOnce
  split <;> infer_instance

def runOnePlan : List (List Command) :=
  [registerSampleRun, submitShaper "a" 1] :: runPlanned (shaperAt "a" 1)

/-- The step has failed, and the settle passes are still to come. -/
def planFailed : Core planJournal :=
  (planAfter runOnePlan).after planPlatform planOutside
    [.flush [], .command (failPlanned (shaperAt "a" 1)), .flush []]

theorem replan_of_reaches_onePlan :
    ∃ anchor next, planFailed.projection.replanRounds = [anchor] ∧
      ((planPlatform.settleReplanRounds : Routine planJournal Unit).run
        (tend planPlatform.ids.blake3 planJournal) planFailed).2.projection.replanRounds =
          [anchor, next] ∧
      next.round = anchor.round + 1 ∧ SamePlan next anchor := by
  have hruns : Reaches planPlatform planJournal (fun w e => HasRoom w e ∧ AnchorsOnce w e)
      (.up (planAfter runOnePlan) []) :=
    reaches_batches planOutside _ (by decide) (by decide +kernel)
  have hfails : Lawful planPlatform (fun w e => HasRoom w e ∧ AnchorsOnce w e) planOutside
      [.flush [], .command (failPlanned (shaperAt "a" 1)), .flush []] (planAfter runOnePlan) := by
    decide +kernel
  have hreaches : Reaches planPlatform planJournal (fun w e => HasRoom w e ∧ AnchorsOnce w e)
      (.up planFailed [.settle]) :=
    hruns.trans (.head (.drain [failPlanned (shaperAt "a" 1)] (by simp) (by decide))
      (steps_actions planOutside [.settle] hfails))
  have hone : planFailed.projection.replanRounds.length = 1 := by decide +kernel
  obtain ⟨anchor, hrounds⟩ := length_eq_one_iff.1 hone
  have hmem : anchor ∈ planFailed.projection.replanRounds := by rw [hrounds]; simp
  have hbudget : ∀ r ∈ planFailed.projection.replanRounds, r.round + 1 < MAX_SHAPER_ROUNDS := by
    decide +kernel
  have hcommitted : ∀ r ∈ planFailed.projection.replanRounds,
      planFailed.projection.stateOfId r.shaperMoteId = .committed := by decide +kernel
  have hsettled : ∀ r ∈ planFailed.projection.replanRounds,
      ∀ c ∈ planFailed.projection.childrenOf r.shaperMoteId,
      isTerminal (planFailed.projection.stateOfId c.1) = true := by decide +kernel
  have hfailed : ∀ r ∈ planFailed.projection.replanRounds,
      ∃ c ∈ planFailed.projection.childrenOf r.shaperMoteId,
      planFailed.projection.stateOfId c.1 = .failed := by decide +kernel
  have hprompt : ∀ r ∈ planFailed.projection.replanRounds,
      (planStore.get r.basePromptRef).bind decodeUtf8 = some "a" := by decide +kernel
  have hwarrant : ∀ r ∈ planFailed.projection.replanRounds,
      ((planStore.get r.warrantRef).bind planPlatform.decodeWarrant).isSome = true := by
    decide +kernel
  have hfaultless : (planPlatform.settleReplanRounds : Routine planJournal Unit).Along
      (tend planPlatform.ids.blake3 planJournal) (fun w c => Faultless w (.chore c))
      planFailed := by
    decide +kernel
  obtain ⟨warrant, hwarrant⟩ := isSome_iff_exists.1 (hwarrant anchor hmem)
  obtain ⟨next, hnext, hround, -, hsame⟩ := (replan_of_reaches (.inl rfl) hreaches).2 [] anchor
    anchor hrounds rfl
    ⟨hbudget anchor hmem, hcommitted anchor hmem, hsettled anchor hmem, hfailed anchor hmem⟩
    planStore "a" warrant rfl rfl (hprompt anchor hmem) hwarrant hfaultless
  refine ⟨anchor, next, hrounds, ?_, hround, hsame⟩
  rw [hnext]
  rfl

def failSecondPlan : List (List Command) :=
  [registerSampleRun, submitShaper "a" 1, submitShaper "b" 2] ::
    runPlanned (shaperAt "b" 2) ++ [[failPlanned (shaperAt "b" 2)]]

/-- The step of the second shaper is what failed, and the round that replaces it is made from the
prompt of the first. -/
theorem not_samePlan_failSecondPlan :
    let w := planAfter failSecondPlan
    let ofShaper := fun (r : ReplanRoundRecord) (prompt : String) =>
      decide (r.basePromptRef = planPlatform.contentRefOf (utf8Bytes prompt))
    Reaches planPlatform planJournal Faultless (.up w []) ∧
      w.projection.stateOfId (shaperAt "a" 1).id = .pending ∧
      (plannedStep (shaperAt "b" 2)).parents.map (·.parentId) = [(shaperAt "b" 2).id] ∧
      w.projection.replanRounds.map (fun r => (r.round, ofShaper r "a", ofShaper r "b")) =
        [(0, true, false), (0, false, true), (1, true, false)] ∧
      w.projection.replanRounds.map (·.failedSteps) =
        [[], [], [(plannedStep (shaperAt "b" 2)).id]] := by
  have hreaches : Reaches planPlatform planJournal Faultless (.up (planAfter failSecondPlan) []) :=
    reaches_batches planOutside _ (by decide) (by decide +kernel)
  exact ⟨hreaches, by decide +kernel, by decide +kernel, by decide +kernel, by decide +kernel⟩

end Kortecx.Coordinator
