import Kortecx.Coordinator.Guards
import Kortecx.Projection.Journaled

/-!
The live state is the replay of the journal. Every append of the coordinator folds the entry
that comes back, unless the watermark says it is folded already; so the watermark is always
the last seq of the journal, and what the projection owes to the journal is what a fold of
the whole journal gives. The one thing a fold can fail on, a second commit of a Mote, does
not happen: a commit's key is its Mote's id, and the journal keeps one commit per key.
-/

namespace Kortecx.Coordinator

open Lib Mote Journal Projection List DedupLog Lib.DedupLog
open Kortecx.Journal.Backend (SEQ_LIMIT)

def KeyedCommit : JournalEntry → Prop
  | .committed c => c.idempotencyKey = c.moteId.bytes
  | _ => True

structure Follows {J : Backend} (w : Core J) (log : List JournalEntry) : Prop where
  wellFormed : DedupLog.WellFormed entryScheme log
  keyed : ∀ e ∈ log, KeyedCommit e
  room : log.length + 1 < SEQ_LIMIT
  watermark : w.foldedThrough = UInt64.ofNat log.length
  journaled : ∃ s, replay none {} log = .ok s ∧ w.projection.journaled = s.journaled

variable {J : Backend} {w : Core J} {log : List JournalEntry} {e : JournalEntry}

namespace Follows

variable (hfollows : Follows w log)

include hfollows

/-- The flags of every Mote are those of the log. -/
theorem tracks (id : MoteId) : Tracks id log (w.projection.info id) := by
  obtain ⟨s, hreplay, hjournaled⟩ := hfollows.journaled
  exact (tracks_replay hreplay).of_undeclared ((State.journaled_eq_iff.1 hjournaled).1 id)

/-- What is collected from the entries is what the log holds of it. -/
theorem collected {β : Type} {get : State → List β} {pick : JournalEntry → Option β}
    (hcollects : Collects get pick) (hnew : get {} = []) :
    get w.projection = log.filterMap pick := by
  obtain ⟨s, hreplay, hjournaled⟩ := hfollows.journaled
  rw [← hcollects.runRecords, (State.journaled_eq_iff.1 hjournaled).2, hcollects.runRecords,
    hcollects.replay hreplay, hnew, nil_append]

/-- A commit that is not in the log is of a Mote without one. -/
theorem uncommitted_of_find {c : Committed} (hkey : c.idempotencyKey = c.moteId.bytes)
    (hfind : DedupLog.find entryScheme log (.committed c) = none) :
    (w.projection.info c.moteId).committed = none := by
  rw [← Option.not_isSome_iff_eq_none, (hfollows.tracks c.moteId).committed]
  intro hany
  obtain ⟨b, hb, hcommits⟩ := any_eq_true.1 hany
  cases b with
  | committed c' =>
    have hid : c'.moteId = c.moteId := by simpa [commits] using hcommits
    have hkey' : c'.idempotencyKey = c'.moteId.bytes := hfollows.keyed _ hb
    have hsame : dedupeKey (.committed c') = dedupeKey (.committed c) := by
      apply (dedupeKey_eq_iff rfl).2
      exact ⟨rfl, hkey'.trans ((congrArg MoteId.bytes hid).trans hkey.symm)⟩
    have hnone : dedupeKey (.committed c') = none :=
      key_none_of_find_eq_none hfind hb hsame
    exact absurd hnone (dedupeKey_ne_none.2 rfl)
  | _ => simp [commits] at hcommits

theorem toNat_watermark : w.foldedThrough.toNat = log.length := by
  rw [hfollows.watermark]
  exact Backend.toNat_ofNat_seq (Nat.lt_of_succ_lt hfollows.room)

/-- Register or anything else that keeps what the state owes to the journal. -/
theorem of_journaled {w' : Core J} (hwatermark : w'.foldedThrough = w.foldedThrough)
    (hjournaled : w'.projection.journaled = w.projection.journaled) : Follows w' log where
  wellFormed := hfollows.wellFormed
  keyed := hfollows.keyed
  room := hfollows.room
  watermark := hwatermark.trans hfollows.watermark
  journaled := by
    obtain ⟨s, hreplay, hsame⟩ := hfollows.journaled
    exact ⟨s, hreplay, hjournaled.trans hsame⟩

end Follows

namespace Core

def grown (w : Core J) (projection : State) (seq : Nat) : Core J :=
  { w with projection, foldedThrough := UInt64.ofNat seq }

end Core

/-- What an append that the journal accepted leaves: the log with some new entries, and
their fold. -/
structure Grows {J : Backend} (w : Core J) (log new : List JournalEntry) (w' : Core J) : Prop where
  folds : ∃ s, replay none w.projection new = .ok s ∧ w' = w.grown s (log ++ new).length
  follows : Follows w' (log ++ new)

variable {es : List JournalEntry}

theorem Grows.refl (hfollows : Follows w log) : Grows w log [] w := by
  refine ⟨⟨w.projection, rfl, ?_⟩, by rwa [append_nil]⟩
  unfold Core.grown
  rw [append_nil, ← hfollows.watermark]

/-- An entry the log already has is not folded again. -/
theorem foldNew_of_mem (hfollows : Follows w log) (he : e ∈ log) : w.foldNew e = (.ok (), w) := by
  have hseq : e.seq.toNat ≤ log.length := (hfollows.wellFormed.number_mem he).2
  unfold Core.foldNew
  rw [if_neg]
  rw [UInt64.lt_iff_toNat_lt, hfollows.toNat_watermark]
  omega

theorem seq_stamp (log : List JournalEntry) (e : JournalEntry) :
    (entryScheme.stamp (log.length + 1) e).seq = UInt64.ofNat (log.length + 1) :=
  seq_setSeq e

theorem toNat_seq_stamp (hroom : log.length + 1 < SEQ_LIMIT) (e : JournalEntry) :
    (entryScheme.stamp (log.length + 1) e).seq.toNat = log.length + 1 := by
  rw [seq_stamp, Backend.toNat_ofNat_seq hroom]

/-- The fold of a new entry succeeds: it fails on a second commit only, and the Mote of a
new commit has none. -/
theorem fold_of_fresh (hfollows : Follows w log) (hkeyed : KeyedCommit e)
    (hroom : log.length + 2 < SEQ_LIMIT) (hfind : DedupLog.find entryScheme log e = none) :
    ∃ s seq, fold none w.projection (entryScheme.stamp (log.length + 1) e) = (s, .ok seq) ∧
      Grows w log [entryScheme.stamp (log.length + 1) e] (w.grown s (log.length + 1)) := by
  set x := entryScheme.stamp (log.length + 1) e
  have hkeyed' : KeyedCommit x := by
    cases e <;> exact hkeyed
  have huncommitted : ∀ c, x = .committed c → (w.projection.info c.moteId).committed = none := by
    intro c hc
    rw [hc] at hkeyed'
    apply hfollows.uncommitted_of_find hkeyed'
    rw [← hc, find_congr_key (entryScheme.key_stamp _ e)]
    exact hfind
  obtain ⟨seq, hok⟩ := fold_none_eq_ok x huncommitted
  have hfold : fold none w.projection x = ((fold none w.projection x).1, .ok seq) :=
    Prod.ext rfl hok
  have hlength : (log ++ [x]).length = log.length + 1 := by simp
  refine ⟨_, seq, hfold, ⟨_, replay_singleton hfold, by rw [hlength]⟩, ?_⟩
  constructor
  · apply hfollows.wellFormed.snoc _ hfind
    change log.length + 1 < 2 ^ 64
    have hlimit : SEQ_LIMIT ≤ 2 ^ 64 := by decide
    omega
  · intro b hb
    rcases mem_append.1 hb with hb | hb
    · exact hfollows.keyed b hb
    rw [mem_singleton.1 hb]
    exact hkeyed'
  · rw [hlength]
    omega
  · rw [hlength]
    rfl
  · obtain ⟨s, hreplay, hjournaled⟩ := hfollows.journaled
    obtain ⟨s', seq', hfold'⟩ := exists_fold_of_journaled hjournaled hfold
    refine ⟨s', ?_, journaled_fold hjournaled hfold hfold'⟩
    rw [replay_append, hreplay]
    exact replay_singleton hfold'

theorem Grows.trans (h₁ : Grows w log new w₁)
    (h₂ : Grows w₁ (log ++ new) new' w₂) : Grows w log (new ++ new') w₂ := by
  obtain ⟨s₁, hreplay₁, rfl⟩ := h₁.folds
  obtain ⟨s₂, hreplay₂, rfl⟩ := h₂.folds
  have hlog : log ++ (new ++ new') = log ++ new ++ new' := (append_assoc ..).symm
  refine ⟨⟨s₂, ?_, ?_⟩, ?_⟩
  · rw [replay_append, hreplay₁]
    exact hreplay₂
  · rw [hlog]
    rfl
  · rw [hlog]
    exact h₂.follows

theorem foldNew_append (hfollows : Follows w log) (hkeyed : KeyedCommit e)
    (hroom : log.length + 2 < SEQ_LIMIT) :
    ∃ new w', (DedupLog.append entryScheme log e).1 = log ++ new ∧
      w.foldNew (DedupLog.append entryScheme log e).2 = (.ok (), w') ∧ Grows w log new w' := by
  rcases append_cases entryScheme log e with ⟨b, hfind, heq⟩ | ⟨hfind, heq⟩
  · refine ⟨[], w, ?_, ?_, .refl hfollows⟩
    · rw [heq, append_nil]
    · rw [heq]
      exact foldNew_of_mem hfollows (mem_of_find_eq_some hfind).1
  · obtain ⟨s, seq, hfold, hgrows⟩ := fold_of_fresh hfollows hkeyed hroom hfind
    refine ⟨_, _, by rw [heq], ?_, hgrows⟩
    have hlarger : w.foldedThrough < (entryScheme.stamp (log.length + 1) e).seq := by
      rw [UInt64.lt_iff_toNat_lt, hfollows.toNat_watermark, toNat_seq_stamp (by omega)]
      omega
    rw [heq, Core.foldNew, if_pos hlarger, hfold]
    simp only [Core.grown, seq_stamp]

/-- One entry of a batch and the rest of it. -/
theorem length_append_new (happend : (DedupLog.append entryScheme log e).1 = log ++ new)
    (hroom : log.length + (e :: es).length + 1 < SEQ_LIMIT) :
    (log ++ new).length + es.length + 1 < SEQ_LIMIT := by
  have hlength := length_append_le entryScheme log e
  rw [happend] at hlength
  rw [length_cons] at hroom
  omega

theorem foldRepudiations_appendAll (hfollows : Follows w log) (hkeyed : ∀ e ∈ es, KeyedCommit e)
    (hroom : log.length + es.length + 1 < SEQ_LIMIT) :
    ∃ new w', (appendAll entryScheme log es).1 = log ++ new ∧
      w.foldRepudiations (appendAll entryScheme log es).2 = (.ok (), w') ∧
      Grows w log new w' := by
  induction es generalizing w log with
  | nil => exact ⟨[], w, (append_nil log).symm, rfl, .refl hfollows⟩
  | cons e es ih =>
    have hfirst : log.length + 2 < SEQ_LIMIT := by
      rw [length_cons] at hroom
      omega
    obtain ⟨new, w₁, happend, hfold, hgrows⟩ :=
      foldNew_append hfollows (hkeyed e (by simp)) hfirst
    obtain ⟨new', w₂, happend', hfold', hgrows'⟩ :=
      ih hgrows.follows (fun x hx => hkeyed x (by simp [hx])) (length_append_new happend hroom)
    refine ⟨new ++ new', w₂, ?_, ?_, hgrows.trans hgrows'⟩
    · rw [appendAll_cons, happend, happend', append_assoc]
    · rw [appendAll_cons, Core.foldRepudiations, hfold, happend]
      exact hfold'

/-- The seqs `apply_batch` has folded so far are those between the head it started from and
the watermark, so that its two tests come to one comparison with the watermark. -/
theorem foldCommits_appendAll {seqBefore : UInt64}
    (hfollows : Follows w log) (hkeyed : ∀ e ∈ es, KeyedCommit e)
    (hroom : log.length + es.length + 1 < SEQ_LIMIT) (hbefore : seqBefore.toNat ≤ log.length)
    (hnewSeqs : ∀ s, s ∈ newSeqs ↔ seqBefore.toNat < s.toNat ∧ s.toNat ≤ log.length) :
    ∃ new w' applied, (appendAll entryScheme log es).1 = log ++ new ∧
      w.foldCommits seqBefore newSeqs (appendAll entryScheme log es).2 =
        (.ok applied, w') ∧ Grows w log new w' := by
  induction es generalizing w log newSeqs with
  | nil => exact ⟨[], w, [], (append_nil log).symm, rfl, .refl hfollows⟩
  | cons e es ih =>
    have hfirst : log.length + 2 < SEQ_LIMIT := by
      rw [length_cons] at hroom
      omega
    have hrest : ∀ x ∈ es, KeyedCommit x := fun x hx => hkeyed x (by simp [hx])
    rcases append_cases entryScheme log e with ⟨b, hfind, heq⟩ | ⟨hfind, heq⟩
    · have hold : ¬ (seqBefore < b.seq ∧ b.seq ∉ newSeqs) := by
        have hseq : b.seq.toNat ≤ log.length :=
          (hfollows.wellFormed.number_mem (mem_of_find_eq_some hfind).1).2
        rw [hnewSeqs, UInt64.lt_iff_toNat_lt]
        omega
      obtain ⟨new, w', applied, happend, hfolded, hgrows⟩ :=
        ih hfollows hrest (by rw [length_cons] at hroom; omega) hbefore hnewSeqs
      refine ⟨new, w', (b.seq, false) :: applied, ?_, ?_, hgrows⟩
      · rw [appendAll_cons, heq]
        exact happend
      · rw [appendAll_cons, heq]
        rw [Core.foldCommits, if_neg hold, hfolded]
        rfl
    · obtain ⟨s, seq, hfold, hgrows⟩ := fold_of_fresh hfollows (hkeyed e (by simp)) hfirst hfind
      have hseq := toNat_seq_stamp (Nat.lt_of_succ_lt hfirst) e
      set x := entryScheme.stamp (log.length + 1) e
      have hfresh : seqBefore < x.seq ∧ x.seq ∉ newSeqs := by
        rw [hnewSeqs, UInt64.lt_iff_toNat_lt]
        omega
      have hlength : (log ++ [x]).length = log.length + 1 := by simp
      have hnewSeqs' : ∀ s, s ∈ x.seq :: newSeqs ↔
          seqBefore.toNat < s.toNat ∧ s.toNat ≤ (log ++ [x]).length := by
        intro s
        rw [mem_cons, hnewSeqs, hlength, ← UInt64.toNat_inj]
        omega
      obtain ⟨new', w', applied, happend', hfolded, hgrows'⟩ :=
        ih hgrows.follows hrest (by rw [length_cons] at hroom; omega) (by omega) hnewSeqs'
      refine ⟨[x] ++ new', w', (x.seq, true) :: applied, ?_, ?_, hgrows.trans hgrows'⟩
      · rw [appendAll_cons, heq]
        rw [happend', append_assoc]
      · have hgrown : ({ w with projection := s, foldedThrough := x.seq } : Core J) =
            w.grown s (log.length + 1) := by
          simp only [Core.grown, x, seq_stamp]
        rw [appendAll_cons, heq]
        rw [Core.foldCommits, if_pos hfresh, hfold]
        dsimp only
        rw [hgrown, hfolded]
        rfl

namespace Effect

def entries : Effect → List JournalEntry
  | .chore (.note fact _) => [fact.entry]
  | .record e _ _ => [e]
  | .recordCommits es => es
  | .recordRepudiations es => es
  | _ => []

/-- The edits made once they are appended. -/
def ops : Effect → List Op
  | .record _ _ ops => ops
  | _ => []

def edits : Effect → List Op
  | .chore (.edit e) => [e]
  | .update op => [op]
  | .record _ _ ops => ops
  | _ => []

end Effect

def HasRoom {J : Backend} (w : Core J) (e : Effect) : Prop :=
  (J.records w.journal).length + e.entries.length + 1 < SEQ_LIMIT

/-- The effect meets with no error: the journal takes its entries, and the fold takes what
comes back. -/
def Recorded {J : Backend} (w : Core J) : Effect → Prop
  | .chore (.note fact strict) => (w.record fact.entry strict []).1.isOk
  | .record e strict ops => (w.record e strict ops).1.isOk
  | .recordCommits es => (w.recordCommits es).1.isOk
  | .recordRepudiations es => (w.recordRepudiations es).1.isOk
  | _ => True

/-- The effect meets with no error, and the journal has seqs left for it. -/
def Faultless {J : Backend} (w : Core J) (e : Effect) : Prop :=
  HasRoom w e ∧ Recorded w e

/-- What one effect did, with the entries it brought into the journal. -/
inductive Did (blake3 : List UInt8 → ByteVec 32) {J : Backend} (w : Core J)
    (log : List JournalEntry) : Effect → List JournalEntry → Core J → Prop
  | asked (q : Query) : Did blake3 w log (.chore (.query q)) [] (ask blake3 J q w).2
  | edited (e : Edit) : Did blake3 w log (.chore (.edit e)) [] (w.edit e)
  | updated (op : Op) : Did blake3 w log (.update op) [] (w.apply op)
  | refused (e : Effect) : Did blake3 w log e [] w
  | grew {e : Effect} {new : List JournalEntry} {s : State} (journal : J.State)
      (hlog : (appendAll entryScheme log e.entries).1 = log ++ new)
      (hreplay : replay none w.projection new = .ok s) :
      Did blake3 w log e new
        ((({ w with journal } : Core J).grown s (log ++ new).length).applyAll e.ops)

structure Mirrored {J : Backend} (rel : J.State → List JournalEntry → Prop) (w : Core J)
    (log : List JournalEntry) : Prop extends Follows w log where
  rel : rel w.journal log

variable {rel : J.State → List JournalEntry → Prop}

section Edits

variable (w) (e : Edit)

theorem journal_edit : (w.edit e).journal = w.journal := by
  cases e <;> rfl

theorem foldedThrough_edit : (w.edit e).foldedThrough = w.foldedThrough := by
  cases e <;> rfl

theorem journaled_edit : (w.edit e).projection.journaled = w.projection.journaled := by
  cases e with
  | register reg => exact State.journaled_registerMote w.projection reg
  | _ => rfl

variable {w}

theorem Mirrored.edit (hmirrored : Mirrored rel w log) (e : Edit) : Mirrored rel (w.edit e) log where
  toFollows := hmirrored.of_journaled (foldedThrough_edit w e) (journaled_edit w e)
  rel := (journal_edit w e).symm ▸ hmirrored.rel

theorem Mirrored.apply (hmirrored : Mirrored rel w log) (op : Op) :
    Mirrored rel (w.apply op) log := by
  cases op with
  | edit e => exact hmirrored.edit e
  | _ => exact ⟨hmirrored.of_journaled rfl rfl, hmirrored.rel⟩

theorem Mirrored.applyAll (hmirrored : Mirrored rel w log) (ops : List Op) :
    Mirrored rel (w.applyAll ops) log := by
  induction ops generalizing w with
  | nil => exact hmirrored
  | cons op ops ih => exact ih (hmirrored.apply op)

end Edits

/-- What the journal asks of an entry, and the projection of a commit. -/
structure Appendable (blake3 : List UInt8 → ByteVec 32) (e : JournalEntry) : Prop where
  readable : e.Readable
  keyed : KeyedCommit e
  derives : e.deriveIdempotencyKey blake3 = e

section Perform

variable {P : Platform}

theorem RunFact.appendable (blake3 : List UInt8 → ByteVec 32) (fact : RunFact) :
    Appendable blake3 fact.entry := by
  refine ⟨fact.readable_entry, ?_, ?_⟩
  · cases fact <;> trivial
  · cases fact <;> rfl

theorem appendable_committedEntry (p : CommitProposal) :
    Appendable blake3 (committedEntry p) := by
  refine ⟨?_, p.key_eq, rfl⟩
  intro parent hparent
  obtain ⟨ref, _, rfl⟩ := mem_map.1 hparent
  exact ParentEntry.readable_fromParentRef ref

variable {target : MoteId} {reason : RepudiationReason} {repudiatorId : BitVec 128}

theorem appendable_repudiatedEntry :
    Appendable blake3 (repudiatedEntry blake3 target seq reason repudiatorId) :=
  ⟨trivial, trivial, rfl⟩

/-- The entries of a cascade: each repudiates a Mote at the seq it was committed at. -/
theorem mem_cascadeRepudiationEntries
    (hes : cascadeRepudiationEntries blake3 s target reason repudiatorId ceiling = .ok es)
    (he : e ∈ es) :
    ∃ id seq reason repudiatorId, s.committedSeqOf id = some seq ∧
      e = repudiatedEntry blake3 id seq reason repudiatorId := by
  unfold cascadeRepudiationEntries at hes
  split at hes
  · cases hes
  rename_i targetSeq htarget
  dsimp only at hes
  split at hes
  · cases hes
  cases hes
  rcases mem_cons.1 he with rfl | he
  · exact ⟨target, targetSeq, reason, repudiatorId, htarget, rfl⟩
  obtain ⟨⟨consumer, seq⟩, hconsumer, rfl⟩ := mem_map.1 he
  obtain ⟨c, _, hc⟩ := mem_filterMap.1 hconsumer
  obtain ⟨seq', hseq', heq⟩ := Option.map_eq_some_iff.1 hc
  cases heq
  exact ⟨_, _, _, _, hseq', rfl⟩

/-- Every entry of a guarded effect can be appended. -/
theorem appendable_of_guarded {e : Effect} (hguarded : P.Guarded w e) :
    ∀ x ∈ e.entries, Appendable P.ids.blake3 x := by
  intro x hx
  cases e with
  | chore c =>
    cases c with
    | note fact strict =>
      rw [mem_singleton.1 hx]
      exact fact.appendable _
    | _ => cases hx
  | record y strict ops =>
    rw [mem_singleton.1 hx]
    cases y with
    | committed c => exact ⟨hguarded.1, hguarded.2.1, rfl⟩
    | failed f => exact ⟨trivial, trivial, rfl⟩
    | effectStaged f => exact ⟨trivial, trivial, rfl⟩
    | timerArmed t =>
      refine ⟨?_, trivial, rfl⟩
      change t.purpose ≤ 1
      rcases hguarded.1 with hwait | ⟨hretry, _⟩
      · rw [hwait]
        decide
      rw [hretry]
      decide
    | _ => exact hguarded.elim
  | recordCommits es =>
    obtain ⟨_, ps, rfl, _⟩ := hguarded
    obtain ⟨p, _, rfl⟩ := mem_map.1 hx
    exact appendable_committedEntry p
  | recordRepudiations es =>
    obtain ⟨target, reason, repudiatorId, hes⟩ := hguarded
    obtain ⟨id, seq, _, _, _, rfl⟩ := mem_cascadeRepudiationEntries hes hx
    exact appendable_repudiatedEntry
  | update op => cases hx

/-- The log behind an effect that asks for these entries to be appended: it met with an
error and nothing happened, or the new ones of them were folded and the edits made. -/
def Absorbs (rel : J.State → List JournalEntry → Prop) (w : Core J) (log es : List JournalEntry)
    (ops : List Op) (ok : Bool) (w' : Core J) : Prop :=
  (ok = false ∧ w' = w) ∨
    ok = true ∧ ∃ new s journal, (appendAll entryScheme log es).1 = log ++ new ∧
      replay none w.projection new = .ok s ∧
      w' = (({ w with journal } : Core J).grown s (log ++ new).length).applyAll ops ∧
      Mirrored rel w' (log ++ new)

/-- The fold of what a batch left in the journal. -/
theorem Mirrored.absorbs (hrel : rel journal (appendAll entryScheme log es).1)
    (hlog : (appendAll entryScheme log es).1 = log ++ new)
    (hgrows : Grows { w with journal } log new w₁) (ops : List Op) :
    Absorbs rel w log es ops true (w₁.applyAll ops) := by
  obtain ⟨s, hreplay, rfl⟩ := hgrows.folds
  have hmirrored : Mirrored rel (({ w with journal } : Core J).grown s (log ++ new).length)
      (log ++ new) := ⟨hgrows.follows, hlog ▸ hrel⟩
  exact .inr ⟨rfl, new, s, journal, hlog, hreplay, rfl, hmirrored.applyAll ops⟩

/-- What lies outside the fold does not matter to it. -/
theorem Mirrored.withJournal (hmirrored : Mirrored rel w log) (journal : J.State) :
    Follows { w with journal } log :=
  hmirrored.of_journaled rfl rfl

variable (hJ : J.ReadsBack P.ids.blake3 rel) (hmirrored : Mirrored rel w log)

include hJ hmirrored

theorem absorbs_record (he : Appendable P.ids.blake3 e)
    (hroom : log.length + 2 < SEQ_LIMIT) (strict : Bool) (ops : List Op) :
    Absorbs rel w log [e] ops (w.record e strict ops).1.isOk (w.record e strict ops).2 := by
  unfold Core.record
  split
  · have hcall := hJ.append hmirrored.rel hmirrored.room he.readable
    rw [he.derives] at hcall
    rcases hcall with hdone | ⟨err, hfail⟩
    · obtain ⟨new, w₁, hlog, hfold, hgrows⟩ :=
        foldNew_append (hmirrored.withJournal (J.append w.journal e).state) he.keyed hroom
      rw [hdone.result]
      dsimp only
      rw [hfold]
      have hone : (appendAll entryScheme log [e]).1 = log ++ new := hlog
      exact Mirrored.absorbs hdone.state hone hgrows ops
    · rw [hfail]
      exact .inl ⟨rfl, rfl⟩
  · exact .inl ⟨rfl, rfl⟩

section Batch

variable (hes : ∀ e ∈ es, Appendable P.ids.blake3 e)
  (hroom : log.length + es.length + 1 < SEQ_LIMIT)

include hes hroom

/-- A batch that the journal took, or not. -/
theorem appendBatch_cases :
    (∃ err, w.appendBatch es = (.error err, w)) ∨
      ∃ journal, rel journal (appendAll entryScheme log es).1 ∧
        w.appendBatch es =
          (.ok (appendAll entryScheme log es).2, { w with journal }) := by
  unfold Core.appendBatch
  split
  · have hcall := hJ.appendBatch hmirrored.rel (Nat.lt_of_succ_lt hroom)
      fun e he => (hes e he).readable
    rw [map_congr_left fun e he => (hes e he).derives, map_id'] at hcall
    rcases hcall with hdone | ⟨err, hfail⟩
    · refine .inr ⟨_, hdone.state, ?_⟩
      rw [hdone.result]
      rfl
    refine .inl ⟨.journal err, ?_⟩
    rw [hfail]
    rfl
  · exact .inl ⟨_, rfl⟩

theorem absorbs_recordCommits :
    Absorbs rel w log es [] (w.recordCommits es).1.isOk (w.recordCommits es).2 := by
  unfold Core.recordCommits
  rcases appendBatch_cases hJ hmirrored hes hroom with ⟨err, hfail⟩ | ⟨journal, hrel, hdone⟩
  · rw [hfail]
    exact .inl ⟨rfl, rfl⟩
  rw [hdone]
  dsimp only
  have hhead := hmirrored.toNat_watermark
  have hnone : ∀ s : UInt64, s ∈ ([] : List UInt64) ↔
      w.foldedThrough.toNat < s.toNat ∧ s.toNat ≤ log.length := by
    intro s
    simp only [not_mem_nil, false_iff]
    omega
  obtain ⟨new, w₁, applied, hlog, hfold, hgrows⟩ := foldCommits_appendAll
    (hmirrored.withJournal journal) (fun e he => (hes e he).keyed) hroom hhead.le hnone
  rw [hfold]
  exact Mirrored.absorbs hrel hlog hgrows []

theorem absorbs_recordRepudiations :
    Absorbs rel w log es [] (w.recordRepudiations es).1.isOk (w.recordRepudiations es).2 := by
  unfold Core.recordRepudiations
  rcases appendBatch_cases hJ hmirrored hes hroom with ⟨err, hfail⟩ | ⟨journal, hrel, hdone⟩
  · rw [hfail]
    exact .inl ⟨rfl, rfl⟩
  rw [hdone]
  dsimp only
  obtain ⟨new, w₁, hlog, hfold, hgrows⟩ := foldRepudiations_appendAll
    (hmirrored.withJournal journal) (fun e he => (hes e he).keyed) hroom
  rw [hfold]
  exact Mirrored.absorbs hrel hlog hgrows []

end Batch

/-- Everything a guarded effect can do. Without an error, its entries are in the journal;
otherwise nothing has changed. -/
theorem Mirrored.perform {e : Effect} (hguarded : P.Guarded w e) (hroom : HasRoom w e) :
    ∃ new, Did P.ids.blake3 w log e new (perform P.ids.blake3 J e w).2 ∧
      Mirrored rel (perform P.ids.blake3 J e w).2 (log ++ new) ∧
      (Recorded w e → (appendAll entryScheme log e.entries).1 = log ++ new) ∧
      (¬ Recorded w e → (perform P.ids.blake3 J e w).2 = w) := by
  unfold HasRoom at hroom
  rw [hJ.length_records hmirrored.rel] at hroom
  have hentries := appendable_of_guarded hguarded
  have hidle : log = log ++ [] := (append_nil log).symm
  -- An effect that appends.
  have habsorbed : ∀ {ok : Bool} {w' : Core J}, Absorbs rel w log e.entries e.ops ok w' →
      ∃ new, Did P.ids.blake3 w log e new w' ∧ Mirrored rel w' (log ++ new) ∧
        (ok = true → (appendAll entryScheme log e.entries).1 = log ++ new) ∧
        (¬ ok = true → w' = w) := by
    rintro ok w' (⟨rfl, rfl⟩ | ⟨rfl, new, s, journal, hlog, hreplay, rfl, hmirrored'⟩)
    · refine ⟨[], .refused e, hidle ▸ hmirrored, ?_, fun _ => rfl⟩
      intro hok
      cases hok
    · exact ⟨new, .grew journal hlog hreplay, hmirrored', fun _ => hlog, absurd rfl⟩
  cases e with
  | chore c =>
    cases c with
    | query q =>
      refine ⟨[], .asked q, ?_, fun _ => hidle, absurd trivial⟩
      rw [append_nil]
      cases q with
      | read => exact hmirrored
      | put bytes =>
        exact ⟨hmirrored.of_journaled (w.foldedThrough_put P.ids.blake3 bytes)
          (congrArg State.journaled (w.projection_put P.ids.blake3 bytes)),
          (w.journal_put P.ids.blake3 bytes).symm ▸ hmirrored.rel⟩
    | note fact strict =>
      exact habsorbed (absorbs_record hJ hmirrored (hentries _ (by simp [Effect.entries]))
        hroom strict [])
    | edit e =>
      exact ⟨[], .edited e, hidle ▸ hmirrored.edit e, fun _ => hidle, absurd trivial⟩
  | record x strict ops =>
    exact habsorbed (absorbs_record hJ hmirrored (hentries x (by simp [Effect.entries]))
      hroom strict ops)
  | recordCommits es => exact habsorbed (absorbs_recordCommits hJ hmirrored hentries hroom)
  | recordRepudiations es =>
    exact habsorbed (absorbs_recordRepudiations hJ hmirrored hentries hroom)
  | update op =>
    exact ⟨[], .updated op, hidle ▸ hmirrored.apply op, fun _ => hidle, absurd trivial⟩

end Perform

section Frames

variable {blake3 : List UInt8 → ByteVec 32} {w' : Core J} {new : List JournalEntry} {e : Effect}
  {id : MoteId} {x : JournalEntry}

/-- What an effect brings into the journal are its entries, numbered. -/
theorem Did.exists_entry (hdid : Did blake3 w log e new w') (hx : x ∈ new) :
    ∃ y ∈ e.entries, ∃ n, x = y.setSeq n := by
  cases hdid with
  | grew journal hlog hreplay =>
    obtain ⟨y, hy, n, hstamp⟩ := exists_of_mem_new hlog hx
    exact ⟨y, hy, UInt64.ofNat n, hstamp⟩
  | _ => cases hx

theorem undeclared_edit (w : Core J) (e : Edit) (id : MoteId) :
    ((w.edit e).projection.info id).undeclared = (w.projection.info id).undeclared :=
  (State.journaled_eq_iff.1 (journaled_edit w e)).1 id

theorem undeclared_apply (w : Core J) (op : Op) (id : MoteId) :
    ((w.apply op).projection.info id).undeclared = (w.projection.info id).undeclared := by
  cases op with
  | edit e => exact undeclared_edit w e id
  | _ => rfl

variable {ops : List Op}

theorem undeclared_applyAll (id : MoteId) :
    ((w.applyAll ops).projection.info id).undeclared = (w.projection.info id).undeclared := by
  induction ops generalizing w with
  | nil => rfl
  | cons op ops ih => exact ih.trans (undeclared_apply w op id)

variable {R : MoteInfo → Prop}

/-- A property of what the journal says of a Mote is kept by an effect, if the entries it
brings keep it. -/
theorem Did.info_preserves (hdid : Did blake3 w log e new w')
    (hundeclared : ∀ {info info' : MoteInfo}, info'.undeclared = info.undeclared → R info → R info')
    (hentry : ∀ x ∈ new, subject x = some id → ∀ info, R info → R (info.after x))
    (hw : R (w.projection.info id)) : R (w'.projection.info id) := by
  cases hdid with
  | asked q =>
    cases q with
    | read => exact hw
    | put bytes =>
      change R (((w.put blake3 bytes).2.projection).info id)
      rwa [Core.projection_put]
  | edited e => exact hundeclared (undeclared_edit w e id) hw
  | updated op => exact hundeclared (undeclared_apply w op id) hw
  | refused => exact hw
  | grew journal hlog hreplay =>
    apply hundeclared (undeclared_applyAll id)
    refine replay_preserves (P := fun s => R (s.info id)) hreplay hw ?_
    intro s x s' seq hx hfold hs
    refine hundeclared (undeclared_fold hfold id) ?_
    split
    · rename_i hsubject
      exact hentry x hx hsubject _ hs
    · exact hs

/-- What an entry brings about, and none undoes, is known once the entry is appended. -/
theorem Did.info_of_mem (hdid : Did blake3 w log e new w')
    (hundeclared : ∀ {info info' : MoteInfo}, info'.undeclared = info.undeclared → R info → R info')
    (hx : x ∈ new) (hsubject : subject x = some id) (hafter : ∀ info : MoteInfo, R (info.after x))
    (hentry : ∀ y ∈ new, subject y = some id → ∀ info, R info → R (info.after y)) :
    R (w'.projection.info id) := by
  cases hdid with
  | grew journal hlog hreplay =>
    apply hundeclared (undeclared_applyAll id)
    refine replay_establishes (P := fun s => R (s.info id)) hreplay hx ?_ ?_
    · intro s s' seq hfold
      refine hundeclared (undeclared_fold hfold id) ?_
      rw [if_pos hsubject]
      exact hafter _
    · intro s y s' seq hy hfold hs
      refine hundeclared (undeclared_fold hfold id) ?_
      split
      · rename_i hsubject
        exact hentry y hy hsubject _ hs
      · exact hs
  | _ => cases hx

theorem dispatch_apply (w : Core J) (op : Op) : (w.apply op).dispatch = w.dispatch.apply op := by
  cases op with
  | edit e => cases e <;> rfl
  | _ => rfl

theorem dispatch_applyAll (w : Core J) (ops : List Op) :
    (w.applyAll ops).dispatch = w.dispatch.applyAll ops := by
  induction ops generalizing w with
  | nil => rfl
  | cons op ops ih =>
    refine (ih _).trans ?_
    rw [dispatch_apply]
    rfl

/-- The bookkeeping after an effect: as before, and nothing is new in the journal, or all
edits are made. -/
theorem Did.dispatch (hdid : Did blake3 w log e new w') :
    (new = [] ∧ w'.dispatch = w.dispatch) ∨ w'.dispatch = w.dispatch.applyAll e.edits := by
  cases hdid with
  | asked q =>
    cases q with
    | read => exact .inr rfl
    | put bytes => exact .inr (w.dispatch_put blake3 bytes)
  | edited e => exact .inr (dispatch_apply w e)
  | updated op => exact .inr (dispatch_apply w op)
  | refused => exact .inl ⟨rfl, rfl⟩
  | grew journal hlog hreplay =>
    rw [dispatch_applyAll]
    by_cases hentries : e.entries = []
    · rw [hentries] at hlog
      have hnew : new = [] := self_eq_append_right.1 hlog
      cases e with
      | record => cases hentries
      | _ => exact .inl ⟨hnew, rfl⟩
    · right
      cases e with
      | chore c =>
        cases c with
        | edit => exact absurd rfl hentries
        | _ => rfl
      | update => exact absurd rfl hentries
      | _ => rfl

theorem outside_apply (w : Core J) (op : Op) : (w.apply op).outside = w.outside := by
  cases op with
  | edit e => cases e <;> rfl
  | _ => rfl

theorem outside_applyAll : (w.applyAll ops).outside = w.outside := by
  induction ops generalizing w with
  | nil => rfl
  | cons op ops ih => exact ih.trans (outside_apply w op)

/-- No effect changes what is known of the workers. -/
theorem Did.status (hdid : Did blake3 w log e new w') : w'.outside.status = w.outside.status := by
  cases hdid with
  | asked q =>
    cases q with
    | read => rfl
    | put bytes =>
      change (w.put blake3 bytes).2.outside.status = _
      unfold Core.put
      split
      · rfl
      · split <;> rfl
  | edited e => exact congrArg Outside.status (outside_apply w e)
  | updated op => exact congrArg Outside.status (outside_apply w op)
  | refused => rfl
  | grew journal hlog hreplay => exact congrArg Outside.status outside_applyAll

variable {P : Platform}

/-- Where an entry of a guarded effect comes from. -/
theorem Platform.GuardedBy.mem_entries (hguarded : P.GuardedBy K w e) (hx : x ∈ e.entries) :
    (∃ fact strict, e = .chore (.note fact strict) ∧ x = fact.entry) ∨
      (∃ strict ops, e = .record x strict ops) ∨
      (∃ es p, e = .recordCommits es ∧ x = committedEntry p ∧ p.moteId ∈ w.dispatch.submitted) ∨
      ∃ es id seq reason repudiatorId, e = .recordRepudiations es ∧
        w.projection.committedSeqOf id = some seq ∧
        x = repudiatedEntry P.ids.blake3 id seq reason repudiatorId := by
  cases e with
  | chore c =>
    cases c with
    | note fact strict => exact .inl ⟨fact, strict, rfl, mem_singleton.1 hx⟩
    | _ => cases hx
  | record y strict ops =>
    rw [mem_singleton.1 hx]
    exact .inr (.inl ⟨strict, ops, rfl⟩)
  | recordCommits es =>
    obtain ⟨_, ps, rfl, hadmitted⟩ := hguarded
    obtain ⟨p, hp, rfl⟩ := mem_map.1 hx
    exact .inr (.inr (.inl ⟨_, p, rfl, rfl, hadmitted p hp⟩))
  | recordRepudiations es =>
    obtain ⟨target, _, _, hes⟩ := hguarded
    obtain ⟨id, seq, reason, repudiatorId, hseq, rfl⟩ := mem_cascadeRepudiationEntries hes hx
    exact .inr (.inr (.inr ⟨es, id, seq, reason, repudiatorId, rfl, hseq, rfl⟩))
  | update => cases hx

/-- A commit comes from a report, or the coordinator makes it itself. -/
theorem Did.commit_source (hguarded : P.Guarded w e)
    (hdid : Did blake3 w log e new w') (hc : .committed c ∈ new) :
    ∃ c₀, c = { c₀ with seq := c.seq } ∧
      ((∃ strict ops, e = .record (.committed c₀) strict ops) ∨
        ∃ es, e = .recordCommits es ∧ .committed c₀ ∈ es) := by
  obtain ⟨y, hy, n, hstamp⟩ := hdid.exists_entry hc
  cases y with
  | committed c₀ =>
    cases hstamp
    refine ⟨c₀, rfl, ?_⟩
    rcases hguarded.mem_entries hy with ⟨fact, _, _, hfact⟩ | hrecord | ⟨es, _, rfl, _⟩ |
      ⟨_, _, _, _, _, _, _, hentry⟩
    · cases fact <;> cases hfact
    · exact .inl hrecord
    · exact .inr ⟨es, rfl, hy⟩
    · cases hentry
  | _ => cases hstamp

end Frames

end Kortecx.Coordinator
