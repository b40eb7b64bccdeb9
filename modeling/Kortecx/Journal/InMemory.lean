import Kortecx.Journal.Store

/-!
The in-memory journal. It searches its entries for a duplicate, counts seqs in a
field of its own, and stages a whole batch before any of it becomes visible.
-/

namespace Kortecx.Journal.InMemory

open Lib Journal.Backend List Lib.DedupLog

structure State where
  entries : List JournalEntry
  nextSeq : UInt64
deriving DecidableEq

def State.new : State := ⟨[], 0⟩

/-- The search for a durable entry with the same kind and key, behind its guard on
the kind. -/
def findExisting (entries : List JournalEntry) (entry : JournalEntry) : Option JournalEntry :=
  if dedupes entry.kind then
    entries.find? fun e => e.kind == entry.kind && e.idempotencyKey == entry.idempotencyKey
  else none

section Operations

variable (blake3 : List UInt8 → ByteVec 32)

/-- A dedupe hit returns before the watch is told anything. -/
def append (state : State) (entry : JournalEntry) : Appended State JournalEntry :=
  let entry := entry.deriveIdempotencyKey blake3
  match findExisting state.entries entry with
  | some existing => ⟨state, .ok existing, none⟩
  | none =>
    let nextSeq := state.nextSeq + 1
    let entry := entry.setSeq nextSeq
    ⟨⟨state.entries ++ [entry], nextSeq⟩, .ok entry, some nextSeq⟩

structure Batch where
  nextSeq : UInt64
  staged : List JournalEntry
  durable : List JournalEntry

/-- One turn of the batch loop: the search sees the durable entries, then those
staged by earlier turns. -/
def Batch.push (entries : List JournalEntry) (batch : Batch) (entry : JournalEntry) : Batch :=
  let entry := entry.deriveIdempotencyKey blake3
  match findExisting (entries ++ batch.staged) entry with
  | some existing => { batch with durable := batch.durable ++ [existing] }
  | none =>
    let nextSeq := batch.nextSeq + 1
    let entry := entry.setSeq nextSeq
    ⟨nextSeq, batch.staged ++ [entry], batch.durable ++ [entry]⟩

/-- The head is published even when every entry of the batch was a duplicate. -/
def appendBatch (state : State) (entries : List JournalEntry) :
    Appended State (List JournalEntry) :=
  if entries.isEmpty then ⟨state, .ok [], none⟩
  else
    let batch := entries.foldl (Batch.push blake3 state.entries) ⟨state.nextSeq, [], []⟩
    ⟨⟨state.entries ++ batch.staged, batch.nextSeq⟩, .ok batch.durable, some batch.nextSeq⟩

def readEntriesBySeq (state : State) (start stop : UInt64) :
    Except JournalError (List JournalEntry) :=
  .ok ((state.entries.filter fun e => start ≤ e.seq && e.seq < stop).mergeSort
    fun a b => a.seq ≤ b.seq)

def inMemory : Backend where
  State := State
  Record := JournalEntry
  new := State.new
  records := State.entries
  seqOf e := e.seq.toNat
  kindOf := JournalEntry.kind
  keyOf := JournalEntry.idempotencyKey
  entryOf e := .ok e
  append := append blake3
  appendBatch := appendBatch blake3
  readEntriesBySeq := readEntriesBySeq
  currentSeq s := .ok s.nextSeq

end Operations

structure Holds (s : State) (log : List JournalEntry) : Prop where
  entries : s.entries = log
  nextSeq : s.nextSeq = UInt64.ofNat log.length
  wellFormed : WellFormed entryScheme log

variable {blake3 : List UInt8 → ByteVec 32} {s : State} {log : List JournalEntry}

theorem findExisting_eq_find (entries : List JournalEntry) (entry : JournalEntry) :
    findExisting entries entry = DedupLog.find entryScheme entries entry := by
  unfold findExisting DedupLog.find
  by_cases hdedupes : dedupes entry.kind
  · have hkey : entryScheme.key entry = some (entry.kind, entry.idempotencyKey) :=
      if_pos hdedupes
    rw [if_pos hdedupes, hkey]
    congr 1
    funext e
    rw [Bool.eq_iff_iff, ← hkey, decide_eq_true_iff]
    change _ ↔ dedupeKey e = dedupeKey entry
    rw [dedupeKey_eq_iff hdedupes, Bool.and_eq_true, beq_iff_eq, beq_iff_eq]
  · have hkey : entryScheme.key entry = none := if_neg hdedupes
    rw [if_neg hdedupes, hkey]

theorem succ_nextSeq {n : Nat} {next : UInt64} (hnext : next = UInt64.ofNat n) :
    next + 1 = UInt64.ofNat (n + 1) := by
  rw [hnext, UInt64.ofNat_add]
  rfl

variable {e : JournalEntry} {es : List JournalEntry}

theorem append_commits (hholds : Holds s log) (hroom : log.length + 1 < SEQ_LIMIT) :
    Commits Holds log (DedupLog.append entryScheme log (e.deriveIdempotencyKey blake3))
      (append blake3 s e) := by
  have hwf := hholds.wellFormed.append (a := e.deriveIdempotencyKey blake3)
    (lt_trans hroom (by decide))
  unfold append
  simp only [findExisting_eq_find, hholds.entries]
  cases hfind : DedupLog.find entryScheme log (e.deriveIdempotencyKey blake3) with
  | some existing =>
    rw [append_of_find hfind]
    exact ⟨hholds, rfl, rfl⟩
  | none =>
    rw [append_of_fresh hfind] at hwf ⊢
    have hnext := succ_nextSeq hholds.nextSeq
    refine ⟨⟨?_, ?_, hwf⟩, ?_, ?_⟩
    · simp only [hnext]
      rfl
    · simpa using hnext
    · simp only [hnext]
      rfl
    · have hhead : (s.nextSeq + 1).toNat = log.length + 1 := by
        rw [hnext]
        exact toNat_ofNat_seq hroom
      simp [Announces, hhead]

/-- After some turns of the loop the durable entries followed by the staged ones
are the log after appending the entries seen so far. -/
theorem foldl_push (blake3 : List UInt8 → ByteVec 32) (entries es : List JournalEntry)
    (batch : Batch)
    (hnext : batch.nextSeq = UInt64.ofNat (entries ++ batch.staged).length) :
    let done := appendAll entryScheme (entries ++ batch.staged)
      (es.map (·.deriveIdempotencyKey blake3))
    let final := es.foldl (Batch.push blake3 entries) batch
    entries ++ final.staged = done.1 ∧ final.durable = batch.durable ++ done.2 ∧
      final.nextSeq = UInt64.ofNat done.1.length := by
  induction es generalizing batch with
  | nil => exact ⟨rfl, (append_nil _).symm, hnext⟩
  | cons e rest ih =>
    simp only [foldl_cons, map_cons, DedupLog.appendAll_cons]
    cases hfind : DedupLog.find entryScheme (entries ++ batch.staged)
        (e.deriveIdempotencyKey blake3) with
    | some existing =>
      have hpush : Batch.push blake3 entries batch e =
          { batch with durable := batch.durable ++ [existing] } := by
        unfold Batch.push
        simp only [findExisting_eq_find, hfind]
      rw [hpush, append_of_find hfind]
      simpa using ih { batch with durable := batch.durable ++ [existing] } hnext
    | none =>
      let stamped := entryScheme.stamp ((entries ++ batch.staged).length + 1)
        (e.deriveIdempotencyKey blake3)
      have hpush : Batch.push blake3 entries batch e =
          ⟨UInt64.ofNat ((entries ++ batch.staged).length + 1), batch.staged ++ [stamped],
            batch.durable ++ [stamped]⟩ := by
        unfold Batch.push
        simp only [findExisting_eq_find, hfind, succ_nextSeq hnext]
        rfl
      rw [hpush, append_of_fresh hfind]
      have hrest := ih ⟨UInt64.ofNat ((entries ++ batch.staged).length + 1),
        batch.staged ++ [stamped], batch.durable ++ [stamped]⟩ (by simp [Nat.add_assoc])
      simpa [stamped] using hrest

theorem appendBatch_commits (hholds : Holds s log) (hroom : log.length + es.length < SEQ_LIMIT) :
    Commits Holds log
      (appendAll entryScheme log (es.map (·.deriveIdempotencyKey blake3)))
      (appendBatch blake3 s es) := by
  have hwf : WellFormed entryScheme
      (appendAll entryScheme log (es.map (·.deriveIdempotencyKey blake3))).1 :=
    hholds.wellFormed.appendAll (lt_trans (by simpa using hroom) (by decide))
  have hlen := length_appendAll_le entryScheme log (es.map (·.deriveIdempotencyKey blake3))
  rw [length_map] at hlen
  obtain ⟨hstaged, hdurable, hnext⟩ := foldl_push blake3 log es ⟨s.nextSeq, [], []⟩
    (by simpa using hholds.nextSeq)
  simp only [append_nil, nil_append] at hstaged hdurable hnext
  unfold appendBatch
  rw [hholds.entries]
  by_cases hempty : es.isEmpty
  · rw [if_pos hempty, isEmpty_iff.mp hempty]
    exact ⟨hholds, rfl, rfl⟩
  rw [if_neg hempty]
  refine ⟨⟨hstaged, hnext, hwf⟩, congrArg Except.ok hdurable, ?_⟩
  have hhead := toNat_ofNat_seq (lt_of_le_of_lt hlen hroom)
  simp only [Announces, hnext, hhead, le_refl, implies_true, and_self]

theorem append_grows (hholds : Holds s log)
    (hroom : log.length + 1 < SEQ_LIMIT) : Grows Holds log 1 (append blake3 s e) := by
  have hdone : Commits Holds log _ (append blake3 s e) := append_commits hholds hroom
  exact ⟨_, hdone.state, DedupLog.prefix_append _ _ _, DedupLog.length_append_le _ _ _,
    hdone.publishes⟩

theorem appendBatch_grows (hholds : Holds s log) (hroom : log.length + es.length < SEQ_LIMIT) :
    Grows Holds log es.length (appendBatch blake3 s es) := by
  have hdone : Commits Holds log _ (appendBatch blake3 s es) := appendBatch_commits hholds hroom
  have hlen := length_appendAll_le entryScheme log (es.map (·.deriveIdempotencyKey blake3))
  rw [length_map] at hlen
  exact ⟨_, hdone.state, DedupLog.prefix_appendAll _ _ _, hlen, hdone.publishes⟩

/-- A range read returns the segment of the log with those seqs: the entries are
already in order, so sorting them changes nothing. -/
theorem readEntriesBySeq_segment (hholds : Holds s log) (start stop : UInt64) :
    readEntriesBySeq s start stop =
      .ok ((log.take (stop.toNat - 1)).drop (start.toNat - 1)) := by
  have hnumbers : log.map (·.seq.toNat) = List.range' 1 log.length := hholds.wellFormed.numbers
  have hfilter : (s.entries.filter fun e => start ≤ e.seq && e.seq < stop) =
      (log.take (stop.toNat - 1)).drop (start.toNat - 1) := by
    rw [hholds.entries, ← filter_interval hnumbers]
    apply filter_congr
    intro e _
    simp only [UInt64.le_iff_toNat_le, UInt64.lt_iff_toNat_lt]
  have hsorted : ((log.take (stop.toNat - 1)).drop (start.toNat - 1)).Pairwise
      fun a b => decide (a.seq ≤ b.seq) := by
    have hsublist : ((log.take (stop.toNat - 1)).drop (start.toNat - 1)).Sublist log :=
      (drop_sublist _ _).trans (take_sublist _ _)
    refine ((pairwise_numbered hnumbers).sublist hsublist).imp ?_
    intro a b hab
    exact decide_eq_true (UInt64.le_iff_toNat_le.mpr hab)
  unfold readEntriesBySeq
  rw [hfilter, mergeSort_of_pairwise hsorted]

theorem keepsLog (blake3 : List UInt8 → ByteVec 32) :
    (inMemory blake3).KeepsLog blake3 (fun _ => True) id Holds where
  new := ⟨rfl, rfl, WellFormed.nil _⟩
  wellFormed := Holds.wellFormed
  state_unique hs hs' := by
    obtain ⟨rfl, hnext, _⟩ := hs
    obtain ⟨hentries, hnext', _⟩ := hs'
    exact congrArg₂ State.mk hentries.symm (hnext.trans hnext'.symm)
  records hrel := hrel.entries.trans (map_id _).symm
  seqOf _ := rfl
  kindOf _ := rfl
  keyOf _ := rfl
  entryOf _ _ _ := rfl
  append hrel hroom _ := .inl (append_commits hrel hroom)
  appendBatch hrel hroom _ := .inl (appendBatch_commits hrel hroom)

end Kortecx.Journal.InMemory
