import Kortecx.Journal.Backends
import Kortecx.Projection.Recovery

/-!
The journal as the components that write it see it. As long as they append only entries
that read back, both backends keep a log from which every entry can be read again, and a
projection built from the journal is the replay of that log.
-/

namespace Kortecx.Journal

open Lib List

namespace Backend

variable (J : Backend)

/-- The entries a reader finds, in order. -/
def durable (s : J.State) : List JournalEntry :=
  (J.records s).filterMap fun r => (J.entryOf r).toOption

/-- What a writer of readable entries relies on: `rel` says which log a state holds, every
entry of it reads back, and a call does what the log does or leaves the state as it was. -/
structure ReadsBack (blake3 : List UInt8 → ByteVec 32)
    (rel : J.State → List JournalEntry → Prop) : Prop where
  new : rel J.new []
  wellFormed : ∀ {s log}, rel s log → DedupLog.WellFormed entryScheme log
  durable : ∀ {s log}, rel s log → J.durable s = log
  length_records : ∀ {s log}, rel s log → (J.records s).length = log.length
  append : ∀ {s log e}, rel s log → log.length + 1 < SEQ_LIMIT → e.Readable →
    Commits rel log (DedupLog.append entryScheme log (e.deriveIdempotencyKey blake3))
      (J.append s e) ∨ Rejects s (J.append s e)
  appendBatch : ∀ {s log es}, rel s log → log.length + es.length < SEQ_LIMIT →
    (∀ e ∈ es, e.Readable) →
    Commits rel log
      (DedupLog.appendAll entryScheme log (es.map (·.deriveIdempotencyKey blake3)))
      (J.appendBatch s es) ∨ Rejects s (J.appendBatch s es)
  currentSeq : ∀ {s log}, rel s log → J.currentSeq s = .ok (UInt64.ofNat log.length)
  read : ∀ {s log} {start stop : UInt64}, rel s log → start.toNat < SEQ_LIMIT →
    stop.toNat < SEQ_LIMIT →
    J.readEntriesBySeq s start stop = .ok ((log.take (stop.toNat - 1)).drop (start.toNat - 1))

end Backend

section Entries

variable {blake3 : List UInt8 → ByteVec 32}

/-- Appending a readable entry leaves a log of readable entries. -/
theorem readable_append {e : JournalEntry} (hlog : ∀ x ∈ log, x.Readable) (he : e.Readable) :
    ∀ x ∈ (DedupLog.append entryScheme log e).1, x.Readable := by
  intro x hx
  rcases DedupLog.mem_append_fst hx with hold | ⟨_, rfl⟩
  · exact hlog x hold
  · exact readable_setSeq.2 he

theorem readable_appendAll (hlog : ∀ x ∈ log, x.Readable)
    (hes : ∀ e ∈ es, e.Readable) : ∀ x ∈ (DedupLog.appendAll entryScheme log es).1, x.Readable := by
  induction es generalizing log with
  | nil => exact hlog
  | cons e es ih =>
    rw [DedupLog.appendAll_cons]
    apply ih
    · exact readable_append hlog (hes e (by simp))
    · exact fun x hx => hes x (by simp [hx])

end Entries

namespace Backend

variable {J : Backend} {blake3 : List UInt8 → ByteVec 32} {admits : JournalEntry → Prop}
  {recordOf : JournalEntry → J.Record} {rel : J.State → List JournalEntry → Prop}
  {log : List JournalEntry}

theorem mapM_entryOf (hentry : ∀ e ∈ log, J.entryOf (recordOf e) = .ok e) :
    (log.map recordOf).mapM J.entryOf = .ok log := by
  induction log with
  | nil => rfl
  | cons e log ih =>
    have hrest := ih fun x hx => hentry x (by simp [hx])
    exact mapM_cons_eq_ok.mpr ⟨e, log, hentry e (by simp), hrest, rfl⟩

theorem durable_eq (hrecords : J.records s = log.map recordOf)
    (hentry : ∀ e ∈ log, J.entryOf (recordOf e) = .ok e) : J.durable s = log := by
  unfold durable
  rw [hrecords, filterMap_map]
  calc log.filterMap ((fun r => (J.entryOf r).toOption) ∘ recordOf)
      = log.filterMap some := by
        apply filterMap_congr
        intro e he
        rw [Function.comp_apply, hentry e he]
        rfl
    _ = log := filterMap_some

/-- A backend that keeps the log reads it back, if it admits the readable entries, reads
each of them back, and lists its records. -/
theorem KeepsLog.readsBack
    (hkeeps : J.KeepsLog blake3 admits recordOf rel) (hlisting : J.Listing inv)
    (hinv : ∀ {s log}, rel s log → inv s) (hadmits : ∀ e : JournalEntry, e.Readable → admits e)
    (hentry : ∀ {s log e}, rel s log → e ∈ log → e.Readable → J.entryOf (recordOf e) = .ok e)
    (hhead : ∀ {s log}, rel s log → J.currentSeq s = .ok (UInt64.ofNat log.length)) :
    J.ReadsBack blake3 fun s log => rel s log ∧ ∀ e ∈ log, e.Readable where
  new := ⟨hkeeps.new, by simp⟩
  wellFormed hrel := hkeeps.wellFormed hrel.1
  durable hrel := durable_eq (hkeeps.records hrel.1) fun e he => hentry hrel.1 he (hrel.2 e he)
  length_records hrel := hkeeps.length_records hrel.1
  append {s log e} hrel hroom he := by
    rcases hkeeps.append hrel.1 hroom (hadmits e he) with hdone | hfail
    · exact .inl ⟨⟨hdone.state,
        readable_append hrel.2 (readable_deriveIdempotencyKey.2 he)⟩, hdone.result, hdone.publishes⟩
    · exact .inr hfail.1
  appendBatch {s log es} hrel hroom hes := by
    rcases hkeeps.appendBatch hrel.1 hroom fun e he => hadmits e (hes e he) with hdone | hfail
    · refine .inl ⟨⟨hdone.state, readable_appendAll hrel.2 ?_⟩, hdone.result, hdone.publishes⟩
      intro x hx
      obtain ⟨e, he, rfl⟩ := mem_map.1 hx
      exact readable_deriveIdempotencyKey.2 (hes e he)
    · exact .inr hfail.1
  currentSeq hrel := hhead hrel.1
  read {s log start stop} hrel hstart hstop := by
    rw [hlisting.read (hinv hrel.1) hstart hstop, hkeeps.records hrel.1]
    have hall := mapM_entryOf fun e he => hentry hrel.1 he (hrel.2 e he)
    exact mapM_drop_eq_ok (mapM_take_eq_ok hall _) _

end Backend

variable (blake3 : List UInt8 → ByteVec 32)

theorem InMemory.readsBack :
    (InMemory.inMemory blake3).ReadsBack blake3 fun s log =>
      InMemory.Holds s log ∧ ∀ e ∈ log, e.Readable :=
  (InMemory.keepsLog blake3).readsBack (InMemory.announcing blake3).toListing
    (fun hholds => by rwa [hholds.entries]) (fun _ _ => trivial) (fun _ _ _ => rfl)
    (fun hholds => congrArg Except.ok hholds.nextSeq)

theorem Sqlite.readsBack :
    (Sqlite.sqlite blake3).ReadsBack blake3 fun t log =>
      Sqlite.Holds blake3 t log ∧ ∀ e ∈ log, e.Readable :=
  (Sqlite.keepsLog blake3).readsBack (Sqlite.announcing blake3).toListing
    (fun hholds => ⟨_, hholds.toStores⟩) (fun _ he _ => he)
    (fun hholds he hread => Sqlite.decodeRow_rowOf (hholds.encodes _ he) hread)
    (fun {t log} hholds => by
      change Except.ok (UInt64.ofNat (Sqlite.maxSeq t.rows)) = _
      rw [hholds.rows, Sqlite.maxSeq_rows hholds.wellFormed])

end Kortecx.Journal

namespace Kortecx.Projection

open Lib Journal

/-- Building a projection from the journal is replaying its log. -/
theorem fromJournal_eq_replay {J : Backend} {blake3 : List UInt8 → ByteVec 32}
    {rel : J.State → List JournalEntry → Prop} (hJ : J.ReadsBack blake3 rel) {s : J.State}
    {log : List JournalEntry} (hrel : rel s log) (hroom : log.length + 1 < Backend.SEQ_LIMIT) :
    fromJournal J s = replay none {} log := by
  have hlength : (UInt64.ofNat log.length).toNat = log.length :=
    Backend.toNat_ofNat_seq (by omega)
  have hstop : (UInt64.ofNat log.length + 1).toNat = log.length + 1 := by
    rw [Backend.toNat_succ_seq (by omega), hlength]
  have hread : readRange J s 0 (UInt64.ofNat log.length + 1) = .ok log := by
    unfold readRange
    rw [hJ.read hrel (by decide) (by omega), hstop]
    simp [Except.mapError]
  unfold fromJournal
  rw [hJ.currentSeq hrel]
  change (do
    let entries ← readRange J s 0 (UInt64.ofNat log.length + 1)
    replay none {} entries) = _
  rw [hread]
  rfl

end Kortecx.Projection
