import Kortecx.Journal.Store

/-!
The SQLite journal. A row keeps an entry's canonical bytes beside the columns that
queries use, so a dedupe hit has to decode what it found. Every append runs in one
transaction: an error leaves the table as it was before the call.
-/

namespace Kortecx.Journal.Sqlite

open Lib Lib.Reader Mote Journal.Backend List DedupLog Lib.DedupLog

/-- A row of the `entries` table. -/
structure Row where
  seq : Nat
  kind : UInt8
  moteId : MoteId
  idempotencyKey : IdempotencyKey
  nondeterminism : UInt8
  moteDefHash : Option MoteDefHash
  entryBytes : List UInt8
deriving DecidableEq

/-- The `entries` table, in the order of insertion. -/
structure Table where
  rows : List Row
deriving DecidableEq

/-- `SELECT COALESCE(MAX(seq), 0) FROM entries`. -/
def maxSeq (rows : List Row) : Nat :=
  rows.foldr (fun r acc => max r.seq acc) 0

/-- `SELECT COALESCE(MAX(seq), 0) + 1 FROM entries`. Past the largest 64-bit integer
the sum is a floating point value, which does not read back as an `i64`. -/
def nextSeq (rows : List Row) : Except JournalError Nat :=
  if maxSeq rows + 1 < SEQ_LIMIT then .ok (maxSeq rows + 1) else .error .sqlite

/-- The dedupe `SELECT`, behind its guard on the kind. -/
def selectExisting (rows : List Row) (entry : JournalEntry) : Option Row :=
  if dedupes entry.kind then
    rows.find? fun r =>
      r.idempotencyKey == entry.idempotencyKey && r.kind == entry.kind && dedupes r.kind
  else none

/-- `INSERT` under the primary key and the partial unique index. -/
def insert (rows : List Row) (row : Row) : Except JournalError (List Row) :=
  if rows.any fun r => r.seq == row.seq ||
      (dedupes r.kind && r.kind == row.kind && r.idempotencyKey == row.idempotencyKey) then
    .error .sqlite
  else .ok (rows ++ [row])

/-- The definition hash goes to a column of its own, for committed entries only. -/
def defHashColumn : JournalEntry → Option MoteDefHash
  | .committed e => some e.moteDefHash
  | _ => none

def vecToMoteDefHash (v : Option MoteDefHash) : MoteDefHash :=
  v.getD ⟨.replicate 32 0⟩

section Operations

variable (blake3 : List UInt8 → ByteVec 32)

def decodeRow (row : Row) : Except JournalError JournalEntry :=
  decodeCurrent blake3 row.entryBytes (vecToMoteDefHash row.moteDefHash)

def rowFor (entry : JournalEntry) (bytes : List UInt8) : Row where
  seq := entry.seq.toNat
  kind := entry.kind
  moteId := entry.moteId blake3
  idempotencyKey := entry.idempotencyKey
  nondeterminism := ndByte entry
  moteDefHash := defHashColumn entry
  entryBytes := bytes

/-- Encode an entry that has its `seq`, check its size, and insert it. -/
def store (rows : List Row) (entry : JournalEntry) :
    Except JournalError (List Row × JournalEntry) := do
  let bytes ← (encodeEntry blake3 entry).mapError .encode
  if bytes.length > MAX_ENTRY_LEN then .error (.entryTooLarge bytes.length)
  else
    let rows ← insert rows (rowFor blake3 entry bytes)
    .ok (rows, entry)

def appendOne (rows : List Row) (entry : JournalEntry) :
    Except JournalError (List Row × JournalEntry) :=
  let entry := entry.deriveIdempotencyKey blake3
  match selectExisting rows entry with
  | some row => do
    let existing ← decodeRow blake3 row
    .ok (rows, existing)
  | none => do
    let next ← nextSeq rows
    store blake3 rows (entry.setSeq (UInt64.ofNat next))

/-- A dedupe hit publishes too: the older `seq` of the entry it found. -/
def append (table : Table) (entry : JournalEntry) : Appended Table JournalEntry :=
  match appendOne blake3 table.rows entry with
  | .error err => ⟨table, .error err, none⟩
  | .ok (rows, durable) => ⟨⟨rows⟩, .ok durable, some durable.seq⟩

def appendLoop (rows : List Row) :
    List JournalEntry → Except JournalError (List Row × List JournalEntry)
  | [] => .ok (rows, [])
  | entry :: rest => do
    let (rows, durable) ← appendOne blake3 rows entry
    let (rows, durables) ← appendLoop rows rest
    .ok (rows, durable :: durables)

/-- The first error drops the transaction, and with it the whole batch. The head
published is the largest `seq` among the entries returned. -/
def appendBatch (table : Table) (entries : List JournalEntry) :
    Appended Table (List JournalEntry) :=
  if entries.isEmpty then ⟨table, .ok [], none⟩
  else
    match appendLoop blake3 table.rows entries with
    | .error err => ⟨table, .error err, none⟩
    | .ok (rows, durable) => ⟨⟨rows⟩, .ok durable, (durable.map (·.seq)).max?⟩

/-- Bounds are cast to `i64`. The first row that does not decode fails the read. -/
def readEntriesBySeq (table : Table) (start stop : UInt64) :
    Except JournalError (List JournalEntry) :=
  let rows := table.rows.filter fun r =>
    start.toInt64.toInt ≤ r.seq && r.seq < stop.toInt64.toInt
  (rows.mergeSort fun a b => a.seq ≤ b.seq).mapM (decodeRow blake3)

def sqlite : Backend where
  State := Table
  Record := Row
  new := ⟨[]⟩
  records := Table.rows
  seqOf := Row.seq
  kindOf := Row.kind
  keyOf := Row.idempotencyKey
  entryOf := decodeRow blake3
  append := append blake3
  appendBatch := appendBatch blake3
  readEntriesBySeq := readEntriesBySeq blake3
  currentSeq t := .ok (UInt64.ofNat (maxSeq t.rows))

def rowOf (e : JournalEntry) : Row :=
  rowFor blake3 e ((encodeEntry blake3 e).toOption.getD [])

/-- What appending asks of an entry so that a later duplicate can be answered: a
committed entry's parents read back. -/
def Admits (e : JournalEntry) : Prop :=
  dedupes e.kind → e.Readable

structure Stores (t : Table) (log : List JournalEntry) : Prop where
  rows : t.rows = log.map (rowOf blake3)
  wellFormed : WellFormed entryScheme log
  encodes : ∀ e ∈ log, Encodes blake3 e

/-- And every entry that a duplicate can ask for reads back. -/
structure Holds (t : Table) (log : List JournalEntry) : Prop extends Stores blake3 t log where
  admitted : ∀ e ∈ log, Admits e

end Operations

variable {blake3 : List UInt8 → ByteVec 32} {t : Table} {log : List JournalEntry}
  {e : JournalEntry}

theorem rowOf_eq {bytes : List UInt8} (hbytes : encodeEntry blake3 e = .ok bytes) :
    rowOf blake3 e = rowFor blake3 e bytes := by
  unfold rowOf
  rw [hbytes]
  rfl

/-- A stored row reads back as its entry. -/
theorem decodeRow_rowOf (hencodes : Encodes blake3 e) (hread : e.Readable) :
    decodeRow blake3 (rowOf blake3 e) = .ok e := by
  obtain ⟨bytes, hbytes, hlen⟩ := hencodes
  have hd : e.DefHashIs (vecToMoteDefHash (defHashColumn e)) := by
    cases e <;> first | rfl | trivial
  rw [rowOf_eq hbytes]
  change decodeCurrent blake3 bytes (vecToMoteDefHash (defHashColumn e)) = .ok e
  unfold decodeCurrent
  rw [decodeEntry_encodeEntry hread hd hbytes hlen]
  rfl

variable {rows : List Row}

theorem le_maxSeq (hr : r ∈ rows) : r.seq ≤ maxSeq rows := by
  induction rows with
  | nil => cases hr
  | cons x rest ih =>
    unfold maxSeq at ih ⊢
    rw [foldr_cons]
    rcases mem_cons.mp hr with rfl | hrest
    · exact le_max_left _ _
    · exact le_trans (ih hrest) (le_max_right _ _)

theorem maxSeq_le (hrows : ∀ r ∈ rows, r.seq ≤ n) :
    maxSeq rows ≤ n := by
  induction rows with
  | nil => exact Nat.zero_le n
  | cons x rest ih =>
    unfold maxSeq at ih ⊢
    rw [foldr_cons]
    exact max_le (hrows x (by simp)) (ih fun r hr => hrows r (by simp [hr]))

theorem maxSeq_rows (hwf : WellFormed entryScheme log) :
    maxSeq (log.map (rowOf blake3)) = log.length := by
  apply le_antisymm
  · apply maxSeq_le
    intro r hr
    obtain ⟨e, he, rfl⟩ := mem_map.mp hr
    exact (hwf.number_mem he).2
  · cases hlen : log.length with
    | zero => exact Nat.zero_le _
    | succ n =>
      have hn : n < log.length := by omega
      calc n + 1 = entryScheme.number log[n] := (hwf.number_getElem hn).symm
        _ ≤ maxSeq (log.map (rowOf blake3)) :=
            le_maxSeq (r := rowOf blake3 log[n]) (mem_map_of_mem (getElem_mem hn))

/-- The dedupe query finds the row of the entry that the log's search finds. -/
theorem selectExisting_rows (log : List JournalEntry) (e : JournalEntry) :
    selectExisting (log.map (rowOf blake3)) e =
      (DedupLog.find entryScheme log e).map (rowOf blake3) := by
  unfold selectExisting DedupLog.find
  by_cases hdedupes : dedupes e.kind
  · have hkey : entryScheme.key e = some (e.kind, e.idempotencyKey) := if_pos hdedupes
    rw [if_pos hdedupes, hkey, List.find?_map]
    congr 2
    funext x
    rw [Bool.eq_iff_iff, ← hkey, decide_eq_true_iff]
    change _ ↔ dedupeKey x = dedupeKey e
    rw [dedupeKey_eq_iff hdedupes]
    simp only [Function.comp_apply, rowOf, rowFor, Bool.and_eq_true, beq_iff_eq]
    constructor
    · rintro ⟨⟨hkey, hkind⟩, _⟩
      exact ⟨hkind, hkey⟩
    · rintro ⟨hkind, hkey⟩
      exact ⟨⟨hkey, hkind⟩, hkind ▸ hdedupes⟩
  · have hkey : entryScheme.key e = none := if_neg hdedupes
    rw [if_neg hdedupes, hkey]
    rfl

/-- Neither index refuses the row of a fresh entry with the next number. -/
theorem insert_fresh (hwf : WellFormed entryScheme log)
    (hseq : e.seq.toNat = log.length + 1) (hfind : DedupLog.find entryScheme log e = none) :
    insert (log.map (rowOf blake3)) (rowOf blake3 e) =
      .ok ((log ++ [e]).map (rowOf blake3)) := by
  unfold insert
  rw [if_neg, map_append, map_singleton]
  rw [any_eq_true]
  rintro ⟨r, hr, hconflict⟩
  obtain ⟨x, hx, rfl⟩ := mem_map.mp hr
  simp only [rowOf, rowFor, Bool.or_eq_true, Bool.and_eq_true, beq_iff_eq] at hconflict
  rcases hconflict with hseqs | ⟨⟨hdedupes, hkind⟩, hkey⟩
  · have hle := (hwf.number_mem hx).2
    change x.seq.toNat ≤ log.length at hle
    omega
  have hsame : dedupeKey x = dedupeKey e :=
    (dedupeKey_eq_iff (hkind ▸ hdedupes)).mpr ⟨hkind, hkey⟩
  exact dedupeKey_ne_none.mpr hdedupes (key_none_of_find_eq_none hfind hx hsame)

/-- Storing fails exactly on an entry that does not encode within the cap. -/
theorem store_fresh (hwf : WellFormed entryScheme log)
    (hseq : e.seq.toNat = log.length + 1) (hfind : DedupLog.find entryScheme log e = none) :
    (Encodes blake3 e ∧
      store blake3 (log.map (rowOf blake3)) e = .ok ((log ++ [e]).map (rowOf blake3), e)) ∨
    (¬ Encodes blake3 e ∧ ∃ err, store blake3 (log.map (rowOf blake3)) e = .error err) := by
  unfold store Encodes
  cases hbytes : encodeEntry blake3 e with
  | error err => exact .inr ⟨by simp, _, rfl⟩
  | ok bytes =>
    by_cases hlen : bytes.length ≤ MAX_ENTRY_LEN
    · have hinsert : insert (log.map (rowOf blake3)) (rowFor blake3 e bytes) = _ :=
        rowOf_eq hbytes ▸ insert_fresh hwf hseq hfind
      refine .inl ⟨⟨bytes, rfl, hlen⟩, ?_⟩
      change (if bytes.length > MAX_ENTRY_LEN then _ else _) = _
      rw [if_neg (not_lt.mpr hlen), hinsert]
      rfl
    · refine .inr ⟨by simpa using hlen, .entryTooLarge bytes.length, ?_⟩
      change (if bytes.length > MAX_ENTRY_LEN then _ else _) = _
      rw [if_pos (not_le.mp hlen)]

section Snoc

variable (hroom : log.length + 1 < SEQ_LIMIT) (hfind : DedupLog.find entryScheme log e = none)
  (hencodes : Encodes blake3 (entryScheme.stamp (log.length + 1) e))

include hroom hfind hencodes

/-- The next entry of a stored log may be added when it encodes. -/
theorem Stores.snoc (hstores : Stores blake3 t log) :
    Stores blake3 ⟨(log ++ [entryScheme.stamp (log.length + 1) e]).map (rowOf blake3)⟩
      (log ++ [entryScheme.stamp (log.length + 1) e]) where
  rows := rfl
  wellFormed := hstores.wellFormed.snoc (lt_trans hroom (by decide)) hfind
  encodes x hx := by
    rcases mem_append.mp hx with hold | hnew
    · exact hstores.encodes x hold
    rw [mem_singleton.mp hnew]
    exact hencodes

theorem Holds.snoc (hholds : Holds blake3 t log) (hadmits : Admits e) :
    Holds blake3 ⟨(log ++ [entryScheme.stamp (log.length + 1) e]).map (rowOf blake3)⟩
      (log ++ [entryScheme.stamp (log.length + 1) e]) where
  toStores := hholds.toStores.snoc hroom hfind hencodes
  admitted x hx := by
    rcases mem_append.mp hx with hold | hnew
    · exact hholds.admitted x hold
    rw [mem_singleton.mp hnew]
    simpa [Admits, entryScheme] using hadmits

end Snoc

/-- A dedupe hit: the answer is whatever the stored row decodes to. -/
theorem appendOne_existing (hrows : t.rows = log.map (rowOf blake3))
    (hfind : DedupLog.find entryScheme log (e.deriveIdempotencyKey blake3) = some existing) :
    appendOne blake3 t.rows e =
      (decodeRow blake3 (rowOf blake3 existing)).map fun durable => (t.rows, durable) := by
  unfold appendOne
  simp only [hrows, selectExisting_rows, hfind, Option.map_some]
  cases decodeRow blake3 (rowOf blake3 existing) <;> rfl

/-- A new fact: it is stored under the next number, unless it does not encode. -/
theorem appendOne_fresh (hrows : t.rows = log.map (rowOf blake3))
    (hwf : WellFormed entryScheme log) (hroom : log.length + 1 < SEQ_LIMIT)
    (hfind : DedupLog.find entryScheme log (e.deriveIdempotencyKey blake3) = none) :
    let stamped := entryScheme.stamp (log.length + 1) (e.deriveIdempotencyKey blake3)
    (Encodes blake3 e ∧
      appendOne blake3 t.rows e = .ok ((log ++ [stamped]).map (rowOf blake3), stamped)) ∨
    (¬ Encodes blake3 e ∧ ∃ err, appendOne blake3 t.rows e = .error err) := by
  intro stamped
  have hnext : nextSeq (log.map (rowOf blake3)) = .ok (log.length + 1) := by
    unfold nextSeq
    rw [maxSeq_rows hwf, if_pos hroom]
  have hone : appendOne blake3 t.rows e = store blake3 (log.map (rowOf blake3)) stamped := by
    unfold appendOne
    simp only [hrows, selectExisting_rows, hfind, Option.map_none, hnext]
    rfl
  have hseq : stamped.seq.toNat = log.length + 1 :=
    entryScheme.number_stamp _ (lt_trans hroom (by decide))
  have hstamped : DedupLog.find entryScheme log stamped = none :=
    (find_congr_key (entryScheme.key_stamp _ _)).trans hfind
  have hencodes : Encodes blake3 stamped ↔ Encodes blake3 e := encodes_prepared
  rw [hone, ← hencodes]
  exact store_fresh hwf hseq hstamped

/-- One append within a transaction does what the log's append does, unless the
entry is new and does not encode. -/
theorem appendOne_holds (hholds : Holds blake3 t log) (hroom : log.length + 1 < SEQ_LIMIT)
    (hadmits : Admits e) :
    let done := DedupLog.append entryScheme log (e.deriveIdempotencyKey blake3)
    (∃ rows, appendOne blake3 t.rows e = .ok (rows, done.2) ∧ Holds blake3 ⟨rows⟩ done.1) ∨
    ((∃ err, appendOne blake3 t.rows e = .error err) ∧ ¬ Encodes blake3 e ∧
      DedupLog.find entryScheme log (e.deriveIdempotencyKey blake3) = none) := by
  intro done
  cases hfind : DedupLog.find entryScheme log (e.deriveIdempotencyKey blake3) with
  | some existing =>
    obtain ⟨hmem, hkey, hsome⟩ := mem_of_find_eq_some hfind
    have hdone : done = (log, existing) := append_of_find hfind
    have hdedupes : dedupes existing.kind :=
      dedupeKey_ne_none.mp fun h => hsome (hkey.symm.trans h)
    have hdecode := decodeRow_rowOf (hholds.encodes existing hmem)
      (hholds.admitted existing hmem hdedupes)
    rw [hdone, appendOne_existing hholds.rows hfind, hdecode]
    exact .inl ⟨t.rows, rfl, hholds⟩
  | none =>
    have hdone : done = _ := append_of_fresh hfind
    rw [hdone]
    rcases appendOne_fresh hholds.rows hholds.wellFormed hroom hfind with
      ⟨hencodes, hone⟩ | ⟨hfail, hone⟩
    · refine .inl ⟨_, hone, hholds.snoc hroom hfind (encodes_prepared.mpr hencodes) ?_⟩
      simpa [Admits] using hadmits
    · exact .inr ⟨hone, hfail, rfl⟩

theorem append_keeps (hholds : Holds blake3 t log) (hroom : log.length + 1 < SEQ_LIMIT)
    (hadmits : Admits e) :
    Commits (Holds blake3) log
        (DedupLog.append entryScheme log (e.deriveIdempotencyKey blake3)) (append blake3 t e) ∨
      Rejects t (append blake3 t e) ∧ ¬ Encodes blake3 e ∧
        DedupLog.find entryScheme log (e.deriveIdempotencyKey blake3) = none := by
  unfold append
  rcases appendOne_holds hholds hroom hadmits with ⟨rows, hone, hrows⟩ | ⟨⟨err, hone⟩, hrest⟩
  · rw [hone]
    exact .inl ⟨hrows, rfl, announces_append hrows.wellFormed hroom⟩
  rw [hone]
  exact .inr ⟨⟨err, rfl⟩, hrest⟩

variable {es : List JournalEntry}

theorem appendLoop_holds (hholds : Holds blake3 t log) (hroom : log.length + es.length < SEQ_LIMIT)
    (hadmits : ∀ e ∈ es, Admits e) :
    let done := appendAll entryScheme log (es.map (·.deriveIdempotencyKey blake3))
    (∃ rows, appendLoop blake3 t.rows es = .ok (rows, done.2) ∧ Holds blake3 ⟨rows⟩ done.1) ∨
    ((∃ err, appendLoop blake3 t.rows es = .error err) ∧ ∃ e ∈ es, ¬ Encodes blake3 e) := by
  induction es generalizing t log with
  | nil => exact .inl ⟨t.rows, rfl, hholds⟩
  | cons e rest ih =>
    intro done
    have hstep := length_append_le entryScheme log (e.deriveIdempotencyKey blake3)
    rw [length_cons] at hroom
    unfold appendLoop
    rcases appendOne_holds hholds (by omega) (hadmits e (by simp)) with
      ⟨rows, hone, hrows⟩ | ⟨⟨err, hone⟩, hfail, _⟩
    · rcases ih hrows (by omega) (fun x hx => hadmits x (by simp [hx])) with
        ⟨rows', hloop, hrows'⟩ | ⟨⟨err, hloop⟩, x, hx, hfail⟩
      · refine .inl ⟨rows', ?_, hrows'⟩
        simp only [hone]
        change (appendLoop blake3 rows rest >>= _) = _
        rw [hloop]
        rfl
      · refine .inr ⟨⟨err, ?_⟩, x, by simp [hx], hfail⟩
        simp only [hone]
        change (appendLoop blake3 rows rest >>= _) = _
        rw [hloop]
        rfl
    · refine .inr ⟨⟨err, ?_⟩, e, by simp, hfail⟩
      rw [hone]
      rfl

theorem appendBatch_keeps (hholds : Holds blake3 t log) (hroom : log.length + es.length < SEQ_LIMIT)
    (hadmits : ∀ e ∈ es, Admits e) :
    Commits (Holds blake3) log
        (appendAll entryScheme log (es.map (·.deriveIdempotencyKey blake3)))
        (appendBatch blake3 t es) ∨
      Rejects t (appendBatch blake3 t es) ∧ ∃ e ∈ es, ¬ Encodes blake3 e := by
  unfold appendBatch
  by_cases hempty : es.isEmpty
  · rw [if_pos hempty, isEmpty_iff.mp hempty]
    exact .inl ⟨hholds, rfl, rfl⟩
  rw [if_neg hempty]
  rcases appendLoop_holds hholds hroom hadmits with ⟨rows, hloop, hrows⟩ | ⟨⟨err, hloop⟩, hfail⟩
  · rw [hloop]
    refine .inl ⟨hrows, rfl, announces_appendAll ?_ hrows.wellFormed (by simpa using hroom)⟩
    simpa using hempty
  rw [hloop]
  exact .inr ⟨⟨err, rfl⟩, hfail⟩

theorem keepsLog (blake3 : List UInt8 → ByteVec 32) :
    (sqlite blake3).KeepsLog blake3 Admits (rowOf blake3) (Holds blake3) where
  new := ⟨⟨rfl, WellFormed.nil _, by simp⟩, by simp⟩
  wellFormed ht := ht.wellFormed
  state_unique {t t' _} ht ht' := by
    obtain ⟨rows⟩ := t
    obtain ⟨rows'⟩ := t'
    exact congrArg Table.mk (ht.rows.trans ht'.rows.symm)
  records ht := ht.rows
  seqOf _ := rfl
  kindOf _ := rfl
  keyOf _ := rfl
  entryOf ht he hdedupes := decodeRow_rowOf (ht.encodes _ he) (ht.admitted _ he hdedupes)
  append := append_keeps
  appendBatch := appendBatch_keeps

/-- Whether or not a row can be read, what is read from it has the row's `seq`. -/
theorem seq_decodeRow (hencodes : Encodes blake3 e)
    (hdecode : decodeRow blake3 (rowOf blake3 e) = .ok x) : x.seq = e.seq := by
  obtain ⟨bytes, hbytes, _⟩ := hencodes
  rw [rowOf_eq hbytes] at hdecode
  exact seq_of_decodeEntry_encodeEntry hbytes (except_mapError_eq_ok.1 hdecode)

variable (hstores : Stores blake3 t log)

include hstores

/-- Without any condition on the entries an append may fail on a row it cannot read.
What it returns otherwise has the right `seq`. -/
theorem appendOne_stores (hroom : log.length + 1 < SEQ_LIMIT) (e : JournalEntry) :
    let done := DedupLog.append entryScheme log (e.deriveIdempotencyKey blake3)
    (∃ err, appendOne blake3 t.rows e = .error err) ∨
      ∃ rows durable, appendOne blake3 t.rows e = .ok (rows, durable) ∧
        durable.seq = done.2.seq ∧ Stores blake3 ⟨rows⟩ done.1 := by
  intro done
  cases hfind : DedupLog.find entryScheme log (e.deriveIdempotencyKey blake3) with
  | some existing =>
    have hdone : done = (log, existing) := append_of_find hfind
    have hmem := (mem_of_find_eq_some hfind).1
    rw [appendOne_existing hstores.rows hfind, hdone]
    cases hdecode : decodeRow blake3 (rowOf blake3 existing) with
    | error err => exact .inl ⟨err, rfl⟩
    | ok x =>
      exact .inr ⟨t.rows, x, rfl, seq_decodeRow (hstores.encodes existing hmem) hdecode, hstores⟩
  | none =>
    have hdone : done = _ := append_of_fresh hfind
    rw [hdone]
    rcases appendOne_fresh hstores.rows hstores.wellFormed hroom hfind with
      ⟨hencodes, hone⟩ | ⟨_, hone⟩
    · exact .inr ⟨_, _, hone, rfl, hstores.snoc hroom hfind (encodes_prepared.mpr hencodes)⟩
    · exact .inl hone

theorem appendLoop_stores (hroom : log.length + es.length < SEQ_LIMIT) :
    let done := appendAll entryScheme log (es.map (·.deriveIdempotencyKey blake3))
    (∃ err, appendLoop blake3 t.rows es = .error err) ∨
      ∃ rows durable, appendLoop blake3 t.rows es = .ok (rows, durable) ∧
        durable.map (·.seq) = done.2.map (·.seq) ∧ Stores blake3 ⟨rows⟩ done.1 := by
  induction es generalizing t log with
  | nil => exact .inr ⟨t.rows, [], rfl, rfl, hstores⟩
  | cons e rest ih =>
    intro done
    have hstep := length_append_le entryScheme log (e.deriveIdempotencyKey blake3)
    rw [length_cons] at hroom
    unfold appendLoop
    rcases appendOne_stores hstores (by omega) e with
      ⟨err, hone⟩ | ⟨rows, durable, hone, hseq, hrows⟩
    · refine .inl ⟨err, ?_⟩
      rw [hone]
      rfl
    rcases ih hrows (by omega) with ⟨err, hloop⟩ | ⟨rows', durables, hloop, hseqs, hrows'⟩
    · refine .inl ⟨err, ?_⟩
      simp only [hone]
      change (appendLoop blake3 rows rest >>= _) = _
      rw [hloop]
      rfl
    · refine .inr ⟨rows', durable :: durables, ?_, ?_, hrows'⟩
      · simp only [hone]
        change (appendLoop blake3 rows rest >>= _) = _
        rw [hloop]
        rfl
      · simp only [done, map_cons, appendAll_cons, hseq, hseqs]

theorem append_grows (hroom : log.length + 1 < SEQ_LIMIT)
    (e : JournalEntry) : Grows (Stores blake3) log 1 (append blake3 t e) := by
  unfold append
  rcases appendOne_stores hstores hroom e with ⟨err, hone⟩ | ⟨rows, durable, hone, hseq, hrows⟩
  · rw [hone]
    exact Rejects.grows ⟨err, rfl⟩ hstores 1
  rw [hone]
  refine ⟨_, hrows, DedupLog.prefix_append _ _ _, length_append_le _ _ _, ?_⟩
  simp only [hseq]
  exact announces_append hrows.wellFormed hroom

theorem appendBatch_grows (hroom : log.length + es.length < SEQ_LIMIT) :
    Grows (Stores blake3) log es.length (appendBatch blake3 t es) := by
  unfold appendBatch
  by_cases hempty : es.isEmpty
  · rw [if_pos hempty]
    exact ⟨log, hstores, List.prefix_refl log, Nat.le_add_right _ _, rfl⟩
  rw [if_neg hempty]
  have hlen := length_appendAll_le entryScheme log (es.map (·.deriveIdempotencyKey blake3))
  rw [length_map] at hlen
  rcases appendLoop_stores hstores hroom with
    ⟨err, hloop⟩ | ⟨rows, durable, hloop, hseqs, hrows⟩
  · rw [hloop]
    exact Rejects.grows ⟨err, rfl⟩ hstores _
  rw [hloop]
  refine ⟨_, hrows, DedupLog.prefix_appendAll _ _ _, hlen, ?_⟩
  simp only [hseqs]
  exact announces_appendAll (by simpa using hempty) hrows.wellFormed (by simpa using hroom)

/-- A range read decodes the rows with those seqs, in order. -/
theorem readEntriesBySeq_segment {start stop : UInt64}
    (hstart : start.toNat < SEQ_LIMIT) (hstop : stop.toNat < SEQ_LIMIT) :
    readEntriesBySeq blake3 t start stop =
      ((t.rows.take (stop.toNat - 1)).drop (start.toNat - 1)).mapM (decodeRow blake3) := by
  have hlength : t.rows.length = log.length := by rw [hstores.rows, length_map]
  have hnumbers : t.rows.map (·.seq) = List.range' 1 t.rows.length := by
    rw [hlength, hstores.rows, map_map]
    exact hstores.wellFormed.numbers
  have hfilter : (t.rows.filter fun r =>
      start.toInt64.toInt ≤ r.seq && r.seq < stop.toInt64.toInt) =
      (t.rows.take (stop.toNat - 1)).drop (start.toNat - 1) := by
    rw [← filter_interval hnumbers, toInt_seq hstart, toInt_seq hstop]
    apply filter_congr
    intro r _
    simp only [Nat.cast_le, Nat.cast_lt]
  have hsorted : ((t.rows.take (stop.toNat - 1)).drop (start.toNat - 1)).Pairwise
      fun a b => decide (a.seq ≤ b.seq) := by
    have hsublist : ((t.rows.take (stop.toNat - 1)).drop (start.toNat - 1)).Sublist t.rows :=
      (drop_sublist _ _).trans (take_sublist _ _)
    exact ((pairwise_numbered hnumbers).sublist hsublist).imp fun hab => decide_eq_true hab
  unfold readEntriesBySeq
  simp only [hfilter, mergeSort_of_pairwise hsorted]

end Kortecx.Journal.Sqlite
