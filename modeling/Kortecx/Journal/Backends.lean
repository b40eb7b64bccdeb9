import Kortecx.Journal.InMemory
import Kortecx.Journal.Sqlite
import Kortecx.Journal.Watch

/-!
The two backends side by side. Both keep the deduplicating log, so its laws hold of
both; the SQLite journal needs one thing more of its callers, because its answer to
a duplicate goes through the decoder.
-/

namespace Kortecx.Journal

open Lib List Announcing Journal.InMemory Journal.Sqlite

/-- The laws of the log, for every run of either backend. -/
theorem backends_logLaws (blake3 : List UInt8 → ByteVec 32) :
    (inMemory blake3).LogLaws blake3 (fun _ => True) ∧
      (sqlite blake3).LogLaws blake3 Sqlite.Admits :=
  ⟨(InMemory.keepsLog blake3).logLaws, (Sqlite.keepsLog blake3).logLaws⟩

variable (blake3 : List UInt8 → ByteVec 32)

/-- The entry that is written and cannot be read, whatever the hash. -/
theorem decodeEntry_unknownEdgeKind :
    decodeEntryWithDefHash blake3 (committedWithParentBytes 2 0)
      (committedWithParent 2 0).storedDefHash = .error (.unknownEdgeKind 2) := by
  let header := (committedWithParent 2 0).header fun _ => .replicate 32 0
  have hheader : readHeader (committedWithParentBytes 2 0) 0 = .ok (header, HEADER_LEN) := by
    decide +kernel
  have hbody : decodeCommitted header (committedWithParent 2 0).storedDefHash
      ((committedWithParentBytes 2 0).drop HEADER_LEN) 0 = .error (.unknownEdgeKind 2) := by
    decide +kernel
  unfold decodeEntryWithDefHash
  rw [if_neg (by decide +kernel), if_neg (by decide +kernel), hheader]
  have hkind : decodeBody blake3 header = decodeCommitted header := rfl
  simp only [bind, Except.bind, hkind, hbody]

theorem decodeRow_unknownEdgeKind :
    Sqlite.decodeRow blake3 (Sqlite.rowOf blake3 (committedWithParent 2 0)) =
      .error (.decode (.unknownEdgeKind 2)) := by
  have hbytes : encodeEntry blake3 (committedWithParent 2 0) =
    .ok (committedWithParentBytes 2 0) := rfl
  rw [Sqlite.rowOf_eq hbytes]
  change (decodeEntryWithDefHash blake3 (committedWithParentBytes 2 0)
    (committedWithParent 2 0).storedDefHash).mapError JournalError.decode = _
  rw [decodeEntry_unknownEdgeKind]
  rfl

/-- It is stored once, and answering its duplicate fails. -/
theorem appendOne_unknownEdgeKind :
    let entry := committedWithParent 2 0
    let row := Sqlite.rowOf blake3 entry
    Sqlite.appendOne blake3 [] entry = .ok ([row], entry) ∧
      Sqlite.appendOne blake3 [row] entry = .error (.decode (.unknownEdgeKind 2)) := by
  intro entry row
  have hencodes : Encodes blake3 entry := ⟨committedWithParentBytes 2 0, rfl, by decide +kernel⟩
  have hderive : entry.deriveIdempotencyKey blake3 = entry := rfl
  have hnone : DedupLog.find entryScheme [] entry = none := rfl
  have hwf : DedupLog.WellFormed entryScheme [entry] :=
    (DedupLog.WellFormed.nil _).snoc (by decide) hnone
  have hfind : DedupLog.find entryScheme [entry] entry = some entry :=
    hwf.find_eq_of_mem (mem_singleton_self entry) rfl (by decide)
  constructor
  · have hfresh : _ ∨ _ := Sqlite.appendOne_fresh (t := ⟨[]⟩) rfl (DedupLog.WellFormed.nil _)
      (by decide) (hderive ▸ hnone)
    rcases hfresh with ⟨_, hone⟩ | ⟨hfail, _⟩
    · exact hone
    · exact absurd hencodes hfail
  · have hexisting : Sqlite.appendOne blake3 [row] entry =
        (Sqlite.decodeRow blake3 row).map fun durable => ([row], durable) :=
      Sqlite.appendOne_existing (t := ⟨[row]⟩) rfl (hderive ▸ hfind)
    rw [hexisting, decodeRow_unknownEdgeKind]
    rfl

/-- Whatever the hash, an accepted entry can make its duplicate fail: the second
append of a committed entry whose parent has an unknown edge kind returns an error
where it should return the first, and a batch of the two loses both while appending
them one by one keeps the first. -/
theorem not_sqlite_logLaws :
    ¬ ∃ blake3 : List UInt8 → ByteVec 32,
      let J := sqlite blake3
      let entry := committedWithParent 2 0
      (J.append J.new entry).result ≠ .ok entry ∨
      (J.append (J.append J.new entry).state entry).result = (J.append J.new entry).result ∨
      (J.appendBatch J.new [entry, entry]).state = (J.appendEach J.new [entry, entry]).1 := by
  rintro ⟨blake3, hlaws⟩
  obtain ⟨hfirst, hsecond⟩ := appendOne_unknownEdgeKind blake3
  simp only [sqlite, Backend.appendEach, Sqlite.append, Sqlite.appendBatch, Sqlite.appendLoop,
    isEmpty_cons, Bool.false_eq_true, if_false, hfirst, hsecond, bind, Except.bind] at hlaws
  simp at hlaws

theorem InMemory.announcing :
    Announcing (inMemory blake3) fun s => InMemory.Holds s s.entries where
  new := (InMemory.keepsLog blake3).new
  call {s c} hholds hroom := by
    have hown : ∀ {s' : InMemory.State}, (∃ log', InMemory.Holds s' log') →
        InMemory.Holds s' s'.entries := by
      rintro s' ⟨log', hholds'⟩
      rwa [hholds'.entries]
    cases c with
    | append e =>
      exact (call_of_grows (J := inMemory blake3) (InMemory.keepsLog blake3).records
        hholds (InMemory.append_grows hholds hroom)).imp_left hown
    | appendBatch es =>
      exact (call_of_grows (J := inMemory blake3) (InMemory.keepsLog blake3).records
        hholds (InMemory.appendBatch_grows hholds hroom)).imp_left hown
  currentSeq {s head} hholds hroom hhead := by
    cases hhead
    rw [hholds.nextSeq]
    exact Backend.toNat_ofNat_seq hroom
  read {s start stop} hholds _ _ := by
    change InMemory.readEntriesBySeq s _ _ = List.mapM Except.ok _
    rw [InMemory.readEntriesBySeq_segment hholds]
    exact (mapM_ok_eq_ok _).symm
  seqs hholds := hholds.wellFormed.numbers
  seq_entryOf _ _ he := by
    cases he
    rfl

theorem Sqlite.announcing :
    Announcing (sqlite blake3) fun t => ∃ log, Sqlite.Stores blake3 t log where
  new := ⟨[], rfl, DedupLog.WellFormed.nil _, by simp⟩
  call {t c} hinv hroom := by
    obtain ⟨log, hstores⟩ := hinv
    have hlength : t.rows.length = log.length := by rw [hstores.rows, length_map]
    change t.rows.length + _ < _ at hroom
    rw [hlength] at hroom
    cases c with
    | append e =>
      exact call_of_grows (J := sqlite blake3) Sqlite.Stores.rows hstores
        (Sqlite.append_grows hstores hroom e)
    | appendBatch es =>
      exact call_of_grows (J := sqlite blake3) Sqlite.Stores.rows hstores
        (Sqlite.appendBatch_grows hstores hroom)
  currentSeq {t head} hinv hroom hhead := by
    obtain ⟨log, hstores⟩ := hinv
    have hlength : t.rows.length = log.length := by rw [hstores.rows, length_map]
    cases hhead
    change (UInt64.ofNat (Sqlite.maxSeq t.rows)).toNat = t.rows.length
    change t.rows.length < _ at hroom
    rw [hlength] at hroom ⊢
    rw [hstores.rows, Sqlite.maxSeq_rows hstores.wellFormed]
    exact Backend.toNat_ofNat_seq hroom
  read {t start stop} hinv hstart hstop := by
    obtain ⟨log, hstores⟩ := hinv
    exact Sqlite.readEntriesBySeq_segment hstores hstart hstop
  seqs {t} hinv := by
    obtain ⟨log, hstores⟩ := hinv
    change t.rows.map (·.seq) = List.range' 1 t.rows.length
    rw [hstores.rows, map_map, length_map]
    exact hstores.wellFormed.numbers
  seq_entryOf {t r e} hinv hr he := by
    obtain ⟨log, hstores⟩ := hinv
    change r ∈ t.rows at hr
    rw [hstores.rows] at hr
    obtain ⟨x, hx, rfl⟩ := mem_map.mp hr
    rw [Sqlite.seq_decodeRow (hstores.encodes x hx) he]
    rfl

/-- For any number of subscribers and every interleaving of their steps with commits and
publishes, a subscriber is delivered each committed entry after its initial cursor exactly once:
in memory always, and on SQLite if all entries of the journal are readable. -/
theorem subscription_exactlyOnce (blake3 : List UInt8 → ByteVec 32) (ι : Type) [DecidableEq ι] :
    (∀ (y₀ y : System (inMemory blake3) ι) (i : ι) (p : Progress), y₀.Initial →
        Relation.ReflTransGen System.Step y₀ y → (y.subscribers i).progress = some p →
        ExactlyOnce (inMemory blake3) y i p) ∧
      ∀ (y₀ y : System (sqlite blake3) ι) (i : ι) (p : Progress), y₀.Initial →
        Relation.ReflTransGen System.Step y₀ y →
        (∀ log, Sqlite.Stores blake3 y.journal log → ∀ e ∈ log, e.Readable) →
        (y.subscribers i).progress = some p → ExactlyOnce (sqlite blake3) y i p := by
  refine ⟨fun y₀ y i p hinit hrun hp => ?_, fun y₀ y i p hinit hrun hreadable hp => ?_⟩
  · exact (InMemory.announcing blake3).exactlyOnce hinit hrun (fun _ r _ => ⟨r, rfl⟩) hp
  · refine (Sqlite.announcing blake3).exactlyOnce hinit hrun ?_ hp
    rintro ⟨log, hstores⟩ r hr
    change r ∈ y.journal.rows at hr
    rw [hstores.rows] at hr
    obtain ⟨e, he, rfl⟩ := mem_map.1 hr
    exact ⟨e, Sqlite.decodeRow_rowOf (hstores.encodes e he) (hreadable log hstores e he)⟩

/-- A journal just created, with one subscriber to come. -/
def newSystem (J : Backend) : System J Unit :=
  ⟨J.new, [], .new, fun _ => .absent⟩

/-- The subscriber starts, a failure is committed and published, and the subscriber is
woken and reads it. -/
theorem subscription_exactlyOnce_oneFailure :
    ∃ (y₀ y : System (inMemory fun _ => .replicate 32 0) Unit) (p : Progress),
      y₀.Initial ∧ Relation.ReflTransGen System.Step y₀ y ∧
        (y.subscribers ()).progress = some p ∧ p.delivered = [olderFailure.setSeq 1] ∧
        ExactlyOnce _ y () p := by
  have hinit : (newSystem (inMemory fun _ => .replicate 32 0)).Initial :=
    ⟨.new, by decide, rfl, rfl, fun _ => rfl⟩
  have hread : InMemory.readEntriesBySeq ⟨[olderFailure.setSeq 1], 1⟩ (0 + 1) (1 + 1) =
      .ok [olderFailure.setSeq 1] := by
    have hfilter : ([olderFailure.setSeq 1].filter fun e => 0 + 1 ≤ e.seq && e.seq < 1 + 1) =
        [olderFailure.setSeq 1] := by decide
    unfold InMemory.readEntriesBySeq
    rw [hfilter, mergeSort_singleton]
  have hrun : Relation.ReflTransGen System.Step
      (newSystem (inMemory fun _ => .replicate 32 0)) _ :=
    .tail (.tail (.tail (.tail (.tail (.tail (.tail .refl
      (.subscribe () rfl))
      (.start () rfl rfl))
      (.commit (.append olderFailure) (by decide)))
      (.publish (show (1 : UInt64) ∈ _ from by decide)))
      (.wake () rfl rfl))
      (.readHead () rfl rfl))
      (.deliver () rfl hread)
  exact ⟨_, _, _, hinit, hrun, rfl, rfl,
    (subscription_exactlyOnce (fun _ => .replicate 32 0) Unit).1 _ _ () _ hinit hrun rfl⟩

/-- The subscriber is woken for the entry that cannot be read, stops, and is not delivered it. -/
theorem not_exactlyOnce_unknownEdgeKind :
    ∃ (y₀ y : System (sqlite fun _ => .replicate 32 0) Unit) (p : Progress), y₀.Initial ∧
      Relation.ReflTransGen System.Step y₀ y ∧ y.subscribers () = .stopped p ∧
      y.outstanding = [] ∧ p.start = 0 ∧ p.delivered = [] ∧ y.length = 1 := by
  -- The hash does not matter.
  generalize (fun _ => ByteVec.replicate 32 0 : List UInt8 → ByteVec 32) = blake3
  obtain ⟨row, hrow⟩ : ∃ row, row = Sqlite.rowOf blake3 (committedWithParent 2 0) := ⟨_, rfl⟩
  obtain ⟨c, hc⟩ : ∃ c, c = Call.append (committedWithParent 2 0) := ⟨_, rfl⟩
  have happend : Sqlite.append blake3 ⟨[]⟩ (committedWithParent 2 0) =
      ⟨⟨[row]⟩, .ok (committedWithParent 2 0), some 1⟩ := by
    unfold Sqlite.append
    rw [(appendOne_unknownEdgeKind blake3).1, hrow]
    rfl
  have hcall : (sqlite blake3).call ⟨[]⟩ c = ⟨[row]⟩ := hc ▸ congrArg Appended.state happend
  have hpublishes : (sqlite blake3).publishes ⟨[]⟩ c = some 1 :=
    hc ▸ congrArg Appended.publishes happend
  have hread : (sqlite blake3).readEntriesBySeq ((sqlite blake3).call ⟨[]⟩ c) (0 + 1) (1 + 1) =
      .error (.decode (.unknownEdgeKind 2)) := by
    have hfilter : [row].filter (fun r => (0 + 1 : UInt64).toInt64.toInt ≤ r.seq &&
        r.seq < (1 + 1 : UInt64).toInt64.toInt) = [row] := by
      rw [hrow, filter_cons_of_pos (by rfl), filter_nil]
    rw [hcall]
    change List.mapM _ (([row].filter _).mergeSort _) = _
    rw [hfilter, mergeSort_singleton, mapM_cons, hrow, decodeRow_unknownEdgeKind]
    rfl
  have hhead : (sqlite blake3).currentSeq ((sqlite blake3).call ⟨[]⟩ c) = .ok 1 := by
    rw [hcall, hrow]
    rfl
  have hroom : 0 + c.entries.length + 1 < Backend.SEQ_LIMIT := by
    rw [hc]
    decide
  have hinit : (newSystem (sqlite blake3)).Initial :=
    ⟨.new, show 0 + 1 < Backend.SEQ_LIMIT by decide, rfl, rfl, fun _ => rfl⟩
  have hrun : Relation.ReflTransGen System.Step (newSystem (sqlite blake3)) _ :=
    .tail (.tail (.tail (.tail (.tail (.tail (.tail .refl
      (.subscribe () rfl))
      (.start () rfl rfl))
      (.commit c hroom))
      (.publish (show (1 : UInt64) ∈ ((sqlite blake3).publishes ⟨[]⟩ c).toList ++ [] by
        simp [hpublishes])))
      (.wake () rfl rfl))
      (.readHead () rfl hhead))
      (.fail () rfl hread)
  refine ⟨_, _, _, hinit, hrun, rfl, ?_, rfl, rfl, ?_⟩
  · change (((sqlite blake3).publishes ⟨[]⟩ c).toList ++ []).erase 1 = []
    rw [hpublishes]
    rfl
  · exact congrArg (fun t : Sqlite.Table => t.rows.length) hcall

end Kortecx.Journal
