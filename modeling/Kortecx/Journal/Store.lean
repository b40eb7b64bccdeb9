import Kortecx.Journal.Migration
import Kortecx.Lib.DedupLog

/-!
What the two journal backends share: the steps every append makes before it
touches storage, the operations a backend offers, and what it means for a
backend to keep the deduplicating log. The laws of the log are derived here once,
for any backend that does.
-/

namespace Kortecx.Journal

open Lib Mote List DedupLog Lib.DedupLog

namespace JournalEntry

/-- Inject an assigned `seq` into an entry. -/
def setSeq (newSeq : UInt64) : JournalEntry → JournalEntry
  | .proposed e => .proposed { e with seq := newSeq }
  | .committed e => .committed { e with seq := newSeq }
  | .repudiated e => .repudiated { e with seq := newSeq }
  | .failed e => .failed { e with seq := newSeq }
  | .effectStaged e => .effectStaged { e with seq := newSeq }
  | .runRegistered e => .runRegistered { e with seq := newSeq }
  | .runVersionsResolved e => .runVersionsResolved { e with seq := newSeq }
  | .digestSealed e => .digestSealed { e with seq := newSeq }
  | .replanRound e => .replanRound { e with seq := newSeq }
  | .reactRound e => .reactRound { e with seq := newSeq }
  | .approval e => .approval { e with seq := newSeq }
  | .reRankRound e => .reRankRound { e with seq := newSeq }
  | .timerArmed e => .timerArmed { e with seq := newSeq }

/-- A repudiation's key is derived from its target before anything else, so the
key the caller put in the entry never counts. -/
def deriveIdempotencyKey (blake3 : List UInt8 → ByteVec 32) : JournalEntry → JournalEntry
  | .repudiated e =>
    .repudiated { e with
      idempotencyKey := repudiationIdempotencyKey blake3 e.targetMoteId e.targetCommittedSeq }
  | e => e

end JournalEntry

/-- The kinds of the partial unique index. A failure is not among them: every
retry is its own fact. -/
def dedupes (kind : UInt8) : Bool :=
  kind == KIND_COMMITTED || kind == KIND_REPUDIATED || kind == KIND_EFFECT_STAGED

def dedupeKey (e : JournalEntry) : Option (UInt8 × IdempotencyKey) :=
  if dedupes e.kind then some (e.kind, e.idempotencyKey) else none

section Entries

variable {blake3 : List UInt8 → ByteVec 32} {e : JournalEntry} {n : UInt64}

@[simp]
theorem seq_setSeq (e : JournalEntry) : (e.setSeq n).seq = n := by
  cases e <;> rfl

@[simp]
theorem kind_setSeq (n : UInt64) (e : JournalEntry) : (e.setSeq n).kind = e.kind := by
  cases e <;> rfl

@[simp]
theorem idempotencyKey_setSeq (n : UInt64) (e : JournalEntry) :
    (e.setSeq n).idempotencyKey = e.idempotencyKey := by
  cases e <;> rfl

@[simp]
theorem readable_setSeq : (e.setSeq n).Readable ↔ e.Readable := by
  cases e <;> exact Iff.rfl

@[simp]
theorem encodeBody_setSeq (n : UInt64) (e : JournalEntry) :
    encodeBody (e.setSeq n) = encodeBody e := by
  cases e <;> rfl

@[simp]
theorem kind_deriveIdempotencyKey (e : JournalEntry) :
    (e.deriveIdempotencyKey blake3).kind = e.kind := by
  cases e <;> rfl

@[simp]
theorem readable_deriveIdempotencyKey : (e.deriveIdempotencyKey blake3).Readable ↔ e.Readable := by
  cases e <;> exact Iff.rfl

@[simp]
theorem encodeBody_deriveIdempotencyKey (e : JournalEntry) :
    encodeBody (e.deriveIdempotencyKey blake3) = encodeBody e := by
  cases e <;> rfl

theorem dedupeKey_eq_iff {b : JournalEntry} (hdedupes : dedupes b.kind) :
    dedupeKey a = dedupeKey b ↔ a.kind = b.kind ∧ a.idempotencyKey = b.idempotencyKey := by
  unfold dedupeKey
  rw [if_pos hdedupes]
  constructor
  · intro heq
    split at heq
    · simpa using heq
    · cases heq
  · rintro ⟨hkind, hkey⟩
    rw [hkind, hkey, if_pos hdedupes]

theorem dedupeKey_ne_none : dedupeKey e ≠ none ↔ dedupes e.kind := by
  unfold dedupeKey
  split <;> simp [*]

end Entries

/-- The journal's entries as entries of a deduplicating log. -/
def entryScheme : DedupLog.Scheme JournalEntry (UInt8 × IdempotencyKey) where
  key := dedupeKey
  stamp n e := e.setSeq (UInt64.ofNat n)
  number e := e.seq.toNat
  bound := 2 ^ 64
  key_stamp n e := by simp [dedupeKey]
  number_stamp e hn := by simpa using hn

def Encodes (blake3 : List UInt8 → ByteVec 32) (e : JournalEntry) : Prop :=
  ∃ bytes, encodeEntry blake3 e = .ok bytes ∧ bytes.length ≤ MAX_ENTRY_LEN

theorem encodes_iff :
    Encodes blake3 e ↔
      ∃ body, encodeBody e = .ok body ∧ HEADER_LEN + body.length ≤ MAX_ENTRY_LEN := by
  constructor
  · rintro ⟨bytes, hbytes, hlen⟩
    obtain ⟨body, hbody, rfl⟩ := encodeEntry_ok.mp hbytes
    exact ⟨body, hbody, by simpa using hlen⟩
  · rintro ⟨body, hbody, hlen⟩
    exact ⟨_, encodeEntry_ok.mpr ⟨body, hbody, rfl⟩, by simpa using hlen⟩

/-- Neither the assigned `seq` nor a derived key changes whether an entry fits. -/
theorem encodes_prepared {e : JournalEntry} :
    Encodes blake3 ((e.deriveIdempotencyKey blake3).setSeq n) ↔ Encodes blake3 e := by
  simp only [encodes_iff, encodeBody_setSeq, encodeBody_deriveIdempotencyKey]

/-- The outcome of a call that appends: the state it leaves, what it returns, and
the head it publishes to the watch once the state is durable. -/
structure Appended (σ ρ : Type) where
  state : σ
  result : Except JournalError ρ
  publishes : Option UInt64

/-- The operations of the `Journal` trait that the log's laws are about. A `Record`
is what the backend stores for one entry. -/
structure Backend where
  State : Type
  Record : Type
  new : State
  records : State → List Record
  seqOf : Record → Nat
  kindOf : Record → UInt8
  keyOf : Record → IdempotencyKey
  entryOf : Record → Except JournalError JournalEntry
  append : State → JournalEntry → Appended State JournalEntry
  appendBatch : State → List JournalEntry → Appended State (List JournalEntry)
  readEntriesBySeq : State → UInt64 → UInt64 → Except JournalError (List JournalEntry)
  currentSeq : State → Except JournalError UInt64

inductive Call where
  | append (e : JournalEntry)
  | appendBatch (es : List JournalEntry)

def Call.entries : Call → List JournalEntry
  | .append e => [e]
  | .appendBatch es => es

namespace Backend

variable (J : Backend)

def call (s : J.State) : Call → J.State
  | .append e => (J.append s e).state
  | .appendBatch es => (J.appendBatch s es).state

/-- Appending one entry after another, as a caller without `append_batch` would. -/
def appendEach (s : J.State) : List JournalEntry → J.State × Except JournalError (List JournalEntry)
  | [] => (s, .ok [])
  | e :: rest =>
    match J.append s e with
    | ⟨s', .error err, _⟩ => (s', .error err)
    | ⟨s', .ok durable, _⟩ =>
      let done := appendEach s' rest
      (done.1, done.2.map (durable :: ·))

/-- The largest `seq` column SQLite can hold is one less than this. -/
def SEQ_LIMIT : Nat := 2 ^ 63

theorem toNat_ofNat_seq (hn : n < SEQ_LIMIT) : (UInt64.ofNat n).toNat = n :=
  UInt64.toNat_ofNat_of_lt' (lt_trans hn (by decide))

variable {seq : UInt64}

theorem toNat_succ_seq (hseq : seq.toNat + 1 < SEQ_LIMIT) :
    (seq + 1).toNat = seq.toNat + 1 := by
  have hlt : seq.toNat + 1 < 2 ^ 64 := lt_trans hseq (by decide)
  rw [UInt64.toNat_add, UInt64.toNat_one]
  exact Nat.mod_eq_of_lt hlt

/-- A `seq` below the limit is the same number as a signed integer. -/
theorem toInt_seq (hseq : seq.toNat < SEQ_LIMIT) :
    seq.toInt64.toInt = seq.toNat := by
  apply BitVec.toInt_eq_toNat_of_lt (x := seq.toBitVec)
  change 2 * seq.toNat < 2 ^ 64
  unfold SEQ_LIMIT at hseq
  omega

/-- A call the laws speak of: there are seqs left for its entries, and each of
them is admitted. -/
def Meets (admits : JournalEntry → Prop) (s : J.State) (c : Call) : Prop :=
  (J.records s).length + c.entries.length < SEQ_LIMIT ∧ ∀ e ∈ c.entries, admits e

/-- The states of the runs from an empty journal whose calls are all admitted. -/
inductive Reaches (admits : JournalEntry → Prop) : J.State → Prop where
  | new : Reaches admits J.new
  | call {s : J.State} (c : Call) (hreach : Reaches admits s) (hmeets : J.Meets admits s c) :
      Reaches admits (J.call s c)

/-- The record is what dedupe must find for `e`. -/
def SameFact (blake3 : List UInt8 → ByteVec 32) (r : J.Record) (e : JournalEntry) : Prop :=
  dedupes e.kind ∧ J.kindOf r = e.kind ∧
    J.keyOf r = (e.deriveIdempotencyKey blake3).idempotencyKey

structure LogLaws (blake3 : List UInt8 → ByteVec 32) (admits : JournalEntry → Prop) : Prop where
  /-- The seqs are 1 to n in order, with no gap and no repeat. -/
  seqs : ∀ s, J.Reaches admits s → (J.records s).map J.seqOf = List.range' 1 (J.records s).length
  /-- At most one record per kind and key, for the kinds that dedupe. -/
  unique : ∀ s, J.Reaches admits s → (J.records s).Pairwise fun a b =>
    ¬ (dedupes (J.kindOf a) ∧ J.kindOf a = J.kindOf b ∧ J.keyOf a = J.keyOf b)
  /-- A deduped append returns the entry that is there and changes nothing. -/
  deduped : ∀ s e r, J.Reaches admits s → J.Meets admits s (.append e) → r ∈ J.records s →
    J.SameFact blake3 r e →
    (J.append s e).state = s ∧
      ∃ existing, J.entryOf r = .ok existing ∧ (J.append s e).result = .ok existing
  /-- Any other append of an entry that encodes adds one record, for the entry it returns. -/
  fresh : ∀ s e, J.Reaches admits s → J.Meets admits s (.append e) → Encodes blake3 e →
    (∀ r ∈ J.records s, ¬ J.SameFact blake3 r e) →
    ∃ r durable, J.records (J.append s e).state = J.records s ++ [r] ∧
      (J.append s e).result = .ok durable ∧
      durable = (e.deriveIdempotencyKey blake3).setSeq (UInt64.ofNat ((J.records s).length + 1)) ∧
      (dedupes e.kind → J.entryOf r = .ok durable)
  /-- No call changes or removes a record. -/
  stable : ∀ s c, J.Reaches admits s → J.Meets admits s c →
    J.records s <+: J.records (J.call s c)
  /-- A batch of entries that encode is the same as appending them one by one. -/
  batch : ∀ s es, J.Reaches admits s → J.Meets admits s (.appendBatch es) →
    (∀ e ∈ es, Encodes blake3 e) →
    (J.appendBatch s es).state = (J.appendEach s es).1 ∧
      (J.appendBatch s es).result = (J.appendEach s es).2

/-- What a call that left the log `log'` for `log` tells the watch: some head of
the log, and the last one whenever the log grew. -/
def Announces (log log' : List JournalEntry) : Option UInt64 → Prop
  | none => log' = log
  | some head => head.toNat ≤ log'.length ∧ (log' ≠ log → head.toNat = log'.length)

/-- The `seq` of the entry an append returned is a head of the log it left. -/
theorem announces_append (hwf : WellFormed entryScheme (DedupLog.append entryScheme log e).1)
    (hroom : log.length + 1 < SEQ_LIMIT) :
    Announces log (DedupLog.append entryScheme log e).1
      (some (DedupLog.append entryScheme log e).2.seq) := by
  refine ⟨(hwf.number_mem (mem_append_snd _ _ _)).2, ?_⟩
  intro hgrew
  rcases DedupLog.append_cases entryScheme log e with ⟨b, _, heq⟩ | ⟨_, heq⟩
  · exact absurd (by rw [heq]) hgrew
  rw [heq, length_append]
  exact entryScheme.number_stamp e (lt_trans hroom (by decide))

/-- The largest `seq` among the entries a batch returned is a head of the log it
left: the last one if anything was added, wherever in the batch the new entries
stand. -/
theorem announces_appendAll (hne : es ≠ [])
    (hwf : WellFormed entryScheme (appendAll entryScheme log es).1)
    (hroom : log.length + es.length < SEQ_LIMIT) :
    Announces log (appendAll entryScheme log es).1
      ((appendAll entryScheme log es).2.map (·.seq)).max? := by
  cases hmax : ((appendAll entryScheme log es).2.map (·.seq)).max? with
  | none =>
    have hlen := congrArg List.length (List.max?_eq_none_iff.mp hmax)
    simp only [length_map, length_appendAll_snd, length_nil] at hlen
    exact absurd (length_eq_zero_iff.mp hlen) hne
  | some head =>
    obtain ⟨hhead, hlargest⟩ := List.max?_eq_some_iff.mp hmax
    obtain ⟨x, hx, rfl⟩ := mem_map.mp hhead
    have hle := (hwf.number_mem (mem_appendAll_snd hx)).2
    refine ⟨hle, fun hgrew => le_antisymm hle ?_⟩
    obtain ⟨b, hb, hlast⟩ := exists_number_eq_length (lt_trans hroom (by decide)) hgrew
    rw [← hlast]
    exact UInt64.le_iff_toNat_le.mp (hlargest b.seq (mem_map_of_mem hb))

/-- The call did what the abstract log does. -/
structure Commits {σ ρ : Type} (rel : σ → List JournalEntry → Prop) (log : List JournalEntry)
    (done : List JournalEntry × ρ) (c : Appended σ ρ) : Prop where
  state : rel c.state done.1
  result : c.result = .ok done.2
  publishes : Announces log done.1 c.publishes

/-- The call failed, and left the state as it was. -/
def Rejects {σ ρ : Type} (s : σ) (c : Appended σ ρ) : Prop :=
  ∃ err, c = ⟨s, .error err, none⟩

/-- All a watch needs to know of a call: it left an extension of the log, by at most
`k` entries, and announces it. -/
def Grows {σ ρ : Type} (rel : σ → List JournalEntry → Prop) (log : List JournalEntry) (k : Nat)
    (c : Appended σ ρ) : Prop :=
  ∃ log', rel c.state log' ∧ log <+: log' ∧ log'.length ≤ log.length + k ∧
    Announces log log' c.publishes

theorem Rejects.grows {σ ρ : Type} {rel : σ → List JournalEntry → Prop}
    {log : List JournalEntry} {s : σ} {c : Appended σ ρ} (hrejects : Rejects s c)
    (hrel : rel s log) (k : Nat) : Grows rel log k c := by
  obtain ⟨err, rfl⟩ := hrejects
  exact ⟨log, hrel, List.prefix_refl log, Nat.le_add_right _ _, rfl⟩

/-- The backend keeps the deduplicating log: `rel` says which log a state holds,
and on admitted entries each call does to that log what the abstract operation
does. Only an entry that does not encode makes a call fail. -/
structure KeepsLog (blake3 : List UInt8 → ByteVec 32) (admits : JournalEntry → Prop)
    (recordOf : JournalEntry → J.Record) (rel : J.State → List JournalEntry → Prop) : Prop where
  new : rel J.new []
  wellFormed : ∀ {s log}, rel s log → WellFormed entryScheme log
  state_unique : ∀ {s s' log}, rel s log → rel s' log → s = s'
  records : ∀ {s log}, rel s log → J.records s = log.map recordOf
  seqOf : ∀ e, J.seqOf (recordOf e) = e.seq.toNat
  kindOf : ∀ e, J.kindOf (recordOf e) = e.kind
  keyOf : ∀ e, J.keyOf (recordOf e) = e.idempotencyKey
  entryOf : ∀ {s log e}, rel s log → e ∈ log → dedupes e.kind → J.entryOf (recordOf e) = .ok e
  append : ∀ {s log e}, rel s log → log.length + 1 < SEQ_LIMIT → admits e →
    Commits rel log (DedupLog.append entryScheme log (e.deriveIdempotencyKey blake3))
      (J.append s e) ∨
    Rejects s (J.append s e) ∧ ¬ Encodes blake3 e ∧
      DedupLog.find entryScheme log (e.deriveIdempotencyKey blake3) = none
  appendBatch : ∀ {s log es}, rel s log → log.length + es.length < SEQ_LIMIT →
    (∀ e ∈ es, admits e) →
    Commits rel log
      (appendAll entryScheme log (es.map (·.deriveIdempotencyKey blake3)))
      (J.appendBatch s es) ∨
    Rejects s (J.appendBatch s es) ∧ ∃ e ∈ es, ¬ Encodes blake3 e

namespace KeepsLog

variable {J} {blake3 : List UInt8 → ByteVec 32} {admits : JournalEntry → Prop}
  {recordOf : JournalEntry → J.Record} {rel : J.State → List JournalEntry → Prop} {s : J.State}
  {log : List JournalEntry} (hkeeps : J.KeepsLog blake3 admits recordOf rel)

include hkeeps

theorem length_records (hrel : rel s log) : (J.records s).length = log.length := by
  rw [hkeeps.records hrel, length_map]

/-- One call takes the abstract log to an extension of it. -/
theorem call_rel (hrel : rel s log) (hmeets : J.Meets admits s c) :
    ∃ log', rel (J.call s c) log' ∧ log <+: log' := by
  obtain ⟨hroom, hadmits⟩ := hmeets
  rw [hkeeps.length_records hrel] at hroom
  cases c with
  | append e =>
    rcases hkeeps.append hrel hroom (hadmits e (by simp [Call.entries])) with hdone | hfail
    · exact ⟨_, hdone.state, DedupLog.prefix_append _ _ _⟩
    obtain ⟨⟨err, hcall⟩, _⟩ := hfail
    refine ⟨log, ?_, List.prefix_refl log⟩
    simpa [call, hcall] using hrel
  | appendBatch es =>
    change log.length + es.length < SEQ_LIMIT at hroom
    rcases hkeeps.appendBatch hrel hroom hadmits with hdone | hfail
    · exact ⟨_, hdone.state, DedupLog.prefix_appendAll _ _ _⟩
    obtain ⟨⟨err, hcall⟩, _⟩ := hfail
    refine ⟨log, ?_, List.prefix_refl log⟩
    simpa [call, hcall] using hrel

/-- Every state of a run holds some log. -/
theorem reaches_rel (hreach : J.Reaches admits s) : ∃ log, rel s log := by
  induction hreach with
  | new => exact ⟨[], hkeeps.new⟩
  | call c _ hmeets ih =>
    obtain ⟨log, hrel⟩ := ih
    obtain ⟨log', hrel', _⟩ := hkeeps.call_rel hrel hmeets
    exact ⟨log', hrel'⟩

theorem sameFact_iff (x e : JournalEntry) :
    J.SameFact blake3 (recordOf x) e ↔
      dedupeKey x = dedupeKey (e.deriveIdempotencyKey blake3) ∧
        dedupeKey (e.deriveIdempotencyKey blake3) ≠ none := by
  unfold SameFact
  rw [hkeeps.kindOf, hkeeps.keyOf, dedupeKey_ne_none, kind_deriveIdempotencyKey]
  constructor
  · rintro ⟨hdedupes, hfact⟩
    exact ⟨(dedupeKey_eq_iff (by simpa using hdedupes)).mpr (by simpa using hfact), hdedupes⟩
  · rintro ⟨hkey, hdedupes⟩
    exact ⟨hdedupes, by simpa using (dedupeKey_eq_iff (by simpa using hdedupes)).mp hkey⟩

/-- Appending one by one also does what the abstract log does. -/
theorem appendEach_commits (hrel : rel s log) {es : List JournalEntry}
    (hroom : log.length + es.length < SEQ_LIMIT) (hadmits : ∀ e ∈ es, admits e)
    (hencodes : ∀ e ∈ es, Encodes blake3 e) :
    rel (J.appendEach s es).1
        (appendAll entryScheme log (es.map (·.deriveIdempotencyKey blake3))).1 ∧
      (J.appendEach s es).2 =
        .ok (appendAll entryScheme log (es.map (·.deriveIdempotencyKey blake3))).2 := by
  induction es generalizing s log with
  | nil => exact ⟨hrel, rfl⟩
  | cons e rest ih =>
    rw [length_cons] at hroom
    rcases hkeeps.append hrel (by omega) (hadmits e (by simp)) with hdone | hfail
    · have hlen := length_append_le entryScheme log (e.deriveIdempotencyKey blake3)
      have hrest := ih hdone.state (by omega) (fun x hx => hadmits x (by simp [hx]))
        (fun x hx => hencodes x (by simp [hx]))
      unfold appendEach
      generalize hcall : J.append s e = c at hdone hrest
      obtain ⟨s', result, published⟩ := c
      obtain rfl : result = _ := hdone.result
      exact ⟨hrest.1, by simp [hrest.2, Except.map]⟩
    · exact absurd (hencodes e (by simp)) hfail.2.1

/-- The laws of the log hold of every backend that keeps it. -/
theorem logLaws : J.LogLaws blake3 admits where
  seqs s hreach := by
    obtain ⟨log, hrel⟩ := hkeeps.reaches_rel hreach
    have hseq : J.seqOf ∘ recordOf = entryScheme.number := funext hkeeps.seqOf
    rw [hkeeps.records hrel, map_map, length_map, hseq]
    exact (hkeeps.wellFormed hrel).numbers
  unique s hreach := by
    obtain ⟨log, hrel⟩ := hkeeps.reaches_rel hreach
    rw [hkeeps.records hrel, pairwise_map]
    refine (hkeeps.wellFormed hrel).keys.imp ?_
    rintro a b hab ⟨hdedupes, hfact⟩
    simp only [hkeeps.kindOf, hkeeps.keyOf] at hdedupes hfact
    have hkey : dedupeKey a = dedupeKey b :=
      (dedupeKey_eq_iff (hfact.1 ▸ hdedupes)).mpr hfact
    exact dedupeKey_ne_none.mpr hdedupes (hab hkey)
  deduped s e r hreach hmeets hr hfact := by
    obtain ⟨log, hrel⟩ := hkeeps.reaches_rel hreach
    obtain ⟨hroom, hadmits⟩ := hmeets
    rw [hkeeps.length_records hrel] at hroom
    rw [hkeeps.records hrel] at hr
    obtain ⟨x, hx, rfl⟩ := mem_map.mp hr
    obtain ⟨hkey, hsome⟩ := (hkeeps.sameFact_iff x e).mp hfact
    have hfind := (hkeeps.wellFormed hrel).find_eq_of_mem hx hkey hsome
    rcases hkeeps.append hrel hroom (hadmits e (by simp [Call.entries])) with hdone | hfail
    · rw [append_of_find hfind] at hdone
      have hdedupes : dedupes x.kind := dedupeKey_ne_none.mp (hkey ▸ hsome)
      exact ⟨hkeeps.state_unique hdone.state hrel, x, hkeeps.entryOf hrel hx hdedupes, hdone.result⟩
    · simp [hfind] at hfail
  fresh s e hreach hmeets hencodes hnone := by
    obtain ⟨log, hrel⟩ := hkeeps.reaches_rel hreach
    obtain ⟨hroom, hadmits⟩ := hmeets
    rw [hkeeps.length_records hrel] at hroom
    rw [hkeeps.records hrel] at hnone
    have hfind : DedupLog.find entryScheme log (e.deriveIdempotencyKey blake3) = none := by
      cases hfind : DedupLog.find entryScheme log (e.deriveIdempotencyKey blake3) with
      | none => rfl
      | some x =>
        obtain ⟨hx, hkey, hsome⟩ := mem_of_find_eq_some hfind
        exact absurd ((hkeeps.sameFact_iff x e).mpr ⟨hkey, hsome⟩)
          (hnone _ (mem_map_of_mem hx))
    rcases hkeeps.append hrel hroom (hadmits e (by simp [Call.entries])) with hdone | hfail
    · rw [DedupLog.append_of_fresh hfind] at hdone
      let durable := entryScheme.stamp (log.length + 1) (e.deriveIdempotencyKey blake3)
      refine ⟨recordOf durable, durable, ?_, hdone.result, ?_, ?_⟩
      · rw [hkeeps.records hdone.state, hkeeps.records hrel, map_append, map_singleton]
      · rw [hkeeps.length_records hrel]
        rfl
      · intro hdedupes
        apply hkeeps.entryOf hdone.state (by simp [durable])
        simpa [durable, entryScheme] using hdedupes
    · exact absurd hencodes hfail.2.1
  stable s c hreach hmeets := by
    obtain ⟨log, hrel⟩ := hkeeps.reaches_rel hreach
    obtain ⟨log', hrel', hextends⟩ := hkeeps.call_rel hrel hmeets
    rw [hkeeps.records hrel, hkeeps.records hrel']
    exact hextends.map recordOf
  batch s es hreach hmeets hencodes := by
    obtain ⟨log, hrel⟩ := hkeeps.reaches_rel hreach
    obtain ⟨hroom, hadmits⟩ := hmeets
    rw [hkeeps.length_records hrel] at hroom
    obtain ⟨hstate, hresult⟩ := hkeeps.appendEach_commits hrel hroom hadmits hencodes
    rcases hkeeps.appendBatch hrel hroom hadmits with hdone | ⟨_, e, he, hfail⟩
    · exact ⟨hkeeps.state_unique hdone.state hstate, hdone.result.trans hresult.symm⟩
    · exact absurd (hencodes e he) hfail

end KeepsLog

/-- What a reader relies on in the states `inv` describes: the head is the number of
records, and a read sees exactly the records in its range. -/
structure Listing (inv : J.State → Prop) : Prop where
  currentSeq : ∀ {s : J.State} {head : UInt64}, inv s → (J.records s).length < SEQ_LIMIT →
    J.currentSeq s = .ok head → head.toNat = (J.records s).length
  read : ∀ {s : J.State} {start stop : UInt64}, inv s → start.toNat < SEQ_LIMIT →
    stop.toNat < SEQ_LIMIT →
    J.readEntriesBySeq s start stop =
      (((J.records s).take (stop.toNat - 1)).drop (start.toNat - 1)).mapM J.entryOf
  seqs : ∀ {s : J.State}, inv s → (J.records s).map J.seqOf = List.range' 1 (J.records s).length
  seq_entryOf : ∀ {s : J.State} {r : J.Record} {e : JournalEntry}, inv s → r ∈ J.records s →
    J.entryOf r = .ok e → e.seq.toNat = J.seqOf r

/-- The entries after a cursor, up to a head. -/
theorem Listing.read_after {J : Backend} {inv : J.State → Prop} (hJ : J.Listing inv) {s : J.State}
    {head : UInt64} (hs : inv s) (hroom : (J.records s).length + 1 < SEQ_LIMIT)
    (hcursor : cursor ≤ head) (hhead : head.toNat ≤ (J.records s).length) :
    J.readEntriesBySeq s (cursor + 1) (head + 1) =
      (((J.records s).take head.toNat).drop cursor.toNat).mapM J.entryOf := by
  have hcursor := UInt64.le_iff_toNat_le.mp hcursor
  have hstart : (cursor + 1).toNat = cursor.toNat + 1 := toNat_succ_seq (by omega)
  have hstop : (head + 1).toNat = head.toNat + 1 := toNat_succ_seq (by omega)
  rw [hJ.read hs (by omega) (by omega), hstart, hstop, Nat.add_sub_cancel, Nat.add_sub_cancel]

end Backend

end Kortecx.Journal
