import Kortecx.Journal.Backends
import Kortecx.Projection.Checkpoint

/-!
Recovery of a projection from its journal, with or without a checkpoint to start from.
A checkpoint is not trusted: it is used only if it passes six gates, the last of which
compares the digest of its payload with a digest sealed into the journal, and otherwise
the whole journal is folded. What is proved is that the choice never shows in the result.
-/

namespace Kortecx.Projection

open Lib Mote Journal Journal.Backend List Reader

inductive FullFoldReason where
  | noCheckpoint
  | integrityFailed
  | offsetAheadOfHead
  | decodeFailed
  | offsetMismatch
  | wrongRun
  | sealMissing
  | sealMismatch
deriving DecidableEq, Repr

inductive CheckpointOutcome where
  | seeded (offset tailEntries : UInt64)
  | fullFold (reason : FullFoldReason)
deriving DecidableEq, Repr

section Operations

variable (J : Backend) (journal : J.State)

/-- A read whose error `?` turns into a projection error. -/
def readRange (start stop : UInt64) : Except ProjectionError (List JournalEntry) :=
  (J.readEntriesBySeq journal start stop).mapError .journal

def fromJournal : Except ProjectionError State := do
  let maxSeq ← (J.currentSeq journal).mapError .journal
  let entries ← readRange J journal 0 (maxSeq + 1)
  replay none {} entries

/-- The digest the entry seals the prefix `through` with. -/
def sealOf (through : UInt64) : JournalEntry → Option (ByteVec 32)
  | .digestSealed e => if e.throughSeq = through then some e.stateDigest else none
  | _ => none

def journalSealAt (through : UInt64) : Except ProjectionError (Option (ByteVec 32)) := do
  let entries ← readRange J journal (through + 1) (through + 2)
  return entries.findSome? (sealOf through)

def journalRunInstance : Except ProjectionError (Option InstanceId) := do
  let entries ← readRange J journal 1 2
  return entries.findSome? fun
    | .runRegistered e => some e.instanceId
    | _ => none

/-- Gate 5: both the state and the journal name a run, and not the same one. -/
def namesOtherRun (s : State) : Except ProjectionError Bool :=
  match s.runRegistration with
  | none => .ok false
  | some reg => do
    let journalInstance ← journalRunInstance J journal
    return journalInstance.any fun instanceId => instanceId ≠ reg.instanceId

variable (blake3 : List UInt8 → ByteVec 32) (bincode : Bincode)

/-- The state to start from, or why the checkpoint is discarded. Only a failing journal
read is an error. -/
def trySeedState (cp : FoldCheckpoint) (current : UInt64) :
    Except ProjectionError (Except FullFoldReason State) :=
  if !cp.verify blake3 then .ok (.error .integrityFailed)
  else if cp.journalOffset > current then .ok (.error .offsetAheadOfHead)
  else
    match cp.decodeState bincode with
    | .error _ => .ok (.error .decodeFailed)
    | .ok state =>
      if state.lastSeq ≠ cp.journalOffset then .ok (.error .offsetMismatch)
      else do
        if ← namesOtherRun J journal state then
          return .error .wrongRun
        match ← journalSealAt J journal cp.journalOffset with
        | none => return .error .sealMissing
        | some sealedDigest =>
          if sealedDigest ≠ cp.payloadStateDigest blake3 then
            return .error .sealMismatch
          return .ok state

def buildFromJournal (checkpoint : Option FoldCheckpoint)
    (materializer : Option TopologyMaterializer) :
    Except ProjectionError (State × CheckpointOutcome) := do
  let current ← (J.currentSeq journal).mapError .journal
  let seed ← match checkpoint with
    | some cp => trySeedState J journal blake3 bincode cp current
    | none => .ok (.error .noCheckpoint)
  let (state, startExclusive, outcome) := match seed with
    | .ok state =>
      let offset := state.lastSeq
      -- `saturating_sub`
      let tailEntries := if offset ≤ current then current - offset else 0
      (state, offset, CheckpointOutcome.seeded offset tailEntries)
    | .error reason => (({} : State), 0, CheckpointOutcome.fullFold reason)
  let tail ← readRange J journal (startExclusive + 1) (current + 1)
  let folded ← replay materializer state tail
  return (folded, outcome)

def fromJournalWithCheckpoint (checkpoint : Option FoldCheckpoint) :
    Except ProjectionError State :=
  (buildFromJournal J journal blake3 bincode checkpoint none).map (·.1)

end Operations

theorem derived_of_replay (hok : replay none {} es = .ok s) : s.Derived := by
  obtain ⟨rfl, _⟩ := replay_eq_ok.mp hok
  exact derived_foldMany derived_default es

/-- What recovery can rely on when all of the journal reads: it sees the entries `es`,
numbered from 1. -/
structure Serves (J : Backend) (journal : J.State) (es : List JournalEntry) : Prop where
  seqs : es.map (·.seq.toNat) = List.range' 1 es.length
  read : ∀ {start stop : UInt64}, start.toNat < SEQ_LIMIT → stop.toNat < SEQ_LIMIT →
    readRange J journal start stop = .ok ((es.take (stop.toNat - 1)).drop (start.toNat - 1))
  currentSeq : ∀ {head : UInt64}, es.length < SEQ_LIMIT → J.currentSeq journal = .ok head →
    head.toNat = es.length

theorem serves_of_listing {J : Backend} {inv : J.State → Prop} (hJ : J.Listing inv)
    {journal : J.State} (hinv : inv journal) {es : List JournalEntry}
    (hentries : (J.records journal).mapM J.entryOf = .ok es) : Serves J journal es := by
  have hseqs : es.map (·.seq.toNat) = (J.records journal).map J.seqOf :=
    map_eq_of_mapM_ok hentries fun r hr e he => hJ.seq_entryOf hinv hr he
  have hlength : es.length = (J.records journal).length := by
    simpa using congrArg List.length hseqs
  refine ⟨?_, ?_, ?_⟩
  · rw [hseqs, hJ.seqs hinv, hlength]
  · intro start stop hstart hstop
    unfold readRange
    rw [hJ.read hinv hstart hstop,
      mapM_drop_eq_ok (mapM_take_eq_ok hentries (stop.toNat - 1)) (start.toNat - 1)]
    rfl
  · intro head hroom hhead
    rw [hlength] at hroom ⊢
    exact hJ.currentSeq hinv hroom hhead

section Exact

variable {J : Backend} {journal : J.State} {es : List JournalEntry}
  {blake3 : List UInt8 → ByteVec 32} {bincode : Bincode}

/-- Every seal stands right behind the prefix it names and carries the digest of the
state that prefix folds to. -/
def SealsState (blake3 : List UInt8 → ByteVec 32) (bincode : Bincode) (es : List JournalEntry) :
    Prop :=
  ∀ e : DigestSealed, .digestSealed e ∈ es → e.seq = e.throughSeq + 1 →
    ∃ s, replay none {} (es.take e.throughSeq.toNat) = .ok s ∧
      e.stateDigest = stateContentDigest blake3 bincode s

/-- The payloads whose digests recovery may compare: that of the checkpoint, and those of
the states the journal goes through. -/
def comparedPayloads (bincode : Bincode) (es : List JournalEntry) (cp : FoldCheckpoint) :
    Set (List UInt8) :=
  insert cp.payload
    {payload | ∃ n s, replay none {} (es.take n) = .ok s ∧ payload = encodeState bincode s}

variable (hserves : Serves J journal es)

include hserves

theorem Serves.seq_of_mem_segment (hx : x ∈ (es.take (n + 1)).drop n) :
    x ∈ es ∧ x.seq.toNat = n + 1 := by
  have hmem : x ∈ es := mem_of_mem_take (mem_of_mem_drop hx)
  have hseq : x.seq.toNat ∈ (((es.map (·.seq.toNat)).take (n + 1)).drop n) := by
    rw [← map_take, ← map_drop]
    exact mem_map_of_mem hx
  have hnext : x.seq.toNat ∈ List.range' (1 + n) 1 := by
    rw [hserves.seqs] at hseq
    by_cases hn : n < es.length
    · rw [take_range'_of_length_ge (by omega), drop_range'] at hseq
      simpa using hseq
    rw [drop_eq_nil_of_le (by simp; omega)] at hseq
    cases hseq
  refine ⟨hmem, ?_⟩
  rw [mem_range'_1] at hnext
  omega

/-- The only entry a seal is looked for in is the one right behind the prefix. -/
theorem journalSealAt_eq_ok {through : UInt64} (hthrough : through.toNat + 2 < SEQ_LIMIT) :
    ∃ found, journalSealAt J journal through = .ok found ∧ ∀ digest, found = some digest →
      ∃ e : DigestSealed, .digestSealed e ∈ es ∧ e.throughSeq = through ∧
        e.seq = e.throughSeq + 1 ∧ e.stateDigest = digest := by
  have hstart : (through + 1).toNat = through.toNat + 1 := toNat_succ_seq (by omega)
  have hstop : (through + 2).toNat = through.toNat + 1 + 1 := by
    have hlt : through.toNat + 2 < 2 ^ 64 := lt_trans hthrough (by decide)
    rw [UInt64.toNat_add]
    exact Nat.mod_eq_of_lt hlt
  have hread := hserves.read (show (through + 1).toNat < SEQ_LIMIT by omega)
    (show (through + 2).toNat < SEQ_LIMIT by omega)
  rw [hstart, hstop, Nat.add_sub_cancel, Nat.add_sub_cancel] at hread
  refine ⟨((es.take (through.toNat + 1)).drop through.toNat).findSome? (sealOf through), ?_, ?_⟩
  · unfold journalSealAt
    rw [hread]
    rfl
  · intro digest hdigest
    obtain ⟨x, hx, hseal⟩ := exists_of_findSome?_eq_some hdigest
    obtain ⟨hmem, hseq⟩ := hserves.seq_of_mem_segment hx
    unfold sealOf at hseal
    split at hseal
    · rename_i e
      split at hseal
      · rename_i hthroughSeq
        refine ⟨e, hmem, hthroughSeq, ?_, Option.some.inj hseal⟩
        apply UInt64.toNat_inj.mp
        rw [hthroughSeq, hstart]
        exact hseq
      · cases hseal
    · cases hseal

theorem namesOtherRun_eq_ok (s : State) : ∃ other, namesOtherRun J journal s = .ok other := by
  unfold namesOtherRun journalRunInstance
  cases s.runRegistration with
  | none => exact ⟨false, rfl⟩
  | some reg =>
    rw [hserves.read (by decide) (by decide)]
    exact ⟨_, rfl⟩

/-- A checkpoint that passes the gates holds the state of a prefix of the journal. -/
theorem trySeedState_eq_ok {current : UInt64} (hcurrent : current.toNat = es.length)
    (hroom : es.length + 2 < SEQ_LIMIT)
    (hblake3 : Set.InjOn blake3 (comparedPayloads bincode es cp))
    (hbincode : ∀ n s, replay none {} (es.take n) = .ok s → bincode.RoundTrips (.ofState s))
    (hseals : SealsState blake3 bincode es) :
    ∃ seed, trySeedState J journal blake3 bincode cp current = .ok seed ∧
      ∀ s, seed = .ok s → s.lastSeq ≤ current ∧
        replay none {} (es.take s.lastSeq.toNat) = .ok s := by
  unfold trySeedState
  split
  · exact ⟨_, rfl, by simp⟩
  split
  · exact ⟨_, rfl, by simp⟩
  rename_i hoffset
  have hoffset : cp.journalOffset ≤ current := UInt64.not_lt.mp hoffset
  cases hdecode : cp.decodeState bincode with
  | error err => exact ⟨_, rfl, by simp⟩
  | ok state =>
    dsimp only
    split
    · exact ⟨_, rfl, by simp⟩
    rename_i hlast
    have hlast : state.lastSeq = cp.journalOffset := not_not.mp hlast
    obtain ⟨other, hother⟩ := namesOtherRun_eq_ok hserves state
    have hthrough := UInt64.le_iff_toNat_le.mp hoffset
    obtain ⟨found, hfound, hseal⟩ :=
      journalSealAt_eq_ok hserves (show cp.journalOffset.toNat + 2 < SEQ_LIMIT by omega)
    rw [hother]
    simp only [bind, Except.bind]
    split
    · exact ⟨_, rfl, by simp⟩
    rw [hfound]
    cases found with
    | none => exact ⟨_, rfl, by simp⟩
    | some digest =>
      dsimp only
      split
      · exact ⟨_, rfl, by simp⟩
      rename_i hdigest
      have hdigest : digest = blake3 cp.payload := not_not.mp hdigest
      refine ⟨_, rfl, ?_⟩
      intro s hs
      cases hs
      obtain ⟨e, he, hthroughSeq, hbehind, hsealed⟩ := hseal digest rfl
      obtain ⟨s, hreplay, hstate⟩ := hseals e he hbehind
      -- The digest of the payload is that of the prefix's state, so the payload is its
      -- encoding.
      have hpayload : cp.payload = encodeState bincode s := by
        apply hblake3 (Set.mem_insert _ _) (Set.mem_insert_of_mem _ ⟨_, s, hreplay, rfl⟩)
        rw [← hdigest, ← hsealed]
        exact hstate
      have hsame : state = s := by
        rw [decodeState_eq_toState hpayload (hbincode _ s hreplay)] at hdecode
        obtain ⟨hstored, hderived⟩ := toState_eq_ok hdecode
        exact hderived.eq_of_ofState (derived_of_replay hreplay) hstored
      rw [hlast, hsame]
      exact ⟨hoffset, hthroughSeq ▸ hreplay⟩

/-- The full fold replays every entry. -/
theorem fromJournal_eq_ok (hroom : es.length + 2 < SEQ_LIMIT)
    (hok : fromJournal J journal = .ok s) :
    ∃ current, J.currentSeq journal = .ok current ∧ current.toNat = es.length ∧
      replay none {} es = .ok s := by
  obtain ⟨current, hcurrent, hok⟩ := except_bind_eq_ok.mp hok
  obtain ⟨entries, hread, hok⟩ := except_bind_eq_ok.mp hok
  rw [except_mapError_eq_ok] at hcurrent
  have hhead := hserves.currentSeq (by omega) hcurrent
  have hstop : (current + 1).toNat = current.toNat + 1 := toNat_succ_seq (by omega)
  rw [hserves.read (by decide) (by omega), hstop, Nat.add_sub_cancel, hhead,
    take_length] at hread
  cases hread
  exact ⟨current, hcurrent, hhead, hok⟩

/-- Whatever the checkpoint, recovery from it gives what the full fold gives: the journal's
seals being what they should be, no checkpoint can make recovery fail or make it return
another state. -/
def RecoversExactly (J : Backend) (blake3 : List UInt8 → ByteVec 32) (bincode : Bincode)
    (journal : J.State) : Prop :=
  ∀ (es : List JournalEntry) (cp : FoldCheckpoint) (s : State),
    (J.records journal).mapM J.entryOf = .ok es → es.length + 2 < SEQ_LIMIT →
    Set.InjOn blake3 (comparedPayloads bincode es cp) →
    (∀ n s, replay none {} (es.take n) = .ok s → bincode.RoundTrips (.ofState s)) →
    SealsState blake3 bincode es → fromJournal J journal = .ok s →
    fromJournalWithCheckpoint J journal blake3 bincode (some cp) = .ok s

omit hserves in
theorem recoversExactly_of_listing {inv : J.State → Prop} (hJ : J.Listing inv)
    (hinv : inv journal) : RecoversExactly J blake3 bincode journal := by
  intro es cp s hentries hroom hblake3 hbincode hseals hfull
  have hserves := serves_of_listing hJ hinv hentries
  obtain ⟨current, hcurrent, hlength, hreplay⟩ := fromJournal_eq_ok hserves hroom hfull
  obtain ⟨seed, hseed, hseeded⟩ :=
    trySeedState_eq_ok hserves hlength hroom hblake3 hbincode hseals
  have hstop : (current + 1).toNat = es.length + 1 := by
    rw [toNat_succ_seq (by omega), hlength]
  have htail : ∀ start : UInt64, start ≤ current →
      readRange J journal (start + 1) (current + 1) = .ok (es.drop start.toNat) := by
    intro start hstart
    have hstart := UInt64.le_iff_toNat_le.mp hstart
    have hnext : (start + 1).toNat = start.toNat + 1 := toNat_succ_seq (by omega)
    rw [hserves.read (by omega) (by omega), hnext, hstop, Nat.add_sub_cancel, Nat.add_sub_cancel,
      take_length]
  unfold fromJournalWithCheckpoint buildFromJournal
  rw [hcurrent]
  simp only [Except.mapError, bind, Except.bind, hseed]
  cases seed with
  | error reason =>
    have hall := htail 0 (UInt64.zero_le)
    rw [UInt64.toNat_zero, drop_zero] at hall
    simp only [hall, hreplay]
    rfl
  | ok state =>
    obtain ⟨hle, hstate⟩ := hseeded state rfl
    have hrest : replay none state (es.drop state.lastSeq.toNat) = .ok s := by
      rw [← take_append_drop state.lastSeq.toNat es, replay_append, hstate] at hreplay
      exact hreplay
    simp only [htail _ hle, hrest]
    rfl

end Exact

/-- On both backends, recovery from a checkpoint is exact for every journal that appends
and batches can leave, and for every checkpoint. -/
theorem fromJournalWithCheckpoint_eq_fromJournal (blake3 : List UInt8 → ByteVec 32)
    (bincode : Bincode) :
    (∀ journal, (InMemory.inMemory blake3).Reaches (fun _ => True) journal →
        RecoversExactly (InMemory.inMemory blake3) blake3 bincode journal) ∧
      ∀ journal, (Sqlite.sqlite blake3).Reaches (fun _ => True) journal →
        RecoversExactly (Sqlite.sqlite blake3) blake3 bincode journal := by
  constructor
  · intro journal hreach
    have hJ := InMemory.announcing blake3
    exact recoversExactly_of_listing hJ.toListing (hJ.inv_of_reaches hreach)
  · intro journal hreach
    have hJ := Sqlite.announcing blake3
    exact recoversExactly_of_listing hJ.toListing (hJ.inv_of_reaches hreach)

def registrationBytes : Option RunRegistration → List UInt8
  | none => [0]
  | some reg => 1 :: reg.instanceId.toList ++ reg.recipeFingerprint.toList

/-- The bytes of a stored state in which nothing but the frontier and the run is known. -/
def registrationPayload (lastSeq : UInt64) (registration : Option RunRegistration) : List UInt8 :=
  List.replicate 16 0 ++
    (leBytes 8 lastSeq.toNat ++ (registrationBytes registration ++ List.replicate 48 0))

def unexpectedEnd (_ _ : Nat) : String := "UnexpectedEnd"

def readRegistration : Reader String (Option RunRegistration) := do
  let tag ← Reader.u8 unexpectedEnd
  if tag = 0 then pure none
  else do
    let instanceId ← Reader.bytes unexpectedEnd INSTANCE_ID_LEN
    let recipeFingerprint ← Reader.bytes unexpectedEnd 32
    return some ⟨instanceId, recipeFingerprint⟩

def readRegistrationPayload : Reader String CheckpointState := do
  let _ ← Reader.bytes unexpectedEnd 16
  let lastSeq ← Reader.u64 unexpectedEnd
  let registration ← readRegistration
  let _ ← Reader.bytes unexpectedEnd 48
  return ⟨∅, ∅, lastSeq, registration, [], [], [], [], [], []⟩

/-- Serialization of such states. -/
def registrationBincode : Bincode where
  encode dto := registrationPayload dto.lastSeq dto.runRegistration
  decode payload := readRegistrationPayload payload 0

theorem reads_readRegistration (registration : Option RunRegistration) :
    Reader.Reads readRegistration (registrationBytes registration) registration rest := by
  cases registration with
  | none =>
    have htag : Reader.Reads (Reader.u8 unexpectedEnd) [0] 0 ([] ++ rest) :=
      (takes_u8 _).reads rfl
    exact htag.bind reads_pure
  | some reg =>
    have htag : Reader.Reads (Reader.u8 unexpectedEnd) [1] 1
        ((reg.instanceId.toList ++ reg.recipeFingerprint.toList) ++ rest) :=
      (takes_u8 _).reads rfl
    apply htag.bind
    apply ((takes_bytes _ _).reads rfl).bind
    exact ((takes_bytes _ _).reads rfl).bind_last reads_pure

theorem roundTrips_registration :
    registrationBincode.RoundTrips
      ⟨∅, ∅, lastSeq, registration, [], [], [], [], [], []⟩ := by
  apply Reader.Reads.run (r := readRegistrationPayload)
  apply ((takes_bytes unexpectedEnd 16).reads (a := .replicate 16 0) rfl).bind
  apply ((takes_u64 unexpectedEnd).reads (a := lastSeq) rfl).bind
  apply (reads_readRegistration registration).bind
  exact ((takes_bytes unexpectedEnd 48).reads (a := .replicate 48 0) rfl).bind_last
    reads_pure

def sampleRegistration : RunRegistration := ⟨.replicate 16 7, .replicate 32 9⟩

/-- The hash where the run below needs it. -/
def sampleBlake3 (bytes : List UInt8) : ByteVec 32 :=
  if bytes = registrationPayload 0 none then
    ⟨[177, 124, 31, 166, 255, 28, 160, 142, 177, 127, 5, 152, 66, 253, 135, 159, 104, 90, 109, 15,
      113, 192, 61, 216, 132, 75, 148, 115, 129, 165, 251, 75], rfl⟩
  else if bytes = registrationPayload 1 (some sampleRegistration) then
    ⟨[183, 80, 204, 86, 108, 90, 43, 205, 120, 115, 166, 6, 98, 134, 217, 48, 213, 190, 180, 166,
      121, 252, 46, 228, 194, 53, 246, 165, 155, 254, 95, 58], rfl⟩
  else if bytes = registrationPayload 2 (some sampleRegistration) then
    ⟨[118, 159, 195, 167, 167, 239, 190, 20, 23, 50, 159, 242, 200, 3, 126, 160, 86, 233, 96, 227,
      26, 213, 227, 246, 161, 83, 63, 117, 81, 54, 199, 253], rfl⟩
  -- The envelope of the checkpoint at 1.
  else if bytes = 11 :: 0 :: 0 :: leBytes 8 1 ++ registrationPayload 1 (some sampleRegistration) then
    ⟨[170, 208, 26, 152, 69, 75, 124, 102, 188, 214, 18, 215, 125, 13, 142, 161, 203, 117, 227, 23,
      50, 133, 165, 242, 53, 79, 113, 54, 238, 189, 159, 238], rfl⟩
  else .replicate 32 0

def sealedEntries : List JournalEntry :=
  [.runRegistered ⟨sampleRegistration.instanceId, sampleRegistration.recipeFingerprint, 0, 1⟩,
    .digestSealed ⟨1, sampleBlake3 (registrationPayload 1 (some sampleRegistration)), 2⟩]

def registeredAt (lastSeq : UInt64) : State :=
  { lastSeq, runRegistration := some sampleRegistration }

/-- The states the run goes through. -/
theorem replay_sealedEntries (hok : replay none {} (sealedEntries.take n) = .ok s) :
    s = {} ∨ s = registeredAt 1 ∨ s = registeredAt 2 := by
  match n with
  | 0 =>
    cases hok
    exact .inl rfl
  | 1 =>
    cases hok
    exact .inr (.inl rfl)
  | n + 2 =>
    rw [take_of_length_le (show sealedEntries.length ≤ n + 2 from Nat.le_add_left 2 n)] at hok
    cases hok
    exact .inr (.inr rfl)

/-- A genuine checkpoint of the state before the seal, on the in-memory journal. -/
theorem fromJournalWithCheckpoint_eq_fromJournal_sealedRun :
    let J := InMemory.inMemory sampleBlake3
    let cp := FoldCheckpoint.fromState sampleBlake3 registrationBincode (registeredAt 1)
    J.Reaches (fun _ => True) ⟨sealedEntries, 2⟩ ∧ cp.verify sampleBlake3 = true ∧
      fromJournal J ⟨sealedEntries, 2⟩ = .ok (registeredAt 2) ∧
      fromJournalWithCheckpoint J ⟨sealedEntries, 2⟩ sampleBlake3 registrationBincode (some cp) =
        .ok (registeredAt 2) := by
  intro J cp
  have hreach : J.Reaches (fun _ => True) ⟨sealedEntries, 2⟩ :=
    .call (.appendBatch sealedEntries) .new ⟨by decide, fun _ _ => trivial⟩
  have hholds : InMemory.Holds ⟨sealedEntries, 2⟩ sealedEntries :=
    ⟨rfl, rfl, rfl, by decide⟩
  have hentries : (J.records ⟨sealedEntries, 2⟩).mapM J.entryOf = .ok sealedEntries :=
    mapM_ok_eq_ok sealedEntries
  have hfull : fromJournal J ⟨sealedEntries, 2⟩ = .ok (registeredAt 2) := by
    have hread : readRange J ⟨sealedEntries, 2⟩ 0 3 = .ok sealedEntries := by
      exact congrArg (Except.mapError _) (InMemory.readEntriesBySeq_segment hholds 0 3)
    change (readRange J ⟨sealedEntries, 2⟩ 0 3 >>= fun entries => replay none {} entries) = _
    rw [hread]
    rfl
  have hpayloads : ∀ payload ∈ comparedPayloads registrationBincode sealedEntries cp,
      payload = registrationPayload 0 none ∨
        payload = registrationPayload 1 (some sampleRegistration) ∨
        payload = registrationPayload 2 (some sampleRegistration) := by
    rintro payload (rfl | ⟨n, s, hs, rfl⟩)
    · exact .inr (.inl rfl)
    · rcases replay_sealedEntries hs with rfl | rfl | rfl
      · exact .inl rfl
      · exact .inr (.inl rfl)
      · exact .inr (.inr rfl)
  have hblake3 : Set.InjOn sampleBlake3 (comparedPayloads registrationBincode sealedEntries cp) := by
    intro a ha b hb hab
    rcases hpayloads a ha with rfl | rfl | rfl <;> rcases hpayloads b hb with rfl | rfl | rfl <;>
      first
        | rfl
        | exact absurd hab (by decide +kernel)
  have hbincode : ∀ n s, replay none {} (sealedEntries.take n) = .ok s →
      registrationBincode.RoundTrips (.ofState s) := by
    intro n s hs
    rcases replay_sealedEntries hs with rfl | rfl | rfl <;> exact roundTrips_registration
  have hseals : SealsState sampleBlake3 registrationBincode sealedEntries := by
    intro e he _
    obtain rfl : e = ⟨1, sampleBlake3 (registrationPayload 1 (some sampleRegistration)), 2⟩ := by
      simpa [sealedEntries] using he
    exact ⟨registeredAt 1, rfl, rfl⟩
  refine ⟨hreach, by decide +kernel, hfull, ?_⟩
  exact (fromJournalWithCheckpoint_eq_fromJournal sampleBlake3 registrationBincode).1 _ hreach
    sealedEntries cp _ hentries (by decide) hblake3 hbincode hseals hfull

end Kortecx.Projection
