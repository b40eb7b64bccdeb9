import Kortecx.Journal.RoundTrip

/-! What the decoder accepts. Every accepted body is the current encoding of the
entry it decodes to, with two exceptions that older writers left behind: a failure
without a detail, and a react round without some of its trailing fields. -/

namespace Kortecx.Journal

open Lib Lib.Reader Mote List

/-- Writing back an entry whose body was accepted within the cap succeeds within the
cap, or overflows it by the fields an older react round did not have. -/
theorem Shape.encodeBody_cases (hshape : Shape e body)
    (hlen : HEADER_LEN + body.length ≤ MAX_ENTRY_LEN) :
    (∃ body', encodeBody e = .ok body' ∧ HEADER_LEN + body'.length ≤ MAX_ENTRY_LEN) ∨
      ∃ r missing, e = .reactRound r ∧ missing ≠ [] ∧ missing <:+ encodeReactTail r ∧
        encodeBody e =
          .error (.reactRoundTooLarge (HEADER_LEN + body.length + missing.length)) ∧
        MAX_ENTRY_LEN < HEADER_LEN + body.length + missing.length := by
  cases hshape with
  | current hencode => exact .inl ⟨body, hencode hlen, hlen⟩
  | failedWithoutDetail f he hshort hencode =>
    refine .inl ⟨body ++ [0, 0], hencode, ?_⟩
    simp only [length_append, hshort]
    decide
  | olderReactRound r he missing hmissing hsuffix hencode =>
    rw [guardLen, length_append, ← Nat.add_assoc] at hencode
    split at hencode
    · rename_i hover
      exact .inr ⟨r, missing, he, hmissing, hsuffix, hencode, hover⟩
    rename_i hfits
    refine .inl ⟨_, hencode, ?_⟩
    rw [length_append, ← Nat.add_assoc]
    exact Nat.not_lt.mp hfits

variable {blake3 : List UInt8 → ByteVec 32}

/-- The one spec of the whole decoder: an accepted entry is a header and an accepted
body within the size cap. -/
theorem decodeEntry_accepted (hdec : decodeEntryWithDefHash blake3 b d = .ok e) :
    HEADER_LEN ≤ b.length ∧ b.length ≤ MAX_ENTRY_LEN ∧ Accepted d e (b.drop HEADER_LEN) := by
  rw [decodeEntryWithDefHash] at hdec
  split at hdec
  · cases hdec
  split at hdec
  · cases hdec
  rename_i hmax hmin
  obtain ⟨⟨h, _⟩, -, hbody⟩ := except_bind_eq_ok.mp hdec
  obtain ⟨⟨e', c⟩, hrun, he⟩ := except_bind_eq_ok.mp hbody
  cases he
  refine ⟨Nat.not_lt.mp hmin, Nat.not_lt.mp hmax, ?_⟩
  have hlen : HEADER_LEN + (b.drop HEADER_LEN).length ≤ MAX_ENTRY_LEN := by
    rw [length_drop]
    omega
  exact decodeBody_accepted _ _ _ [] _ _ _ hlen hrun

/-- The append path's own conditions do not suffice to read an entry back; the
entry must also be readable. -/
theorem decodeEntry_encodeEntry_iff (blake3 : List UInt8 → ByteVec 32) (e : JournalEntry)
    (b : List UInt8) (hb : encodeEntry blake3 e = .ok b) (hlen : b.length ≤ MAX_ENTRY_LEN) :
    decodeEntryWithDefHash blake3 b e.storedDefHash = .ok e ↔ e.Readable := by
  constructor
  · intro hdec
    obtain ⟨-, -, haccepted⟩ := decodeEntry_accepted hdec
    exact haccepted.readable
  · intro hread
    exact decodeEntry_encodeEntry hread e.defHashIs_stored hb hlen

def committedWithParent (edgeKind nonCascade : UInt8) : JournalEntry :=
  .committed
    { moteId := ⟨.replicate 32 1⟩
      idempotencyKey := .replicate 32 1
      seq := 1
      nondeterminism := .pure
      resultRef := ⟨.replicate 32 2⟩
      parents := [⟨⟨.replicate 32 3⟩, edgeKind, nonCascade⟩]
      warrantRef := ⟨.replicate 32 4⟩
      moteDefHash := ⟨.replicate 32 5⟩ }

/-- The bytes of `committedWithParent`. -/
def committedWithParentBytes (edgeKind nonCascade : UInt8) : List UInt8 :=
  encodeHeader (fun _ => .replicate 32 0) (committedWithParent edgeKind nonCascade) ++
    (List.replicate 32 2 ++ (List.replicate 32 4 ++ ([1, 0] ++
      (List.replicate 32 3 ++ [edgeKind, nonCascade]))))

theorem decodeEntry_encodeEntry_iff_controlParent :
    encodeEntry (fun _ => .replicate 32 0) (committedWithParent 1 1) =
        .ok (committedWithParentBytes 1 1) ∧
      (decodeEntryWithDefHash (fun _ => .replicate 32 0) (committedWithParentBytes 1 1)
          (committedWithParent 1 1).storedDefHash = .ok (committedWithParent 1 1) ↔
        (committedWithParent 1 1).Readable) :=
  ⟨by decide +kernel, decodeEntry_encodeEntry_iff _ _ _ (by decide +kernel) (by decide +kernel)⟩

/-- Whatever the hash, a parent with an edge kind past `Control` is written and then
cannot be read. -/
theorem not_decodeEntry_encodeEntry :
    ¬ ∃ blake3 : List UInt8 → ByteVec 32, ∀ (e : JournalEntry) (b : List UInt8),
      encodeEntry blake3 e = .ok b → b.length ≤ MAX_ENTRY_LEN →
        decodeEntryWithDefHash blake3 b e.storedDefHash = .ok e := by
  rintro ⟨blake3, hall⟩
  have hb : encodeEntry blake3 (committedWithParent 2 0) = .ok (committedWithParentBytes 2 0) :=
    rfl
  have hdec := hall _ _ hb (by decide +kernel)
  have hread := (decodeEntry_accepted hdec).2.2.readable
  exact absurd hread (by decide)

/-- Reading an entry and writing it again never changes it. The write can fail only
for a react round that was stored without its last trailing fields, when writing
them takes the entry over the size cap. -/
theorem decoded_entry_reencodes (blake3 : List UInt8 → ByteVec 32) (b : List UInt8)
    (d : MoteDefHash) (e : JournalEntry) (hdec : decodeEntryWithDefHash blake3 b d = .ok e) :
    (∀ b', encodeEntry blake3 e = .ok b' → decodeEntryWithDefHash blake3 b' d = .ok e) ∧
      ∀ err, encodeEntry blake3 e = .error err →
        ∃ r missing, e = .reactRound r ∧ missing ≠ [] ∧ missing <:+ encodeReactTail r ∧
          err = .reactRoundTooLarge (b.length + missing.length) ∧
          MAX_ENTRY_LEN < b.length + missing.length := by
  obtain ⟨hmin, hmax, hread, hd, hshape⟩ := decodeEntry_accepted hdec
  have hlen : HEADER_LEN + (b.drop HEADER_LEN).length = b.length := by
    rw [length_drop]
    omega
  rcases hshape.encodeBody_cases (hlen ▸ hmax) with ⟨body, hbody, hfits⟩ |
      ⟨r, missing, rfl, hmissing, hsuffix, hbody, hover⟩
  · have hencode : encodeEntry blake3 e = .ok (encodeHeader blake3 e ++ body) :=
      encodeEntry_ok.mpr ⟨body, hbody, rfl⟩
    constructor
    · intro b' hb'
      cases hencode.symm.trans hb'
      exact decodeEntry_encodeEntry hread hd hencode (by simpa using hfits)
    · intro err herr
      cases hencode.symm.trans herr
  · rw [hlen] at hbody hover
    have hencode : encodeEntry blake3 (.reactRound r) =
        .error (.reactRoundTooLarge (b.length + missing.length)) := by
      rw [encodeEntry, hbody]
      rfl
    constructor
    · intro b' hb'
      cases hencode.symm.trans hb'
    · intro err herr
      cases hencode.symm.trans herr
      exact ⟨r, missing, rfl, hmissing, hsuffix, rfl, hover⟩

/-- A failure as a writer without details stored it, and the entry it stands for. -/
def olderFailureBytes : List UInt8 :=
  [KIND_FAILED] ++ (List.replicate 32 1 ++ (List.replicate 32 1 ++
    (leBytes 8 7 ++ ([0] ++ ([3] ++ leBytes 16 9)))))

def olderFailure : JournalEntry :=
  .failed ⟨⟨.replicate 32 1⟩, .replicate 32 1, 7, .workerCrashed, 9, ""⟩

theorem decoded_entry_reencodes_olderFailure :
    decodeEntryWithDefHash (fun _ => .replicate 32 0) olderFailureBytes
        ⟨.replicate 32 0⟩ = .ok olderFailure ∧
      ∀ b', encodeEntry (fun _ => .replicate 32 0) olderFailure = .ok b' →
        decodeEntryWithDefHash (fun _ => .replicate 32 0) b' ⟨.replicate 32 0⟩ =
          .ok olderFailure :=
  ⟨by decide +kernel, (decoded_entry_reencodes _ olderFailureBytes _ _ (by decide +kernel)).1⟩

end Kortecx.Journal
