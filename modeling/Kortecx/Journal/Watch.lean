import Kortecx.Journal.Store
import Kortecx.Lib.WatchChannel

/-!
Subscribing to a journal instead of polling it. A writer commits, and some time later publishes a
head to the watch; other writers may publish in between, in any order. A subscriber drives a
cursor of its own: woken, it asks the journal for its head and reads the entries between the
cursor and that head.

That no entry is missed is a property of the two protocols together, and is proved here for any
backend whose calls announce what they commit.
-/

namespace Kortecx.Journal

open Lib Lib.WatchChannel Journal.Backend List Function Relation

structure JournalWatch where
  head : Channel UInt64
deriving DecidableEq

structure JournalSubscription where
  head : Receiver
deriving DecidableEq

namespace JournalWatch

/-- A fresh watch is at watermark 0, also over a journal that is not empty. -/
def new : JournalWatch := ⟨.new 0⟩

/-- A value at or below the watermark wakes nobody. -/
def publish (w : JournalWatch) (head : UInt64) : JournalWatch :=
  ⟨w.head.sendIfModified fun current => if head > current then some head else none⟩

def subscribe (w : JournalWatch) : JournalSubscription := ⟨w.head.subscribe⟩

end JournalWatch

/-- `none` while the subscription waits. -/
def JournalSubscription.changed (sub : JournalSubscription) (w : JournalWatch) :
    Option JournalSubscription :=
  (sub.head.changed w.head).map JournalSubscription.mk

/-- Where a subscriber stands: the head it started from, the last `seq` it was
delivered, and all it was delivered. -/
structure Progress where
  start : UInt64
  cursor : UInt64
  delivered : List JournalEntry

inductive Subscriber where
  | absent
  | subscribed (sub : JournalSubscription)
  | waiting (sub : JournalSubscription) (p : Progress)
  | woken (sub : JournalSubscription) (p : Progress)
  | reading (sub : JournalSubscription) (p : Progress) (head : UInt64)
  | stopped (p : Progress)

def Subscriber.progress : Subscriber → Option Progress
  | .absent | .subscribed _ => none
  | .waiting _ p | .woken _ p | .reading _ p _ | .stopped p => some p

def Backend.publishes (J : Backend) (s : J.State) : Call → Option UInt64
  | .append e => (J.append s e).publishes
  | .appendBatch es => (J.appendBatch s es).publishes

/-- A journal, its watch, the heads that writers still have to publish, and any
number of subscribers. -/
structure System (J : Backend) (ι : Type) where
  journal : J.State
  outstanding : List UInt64
  watch : JournalWatch
  subscribers : ι → Subscriber

variable {J : Backend} {ι : Type}

namespace System

variable [DecidableEq ι]

def length (y : System J ι) : Nat := (J.records y.journal).length

def setSubscriber (y : System J ι) (i : ι) (sub : Subscriber) : System J ι :=
  { y with subscribers := update y.subscribers i sub }

/-- One step of a writer or of a subscriber. The bound leaves room for `head + 1`,
which the store casts to a signed integer. -/
inductive Step : System J ι → System J ι → Prop where
  | commit {y : System J ι} (c : Call)
      (hroom : y.length + c.entries.length + 1 < SEQ_LIMIT) :
      Step y { y with
        journal := J.call y.journal c
        outstanding := (J.publishes y.journal c).toList ++ y.outstanding }
  | publish {y : System J ι} {head : UInt64} (hhead : head ∈ y.outstanding) :
      Step y { y with
        watch := y.watch.publish head
        outstanding := y.outstanding.erase head }
  | subscribe {y : System J ι} (i : ι) (hi : y.subscribers i = .absent) :
      Step y (y.setSubscriber i (.subscribed y.watch.subscribe))
  | start {y : System J ι} (i : ι) {sub : JournalSubscription} {cursor : UInt64}
      (hi : y.subscribers i = .subscribed sub) (hhead : J.currentSeq y.journal = .ok cursor) :
      Step y (y.setSubscriber i (.waiting sub ⟨cursor, cursor, []⟩))
  | wake {y : System J ι} (i : ι) {sub sub' : JournalSubscription} {p : Progress}
      (hi : y.subscribers i = .waiting sub p) (hchanged : sub.changed y.watch = some sub') :
      Step y (y.setSubscriber i (.woken sub' p))
  | readHead {y : System J ι} (i : ι) {sub : JournalSubscription} {p : Progress} {head : UInt64}
      (hi : y.subscribers i = .woken sub p) (hhead : J.currentSeq y.journal = .ok head) :
      Step y (y.setSubscriber i (.reading sub p head))
  | deliver {y : System J ι} (i : ι) {sub : JournalSubscription} {p : Progress} {head : UInt64}
      {es : List JournalEntry} (hi : y.subscribers i = .reading sub p head)
      (hread : J.readEntriesBySeq y.journal (p.cursor + 1) (head + 1) = .ok es) :
      Step y (y.setSubscriber i (.waiting sub ⟨p.start, head, p.delivered ++ es⟩))
  | fail {y : System J ι} (i : ι) {sub : JournalSubscription} {p : Progress} {head : UInt64}
      {err : JournalError} (hi : y.subscribers i = .reading sub p head)
      (hread : J.readEntriesBySeq y.journal (p.cursor + 1) (head + 1) = .error err) :
      Step y (y.setSubscriber i (.stopped p))

structure Initial (y : System J ι) : Prop where
  journal : J.Reaches (fun _ => True) y.journal
  room : y.length + 1 < SEQ_LIMIT
  outstanding : y.outstanding = []
  watch : y.watch = .new
  subscribers : ∀ i, y.subscribers i = .absent

end System

structure ExactlyOnce (J : Backend) {ι : Type} [DecidableEq ι] (y : System J ι) (i : ι)
    (p : Progress) : Prop where
  /-- The delivered seqs follow the initial cursor with no gap and no repeat. -/
  contiguous : p.delivered.map (·.seq.toNat) =
    List.range' (p.start.toNat + 1) (p.cursor.toNat - p.start.toNat)
  /-- The subscriber goes on. -/
  running : y.subscribers i ≠ .stopped p
  /-- Nothing left to publish and nothing left to be woken for: everything after the
  initial cursor has been delivered. -/
  complete : ∀ sub, y.subscribers i = .waiting sub p → y.outstanding = [] →
    sub.changed y.watch = none →
    ((J.records y.journal).drop p.start.toNat).mapM J.entryOf = .ok p.delivered

/-- What the protocol needs of a backend: reads see what is there, and calls only add
records and announce the last of them. -/
structure Announcing (J : Backend) (inv : J.State → Prop) : Prop extends J.Listing inv where
  new : inv J.new
  call : ∀ {s : J.State} {c : Call}, inv s → (J.records s).length + c.entries.length < SEQ_LIMIT →
    inv (J.call s c) ∧ J.records s <+: J.records (J.call s c) ∧
      (J.records (J.call s c)).length ≤ (J.records s).length + c.entries.length ∧
      match J.publishes s c with
      | none => (J.records (J.call s c)).length = (J.records s).length
      | some head => head.toNat ≤ (J.records (J.call s c)).length ∧
          ((J.records s).length < (J.records (J.call s c)).length →
            head.toNat = (J.records (J.call s c)).length)

variable {base : Nat} {head : UInt64}

section Invariant

structure Progress.Delivered (base : Nat) (records : List J.Record) (p : Progress) : Prop where
  base_le : base ≤ p.start.toNat
  start_le : p.start.toNat ≤ p.cursor.toNat
  cursor_le : p.cursor.toNat ≤ records.length
  delivered : ((records.take p.cursor.toNat).drop p.start.toNat).mapM J.entryOf = .ok p.delivered

/-- A subscription with nothing left to be woken for has seen every head up to `n`. -/
structure JournalSubscription.Covers (sub : JournalSubscription) (w : JournalWatch) (n : Nat) :
    Prop where
  seen_le : sub.head.seen ≤ w.head.version
  value_le : sub.head.seen = w.head.version → w.head.value.toNat ≤ n

def Subscriber.Tracks (base : Nat) (records : List J.Record) (w : JournalWatch) :
    Subscriber → Prop
  | .absent => True
  | .subscribed sub => sub.head.seen ≤ w.head.version
  | .waiting sub p => p.Delivered base records ∧ sub.Covers w p.cursor.toNat
  | .woken sub p => p.Delivered base records ∧ sub.head.seen ≤ w.head.version
  | .reading sub p head => p.Delivered base records ∧ p.cursor ≤ head ∧
      head.toNat ≤ records.length ∧ sub.Covers w head.toNat
  | .stopped p => p.Delivered base records ∧ ∃ r ∈ records, ∃ err, J.entryOf r = .error err

/-- The invariant of the whole system: every head that was committed since the journal
was opened has been published or is about to be. -/
structure System.Sound {ι : Type} (inv : J.State → Prop) (base : Nat) (y : System J ι) :
    Prop where
  inv : inv y.journal
  room : y.length + 1 < SEQ_LIMIT
  base_le : base ≤ y.length
  watch_le : y.watch.head.value.toNat ≤ y.length
  outstanding_le : ∀ head ∈ y.outstanding, head.toNat ≤ y.length
  announced : y.length = base ∨ y.length ≤ y.watch.head.value.toNat ∨
    ∃ head ∈ y.outstanding, head.toNat = y.length
  tracks : ∀ i, (y.subscribers i).Tracks base (J.records y.journal) y.watch

variable {records records' : List J.Record} {w : JournalWatch} {p : Progress}
  {sub : JournalSubscription}

theorem Progress.Delivered.mono (hp : p.Delivered base records)
    (hextends : records <+: records') : p.Delivered base records' where
  base_le := hp.base_le
  start_le := hp.start_le
  cursor_le := le_trans hp.cursor_le hextends.length_le
  delivered := by
    obtain ⟨more, rfl⟩ := hextends
    rw [take_append_of_le_length hp.cursor_le]
    exact hp.delivered

theorem Subscriber.Tracks.delivered {sub : Subscriber} (hsub : sub.Tracks base records w)
    (hp : sub.progress = some p) : p.Delivered base records := by
  cases sub with
  | absent => cases hp
  | subscribed sub => cases hp
  | _ =>
    cases hp
    exact hsub.1

/-- A commit leaves every subscriber where it stands. -/
theorem Subscriber.Tracks.commit {sub : Subscriber} (hsub : sub.Tracks base records w)
    (hextends : records <+: records') : sub.Tracks base records' w := by
  cases sub with
  | absent => trivial
  | subscribed sub => exact hsub
  | waiting _ _ | woken _ _ => exact ⟨hsub.1.mono hextends, hsub.2⟩
  | reading sub p head =>
    obtain ⟨hp, hcursor, hhead, hcovers⟩ := hsub
    exact ⟨hp.mono hextends, hcursor, le_trans hhead hextends.length_le, hcovers⟩
  | stopped p =>
    obtain ⟨hp, r, hr, herr⟩ := hsub
    exact ⟨hp.mono hextends, r, hextends.subset hr, herr⟩

/-- A publish moves the watermark up and makes every subscription stale, or it
changes nothing. -/
theorem publish_cases (w : JournalWatch) (head : UInt64) :
    (w.head.value < head ∧ w.publish head = ⟨⟨head, w.head.version + 1⟩⟩) ∨
      (head ≤ w.head.value ∧ w.publish head = w) := by
  have hpublish : w.publish head = ⟨w.head.raise head⟩ := rfl
  rw [hpublish]
  rcases raise_cases w.head head with ⟨hlt, hraise⟩ | ⟨hlt, hraise⟩
  · exact .inl ⟨hlt, by rw [hraise]⟩
  · exact .inr ⟨UInt64.not_lt.mp hlt, by rw [hraise]⟩

theorem JournalSubscription.Covers.publish (hcovers : sub.Covers w n)
    (head : UInt64) : sub.Covers (w.publish head) n := by
  obtain ⟨hseen, hvalue⟩ := hcovers
  rcases publish_cases w head with ⟨_, hpublish⟩ | ⟨_, hpublish⟩
  · rw [hpublish]
    refine ⟨Nat.le_succ_of_le hseen, fun hsame => ?_⟩
    change sub.head.seen = w.head.version + 1 at hsame
    omega
  · rw [hpublish]
    exact ⟨hseen, hvalue⟩

theorem version_le_publish (w : JournalWatch) (head : UInt64) :
    w.head.version ≤ (w.publish head).head.version := by
  rcases publish_cases w head with ⟨_, hpublish⟩ | ⟨_, hpublish⟩
  · rw [hpublish]
    exact Nat.le_succ _
  · rw [hpublish]

/-- The watermark after a publish is at least what it was and what was published. -/
theorem le_publish (w : JournalWatch) (head : UInt64) :
    w.head.value.toNat ≤ (w.publish head).head.value.toNat ∧
      head.toNat ≤ (w.publish head).head.value.toNat := by
  rcases publish_cases w head with ⟨hlt, hpublish⟩ | ⟨hle, hpublish⟩
  · rw [hpublish]
    exact ⟨(UInt64.lt_iff_toNat_lt.mp hlt).le, le_refl _⟩
  rw [hpublish]
  exact ⟨le_refl _, UInt64.le_iff_toNat_le.mp hle⟩

theorem Subscriber.Tracks.publish {sub : Subscriber} (hsub : sub.Tracks base records w)
    (head : UInt64) : sub.Tracks base records (w.publish head) := by
  cases sub with
  | absent => trivial
  | subscribed sub => exact le_trans hsub (version_le_publish w head)
  | waiting sub p => exact ⟨hsub.1, hsub.2.publish head⟩
  | woken sub p => exact ⟨hsub.1, le_trans hsub.2 (version_le_publish w head)⟩
  | reading sub p upTo =>
    obtain ⟨hp, hcursor, hhead, hcovers⟩ := hsub
    exact ⟨hp, hcursor, hhead, hcovers.publish head⟩
  | stopped p => exact hsub

theorem seen_of_changed (hchanged : sub.changed w = some sub') :
    sub'.head.seen = w.head.version := by
  unfold JournalSubscription.changed Receiver.changed at hchanged
  split at hchanged
  · cases hchanged
  cases hchanged
  rfl

theorem seen_eq_of_not_changed (hchanged : sub.changed w = none) :
    sub.head.seen = w.head.version := by
  unfold JournalSubscription.changed Receiver.changed at hchanged
  split at hchanged
  · assumption
  · cases hchanged

/-- The records between the cursor and the head extend what was delivered. -/
theorem Progress.Delivered.advance (hp : p.Delivered base records) (hcursor : p.cursor ≤ head)
    (hhead : head.toNat ≤ records.length)
    (hes : ((records.take head.toNat).drop p.cursor.toNat).mapM J.entryOf = .ok es) :
    Progress.Delivered base records ⟨p.start, head, p.delivered ++ es⟩ where
  base_le := hp.base_le
  start_le := le_trans hp.start_le (UInt64.le_iff_toNat_le.mp hcursor)
  cursor_le := hhead
  delivered := by
    have hle : p.cursor.toNat ≤ head.toNat := UInt64.le_iff_toNat_le.mp hcursor
    have hsplit : (records.take head.toNat).drop p.start.toNat =
        (records.take p.cursor.toNat).drop p.start.toNat ++
          (records.take head.toNat).drop p.cursor.toNat := by
      have htake : (records.take head.toNat).take p.cursor.toNat =
          records.take p.cursor.toNat := by
        rw [take_take, min_eq_left hle]
      conv_lhs => rw [← take_append_drop p.cursor.toNat (records.take head.toNat), htake]
      apply drop_append_of_le_length
      rw [length_take, min_eq_left hp.cursor_le]
      exact hp.start_le
    rw [hsplit, mapM_append, hp.delivered, hes]
    rfl

end Invariant

namespace Announcing

/-- A call that grows the log, told in terms of the records. -/
theorem call_of_grows {ρ : Type} {rel : J.State → List JournalEntry → Prop}
    {recordOf : JournalEntry → J.Record} {s : J.State} {log : List JournalEntry} {k : Nat}
    {c : Appended J.State ρ} (hrecords : ∀ {s log}, rel s log → J.records s = log.map recordOf)
    (hrel : rel s log) (hgrows : Grows rel log k c) :
    (∃ log', rel c.state log') ∧ J.records s <+: J.records c.state ∧
      (J.records c.state).length ≤ (J.records s).length + k ∧
      match c.publishes with
      | none => (J.records c.state).length = (J.records s).length
      | some head => head.toNat ≤ (J.records c.state).length ∧
          ((J.records s).length < (J.records c.state).length →
            head.toNat = (J.records c.state).length) := by
  obtain ⟨log', hrel', hextends, hle, hannounces⟩ := hgrows
  rw [hrecords hrel, hrecords hrel', length_map, length_map]
  refine ⟨⟨log', hrel'⟩, hextends.map recordOf, hle, ?_⟩
  cases hpublishes : c.publishes with
  | none =>
    rw [hpublishes] at hannounces
    rw [show log' = log from hannounces]
  | some head =>
    rw [hpublishes] at hannounces
    refine ⟨hannounces.1, fun hlt => hannounces.2 ?_⟩
    intro hsame
    rw [hsame] at hlt
    exact lt_irrefl _ hlt

variable [DecidableEq ι] {inv : J.State → Prop} {y y' : System J ι}

theorem inv_of_reaches (hJ : Announcing J inv) (hreach : J.Reaches (fun _ => True) s) : inv s := by
  induction hreach with
  | new => exact hJ.new
  | call c _ hmeets ih => exact (hJ.call ih hmeets.1).1

/-- Moving one subscriber leaves the shared state and the others alone. -/
theorem sound_setSubscriber (hsound : y.Sound inv base) (i : ι) {sub : Subscriber}
    (hsub : sub.Tracks base (J.records y.journal) y.watch) :
    (y.setSubscriber i sub).Sound inv base :=
  { hsound with
    tracks := by
      intro j
      change (update y.subscribers i sub j).Tracks base (J.records y.journal) y.watch
      by_cases hj : j = i
      · subst hj
        rw [update_self]
        exact hsub
      rw [update_of_ne hj]
      exact hsound.tracks j }

omit [DecidableEq ι] in
theorem sound_commit (hJ : Announcing J inv) (hsound : y.Sound inv base) {c : Call}
    (hroom : y.length + c.entries.length + 1 < SEQ_LIMIT) :
    System.Sound inv base
      { y with
        journal := J.call y.journal c
        outstanding := (J.publishes y.journal c).toList ++ y.outstanding } := by
  obtain ⟨hinv, hextends, hle, hpublishes⟩ :=
    hJ.call (c := c) hsound.inv (lt_trans (Nat.lt_succ_self _) hroom)
  have hgrows : y.length ≤ (J.records (J.call y.journal c)).length := hextends.length_le
  refine ⟨hinv, ?_, le_trans hsound.base_le hgrows, le_trans hsound.watch_le hgrows, ?_, ?_,
    fun i => (hsound.tracks i).commit hextends⟩
  · exact lt_of_le_of_lt (Nat.succ_le_succ hle) hroom
  · intro head hhead
    rcases mem_append.mp hhead with hnew | hold
    · rw [Option.mem_toList] at hnew
      rw [hnew] at hpublishes
      exact hpublishes.1
    · exact le_trans (hsound.outstanding_le head hold) hgrows
  · by_cases hsame : (J.records (J.call y.journal c)).length = y.length
    · change (J.records (J.call y.journal c)).length = base ∨
        (J.records (J.call y.journal c)).length ≤ y.watch.head.value.toNat ∨
        ∃ head ∈ _ ++ y.outstanding, head.toNat = (J.records (J.call y.journal c)).length
      rw [hsame]
      rcases hsound.announced with hbase | hwatch | ⟨head, hhead, heq⟩
      · exact .inl hbase
      · exact .inr (.inl hwatch)
      · exact .inr (.inr ⟨head, mem_append_right _ hhead, heq⟩)
    · cases hpublished : J.publishes y.journal c with
      | none =>
        rw [hpublished] at hpublishes
        exact absurd hpublishes hsame
      | some head =>
        rw [hpublished] at hpublishes
        have hgrew : y.length < (J.records (J.call y.journal c)).length := by omega
        exact .inr (.inr ⟨head, by simp, hpublishes.2 hgrew⟩)

omit [DecidableEq ι] in
theorem sound_publish (hsound : y.Sound inv base) (hhead : head ∈ y.outstanding) :
    System.Sound inv base
      { y with
        watch := y.watch.publish head
        outstanding := y.outstanding.erase head } := by
  refine ⟨hsound.inv, hsound.room, hsound.base_le, ?_, ?_, ?_,
    fun i => (hsound.tracks i).publish head⟩
  · rcases publish_cases y.watch head with ⟨_, hpublish⟩ | ⟨_, hpublish⟩
    · simp only [hpublish]
      exact hsound.outstanding_le head hhead
    simp only [hpublish]
    exact hsound.watch_le
  · intro other hother
    exact hsound.outstanding_le other (mem_of_mem_erase hother)
  · obtain ⟨hvalue, hraised⟩ := le_publish y.watch head
    rcases hsound.announced with hbase | hwatch | ⟨other, hother, heq⟩
    · exact .inl hbase
    · exact .inr (.inl (le_trans hwatch hvalue))
    by_cases hsame : other = head
    · refine .inr (.inl ?_)
      change y.length ≤ _
      rw [← heq, hsame]
      exact hraised
    · exact .inr (.inr ⟨other, (mem_erase_of_ne hsame).mpr hother, heq⟩)

/-- One step of any party keeps the invariant. -/
theorem sound_step (hJ : Announcing J inv) (hsound : y.Sound inv base)
    (hstep : System.Step y y') : y'.Sound inv base := by
  have hlen : (J.records y.journal).length + 1 < SEQ_LIMIT := hsound.room
  cases hstep with
  | commit c hroom => exact hJ.sound_commit hsound hroom
  | publish hhead => exact sound_publish hsound hhead
  | subscribe i hi => exact sound_setSubscriber hsound i (le_refl _)
  | start i hi hhead =>
    have htracks := hsound.tracks i
    rw [hi] at htracks
    have hcursor := hJ.currentSeq hsound.inv (by omega) hhead
    refine sound_setSubscriber hsound i ⟨⟨?_, le_refl _, ?_, ?_⟩, htracks, fun _ => ?_⟩
    · rw [hcursor]
      exact hsound.base_le
    · exact hcursor.le
    · rw [drop_of_length_le (length_take_le _ _)]
      rfl
    · rw [hcursor]
      exact hsound.watch_le
  | wake i hi hchanged =>
    have htracks := hsound.tracks i
    rw [hi] at htracks
    exact sound_setSubscriber hsound i ⟨htracks.1, (seen_of_changed hchanged).le⟩
  | readHead i hi hhead =>
    have htracks := hsound.tracks i
    rw [hi] at htracks
    obtain ⟨hp, hseen⟩ := htracks
    have hhead := hJ.currentSeq hsound.inv (by omega) hhead
    refine sound_setSubscriber hsound i ⟨hp, ?_, hhead.le, hseen, fun _ => ?_⟩
    · rw [UInt64.le_iff_toNat_le, hhead]
      exact hp.cursor_le
    · rw [hhead]
      exact hsound.watch_le
  | deliver i hi hread =>
    have htracks := hsound.tracks i
    rw [hi] at htracks
    obtain ⟨hp, hcursor, hhead, hcovers⟩ := htracks
    rw [hJ.read_after hsound.inv hlen hcursor hhead] at hread
    exact sound_setSubscriber hsound i ⟨hp.advance hcursor hhead hread, hcovers⟩
  | fail i hi hread =>
    have htracks := hsound.tracks i
    rw [hi] at htracks
    obtain ⟨hp, hcursor, hhead, hcovers⟩ := htracks
    rw [hJ.read_after hsound.inv hlen hcursor hhead] at hread
    obtain ⟨r, hr, hfail⟩ := exists_error_of_mapM hread
    exact sound_setSubscriber hsound i
      ⟨hp, r, mem_of_mem_take (mem_of_mem_drop hr), _, hfail⟩

variable {y₀ : System J ι}

/-- Every state of a run that starts by opening a journal is sound. -/
theorem sound_run (hJ : Announcing J inv) (hinit : y₀.Initial)
    (hrun : ReflTransGen System.Step y₀ y) : y.Sound inv y₀.length := by
  induction hrun with
  | refl =>
    refine ⟨hJ.inv_of_reaches hinit.journal, hinit.room, le_refl _, ?_, ?_, .inl rfl, ?_⟩
    · rw [hinit.watch]
      exact Nat.zero_le _
    · rw [hinit.outstanding]
      simp
    · intro i
      rw [hinit.subscribers i]
      trivial
  | tail _ hstep ih => exact hJ.sound_step ih hstep

/-- No interleaving loses or repeats an entry, as long as all of them can be read. -/
theorem exactlyOnce (hJ : Announcing J inv) (hinit : y₀.Initial)
    (hrun : ReflTransGen System.Step y₀ y)
    (hreads : inv y.journal → ∀ r ∈ J.records y.journal, ∃ e, J.entryOf r = .ok e)
    (hp : (y.subscribers i).progress = some p) : ExactlyOnce J y i p := by
  have hsound := hJ.sound_run hinit hrun
  have htracks := hsound.tracks i
  have hdelivered := htracks.delivered hp
  constructor
  · have hseqs := map_eq_of_mapM_ok (p := fun e => e.seq.toNat) (q := J.seqOf)
      hdelivered.delivered fun r hr e he =>
        hJ.seq_entryOf hsound.inv (mem_of_mem_take (mem_of_mem_drop hr)) he
    rw [hseqs, map_drop, map_take, hJ.seqs hsound.inv,
      take_range'_of_length_ge hdelivered.cursor_le, drop_range', Nat.mul_one,
      Nat.add_comm 1]
  · intro hstopped
    rw [hstopped] at htracks
    obtain ⟨-, r, hr, err, herr⟩ := htracks
    obtain ⟨e, he⟩ := hreads hsound.inv r hr
    cases he.symm.trans herr
  · intro sub hwaiting hquiet hchanged
    rw [hwaiting] at htracks
    have hvalue := htracks.2.value_le (seen_eq_of_not_changed hchanged)
    have hstart := hdelivered.start_le
    have hbase := hdelivered.base_le
    have hall : y.length ≤ p.cursor.toNat := by
      rcases hsound.announced with heq | hle | ⟨head, hhead, _⟩
      · omega
      · omega
      rw [hquiet] at hhead
      cases hhead
    have hsegment := hdelivered.delivered
    rwa [take_of_length_le hall] at hsegment

end Announcing

end Kortecx.Journal
