import Kortecx.Coordinator.LeaseTracker
import Kortecx.Journal.Durable
import Kortecx.Lib.ProgramRun
import Kortecx.Mote.Definition
import Kortecx.Projection.Queries
import Kortecx.Projection.ReadySet

/-!
The state the coordinator's owner thread works on, and the few things it does to it: it
reads, it puts content into the store, it appends to the journal and folds what it
appended, and it edits its bookkeeping. The functions of the coordinator are programs over
these effects. An append, the fold of its entry and the edits made once it succeeded are
one effect, as nothing else runs between them.

There are three languages, each part of the next: that of the functions that only look
around, that of the functions that also note facts of the run and make or retire Motes, and
that of the functions that decide what becomes of a Mote. What a function cannot do is seen
from its type.
-/

namespace Kortecx.Coordinator

open Lib Mote Journal Projection Warrant Program Std Function

/-- The coordinator is the reporter of the deaths it observes itself. -/
def COORDINATOR_REPORTER_ID : BitVec 128 := 0

/-- Why an append or the fold of its entry failed. The source turns the two into a text
where it answers a commit or a repudiation. -/
inductive RecordError where
  | journal (e : JournalError)
  | projection (e : ProjectionError)
deriving DecidableEq, Repr

inductive CoordinatorError where
  | unknownMote (mote : MoteId)
  | notLeased (mote : MoteId) (worker : WorkerId)
  | runAlreadyStarted
  | runNotRegistered
  | submissionRefused (refusal : String)
  | reactSeedRefused (why : String)
  | resultRefAbsent (mote : MoteId)
  | commitFailed (message : RecordError)
  | record (e : RecordError)
deriving DecidableEq, Repr

inductive WorkerStatus where
  | live
  | dead
deriving DecidableEq, Repr

structure ToolDef where
  idempotencyClass : IdempotencyClassTag
  /-- The check of arguments against `input_schema`, if the tool has one: the error, or
  none. -/
  validateArgs : Option (List UInt8 → Option String)
  exampleArgsJson : String
  netScopeRequired : NetScope
  fsScopeRequired : FsScope

/-- A grant resolved under a warrant: the class of the definition it resolved to, and the
event of the resolution. -/
structure ResolvedTool where
  idempotencyClass : IdempotencyClassTag
  event : ResolvedCapabilityRecord

/-- The shared content store: what it has, and whether it takes a write. -/
structure Store where
  get : ContentRef → Option (List UInt8)
  contains : ContentRef → Bool
  takes : Bool

/-- What lies outside the coordinator: clock, worker registry, tool and role registries,
content store, the journal's disk, and the switches read from the process environment.
Between two things the coordinator does, any of it may change. -/
structure Outside where
  store : Option Store
  /-- `resolve` of the role registry, if the coordinator is given one. -/
  roles : Option (RoleId → Option Role)
  /-- Whether the disk takes the entry; if not, the append fails. -/
  diskTakes : JournalEntry → Bool
  nowMs : UInt64
  approvalNowMs : UInt64
  freshInstanceId : InstanceId
  status : WorkerId → Option WorkerStatus
  place : ExecutorClass → MoteId → WorkerId
  lookup : ToolName → ToolVersion → Option ToolDef
  resolve : ToolGrant → WarrantSpec → Option ResolvedTool
  estimateSpend : UInt64 → UInt64 → UInt64
  serveLlmRerankEnabled : Bool
  serveRequireApprovalDefault : Bool

/-- The sets of admitted Motes that are held back from workers, each with its run. -/
inductive Park where
  | launches
  | waits
  | policied
  | guards
deriving DecidableEq, Repr

structure ArmedTimer where
  fireAtUnixMs : UInt64
  purpose : UInt8
  attempt : UInt32
deriving DecidableEq, Repr

/-- The bookkeeping of dispatch. A definition is kept under its Mote's id. -/
structure Dispatch where
  submitted : ExtTreeSet MoteId
  defs : ExtTreeMap MoteId (Mote × WarrantSpec)
  tracker : LeaseTracker
  /-- `parked_launches`, `parked_waits`, `parked_policied` and `parked_guards`. -/
  parked : Park → ExtTreeMap MoteId InstanceId
  armedTimers : ExtTreeMap MoteId ArmedTimer
  defs_keyed : ∀ id (mote : Mote) warrant, defs[id]? = some (mote, warrant) → mote.id = id

abbrev ChainKey := InstanceId × Option (ByteVec 32)

structure ReactSettleCache where
  seenFacts : Nat := 0
  active : List ChainKey := []
  /-- A set in the source, used only to test membership. -/
  settled : List ChainKey := []

structure Core (J : Backend) where
  journal : J.State
  projection : State
  foldedThrough : UInt64
  dispatch : Dispatch
  /-- The ids of the Motes the scheduler has pending. -/
  scheduled : ExtTreeSet MoteId
  reactCache : ReactSettleCache
  outside : Outside

inductive Edit where
  | register (reg : RegisterMote)
  | schedule (id : MoteId)
  | enrol (id : MoteId)
  | expel (id : MoteId)
  | define (mote : Mote) (warrant : WarrantSpec)
  | undefine (id : MoteId)
  | park (park : Park) (id : MoteId) (instanceId : InstanceId)
  | unpark (park : Park) (id : MoteId)
  | resolve (id : MoteId)
  | cache (cache : ReactSettleCache)

inductive Op where
  | edit (e : Edit)
  | arm (id : MoteId) (timer : ArmedTimer)
  | disarm (id : MoteId)
  | recordLease (worker : WorkerId) (motes : List MoteId)
  | takeLeases (worker : WorkerId)
  | recordCrash (id : MoteId)

instance : Coe Edit Op := ⟨.edit⟩

namespace Dispatch

def edit (d : Dispatch) : Edit → Dispatch
  | .enrol id => { d with submitted := d.submitted.insert id }
  | .expel id => { d with submitted := d.submitted.erase id }
  | .define mote warrant =>
    { d with
      defs := d.defs.insert mote.id (mote, warrant)
      defs_keyed := by
        intro id m w hget
        rw [ExtTreeMap.getElem?_insert] at hget
        split at hget
        · rename_i hid
          cases hget
          exact Std.LawfulEqCmp.eq_of_compare hid
        · exact d.defs_keyed id m w hget }
  | .undefine id =>
    { d with
      defs := d.defs.erase id
      defs_keyed := by
        intro k m w hget
        rw [ExtTreeMap.getElem?_erase] at hget
        split at hget
        · cases hget
        · exact d.defs_keyed k m w hget }
  | .park park id instanceId =>
    { d with parked := update d.parked park ((d.parked park).insert id instanceId) }
  | .unpark park id => { d with parked := update d.parked park ((d.parked park).erase id) }
  | .resolve id => { d with tracker := d.tracker.resolveCommitted id }
  | .register _ | .schedule _ | .cache _ => d

def apply (d : Dispatch) : Op → Dispatch
  | .edit e => d.edit e
  | .arm id timer => { d with armedTimers := d.armedTimers.insert id timer }
  | .disarm id => { d with armedTimers := d.armedTimers.erase id }
  | .recordLease worker motes => { d with tracker := d.tracker.recordLease worker motes }
  | .takeLeases worker => { d with tracker := d.tracker.takeLeases worker }
  | .recordCrash id => { d with tracker := d.tracker.recordCrash id PURE_RETRY_BUDGET }

def applyAll (d : Dispatch) (ops : List Op) : Dispatch :=
  ops.foldl apply d

end Dispatch

namespace Core

variable {J : Backend}

def edit (w : Core J) : Edit → Core J
  | .register reg => { w with projection := registerMote w.projection reg }
  | .schedule id => { w with scheduled := w.scheduled.insert id }
  | .cache cache => { w with reactCache := cache }
  | e => { w with dispatch := w.dispatch.edit e }

def apply (w : Core J) : Op → Core J
  | .edit e => w.edit e
  | op => { w with dispatch := w.dispatch.apply op }

def applyAll (w : Core J) (ops : List Op) : Core J :=
  ops.foldl apply w

/-- Fold an entry the journal returned, unless the watermark says it is folded already.
The watermark moves only if the fold succeeds. -/
def foldNew (w : Core J) (e : JournalEntry) : Except ProjectionError Unit × Core J :=
  if w.foldedThrough < e.seq then
    match fold none w.projection e with
    | (projection, .ok _) => (.ok (), { w with projection, foldedThrough := e.seq })
    | (projection, .error err) => (.error err, { w with projection })
  else (.ok (), w)

/-- Append an entry, fold what comes back, and make the edits. A `strict` caller stops at
an error of the fold; the others go on. -/
def record (w : Core J) (e : JournalEntry) (strict : Bool) (ops : List Op) :
    Except RecordError UInt64 × Core J :=
  if w.outside.diskTakes e then
    match (J.append w.journal e).result with
    | .error err => (.error (.journal err), { w with journal := (J.append w.journal e).state })
    | .ok durable =>
      match { w with journal := (J.append w.journal e).state }.foldNew durable with
      | (.ok (), folded) => (.ok durable.seq, folded.applyAll ops)
      | (.error err, folded) =>
        if strict then (.error (.projection err), folded)
        else (.ok durable.seq, folded.applyAll ops)
  else (.error (.journal .sqlite), w)

/-- The loop of `apply_batch` over the entries the journal returned: whether each was
new. -/
def foldCommits (seqBefore : UInt64) (newSeqs : List UInt64) (w : Core J) :
    List JournalEntry → Except RecordError (List (UInt64 × Bool)) × Core J
  | [] => (.ok [], w)
  | e :: es =>
    if seqBefore < e.seq ∧ e.seq ∉ newSeqs then
      match fold none w.projection e with
      | (projection, .ok _) =>
        let rest := foldCommits seqBefore (e.seq :: newSeqs)
          { w with projection, foldedThrough := e.seq } es
        (rest.1.map ((e.seq, true) :: ·), rest.2)
      | (projection, .error err) => (.error (.projection err), { w with projection })
    else
      let rest := foldCommits seqBefore newSeqs w es
      (rest.1.map ((e.seq, false) :: ·), rest.2)

/-- The loop of `repudiate_cascade`: it stops at the first error. -/
def foldRepudiations (w : Core J) : List JournalEntry → Except RecordError Unit × Core J
  | [] => (.ok (), w)
  | e :: es =>
    match w.foldNew e with
    | (.ok (), folded) => folded.foldRepudiations es
    | (.error err, folded) => (.error (.projection err), folded)

def appendBatch (w : Core J) (es : List JournalEntry) :
    Except RecordError (List JournalEntry) × Core J :=
  if es.all w.outside.diskTakes then
    ((J.appendBatch w.journal es).result.mapError .journal,
      { w with journal := (J.appendBatch w.journal es).state })
  else (.error (.journal .sqlite), w)

/-- `apply_batch`. -/
def recordCommits (w : Core J) (es : List JournalEntry) :
    Except RecordError (List (UInt64 × Bool)) × Core J :=
  match w.appendBatch es with
  | (.ok durable, w') => w'.foldCommits w.foldedThrough [] durable
  | (.error err, w') => (.error err, w')

def recordRepudiations (w : Core J) (es : List JournalEntry) : Except RecordError Unit × Core J :=
  match w.appendBatch es with
  | (.ok durable, w') => w'.foldRepudiations durable
  | (.error err, w') => (.error err, w')

/-- A write to the store: what it answers if it takes it is the hash of the bytes. -/
def put (blake3 : List UInt8 → ByteVec 32) (w : Core J) (bytes : List UInt8) :
    Option ContentRef × Core J :=
  match w.outside.store with
  | none => (none, w)
  | some store =>
    if store.takes then
      let ref : ContentRef := ⟨blake3 bytes⟩
      (some ref,
        { w with outside := { w.outside with store := some { store with
            get := update store.get ref (some bytes)
            contains := update store.contains ref true } } })
    else (none, w)

section Put

variable (blake3 : List UInt8 → ByteVec 32) (w : Core J) (bytes : List UInt8)

@[simp]
theorem projection_put : (w.put blake3 bytes).2.projection = w.projection := by
  unfold put
  split
  · rfl
  · split <;> rfl

@[simp]
theorem dispatch_put : (w.put blake3 bytes).2.dispatch = w.dispatch := by
  unfold put
  split
  · rfl
  · split <;> rfl

theorem journal_put : (w.put blake3 bytes).2.journal = w.journal := by
  unfold put
  split
  · rfl
  · split <;> rfl

theorem foldedThrough_put : (w.put blake3 bytes).2.foldedThrough = w.foldedThrough := by
  unfold put
  split
  · rfl
  · split <;> rfl

end Put

end Core

/-- The facts of a run that say nothing of what became of a Mote. A frozen branch is one
the journal can read back. -/
inductive RunFact where
  | runRegistered (e : RunRegistered)
  | runVersionsResolved (e : RunVersionsResolved)
  | replanRound (e : ReplanRound)
  | reactRound (e : ReactRound) (readable : e.branch.Readable)
  | approval (e : Approval)
  | reRankRound (e : ReRankRound)

def RunFact.entry : RunFact → JournalEntry
  | .runRegistered e => .runRegistered e
  | .runVersionsResolved e => .runVersionsResolved e
  | .replanRound e => .replanRound e
  | .reactRound e _ => .reactRound e
  | .approval e => .approval e
  | .reRankRound e => .reRankRound e

theorem RunFact.readable_entry (fact : RunFact) : fact.entry.Readable := by
  cases fact with
  | reactRound e readable => exact readable
  | _ => trivial

inductive Query where
  | read
  | put (bytes : List UInt8)

inductive Chore where
  | query (q : Query)
  | note (fact : RunFact) (strict : Bool)
  | edit (e : Edit)

inductive Effect where
  | chore (c : Chore)
  | record (e : JournalEntry) (strict : Bool) (ops : List Op)
  | recordCommits (es : List JournalEntry)
  | recordRepudiations (es : List JournalEntry)
  | update (op : Op)

section Programs

variable (J : Backend)

abbrev Query.Answer : Query → Type
  | .read => Core J
  | .put _ => Option ContentRef

abbrev Chore.Answer : Chore → Type
  | .query q => q.Answer J
  | .note .. => Except RecordError UInt64
  | .edit _ => Unit

abbrev Effect.Answer : Effect → Type
  | .chore c => c.Answer J
  | .record .. => Except RecordError UInt64
  | .recordCommits _ => Except RecordError (List (UInt64 × Bool))
  | .recordRepudiations _ => Except RecordError Unit
  | .update _ => Unit

/-- What looks around. -/
abbrev Reading := Program Query (Query.Answer J)

/-- What also notes facts, and makes or retires Motes. -/
abbrev Routine := Program Chore (Chore.Answer J)

/-- What the owner thread runs. -/
abbrev Coord := Program Effect (Effect.Answer J)

end Programs

section Handlers

variable (blake3 : List UInt8 → ByteVec 32) (J : Backend)

def ask : Handler Query (Query.Answer J) (Core J)
  | .read, w => (w, w)
  | .put bytes, w => w.put blake3 bytes

def tend : Handler Chore (Chore.Answer J) (Core J)
  | .query q, w => ask blake3 J q w
  | .note fact strict, w => w.record fact.entry strict []
  | .edit e, w => ((), w.edit e)

def perform : Handler Effect (Effect.Answer J) (Core J)
  | .chore c, w => tend blake3 J c w
  | .record e strict ops, w => w.record e strict ops
  | .recordCommits es, w => w.recordCommits es
  | .recordRepudiations es, w => w.recordRepudiations es
  | .update op, w => ((), w.apply op)

end Handlers

/-- A language that contains the reading one. -/
class Reads (m : Type → Type) (J : outParam Backend) where
  reading {α : Type} : Reading J α → m α

/-- A language that contains the routine one. -/
class Tends (m : Type → Type) (J : outParam Backend) where
  routine {α : Type} : Routine J α → m α

export Reads (reading)
export Tends (routine)

section Calls

variable {J : Backend} {m : Type → Type}

instance : Reads (Reading J) J where
  reading p := p

instance : Reads (Routine J) J where
  reading := Program.embed .query fun _ a => a

instance : Tends (Routine J) J where
  routine p := p

instance : Tends (Coord J) J where
  routine := Program.embed .chore fun _ a => a

instance : Reads (Coord J) J where
  reading p := routine (reading p : Routine J _)

def look [Reads m J] : m (Core J) := reading (Program.call Query.read)

def put [Reads m J] (bytes : List UInt8) : m (Option ContentRef) :=
  reading (Program.call (Query.put bytes))

def edit [Tends m J] (e : Edit) : m Unit := routine (Program.call (Chore.edit e))

/-- Append a fact and fold it. -/
def note [Tends m J] (fact : RunFact) : m (Except RecordError UInt64) :=
  routine (Program.call (Chore.note fact false))

/-- Append a fact and fold it; an error of the fold is answered too. -/
def noteStrict [Tends m J] (fact : RunFact) : m (Except RecordError UInt64) :=
  routine (Program.call (Chore.note fact true))

def update (op : Op) : Coord J Unit := Program.call (Effect.update op)

/-- Append, fold, and edit whatever the fold says. -/
def record (e : JournalEntry) (ops : List Op) : Coord J (Except RecordError UInt64) :=
  Program.call (Effect.record e false ops)

/-- Append, fold, and edit if the fold succeeds. -/
def recordStrict (e : JournalEntry) (ops : List Op) : Coord J (Except RecordError UInt64) :=
  Program.call (Effect.record e true ops)

end Calls

section Rules

variable {J : Backend} {blake3 : List UInt8 → ByteVec 32} {Q : Core J → Effect → Prop}
  {w : Core J} {α : Type}

@[simp]
theorem run_look_bind (f : Core J → Coord J α) (w : Core J) :
    (look >>= f).run (perform blake3 J) w = (f w).run (perform blake3 J) w := rfl

@[simp]
theorem run_ask_look_bind (f : Core J → Reading J α) (w : Core J) :
    (look >>= f).run (ask blake3 J) w = (f w).run (ask blake3 J) w := rfl

theorem run_tend_look_bind (f : Core J → Routine J α) (w : Core J) :
    (look >>= f).run (tend blake3 J) w = (f w).run (tend blake3 J) w := rfl

@[simp]
theorem run_update_bind (op : Op) (f : Unit → Coord J α) (w : Core J) :
    (update op >>= f).run (perform blake3 J) w = (f ()).run (perform blake3 J) (w.apply op) := rfl

@[simp]
theorem along_look_bind {f : Core J → Coord J α} :
    (look >>= f).Along (perform blake3 J) Q w ↔
      Q w (.chore (.query .read)) ∧ (f w).Along (perform blake3 J) Q w := Iff.rfl

variable {bytes : List UInt8}

@[simp]
theorem along_put_bind {f : Option ContentRef → Coord J α} :
    (put bytes >>= f).Along (perform blake3 J) Q w ↔
      Q w (.chore (.query (.put bytes))) ∧
        (f (w.put blake3 bytes).1).Along (perform blake3 J) Q (w.put blake3 bytes).2 := Iff.rfl

section Routines

variable {T A : Core J → Chore → Prop} {f : Core J → Routine J α}

theorem along_tend_look_bind :
    (look >>= f).Along (tend blake3 J) T w ↔
      T w (.query .read) ∧ (f w).Along (tend blake3 J) T w := Iff.rfl

theorem along_tend_put_bind {f : Option ContentRef → Routine J α} :
    (put bytes >>= f).Along (tend blake3 J) T w ↔ T w (.query (.put bytes)) ∧
      (f (w.put blake3 bytes).1).Along (tend blake3 J) T (w.put blake3 bytes).2 := Iff.rfl

/-- A look answers with the state, and leaves it as it is. -/
theorem yields_tend_look_bind {R : α → Core J → Prop}
    (hread : A w (.query .read)) (hf : (f w).Yields (tend blake3 J) T A w R) :
    (look >>= f).Yields (tend blake3 J) T A w R :=
  ⟨fun _ => ⟨hread, hf.asLong⟩, fun hT => hf.post hT.2⟩

end Routines

@[simp]
theorem along_edit :
    (edit e : Coord J Unit).Along (perform blake3 J) Q w ↔ Q w (.chore (.edit e)) :=
  along_call

@[simp]
theorem along_edit_bind {e : Edit} {f : Unit → Coord J α} :
    (edit e >>= f).Along (perform blake3 J) Q w ↔
      Q w (.chore (.edit e)) ∧ (f ()).Along (perform blake3 J) Q (w.edit e) := Iff.rfl

variable {op : Op} {e : JournalEntry} {ops : List Op}

@[simp]
theorem along_update :
    (update op : Coord J Unit).Along (perform blake3 J) Q w ↔ Q w (.update op) :=
  along_call

@[simp]
theorem along_update_bind :
    (update op >>= f).Along (perform blake3 J) Q w ↔
      Q w (.update op) ∧ (f ()).Along (perform blake3 J) Q (w.apply op) := Iff.rfl

@[simp]
theorem along_record_bind :
    (record e ops >>= f).Along (perform blake3 J) Q w ↔
      Q w (.record e false ops) ∧
        (f (w.record e false ops).1).Along (perform blake3 J) Q (w.record e false ops).2 := Iff.rfl

@[simp]
theorem along_recordStrict_bind :
    (recordStrict e ops >>= f).Along (perform blake3 J) Q w ↔
      Q w (.record e true ops) ∧
        (f (w.record e true ops).1).Along (perform blake3 J) Q (w.record e true ops).2 := Iff.rfl

theorem run_routine_bind {β : Type} (p : Routine J β) (f : β → Routine J α) (w : Core J) :
    (routine (p >>= f) : Coord J α).run (perform blake3 J) w =
      (routine (f ((routine p : Coord J β).run (perform blake3 J) w).1) : Coord J α).run
        (perform blake3 J) ((routine p : Coord J β).run (perform blake3 J) w).2 := by
  have hbind : (routine (p >>= f) : Coord J α) =
      ((routine p : Coord J β) >>= fun b => routine (f b)) := embed_bind p f
  rw [hbind, run_bind]

/-- A routine program performs chores only. -/
theorem along_routine {p : Routine J α} (hchore : ∀ w c, Q w (.chore c)) :
    (routine p : Coord J α).Along (perform blake3 J) Q w :=
  always_embed p hchore w

variable (p : Reading J α)

/-- A reading program runs in the larger language as in its own. -/
theorem run_reading (w : Core J) :
    (reading p : Coord J α).run (perform blake3 J) w = p.run (ask blake3 J) w := by
  induction p generalizing w with
  | done a => rfl
  | perform q next ih => exact ih _ _

/-- Looking around changes neither what is known of the Motes nor the bookkeeping. -/
theorem run_ask_frame (w : Core J) :
    (p.run (ask blake3 J) w).2.projection = w.projection ∧
      (p.run (ask blake3 J) w).2.dispatch = w.dispatch := by
  induction p generalizing w with
  | done a => exact ⟨rfl, rfl⟩
  | perform q next ih =>
    cases q with
    | read => exact ih _ _
    | put bytes =>
      obtain ⟨hprojection, hdispatch⟩ := ih (w.put blake3 bytes).1 (w.put blake3 bytes).2
      exact ⟨hprojection.trans (w.projection_put blake3 bytes),
        hdispatch.trans (w.dispatch_put blake3 bytes)⟩

@[simp]
theorem projection_run_reading :
    ((reading p : Coord J α).run (perform blake3 J) w).2.projection = w.projection := by
  rw [run_reading]
  exact (run_ask_frame p w).1

@[simp]
theorem dispatch_run_reading :
    ((reading p : Coord J α).run (perform blake3 J) w).2.dispatch = w.dispatch := by
  rw [run_reading]
  exact (run_ask_frame p w).2

/-- A reading program performs queries only. -/
theorem along_reading {p : Reading J α} (hquery : ∀ w q, Q w (.chore (.query q))) :
    (reading p : Coord J α).Along (perform blake3 J) Q w := by
  induction p generalizing w with
  | done a => trivial
  | perform q next ih => exact ⟨hquery w q, ih _⟩

end Rules

end Kortecx.Coordinator
