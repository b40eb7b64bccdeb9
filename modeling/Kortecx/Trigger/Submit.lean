import Kortecx.Lib.History
import Kortecx.Trigger.Admin

/-!
Submitting an event to a trigger. The event gets an idempotency key: the caller's, or one
derived from the trigger and the payload, or, for a scheduled fire, one that names the
trigger and the time it was due. If a run is recorded under the key, that run is the
answer; otherwise a run is bound and started, and recorded under the key unless another
submission was faster.

Between looking the key up and recording the run a submission waits for others to answer,
so any number of submissions are under way at once.
-/

namespace Kortecx.Trigger

open Lib Gateway Warrant

def derivedKey (blake3 : List UInt8 → ByteVec 32) (triggerId : ByteVec 16) (payload : String) :
    String :=
  toHex (blake3 (utf8Bytes "kx-trigger-evt\x00" ++ triggerId.toList ++ utf8Bytes payload)).toList

def cronKey (name : String) (nextFireUnixMs : Nat) : String :=
  s!"cron:{name}:{nextFireUnixMs}"

structure TriggerFireOutcome where
  instanceId : ByteVec 16
  deduped : Bool
deriving DecidableEq, Repr

inductive KeySource where
  | caller
  | payload (text : String)
  | cron
deriving DecidableEq, Repr

/-- A submission under way: its key was not recorded when it looked. `instanceId` is the run
it started, once it has; `scheduled` is the row a scheduled fire was read from. -/
structure Pending where
  id : Nat
  name : String
  triggerId : ByteVec 16
  key : String
  instanceId : Option (ByteVec 16) := none
  scheduled : Option TriggerRow := none

/-- What happens, as an onlooker sees it. -/
inductive Observation where
  | submitted (id : Nat) (name : String) (source : KeySource) (key : String)
  | started (id : Nat) (name : String) (instanceId : ByteVec 16)
  | answered (id : Nat) (name key : String) (outcome : TriggerFireOutcome)
  | refused (name : String) (error : TriggerAdminError)
deriving DecidableEq, Repr

/-- The store, the submissions under way, the number of submissions so far, and the due
triggers the ticker has still to fire. -/
structure World where
  db : TriggersDb
  pending : List Pending
  count : Nat
  due : List TriggerRow

def World.empty : World where
  db := .empty
  pending := []
  count := 0
  due := []

structure Env where
  blake3 : List UInt8 → ByteVec 32
  deadletterMax : Nat

inductive Input where
  /-- A call of a party to a host that is wired in some way. -/
  | call (admin : HostTriggerAdmin) (party : String) (call : Call)
  | submit (name idempotencyKey payload : String)
  /-- Binding, starting or submitting the run failed. -/
  | failed (id : Nat) (error : TriggerAdminError)
  /-- The run was registered. -/
  | started (id : Nat) (instanceId : ByteVec 16)
  /-- All Motes were accepted and the run is recorded. -/
  | recorded (id : Nat) (now : Nat)
  | cronTick (now : Nat)
  | cronFire (admin : HostTriggerAdmin) (now : Nat)

section Step

variable (env : Env)

/-- The ticker's bookkeeping after a fire it made: failures are counted, a success clears
the count. -/
def noteFailure (db : TriggersDb) (scheduled : Option TriggerRow) (error : TriggerAdminError) :
    TriggersDb :=
  match scheduled with
  | none => db
  | some cfg => db.recordFireFailure cfg.name error.toText env.deadletterMax

def noteSuccess (db : TriggersDb) (scheduled : Option TriggerRow) : TriggersDb :=
  match scheduled with
  | none => db
  | some cfg => if 0 < cfg.consecutiveFailures then db.clearFireFailures cfg.name else db

def keySource (scheduled : Option TriggerRow) (idempotencyKey payload : String) : KeySource :=
  if isBlank idempotencyKey then .payload payload
  else if scheduled.isSome then .cron else .caller

def keyOf (triggerId : ByteVec 16) (idempotencyKey payload : String) : String :=
  if isBlank idempotencyKey then derivedKey env.blake3 triggerId payload else idempotencyKey

/-- `submit` up to the point where it waits for the run. -/
def submit (w : World) (scheduled : Option TriggerRow) (name idempotencyKey payload : String) :
    World × List Observation :=
  match w.db.get name with
  | none =>
    ({ w with db := noteFailure env w.db scheduled (.notFound name) },
      [.refused name (.notFound name)])
  | some cfg =>
    if !cfg.enabled then
      let error := .unsupported s!"trigger '{name}' is disabled"
      ({ w with db := noteFailure env w.db scheduled error }, [.refused name error])
    else
      let key := keyOf env cfg.triggerId idempotencyKey payload
      let event := .submitted w.count name (keySource scheduled idempotencyKey payload) key
      match w.db.fired key with
      | some prior =>
        ({ w with db := noteSuccess w.db scheduled, count := w.count + 1 },
          [event, .answered w.count name key ⟨prior, true⟩])
      | none =>
        ({ w with
            pending := w.pending ++
              [{ id := w.count, name, triggerId := cfg.triggerId, key, scheduled }]
            count := w.count + 1 },
          [event])

/-- The end of `submit`: the run is recorded, unless one is already. -/
def record (w : World) (p : Pending) (instanceId : ByteVec 16) (now : Nat) :
    World × List Observation :=
  let (db, recorded, deduped) := w.db.recordFire ⟨p.key, p.triggerId, instanceId, now⟩
  ({ w with
      db := noteSuccess (db.setLastFire p.name now) p.scheduled
      pending := w.pending.filter (·.id ≠ p.id) },
    [.answered p.id p.name p.key ⟨if deduped then recorded else instanceId, deduped⟩])

/-- The ticker advances the watermark before it fires; a schedule that does not parse backs
off for an hour. -/
def nextWatermark (admin : HostTriggerAdmin) (cfg : TriggerRow) (now : Nat) : Nat :=
  match admin.nextFire cfg.scheduleSpec cfg.timezone now with
  | .ok next => next
  | .error _ => min (now + 3600000) (2 ^ 64 - 1)

def step (w : World) : Input → World × List Observation
  | .call admin party call =>
    ({ w with db := (serve { admin with blake3 := env.blake3 } party w.db call).1 }, [])
  | .submit name idempotencyKey payload =>
    if isBlank name then (w, [.refused name (.invalidArgument "name is required")])
    else submit env w none name idempotencyKey payload
  | .failed id error =>
    match w.pending.find? (·.id = id) with
    | none => (w, [])
    | some p =>
      ({ w with
          db := noteFailure env w.db p.scheduled error
          pending := w.pending.filter (·.id ≠ id) },
        [.refused p.name error])
  | .started id instanceId =>
    match w.pending.find? fun p => p.id = id && p.instanceId.isNone with
    | none => (w, [])
    | some p =>
      ({ w with
          pending := w.pending.map fun q =>
            if q.id = id then { q with instanceId := some instanceId } else q },
        [.started id p.name instanceId])
  | .recorded id now =>
    match w.pending.find? (·.id = id) with
    | none => (w, [])
    | some p =>
      match p.instanceId with
      | none => (w, [])
      | some instanceId => record w p instanceId now
  | .cronTick now =>
    -- The ticker scans again only after it has fired all it found.
    match w.due with
    | [] => ({ w with due := w.db.dueCron now }, [])
    | _ => (w, [])
  | .cronFire admin now =>
    match w.due with
    | [] => (w, [])
    | cfg :: due =>
      let advanced := { w with
        db := w.db.setNextFire cfg.name (nextWatermark admin cfg now)
        due := due }
      submit env advanced (some cfg) cfg.name (cronKey cfg.name cfg.nextFireUnixMs)
        "\x7b\x7d"

end Step

/-- The worlds that can be reached, with all that was observed on the way. -/
inductive Run (env : Env) : World → List Observation → Prop
  | start : Run env .empty []
  | step {w : World} {seen : List Observation} (hrun : Run env w seen) (input : Input) :
      Run env (step env w input).1 (seen ++ (step env w input).2)

end Kortecx.Trigger
