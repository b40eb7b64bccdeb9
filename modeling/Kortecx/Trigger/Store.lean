import Kortecx.Lib.KeysetPaging
import Kortecx.Lib.Text

/-!
The table of registered triggers and the table of the events that fired them. The names of
triggers are unique over all parties, the owner is a column; an event is recorded under its
idempotency key alone.

Texts are compared as SQLite compares them, byte by byte; on UTF-8 that is the order of the
code points.
-/

namespace Kortecx.Trigger

open Lib List Function

inductive TriggerKind where
  | webhook
  | cron
  | grpc
deriving DecidableEq, Repr

inductive TriggerAuth where
  | none
  | hmacSha256
  | bearer
deriving DecidableEq, Repr

structure TriggerRow where
  triggerId : ByteVec 16
  name : String
  kind : TriggerKind
  recipeHandle : String := ""
  appHandle : String := ""
  argsTemplateJson : String := ""
  auth : TriggerAuth := .none
  authSecretRef : String := ""
  scheduleSpec : String := ""
  timezone : String := ""
  ownerParty : String
  requireApproval : Bool := false
  enabled : Bool := true
  nextFireUnixMs : Nat := 0
  createdUnixMs : Nat := 0
  lastFireUnixMs : Nat := 0
  workflowHandle : String := ""
  consecutiveFailures : Nat := 0
  disabledReason : String := ""
deriving DecidableEq, Repr

structure FireRow where
  idempotencyKey : String
  triggerId : ByteVec 16
  instanceId : ByteVec 16
  receivedUnixMs : Nat
deriving DecidableEq, Repr

def triggerIdOf (blake3 : List UInt8 → ByteVec 32) (name : String) : ByteVec 16 :=
  ⟨(blake3 (utf8Bytes "kx-trigger\x00" ++ utf8Bytes name)).toList.take 16, by simp⟩

/-- A millisecond count as the column holds it. -/
def ms (v : Nat) : Nat := min v (2 ^ 63 - 1)

/-- The two tables with the constraints of their schema. No trigger has the empty name: the
one operation that adds rows is reached only with a name that is not blank. -/
structure TriggersDb where
  triggers : List TriggerRow
  triggerFires : List FireRow
  nodup_names : (triggers.map (·.name)).Nodup
  nodup_ids : (triggers.map (·.triggerId)).Nodup
  named : ∀ row ∈ triggers, row.name ≠ ""
  nodup_keys : (triggerFires.map (·.idempotencyKey)).Nodup

namespace TriggersDb

def empty : TriggersDb where
  triggers := []
  triggerFires := []
  nodup_names := nodup_nil
  nodup_ids := nodup_nil
  named := by simp
  nodup_keys := nodup_nil

/-- `UPDATE triggers SET .. WHERE name = ..`, for changes that touch neither the name nor
the id. -/
def modify (db : TriggersDb) (name : String) (change : TriggerRow → TriggerRow)
    (hname : ∀ row, (change row).name = row.name)
    (hid : ∀ row, (change row).triggerId = row.triggerId) : TriggersDb where
  triggers := db.triggers.map fun row => if row.name = name then change row else row
  triggerFires := db.triggerFires
  nodup_names := by
    rw [map_map]
    convert db.nodup_names using 2
    funext row
    simp only [comp_apply]
    split <;> simp [hname]
  nodup_ids := by
    rw [map_map]
    convert db.nodup_ids using 2
    funext row
    simp only [comp_apply]
    split <;> simp [hid]
  named := by
    intro row hrow
    obtain ⟨old, hold, rfl⟩ := mem_map.1 hrow
    split
    · rw [hname]
      exact db.named old hold
    · exact db.named old hold
  nodup_keys := db.nodup_keys

/-- `DELETE FROM triggers WHERE ..`, with the number of rows that went. -/
def delete (db : TriggersDb) (which : TriggerRow → Bool) : TriggersDb × Nat :=
  ({ db with
      triggers := db.triggers.filter fun row => !which row
      nodup_names := db.nodup_names.sublist (filter_sublist.map _)
      nodup_ids := db.nodup_ids.sublist (filter_sublist.map _)
      named := fun row hrow => db.named row (mem_of_mem_filter hrow) },
    (db.triggers.filter which).length)

/-- What an insertion that meets a row of the same name leaves there. -/
def updated (old row : TriggerRow) : TriggerRow where
  triggerId := old.triggerId
  name := old.name
  kind := row.kind
  recipeHandle := row.recipeHandle
  appHandle := row.appHandle
  argsTemplateJson := row.argsTemplateJson
  auth := row.auth
  authSecretRef := row.authSecretRef
  scheduleSpec := row.scheduleSpec
  timezone := row.timezone
  ownerParty := row.ownerParty
  requireApproval := row.requireApproval
  enabled := row.enabled
  nextFireUnixMs := ms row.nextFireUnixMs
  createdUnixMs := old.createdUnixMs
  lastFireUnixMs := old.lastFireUnixMs
  workflowHandle := row.workflowHandle
  consecutiveFailures := 0
  disabledReason := ""

/-- The row an insertion adds. -/
def inserted (row : TriggerRow) : TriggerRow :=
  { row with
    nextFireUnixMs := ms row.nextFireUnixMs
    createdUnixMs := ms row.createdUnixMs
    lastFireUnixMs := ms row.lastFireUnixMs
    consecutiveFailures := 0
    disabledReason := "" }

/-- Register or replace by name. A row of another name with the same id is a conflict the
statement does not handle. -/
def upsert (db : TriggersDb) (row : TriggerRow) (hnamed : row.name ≠ "") :
    Except String TriggersDb :=
  if hname : row.name ∈ db.triggers.map (·.name) then
    .ok (db.modify row.name (updated · row) (fun _ => rfl) (fun _ => rfl))
  else if hid : row.triggerId ∈ db.triggers.map (·.triggerId) then
    .error "triggers upsert: UNIQUE constraint failed: triggers.trigger_id"
  else
    .ok { db with
      triggers := db.triggers ++ [inserted row]
      nodup_names := by
        rw [map_append, nodup_append]
        refine ⟨db.nodup_names, by simp, ?_⟩
        rintro name hmem other hother rfl
        simp only [map_cons, map_nil, mem_singleton] at hother
        subst hother
        exact hname hmem
      nodup_ids := by
        rw [map_append, nodup_append]
        refine ⟨db.nodup_ids, by simp, ?_⟩
        rintro id hmem other hother rfl
        simp only [map_cons, map_nil, mem_singleton] at hother
        subst hother
        exact hid hmem
      named := by
        intro found hfound
        rcases mem_append.1 hfound with hold | hnew
        · exact db.named found hold
        rw [mem_singleton.1 hnew]
        exact hnamed }

def get (db : TriggersDb) (name : String) : Option TriggerRow :=
  db.triggers.find? (·.name = name)

def pageSize (limit : UInt32) : Nat :=
  if limit = 0 then 200 else min limit.toNat 1000

def list (db : TriggersDb) (ownerParty : String) (limit : UInt32) (afterName : String) :
    List TriggerRow × Bool :=
  pageAfter (·.name) (db.triggers.filter (·.ownerParty = ownerParty)) (pageSize limit) afterName

def remove (db : TriggersDb) (ownerParty name : String) : TriggersDb × Bool :=
  let (left, count) := db.delete fun row => row.ownerParty = ownerParty && row.name = name
  (left, 0 < count)

/-- One definition for the two cascades: `handleOf` is the column of the target. The empty
handle marks another kind of target and removes nothing. -/
def removeByTarget (handleOf : TriggerRow → String) (db : TriggersDb) (ownerParty handle : String) :
    TriggersDb × Nat :=
  if handle = "" then (db, 0)
  else
    let (left, count) :=
      db.delete fun row => row.ownerParty = ownerParty && handleOf row = handle
    (left, min count (2 ^ 32 - 1))

def removeByApp := removeByTarget TriggerRow.appHandle

def removeByWorkflow := removeByTarget TriggerRow.workflowHandle

def fired (db : TriggersDb) (idempotencyKey : String) : Option (ByteVec 16) :=
  (db.triggerFires.find? (·.idempotencyKey = idempotencyKey)).map (·.instanceId)

/-- `INSERT OR IGNORE`: the run that is recorded under the key afterwards, and whether it was
there before. -/
def recordFire (db : TriggersDb) (fire : FireRow) : TriggersDb × ByteVec 16 × Bool :=
  if hkey : fire.idempotencyKey ∈ db.triggerFires.map (·.idempotencyKey) then
    (db, (db.fired fire.idempotencyKey).getD fire.instanceId, true)
  else
    ({ db with
        triggerFires := db.triggerFires ++ [{ fire with receivedUnixMs := ms fire.receivedUnixMs }]
        nodup_keys := by
          rw [map_append, nodup_append]
          refine ⟨db.nodup_keys, by simp, ?_⟩
          rintro key hmem other hother rfl
          simp only [map_cons, map_nil, mem_singleton] at hother
          subst hother
          exact hkey hmem },
      fire.instanceId, false)

def setLastFire (db : TriggersDb) (name : String) (now : Nat) : TriggersDb :=
  db.modify name (fun row => { row with lastFireUnixMs := ms now }) (fun _ => rfl) (fun _ => rfl)

def setNextFire (db : TriggersDb) (name : String) (next : Nat) : TriggersDb :=
  db.modify name (fun row => { row with nextFireUnixMs := ms next }) (fun _ => rfl) (fun _ => rfl)

/-- A row after one more failure; at the threshold, if there is one, it is switched off. -/
def failedOnce (reason : String) (max : Nat) (row : TriggerRow) : TriggerRow :=
  let count := row.consecutiveFailures + 1
  if 0 < max ∧ max ≤ count then
    { row with
      consecutiveFailures := count
      enabled := false
      disabledReason :=
        s!"auto-disabled after {count} consecutive fire failures; last: " ++
          String.ofList (reason.toList.take 240) }
  else { row with consecutiveFailures := count }

variable (reason : String) (max : Nat) (row : TriggerRow)

@[simp]
theorem failedOnce_name :
    (failedOnce reason max row).name = row.name := by
  unfold failedOnce
  dsimp only
  split <;> rfl

@[simp]
theorem failedOnce_triggerId :
    (failedOnce reason max row).triggerId = row.triggerId := by
  unfold failedOnce
  dsimp only
  split <;> rfl

def recordFireFailure (db : TriggersDb) (name reason : String) (max : Nat) : TriggersDb :=
  db.modify name (failedOnce reason max) (failedOnce_name reason max)
    (failedOnce_triggerId reason max)

def clearFireFailures (db : TriggersDb) (name : String) : TriggersDb :=
  db.modify name (fun row => { row with consecutiveFailures := 0, disabledReason := "" })
    (fun _ => rfl) (fun _ => rfl)

def dueCron (db : TriggersDb) (now : Nat) : List TriggerRow :=
  inKeyOrder (·.name)
    (db.triggers.filter fun row => row.kind = .cron && row.enabled && row.nextFireUnixMs ≤ ms now)

variable {db : TriggersDb} {row}

theorem eq_of_name_eq (hrow : row ∈ db.triggers)
    (hother : other ∈ db.triggers) (hname : row.name = other.name) : row = other :=
  inj_on_of_nodup_map db.nodup_names hrow hother hname

variable {name : String}

theorem mem_of_get (h : db.get name = some row) : row ∈ db.triggers ∧ row.name = name := by
  have hname := List.find?_some h
  exact ⟨mem_of_find?_eq_some h, by simpa using hname⟩

variable {change : TriggerRow → TriggerRow} {new : TriggerRow} {db' : TriggersDb} {key : String}

theorem mem_modify :
    row ∈ (db.modify name change hname hid).triggers ↔
      ∃ old ∈ db.triggers, row = if old.name = name then change old else old := by
  simp only [modify, mem_map, eq_comm]

/-- An update leaves a row alone that nothing of the updated name owns. -/
theorem mem_modify_of_name_ne (hne : row.name ≠ name) :
    row ∈ (db.modify name change hname hid).triggers ↔ row ∈ db.triggers := by
  rw [mem_modify]
  constructor
  · rintro ⟨old, hold, rfl⟩
    split at hne
    · rename_i hsame
      exact absurd ((hname old).trans hsame) hne
    rename_i hother
    rwa [if_neg hother]
  · intro hrow
    exact ⟨row, hrow, (if_neg hne).symm⟩

theorem mem_delete :
    row ∈ (db.delete which).1.triggers ↔ row ∈ db.triggers ∧ which row = false := by
  simp [delete]

theorem mem_list (hrow : row ∈ (db.list ownerParty limit afterName).1) :
    row ∈ db.triggers ∧ row.ownerParty = ownerParty := by
  have hmem := mem_filter.1 (mem_pageAfter hrow)
  exact ⟨hmem.1, by simpa using hmem.2⟩

theorem pageSize_pos (limit : UInt32) : 0 < pageSize limit := by
  unfold pageSize
  split
  · omega
  rename_i hne
  have hpos : 0 < limit.toNat := Nat.pos_of_ne_zero fun h => hne (UInt32.toNat_inj.1 h)
  omega

/-- A registration that succeeds leaves every row of another name as it was. -/
theorem mem_upsert_of_name_ne (h : db.upsert new hnamed = .ok db') (hne : row.name ≠ new.name) :
    row ∈ db'.triggers ↔ row ∈ db.triggers := by
  unfold upsert at h
  split_ifs at h
  · cases h
    exact mem_modify_of_name_ne hne
  cases h
  simp only [mem_append, mem_singleton, or_iff_left_iff_imp]
  rintro rfl
  exact absurd rfl hne

theorem owner_of_mem_upsert (h : db.upsert new hnamed = .ok db') (hrow : row ∈ db'.triggers)
    (hname : row.name = new.name) : row.ownerParty = new.ownerParty := by
  unfold upsert at h
  split_ifs at h with hheld
  · cases h
    obtain ⟨old, hold, rfl⟩ := mem_modify.1 hrow
    by_cases hsame : old.name = new.name
    · rw [if_pos hsame]
      rfl
    rw [if_neg hsame] at hname
    exact absurd hname hsame
  · cases h
    rcases mem_append.1 hrow with hold | hnew
    · exact absurd (mem_map.2 ⟨row, hold, hname⟩) hheld
    rw [mem_singleton.1 hnew]
    rfl

theorem mem_fires_of_fired (h : db.fired key = some instanceId) :
    ∃ fire ∈ db.triggerFires, fire.idempotencyKey = key ∧ fire.instanceId = instanceId := by
  obtain ⟨fire, hfound, hinstance⟩ := Option.map_eq_some_iff.1 h
  have hkey := List.find?_some hfound
  exact ⟨fire, mem_of_find?_eq_some hfound, by simpa using hkey, hinstance⟩

theorem fired_isSome_of_mem
    (h : key ∈ db.triggerFires.map (·.idempotencyKey)) : (db.fired key).isSome := by
  obtain ⟨fire, hfire, hkey⟩ := mem_map.1 h
  rw [fired, Option.isSome_map, List.find?_isSome]
  exact ⟨fire, hfire, by simpa using hkey⟩

end TriggersDb

end Kortecx.Trigger
