import Kortecx.Trigger.Submit

/-!
Which run an event is answered with. A run is recorded under a key and looked up by the key
alone, so everything hangs on two triggers never using the same key. The keys the code makes
itself are kept apart by the hash and by the form of a scheduled key; a key that a caller
sends can be any text.
-/

namespace Kortecx.Trigger

open Lib List TriggersDb

def KeyFrom (env : Env) (name key : String) : KeySource → Prop
  | .caller => True
  | .payload text => key = derivedKey env.blake3 (triggerIdOf env.blake3 name) text
  | .cron => ∃ nextFireUnixMs, key = cronKey name nextFireUnixMs

/-- The run an answer names was started by a submission with the same key: the answered one
itself, or another one if the answer says so. -/
def Backed (before : List Observation) : Observation → Prop
  | .answered id name key outcome =>
    (∃ source, .submitted id name source key ∈ before) ∧
    ∃ other otherName source,
      .submitted other otherName source key ∈ before ∧
      .started other otherName outcome.instanceId ∈ before ∧
      if outcome.deduped then other ≠ id else other = id ∧ otherName = name
  | _ => True

def Identified (env : Env) (db : TriggersDb) : Prop :=
  ∀ row ∈ db.triggers, row.triggerId = triggerIdOf env.blake3 row.name

structure Accounted (env : Env) (w : World) (seen : List Observation) : Prop where
  identified : Identified env w.db
  numbered : ∀ p ∈ w.pending, p.id < w.count
  distinct : (w.pending.map (·.id)).Nodup
  submitted : ∀ p ∈ w.pending, ∃ source, .submitted p.id p.name source p.key ∈ seen
  started : ∀ p ∈ w.pending, ∀ i, p.instanceId = some i → .started p.id p.name i ∈ seen
  fires : ∀ fire ∈ w.db.triggerFires, ∃ id name source,
    id < w.count ∧ (∀ p ∈ w.pending, p.id ≠ id) ∧
      .submitted id name source fire.idempotencyKey ∈ seen ∧
      .started id name fire.instanceId ∈ seen
  keys : ∀ id name source key, .submitted id name source key ∈ seen → KeyFrom env name key source
  backed : ¬ Occurs (fun before event => ¬ Backed before event) seen

variable {env : Env}

section Table

variable {db : TriggersDb}

theorem Identified.modify (h : Identified env db) {name : String} :
    Identified env (db.modify name change hname hid) := by
  intro row hrow
  obtain ⟨old, hold, rfl⟩ := mem_modify.1 hrow
  split
  · rw [hid, hname]
    exact h old hold
  · exact h old hold

theorem Identified.upsert (h : Identified env db) {row : TriggerRow} {hnamed : row.name ≠ ""}
    {db' : TriggersDb} (hid : row.triggerId = triggerIdOf env.blake3 row.name)
    (hupsert : db.upsert row hnamed = .ok db') : Identified env db' := by
  unfold TriggersDb.upsert at hupsert
  split_ifs at hupsert
  · cases hupsert
    exact h.modify
  cases hupsert
  intro found hfound
  rcases mem_append.1 hfound with hold | hnew
  · exact h found hold
  rw [mem_singleton.1 hnew]
  exact hid

theorem Identified.delete (h : Identified env db) (which : TriggerRow → Bool) :
    Identified env (db.delete which).1 :=
  fun row hrow => h row (mem_delete.1 hrow).1

theorem upsert_triggerFires
    (h : db.upsert row hnamed = .ok db') : db'.triggerFires = db.triggerFires := by
  unfold TriggersDb.upsert at h
  split_ifs at h <;> cases h <;> rfl

/-- A table of triggers that may follow another: its ids are still those of the names, and
the recorded runs are the same. -/
def Follows (env : Env) (db db' : TriggersDb) : Prop :=
  (Identified env db → Identified env db') ∧ db'.triggerFires = db.triggerFires

theorem Follows.refl (db : TriggersDb) : Follows env db db := ⟨id, rfl⟩

theorem Follows.trans (h : Follows env db db') (h' : Follows env db' db'') :
    Follows env db db'' :=
  ⟨fun hid => h'.1 (h.1 hid), h'.2.trans h.2⟩

theorem follows_modify {name : String} (hname : ∀ row, (change row).name = row.name)
    (hid : ∀ row, (change row).triggerId = row.triggerId) :
    Follows env db (db.modify name change hname hid) :=
  ⟨fun h => h.modify, rfl⟩

theorem follows_delete : Follows env db (db.delete which).1 :=
  ⟨fun h => h.delete which, rfl⟩

variable {party : String}

theorem follows_removeByTarget :
    Follows env db (TriggersDb.removeByTarget handleOf db party handle).1 := by
  unfold TriggersDb.removeByTarget
  split
  · exact Follows.refl db
  · exact follows_delete

theorem follows_deleteTarget :
    Follows env db
      (deleteTarget party db (TriggersDb.removeByTarget handleOf) handle removed).1 := by
  unfold deleteTarget
  split
  · exact Follows.refl db
  split
  · exact follows_removeByTarget
  · exact Follows.refl db

theorem follows_serve {admin : HostTriggerAdmin} {call : Call}
    (hblake3 : admin.blake3 = env.blake3) : Follows env db (serve admin party db call).1 := by
  cases call with
  | registerTrigger req now =>
    rcases registerTrigger_spec admin party db req now with
      hsame | ⟨new, hnamed, -, -, hid, hupsert⟩
    · simp only [serve, hsame]
      exact Follows.refl db
    rw [hblake3] at hid
    exact ⟨fun h => h.upsert hid hupsert, upsert_triggerFires hupsert⟩
  | listTriggers limit afterName => exact Follows.refl db
  | deregisterTrigger name =>
    simp only [serve, deregisterTrigger]
    split
    · exact Follows.refl db
    · exact follows_delete
  | deleteApp _ _ | deleteWorkflow _ _ => exact follows_deleteTarget

theorem follows_noteFailure :
    Follows env db (noteFailure env db scheduled error) := by
  cases scheduled with
  | none => exact Follows.refl db
  | some cfg =>
    exact follows_modify (failedOnce_name _ _) (failedOnce_triggerId _ _)

theorem follows_noteSuccess :
    Follows env db (noteSuccess db scheduled) := by
  cases scheduled with
  | none => exact Follows.refl db
  | some cfg =>
    simp only [noteSuccess]
    split
    · exact follows_modify _ _
    · exact Follows.refl db

end Table

variable {seen : List Observation}

section Steps

variable {w : World}

theorem not_occurs_concat
    (h : ¬ Occurs (fun before event => ¬ Backed before event) seen) (hevent : Backed seen event) :
    ¬ Occurs (fun before event => ¬ Backed before event) (seen ++ [event]) := by
  rw [occurs_concat]
  exact not_or.2 ⟨h, not_not.2 hevent⟩

theorem accounted_empty : Accounted env .empty [] where
  identified := by simp [Identified, World.empty, TriggersDb.empty]
  numbered := by simp [World.empty]
  distinct := by simp [World.empty]
  submitted := by simp [World.empty]
  started := by simp [World.empty]
  fires := by simp [World.empty, TriggersDb.empty]
  keys := by simp
  backed := occurs_nil

variable (h : Accounted env w seen)

include h

/-- The table of triggers and the ticker's list do not matter. -/
theorem Accounted.table (due : List TriggerRow) (hdb : Follows env w.db db) :
    Accounted env { w with db := db, due := due } seen where
  identified := hdb.1 h.identified
  numbered := h.numbered
  distinct := h.distinct
  submitted := h.submitted
  started := h.started
  fires := by
    rw [hdb.2]
    exact h.fires
  keys := h.keys
  backed := h.backed

/-- One more observation that is neither a submission nor an answer without backing. -/
theorem Accounted.observe (hkeys : ∀ id name source key, event = .submitted id name source key →
      KeyFrom env name key source) (hbacked : Backed seen event) :
    Accounted env w (seen ++ [event]) where
  identified := h.identified
  numbered := h.numbered
  distinct := h.distinct
  submitted p hp := by
    obtain ⟨source, hsource⟩ := h.submitted p hp
    exact ⟨source, mem_append_left _ hsource⟩
  started p hp i hi := mem_append_left _ (h.started p hp i hi)
  fires fire hfire := by
    obtain ⟨id, name, source, hlt, hdone, hsub, hstart⟩ := h.fires fire hfire
    exact ⟨id, name, source, hlt, hdone, mem_append_left _ hsub, mem_append_left _ hstart⟩
  keys id name source key hmem := by
    rcases mem_append.1 hmem with hold | hnew
    · exact h.keys id name source key hold
    · exact hkeys id name source key (mem_singleton.1 hnew).symm
  backed := not_occurs_concat h.backed hbacked

theorem Accounted.refused (name : String) (error : TriggerAdminError) :
    Accounted env w (seen ++ [.refused name error]) :=
  h.observe (by simp) trivial

/-- Submissions that are over are forgotten. -/
theorem Accounted.drop (id : Nat) :
    Accounted env { w with pending := w.pending.filter (·.id ≠ id) } seen where
  identified := h.identified
  numbered p hp := h.numbered p (mem_of_mem_filter hp)
  distinct := h.distinct.sublist (filter_sublist.map _)
  submitted p hp := h.submitted p (mem_of_mem_filter hp)
  started p hp := h.started p (mem_of_mem_filter hp)
  fires fire hfire := by
    obtain ⟨other, name, source, hlt, hdone, hsub, hstart⟩ := h.fires fire hfire
    exact ⟨other, name, source, hlt, fun p hp => hdone p (mem_of_mem_filter hp), hsub, hstart⟩
  keys := h.keys
  backed := h.backed

theorem Accounted.next :
    Accounted env { w with count := w.count + 1 } seen where
  identified := h.identified
  numbered p hp := Nat.lt_succ_of_lt (h.numbered p hp)
  distinct := h.distinct
  submitted := h.submitted
  started := h.started
  fires fire hfire := by
    obtain ⟨id, name, source, hlt, hrest⟩ := h.fires fire hfire
    exact ⟨id, name, source, Nat.lt_succ_of_lt hlt, hrest⟩
  keys := h.keys
  backed := h.backed

/-- A submission with a fresh number joins the ones under way. -/
theorem Accounted.join {p : Pending} (hid : p.id = w.count)
    (hstart : p.instanceId = none) (hsub : .submitted p.id p.name source p.key ∈ seen) :
    Accounted env { w with pending := w.pending ++ [p], count := w.count + 1 } seen where
  identified := h.identified
  numbered q hq := by
    rcases mem_append.1 hq with hold | hnew
    · exact Nat.lt_succ_of_lt (h.numbered q hold)
    rw [mem_singleton.1 hnew, hid]
    exact Nat.lt_succ_self _
  distinct := by
    rw [map_append, nodup_append]
    refine ⟨h.distinct, by simp, ?_⟩
    rintro id hmem other hother rfl
    obtain ⟨q, hq, hqid⟩ := mem_map.1 hmem
    have hlt := h.numbered q hq
    simp only [map_cons, map_nil, mem_singleton] at hother
    omega
  submitted q hq := by
    rcases mem_append.1 hq with hold | hnew
    · exact h.submitted q hold
    rw [mem_singleton.1 hnew]
    exact ⟨source, hsub⟩
  started q hq i hi := by
    rcases mem_append.1 hq with hold | hnew
    · exact h.started q hold i hi
    rw [mem_singleton.1 hnew, hstart] at hi
    cases hi
  fires fire hfire := by
    obtain ⟨id, name, src, hlt, hdone, hrest⟩ := h.fires fire hfire
    refine ⟨id, name, src, Nat.lt_succ_of_lt hlt, ?_, hrest⟩
    intro q hq
    rcases mem_append.1 hq with hold | hnew
    · exact hdone q hold
    rw [mem_singleton.1 hnew, hid]
    omega
  keys := h.keys
  backed := h.backed

variable {scheduled : Option TriggerRow}

omit h in
theorem keyFrom_submit {cfg : TriggerRow} {name : String}
    (hid : cfg.triggerId = triggerIdOf env.blake3 name) (hscheduled : scheduled.isSome →
      ∃ nextFireUnixMs, idempotencyKey = cronKey name nextFireUnixMs) :
    KeyFrom env name (keyOf env cfg.triggerId idempotencyKey payload)
      (keySource scheduled idempotencyKey payload) := by
  unfold keyOf keySource
  split
  · rw [hid]
    rfl
  split
  · rename_i hsome
    exact hscheduled hsome
  · trivial

theorem Accounted.submit {name : String}
    (hscheduled : scheduled.isSome → ∃ nextFireUnixMs, idempotencyKey = cronKey name nextFireUnixMs) :
    Accounted env (submit env w scheduled name idempotencyKey payload).1
      (seen ++ (submit env w scheduled name idempotencyKey payload).2) := by
  unfold Trigger.submit
  cases hget : w.db.get name with
  | none => exact (h.table w.due follows_noteFailure).refused name _
  | some cfg =>
    dsimp only
    split
    · exact (h.table w.due follows_noteFailure).refused name _
    obtain ⟨hmem, hname⟩ := mem_of_get hget
    have hid : cfg.triggerId = triggerIdOf env.blake3 name := by
      rw [← hname]
      exact h.identified cfg hmem
    set key := keyOf env cfg.triggerId idempotencyKey payload with hkey
    set source := keySource scheduled idempotencyKey payload with hsource
    have hfrom : KeyFrom env name key source := keyFrom_submit hid hscheduled
    have hseen : Accounted env w (seen ++ [.submitted w.count name source key]) := by
      refine h.observe ?_ trivial
      intro id name' source' key' heq
      cases heq
      exact hfrom
    have hmine : Observation.submitted w.count name source key ∈
        seen ++ [.submitted w.count name source key] := by simp
    cases hfired : w.db.fired key with
    | some prior =>
      obtain ⟨fire, hfire, hfireKey, hinstance⟩ := mem_fires_of_fired hfired
      obtain ⟨other, otherName, otherSource, hlt, _, hsub, hstart⟩ := h.fires fire hfire
      rw [hfireKey] at hsub
      rw [hinstance] at hstart
      have hback : Backed (seen ++ [.submitted w.count name source key])
          (.answered w.count name key ⟨prior, true⟩) := by
        refine ⟨⟨source, hmine⟩, other, otherName, otherSource,
          mem_append_left _ hsub, mem_append_left _ hstart, ?_⟩
        simp only [if_true]
        omega
      have hnoted : Follows env w.db (noteSuccess w.db scheduled) := follows_noteSuccess
      have hall := (hseen.observe (by simp) hback).next.table w.due hnoted
      rw [append_assoc] at hall
      exact hall
    | none => exact hseen.join rfl rfl hmine

theorem Accounted.start (hp : p ∈ w.pending) (instanceId : ByteVec 16) :
    Accounted env
      { w with
        pending := w.pending.map fun q =>
          if q.id = p.id then { q with instanceId := some instanceId } else q }
      (seen ++ [.started p.id p.name instanceId]) := by
  have hids : (w.pending.map fun q =>
      if q.id = p.id then { q with instanceId := some instanceId } else q).map (·.id) =
      w.pending.map (·.id) := by
    rw [map_map]
    apply map_congr_left
    intro q _
    simp only [Function.comp_apply]
    split <;> rfl
  have hseen : Accounted env w (seen ++ [.started p.id p.name instanceId]) :=
    h.observe (by simp) trivial
  refine ⟨h.identified, ?_, ?_, ?_, ?_, ?_, hseen.keys, hseen.backed⟩
  · intro q hq
    obtain ⟨old, hold, rfl⟩ := mem_map.1 hq
    have hlt := h.numbered old hold
    split <;> exact hlt
  · rw [hids]
    exact h.distinct
  · intro q hq
    obtain ⟨old, hold, rfl⟩ := mem_map.1 hq
    have hsub := hseen.submitted old hold
    split <;> exact hsub
  · intro q hq i hi
    obtain ⟨old, hold, rfl⟩ := mem_map.1 hq
    split at hi
    · rename_i hsame
      have hold' : old = p := inj_on_of_nodup_map h.distinct hold hp hsame
      rw [if_pos hsame, hold']
      cases hi
      simp
    · rename_i hother
      rw [if_neg hother]
      exact hseen.started old hold i hi
  · intro fire hfire
    obtain ⟨id, name, source, hlt, hdone, hrest⟩ := hseen.fires fire hfire
    refine ⟨id, name, source, hlt, ?_, hrest⟩
    intro q hq
    obtain ⟨old, hold, rfl⟩ := mem_map.1 hq
    have hne := hdone old hold
    split <;> exact hne

theorem Accounted.record (hp : p ∈ w.pending)
    (hstart : p.instanceId = some instanceId) (now : Nat) :
    Accounted env (record w p instanceId now).1 (seen ++ (record w p instanceId now).2) := by
  obtain ⟨source, hsub⟩ := h.submitted p hp
  have hstarted := h.started p hp instanceId hstart
  unfold Trigger.record TriggersDb.recordFire
  by_cases hkey : p.key ∈ w.db.triggerFires.map (·.idempotencyKey)
  · -- Another submission was faster: its run is the answer.
    rw [dif_pos hkey]
    obtain ⟨prior, hprior⟩ := Option.isSome_iff_exists.1 (fired_isSome_of_mem hkey)
    obtain ⟨fire, hfire, hfireKey, hinstance⟩ := mem_fires_of_fired hprior
    obtain ⟨other, otherName, otherSource, _, hdone, hotherSub, hotherStart⟩ := h.fires fire hfire
    rw [hfireKey] at hotherSub
    rw [hinstance] at hotherStart
    simp only [hprior, Option.getD_some, if_true]
    have hback : Backed seen (.answered p.id p.name p.key ⟨prior, true⟩) := by
      refine ⟨⟨source, hsub⟩, other, otherName, otherSource, hotherSub, hotherStart, ?_⟩
      exact (hdone p hp).symm
    exact ((h.drop p.id).table w.due ((follows_modify _ _).trans follows_noteSuccess)).observe
      (by simp) hback
  · rw [dif_neg hkey]
    have hback : Backed seen (.answered p.id p.name p.key ⟨instanceId, false⟩) :=
      ⟨⟨source, hsub⟩, p.id, p.name, source, hsub, hstarted, by simp⟩
    have hdropped := h.drop p.id
    set fired : TriggersDb := { w.db with
      triggerFires := w.db.triggerFires ++ [⟨p.key, p.triggerId, instanceId, ms now⟩]
      nodup_keys := _ } with hfired
    have hrecorded : Accounted env
        { w with db := fired, pending := w.pending.filter (·.id ≠ p.id) } seen := by
      refine ⟨h.identified, hdropped.numbered, hdropped.distinct, hdropped.submitted,
        hdropped.started, ?_, h.keys, h.backed⟩
      intro fire hfire
      rcases mem_append.1 hfire with hold | hnew
      · exact hdropped.fires fire hold
      rw [mem_singleton.1 hnew]
      refine ⟨p.id, p.name, source, h.numbered p hp, ?_, hsub, hstarted⟩
      intro q hq
      simpa using (mem_filter.1 hq).2
    exact (hrecorded.table w.due ((follows_modify _ _).trans follows_noteSuccess)).observe
      (by simp) hback

theorem accounted_step (input : Input) :
    Accounted env (step env w input).1 (seen ++ (step env w input).2) := by
  have hsame : Accounted env w (seen ++ []) := by rwa [append_nil]
  cases input with
  | call admin party call =>
    have hfollows : Follows env w.db
        (serve { admin with blake3 := env.blake3 } party w.db call).1 := follows_serve rfl
    simpa [step] using h.table w.due hfollows
  | submit name idempotencyKey payload =>
    simp only [step]
    split
    · exact h.refused name _
    · exact h.submit (by simp)
  | failed id error =>
    simp only [step]
    split
    · exact hsame
    rename_i p _
    exact ((h.drop id).table w.due follows_noteFailure).refused p.name error
  | started id instanceId =>
    simp only [step]
    split
    · exact hsame
    rename_i p hfind
    have hp : p ∈ w.pending := mem_of_find?_eq_some hfind
    have hid : p.id = id := by
      have hfound := List.find?_some hfind
      simp only [Bool.and_eq_true, decide_eq_true_eq] at hfound
      exact hfound.1
    subst hid
    exact h.start hp instanceId
  | recorded id now =>
    simp only [step]
    split
    · exact hsame
    rename_i p hfind
    have hp : p ∈ w.pending := mem_of_find?_eq_some hfind
    split
    · exact hsame
    rename_i instanceId hstart
    exact h.record hp hstart now
  | cronTick now =>
    simp only [step]
    split
    · simpa using h.table (w.db.dueCron now) (Follows.refl w.db)
    · exact hsame
  | cronFire admin now =>
    simp only [step]
    split
    · exact hsame
    rename_i cfg due _
    exact (h.table due (follows_modify _ _)).submit fun _ => ⟨cfg.nextFireUnixMs, rfl⟩

omit h in
theorem accounted_of_run (hrun : Run env w seen) : Accounted env w seen := by
  induction hrun with
  | start => exact accounted_empty
  | step _ input ih => exact accounted_step ih input

end Steps

variable {id : Nat}

section Keys

variable (name : String)

theorem cronKey_toList (nextFireUnixMs : Nat) :
    (cronKey name nextFireUnixMs).toList =
      "cron:".toList ++ (name.toList ++ ':' :: Nat.toDigits 10 nextFireUnixMs) := by
  have htext : cronKey name nextFireUnixMs =
      "cron:" ++ name ++ ":" ++ Nat.repr nextFireUnixMs := rfl
  have hdigits : (Nat.repr nextFireUnixMs).toList = Nat.toDigits 10 nextFireUnixMs := by
    simp [Nat.repr]
  simp [htext, String.toList_append, hdigits]

theorem colon_notMem_toDigits (n : Nat) : ':' ∉ Nat.toDigits 10 n := by
  intro hmem
  have hdigit := Nat.isDigit_of_mem_toDigits (by omega) le_rfl hmem
  revert hdigit
  decide

theorem name_eq_of_cronKey_eq {name : String}
    (h : cronKey name t = cronKey name' t') : name = name' := by
  have hlist := congrArg String.toList h
  rw [cronKey_toList, cronKey_toList] at hlist
  have hrest := append_cancel_left hlist
  have hnames := (append_cons_inj_of_notMem hrest (colon_notMem_toDigits t)
    (colon_notMem_toDigits t')).1
  exact String.toList_inj.1 hnames

theorem cronKey_ne_derivedKey :
    cronKey name t ≠ derivedKey blake3 triggerId payload := by
  intro heq
  have hmem : 'r' ∈ (cronKey name t).toList := by
    rw [cronKey_toList]
    apply mem_append_left
    decide
  rw [heq] at hmem
  exact notMem_toHex (by decide) hmem

def eventNames (seen : List Observation) : Set String :=
  { name | ∃ id source key, .submitted id name source key ∈ seen }

def eventPreimages (env : Env) (seen : List Observation) : Set (List UInt8) :=
  { bytes | ∃ id name text key, .submitted id name (.payload text) key ∈ seen ∧
    bytes = utf8Bytes "kx-trigger-evt\x00" ++ (triggerIdOf env.blake3 name).toList ++
      utf8Bytes text }

/-- No key a caller sent is the key of an event of another trigger. -/
def CallerKeysApart (seen : List Observation) : Prop :=
  ∀ id name source key id' name' source',
    .submitted id name source key ∈ seen → .submitted id' name' source' key ∈ seen →
    source = .caller ∨ source' = .caller → name = name'

theorem name_eq_of_derivedKey_eq (hids : Set.InjOn (triggerIdOf env.blake3) (eventNames seen))
    (hhash : Set.InjOn env.blake3 (eventPreimages env seen)) {name : String}
    (hmem : .submitted id name (.payload text) key ∈ seen)
    (hmem' : .submitted id' name' (.payload text') key' ∈ seen)
    (h : derivedKey env.blake3 (triggerIdOf env.blake3 name) text =
      derivedKey env.blake3 (triggerIdOf env.blake3 name') text') : name = name' := by
  have hdigest := ByteVec.ext (toHex_injective h)
  have hbytes :=
    hhash ⟨id, name, text, key, hmem, rfl⟩ ⟨id', name', text', key', hmem', rfl⟩ hdigest
  rw [append_assoc, append_assoc] at hbytes
  have htail := append_cancel_left hbytes
  have hid := (append_inj htail (by simp)).1
  exact hids ⟨id, _, key, hmem⟩ ⟨id', _, key', hmem'⟩ (ByteVec.ext hid)

/-- Two events with the same key are events of the same trigger. -/
theorem name_eq_of_key_eq (hids : Set.InjOn (triggerIdOf env.blake3) (eventNames seen))
    (hhash : Set.InjOn env.blake3 (eventPreimages env seen)) (hapart : CallerKeysApart seen)
    (hkeys : ∀ id name source key, .submitted id name source key ∈ seen →
      KeyFrom env name key source) {name : String} (hmem : .submitted id name source key ∈ seen)
    (hmem' : .submitted id' name' source' key ∈ seen) : name = name' := by
  have hfrom := hkeys _ _ _ _ hmem
  have hfrom' := hkeys _ _ _ _ hmem'
  cases source with
  | caller => exact hapart _ _ _ _ _ _ _ hmem hmem' (.inl rfl)
  | payload text =>
    cases source' with
    | caller => exact hapart _ _ _ _ _ _ _ hmem hmem' (.inr rfl)
    | payload text' =>
      exact name_eq_of_derivedKey_eq hids hhash hmem hmem' (hfrom.symm.trans hfrom')
    | cron =>
      obtain ⟨t, ht⟩ := hfrom'
      exact absurd (ht.symm.trans hfrom) (cronKey_ne_derivedKey _)
  | cron =>
    obtain ⟨t, ht⟩ := hfrom
    cases source' with
    | caller => exact hapart _ _ _ _ _ _ _ hmem hmem' (.inr rfl)
    | payload text' => exact absurd (ht.symm.trans hfrom') (cronKey_ne_derivedKey _)
    | cron =>
      obtain ⟨t', ht'⟩ := hfrom'
      exact name_eq_of_cronKey_eq (ht.symm.trans ht')

end Keys

/-- In every run in which no caller's key is the key of another trigger's event, an event is
answered as a duplicate only after another event with the same key was submitted to the same
trigger, and the run it is answered with was started by that trigger. -/
theorem dedup_own_of_callerKeysApart {env : Env} {w : World} {seen : List Observation}
    (hrun : Run env w seen) (hids : Set.InjOn (triggerIdOf env.blake3) (eventNames seen))
    (hhash : Set.InjOn env.blake3 (eventPreimages env seen)) (hapart : CallerKeysApart seen)
    {before after : List Observation} {id : Nat} {name key : String}
    {outcome : TriggerFireOutcome}
    (hsplit : seen = before ++ .answered id name key outcome :: after) :
    (outcome.deduped = true → ∃ other source, other ≠ id ∧
      .submitted other name source key ∈ before ∧
      .started other name outcome.instanceId ∈ before) ∧
    (outcome.deduped = false → .started id name outcome.instanceId ∈ before) := by
  have hacc := accounted_of_run hrun
  have hbacked : Backed before (.answered id name key outcome) := by
    by_contra hnot
    exact hacc.backed ⟨before, _, after, hsplit, hnot⟩
  have hsub : before ⊆ seen := by
    rw [hsplit]
    exact subset_append_left _ _
  obtain ⟨⟨source, hown⟩, other, otherName, otherSource, hother, hstart, hwhich⟩ := hbacked
  have hname : name = otherName :=
    name_eq_of_key_eq hids hhash hapart hacc.keys (hsub hown) (hsub hother)
  subst hname
  constructor
  · intro hdeduped
    rw [if_pos hdeduped] at hwhich
    exact ⟨other, otherSource, hwhich, hother, hstart⟩
  · intro hfresh
    rw [if_neg (by simp [hfresh])] at hwhich
    rw [← hwhich.1]
    exact hstart

def afterInputs (env : Env) (inputs : List Input) : World × List Observation :=
  inputs.foldl
    (fun reached input => ((step env reached.1 input).1, reached.2 ++ (step env reached.1 input).2))
    (.empty, [])

theorem run_afterInputs (env : Env) (inputs : List Input) :
    Run env (afterInputs env inputs).1 (afterInputs env inputs).2 := by
  induction inputs using List.reverseRecOn with
  | nil => exact Run.start
  | append_singleton inputs input ih =>
    simp only [afterInputs, foldl_append, foldl_cons, foldl_nil] at ih ⊢
    exact Run.step ih input

def sampleEnv : Env where
  blake3 := recipesOnly.blake3
  deadletterMax := 5

/-- `ops` registers the trigger `orders` and `dev` the trigger `alerts`; an event with the key
`evt-42` is sent to `orders` and starts a run. -/
def ordersFired : List Input :=
  [.call recipesOnly "ops" (.registerTrigger (webhookRequest "orders") 5),
    .call recipesOnly "dev" (.registerTrigger (webhookRequest "alerts") 6),
    .submit "orders" "evt-42" "", .started 0 (.replicate 16 7), .recorded 0 8]

def ordersSeen : List Observation :=
  [.submitted 0 "orders" .caller "evt-42", .started 0 "orders" (.replicate 16 7),
    .answered 0 "orders" "evt-42" ⟨.replicate 16 7, false⟩]

/-- What is seen when the event is sent once more, before it is answered. -/
def ordersSeenAgain : List Observation :=
  ordersSeen ++ [.submitted 1 "orders" .caller "evt-42"]

theorem submitted_mem_ordersSeenAgain {name : String} (hmem : .submitted id name source key ∈
      ordersSeenAgain ++ .answered 1 "orders" "evt-42" outcome :: []) :
    name = "orders" ∧ source = .caller := by
  simp only [ordersSeenAgain, ordersSeen, cons_append, nil_append, mem_cons,
    not_mem_nil, or_false, Observation.submitted.injEq, reduceCtorEq, false_or] at hmem
  rcases hmem with ⟨_, hname, hsource, _⟩ | ⟨_, hname, hsource, _⟩
  · exact ⟨hname, hsource⟩
  · exact ⟨hname, hsource⟩

theorem dedup_own_ordersTwice :
    (afterInputs sampleEnv (ordersFired ++ [.submit "orders" "evt-42" ""])).2 =
      ordersSeenAgain ++ [.answered 1 "orders" "evt-42" ⟨.replicate 16 7, true⟩] ∧
    ∃ other source, other ≠ 1 ∧
      .submitted other "orders" source "evt-42" ∈ ordersSeenAgain ∧
      .started other "orders" (.replicate 16 7) ∈ ordersSeenAgain := by
  have hseen : (afterInputs sampleEnv (ordersFired ++ [.submit "orders" "evt-42" ""])).2 =
      ordersSeenAgain ++ [.answered 1 "orders" "evt-42" ⟨.replicate 16 7, true⟩] := by
    decide +kernel
  have hrun := run_afterInputs sampleEnv (ordersFired ++ [.submit "orders" "evt-42" ""])
  rw [hseen] at hrun
  refine ⟨hseen, (dedup_own_of_callerKeysApart hrun ?_ ?_ ?_ rfl).1 rfl⟩
  · rintro name ⟨id, source, key, hmem⟩ name' ⟨id', source', key', hmem'⟩ _
    rw [(submitted_mem_ordersSeenAgain hmem).1, (submitted_mem_ordersSeenAgain hmem').1]
  · rintro bytes ⟨id, name, text, key, hmem, _⟩
    exact absurd (submitted_mem_ordersSeenAgain hmem).2 (by simp)
  · intro id name source key id' name' source' hmem hmem' _
    rw [(submitted_mem_ordersSeenAgain hmem).1, (submitted_mem_ordersSeenAgain hmem').1]

/-- The same key sent to `alerts` starts no run of `alerts`: the event is answered as a
duplicate, with the run of `orders`. -/
theorem dedup_across_triggers :
    (afterInputs sampleEnv (ordersFired ++ [.submit "alerts" "evt-42" ""])).2 =
      ordersSeen ++ [.submitted 1 "alerts" .caller "evt-42",
        .answered 1 "alerts" "evt-42" ⟨.replicate 16 7, true⟩] ∧
    ∀ id instanceId, .started id "alerts" instanceId ∉ ordersSeen := by
  constructor
  · decide +kernel
  · intro id instanceId
    simp [ordersSeen]

end Kortecx.Trigger
