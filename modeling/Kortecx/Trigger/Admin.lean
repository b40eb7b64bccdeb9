import Kortecx.Gateway.Seams
import Kortecx.Trigger.Store

/-!
Registering, listing and removing triggers. Every call is made by a party, and the rows it
registers are that party's; but a row is found by its name alone when it is registered
again, whoever owns it.
-/

namespace Kortecx.Trigger

open Lib Gateway List TriggersDb Warrant

inductive TriggerAdminError where
  | invalidArgument (detail : String)
  | notFound (detail : String)
  | notAuthorized
  | unsupported (detail : String)
  | storage (detail : String)
deriving DecidableEq, Repr

def TriggerAdminError.toText : TriggerAdminError → String
  | .invalidArgument detail => "invalid trigger: " ++ detail
  | .notFound detail => "no such trigger: " ++ detail
  | .notAuthorized => "not authorized"
  | .unsupported detail => "trigger unsupported: " ++ detail
  | .storage detail => "trigger store error: " ++ detail

structure TriggerRegistration where
  name : String
  kind : TriggerKind
  recipeHandle : String := ""
  appHandle : String := ""
  workflowHandle : String := ""
  auth : TriggerAuth := .none
  authSecretRef : String := ""
  scheduleSpec : String := ""
  timezone : String := ""
  enabled : Bool := true
  requireApproval : Bool := false
  ownerParty : String
deriving DecidableEq, Repr

def WORKFLOW_LIFECYCLE_DRAFT : String := "draft"

/-- What the host wires the administration of triggers to. A catalog answers, for a party and
a handle, the one field of the record that is looked at: the lifecycle of a workflow, the
kind of an App. -/
structure HostTriggerAdmin where
  blake3 : List UInt8 → ByteVec 32
  nextFire : String → String → Nat → Except String Nat
  appAuthor : Option AppAuthor
  appCatalog : Option (String → String → Except String (Option String))
  workflowRunner : Option AppAuthor
  workflowCatalog : Option (String → String → Except String (Option String))

namespace HostTriggerAdmin

/-- The checks on a workflow target: the seams are there and the caller's workflow is
saved and no draft. -/
def checkWorkflowTarget (admin : HostTriggerAdmin) (reg : TriggerRegistration) :
    Except TriggerAdminError Unit :=
  if admin.workflowRunner.isNone then
    .error (.unsupported ("workflow-target triggers require the workflow-run seam " ++
      "(build --features mcp-gateway with a connections.db)"))
  else
    match admin.workflowCatalog with
    | none => .error (.unsupported "workflow-target triggers require the workflow catalog")
    | some catalog =>
      match catalog reg.ownerParty (trim reg.workflowHandle) with
      | .ok (some lifecycle) =>
        if lifecycle = WORKFLOW_LIFECYCLE_DRAFT then
          .error (.invalidArgument
            "a draft workflow is not schedulable; finish or discard the draft first")
        else .ok ()
      | .ok none =>
        .error (.invalidArgument
          s!"workflow {(trim reg.workflowHandle).quote} is not in your catalog (save it first)")
      | .error e => .error (.storage e)

/-- The checks on an App target. A handle the catalog does not know passes: the fire path
refuses it. -/
def checkAppTarget (admin : HostTriggerAdmin) (reg : TriggerRegistration) :
    Except TriggerAdminError Unit :=
  if admin.appAuthor.isNone then
    .error (.unsupported ("App-target triggers require the App-run seam " ++
      "(build --features mcp-gateway with a connections.db)"))
  else
    let found : Option (Except String (Option String)) :=
      admin.appCatalog.map fun catalog => catalog reg.ownerParty (trim reg.appHandle)
    match found with
    | some (.ok (some "experience")) =>
      .error (.invalidArgument ("hosted (experience) apps are not schedulable; scheduling " ++
        "requires a functional app"))
    | _ => .ok ()

/-- Everything that is checked before a registration is written, and the time of the first
fire. -/
def validate (admin : HostTriggerAdmin) (reg : TriggerRegistration) (now : Nat) :
    Except TriggerAdminError Nat := do
  let isApp := !isBlank reg.appHandle
  let isRecipe := !isBlank reg.recipeHandle
  let isWorkflow := !isBlank reg.workflowHandle
  if isApp.toNat + isRecipe.toNat + isWorkflow.toNat ≠ 1 then
    throw (.invalidArgument
      "exactly one of recipe_handle | app_handle | workflow_handle is required")
  if isWorkflow then admin.checkWorkflowTarget reg
  if isApp then admin.checkAppTarget reg
  if (reg.auth = .hmacSha256 ∨ reg.auth = .bearer) ∧ reg.authSecretRef = "" then
    let auth := if reg.auth = .bearer then "bearer" else "hmac_sha256"
    throw (.invalidArgument
      s!"auth '{auth}' requires an auth_secret_ref (the SecretRef NAME of the verify key)")
  if reg.kind = .cron then
    match admin.nextFire reg.scheduleSpec reg.timezone now with
    | .ok next => return next
    | .error e => throw (.invalidArgument e)
  else return 0

def rowOf (admin : HostTriggerAdmin) (reg : TriggerRegistration) (now next : Nat) :
    TriggerRow where
  triggerId := triggerIdOf admin.blake3 reg.name
  name := reg.name
  kind := reg.kind
  recipeHandle := reg.recipeHandle
  appHandle := reg.appHandle
  argsTemplateJson := ""
  auth := reg.auth
  authSecretRef := reg.authSecretRef
  scheduleSpec := reg.scheduleSpec
  timezone := reg.timezone
  ownerParty := reg.ownerParty
  requireApproval := reg.requireApproval
  enabled := reg.enabled
  nextFireUnixMs := next
  createdUnixMs := now
  lastFireUnixMs := 0
  workflowHandle := reg.workflowHandle
  consecutiveFailures := 0
  disabledReason := ""

def register (admin : HostTriggerAdmin) (db : TriggersDb) (reg : TriggerRegistration)
    (hnamed : reg.name ≠ "") (now : Nat) : Except TriggerAdminError (ByteVec 16 × TriggersDb) :=
  match admin.validate reg now with
  | .error e => .error e
  | .ok next =>
    match db.upsert (admin.rowOf reg now next) hnamed with
    | .error e => .error (.storage e)
    | .ok db' => .ok (triggerIdOf admin.blake3 reg.name, db')

end HostTriggerAdmin

/-- What a listing shows of a row. -/
structure TriggerView where
  triggerId : ByteVec 16
  name : String
  kind : TriggerKind
  recipeHandle : String
  appHandle : String
  auth : TriggerAuth
  authSecretPresent : Bool
  scheduleSpec : String
  timezone : String
  enabled : Bool
  requireApproval : Bool
  lastFireUnixMs : Nat
  workflowHandle : String
  disabledReason : String
  consecutiveFailures : Nat
deriving DecidableEq, Repr

def TriggerRow.view (row : TriggerRow) : TriggerView where
  triggerId := row.triggerId
  name := row.name
  kind := row.kind
  recipeHandle := row.recipeHandle
  appHandle := row.appHandle
  auth := row.auth
  authSecretPresent := row.authSecretRef ≠ ""
  scheduleSpec := row.scheduleSpec
  timezone := row.timezone
  enabled := row.enabled
  requireApproval := row.requireApproval
  lastFireUnixMs := row.lastFireUnixMs
  workflowHandle := row.workflowHandle
  disabledReason := row.disabledReason
  consecutiveFailures := row.consecutiveFailures

/-- The request to register; the kind and the auth are absent when the number sent is none
of the known ones. -/
structure RegisterTriggerRequest where
  name : String
  kind : Option TriggerKind
  recipeHandle : String := ""
  appHandle : String := ""
  workflowHandle : String := ""
  auth : Option TriggerAuth
  authSecretRef : String := ""
  scheduleSpec : String := ""
  timezone : String := ""
  enabled : Bool := true
  requireApproval : Bool := false
deriving DecidableEq, Repr

/-- The calls of a party that touch the table of triggers. Deleting an App or a workflow
cascades to its triggers only if the catalog did remove a row of the caller's. -/
inductive Call where
  | registerTrigger (req : RegisterTriggerRequest) (now : Nat)
  | listTriggers (limit : UInt32) (afterName : String)
  | deregisterTrigger (name : String)
  | deleteApp (handle : String) (removed : Bool)
  | deleteWorkflow (handle : String) (removed : Bool)
deriving DecidableEq, Repr

inductive Answer where
  | registered (triggerId : ByteVec 16)
  | listed (triggers : List TriggerView) (hasMore : Bool)
  | deregistered (removed : Bool)
  | deleted (triggersRemoved : Nat)
  | refused (error : TriggerAdminError)
deriving DecidableEq, Repr

section Handlers

variable (admin : HostTriggerAdmin) (party : String) (db : TriggersDb)

def registerTrigger (req : RegisterTriggerRequest) (now : Nat) : TriggersDb × Answer :=
  if hblank : isBlank req.name = true then
    (db, .refused (.invalidArgument "name is required"))
  else
    match req.kind, req.auth with
    | none, _ => (db, .refused (.invalidArgument "kind must be WEBHOOK, CRON, or GRPC"))
    | some _, none =>
      (db, .refused (.invalidArgument "auth must be NONE, HMAC_SHA256, or BEARER"))
    | some kind, some auth =>
      let reg : TriggerRegistration :=
        { name := req.name
          kind := kind
          recipeHandle := req.recipeHandle
          appHandle := req.appHandle
          workflowHandle := req.workflowHandle
          auth := auth
          authSecretRef := req.authSecretRef
          scheduleSpec := req.scheduleSpec
          timezone := req.timezone
          enabled := req.enabled
          requireApproval := req.requireApproval
          ownerParty := party }
      match admin.register db reg (ne_empty_of_not_isBlank hblank) now with
      | .ok (triggerId, db') => (db', .registered triggerId)
      | .error e => (db, .refused e)

/-- The page as the caller sees it. -/
def listTriggers (limit : UInt32) (afterName : String) : List TriggerView × Bool :=
  let page := db.list party limit afterName
  (page.1.map TriggerRow.view, page.2)

def deregisterTrigger (name : String) : TriggersDb × Answer :=
  if isBlank name then (db, .refused (.invalidArgument "name is required"))
  else
    let (db', removed) := db.remove party name
    (db', .deregistered removed)

/-- One definition for the two deletions: `cascade` is the removal of the triggers of that
kind of target. -/
def deleteTarget (cascade : TriggersDb → String → String → TriggersDb × Nat) (handle : String)
    (removed : Bool) : TriggersDb × Answer :=
  if isBlank handle then (db, .refused (.invalidArgument "handle is required"))
  else if removed then
    let (db', count) := cascade db party handle
    (db', .deleted count)
  else (db, .deleted 0)

def serve : Call → TriggersDb × Answer
  | .registerTrigger req now => registerTrigger admin party db req now
  | .listTriggers limit afterName =>
    let page := listTriggers party db limit afterName
    (db, .listed page.1 page.2)
  | .deregisterTrigger name => deregisterTrigger party db name
  | .deleteApp handle removed => deleteTarget party db TriggersDb.removeByApp handle removed
  | .deleteWorkflow handle removed =>
    deleteTarget party db TriggersDb.removeByWorkflow handle removed

end Handlers

def after (admin : HostTriggerAdmin) (party : String) : TriggersDb → List Call → TriggersDb
  | db, [] => db
  | db, call :: calls => after admin party (serve admin party db call).1 calls

def answers (admin : HostTriggerAdmin) (party : String) :
    TriggersDb → List Call → List (TriggersDb × Answer)
  | _, [] => []
  | db, call :: calls =>
    (db, (serve admin party db call).2) ::
      answers admin party (serve admin party db call).1 calls

def RegistersOwnNames (admin : HostTriggerAdmin) (party : String) :
    TriggersDb → List Call → Prop
  | _, [] => True
  | db, call :: calls =>
    (∀ req now, call = .registerTrigger req now →
      ∀ row ∈ db.triggers, row.name = req.name → row.ownerParty = party) ∧
    RegistersOwnNames admin party (serve admin party db call).1 calls

section Frame

variable {admin : HostTriggerAdmin} {party : String} {db db' : TriggersDb} {row : TriggerRow}

theorem register_ok (h : admin.register db reg hnamed now = .ok (triggerId, db')) :
    ∃ next, db.upsert (admin.rowOf reg now next) hnamed = .ok db' := by
  unfold HostTriggerAdmin.register at h
  split at h
  · cases h
  rename_i next _
  split at h
  · cases h
  rename_i hupsert
  cases h
  exact ⟨next, hupsert⟩

/-- Registering changes rows of the name registered only, under the id of that name, and leaves
those to the caller. -/
theorem registerTrigger_spec (admin : HostTriggerAdmin) (party : String) (db : TriggersDb)
    (req : RegisterTriggerRequest) (now : Nat) :
    (registerTrigger admin party db req now).1 = db ∨
      ∃ new : TriggerRow, ∃ hnamed, new.name = req.name ∧ new.ownerParty = party ∧
        new.triggerId = triggerIdOf admin.blake3 new.name ∧
        db.upsert new hnamed = .ok (registerTrigger admin party db req now).1 := by
  unfold registerTrigger
  split
  · exact .inl rfl
  rename_i hblank
  split
  · exact .inl rfl
  · exact .inl rfl
  dsimp only
  split
  · rename_i hregister
    obtain ⟨next, hupsert⟩ := register_ok hregister
    exact .inr ⟨_, ne_empty_of_not_isBlank hblank, rfl, rfl, rfl, hupsert⟩
  · exact .inl rfl

variable {handleOf : TriggerRow → String} {handle : String} {call : Call} {calls : List Call}
  {views : List TriggerView} {more : Bool} {view : TriggerView}

section Others

variable (hne : row.ownerParty ≠ party)

include hne

theorem mem_delete_of_owner_ne (hwhich : ∀ row, which row = true → row.ownerParty = party) :
    row ∈ (db.delete which).1.triggers ↔ row ∈ db.triggers := by
  rw [mem_delete, and_iff_left_iff_imp]
  intro _
  by_contra hdeleted
  exact hne (hwhich row (by simpa using hdeleted))

theorem mem_remove_of_owner_ne :
    row ∈ (db.remove party name).1.triggers ↔ row ∈ db.triggers := by
  apply mem_delete_of_owner_ne hne
  intro row hrow
  simp only [Bool.and_eq_true, decide_eq_true_eq] at hrow
  exact hrow.1

theorem mem_removeByTarget_of_owner_ne :
    row ∈ (TriggersDb.removeByTarget handleOf db party handle).1.triggers ↔
      row ∈ db.triggers := by
  unfold TriggersDb.removeByTarget
  split
  · rfl
  apply mem_delete_of_owner_ne hne
  intro row hrow
  simp only [Bool.and_eq_true, decide_eq_true_eq] at hrow
  exact hrow.1

theorem mem_deleteTarget_of_owner_ne :
    row ∈ (deleteTarget party db (TriggersDb.removeByTarget handleOf) handle removed).1.triggers ↔
      row ∈ db.triggers := by
  unfold deleteTarget
  split
  · rfl
  split
  · exact mem_removeByTarget_of_owner_ne hne
  · rfl

/-- One call of a party leaves the rows of the others as they were, if it registers no name
of theirs. -/
theorem mem_serve_of_owner_ne (hown : ∀ req now, call = .registerTrigger req now →
      ∀ row ∈ db.triggers, row.name = req.name → row.ownerParty = party) :
    row ∈ (serve admin party db call).1.triggers ↔ row ∈ db.triggers := by
  cases call with
  | registerTrigger req now =>
    rcases registerTrigger_spec admin party db req now with
      hsame | ⟨new, hnamed, hname, howner, -, hupsert⟩
    · simp only [serve, hsame]
    by_cases hrow : row.name = new.name
    · constructor
      · intro hmem
        have := owner_of_mem_upsert hupsert hmem hrow
        exact absurd (this.trans howner) hne
      · intro hmem
        exact absurd (hown req now rfl row hmem (hrow.trans hname)) hne
    · exact mem_upsert_of_name_ne hupsert hrow
  | listTriggers limit afterName => exact Iff.rfl
  | deregisterTrigger name =>
    simp only [serve, deregisterTrigger]
    split
    · rfl
    · exact mem_remove_of_owner_ne hne
  | deleteApp _ _ | deleteWorkflow _ _ => exact mem_deleteTarget_of_owner_ne hne

theorem mem_after_of_owner_ne (hown : RegistersOwnNames admin party db calls) :
    row ∈ (after admin party db calls).triggers ↔ row ∈ db.triggers := by
  induction calls generalizing db with
  | nil => exact Iff.rfl
  | cons call calls ih =>
    rw [after, ih hown.2]
    exact mem_serve_of_owner_ne hne hown.1

end Others

theorem listed_of_serve (h : (serve admin party db call).2 = .listed views more) :
    ∃ limit afterName, listTriggers party db limit afterName = (views, more) := by
  cases call with
  | registerTrigger req now =>
    simp only [serve, registerTrigger] at h
    split at h
    · cases h
    split at h
    · cases h
    · cases h
    · split at h <;> cases h
  | listTriggers limit afterName =>
    cases h
    exact ⟨limit, afterName, rfl⟩
  | deregisterTrigger name =>
    simp only [serve, deregisterTrigger] at h
    split at h <;> cases h
  | deleteApp _ _ | deleteWorkflow _ _ =>
    simp only [serve, deleteTarget] at h
    split_ifs at h

/-- A page shows rows of the caller only. -/
theorem mem_listTriggers (hview : view ∈ (listTriggers party db limit afterName).1) :
    ∃ row ∈ db.triggers, row.ownerParty = party ∧ row.view = view := by
  obtain ⟨row, hrow, rfl⟩ := mem_map.1 hview
  obtain ⟨hmem, howner⟩ := mem_list hrow
  exact ⟨row, hmem, howner, rfl⟩

theorem mem_answers_listed (hanswer : (db', .listed views more) ∈ answers admin party db calls)
    (hview : view ∈ views) : ∃ row ∈ db'.triggers, row.ownerParty = party ∧ row.view = view := by
  induction calls generalizing db with
  | nil => simp [answers] at hanswer
  | cons call calls ih =>
    rcases mem_cons.1 hanswer with heq | hlater
    · rw [Prod.mk.injEq] at heq
      obtain ⟨rfl, hlisted⟩ := heq
      obtain ⟨limit, afterName, hpage⟩ := listed_of_serve hlisted.symm
      apply mem_listTriggers
      rw [hpage]
      exact hview
    · exact ih hlater

/-- Going through the pages of a party's list shows each of its triggers once, by name. -/
theorem flatten_listTriggers {db : TriggersDb} (party : String) (limit : UInt32)
    (hfuel : db.triggers.length < fuel) :
    (pagesFrom TriggerView.name (listTriggers party db limit) fuel "").flatten =
      (inKeyOrder TriggerRow.name (db.triggers.filter (·.ownerParty = party))).map
        TriggerRow.view := by
  set own := db.triggers.filter (·.ownerParty = party) with hown
  have hkeys : (own.map TriggerRow.name).Nodup :=
    db.nodup_names.sublist (filter_sublist.map _)
  have hlength : own.length < fuel := lt_of_le_of_lt (length_filter_le _ _) hfuel
  have hrows : (pagesFrom TriggerRow.name (db.list party limit) fuel "").flatten = _ :=
    flatten_pagesFrom hkeys (pageSize_pos limit) hlength
  have hviews : pagesFrom TriggerView.name (listTriggers party db limit) fuel "" = _ :=
    pagesFrom_map TriggerRow.view TriggerView.name (fun _ => rfl) (db.list party limit) fuel ""
  have hall : ((inKeyOrder TriggerRow.name own).filter fun row => "" < row.name) =
      inKeyOrder TriggerRow.name own := by
    rw [filter_eq_self]
    intro row hrow
    have hmem : row ∈ db.triggers := mem_of_mem_filter (mem_inKeyOrder.1 hrow)
    exact decide_eq_true (empty_lt (db.named row hmem))
  calc (pagesFrom TriggerView.name (listTriggers party db limit) fuel "").flatten
      = ((pagesFrom TriggerRow.name (db.list party limit) fuel "").map
          (List.map TriggerRow.view)).flatten := congrArg List.flatten hviews
    _ = (pagesFrom TriggerRow.name (db.list party limit) fuel "").flatten.map
          TriggerRow.view := by rw [map_flatten]
    _ = ((inKeyOrder TriggerRow.name own).filter fun row => "" < row.name).map
          TriggerRow.view := congrArg (List.map TriggerRow.view) hrows
    _ = _ := by rw [hall]

end Frame

/-- A party that registers no name of another's leaves the others' triggers as they are, is
shown none of them, and finds its own ones on its pages, each once and by name. -/
theorem triggers_private_of_registersOwnNames (admin : HostTriggerAdmin) (party : String)
    (db : TriggersDb) (calls : List Call) (hown : RegistersOwnNames admin party db calls) :
    (∀ row : TriggerRow, row.ownerParty ≠ party →
      (row ∈ (after admin party db calls).triggers ↔ row ∈ db.triggers)) ∧
    (∀ seen views more, (seen, Answer.listed views more) ∈ answers admin party db calls →
      ∀ view ∈ views, ∃ row ∈ seen.triggers, row.ownerParty = party ∧ row.view = view ∧
        ∀ other ∈ seen.triggers, other.name = view.name → other = row) ∧
    (∀ limit fuel, (after admin party db calls).triggers.length < fuel →
      ∃ own : List TriggerRow,
        own.Perm ((after admin party db calls).triggers.filter (·.ownerParty = party)) ∧
        own.Pairwise (fun a b => a.name < b.name) ∧
        (pagesFrom TriggerView.name (listTriggers party (after admin party db calls) limit) fuel
          "").flatten = own.map TriggerRow.view) := by
  refine ⟨?_, ?_, ?_⟩
  · intro row hne
    exact mem_after_of_owner_ne hne hown
  · intro seen views more hanswer view hview
    obtain ⟨row, hrow, howner, rfl⟩ := mem_answers_listed hanswer hview
    exact ⟨row, hrow, howner, rfl, fun other hother hname =>
      eq_of_name_eq hother hrow hname⟩
  · intro limit fuel hfuel
    have hkeys := (after admin party db calls).nodup_names
    refine ⟨_, inKeyOrder_perm _, pairwise_inKeyOrder ?_, flatten_listTriggers party limit hfuel⟩
    exact hkeys.sublist (filter_sublist.map _)

def recipesOnly : HostTriggerAdmin where
  blake3 bytes := ByteVec.ofNat 32 (bytes.foldl (fun n b => 257 * n + b.toNat + 1) 0)
  nextFire _ _ now := .ok (now + 60000)
  appAuthor := none
  appCatalog := none
  workflowRunner := none
  workflowCatalog := none

def webhookRequest (name : String) : RegisterTriggerRequest where
  name := name
  kind := some .webhook
  recipeHandle := "kx/recipes/chat"
  auth := some .none

/-- The table after the party `ops` has registered the trigger `deploy`. -/
def opsTable : TriggersDb :=
  after recipesOnly "ops" .empty [.registerTrigger (webhookRequest "deploy") 5]

theorem triggers_private_devBesideOps :
    RegistersOwnNames recipesOnly "dev" opsTable
      [.registerTrigger (webhookRequest "nightly") 7, .listTriggers 1 "",
        .deregisterTrigger "deploy"] ∧
    ∀ row : TriggerRow, row.ownerParty ≠ "dev" →
      (row ∈ (after recipesOnly "dev" opsTable
        [.registerTrigger (webhookRequest "nightly") 7, .listTriggers 1 "",
          .deregisterTrigger "deploy"]).triggers ↔ row ∈ opsTable.triggers) := by
  have hown : RegistersOwnNames recipesOnly "dev" opsTable
      [.registerTrigger (webhookRequest "nightly") 7, .listTriggers 1 "",
        .deregisterTrigger "deploy"] := by
    refine ⟨?_, ?_, ?_, trivial⟩
    · rintro req now hcall row hrow hname
      cases hcall
      have hall : ∀ row ∈ opsTable.triggers, row.name ≠ "nightly" := by decide +kernel
      exact absurd hname (hall row hrow)
    · intro req now hcall
      cases hcall
    · intro req now hcall
      cases hcall
  exact ⟨hown, (triggers_private_of_registersOwnNames recipesOnly "dev" opsTable _ hown).1⟩

/-- `dev` registers the name `deploy`, and the trigger of `ops` is gone: the row is now one of
`dev`. -/
theorem foreign_trigger_taken_over :
    (∃ row ∈ opsTable.triggers, row.name = "deploy" ∧ row.ownerParty = "ops") ∧
    (∃ row ∈ (after recipesOnly "dev" opsTable
      [.registerTrigger (webhookRequest "deploy") 9]).triggers,
        row.name = "deploy" ∧ row.ownerParty = "dev") ∧
    ∀ row ∈ (after recipesOnly "dev" opsTable
      [.registerTrigger (webhookRequest "deploy") 9]).triggers, row.ownerParty ≠ "ops" := by
  decide +kernel

end Kortecx.Trigger
