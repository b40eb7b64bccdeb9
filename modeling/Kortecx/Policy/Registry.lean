import Kortecx.Lib.KeysetPaging
import Kortecx.Lib.Table
import Kortecx.Lib.Text
import Kortecx.Warrant.Spec

/-!
The registry of policy roles. A principal writes roles and assigns them to parties, each
under its own name; when a party runs something, the role that narrows it is looked up by
the party alone, and of several principals' assignments the first one in the order of the
principals counts.
-/

namespace Kortecx.Policy

open Lib List Warrant

/-- The stored list of tools; `none` is a text that does not parse. -/
abbrev ToolsJson := Option (List ToolGrant)

def toolsToJson (tools : List ToolGrant) : ToolsJson := some tools

/-- A list that cannot be read allows nothing. -/
def toolsFromJson (stored : ToolsJson) : List ToolGrant := stored.getD []

structure RoleRow where
  principal : String
  name : String
  description : String := ""
  toolsJson : ToolsJson
  createdUnixMs : Nat := 0
  updatedUnixMs : Nat := 0
deriving DecidableEq, Repr

structure AssignmentRow where
  principal : String
  party : String
  roleName : String
deriving DecidableEq, Repr

/-- The two tables with their primary keys. -/
structure PoliciesDb where
  roles : List RoleRow
  assignments : List AssignmentRow
  nodup_roles : (roles.map fun row => (row.principal, row.name)).Nodup
  nodup_assignments : (assignments.map fun row => (row.principal, row.party)).Nodup

structure PolicyRole where
  name : String
  description : String
  tools : List ToolGrant
deriving DecidableEq, Repr

inductive PolicyAdminError where
  | invalidArgument (detail : String)
  | notFound (detail : String)
deriving DecidableEq, Repr

/-- A timestamp as the column holds it: one that does not fit becomes 0. -/
def stamp (v : Nat) : Nat := if v < 2 ^ 63 then v else 0

namespace PoliciesDb

def empty : PoliciesDb where
  roles := []
  assignments := []
  nodup_roles := nodup_nil
  nodup_assignments := nodup_nil

def findRole (db : PoliciesDb) (principal name : String) : Option RoleRow :=
  db.roles.find? fun row => row.principal = principal && row.name = name

/-- The creation time of a role stays when the role is written again. -/
def put (db : PoliciesDb) (principal : String) (role : PolicyRole) (now : Nat) :
    PoliciesDb × Bool :=
  let change (row : RoleRow) : RoleRow :=
    if row.principal = principal ∧ row.name = role.name then
      { row with
        description := role.description
        toolsJson := toolsToJson role.tools
        updatedUnixMs := stamp now }
    else row
  if hheld : (principal, role.name) ∈ db.roles.map fun row => (row.principal, row.name) then
    ({ db with
        roles := db.roles.map change
        nodup_roles := Lib.Table.nodup_map_replace
          (fun row => by simp only [change]; split <;> rfl) db.nodup_roles }, false)
  else
    ({ db with
        roles := db.roles ++ [
          { principal, name := role.name, description := role.description
            toolsJson := toolsToJson role.tools
            createdUnixMs := stamp now, updatedUnixMs := stamp now }]
        nodup_roles := Lib.Table.nodup_append_singleton db.nodup_roles hheld }, true)

def delete (db : PoliciesDb) (principal name : String) : PoliciesDb × Bool :=
  ({ roles := db.roles.filter fun row => !(row.principal = principal && row.name = name)
     assignments := db.assignments.filter fun row =>
       !(row.principal = principal && row.roleName = name)
     nodup_roles := db.nodup_roles.sublist (filter_sublist.map _)
     nodup_assignments := db.nodup_assignments.sublist (filter_sublist.map _) },
    (db.findRole principal name).isSome)

def unassign (db : PoliciesDb) (principal party : String) : PoliciesDb :=
  { db with
    assignments := db.assignments.filter fun row =>
      !(row.principal = principal && row.party = party)
    nodup_assignments := db.nodup_assignments.sublist (filter_sublist.map _) }

/-- A role that does not exist is not assigned: the caller would believe an authority had
been reduced. -/
def assign (db : PoliciesDb) (principal party : String) :
    Option String → Except PolicyAdminError (PoliciesDb × Bool)
  | none => .ok (db.unassign principal party, false)
  | some name =>
    let change (row : AssignmentRow) : AssignmentRow :=
      if row.principal = principal ∧ row.party = party then { row with roleName := name }
      else row
    if (db.findRole principal name).isNone then .error (.notFound name)
    else if hheld : (principal, party) ∈
        db.assignments.map fun row => (row.principal, row.party) then
      .ok ({ db with
        assignments := db.assignments.map change
        nodup_assignments := Lib.Table.nodup_map_replace
          (fun row => by simp only [change]; split <;> rfl) db.nodup_assignments }, true)
    else
      .ok ({ db with
        assignments := db.assignments ++ [{ principal, party, roleName := name }]
        nodup_assignments := Lib.Table.nodup_append_singleton db.nodup_assignments hheld }, true)

def joined (db : PoliciesDb) (row : AssignmentRow) : Option (String × ToolsJson) :=
  (db.findRole row.principal row.roleName).map fun role => (row.principal, role.toolsJson)

def rolesOn (db : PoliciesDb) (party : String) : List (String × ToolsJson) :=
  (db.assignments.filter (·.party = party)).filterMap db.joined

/-- The role that counts for a party. -/
def inForce (db : PoliciesDb) (party : String) : Option (String × ToolsJson) :=
  (inKeyOrder Prod.fst (db.rolesOn party)).head?

def allowlistFor (db : PoliciesDb) (party : String) : Option (List ToolGrant) :=
  (db.inForce party).map fun role => toolsFromJson role.2

end PoliciesDb

/-- `valid_secret_name`: 1 to 255 characters of a small alphabet. -/
def validSecretName (name : String) : Bool :=
  let bytes := utf8Bytes name
  bytes ≠ [] && bytes.length ≤ 255 &&
    bytes.all fun b =>
      let c := Char.ofNat b.toNat
      b < 128 && (c.isAlphanum || c == '_' || c == '.' || c == '-')

def MAX_TOOL_DESCRIPTION_BYTES : Nat := 4 * 1024
def MAX_POLICY_ROLE_TOOLS : Nat := 256

inductive PolicyCall where
  | putPolicyRole (role : PolicyRole) (now : Nat)
  | deletePolicyRole (name : String)
  | assignPolicyRole (party name : String)
deriving DecidableEq, Repr

def checkRole (role : PolicyRole) : Except PolicyAdminError Unit := do
  if !validSecretName role.name then
    throw (.invalidArgument "role name must be 1..=255 chars of [A-Za-z0-9_.-]")
  if MAX_TOOL_DESCRIPTION_BYTES < (utf8Bytes role.description).length then
    throw (.invalidArgument "description exceeds the server cap (4 KiB)")
  if MAX_POLICY_ROLE_TOOLS < role.tools.length then
    throw (.invalidArgument "a role names at most 256 tools")
  if role.tools.any fun tool => isBlank tool.toolId || isBlank tool.toolVersion then
    throw (.invalidArgument "each tool needs both a tool_id and a tool_version")

/-- A call of a principal. The answer is whether a role was created, removed or assigned. -/
def serve (db : PoliciesDb) (principal : String) :
    PolicyCall → Except PolicyAdminError (PoliciesDb × Bool)
  | .putPolicyRole role now =>
    match checkRole role with
    | .error e => .error e
    | .ok () => .ok (db.put principal role now)
  | .deletePolicyRole name =>
    if isBlank name then .error (.invalidArgument "name is required")
    else .ok (db.delete principal name)
  | .assignPolicyRole party name =>
    if isBlank party then .error (.invalidArgument "party is required")
    else db.assign principal party (if isBlank name then none else some name)

def after (db : PoliciesDb) (principal : String) (call : PolicyCall) : PoliciesDb :=
  match serve db principal call with
  | .ok (db', _) => db'
  | .error _ => db

namespace PoliciesDb

variable {db : PoliciesDb} {principal party : String}

/-- A row other than the caller's, with the role it names in the caller's table changed. -/
theorem find?_map_of_ne {rows : List RoleRow}
    (hne : owner ≠ principal) (hkey : ∀ row, (change row).principal = row.principal)
    (hname : ∀ row, (change row).name = row.name)
    (hchange : ∀ row, row.principal ≠ principal → change row = row) :
    (rows.map change).find? (fun row => row.principal = owner && row.name = name) =
      rows.find? fun row => row.principal = owner && row.name = name := by
  induction rows with
  | nil => rfl
  | cons row rows ih =>
    simp only [map_cons, List.find?_cons, hkey, hname]
    by_cases hrow : row.principal = owner
    · rw [hchange row (hrow ▸ hne), ih]
    · simp [hrow, ih]

/-- Writing a role changes no other principal's roles. -/
theorem findRole_put (hne : owner ≠ principal) :
    (db.put principal role now).1.findRole owner name = db.findRole owner name := by
  unfold put findRole
  dsimp only
  split
  · apply find?_map_of_ne hne
    · intro row
      split <;> rfl
    · intro row
      split <;> rfl
    · intro row hrow
      rw [if_neg fun h => hrow h.1]
  · rw [List.find?_append]
    have hnone : List.find? (fun row : RoleRow => row.principal = owner && row.name = name)
        [{ principal, name := role.name, description := role.description
           toolsJson := toolsToJson role.tools
           createdUnixMs := stamp now, updatedUnixMs := stamp now }] = none := by
      simp [hne.symm]
    rw [hnone, Option.or_none]

theorem findRole_delete (hne : owner ≠ principal) :
    (db.delete principal removed).1.findRole owner name = db.findRole owner name := by
  unfold delete findRole
  rw [List.find?_filter]
  congr 1
  funext row
  by_cases howner : row.principal = owner
  · have hother : row.principal ≠ principal := howner ▸ hne
    simp [hother]
  · simp [howner]

/-- The roles on a party depend on the rows that name it and on the roles of the principals
that wrote them. -/
theorem rolesOn_congr {db' : PoliciesDb}
    (hrows : db'.assignments.filter (·.party = party) = db.assignments.filter (·.party = party))
    (hroles : ∀ row ∈ db.assignments, row.party = party →
      db'.findRole row.principal row.roleName = db.findRole row.principal row.roleName) :
    db'.rolesOn party = db.rolesOn party := by
  unfold rolesOn
  rw [hrows]
  apply filterMap_congr
  intro row hrow
  obtain ⟨hmem, hparty⟩ := mem_filter.1 hrow
  rw [joined, joined, hroles row hmem (by simpa using hparty)]

/-- Each principal has at most one role on a party. -/
theorem nodup_rolesOn (db : PoliciesDb) (party : String) :
    ((db.rolesOn party).map Prod.fst).Nodup := by
  have hrows : ((db.assignments.filter (·.party = party)).map (·.principal)).Nodup := by
    have hkeys : ((db.assignments.filter (·.party = party)).map
        fun row => (row.principal, row.party)).Nodup :=
      db.nodup_assignments.sublist (filter_sublist.map _)
    rw [List.Nodup, pairwise_map] at hkeys ⊢
    apply hkeys.imp_of_mem
    intro a b ha hb hne heq
    have hap : a.party = party := by simpa using (mem_filter.1 ha).2
    have hbp : b.party = party := by simpa using (mem_filter.1 hb).2
    exact hne (Prod.ext heq (hap.trans hbp.symm))
  rw [rolesOn, map_filterMap]
  have hsub : ((db.assignments.filter (·.party = party)).filterMap
      fun row => Option.map Prod.fst (db.joined row)).Sublist
      ((db.assignments.filter (·.party = party)).map (·.principal)) := by
    generalize db.assignments.filter (·.party = party) = rows
    induction rows with
    | nil => exact List.Sublist.slnil
    | cons row rows ih =>
      simp only [filterMap_cons, map_cons, joined]
      cases db.findRole row.principal row.roleName with
      | none => exact ih.cons _
      | some role => exact ih.cons_cons _
  exact hrows.sublist hsub

end PoliciesDb

end Kortecx.Policy
