import Kortecx.Gateway.Seams
import Kortecx.Policy.Registry

/-!
The tools a party can be given: what its grants allow, what the policy role on it allows,
what the serve can fire and what the registry knows, all at once. Every leg can only take
tools away. A role that takes the place of another one on the party is a different matter:
it need not be narrower.
-/

namespace Kortecx.Policy

open Lib Gateway Warrant List PoliciesDb

abbrev ToolRegistry := ToolGrant → Option ToolRequirement

/-- What the ceiling is computed from, besides the policies. `useOf` is the warrant the grant
ledger resolves for a party on the authoring asset; the tools the serve can fire are a set in
the source, listed here in its order. -/
structure ToolHost where
  useOf : String → Option WarrantSpec
  registeredGrants : List ToolGrant
  tools : ToolRegistry

/-- The tools the grants of a party name; a party whose warrant names none is not narrowed by
this leg. -/
def partyToolAuthority (host : ToolHost) (party : String) :
    Except BinderError (Option (Finset ToolGrant)) :=
  match host.useOf party with
  | none => .error .notAuthorized
  | some effective =>
    if effective.toolGrants.isEmpty then .ok none
    else .ok (some effective.toolGrants.toList.toFinset)

def narrowAuthority :
    Option (Finset ToolGrant) → Option (Finset ToolGrant) → Option (Finset ToolGrant)
  | some x, some y => some (x ∩ y)
  | some x, none => some x
  | none, some y => some y
  | none, none => none

def Permits (leg : Option (Finset ToolGrant)) (tool : ToolGrant) : Prop :=
  ∀ allowed, leg = some allowed → tool ∈ allowed

instance decidablePermits (leg : Option (Finset ToolGrant)) (tool : ToolGrant) :
    Decidable (Permits leg tool) :=
  match leg with
  | none => isTrue fun _ h => nomatch h
  | some allowed =>
    decidable_of_iff (tool ∈ allowed) ⟨fun h _ heq => Option.some.inj heq ▸ h, fun h => h _ rfl⟩

variable {tool : ToolGrant}

theorem permits_narrowAuthority :
    Permits (narrowAuthority a b) tool ↔ Permits a tool ∧ Permits b tool := by
  cases a <;> cases b <;> simp [narrowAuthority, Permits]

def policyLeg (policy : Option PoliciesDb) (party : String) : Option (Finset ToolGrant) :=
  policy.bind fun db => (db.allowlistFor party).map List.toFinset

def principalToolCeiling (host : ToolHost) (policy : Option PoliciesDb) (party : String) :
    Except BinderError (List ToolGrant) :=
  match partyToolAuthority host party with
  | .error e => .error e
  | .ok authority =>
    .ok (host.registeredGrants.filter fun tool =>
      (host.tools tool).isSome ∧
        Permits (narrowAuthority authority (policyLeg policy party)) tool)

theorem mem_ceiling (h : principalToolCeiling host policy party = .ok ceiling) :
    tool ∈ ceiling ↔ ∃ authority, partyToolAuthority host party = .ok authority ∧
      Permits authority tool ∧ Permits (policyLeg policy party) tool ∧
      tool ∈ host.registeredGrants ∧ (host.tools tool).isSome := by
  unfold principalToolCeiling at h
  split at h
  · cases h
  rename_i authority hauthority
  cases h
  rw [mem_filter, decide_eq_true_eq, permits_narrowAuthority]
  constructor
  · rintro ⟨hregistered, hknown, hgrants, hpolicy⟩
    exact ⟨authority, hauthority, hgrants, hpolicy, hregistered, hknown⟩
  · rintro ⟨other, heq, hgrants, hpolicy, hregistered, hknown⟩
    obtain rfl : authority = other := Except.ok.inj (hauthority.symm.trans heq)
    exact ⟨hregistered, hknown, hgrants, hpolicy⟩

/-- The policies take tools out of the ceiling without them. -/
theorem exists_unruled (h : principalToolCeiling host policy party = .ok ceiling) :
    ∃ unruled, principalToolCeiling host none party = .ok unruled ∧
      ∀ tool, tool ∈ ceiling ↔ tool ∈ unruled ∧ Permits (policyLeg policy party) tool := by
  unfold principalToolCeiling at h ⊢
  split at h
  · cases h
  cases h
  refine ⟨_, rfl, fun tool => ?_⟩
  simp only [mem_filter, decide_eq_true_eq, permits_narrowAuthority]
  simp [policyLeg, Permits, and_assoc]

/-- The call assigns a role to the party that the caller has written. -/
def Assigns (db : PoliciesDb) (principal party : String) (call : PolicyCall) (role : RoleRow) :
    Prop :=
  ∃ name, call = .assignPolicyRole party name ∧ isBlank party = false ∧ isBlank name = false ∧
    db.findRole principal name = some role

theorem Assigns.unique (hrole : Assigns db principal party call role)
    (hrole' : Assigns db principal party call role') : role = role' := by
  obtain ⟨name, rfl, -, -, hfound⟩ := hrole
  obtain ⟨_, ⟨⟩, -, -, hfound'⟩ := hrole'
  exact Option.some.inj (hfound.symm.trans hfound')

/-- The call puts a role of the caller in the place of one that is in force on the party, and
it has a tool that the other one has not and nothing else keeps from the party. -/
def Widens (host : ToolHost) (db : PoliciesDb) (principal party : String) (call : PolicyCall) :
    Prop :=
  ∃ role held unruled, Assigns db principal party call role ∧ db.inForce party = some held ∧
    principal < held.1 ∧ principalToolCeiling host none party = .ok unruled ∧
    ∃ tool ∈ unruled, tool ∈ toolsFromJson role.toolsJson ∧ tool ∉ toolsFromJson held.2

section Frame

variable {db : PoliciesDb} {principal party : String}
  (hother : ∀ row ∈ db.assignments, row.party = party → row.principal ≠ principal)

include hother

theorem filter_party_of_principal_ne {which : AssignmentRow → Bool}
    (hwhich : ∀ row, which row = true → row.principal = principal) :
    (db.assignments.filter fun row => !which row).filter (·.party = party) =
      db.assignments.filter (·.party = party) := by
  rw [filter_filter]
  apply filter_congr
  intro row hrow
  by_cases hparty : row.party = party
  · have hne := hother row hrow hparty
    have hkept : which row = false := by
      by_contra hremoved
      exact hne (hwhich row (by simpa using hremoved))
    simp [hparty, hkept]
  · simp [hparty]

theorem rolesOn_put :
    (db.put principal role now).1.rolesOn party = db.rolesOn party := by
  apply rolesOn_congr
  · unfold PoliciesDb.put
    dsimp only
    split <;> rfl
  · intro row hrow hparty
    exact findRole_put (hother row hrow hparty)

theorem rolesOn_delete {name : String} :
    (db.delete principal name).1.rolesOn party = db.rolesOn party := by
  apply rolesOn_congr
  · apply filter_party_of_principal_ne hother
    intro row hrow
    simp only [Bool.and_eq_true, decide_eq_true_eq] at hrow
    exact hrow.1
  · intro row hrow hparty
    exact findRole_delete (hother row hrow hparty)

theorem rolesOn_unassign {other : String} :
    (db.unassign principal other).rolesOn party = db.rolesOn party := by
  apply rolesOn_congr
  · apply filter_party_of_principal_ne hother
    intro row hrow
    simp only [Bool.and_eq_true, decide_eq_true_eq] at hrow
    exact hrow.1
  · intro row _ _
    rfl

omit hother in
/-- The update of an assignment to another party leaves those to the party as they are. -/
theorem filter_party_reassigned (hne : other ≠ party) (rows : List AssignmentRow) :
    (rows.map fun row => if row.principal = principal ∧ row.party = other then
        { row with roleName := name } else row).filter (·.party = party) =
      rows.filter (·.party = party) := by
  induction rows with
  | nil => rfl
  | cons row rows ih =>
    rw [map_cons, filter_cons, filter_cons, ih]
    by_cases hboth : row.principal = principal ∧ row.party = other
    · simp [hboth, hne]
    · rw [if_neg hboth]

/-- An assignment to a party by a principal without one adds its role and changes nothing else;
an assignment to another party changes nothing. -/
theorem rolesOn_assign (h : db.assign principal other (some name) = .ok (db', assigned)) :
    (other ≠ party ∧ db'.rolesOn party = db.rolesOn party) ∨
      (other = party ∧ ∃ role, db.findRole principal name = some role ∧
        db'.rolesOn party = db.rolesOn party ++ [(principal, role.toolsJson)]) := by
  unfold PoliciesDb.assign at h
  dsimp only at h
  split_ifs at h with hknown hheld
  · -- The principal has an assignment to `other`, so `other` is another party.
    cases h
    left
    obtain ⟨held, hmem, hkey⟩ := mem_map.1 hheld
    rw [Prod.mk.injEq] at hkey
    have hne : other ≠ party := by
      rintro rfl
      exact hother held hmem hkey.2 hkey.1
    exact ⟨hne, rolesOn_congr (filter_party_reassigned hne db.assignments) fun _ _ _ => rfl⟩
  · cases h
    by_cases hparty : other = party
    · right
      refine ⟨hparty, ?_⟩
      subst hparty
      obtain ⟨role, hrole⟩ := Option.isSome_iff_exists.1
        (Option.isSome_iff_ne_none.2 fun hnone => hknown (Option.isNone_iff_eq_none.2 hnone))
      refine ⟨role, hrole, ?_⟩
      unfold PoliciesDb.rolesOn
      rw [filter_append, filterMap_append]
      have hnew : ([{ principal, party := other, roleName := name }] : List AssignmentRow).filter
          (·.party = other) = [{ principal, party := other, roleName := name }] := by simp
      rw [hnew]
      congr 1
      simp only [filterMap_cons, filterMap_nil, PoliciesDb.joined]
      have hsame : PoliciesDb.findRole
          { db with
            assignments := db.assignments ++ [{ principal, party := other, roleName := name }]
            nodup_assignments := Lib.Table.nodup_append_singleton db.nodup_assignments hheld }
          principal name = db.findRole principal name := rfl
      rw [hsame, hrole]
      rfl
    · left
      refine ⟨hparty, ?_⟩
      apply rolesOn_congr
      · rw [filter_append]
        simp [hparty]
      · intro row _ _
        rfl

variable (call : PolicyCall)

/-- After a call by a principal with no role on the party, the roles on the party are the same
or there is one more, the one assigned. -/
theorem rolesOn_after :
    ((∀ role, ¬ Assigns db principal party call role) ∧
        (after db principal call).rolesOn party = db.rolesOn party) ∨
      ∃ role, Assigns db principal party call role ∧
        (after db principal call).rolesOn party =
          db.rolesOn party ++ [(principal, role.toolsJson)] := by
  unfold after
  cases call with
  | putPolicyRole role now =>
    refine .inl ⟨by simp [Assigns], ?_⟩
    simp only [serve]
    cases checkRole role with
    | error e => rfl
    | ok _ => exact rolesOn_put hother
  | deletePolicyRole name =>
    refine .inl ⟨by simp [Assigns], ?_⟩
    simp only [serve]
    by_cases hblank : isBlank name = true
    · rw [if_pos hblank]
    rw [if_neg hblank]
    exact rolesOn_delete hother
  | assignPolicyRole other name =>
    simp only [serve]
    by_cases hblank : isBlank other = true
    · rw [if_pos hblank]
      refine .inl ⟨?_, rfl⟩
      rintro role ⟨_, ⟨⟩, hparty, -⟩
      simp [hblank] at hparty
    rw [if_neg hblank]
    by_cases hname : isBlank name = true
    · rw [if_pos hname]
      refine .inl ⟨?_, rolesOn_unassign hother⟩
      rintro role ⟨_, ⟨⟩, -, hrole, -⟩
      simp [hname] at hrole
    rw [if_neg hname]
    cases hassign : db.assign principal other (some name) with
    | error e =>
      refine .inl ⟨?_, rfl⟩
      rintro role ⟨_, ⟨⟩, -, -, hrole⟩
      simp only [PoliciesDb.assign, hrole, Option.isNone_some, Bool.false_eq_true, if_false]
        at hassign
      split at hassign <;> cases hassign
    | ok result =>
      obtain ⟨db', assigned⟩ := result
      rcases rolesOn_assign hother hassign with ⟨hne, hsame⟩ | ⟨rfl, role, hrole, hmore⟩
      · refine .inl ⟨?_, hsame⟩
        rintro role ⟨_, ⟨⟩, -⟩
        exact hne rfl
      · exact .inr ⟨role, ⟨name, rfl, by simpa using hblank, by simpa using hname, hrole⟩, hmore⟩

/-- Then the role in force is the same, or none was before, or the assigned one is in force for
one of a later principal. -/
theorem inForce_after :
    ((after db principal call).inForce party = db.inForce party ∨ db.inForce party = none) ∧
        (∀ role held, Assigns db principal party call role → db.inForce party = some held →
          ¬ principal < held.1) ∨
      ∃ role held, Assigns db principal party call role ∧ db.inForce party = some held ∧
        principal < held.1 ∧
        (after db principal call).inForce party = some (principal, role.toolsJson) := by
  rcases rolesOn_after hother call with ⟨hnone, hsame⟩ | ⟨role, hassigns, hmore⟩
  · refine .inl ⟨.inl ?_, fun role _ hassigns => absurd hassigns (hnone role)⟩
    rw [PoliciesDb.inForce, PoliciesDb.inForce, hsame]
  cases hforce : db.inForce party with
  | none => exact .inl ⟨.inr rfl, fun _ _ _ hheld => nomatch hheld⟩
  | some held =>
    have hkeys := db.nodup_rolesOn party
    have hkeys' := (after db principal call).nodup_rolesOn party
    have hheld : held ∈ db.rolesOn party := by
      obtain ⟨rest, hrest⟩ := List.head?_eq_some_iff.1 hforce
      exact mem_inKeyOrder.1 (hrest ▸ mem_cons_self)
    by_cases hlt : principal < held.1
    · refine .inr ⟨role, held, hassigns, rfl, hlt, head?_inKeyOrder (by simp [hmore]) hkeys' ?_⟩
      intro found hfound
      rw [hmore, mem_append, mem_singleton] at hfound
      rcases hfound with hold | rfl
      · exact hlt.le.trans (le_of_head?_inKeyOrder hkeys hforce hold).2
      · exact le_rfl
    · refine .inl ⟨.inl (head?_inKeyOrder (by simp [hmore, hheld]) hkeys' ?_), ?_⟩
      · intro found hfound
        rw [hmore, mem_append, mem_singleton] at hfound
        rcases hfound with hold | rfl
        · exact (le_of_head?_inKeyOrder hkeys hforce hold).2
        · exact not_lt.1 hlt
      · rintro _ _ - ⟨⟩
        exact hlt

end Frame

theorem permits_policyLeg :
    Permits (policyLeg (some db) party) tool ↔
      ∀ held, db.inForce party = some held → tool ∈ toolsFromJson held.2 := by
  rw [policyLeg, Option.bind_some, PoliciesDb.allowlistFor]
  cases db.inForce party <;> simp [Permits]

/-- A call by a principal that has assigned no role to a party takes tools out of the party's
ceiling or leaves it alone, exactly if it does not put a wider role in the place of the one in
force. -/
theorem ceiling_after_subset_iff (host : ToolHost) (db : PoliciesDb)
    (principal party : String) (call : PolicyCall)
    (hother : ∀ row ∈ db.assignments, row.party = party → row.principal ≠ principal)
    {before afterwards : List ToolGrant}
    (hbefore : principalToolCeiling host (some db) party = .ok before)
    (hafter : principalToolCeiling host (some (after db principal call)) party = .ok afterwards) :
    afterwards ⊆ before ↔ ¬ Widens host db principal party call := by
  obtain ⟨unruled, hunruled, hmem⟩ := exists_unruled hbefore
  obtain ⟨unruled', hunruled', hmem'⟩ := exists_unruled hafter
  cases hunruled.symm.trans hunruled'
  simp only [subset_def, hmem, hmem', permits_policyLeg]
  rcases inForce_after hother call with ⟨hsame, hlater⟩ | ⟨role, held, hassigns, hheld, hlt, hforce⟩
  · refine iff_of_true ?_ ?_
    · rintro tool ⟨htool, hpermits⟩
      rcases hsame with hsame | hnone
      · exact ⟨htool, hsame ▸ hpermits⟩
      · simp [htool, hnone]
    · rintro ⟨role, held, _, hassigns, hheld, hlt, -⟩
      exact hlater role held hassigns hheld hlt
  simp only [hforce, hheld, Option.some.injEq, forall_eq']
  constructor
  · rintro hsubset ⟨role', held', _, hassigns', hheld', -, hunruled', tool, htool, hnew, hold⟩
    cases hassigns.unique hassigns'
    cases hheld.symm.trans hheld'
    cases hunruled.symm.trans hunruled'
    exact hold (hsubset ⟨htool, hnew⟩).2
  · rintro hnot tool ⟨htool, hnew⟩
    by_contra hold
    exact hnot ⟨role, held, unruled, hassigns, hheld, hlt, hunruled, tool, htool, hnew,
      fun hmem => hold ⟨htool, hmem⟩⟩

def readTool : ToolGrant := ⟨"fs-read", "1"⟩
def shellTool : ToolGrant := ⟨"shell", "1"⟩

/-- A host that can fire both tools and knows them, and a ledger that narrows nobody. -/
def openHost : ToolHost where
  useOf _ := some {}
  registeredGrants := [readTool, shellTool]
  tools _ := some ⟨.none, {}, ⟨.replicate 32 0⟩, {}⟩

/-- `zoe` has put `bob` under one role; `amy` has written another. -/
def bobRuled (held offered : List ToolGrant) : PoliciesDb :=
  let db := after .empty "zoe" (.putPolicyRole ⟨"held", "", held⟩ 1)
  let db := after db "zoe" (.assignPolicyRole "bob" "held")
  after db "amy" (.putPolicyRole ⟨"offered", "", offered⟩ 2)

/-- The ceiling of `bob` before and after `amy` assigns the other role. -/
def bobCeilings (db : PoliciesDb) : Option (List ToolGrant) × Option (List ToolGrant) :=
  ((principalToolCeiling openHost (some db) "bob").toOption,
    (principalToolCeiling openHost
      (some (after db "amy" (.assignPolicyRole "bob" "offered"))) "bob").toOption)

/-- A role that is narrower takes the place of the one in force. -/
theorem ceiling_after_subset_iff_narrower :
    bobCeilings (bobRuled [readTool, shellTool] [readTool]) =
        (some [readTool, shellTool], some [readTool]) ∧
      ¬ Widens openHost (bobRuled [readTool, shellTool] [readTool]) "amy" "bob"
        (.assignPolicyRole "bob" "offered") := by
  have hbefore : principalToolCeiling openHost
      (some (bobRuled [readTool, shellTool] [readTool])) "bob" = .ok [readTool, shellTool] := rfl
  have hafter : principalToolCeiling openHost (some (after (bobRuled [readTool, shellTool]
      [readTool]) "amy" (.assignPolicyRole "bob" "offered"))) "bob" = .ok [readTool] := rfl
  refine ⟨by decide +kernel, ?_⟩
  apply (ceiling_after_subset_iff openHost _ "amy" "bob" _ (by decide +kernel) hbefore hafter).1
  simp

/-- `amy`, who comes before `zoe` and has assigned nothing to `bob`, assigns the wider role:
`bob` gains the shell. -/
theorem ceiling_widened_by_assignment :
    (∀ row ∈ (bobRuled [readTool] [readTool, shellTool]).assignments,
      row.party = "bob" → row.principal ≠ "amy") ∧
    bobCeilings (bobRuled [readTool] [readTool, shellTool]) =
      (some [readTool], some [readTool, shellTool]) := by
  decide +kernel

end Kortecx.Policy
