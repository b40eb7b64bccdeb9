import Kortecx.Catalog.Grant
import Kortecx.Lib.LogIndex

/-!
The membership ledger of the fleet: teams are founded, members admitted and removed, teams
disbanded, and every fact is kept. Whether an admit counts is decided when the ledger is read, and
that depends on who holds what now: an admitter other than the owner must itself be a member that
may delegate.
-/

namespace Kortecx.Fleet

open Lib Warrant Catalog List Std Function

def FLEET_SCHEMA_VERSION : UInt16 := 1

def MAX_TEAM_MEMBERS_WALK : Nat := 64

structure MembershipId where
  bytes : ByteVec 32
deriving DecidableEq, Repr

structure Team where
  schemaVersion : UInt16 := FLEET_SCHEMA_VERSION
  principal : PartyId
  owner : PartyId
  displayName : String
deriving DecidableEq, Repr

structure Admit where
  schemaVersion : UInt16 := FLEET_SCHEMA_VERSION
  team : PartyId
  member : PartyId
  admitter : PartyId
  role : Role
  actionCap : CatalogActionSet
deriving DecidableEq

structure Removal where
  schemaVersion : UInt16 := FLEET_SCHEMA_VERSION
  team : PartyId
  member : PartyId
  remover : PartyId
deriving DecidableEq, Repr

structure Disband where
  schemaVersion : UInt16 := FLEET_SCHEMA_VERSION
  team : PartyId
  «by» : PartyId
deriving DecidableEq, Repr

inductive MembershipFact where
  | found (team : Team)
  | admission (a : Admit)
  | remove (removal : Removal)
  | disband (disband : Disband)
deriving DecidableEq

/-- The hash and the canonical encodings that content ids are made of. -/
structure Identities where
  blake3 : List UInt8 → ByteVec 32
  encodeTeam : Team → List UInt8
  encodeAdmit : Admit → List UInt8
  encodeRemoval : Removal → List UInt8
  encodeDisband : Disband → List UInt8

namespace Identities

variable (ids : Identities)

def contentId (tag : String) (body : List UInt8) : MembershipId :=
  ⟨ids.blake3 (utf8Bytes tag ++ body)⟩

def admitId (a : Admit) : MembershipId :=
  ids.contentId "kx-fleet/admit/v1" (ids.encodeAdmit a)

def factId : MembershipFact → MembershipId
  | .found team => ids.contentId "kx-fleet/team/v1" (ids.encodeTeam team)
  | .admission a => ids.admitId a
  | .remove removal => ids.contentId "kx-fleet/removal/v1" (ids.encodeRemoval removal)
  | .disband disband => ids.contentId "kx-fleet/disband/v1" (ids.encodeDisband disband)

end Identities

structure TeamEdge where
  team : PartyId
  role : Role
  actionCap : CatalogActionSet
  admitId : MembershipId
deriving DecidableEq

inductive MembershipOutcome where
  | appended (factId : MembershipId)
  | alreadyPresent (factId : MembershipId)
deriving DecidableEq, Repr

inductive MembershipLedgerError where
  | immutabilityConflict (factId : String)
  | ownerConflict (detail : String)
deriving DecidableEq, Repr

/-- The log and its indexes. A key that an index lacks has the default. -/
structure Inner where
  facts : List MembershipFact := []
  byId : MembershipId → Option Nat := fun _ => none
  owners : PartyId → Option PartyId := fun _ => none
  foundings : PartyId → Option MembershipId := fun _ => none
  admitsByTeamMember : PartyId × PartyId → List Nat := fun _ => []
  teamsByMember : PartyId → ExtTreeSet PartyId := fun _ => ∅
  removed : PartyId × PartyId → List Nat := fun _ => []
  disbanded : PartyId → ExtTreeSet PartyId := fun _ => ∅

section Ledger

variable (ids : Identities)

def applyFact (inner : Inner) (fact : MembershipFact) : Inner :=
  let pos := inner.facts.length
  let fid := ids.factId fact
  let indexed : Inner :=
    match fact with
    | .found team =>
      { inner with
        owners := update inner.owners team.principal (some team.owner)
        foundings := update inner.foundings team.principal (some fid) }
    | .admission a =>
      { inner with
        admitsByTeamMember := update inner.admitsByTeamMember (a.team, a.member)
          (inner.admitsByTeamMember (a.team, a.member) ++ [pos])
        teamsByMember := update inner.teamsByMember a.member
          ((inner.teamsByMember a.member).insert a.team) }
    | .remove r =>
      { inner with
        removed := update inner.removed (r.team, r.member)
          (inner.removed (r.team, r.member) ++ [pos]) }
    | .disband d =>
      { inner with
        disbanded := update inner.disbanded d.team ((inner.disbanded d.team).insert d.by) }
  { indexed with
    byId := update inner.byId fid (some pos)
    facts := inner.facts ++ [fact] }

def containsFact (inner : Inner) (fid : MembershipId) : Option MembershipFact :=
  (inner.byId fid).bind (inner.facts[·]?)

def appendFounding (inner : Inner) (team : Team) :
    Inner × Except MembershipLedgerError MembershipOutcome :=
  let fid := ids.factId (.found team)
  match inner.owners team.principal with
  | some existingOwner =>
    if existingOwner ≠ team.owner then
      (inner, .error (.ownerConflict
        ("team " ++ team.principal ++ " already founded with a different owner")))
    else
      (inner, .ok (.alreadyPresent ((inner.foundings team.principal).getD fid)))
  | none => (applyFact ids inner (.found team), .ok (.appended fid))

/-- Admits, removals and disbands pass the same gate. -/
def appendFact (inner : Inner) (fact : MembershipFact) :
    Inner × Except MembershipLedgerError MembershipOutcome :=
  let fid := ids.factId fact
  match containsFact inner fid with
  | some existing =>
    if existing = fact then
      (inner, .ok (.alreadyPresent fid))
    else
      (inner, .error (.immutabilityConflict (toHex fid.bytes.toList)))
  | none => (applyFact ids inner fact, .ok (.appended fid))

def appendAdmit (inner : Inner) (a : Admit) :
    Inner × Except MembershipLedgerError MembershipOutcome :=
  appendFact ids inner (.admission a)

def appendRemove (inner : Inner) (removal : Removal) :
    Inner × Except MembershipLedgerError MembershipOutcome :=
  appendFact ids inner (.remove removal)

def appendDisband (inner : Inner) (disband : Disband) :
    Inner × Except MembershipLedgerError MembershipOutcome :=
  appendFact ids inner (.disband disband)

/-- What opening a stored ledger does with the log. -/
def rebuild (facts : List MembershipFact) : Inner :=
  facts.foldl (applyFact ids) {}

def append (inner : Inner) : MembershipFact → Inner × Except MembershipLedgerError MembershipOutcome
  | .found team => appendFounding ids inner team
  | .admission a => appendAdmit ids inner a
  | .remove r => appendRemove ids inner r
  | .disband d => appendDisband ids inner d

/-- What callers ask of a ledger; a stored one may also be closed and opened again. -/
inductive Op where
  | append (fact : MembershipFact)
  | reopen

def step (inner : Inner) : Op → Inner
  | .append fact => (append ids inner fact).1
  | .reopen => rebuild ids inner.facts

def ledgerAfter (ops : List Op) : Inner :=
  ops.foldl (step ids) {}

end Ledger

section Edges

variable (ids : Identities) (inner : Inner)

def disbandedAuthorized (team : PartyId) : Bool :=
  (inner.disbanded team).toList.any fun d => some d = inner.owners team

/-- `edges` answers for the admitter, one level down. -/
def admitterAuthorized (edges : PartyId → List TeamEdge) (team admitter : PartyId) : Bool :=
  some admitter = inner.owners team ||
    (edges admitter).any fun e => e.team = team && e.actionCap.contains .delegate

def admitAt (pos : Nat) : Option Admit :=
  match inner.facts[pos]? with
  | some (.admission a) => some a
  | _ => none

def admitters (edges : PartyId → List TeamEdge) (team member : PartyId) : List PartyId :=
  (((inner.admitsByTeamMember (team, member)).filterMap (admitAt inner)).map Admit.admitter).filter
    (admitterAuthorized inner edges team)

def admitIsRemoved (edges : PartyId → List TeamEdge) (team member : PartyId) (admitPos : Nat) :
    Bool :=
  (inner.removed (team, member)).any fun rpos =>
    admitPos < rpos &&
      match inner.facts[rpos]? with
      | some (.remove r) =>
        some r.remover = inner.owners team || r.remover ∈ admitters inner edges team member
      | _ => false

def edgeAt (edges : PartyId → List TeamEdge) (team member : PartyId) (pos : Nat) :
    Option TeamEdge :=
  if admitIsRemoved inner edges team member pos then
    none
  else
    match admitAt inner pos with
    | none => none
    | some a =>
      if admitterAuthorized inner edges team a.admitter then
        some ⟨team, a.role, a.actionCap, ids.admitId a⟩
      else
        none

def edgeLe (a b : TeamEdge) : Bool :=
  match compare a.team b.team with
  | .lt => true
  | .gt => false
  | .eq => (compare a.admitId.bytes b.admitId.bytes).isLE

/-- `depth` counts down: the walk stops below the last level. -/
def edgesOf : Nat → List PartyId → PartyId → List TeamEdge
  | 0, _, _ => []
  | depth + 1, visiting, member =>
    if member ∈ visiting then
      []
    else
      ((inner.teamsByMember member).toList.flatMap fun team =>
        if disbandedAuthorized inner team then
          []
        else
          (inner.admitsByTeamMember (team, member)).filterMap
            (edgeAt ids inner (edgesOf depth (member :: visiting)) team member)).insertionSort
        (fun a b => edgeLe a b = true)

def readMemberEdges (member : PartyId) : List TeamEdge :=
  edgesOf ids inner (MAX_TEAM_MEMBERS_WALK + 1) [] member

end Edges

-- What each kind of fact files, and under which key.
def ownerEntry : MembershipFact → Option (PartyId × PartyId)
  | .found team => some (team.principal, team.owner)
  | _ => none

def admitKey : MembershipFact → Option (PartyId × PartyId)
  | .admission a => some (a.team, a.member)
  | _ => none

def teamEntry : MembershipFact → Option (PartyId × PartyId)
  | .admission a => some (a.member, a.team)
  | _ => none

def removalKey : MembershipFact → Option (PartyId × PartyId)
  | .remove r => some (r.team, r.member)
  | _ => none

def disbandEntry : MembershipFact → Option (PartyId × PartyId)
  | .disband d => some (d.team, d.by)
  | _ => none

structure Inner.Indexed (ids : Identities) (inner : Inner) : Prop where
  /-- Opening the stored log gives the same state again. -/
  rebuilt : rebuild ids inner.facts = inner
  owners : Indexes ownerEntry inner.facts fun team owner => inner.owners team = some owner
  admits : FiledAt admitKey inner.facts inner.admitsByTeamMember
  teams : Indexes teamEntry inner.facts fun member team => team ∈ inner.teamsByMember member
  removed : FiledAt removalKey inner.facts inner.removed
  disbanded : Indexes disbandEntry inner.facts fun team party => party ∈ inner.disbanded team

section Indexed

variable {ids : Identities} {inner : Inner}

@[simp]
theorem facts_applyFact (fact : MembershipFact) :
    (applyFact ids inner fact).facts = inner.facts ++ [fact] := rfl

theorem indexed_empty : Inner.Indexed ids {} where
  rebuilt := rfl
  owners := by simp [Indexes]
  admits := filedAt_nil
  teams := by simp [Indexes]
  removed := filedAt_nil
  disbanded := by simp [Indexes]

/-- A team is founded when it has no owner yet; anything else may be filed at any time. -/
theorem Inner.Indexed.applyFact (hinner : inner.Indexed ids)
    (hunowned : ∀ team, fact = .found team → inner.owners team.principal = none) :
    (applyFact ids inner fact).Indexed ids where
  rebuilt := by
    have hlog := hinner.rebuilt
    unfold rebuild at hlog ⊢
    rw [facts_applyFact, foldl_append, hlog]
    rfl
  owners := by
    cases fact with
    | found team => exact hinner.owners.push rfl fun _ _ => update_eq_some_iff (hunowned team rfl)
    | _ => exact hinner.owners.skip rfl
  admits := by
    cases fact with
    | admission a => exact hinner.admits.push rfl
    | _ => exact hinner.admits.skip rfl
  teams := by
    cases fact with
    | admission a => exact hinner.teams.push rfl fun _ _ => mem_update_insert
    | _ => exact hinner.teams.skip rfl
  removed := by
    cases fact with
    | remove r => exact hinner.removed.push rfl
    | _ => exact hinner.removed.skip rfl
  disbanded := by
    cases fact with
    | disband d => exact hinner.disbanded.push rfl fun _ _ => mem_update_insert
    | _ => exact hinner.disbanded.skip rfl

/-- An append leaves the state as it is, or files the fact. -/
theorem append_cases (inner : Inner) (fact : MembershipFact) :
    (append ids inner fact).1 = inner ∨
      (append ids inner fact).1 = applyFact ids inner fact ∧
        (append ids inner fact).2 = .ok (.appended (ids.factId fact)) ∧
        ∀ team, fact = .found team → inner.owners team.principal = none := by
  have hgate : ∀ fact, (appendFact ids inner fact).1 = inner ∨
      (appendFact ids inner fact).1 = applyFact ids inner fact ∧
        (appendFact ids inner fact).2 = .ok (.appended (ids.factId fact)) := by
    intro fact
    unfold appendFact
    dsimp only
    split
    · split <;> exact .inl rfl
    · exact .inr ⟨rfl, rfl⟩
  cases fact with
  | found team =>
    change (appendFounding ids inner team).1 = inner ∨
      (appendFounding ids inner team).1 = applyFact ids inner (.found team) ∧
        (appendFounding ids inner team).2 = .ok (.appended (ids.factId (.found team))) ∧ _
    unfold appendFounding
    cases howner : inner.owners team.principal with
    | some existing =>
      dsimp only
      split <;> exact .inl rfl
    | none =>
      refine .inr ⟨rfl, rfl, ?_⟩
      intro team' hteam
      cases hteam
      exact howner
  | admission a => exact (hgate (.admission a)).imp_right fun h => ⟨h.1, h.2, by simp⟩
  | remove r => exact (hgate (.remove r)).imp_right fun h => ⟨h.1, h.2, by simp⟩
  | disband d => exact (hgate (.disband d)).imp_right fun h => ⟨h.1, h.2, by simp⟩

theorem Inner.Indexed.step (hinner : inner.Indexed ids) (op : Op) :
    (step ids inner op).Indexed ids := by
  cases op with
  | append fact =>
    change (append ids inner fact).1.Indexed ids
    rcases append_cases inner fact with hsame | ⟨hfiled, _, hunowned⟩
    · rw [hsame]
      exact hinner
    rw [hfiled]
    exact hinner.applyFact hunowned
  | reopen =>
    change (rebuild ids inner.facts).Indexed ids
    rw [hinner.rebuilt]
    exact hinner

theorem Inner.Indexed.foldl (hinner : inner.Indexed ids) (ops : List Op) :
    (ops.foldl (Fleet.step ids) inner).Indexed ids := by
  induction ops generalizing inner with
  | nil => exact hinner
  | cons op ops ih => exact ih (hinner.step op)

theorem indexed_ledgerAfter (ops : List Op) : (ledgerAfter ids ops).Indexed ids :=
  indexed_empty.foldl ops

variable {team : PartyId} {pos : Nat} {member : PartyId}

variable (hinner : inner.Indexed ids)

include hinner

theorem Inner.Indexed.mem_admits_iff : pos ∈ inner.admitsByTeamMember (team, member) ↔
      ∃ a, inner.facts[pos]? = some (.admission a) ∧ a.team = team ∧ a.member = member := by
  apply (hinner.admits (team, member) pos).trans
  constructor
  · rintro ⟨fact, hfact, hkey⟩
    cases fact with
    | admission a =>
      cases hkey
      exact ⟨a, hfact, rfl, rfl⟩
    | _ => cases hkey
  · rintro ⟨a, ha, rfl, rfl⟩
    exact ⟨_, ha, rfl⟩

theorem Inner.Indexed.mem_removed_iff : pos ∈ inner.removed (team, member) ↔
      ∃ r, inner.facts[pos]? = some (.remove r) ∧ r.team = team ∧ r.member = member := by
  apply (hinner.removed (team, member) pos).trans
  constructor
  · rintro ⟨fact, hfact, hkey⟩
    cases fact with
    | remove r =>
      cases hkey
      exact ⟨r, hfact, rfl, rfl⟩
    | _ => cases hkey
  · rintro ⟨r, hr, rfl, rfl⟩
    exact ⟨_, hr, rfl⟩

theorem Inner.Indexed.mem_teams
    (ha : .admission a ∈ inner.facts) : a.team ∈ inner.teamsByMember a.member :=
  (hinner.teams a.member a.team).2 ⟨_, ha, rfl⟩

theorem Inner.Indexed.disbandedAuthorized_iff : disbandedAuthorized inner team = true ↔
      ∃ d, .disband d ∈ inner.facts ∧ d.team = team ∧ inner.owners team = some d.by := by
  unfold disbandedAuthorized
  rw [any_eq_true]
  constructor
  · rintro ⟨party, hparty, howner⟩
    obtain ⟨fact, hfact, hentry⟩ :=
      (hinner.disbanded team party).1 (ExtTreeSet.mem_toList.1 hparty)
    cases fact with
    | disband d =>
      cases hentry
      exact ⟨d, hfact, rfl, (of_decide_eq_true howner).symm⟩
    | _ => cases hentry
  · rintro ⟨d, hd, rfl, howner⟩
    have hmem := (hinner.disbanded d.team d.by).2 ⟨_, hd, rfl⟩
    exact ⟨d.by, ExtTreeSet.mem_toList.2 hmem, decide_eq_true howner.symm⟩

end Indexed

end Kortecx.Fleet
