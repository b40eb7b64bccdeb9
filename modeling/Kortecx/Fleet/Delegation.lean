import Kortecx.Fleet.Membership

/-!
Who confers membership. An edge that the ledger reports rests on an admit by the owner or by a
party that the walk found to be a delegate one level down. Reported on its own, that party need
not be a delegate: the set of parties under way hides the removals that some of them made.
-/

namespace Kortecx.Fleet

open Lib Warrant List Catalog

section Walk

variable {ids : Identities} {inner : Inner} {edges : PartyId → List TeamEdge}
  {team member : PartyId} {pos : Nat}

def Admit.edge (ids : Identities) (a : Admit) : TeamEdge :=
  ⟨a.team, a.role, a.actionCap, ids.admitId a⟩

theorem admitAt_eq_some :
    admitAt inner pos = some a ↔ inner.facts[pos]? = some (.admission a) := by
  unfold admitAt
  split
  · rename_i found hfound
    simp [hfound]
  rename_i hother
  simp only [reduceCtorEq, false_iff]
  exact hother a

variable {admitter : PartyId}

theorem admitterAuthorized_iff :
    admitterAuthorized inner edges team admitter = true ↔
      inner.owners team = some admitter ∨
        ∃ e ∈ edges admitter, e.team = team ∧ e.actionCap.contains .delegate = true := by
  simp [admitterAuthorized, eq_comm (a := some admitter)]

theorem Inner.Indexed.mem_admitters_iff (hinner : inner.Indexed ids) :
    admitter ∈ admitters inner edges team member ↔
      (∃ a, .admission a ∈ inner.facts ∧ a.team = team ∧ a.member = member ∧ a.admitter = admitter) ∧
        admitterAuthorized inner edges team admitter = true := by
  unfold admitters
  rw [mem_filter, mem_map]
  apply and_congr_left
  intro _
  constructor
  · rintro ⟨a, ha, rfl⟩
    obtain ⟨pos, hpos, hat⟩ := mem_filterMap.1 ha
    obtain ⟨a', hfact, hteam, hmember⟩ := hinner.mem_admits_iff.1 hpos
    rw [admitAt_eq_some, hfact] at hat
    cases hat
    exact ⟨a, mem_of_getElem? hfact, hteam, hmember, rfl⟩
  · rintro ⟨a, ha, rfl, rfl, rfl⟩
    obtain ⟨pos, hpos⟩ := List.getElem?_of_mem ha
    exact ⟨a, mem_filterMap.2 ⟨pos, hinner.mem_admits_iff.2 ⟨a, hpos, rfl, rfl⟩,
      admitAt_eq_some.2 hpos⟩, rfl⟩

theorem Inner.Indexed.admitIsRemoved_iff (hinner : inner.Indexed ids) :
    admitIsRemoved inner edges team member pos = true ↔
      ∃ rpos r, inner.facts[rpos]? = some (.remove r) ∧ r.team = team ∧ r.member = member ∧
        pos < rpos ∧ (inner.owners team = some r.remover ∨
          r.remover ∈ admitters inner edges team member) := by
  unfold admitIsRemoved
  rw [any_eq_true]
  constructor
  · rintro ⟨rpos, hrpos, hremoves⟩
    obtain ⟨r, hr, hteam, hmember⟩ := hinner.mem_removed_iff.1 hrpos
    simp only [hr, Bool.and_eq_true, decide_eq_true_eq, Bool.or_eq_true] at hremoves
    exact ⟨rpos, r, hr, hteam, hmember, hremoves.1, hremoves.2.imp_left Eq.symm⟩
  · rintro ⟨rpos, r, hr, hteam, hmember, hlater, hremover⟩
    refine ⟨rpos, hinner.mem_removed_iff.2 ⟨r, hr, hteam, hmember⟩, ?_⟩
    simp only [hr, Bool.and_eq_true, decide_eq_true_eq, Bool.or_eq_true]
    exact ⟨hlater, hremover.imp_left Eq.symm⟩

/-- The edges of a member, one level of the walk at a time. -/
theorem Inner.Indexed.mem_edgesOf_iff (hinner : inner.Indexed ids) :
    e ∈ edgesOf ids inner (depth + 1) visiting member ↔
      member ∉ visiting ∧ ∃ pos a, inner.facts[pos]? = some (.admission a) ∧ a.member = member ∧
        disbandedAuthorized inner a.team = false ∧
        admitIsRemoved inner (edgesOf ids inner depth (member :: visiting)) a.team member pos =
          false ∧
        admitterAuthorized inner (edgesOf ids inner depth (member :: visiting)) a.team a.admitter =
          true ∧
        e = a.edge ids := by
  rw [edgesOf]
  split
  · rename_i hunderWay
    simp [hunderWay]
  rename_i hfree
  rw [mem_insertionSort, mem_flatMap]
  constructor
  · rintro ⟨team, _, he⟩
    split at he
    · cases he
    rename_i hstands
    obtain ⟨pos, hpos, hedge⟩ := mem_filterMap.1 he
    obtain ⟨a, ha, rfl, hmember⟩ := hinner.mem_admits_iff.1 hpos
    simp only [edgeAt, admitAt_eq_some.2 ha] at hedge
    split at hedge
    · cases hedge
    rename_i hkept
    split at hedge
    · rename_i hauthorized
      cases hedge
      exact ⟨hfree, pos, a, ha, hmember, by simpa using hstands, by simpa using hkept,
        hauthorized, rfl⟩
    · cases hedge
  · rintro ⟨_, pos, a, ha, rfl, hstands, hkept, hauthorized, rfl⟩
    refine ⟨a.team, Std.ExtTreeSet.mem_toList.2 (hinner.mem_teams (mem_of_getElem? ha)), ?_⟩
    rw [if_neg (by simp [hstands])]
    refine mem_filterMap.2 ⟨pos, hinner.mem_admits_iff.2 ⟨a, ha, rfl, rfl⟩, ?_⟩
    simp [edgeAt, hkept, admitAt_eq_some.2 ha, hauthorized, Admit.edge]

end Walk

def MemberKeptApart (inner : Inner) (team member : PartyId) : Prop :=
  ∀ a r, .admission a ∈ inner.facts → .remove r ∈ inner.facts → a.team = team → r.team = team →
    a.member = member → r.member = member → a.admitter = r.remover →
      inner.owners team = some r.remover

/-- In the team, no party but the owner has both admitted and removed the same member. -/
def KeptApart (inner : Inner) (team : PartyId) : Prop :=
  ∀ member, MemberKeptApart inner team member

section KeptApart

variable {ids : Identities} {inner : Inner}

/-- Removals that count are then the owner's, whatever the walk has found. -/
theorem Inner.Indexed.admitIsRemoved_of_keptApart (hinner : inner.Indexed ids)
    (happart : MemberKeptApart inner team member) :
    admitIsRemoved inner edges team member pos = true ↔
      ∃ rpos r, inner.facts[rpos]? = some (.remove r) ∧ r.team = team ∧ r.member = member ∧
        pos < rpos ∧ inner.owners team = some r.remover := by
  rw [hinner.admitIsRemoved_iff]
  constructor
  · rintro ⟨rpos, r, hr, hteam, hmember, hlater, howner | hadmitter⟩
    · exact ⟨rpos, r, hr, hteam, hmember, hlater, howner⟩
    · obtain ⟨⟨a, ha, hateam, hamember, hsame⟩, _⟩ := hinner.mem_admitters_iff.1 hadmitter
      exact ⟨rpos, r, hr, hteam, hmember, hlater, happart a r ha (mem_of_getElem? hr) hateam
        hteam hamember hmember hsame⟩
  · rintro ⟨rpos, r, hr, hteam, hmember, hlater, howner⟩
    exact ⟨rpos, r, hr, hteam, hmember, hlater, .inl howner⟩

/-- A walk that may go deeper and has fewer parties under way finds every edge again. -/
theorem Inner.Indexed.edgesOf_mono (hinner : inner.Indexed ids) {e : TeamEdge}
    (happart : KeptApart inner e.team) (hdepth : depth ≤ depth') (hvisiting : visiting' ⊆ visiting)
    (he : e ∈ edgesOf ids inner depth visiting member) :
    e ∈ edgesOf ids inner depth' visiting' member := by
  induction depth generalizing depth' visiting visiting' member e with
  | zero => simp [edgesOf] at he
  | succ depth ih =>
    obtain ⟨depth', rfl⟩ : ∃ n, depth' = n + 1 := ⟨depth' - 1, by omega⟩
    obtain ⟨hfree, pos, a, ha, hmember, hstands, hkept, hauthorized, rfl⟩ :=
      hinner.mem_edgesOf_iff.1 he
    refine hinner.mem_edgesOf_iff.2 ⟨fun hvis => hfree (hvisiting hvis), pos, a, ha, hmember,
      hstands, ?_, ?_, rfl⟩
    · have happart' : KeptApart inner a.team := happart
      rw [Bool.eq_false_iff, Ne, hinner.admitIsRemoved_of_keptApart (happart' member)] at hkept ⊢
      exact hkept
    · rw [admitterAuthorized_iff] at hauthorized ⊢
      refine hauthorized.imp_right ?_
      rintro ⟨e', he', hteam, hdelegates⟩
      have happart' : KeptApart inner e'.team := by
        rw [hteam]
        exact happart
      have hagain : e' ∈ edgesOf ids inner depth' (member :: visiting') a.admitter :=
        ih happart' (by omega) (cons_subset_cons member hvisiting) he'
      exact ⟨e', hagain, hteam, hdelegates⟩

end KeptApart

/-- The edge rests on this admit: the owner has neither disbanded the team nor undone the
admit, and the admitter is the owner or by the ledger's own answer a delegate of the team. -/
structure Conferred (ids : Identities) (inner : Inner) (member : PartyId) (e : TeamEdge)
    (pos : Nat) (a : Admit) : Prop where
  recorded : inner.facts[pos]? = some (.admission a)
  ofMember : a.member = member
  edge : a.edge ids = e
  stands : ∀ d, .disband d ∈ inner.facts → d.team = e.team → inner.owners e.team ≠ some d.by
  kept : ∀ rpos r, pos < rpos → inner.facts[rpos]? = some (.remove r) → r.team = e.team →
    r.member = member → inner.owners e.team ≠ some r.remover
  authority : inner.owners e.team = some a.admitter ∨
    ∃ e' ∈ readMemberEdges ids inner a.admitter,
      e'.team = e.team ∧ e'.actionCap.contains .delegate = true

/-- After any operations, membership is granted by current authority only. -/
theorem edge_of_current_authority (ids : Identities) (ops : List Op) (member : PartyId)
    (e : TeamEdge) (he : e ∈ readMemberEdges ids (ledgerAfter ids ops) member)
    (happart : KeptApart (ledgerAfter ids ops) e.team) :
    ∃ pos a, Conferred ids (ledgerAfter ids ops) member e pos a := by
  have hinner : (ledgerAfter ids ops).Indexed ids := indexed_ledgerAfter ops
  generalize ledgerAfter ids ops = inner at hinner he happart
  obtain ⟨_, pos, a, ha, hmember, hstands, hkept, hauthorized, rfl⟩ := hinner.mem_edgesOf_iff.1 he
  have happart' : KeptApart inner a.team := happart
  refine ⟨pos, a, ha, hmember, rfl, ?_, ?_, ?_⟩
  · intro d hd hteam howner
    have hdisbanded : disbandedAuthorized inner a.team = true :=
      hinner.disbandedAuthorized_iff.2 ⟨d, hd, hteam, howner⟩
    simp [hstands] at hdisbanded
  · intro rpos r hlater hr hteam hrmember howner
    rw [Bool.eq_false_iff, Ne, hinner.admitIsRemoved_of_keptApart (happart' member)] at hkept
    exact hkept ⟨rpos, r, hr, hteam, hrmember, hlater, howner⟩
  · refine (admitterAuthorized_iff.1 hauthorized).imp_right ?_
    rintro ⟨e', he', hteam, hdelegates⟩
    refine ⟨e', hinner.edgesOf_mono ?_ (Nat.le_succ _) (nil_subset _) he', hteam, hdelegates⟩
    rw [hteam]
    exact happart'

/-- Tells apart the few texts of the samples. -/
def sampleIds : Identities where
  blake3 bytes := .ofNat 32 (bytes.foldl (fun n b => 257 * n + b.toNat + 1) 0)
  encodeTeam t := utf8Bytes t.principal
  encodeAdmit a := utf8Bytes (a.member ++ "/" ++ a.admitter ++ "/" ++ a.role.name)
  encodeRemoval r := utf8Bytes (r.member ++ "/" ++ r.remover)
  encodeDisband d := utf8Bytes d.by

def opsTeam : Team := ⟨FLEET_SCHEMA_VERSION, "ops", "olga", "Ops"⟩

def maintainer : CatalogActionSet := .allow (.ofList ([.use, .delegate] : List CatalogAction))

def opsAdmit (admitter member role : String) : Admit :=
  ⟨FLEET_SCHEMA_VERSION, "ops", member, admitter, ⟨role, 1, {}, ""⟩, maintainer⟩

def opsRemoval (remover member : String) : Removal :=
  ⟨FLEET_SCHEMA_VERSION, "ops", member, remover⟩

def handedOn : List Op :=
  [.append (.found opsTeam), .append (.admission (opsAdmit "olga" "dan" "lead")),
    .append (.admission (opsAdmit "dan" "mia" "mate"))]

theorem edge_of_current_authority_handedOn :
    ∃ pos a, Conferred sampleIds (ledgerAfter sampleIds handedOn) "mia"
      ((opsAdmit "dan" "mia" "mate").edge sampleIds) pos a := by
  have hfacts : (ledgerAfter sampleIds handedOn).facts = [.found opsTeam,
      .admission (opsAdmit "olga" "dan" "lead"), .admission (opsAdmit "dan" "mia" "mate")] := by
    decide +kernel
  apply edge_of_current_authority sampleIds handedOn "mia" _ (by decide +kernel)
  intro member a r _ hr
  simp [hfacts] at hr

/-- Then the owner admits the member too, who admits the delegate and removes them. -/
def removedByProtege : List Op :=
  handedOn ++ [.append (.admission (opsAdmit "olga" "mia" "lead")),
    .append (.admission (opsAdmit "mia" "dan" "mate")), .append (.remove (opsRemoval "mia" "dan"))]

/-- The ledger answers that the delegate is in no team, and still counts what they
admitted. -/
theorem not_conferred_removedByProtege :
    readMemberEdges sampleIds (ledgerAfter sampleIds removedByProtege) "dan" = [] ∧
      ∃ e ∈ readMemberEdges sampleIds (ledgerAfter sampleIds removedByProtege) "mia",
        ¬ ∃ pos a, Conferred sampleIds (ledgerAfter sampleIds removedByProtege) "mia" e pos a := by
  have hdan : readMemberEdges sampleIds (ledgerAfter sampleIds removedByProtege) "dan" = [] := by
    decide +kernel
  have hfacts : (ledgerAfter sampleIds removedByProtege).facts = [.found opsTeam,
      .admission (opsAdmit "olga" "dan" "lead"), .admission (opsAdmit "dan" "mia" "mate"),
      .admission (opsAdmit "olga" "mia" "lead"), .admission (opsAdmit "mia" "dan" "mate"),
      .remove (opsRemoval "mia" "dan")] := by
    decide +kernel
  refine ⟨hdan, (opsAdmit "dan" "mia" "mate").edge sampleIds, by decide +kernel, ?_⟩
  rintro ⟨pos, a, hconferred⟩
  have ha : a = opsAdmit "dan" "mia" "mate" := by
    have hmem := mem_of_getElem? hconferred.recorded
    have hmember := hconferred.ofMember
    have hedge := hconferred.edge
    simp only [hfacts, mem_cons, reduceCtorEq, MembershipFact.admission.injEq, not_mem_nil,
      false_or, or_false] at hmem
    rcases hmem with rfl | rfl | rfl | rfl
    · exact absurd hmember (by decide)
    · rfl
    · exact absurd hedge (by decide +kernel)
    · exact absurd hmember (by decide)
  subst ha
  rcases hconferred.authority with howner | ⟨e', he', _⟩
  · exact absurd howner (by decide +kernel)
  have hnone : e' ∈ readMemberEdges sampleIds (ledgerAfter sampleIds removedByProtege) "dan" :=
    he'
  simp [hdan] at hnone

end Kortecx.Fleet
