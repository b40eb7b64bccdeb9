import Kortecx.Fleet.Delegation

/-!
The owner's last word on a member. A removal cancels what stands before it in the log, so
the last thing the owner says decides, provided that it is written down. A fact is filed
under its content: said a second time it is taken as present and its place in the log
stays the old one, which is before the removal it was to undo.
-/

namespace Kortecx.Fleet

open Lib Warrant List Catalog

def OwnerIssued (owner team member : PartyId) : MembershipFact → Prop
  | .admission a => a.team = team ∧ a.member = member ∧ a.admitter = owner
  | .remove r => r.team = team ∧ r.member = member ∧ r.remover = owner
  | _ => False

/-- The ledger does not refuse the fact. -/
def Accepts (ids : Identities) (inner : Inner) (fact : MembershipFact) : Prop :=
  ∃ outcome, (append ids inner fact).2 = .ok outcome

section LastWord

variable {ids : Identities} {inner : Inner}

/-- What the log gains was accepted on the way. -/
theorem Inner.Indexed.facts_foldl (hinner : inner.Indexed ids) (after : List Op) :
    ∃ more, (after.foldl (Fleet.step ids) inner).facts = inner.facts ++ more ∧
      ∀ fact ∈ more, ∃ mid rest, after = mid ++ .append fact :: rest ∧
        Accepts ids (mid.foldl (Fleet.step ids) inner) fact := by
  induction after generalizing inner with
  | nil => exact ⟨[], by simp, by simp⟩
  | cons op after ih =>
    obtain ⟨more, hmore, haccepted⟩ := ih (hinner.step op)
    have hlater : ∀ fact ∈ more, ∃ mid rest, op :: after = mid ++ .append fact :: rest ∧
        Accepts ids (mid.foldl (Fleet.step ids) inner) fact := by
      intro fact hfact
      obtain ⟨mid, rest, rfl, haccepts⟩ := haccepted fact hfact
      exact ⟨op :: mid, rest, rfl, haccepts⟩
    cases op with
    | reopen =>
      have hsame : Fleet.step ids inner .reopen = inner := hinner.rebuilt
      refine ⟨more, ?_, hlater⟩
      rw [foldl_cons, hmore, hsame]
    | append fact =>
      rcases append_cases inner fact with hsame | ⟨hfiled, hok, _⟩
      · have hstep : Fleet.step ids inner (.append fact) = inner := hsame
        refine ⟨more, ?_, hlater⟩
        rw [foldl_cons, hmore, hstep]
      have hstep : Fleet.step ids inner (.append fact) = Fleet.applyFact ids inner fact :=
        hfiled
      refine ⟨fact :: more, ?_, ?_⟩
      · rw [foldl_cons, hmore, hstep, facts_applyFact, append_assoc]
        rfl
      · intro fact' hfact'
        rcases mem_cons.1 hfact' with rfl | hmem
        · exact ⟨[], after, rfl, _, hok⟩
        · exact hlater fact' hmem

/-- The owner's word is filed if it is not in the log yet. -/
theorem append_of_fresh (hissued : OwnerIssued owner team member fact)
    (hfresh : containsFact inner (ids.factId fact) = none) :
    (append ids inner fact).1 = applyFact ids inner fact := by
  cases fact with
  | found _ | disband _ => cases hissued
  | admission a => simp [append, appendAdmit, appendFact, hfresh]
  | remove r => simp [append, appendRemove, appendFact, hfresh]

end LastWord

/-- The owner's last word wins. Take the last operation on a member of a team that the
owner issued and the ledger accepted. If it is a removal, no edge of the member on the team
rests on an admit of the owner; if it is an admit, its edge is there. -/
theorem owner_last_word (ids : Identities) (before after : List Op) (fact : MembershipFact)
    (owner team member : PartyId)
    (howner : (ledgerAfter ids (before ++ .append fact :: after)).owners team = some owner)
    (hstands : ∀ d, .disband d ∈ (ledgerAfter ids (before ++ .append fact :: after)).facts →
      d.team = team → d.by ≠ owner)
    (hissued : OwnerIssued owner team member fact)
    (hlast : ∀ mid later rest, after = mid ++ .append later :: rest →
      OwnerIssued owner team member later →
      ¬ Accepts ids (ledgerAfter ids (before ++ .append fact :: mid)) later)
    (hfresh : containsFact (ledgerAfter ids before) (ids.factId fact) = none) :
    (∀ r, fact = .remove r →
      ∀ e ∈ readMemberEdges ids (ledgerAfter ids (before ++ .append fact :: after)) member,
        e.team = team → ∃ a,
          .admission a ∈ (ledgerAfter ids (before ++ .append fact :: after)).facts ∧
          a.edge ids = e ∧ a.member = member ∧ a.admitter ≠ owner) ∧
    ∀ a, fact = .admission a →
      MemberKeptApart (ledgerAfter ids (before ++ .append fact :: after)) team member →
      a.edge ids ∈ readMemberEdges ids (ledgerAfter ids (before ++ .append fact :: after))
        member := by
  have hinner : (ledgerAfter ids (before ++ .append fact :: after)).Indexed ids :=
    indexed_ledgerAfter _
  have hbefore : (ledgerAfter ids before).Indexed ids := indexed_ledgerAfter _
  have hfiled : step ids (ledgerAfter ids before) (.append fact) =
      applyFact ids (ledgerAfter ids before) fact := append_of_fresh hissued hfresh
  have hsplit : ∀ mid, ledgerAfter ids (before ++ .append fact :: mid) =
      mid.foldl (step ids) (step ids (ledgerAfter ids before) (.append fact)) := by
    intro mid
    rw [ledgerAfter, foldl_append, foldl_cons]
    rfl
  obtain ⟨more, hmore, haccepted⟩ := (hbefore.step (.append fact)).facts_foldl after
  rw [← hsplit, hfiled, facts_applyFact, append_assoc, singleton_append] at hmore
  -- The owner says nothing more on the member after this.
  have hsilent : ∀ later ∈ more, ¬ OwnerIssued owner team member later := by
    intro later hlater hword
    obtain ⟨mid, rest, hafter, haccepts⟩ := haccepted later hlater
    rw [← hsplit] at haccepts
    exact hlast mid later rest hafter hword haccepts
  have hplace : ∀ pos found, (ledgerAfter ids before).facts.length < pos →
      (ledgerAfter ids (before ++ .append fact :: after)).facts[pos]? = some found →
      ¬ OwnerIssued owner team member found := by
    intro pos found hpos hfound
    apply hsilent
    rw [hmore, List.getElem?_append_right hpos.le] at hfound
    obtain ⟨n, hn⟩ : ∃ n, pos - (ledgerAfter ids before).facts.length = n + 1 :=
      ⟨pos - (ledgerAfter ids before).facts.length - 1, by omega⟩
    rw [hn, List.getElem?_cons_succ] at hfound
    exact mem_of_getElem? hfound
  have hhere : (ledgerAfter ids (before ++ .append fact :: after)).facts[
      (ledgerAfter ids before).facts.length]? = some fact := by
    rw [hmore]
    simp
  constructor
  · rintro r rfl e he rfl
    obtain ⟨_, pos, a, ha, hmember, _, hkept, _, rfl⟩ := hinner.mem_edgesOf_iff.1 he
    refine ⟨a, mem_of_getElem? ha, rfl, hmember, ?_⟩
    intro hadmitter
    rcases Nat.lt_trichotomy pos (ledgerAfter ids before).facts.length with hlt | rfl | hgt
    · rw [Bool.eq_false_iff, Ne, hinner.admitIsRemoved_iff] at hkept
      obtain ⟨hteam, hrmember, hremover⟩ := hissued
      exact hkept ⟨_, r, hhere, hteam, hrmember, hlt, .inl (hremover ▸ howner)⟩
    · rw [hhere] at ha
      cases ha
    · exact hplace pos _ hgt ha ⟨rfl, hmember, hadmitter⟩
  · rintro a rfl happart
    obtain ⟨rfl, rfl, rfl⟩ := hissued
    refine hinner.mem_edgesOf_iff.2 ⟨by simp, _, a, hhere, rfl, ?_, ?_, ?_, rfl⟩
    · rw [Bool.eq_false_iff, Ne, hinner.disbandedAuthorized_iff]
      rintro ⟨d, hd, hteam, hby⟩
      rw [howner, Option.some.injEq] at hby
      exact hstands d hd hteam hby.symm
    · rw [Bool.eq_false_iff, Ne, hinner.admitIsRemoved_of_keptApart happart]
      rintro ⟨rpos, r, hr, hteam, hmember, hlater, hby⟩
      rw [howner, Option.some.injEq] at hby
      exact hplace rpos _ hlater hr ⟨hteam, hmember, hby.symm⟩
    · exact admitterAuthorized_iff.2 (.inl howner)

def admittedThenRemoved : List Op :=
  [.append (.found opsTeam), .append (.admission (opsAdmit "olga" "dan" "lead")),
    .append (.remove (opsRemoval "olga" "dan"))]

/-- Admitted again in another role, the member is in the team again. -/
theorem owner_last_word_otherRole :
    (opsAdmit "olga" "dan" "mate").edge sampleIds ∈ readMemberEdges sampleIds
      (ledgerAfter sampleIds (admittedThenRemoved ++
        [.append (.admission (opsAdmit "olga" "dan" "mate"))])) "dan" := by
  have hfacts : (ledgerAfter sampleIds (admittedThenRemoved ++
      [.append (.admission (opsAdmit "olga" "dan" "mate"))])).facts = [.found opsTeam,
      .admission (opsAdmit "olga" "dan" "lead"), .remove (opsRemoval "olga" "dan"),
      .admission (opsAdmit "olga" "dan" "mate")] := by
    decide +kernel
  have howner : (ledgerAfter sampleIds (admittedThenRemoved ++
      [.append (.admission (opsAdmit "olga" "dan" "mate"))])).owners "ops" = some "olga" := by
    decide +kernel
  refine (owner_last_word sampleIds admittedThenRemoved [] (.admission (opsAdmit "olga" "dan" "mate"))
    "olga" "ops" "dan" howner ?_ ⟨rfl, rfl, rfl⟩ ?_ (by decide +kernel)).2 _ rfl ?_
  · intro d hd
    simp [hfacts] at hd
  · intro mid later rest hafter
    simp at hafter
  · intro a r _ hr _ _ _ _ _
    simp only [hfacts, mem_cons, reduceCtorEq, MembershipFact.remove.injEq,
      not_mem_nil, false_or, or_false] at hr
    rw [howner, hr]
    rfl

/-- Admitted again in the same role, the member is not: the ledger answers that the admit is
present, and its place is before the removal. -/
theorem not_mem_edges_readmitted :
    (ledgerAfter sampleIds admittedThenRemoved).owners "ops" = some "olga" ∧
    (append sampleIds (ledgerAfter sampleIds admittedThenRemoved)
      (.admission (opsAdmit "olga" "dan" "lead"))).2 =
        .ok (.alreadyPresent (sampleIds.admitId (opsAdmit "olga" "dan" "lead"))) ∧
    (opsAdmit "olga" "dan" "lead").edge sampleIds ∉ readMemberEdges sampleIds
      (ledgerAfter sampleIds (admittedThenRemoved ++
        [.append (.admission (opsAdmit "olga" "dan" "lead"))])) "dan" := by
  refine ⟨by decide +kernel, ?_, by decide +kernel⟩
  have hpresent : containsFact (ledgerAfter sampleIds admittedThenRemoved)
      (sampleIds.admitId (opsAdmit "olga" "dan" "lead")) =
        some (.admission (opsAdmit "olga" "dan" "lead")) := by
    decide +kernel
  simp [append, appendAdmit, appendFact, Identities.factId, hpresent]

end Kortecx.Fleet
