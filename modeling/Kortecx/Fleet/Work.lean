import Kortecx.Fleet.Membership
import Mathlib.Algebra.Polynomial.Eval.Defs

/-!
How much work resolving a member is. The recursion remembers its own path and nothing else,
so it may come to one party many times; what bounds it is the depth.
-/

namespace Kortecx.Fleet

open Lib List Catalog Function

section Calls

variable (ids : Identities) (inner : Inner)

/-- The evaluations of `edges_of` that the test of an admitter takes; `calls` says how many one
for the admitter takes, one level down. -/
def admitterCalls (calls : PartyId → Nat) (team admitter : PartyId) : Nat :=
  if some admitter = inner.owners team then 0 else calls admitter

def removalCalls (calls : PartyId → Nat) (team member : PartyId) : Nat :=
  if inner.removed (team, member) = [] then 0
  else (((inner.admitsByTeamMember (team, member)).filterMap (admitAt inner)).map fun a =>
    admitterCalls inner calls team a.admitter).sum

def edgeCalls (edges : PartyId → List TeamEdge) (calls : PartyId → Nat) (team member : PartyId)
    (pos : Nat) : Nat :=
  removalCalls inner calls team member +
    if admitIsRemoved inner edges team member pos then 0
    else
      match admitAt inner pos with
      | none => 0
      | some a => admitterCalls inner calls team a.admitter

/-- How often `edges_of` is evaluated, this time included. -/
def edgesOfCalls : Nat → List PartyId → PartyId → Nat
  | 0, _, _ => 1
  | depth + 1, visiting, member =>
    1 + if member ∈ visiting then 0
      else ((inner.teamsByMember member).toList.map fun team =>
        if disbandedAuthorized inner team then 0
        else ((inner.admitsByTeamMember (team, member)).map
          (edgeCalls inner (edgesOf ids inner depth (member :: visiting))
            (edgesOfCalls depth (member :: visiting)) team member)).sum).sum

def readMemberEdgesCalls (member : PartyId) : Nat :=
  edgesOfCalls ids inner (MAX_TEAM_MEMBERS_WALK + 1) [] member

end Calls

section Bound

variable {ids : Identities} {inner : Inner} {bound n : Nat} {calls : PartyId → Nat}

theorem admitterCalls_le (hcalls : ∀ party, calls party ≤ bound) (team admitter : PartyId) :
    admitterCalls inner calls team admitter ≤ bound := by
  unfold admitterCalls
  split
  · exact Nat.zero_le _
  · exact hcalls admitter

theorem sum_map_le {α : Type} {l : List α} {f : α → Nat} (hf : ∀ a ∈ l, f a ≤ bound)
    (hlength : l.length ≤ n) : (l.map f).sum ≤ n * bound := by
  have hsum := sum_le_card_nsmul (l.map f) bound (by simpa using hf)
  rw [length_map, smul_eq_mul] at hsum
  exact hsum.trans (Nat.mul_le_mul_right _ hlength)

/-- No index has more entries for a key than the log has facts. -/
structure Inner.Small (inner : Inner) (n : Nat) : Prop where
  admits : ∀ key, (inner.admitsByTeamMember key).length ≤ n
  teams : ∀ member, (inner.teamsByMember member).toList.length ≤ n

theorem edgeCalls_le (hinner : inner.Small n) (hcalls : ∀ party, calls party ≤ bound)
    (edges : PartyId → List TeamEdge) (team member : PartyId) (pos : Nat) :
    edgeCalls inner edges calls team member pos ≤ (n + 1) * bound := by
  have hremoval : removalCalls inner calls team member ≤ n * bound := by
    unfold removalCalls
    split
    · exact Nat.zero_le _
    · apply sum_map_le (fun a _ => admitterCalls_le hcalls team a.admitter)
      exact (length_filterMap_le _ _).trans (hinner.admits _)
  unfold edgeCalls
  rw [Nat.add_mul, Nat.one_mul]
  apply Nat.add_le_add hremoval
  split
  · exact Nat.zero_le _
  split
  · exact Nat.zero_le _
  · exact admitterCalls_le hcalls team _

/-- Each level multiplies the work by no more than the tests one evaluation can make. -/
theorem edgesOfCalls_le (hinner : inner.Small n) (depth : Nat) (visiting : List PartyId)
    (member : PartyId) :
    edgesOfCalls ids inner depth visiting member ≤ (1 + n * (n * (n + 1))) ^ depth := by
  induction depth generalizing visiting member with
  | zero => exact Nat.le_refl 1
  | succ depth ih =>
    unfold edgesOfCalls
    have hpos : 1 ≤ (1 + n * (n * (n + 1))) ^ depth := Nat.one_le_pow _ _ (by omega)
    rw [Nat.pow_succ', Nat.add_mul, Nat.one_mul]
    apply Nat.add_le_add hpos
    split
    · exact Nat.zero_le _
    rw [Nat.mul_assoc]
    apply sum_map_le _ (hinner.teams member)
    intro team _
    split
    · exact Nat.zero_le _
    rw [Nat.mul_assoc]
    apply sum_map_le _ (hinner.admits _)
    intro pos _
    exact edgeCalls_le hinner (ih _) _ team member pos

theorem small_applyFact (hinner : inner.Small n) (fact : MembershipFact) :
    (applyFact ids inner fact).Small (n + 1) := by
  have hadmits (key : PartyId × PartyId) := (hinner.admits key).trans (Nat.le_succ n)
  have hteams (member : PartyId) := (hinner.teams member).trans (Nat.le_succ n)
  cases fact with
  | admission a =>
    constructor
    · intro key
      simp only [applyFact, update_apply]
      split
      · rw [length_append, length_singleton]
        exact Nat.add_le_add_right (hinner.admits _) 1
      · exact hadmits key
    · intro member
      simp only [applyFact, update_apply]
      split
      · rw [Std.ExtTreeSet.length_toList]
        apply Std.ExtTreeSet.size_insert_le.trans
        rw [← Std.ExtTreeSet.length_toList]
        exact Nat.add_le_add_right (hinner.teams _) 1
      · exact hteams member
  | _ => exact ⟨hadmits, hteams⟩

theorem small_rebuild (facts : List MembershipFact) :
    (rebuild ids facts).Small facts.length := by
  induction facts using reverseRecOn with
  | nil => exact ⟨fun _ => Nat.le_refl _, fun _ => by simp [rebuild]⟩
  | append_singleton facts fact ih =>
    rw [rebuild, foldl_append, length_append, length_singleton]
    exact small_applyFact ih fact

end Bound

/-- Resolving a member takes polynomially many evaluations, whatever the ledger. -/
theorem readMemberEdgesCalls_polynomial :
    ∃ p : Polynomial ℕ, ∀ (ids : Identities) (ops : List Op) (member : PartyId),
      readMemberEdgesCalls ids (ledgerAfter ids ops) member ≤
        p.eval (ledgerAfter ids ops).facts.length := by
  refine ⟨(1 + Polynomial.X * (Polynomial.X * (Polynomial.X + 1))) ^ (MAX_TEAM_MEMBERS_WALK + 1),
    ?_⟩
  intro ids ops member
  have hindexed : (ledgerAfter ids ops).Indexed ids := indexed_ledgerAfter ops
  have hsmall : (rebuild ids (ledgerAfter ids ops).facts).Small (ledgerAfter ids ops).facts.length :=
    small_rebuild _
  rw [hindexed.rebuilt] at hsmall
  have hle : readMemberEdgesCalls ids (ledgerAfter ids ops) member ≤ _ :=
    edgesOfCalls_le hsmall (MAX_TEAM_MEMBERS_WALK + 1) [] member
  simpa using hle

end Kortecx.Fleet
