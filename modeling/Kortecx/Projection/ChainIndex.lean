import Kortecx.Projection.Checkpoint
import Kortecx.Projection.Journaled

/-!
The ReAct rounds of one chain. The projection finds them through an index of positions; what
it finds are the rounds of that chain among all, in the order of the journal.
-/

namespace Kortecx.Projection

open Lib Mote Journal List Std

def inChain (instanceId : InstanceId) (stepSalt : Option (ByteVec 32)) (r : ReactRoundRecord) :
    Bool :=
  r.instanceId = instanceId ∧ r.stepSalt = stepSalt

section Index

variable (instanceId : InstanceId) (stepSalt : Option (ByteVec 32))

/-- A round is entered under its own chain, and under no other. -/
theorem positions_index (views : ReactViews) (idx : Nat) (record : ReactRoundRecord) :
    (views.index idx record).positions instanceId stepSalt =
      if inChain instanceId stepSalt record then views.positions instanceId stepSalt ++ [idx]
      else views.positions instanceId stepSalt := by
  unfold ReactViews.positions ReactViews.index inChain
  rw [ExtTreeMap.getElem?_alter]
  by_cases hinstance : record.instanceId = instanceId
  · subst hinstance
    rw [if_pos ReflCmp.compare_self]
    simp only [Option.bind_some, true_and]
    rw [ExtTreeMap.getElem?_alter]
    by_cases hsalt : record.stepSalt = stepSalt
    · subst hsalt
      rw [if_pos ReflCmp.compare_self]
      cases views.reactIndex[record.instanceId]? <;> simp
    rw [if_neg (fun heq => hsalt (LawfulEqCmp.eq_of_compare heq))]
    cases views.reactIndex[record.instanceId]? <;> simp [hsalt]
  · rw [if_neg (fun heq => hinstance (LawfulEqCmp.eq_of_compare heq))]
    simp [hinstance]

/-- The positions of a chain lead to its rounds. -/
theorem filterMap_positions_ofRounds (rounds : List ReactRoundRecord) :
    (∀ i ∈ (ReactViews.ofRounds rounds).positions instanceId stepSalt, i < rounds.length) ∧
      ((ReactViews.ofRounds rounds).positions instanceId stepSalt).filterMap (rounds[·]?) =
        rounds.filter (inChain instanceId stepSalt) := by
  induction rounds using List.reverseRecOn with
  | nil =>
    have hnone : (ReactViews.ofRounds []).positions instanceId stepSalt = [] := by
      simp [ReactViews.ofRounds, ReactViews.positions]
    simp [hnone]
  | append_singleton rounds r ih =>
    obtain ⟨hbound, hrounds⟩ := ih
    -- The positions entered so far lead to the same rounds of the longer list.
    have hold : ((ReactViews.ofRounds rounds).positions instanceId stepSalt).filterMap
        ((rounds ++ [r])[·]?) = rounds.filter (inChain instanceId stepSalt) := by
      rw [← hrounds]
      apply filterMap_congr
      intro i hi
      exact List.getElem?_append_left (hbound i hi)
    have hlonger : ∀ i ∈ (ReactViews.ofRounds rounds).positions instanceId stepSalt,
        i < (rounds ++ [r]).length := by
      intro i hi
      rw [length_append]
      exact Nat.lt_add_right _ (hbound i hi)
    rw [ofRounds_concat, positions_index, filter_append]
    split_ifs with hin
    · constructor
      · intro i hi
        rcases mem_append.1 hi with hi | hi
        · exact hlonger i hi
        rw [mem_singleton.1 hi, length_append]
        exact Nat.lt_succ_self _
      · rw [filterMap_append, hold]
        simp [hin]
    · exact ⟨hlonger, by rw [hold]; simp [hin]⟩

end Index

variable {s t : State}

/-- The rounds found for a chain are those of the chain. -/
theorem State.Derived.reactRoundsOf_eq (hs : s.Derived) (instanceId : InstanceId)
    (stepSalt : Option (ByteVec 32)) :
    s.reactRoundsOf instanceId stepSalt = s.reactRounds.filter (inChain instanceId stepSalt) := by
  have hpositions := (filterMap_positions_ofRounds instanceId stepSalt s.reactRounds).2
  rw [← hs.react] at hpositions
  exact hpositions

/-- Whether the views are derived is a matter of the run's records. -/
theorem State.Derived.of_runRecords (ht : t.Derived) (hrecords : s.runRecords = t.runRecords) :
    s.Derived := by
  have hreact : s.runRecords.toReactViews = ReactViews.ofRounds s.runRecords.reactRounds := by
    rw [hrecords]
    exact ht.react
  have happroval : s.runRecords.approvalIndex = approvalIndexOf s.runRecords.approvals := by
    rw [hrecords]
    exact ht.approval
  exact ⟨hreact, happroval⟩

end Kortecx.Projection
