import Kortecx.Lib.TwoWayIndex
import Kortecx.Mote

/-!
The coordinator's reschedule bookkeeping: who holds an unresolved lease on what, which
crash-failed Motes may still be leased again, and how often each has crash-failed. The
leases are indexed from both sides, by worker and by Mote.
-/

namespace Kortecx.Coordinator

open Lib Mote TwoWayIndex Std List

abbrev WorkerId := UInt64

/-- A Mote whose successive leasing workers crash this often is not leased again. -/
def PURE_RETRY_BUDGET : UInt32 := 100

structure LeaseTracker where
  /-- `leases` (each worker's Motes) and `holders` (each Mote's workers). -/
  leases : TwoWayIndex WorkerId MoteId
  crashFailed : ExtTreeSet MoteId
  attemptFailures : ExtTreeMap MoteId UInt32

namespace LeaseTracker

def new : LeaseTracker := ⟨.empty, ∅, ∅⟩

/-- The worker now holds each of the Motes. It has an entry afterwards even if there are
none. -/
def recordLease (t : LeaseTracker) (worker : WorkerId) (motes : List MoteId) : LeaseTracker :=
  { t with leases := t.leases.relateAll worker motes }

def rescheduleable (t : LeaseTracker) : ExtTreeSet MoteId :=
  t.crashFailed

def leasingWorkers (t : LeaseTracker) : List WorkerId :=
  t.leases.forward.keys

def isHeldBy (t : LeaseTracker) (mote : MoteId) (worker : WorkerId) : Bool :=
  (bucket t.leases.backward mote).contains worker

def isLeased (t : LeaseTracker) (mote : MoteId) : Bool :=
  t.leases.backward.contains mote

def isLeasedByOther (t : LeaseTracker) (mote : MoteId) (worker : WorkerId) : Bool :=
  (bucket t.leases.backward mote).toList.any (· ≠ worker)

/-- The Motes `takeLeases` returns. -/
def leasesOf (t : LeaseTracker) (worker : WorkerId) : ExtTreeSet MoteId :=
  bucket t.leases.forward worker

def takeLeases (t : LeaseTracker) (worker : WorkerId) : LeaseTracker :=
  { t with leases := t.leases.unrelate worker }

/-- One more crash. At the budget the Mote is dropped from the candidates for good. -/
def recordCrash (t : LeaseTracker) (mote : MoteId) (budget : UInt32) : LeaseTracker :=
  let failures := t.attemptFailures.getD mote 0 + 1
  { t with
    attemptFailures := t.attemptFailures.insert mote failures
    crashFailed :=
      if failures < budget then t.crashFailed.insert mote else t.crashFailed.erase mote }

/-- Clear a Mote from all tracking. -/
def resolveCommitted (t : LeaseTracker) (mote : MoteId) : LeaseTracker where
  leases := (t.leases.flip.unrelate mote).flip
  crashFailed := t.crashFailed.erase mote
  attemptFailures := t.attemptFailures.erase mote

def Holds (t : LeaseTracker) (worker : WorkerId) (mote : MoteId) : Prop :=
  t.leases.Related worker mote

variable {t : LeaseTracker} {worker w : WorkerId} {mote m : MoteId}

theorem isHeldBy_iff : t.isHeldBy mote worker ↔ t.Holds worker mote := by
  unfold isHeldBy Holds
  rw [ExtTreeSet.contains_iff_mem, ← t.leases.agrees]
  rfl

theorem isLeasedByOther_iff : t.isLeasedByOther mote worker ↔ ∃ w, w ≠ worker ∧ t.Holds w mote := by
  unfold isLeasedByOther Holds
  simp only [any_eq_true, decide_eq_true_eq, ExtTreeSet.mem_toList]
  constructor
  · rintro ⟨w, hheld, hne⟩
    exact ⟨w, hne, (t.leases.agrees w mote).2 hheld⟩
  · rintro ⟨w, hne, hheld⟩
    exact ⟨w, (t.leases.agrees w mote).1 hheld, hne⟩

theorem mem_leasesOf : m ∈ t.leasesOf w ↔ t.Holds w m :=
  Iff.rfl

theorem mem_leasingWorkers (hheld : t.Holds w m) : w ∈ t.leasingWorkers := by
  unfold leasingWorkers
  rw [ExtTreeMap.mem_keys]
  by_contra habsent
  unfold Holds TwoWayIndex.Related bucket at hheld
  rw [ExtTreeMap.getD_eq_fallback habsent] at hheld
  exact ExtTreeSet.not_mem_empty hheld

@[simp]
theorem not_holds_new : ¬ LeaseTracker.new.Holds w m :=
  related_empty

theorem holds_recordLease :
    (t.recordLease worker motes).Holds w m ↔ (w = worker ∧ m ∈ motes) ∨ t.Holds w m :=
  related_relateAll

theorem holds_takeLeases : (t.takeLeases worker).Holds w m ↔ w ≠ worker ∧ t.Holds w m :=
  related_unrelate

variable {budget : UInt32}

@[simp]
theorem holds_recordCrash : (t.recordCrash mote budget).Holds w m ↔ t.Holds w m :=
  Iff.rfl

theorem holds_resolveCommitted : (t.resolveCommitted mote).Holds w m ↔ m ≠ mote ∧ t.Holds w m := by
  unfold Holds resolveCommitted
  rw [related_flip, related_unrelate, related_flip]

theorem crashFailed_recordCrash
    (hm : m ∈ (t.recordCrash mote budget).crashFailed) : m = mote ∨ m ∈ t.crashFailed := by
  unfold recordCrash at hm
  dsimp only at hm
  split at hm
  · rw [ExtTreeSet.mem_insert, Std.LawfulEqCmp.compare_eq_iff_eq] at hm
    exact hm.imp_left Eq.symm
  · exact .inr (ExtTreeSet.mem_of_mem_erase hm)

theorem mem_crashFailed_resolveCommitted :
    m ∈ (t.resolveCommitted mote).crashFailed ↔ m ≠ mote ∧ m ∈ t.crashFailed := by
  unfold resolveCommitted
  rw [ExtTreeSet.mem_erase, ne_eq, Std.LawfulEqCmp.compare_eq_iff_eq, ne_comm]

inductive Call where
  | recordLease (worker : WorkerId) (motes : List MoteId)
  | takeLeases (worker : WorkerId)
  | recordCrash (mote : MoteId)
  | resolveCommitted (mote : MoteId)

def perform (budget : UInt32) (t : LeaseTracker) : Call → LeaseTracker
  | .recordLease worker motes => t.recordLease worker motes
  | .takeLeases worker => t.takeLeases worker
  | .recordCrash mote => t.recordCrash mote budget
  | .resolveCommitted mote => t.resolveCommitted mote

def performed (budget : UInt32) : List Call → LeaseTracker
  | [] => new
  | call :: earlier => (performed budget earlier).perform budget call

def crashes (mote : MoteId) : List Call → Nat
  | [] => 0
  | .recordCrash m :: earlier => crashes mote earlier + if m = mote then 1 else 0
  | .resolveCommitted m :: earlier => if m = mote then 0 else crashes mote earlier
  | _ :: earlier => crashes mote earlier

variable (budget) (calls : List Call) (mote)

theorem noEmpty_holders : NoEmpty (performed budget calls).leases.backward := by
  induction calls with
  | nil => intro m; simp [performed, new, TwoWayIndex.empty]
  | cons call earlier ih =>
    cases call with
    | recordLease worker motes => exact noEmpty_relateAll_backward ih
    | takeLeases worker => exact noEmpty_unrelate_backward ih
    | recordCrash m => exact ih
    | resolveCommitted m => exact noEmpty_unrelate_forward (t := TwoWayIndex.flip _) ih

theorem noEmpty_leases (hsome : ∀ w, Call.recordLease w [] ∉ calls) :
    NoEmpty (performed budget calls).leases.forward := by
  induction calls with
  | nil => intro w; simp [performed, new, TwoWayIndex.empty]
  | cons call earlier ih =>
    specialize ih fun w hw => hsome w (mem_cons_of_mem _ hw)
    cases call with
    | recordLease worker motes =>
      apply noEmpty_relateAll_forward ih
      rintro rfl
      exact hsome worker mem_cons_self
    | takeLeases worker => exact noEmpty_unrelate_forward ih
    | recordCrash m => exact ih
    | resolveCommitted m => exact noEmpty_unrelate_backward (t := TwoWayIndex.flip _) ih

theorem attemptFailures_performed :
    (performed budget calls).attemptFailures.getD mote 0 = UInt32.ofNat (crashes mote calls) := by
  induction calls with
  | nil => rfl
  | cons call earlier ih =>
    cases call with
    | recordLease _ _ | takeLeases _ => exact ih
    | recordCrash m =>
      change ((performed budget earlier).attemptFailures.insert m _).getD mote 0 = _
      rw [ExtTreeMap.getD_insert, crashes]
      by_cases hm : m = mote
      · subst hm
        simp [ih]
      · simp [hm, ih]
    | resolveCommitted m =>
      change ((performed budget earlier).attemptFailures.erase m).getD mote 0 = _
      rw [ExtTreeMap.getD_erase, crashes]
      by_cases hm : m = mote
      · simp [hm]
      · simp [hm, ih]

theorem mem_crashFailed_performed :
    mote ∈ (performed budget calls).crashFailed ↔
      1 ≤ crashes mote calls ∧ UInt32.ofNat (crashes mote calls) < budget := by
  induction calls with
  | nil => simp [performed, new, crashes]
  | cons call earlier ih =>
    cases call with
    | recordLease _ _ | takeLeases _ => exact ih
    | recordCrash m =>
      rw [crashes]
      by_cases hm : m = mote
      · subst hm
        change m ∈ (if _ < budget then _ else _ : ExtTreeSet MoteId) ↔ _
        rw [attemptFailures_performed]
        split <;> simp_all
      · have hkeep : mote ∈ ((performed budget earlier).recordCrash m budget).crashFailed ↔
            mote ∈ (performed budget earlier).crashFailed := by
          unfold recordCrash
          dsimp only
          split <;> simp [ExtTreeSet.mem_insert, ExtTreeSet.mem_erase, hm]
        rw [if_neg hm]
        exact hkeep.trans ih
    | resolveCommitted m =>
      change mote ∈ ((performed budget earlier).resolveCommitted m).crashFailed ↔ _
      rw [mem_crashFailed_resolveCommitted, crashes, ih]
      by_cases hm : m = mote
      · simp [hm]
      · simp [hm, Ne.symm hm]

/-- After any calls without an empty lease, the two indexes are converse, neither keeps an empty
set, and the leasing workers are those that hold something. Short of a wrap of the counter, the
Motes to lease again are those with at least one crash and fewer than the budget. -/
theorem performed_consistent (hsome : ∀ w, Call.recordLease w [] ∉ calls)
    (hwrap : ∀ m, crashes m calls < 2 ^ 32) :
    let t := performed budget calls
    (∀ w m, m ∈ bucket t.leases.forward w ↔ w ∈ bucket t.leases.backward m) ∧
    NoEmpty t.leases.forward ∧ NoEmpty t.leases.backward ∧
    (∀ w, w ∈ t.leasingWorkers ↔ ∃ m, t.Holds w m) ∧
    ∀ m, m ∈ t.rescheduleable ↔ 1 ≤ crashes m calls ∧ crashes m calls < budget.toNat := by
  intro t
  have hforward := noEmpty_leases budget calls hsome
  refine ⟨t.leases.agrees, hforward, noEmpty_holders budget calls, fun w => ⟨fun hw => ?_, ?_⟩, ?_⟩
  · have hkey := ExtTreeMap.getElem?_eq_some_getElem (ExtTreeMap.mem_keys.1 hw)
    by_contra hnone
    rw [not_exists] at hnone
    apply hforward w
    rw [hkey, Option.some_inj, ExtTreeSet.eq_empty_iff_forall_not_mem]
    intro m hm
    apply hnone m
    unfold Holds TwoWayIndex.Related bucket
    rwa [ExtTreeMap.getD_eq_getD_getElem?, hkey]
  · rintro ⟨m, hm⟩
    exact mem_leasingWorkers hm
  · intro m
    have hcrashed := mem_crashFailed_performed m budget calls
    rwa [UInt32.lt_iff_toNat_lt, UInt32.toNat_ofNat_of_lt' (hwrap m)] at hcrashed

/-- A worker dies, and its Mote is leased to another. -/
theorem performed_consistent_handedOver :
    let m : MoteId := ⟨.replicate 32 0⟩
    let t := performed PURE_RETRY_BUDGET
      [.recordLease 8 [m], .recordCrash m, .takeLeases 7, .recordLease 7 [m]]
    8 ∈ t.leasingWorkers ∧ 7 ∉ t.leasingWorkers ∧ m ∈ t.rescheduleable := by
  intro m t
  have hwrap : ∀ k, crashes k
      [.recordLease 8 [m], .recordCrash m, .takeLeases 7, .recordLease 7 [m]] < 2 ^ 32 := by
    intro k
    simp only [crashes]
    split <;> decide
  obtain ⟨_, _, _, hworkers, hagain⟩ :=
    performed_consistent PURE_RETRY_BUDGET _ (by simp) hwrap
  refine ⟨(hworkers 8).2 ⟨m, holds_recordLease.2 (.inl ⟨rfl, mem_singleton_self _⟩)⟩, ?_,
    (hagain m).2 (by simp [crashes]; decide)⟩
  intro hseven
  obtain ⟨k, hheld⟩ := (hworkers 7).1 hseven
  rcases holds_recordLease.1 hheld with ⟨heq, _⟩ | hheld
  · cases heq
  · exact (holds_takeLeases.1 (holds_recordCrash.1 hheld)).1 rfl

/-- A poll that leases nothing leaves its worker among those that hold a lease. -/
theorem not_consistent_emptyLease :
    let t := performed PURE_RETRY_BUDGET [.recordLease 7 []]
    7 ∈ t.leasingWorkers ∧ t.leases.forward[(7 : WorkerId)]? = some ∅ ∧ ∀ m, ¬ t.Holds 7 m := by
  refine ⟨by decide, by decide, fun m hm => ?_⟩
  rcases holds_recordLease.1 hm with ⟨_, hin⟩ | hheld
  · cases hin
  · exact not_holds_new hheld

end LeaseTracker

end Kortecx.Coordinator
