import Kortecx.Projection.Recovery

/-!
The children index through the life of a projection: Motes are registered, entries are
folded, and the state may be stored in a checkpoint and loaded again. Where a Mote's
edges come from can change under way, from its committed parents to its declared ones or
from one declaration to the next. The index is kept by replacing the edges of the one
Mote that changed, and is always the one that would be built from nothing.
-/

namespace Kortecx.Projection

open Lib Mote Journal Function Relation

namespace State

def ChildrenIndexed (s : State) : Prop :=
  ReverseIndex.Reverses s.parentsOfId s.children

variable {s s' : State}

theorem parentsOfId_moteinfoMut_of_ne {id : MoteId} (hne : k ≠ id) :
    (s.moteinfoMut id f).parentsOfId k = s.parentsOfId k := by
  rw [parentsOfId_eq, parentsOfId_eq, info_moteinfoMut, if_neg (Ne.symm hne)]

variable {f : MoteInfo → MoteInfo}

theorem parentsOfId_moteinfoMut (hf : KeepsParents f) (id : MoteId) :
    (s.moteinfoMut id f).parentsOfId = s.parentsOfId := by
  funext k
  rw [parentsOfId_eq, parentsOfId_eq, info_moteinfoMut]
  split
  · rename_i heq
    rw [hf, heq]
  · rfl

theorem childrenIndexed_default : ({} : State).ChildrenIndexed := by
  apply ReverseIndex.Represents.empty.congr
  intro p c
  rfl

theorem childrenIndexed_rebuildChildrenIndex (s : State) :
    s.rebuildChildrenIndex.ChildrenIndexed := by
  apply ReverseIndex.reverses_build Std.ExtTreeMap.ordered_keys
  intro c hc
  have hnone : s.motes[c]? = none := by
    rw [Std.ExtTreeMap.mem_keys, Std.ExtTreeMap.mem_iff_isSome_getElem?] at hc
    simpa using hc
  change s.parentsOfId c = []
  unfold parentsOfId
  rw [hnone]

variable (hs : s.ChildrenIndexed)

include hs

theorem ChildrenIndexed.eq_rebuild : s.children = s.rebuildChildrenIndex.children :=
  ReverseIndex.Represents.unique hs (childrenIndexed_rebuildChildrenIndex s)

/-- Only `child` has other parents than before, and its edges are replaced. -/
theorem ChildrenIndexed.reindex (hchildren : s'.children = s.children)
    (hparents : ∀ k, k ≠ child → s'.parentsOfId k = s.parentsOfId k) :
    (s'.reindexChildEdges child (s.parentsOfId child)).ChildrenIndexed := by
  have hupdate : s'.parentsOfId = update s.parentsOfId child (s'.parentsOfId child) := by
    funext k
    by_cases hk : k = child
    · rw [hk, update_self]
    · rw [update_of_ne hk, hparents k hk]
  rw [reindexChildEdges_eq]
  rw [hchildren]
  have hreplaced := ReverseIndex.Reverses.reindex hs child (s'.parentsOfId child)
  rwa [← hupdate] at hreplaced

theorem ChildrenIndexed.registerMote (reg : RegisterMote) :
    (registerMote s reg).ChildrenIndexed := by
  apply ChildrenIndexed.reindex hs
  · rfl
  · intro k hk
    exact parentsOfId_moteinfoMut_of_ne hk

theorem ChildrenIndexed.recordCommitted (e : Committed) :
    (recordCommitted s e).ChildrenIndexed := by
  apply ChildrenIndexed.reindex hs
  · rfl
  · intro k hk
    rw [parentsOfId_advance]
    exact parentsOfId_moteinfoMut_of_ne hk

theorem ChildrenIndexed.moteinfoMut (hf : KeepsParents f) (id : MoteId) :
    (s.moteinfoMut id f).ChildrenIndexed := by
  unfold ChildrenIndexed
  rw [parentsOfId_moteinfoMut hf]
  exact hs

theorem ChildrenIndexed.foldRunMetadata (e : JournalEntry) :
    (foldRunMetadata s e).ChildrenIndexed := by
  cases e with
  | reactRound e =>
    rw [foldRunMetadata_reactRound]
    exact hs
  | approval e =>
    rw [foldRunMetadata_approval]
    exact hs
  | _ => exact hs

/-- Also a fold that fails half way keeps the index. -/
theorem ChildrenIndexed.fold (materializer : Option TopologyMaterializer) (e : JournalEntry) :
    (fold materializer s e).1.ChildrenIndexed := by
  apply fold_preserves e hs
  · exact fun s id f hf hs => hs.moteinfoMut hf id
  · exact fun s seq hs => hs
  · exact fun s c _ hs => hs.recordCommitted c
  · exact fun s reg hs => hs.registerMote reg
  · exact fun s e hs => hs.foldRunMetadata e

/-- Loading a checkpoint brings back the same Motes and the same index. -/
theorem ChildrenIndexed.ofState (hstored : CheckpointState.ofState s' = .ofState s) :
    s'.ChildrenIndexed := by
  obtain ⟨hmotes, hchildren, _⟩ := CheckpointState.ext_iff.mp hstored
  change s'.motes = s.motes at hmotes
  change s'.children = s.children at hchildren
  have hparents : s'.parentsOfId = s.parentsOfId := by
    funext k
    unfold parentsOfId
    rw [hmotes]
  unfold ChildrenIndexed
  rw [hparents, hchildren]
  exact hs

end State

/-- What happens to the state of a projection. A materializer may answer differently at
each fold, and a checkpoint may be taken and loaded at any time. -/
inductive Step (blake3 : List UInt8 → ByteVec 32) (bincode : Bincode) : State → State → Prop where
  | register {s : State} (reg : RegisterMote) : Step blake3 bincode s (registerMote s reg)
  | fold {s : State} (materializer : Option TopologyMaterializer) (e : JournalEntry) :
      Step blake3 bincode s (fold materializer s e).1
  | reload {s s' : State} (hbincode : bincode.RoundTrips (.ofState s))
      (hload : (FoldCheckpoint.fromState blake3 bincode s).decodeState bincode = .ok s') :
      Step blake3 bincode s s'

variable {blake3 : List UInt8 → ByteVec 32} {bincode : Bincode}

theorem childrenIndexed_step {s : State} (hs : s.ChildrenIndexed)
    (hstep : Step blake3 bincode s s') : s'.ChildrenIndexed := by
  cases hstep with
  | register reg => exact hs.registerMote reg
  | fold materializer e => exact hs.fold materializer e
  | reload hbincode hload =>
    rw [decodeState_eq_toState rfl hbincode] at hload
    exact hs.ofState (toState_eq_ok hload).1

theorem childrenIndexed_run
    (hrun : ReflTransGen (Step blake3 bincode) {} s) : s.ChildrenIndexed := by
  induction hrun with
  | refl => exact State.childrenIndexed_default
  | tail _ hstep ih => exact childrenIndexed_step ih hstep

/-- At every point of a run the index is the one built from nothing: no parent without
children has an entry, each list is sorted by child, and the edges of one child stand in
the order of its parents list. -/
theorem children_eq_rebuildChildrenIndex {s : State}
    (hrun : ReflTransGen (Step blake3 bincode) {} s) :
    s.children = s.rebuildChildrenIndex.children ∧
      ∀ parent children, s.children[parent]? = some children →
        children ≠ [] ∧ (children.Pairwise fun a b => (compare a.1 b.1).isLE) ∧
          ∀ child, (children.filter fun a => a.1 = child).map (·.2) =
            ((s.parentsOfId child).filter fun edge => edge.1 = parent).map (·.2) := by
  have hs := childrenIndexed_run hrun
  refine ⟨hs.eq_rebuild, ?_⟩
  intro parent children hparent
  have hchildren : s.children.childrenOf parent = children := by
    unfold ReverseIndex.childrenOf
    rw [hparent]
    rfl
  refine ⟨?_, ?_, ?_⟩
  · intro hnil
    exact hs.nonempty parent (hparent.trans (congrArg some hnil))
  · rw [← hchildren]
    exact hs.sorted parent
  · intro child
    rw [← hchildren]
    exact hs.fibre parent child

def sampleId (byte : UInt8) : MoteId := ⟨.replicate 32 byte⟩

/-- Mote 3 is committed under parent 1 named twice, by a data and a control edge. -/
def committedTwiceUnder : JournalEntry :=
  .committed
    { moteId := sampleId 3
      idempotencyKey := .replicate 32 3
      seq := 2
      nondeterminism := .pure
      resultRef := ⟨.replicate 32 0⟩
      parents := [⟨sampleId 1, 0, 0⟩, ⟨sampleId 1, 1, 1⟩]
      warrantRef := ⟨.replicate 32 0⟩
      moteDefHash := ⟨.replicate 32 0⟩ }

def declaredUnder (parents : List ParentRef) : RegisterMote where
  moteId := sampleId 3
  ndClass := .pure
  effectPattern := .idempotentByConstruction
  criticFor := none
  isTopologyShaper := false
  parents := parents
  warrantRef := ⟨.replicate 32 0⟩

/-- A registered run is stored and loaded; then Mote 3 is committed, declared under other
parents, and declared again. -/
def reparented : State :=
  let committed := (fold none (registeredAt 1) committedTwiceUnder).1
  let declared := registerMote committed
    (declaredUnder [⟨sampleId 2, .data, false⟩, ⟨sampleId 1, .data, false⟩])
  registerMote declared (declaredUnder [⟨sampleId 1, .control, true⟩, ⟨sampleId 1, .data, false⟩])

theorem children_eq_rebuildChildrenIndex_reparented :
    ReflTransGen (Step sampleBlake3 registrationBincode) {} reparented ∧
      reparented.children[sampleId 1]? =
        some [(sampleId 3, ⟨.control, true⟩), (sampleId 3, ⟨.data, false⟩)] ∧
      reparented.children = reparented.rebuildChildrenIndex.children := by
  have hregistered : (fold none {} (.runRegistered ⟨sampleRegistration.instanceId,
      sampleRegistration.recipeFingerprint, 0, 1⟩)).1 = registeredAt 1 := rfl
  have hreload : Step sampleBlake3 registrationBincode (registeredAt 1) (registeredAt 1) := by
    have hbincode : registrationBincode.RoundTrips (.ofState (registeredAt 1)) :=
      roundTrips_registration
    exact .reload hbincode (decodeState_eq_toState rfl hbincode)
  have hrun : ReflTransGen (Step sampleBlake3 registrationBincode) {} reparented :=
    .tail (.tail (.tail (.tail (.tail .refl (hregistered ▸ .fold none _)) hreload)
      (.fold none committedTwiceUnder)) (.register _)) (.register _)
  exact ⟨hrun, by decide, (children_eq_rebuildChildrenIndex hrun).1⟩

end Kortecx.Projection
