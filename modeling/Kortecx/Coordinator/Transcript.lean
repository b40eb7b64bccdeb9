import Kortecx.Coordinator.Dedup

/-!
What a turn is told of the turns before it. The facts of a turn come one after the other, and
only the latest of them says which calls of the turn are recounted.
-/

namespace Kortecx.Coordinator

open Lib Mote Journal Projection Warrant List

/-- The committed result of a turn, and after it those of the calls that a fact of it names, in
their order. -/
def Platform.toldOf (P : Platform) (s : State) (store : Option Store) (chain : ChainKey)
    (r : ReactRoundRecord) : List (MoteId × ContentRef) :=
  ((s.resultRefOf r.turnMoteId).map fun ref => (r.turnMoteId, ref)).toList ++
    (firedCalls r.branch).zipIdx.filterMap fun call =>
      let obs := P.buildChainTool r.modelId call.1.1 call.1.2 r.turn chain.1 chain.2
        (u32OfNat call.2) r.turnMoteId
      (s.resultRefOf obs.id).map fun obsRef =>
        (obs.id, (P.rerankDeliveredRef s store chain.1 obsRef).getD obsRef)

/-- One fact of each turn before this one, in the order of the turns. -/
structure OnePerTurn (rounds : List ReactRoundRecord) (turn : UInt32)
    (told : List ReactRoundRecord) : Prop where
  ascending : told.Pairwise fun a b => a.turn < b.turn
  earlier : ∀ r ∈ told, r ∈ rounds ∧ r.turn < turn
  covers : ∀ x ∈ rounds, x.turn < turn → ∃ r ∈ told, r.turn = x.turn

/-- The fact of a turn tells all that any fact of the turn does. -/
structure Recounts (tells : ReactRoundRecord → List (MoteId × ContentRef))
    (rounds : List ReactRoundRecord) (turn : UInt32) (told : List ReactRoundRecord) : Prop
    extends OnePerTurn rounds turn told where
  complete : ∀ x ∈ rounds, x.turn < turn → ∀ r ∈ told, r.turn = x.turn → tells x <+ tells r

section Blocks

variable {tells : ReactRoundRecord → List (MoteId × ContentRef)}
  {rounds xs ys : List ReactRoundRecord} {turn : UInt32}

theorem eq_of_turn_eq (hxs : xs.Pairwise fun a b => a.turn ≠ b.turn) {a b : ReactRoundRecord}
    (ha : a ∈ xs) (hb : b ∈ xs) (hturn : a.turn = b.turn) : a = b := by
  by_contra hne
  have : Std.Symm fun a b : ReactRoundRecord => a.turn ≠ b.turn := ⟨fun _ _ => Ne.symm⟩
  exact hxs.forall ha hb hne hturn

theorem OnePerTurn.pairs (hxs : OnePerTurn rounds turn xs) (hys : OnePerTurn rounds turn ys) :
    Forall₂ (fun x y => x.turn = y.turn) xs ys := by
  have hsubset : ∀ {xs ys}, OnePerTurn rounds turn xs → OnePerTurn rounds turn ys →
      xs.map (·.turn) ⊆ ys.map (·.turn) := by
    intro xs ys hxs hys t ht
    obtain ⟨x, hx, rfl⟩ := mem_map.1 ht
    obtain ⟨hin, hlt⟩ := hxs.earlier x hx
    obtain ⟨y, hy, hturn⟩ := hys.covers x hin hlt
    exact mem_map.2 ⟨y, hy, hturn⟩
  have hturns : xs.map (·.turn) = ys.map (·.turn) :=
    Subset.antisymm_of_pairwise (pairwise_map.2 hxs.ascending) (pairwise_map.2 hys.ascending)
      (hsubset hxs hys) (hsubset hys hxs)
  rwa [← forall₂_eq_eq_eq, forall₂_map_left_iff, forall₂_map_right_iff] at hturns

/-- Where each turn tells no more in one list than in the other, and all of them together as
much, each tells the same. -/
theorem tells_eq_of_flatMap_eq (hpairs : Forall₂ (fun x y => x.turn = y.turn) xs ys)
    (hless : ∀ x ∈ xs, ∀ y ∈ ys, x.turn = y.turn → tells x <+ tells y) :
    xs.flatMap tells <+ ys.flatMap tells ∧ (xs.flatMap tells = ys.flatMap tells →
      ∀ x ∈ xs, ∃ y ∈ ys, x.turn = y.turn ∧ tells x = tells y) := by
  induction hpairs with
  | nil => simp
  | @cons x y xs ys hturn _ ih =>
    have hhead := hless x mem_cons_self y mem_cons_self hturn
    obtain ⟨hrest, heach⟩ := ih fun x hx y hy =>
      hless x (mem_cons_of_mem _ hx) y (mem_cons_of_mem _ hy)
    simp only [flatMap_cons]
    refine ⟨hhead.append hrest, fun heq => ?_⟩
    have hlength := congrArg List.length heq
    simp only [length_append] at hlength
    have hle := hrest.length_le
    have hsame : tells x = tells y := hhead.eq_of_length_le (by omega)
    rw [hsame] at heq
    intro z hz
    rcases mem_cons.1 hz with rfl | hz
    · exact ⟨y, mem_cons_self, hturn, hsame⟩
    · obtain ⟨v, hv, hzv⟩ := heach (append_cancel_left heq) z hz
      exact ⟨v, mem_cons_of_mem _ hv, hzv⟩

end Blocks

/-- The facts a history is taken from: the latest of each earlier turn. -/
theorem onePerTurn_latest (rounds : List ReactRoundRecord) (turn : UInt32) :
    let latest := ((rounds.filter fun r => r.turn < turn).foldl keepLatest []).mergeSort
      fun a b => a.turn ≤ b.turn
    OnePerTurn rounds turn latest ∧
      ∀ r ∈ latest, ∀ z ∈ rounds, z.turn = r.turn → z.seq ≤ r.seq := by
  intro latest
  have hlatest := latest_foldl (rounds.filter fun r => r.turn < turn)
  have hperm : latest.Perm _ := mergeSort_perm _ _
  have hdistinct := (hperm.pairwise_iff fun hne => Ne.symm hne).2 hlatest.distinct
  have hearlier : ∀ r ∈ latest, r ∈ rounds ∧ r.turn < turn := fun r hr => by
    simpa using hlatest.subset (hperm.mem_iff.1 hr)
  have hlatest : ∀ x ∈ rounds, x.turn < turn → ∃ r ∈ latest, r.turn = x.turn ∧ x.seq ≤ r.seq := by
    intro x hx hlt
    obtain ⟨r, hr, hturn⟩ := hlatest.latest x (mem_filter.2 ⟨hx, decide_eq_true hlt⟩)
    exact ⟨r, hperm.mem_iff.2 hr, hturn⟩
  refine ⟨⟨?_, hearlier, fun x hx hlt => ?_⟩, fun r hr z hz hturn => ?_⟩
  · have hsorted := @pairwise_mergeSort _ (fun a b : ReactRoundRecord => a.turn ≤ b.turn)
      (by simpa using fun _ _ _ => UInt32.le_trans)
      (by simpa using fun _ _ => UInt32.le_total _ _)
      ((rounds.filter fun r => r.turn < turn).foldl keepLatest [])
    apply (hsorted.and hdistinct).imp
    rintro a b ⟨hle, hne⟩
    exact UInt32.lt_of_le_of_ne (of_decide_eq_true hle) hne
  · obtain ⟨r, hr, hturn, -⟩ := hlatest x hx hlt
    exact ⟨r, hr, hturn⟩
  · obtain ⟨t, ht, hsame, hle⟩ := hlatest z hz (hturn ▸ (hearlier r hr).2)
    rwa [eq_of_turn_eq hdistinct hr ht (hturn.symm.trans hsame.symm)]

/-- A turn is told of every turn before it and of every committed call of theirs exactly if the
latest fact of each of them tells all that the facts before it do. -/
theorem resolveParentContext_recounts {P : Platform} {m : Mote} {s : State}
    {store : Option Store} {chain : ChainKey} {marker : ConfigVal} {this : ReactRoundRecord}
    (hcritic : m.def.criticFor = none) (hmarker : m.def.configSubset[REACT_TURN_KEY]? = some marker)
    (hchain : decodeReactMarker marker = some chain)
    (hthis : (s.reactRoundsOf chain.1 chain.2).find? (fun r => r.turnMoteId = m.id) = some this)
    (hseq : ∀ x ∈ s.reactRoundsOf chain.1 chain.2, ∀ y ∈ s.reactRoundsOf chain.1 chain.2,
      x.seq = y.seq → x = y)
    (defs : Std.ExtTreeMap MoteId (Mote × WarrantSpec)) :
    (∃ told, Recounts (P.toldOf s store chain) (s.reactRoundsOf chain.1 chain.2) this.turn told ∧
        P.resolveParentContext m s defs store = told.flatMap (P.toldOf s store chain)) ↔
      ∀ x ∈ s.reactRoundsOf chain.1 chain.2, x.turn < this.turn →
        ∀ y ∈ s.reactRoundsOf chain.1 chain.2, y.turn = x.turn →
          (∀ z ∈ s.reactRoundsOf chain.1 chain.2, z.turn = x.turn → z.seq ≤ y.seq) →
            P.toldOf s store chain x <+ P.toldOf s store chain y := by
  obtain ⟨hone, hlatest⟩ := onePerTurn_latest (s.reactRoundsOf chain.1 chain.2) this.turn
  have hcontext : P.resolveParentContext m s defs store =
      P.chainHistory s store chain this.turn := by
    unfold Platform.resolveParentContext
    rw [hcritic, hmarker]
    dsimp only
    rw [hchain]
    dsimp only
    rw [hthis]
  rw [hcontext]
  constructor
  · rintro ⟨told, htold, hsame⟩ x hx hlt y hy hyx hmax
    obtain ⟨l, hl, hlx⟩ := hone.covers x hx hlt
    obtain ⟨hlin, hllt⟩ := hone.earlier l hl
    have hly : l = y := hseq l hlin y hy
      (UInt64.le_antisymm (hmax l hlin hlx) (hlatest l hl y hy (hyx.trans hlx.symm)))
    obtain ⟨-, heach⟩ := tells_eq_of_flatMap_eq (hone.pairs htold.toOnePerTurn) fun l hl r hr h =>
      htold.complete l (hone.earlier l hl).1 (hone.earlier l hl).2 r hr h.symm
    obtain ⟨r, hr, hlr, htells⟩ := heach hsame l hl
    rw [← hly, htells]
    exact htold.complete x hx hlt r hr (hlr.symm.trans hlx)
  · intro hkept
    refine ⟨_, ⟨hone, fun x hx hlt r hr hturn => ?_⟩, rfl⟩
    exact hkept x hx hlt r (hone.earlier r hr).1 hturn fun z hz hz' =>
      hlatest r hr z hz (hz'.trans hturn.symm)

/-- The second turn of a run, as the run has it after its first call. -/
theorem resolveParentContext_recounts_callOnce :
    let w := agentAfter callOnce
    ∃ told, Recounts (agentPlatform.toldOf w.projection w.outside.store (agentChain ∅))
        (w.projection.reactRoundsOf (agentChain ∅).1 (agentChain ∅).2) 1 told ∧
      agentPlatform.resolveParentContext secondTurn w.projection w.dispatch.defs w.outside.store =
        told.flatMap (agentPlatform.toldOf w.projection w.outside.store (agentChain ∅)) := by
  intro w
  have hmarker : (secondTurn.def.configSubset[REACT_TURN_KEY]?).bind decodeReactMarker =
      some (agentChain ∅) := by decide +kernel
  obtain ⟨marker, hmarker, hchain⟩ := Option.bind_eq_some_iff.1 hmarker
  have hturn : ((w.projection.reactRoundsOf (agentChain ∅).1 (agentChain ∅).2).find?
      fun r => r.turnMoteId = secondTurn.id).map (·.turn) = some 1 := by decide +kernel
  obtain ⟨this, hthis, hone⟩ := Option.map_eq_some_iff.1 hturn
  rw [← hone]
  refine (resolveParentContext_recounts rfl hmarker hchain hthis (by decide +kernel) _).2 ?_
  rw [hone]
  decide +kernel

/-- The first turn asks for two calls. One fails for good and the other is made. -/
def splitBatch : List (List Command) :=
  [[registerSampleRun, submitSeed ∅], [.commit (commitText (agentTurn ∅).id [1, 2])],
    [poll 1, .commit (commitText (agentCall ∅ 1).id []),
      .reportFailure (agentCall ∅ 0).id (agentCall ∅ 0).id.bytes .deadLettered 1 ""],
    [.query]]

/-- The second turn is told of the first, and not of its call that was made. -/
theorem not_recounted_splitBatch :
    let w := agentAfter splitBatch
    let rounds := w.projection.reactRoundsOf (agentChain ∅).1 (agentChain ∅).2
    Reaches agentPlatform agentJournal Faultless (.up w []) ∧
      rounds.map (fun r => (r.turn, firedCalls r.branch)) =
        [(0, []), (0, [("echo", "1"), ("echo", "1")]), (0, []), (1, [])] ∧
      w.projection.stateOfId (agentCall ∅ 1).id = .committed ∧
      (rounds.getLast?.bind fun r => w.dispatch.defs[r.turnMoteId]?).map (fun d =>
        (agentPlatform.resolveParentContext d.1 w.projection w.dispatch.defs
          w.outside.store).map (·.1)) = some [(agentTurn ∅).id] := by
  have hreaches : Reaches agentPlatform agentJournal Faultless (.up (agentAfter splitBatch) []) :=
    reaches_batches agentOutside _ (by decide) (by decide +kernel)
  exact ⟨hreaches, by decide +kernel, by decide +kernel, by decide +kernel⟩

end Kortecx.Coordinator
