import Kortecx.Coordinator.AgentLoop

/-!
Repeated calls. Before a single call is frozen it is compared with all calls that earlier
turns of the chain fired, decoded again from what those turns committed. A turn fires at most
once, so a fact that supersedes it does not hide what it fired.
-/

namespace Kortecx.Coordinator

open Lib Mote Journal Projection Warrant Platform List Option

theorem isDuplicateCall_eq_false_of_subset
    (hsubset : prior' ⊆ prior) (hnone : isDuplicateCall call prior = false) :
    isDuplicateCall call prior' = false := by
  apply Bool.eq_false_iff.2
  intro hany
  obtain ⟨p, hp, hsame⟩ := any_eq_true.1 hany
  exact Bool.eq_false_iff.1 hnone (any_eq_true.2 ⟨p, hsubset hp, hsame⟩)

/-- A turn fires at most once. -/
theorem Grown.fires_unique
    (hgrown : Grown front last) : ∀ x ∈ front ++ [last], ∀ y ∈ front ++ [last],
      firesTool x.branch = true → firesTool y.branch = true → x.turn = y.turn → x = y := by
  induction hgrown with
  | anchor =>
    intro x hx y hy _ _ _
    rw [mem_singleton.1 hx, mem_singleton.1 hy]
  | @more front last r hgrown hnext _ _ ih =>
    -- A fact that fires is the first of its turn after the pending one.
    have hfirst : firesTool r.branch = true → ∀ x ∈ front ++ [last],
        firesTool x.branch = true → x.turn ≠ r.turn := by
      intro hfires x hx hxfires heq
      cases hnext with
      | freezes hturn _ _ _ hpending =>
        rw [hturn] at heq
        rcases mem_append.1 hx with hx | hx
        · exact hgrown.turn_ne_of_pending (hpending hfires) x hx heq
        rw [mem_singleton.1 hx, hpending hfires] at hxfires
        cases hxfires
      | advances _ hbranch =>
        rw [hbranch] at hfires
        cases hfires
    intro x hx y hy hxfires hyfires heq
    rcases mem_append.1 hx with hx | hx <;> rcases mem_append.1 hy with hy | hy
    · exact ih x hx y hy hxfires hyfires heq
    · rw [mem_singleton.1 hy] at hyfires heq
      exact absurd heq (hfirst hyfires x hx hxfires)
    · rw [mem_singleton.1 hx] at hxfires heq
      exact absurd heq.symm (hfirst hxfires y hy hyfires)
    · rw [mem_singleton.1 hx, mem_singleton.1 hy]

section Prior

variable {facts turns : List ReactRoundRecord}

structure Latest (facts turns : List ReactRoundRecord) : Prop where
  subset : turns ⊆ facts
  distinct : turns.Pairwise fun a b => a.turn ≠ b.turn
  latest : ∀ x ∈ facts, ∃ t ∈ turns, t.turn = x.turn ∧ x.seq ≤ t.seq

theorem Latest.keep (hlatest : Latest facts turns) (r : ReactRoundRecord) :
    Latest (facts ++ [r]) (keepLatest turns r) := by
  let newer := fun t : ReactRoundRecord => if t.turn = r.turn ∧ t.seq < r.seq then r else t
  have hnewer : ∀ t, (newer t = r ∨ newer t = t) ∧ (newer t).turn = t.turn ∧
      t.seq ≤ (newer t).seq ∧ (t.turn = r.turn → r.seq ≤ (newer t).seq) := by
    intro t
    grind
  have hold : ∀ x ∈ turns, x ∈ facts ++ [r] := fun x hx => mem_append_left _ (hlatest.subset hx)
  unfold keepLatest
  split
  · rename_i hany
    obtain ⟨u, hu, hturn⟩ := any_eq_true.1 hany
    refine ⟨fun t ht => ?_, ?_, fun x hx => ?_⟩
    · obtain ⟨u, hu, rfl⟩ := mem_map.1 ht
      change newer u ∈ _
      rcases (hnewer u).1 with heq | heq <;> rw [heq]
      · exact mem_append_right _ (mem_singleton_self r)
      · exact hold u hu
    · rw [pairwise_map]
      exact hlatest.distinct.imp fun hne => by rwa [(hnewer _).2.1, (hnewer _).2.1]
    · rcases mem_append.1 hx with hx | hx
      · obtain ⟨t, ht, hsame, hle⟩ := hlatest.latest x hx
        exact ⟨newer t, mem_map_of_mem ht, (hnewer t).2.1.trans hsame,
          UInt64.le_trans hle (hnewer t).2.2.1⟩
      · have hsame : u.turn = r.turn := of_decide_eq_true hturn
        rw [mem_singleton.1 hx]
        exact ⟨newer u, mem_map_of_mem hu, (hnewer u).2.1.trans hsame, (hnewer u).2.2.2 hsame⟩
  · rename_i hnone
    have hother : ∀ t ∈ turns, t.turn ≠ r.turn := by simpa using hnone
    refine ⟨fun t ht => ?_, ?_, fun x hx => ?_⟩
    · rcases mem_append.1 ht with ht | ht
      · exact hold t ht
      · exact mem_append_right _ ht
    · rw [pairwise_append]
      exact ⟨hlatest.distinct, pairwise_singleton _ _, by simpa using hother⟩
    · rcases mem_append.1 hx with hx | hx
      · obtain ⟨t, ht, hsame⟩ := hlatest.latest x hx
        exact ⟨t, mem_append_left _ ht, hsame⟩
      · exact ⟨x, mem_append_right _ hx, rfl, UInt64.le_refl _⟩

theorem latest_foldl (facts : List ReactRoundRecord) :
    Latest facts (facts.foldl keepLatest []) := by
  induction facts using reverseRecOn with
  | nil => exact ⟨by simp, .nil, by simp⟩
  | append_singleton facts r ih =>
    rw [foldl_append]
    exact ih.keep r

/-- The fact of a turn that has no other is kept. -/
theorem mem_foldl_keepLatest (hx : x ∈ facts)
    (honly : ∀ t ∈ facts, t.turn = x.turn → t = x) : x ∈ facts.foldl keepLatest [] := by
  obtain ⟨t, ht, hturn, _⟩ := (latest_foldl facts).latest x hx
  rwa [← honly t ((latest_foldl facts).subset ht) hturn]

end Prior

variable {P : Platform}

section Freezing

variable {s : State} {store : Store} {rounds : List ReactRoundRecord} {turn : UInt32}
  {warrant : WarrantSpec} {raw : List UInt8} {lookup : ToolName → ToolVersion → Option ToolDef}

/-- What an earlier turn fired is among the prior calls, if what it committed can be read. -/
theorem subset_collectPriorFiredCalls
    (hx : x ∈ rounds) (hearlier : x.turn < turn) (hfires : firesTool x.branch = true)
    (hunique : ∀ y ∈ rounds, firesTool y.branch = true → y.turn = x.turn → y = x)
    (hraw : (s.resultRefOf x.turnMoteId).bind store.get = some raw)
    (hcalls : P.parseToolCalls raw warrant (P.maxArgsBytes warrant) = .ok calls) :
    calls ⊆ P.collectPriorFiredCalls s store rounds turn warrant := by
  have hfact : x ∈ rounds.filter fun r => r.turn < turn && firesTool r.branch :=
    mem_filter.2 ⟨hx, by simp [hearlier, hfires]⟩
  have hkept : x ∈ (rounds.filter fun r => r.turn < turn && firesTool r.branch).foldl
      keepLatest [] := by
    refine mem_foldl_keepLatest hfact fun t ht => ?_
    obtain ⟨hmem, hboth⟩ := mem_filter.1 ht
    exact hunique t hmem (Bool.and_eq_true_iff.1 hboth).2
  intro call hcall
  refine mem_flatMap.2 ⟨x, (mergeSort_perm _ _).mem_iff.2 hkept, ?_⟩
  rw [hraw]
  dsimp only
  rw [hcalls]
  exact hcall

/-- A turn that fires committed an output that decodes to calls. -/
theorem exists_calls_of_fires
    (hfires : firesTool (P.branchOfTurn s store lookup rounds turn warrant raw) = true) :
    ∃ calls, P.parseToolCalls raw warrant (P.maxArgsBytes warrant) = .ok calls := by
  unfold branchOfTurn at hfires
  split at hfires
  · cases hfires
  rename_i calls hparse
  exact ⟨calls, hparse⟩

/-- A turn that is frozen as a single call asks for one call, and repeats none. -/
theorem fresh_of_tool
    (htool : P.branchOfTurn s store lookup rounds turn warrant raw = .tool toolId toolVersion) :
    ∃ call, P.parseToolCalls raw warrant (P.maxArgsBytes warrant) = .ok [call] ∧
      P.isDuplicateCall call (P.collectPriorFiredCalls s store rounds turn warrant) = false := by
  have hfired : firedCalls (P.branchOfTurn s store lookup rounds turn warrant raw) =
      [(toolId, toolVersion)] := by
    rw [htool]
    rfl
  have hsome : firedCalls (P.branchOfTurn s store lookup rounds turn warrant raw) ≠ [] := by
    rw [hfired]
    simp
  obtain ⟨calls, hparse, hcalls, -, -⟩ := decoded_of_fired hsome
  rw [hfired] at hcalls
  obtain ⟨call, rfl⟩ : ∃ call, calls = [call] :=
    length_eq_one_iff.1 (by simpa using (congrArg List.length hcalls).symm)
  refine ⟨call, hparse, ?_⟩
  unfold branchOfTurn at htool
  rw [hparse] at htool
  dsimp only at htool
  split at htool
  · cases htool
  rename_i hfresh
  exact Bool.eq_false_iff.2 hfresh

end Freezing

/-- The calls of a turn of a chain, decoded from what it committed under the chain's
warrant. -/
def Platform.callsOf (P : Platform) (output : MoteId → List UInt8) (warrantText : List UInt8)
    (x : ReactRoundRecord) : Option (List ToolCall) := do
  let warrant ← P.decodeWarrant warrantText
  (P.parseToolCalls (output x.turnMoteId) warrant (P.maxArgsBytes warrant)).toOption

/-- The store has what the turns of the chain committed, and its warrant if it has one is this
one. -/
def ReadsTurns {J : Backend} (output : MoteId → List UInt8) (warrantText : List UInt8)
    (chain : ChainKey) (w : Core J) : Prop :=
  ∀ store ∈ w.outside.store, ∀ x ∈ w.projection.reactRoundsOf chain.1 chain.2,
    (∀ ref ∈ w.projection.resultRefOf x.turnMoteId, store.get ref = some (output x.turnMoteId)) ∧
    ∀ text ∈ store.get x.warrantRef, text = warrantText

/-- The calls the turns of a chain fired: those of a single call repeat none of those before
it. -/
structure Unrepeated (P : Platform) (output : MoteId → List UInt8) (warrantText : List UInt8)
    (info : MoteId → MoteInfo) (rounds : List ReactRoundRecord) : Prop where
  committed : ∀ x ∈ rounds, firesTool x.branch = true →
    (info x.turnMoteId).committed.isSome = true ∧
      ∃ calls, P.callsOf output warrantText x = some calls
  fresh : ∀ x ∈ rounds, ∀ y ∈ rounds, x.turn < y.turn → firesTool x.branch = true →
    ∀ toolId toolVersion, y.branch = .tool toolId toolVersion →
    ∃ call calls, P.callsOf output warrantText y = some [call] ∧
      P.callsOf output warrantText x = some calls ∧ isDuplicateCall call calls = false

variable {J : Backend} {output : MoteId → List UInt8} {warrantText : List UInt8} {chain : ChainKey}

section Steps

variable {w : Core J} {front : List ReactRoundRecord} {anchor last : ReactRoundRecord}
  {r : ReactRound}

theorem Unrepeated.mono (h : Unrepeated P output warrantText info rounds)
    (hmono : ∀ id, (info id).committed.isSome = true → (info' id).committed.isSome = true) :
    Unrepeated P output warrantText info' rounds :=
  ⟨fun x hx hfires => (h.committed x hx hfires).imp_left (hmono _), h.fresh⟩

/-- A fact that fires nothing changes nothing. -/
theorem Unrepeated.append {r : ReactRoundRecord} (h : Unrepeated P output warrantText info rounds)
    (hfires : firesTool r.branch = false) (hlast : ∀ x ∈ rounds, ¬ r.turn < x.turn) :
    Unrepeated P output warrantText info (rounds ++ [r]) := by
  refine ⟨?_, ?_⟩
  · intro x hx hxfires
    rcases mem_append.1 hx with hx | hx
    · exact h.committed x hx hxfires
    rw [mem_singleton.1 hx, hfires] at hxfires
    cases hxfires
  · intro x hx y hy hlt hxfires toolId toolVersion htool
    rcases mem_append.1 hy with hy | hy
    · rcases mem_append.1 hx with hx | hx
      · exact h.fresh x hx y hy hlt hxfires toolId toolVersion htool
      rw [mem_singleton.1 hx] at hlt
      exact absurd hlt (hlast y hy)
    · rw [mem_singleton.1 hy] at htool
      rw [htool] at hfires
      cases hfires

variable (hdup : P.isDuplicateCall = isDuplicateCall)
  (h : Unrepeated P output warrantText w.projection.info (front ++ [last]))
  (hgrown : Grown front last) (hhead : (front ++ [last]).head? = some anchor)
  (hreads : ReadsTurns output warrantText chain w)
  (hrounds : w.projection.reactRoundsOf chain.1 chain.2 = front ++ [last])

include hdup h hgrown hhead hreads hrounds

/-- The turn that is frozen is compared with all that fired before it. -/
theorem Unrepeated.froze (hstore : w.outside.store = some store)
    (hraw : (w.projection.resultRefOf last.turnMoteId).bind store.get = some raw)
    (hwarrant : (store.get anchor.warrantRef).bind P.decodeWarrant = some warrant) (seq : UInt64) :
    Unrepeated P output warrantText w.projection.info (front ++ [last] ++
      [{ frozen anchor last (P.branchOfTurn w.projection store w.outside.lookup (front ++ [last])
        last.turn warrant raw) with seq }]) := by
  have hread : ∀ x ∈ front ++ [last],
      (∀ ref ∈ w.projection.resultRefOf x.turnMoteId, store.get ref = some (output x.turnMoteId)) ∧
      ∀ text ∈ store.get x.warrantRef, text = warrantText := fun x hx =>
    hreads store hstore x (hrounds ▸ hx)
  have hdecode : P.decodeWarrant warrantText = some warrant := by
    obtain ⟨text, htext, hdecoded⟩ := bind_eq_some_iff.1 hwarrant
    rwa [(hread anchor (mem_of_mem_head? hhead)).2 text htext] at hdecoded
  have hcallsOf : ∀ x : ReactRoundRecord, ∀ calls,
      P.parseToolCalls (output x.turnMoteId) warrant (P.maxArgsBytes warrant) = .ok calls ↔
        P.callsOf output warrantText x = some calls := by
    intro x calls
    unfold callsOf
    rw [hdecode]
    change _ ↔ (P.parseToolCalls _ warrant _).toOption = some calls
    cases P.parseToolCalls (output x.turnMoteId) warrant (P.maxArgsBytes warrant) <;>
      simp [Except.toOption]
  have houtput : raw = output last.turnMoteId ∧
      (w.projection.info last.turnMoteId).committed.isSome = true := by
    obtain ⟨ref, href, hget⟩ := bind_eq_some_iff.1 hraw
    obtain ⟨c, hc, -⟩ := map_eq_some_iff.1 href
    rw [(hread last (by simp)).1 ref href] at hget
    exact ⟨(Option.some.inj hget).symm, isSome_of_eq_some hc⟩
  obtain ⟨rfl, hcommitted⟩ := houtput
  have hearlier : ∀ x ∈ front, x.turn ≤ last.turn := fun x hx =>
    UInt32.le_iff_toNat_le.2 (hgrown.le_last x hx).1
  refine ⟨?_, ?_⟩
  · intro x hx hfires
    rcases mem_append.1 hx with hx | hx
    · exact h.committed x hx hfires
    rw [mem_singleton.1 hx] at hfires ⊢
    obtain ⟨calls, hcalls⟩ := exists_calls_of_fires hfires
    exact ⟨hcommitted, calls, (hcallsOf last calls).1 hcalls⟩
  · intro x hx y hy hlt hfires toolId toolVersion htool
    rcases mem_append.1 hx with hx | hx
    · rcases mem_append.1 hy with hy | hy
      · exact h.fresh x hx y hy hlt hfires toolId toolVersion htool
      rw [mem_singleton.1 hy] at htool hlt
      obtain ⟨call, hcall, hfresh⟩ := fresh_of_tool htool
      obtain ⟨hxcommitted, calls, hcalls⟩ := h.committed x hx hfires
      obtain ⟨c, hc⟩ := isSome_iff_exists.1 hxcommitted
      have hresult : w.projection.resultRefOf x.turnMoteId = some c.resultRef := by
        unfold State.resultRefOf
        rw [hc]
        rfl
      have hraw' : (w.projection.resultRefOf x.turnMoteId).bind store.get =
          some (output x.turnMoteId) := by
        rw [hresult]
        exact (hread x hx).1 _ hresult
      have hsubset := subset_collectPriorFiredCalls hx hlt hfires
        (fun z hz hzfires hturn => hgrown.fires_unique z hz x hx hzfires hfires hturn) hraw'
        ((hcallsOf x calls).2 hcalls)
      rw [hdup] at hfresh
      rw [mem_singleton.1 hy]
      exact ⟨call, calls, (hcallsOf last [call]).1 hcall, hcalls,
        isDuplicateCall_eq_false_of_subset hsubset hfresh⟩
    · -- The new fact is of the last turn, so that no fact is later.
      rw [mem_singleton.1 hx] at hlt
      rcases mem_append.1 hy with hy | hy
      · rcases mem_append.1 hy with hy | hy
        · exact absurd hlt (UInt32.not_lt.2 (hearlier y hy))
        rw [mem_singleton.1 hy] at hlt
        exact absurd hlt (UInt32.lt_irrefl _)
      · rw [mem_singleton.1 hy] at hlt
        exact absurd hlt (UInt32.lt_irrefl _)

/-- A fact that goes on from the last one repeats no call. -/
theorem Unrepeated.goes (hr : Continues P w (front ++ [last]) anchor last r)
    (hgrown' : Grown (front ++ [last]) { r with seq }) :
    Unrepeated P output warrantText w.projection.info (front ++ [last] ++ [{ r with seq }]) := by
  have hlast : ∀ x ∈ front ++ [last], ¬ ({ r with seq } : ReactRoundRecord).turn < x.turn := by
    intro x hx hlt
    rw [UInt32.lt_iff_toNat_lt] at hlt
    exact absurd hlt (Nat.not_lt.2 (hgrown'.le_last x hx).1)
  cases hr with
  | froze _ _ hstore hraw hwarrant =>
    exact h.froze hdup hgrown hhead hreads hrounds hstore hraw hwarrant seq
  | _ => exact h.append rfl hlast

end Steps

section Runs

variable {rel : J.State → List JournalEntry → Prop}

structure UnrepeatedLog (P : Platform) (output : MoteId → List UInt8) (warrantText : List UInt8)
    (chain : ChainKey) (info : MoteId → MoteInfo) (log : List JournalEntry) : Prop where
  orderly : Orderly log
  unrepeated : Unrepeated P output warrantText info (chainRounds log chain)

theorem UnrepeatedLog.did (hdup : P.isDuplicateCall = isDuplicateCall) {w : Core J}
    (hlog : UnrepeatedLog P output warrantText chain w.projection.info log)
    (hmirrored : Mirrored rel w log) (hguarded : P.Guarded w e)
    (hreads : ReadsTurns output warrantText chain w) (hplaces : PlacesFacts P Set.univ w e)
    (hdid : Did P.ids.blake3 w log e new w') :
    UnrepeatedLog P output warrantText chain w'.projection.info (log ++ new) := by
  have horderly := hlog.orderly.did hmirrored hguarded hplaces hdid
  refine ⟨horderly, ?_⟩
  have hmono : ∀ id, (w.projection.info id).committed.isSome = true →
      (w'.projection.info id).committed.isSome = true := by
    intro id hsome
    refine hdid.info_preserves (R := fun info => info.committed.isSome = true) ?_ ?_ hsome
    · intro info info' hsame hinfo
      rw [MoteInfo.eq_of_undeclared hsame]
      exact hinfo
    · intro x _ hsubject info hinfo
      rw [(advances_after hsubject).committed, hinfo, Bool.true_or]
  apply Unrepeated.mono _ hmono
  have hrounds := hmirrored.chainRounds_eq chain
  have hunrepeated := hlog.unrepeated
  have hextends := hdid.extends hmirrored hguarded hplaces chain
  generalize hbefore : chainRounds log chain = rounds at hextends hunrepeated hrounds
  generalize hafter : chainRounds (log ++ new) chain = rounds' at hextends
  cases hextends with
  | same => exact hunrepeated
  | starts _ hanchors =>
    refine hunrepeated.append ?_ (by simp)
    rw [hanchors.branch]
    rfl
  | goes _ _ hhead hr =>
    exact hunrepeated.goes hdup (hlog.orderly.grown hbefore) hhead hreads hrounds hr
      (horderly.grown hafter)

def unrepeatedRuns (J : Backend) (rel : J.State → List JournalEntry → Prop)
    (output : MoteId → List UInt8) (warrantText : List UInt8) (chain : ChainKey)
    (hdup : P.isDuplicateCall = isDuplicateCall) : RunInvariant P J rel fun w e =>
      (Lasting Set.univ w e ∧ ReadsTurns output warrantText chain w) ∧
        PlacesFacts P Set.univ w e where
  up w log := UnrepeatedLog P output warrantText chain w.projection.info log
  down log := ∃ s, replay none {} log = .ok s ∧
    UnrepeatedLog P output warrantText chain s.info log
  boot _ _ hreplay _ := of_replay hreplay
  facing _ hup := hup
  crash hmirrored hup := by
    obtain ⟨s, hs, hjournaled⟩ := hmirrored.journaled
    refine ⟨s, hs, hup.orderly, hup.unrepeated.mono fun id hsome => ?_⟩
    have hsame := ((State.journaled_eq_iff.1 hjournaled).1 id).symm
    exact (congrArg (fun i : MoteInfo => i.committed.isSome) hsame).trans hsome
  step hmirrored hup hguarded he hdid _ := hup.did hdup hmirrored hguarded he.1.2 he.2 hdid

/-- In every run in which the store has what the turns of a chain committed, a single call of
the chain repeats no call that an earlier turn fired, whatever became of that turn. -/
theorem unrepeated_of_reaches (hJ : IsJournal P J) (hdup : P.isDuplicateCall = isDuplicateCall)
    {w : Core J} {todo : List Action}
    (hreaches : Reaches P J (fun w e => Faultless w e ∧ ReadsTurns output warrantText chain w)
      (.up w todo)) {x y : ReactRoundRecord}
    (hx : x ∈ w.projection.reactRoundsOf chain.1 chain.2)
    (hy : y ∈ w.projection.reactRoundsOf chain.1 chain.2) (hlater : x.turn < y.turn)
    (hfires : firesTool x.branch = true) {toolId toolVersion : String}
    (htool : y.branch = .tool toolId toolVersion) :
    ∃ call calls, P.callsOf output warrantText y = some [call] ∧
      P.callsOf output warrantText x = some calls ∧ isDuplicateCall call calls = false := by
  obtain ⟨rel, hreads⟩ := hJ.readsBack
  obtain ⟨log, hmirrored, hlog⟩ := holds_of_reaches_of_order hreads
    (I := unrepeatedRuns J rel output warrantText chain hdup) (fun _ _ hlog => hlog.orderly)
    ⟨{}, rfl, orderly_nil, by simp [chainRounds], by simp [chainRounds]⟩
    (hreaches.mono fun _ _ he => ⟨lasting_univ he.1, he.2⟩)
  rw [hmirrored.chainRounds_eq chain] at hx hy
  exact hlog.unrepeated.fresh x hx y hy hlater hfires toolId toolVersion htool

end Runs

instance {J : Backend} (output : MoteId → List UInt8) (warrantText : List UInt8) (chain : ChainKey)
    (w : Core J) : Decidable (ReadsTurns output warrantText chain w) := by
  unfold ReadsTurns
  infer_instance

def secondTurn : Mote :=
  agentPlatform.buildChainTurn "model" "go" 1 (agentChain ∅).1 (agentChain ∅).2
    ({} : WarrantSpec).modelRoute.maxOutputTokens

def callTwice : List (List Command) :=
  callOnce ++ [[.commit (commitText secondTurn.id [2])]]

def twoOutputs (id : MoteId) : List UInt8 :=
  if id = secondTurn.id then [2] else [1]

theorem unrepeated_of_reaches_callTwice :
    let w := agentAfter callTwice
    ∃ x ∈ w.projection.reactRoundsOf (agentChain ∅).1 (agentChain ∅).2,
      ∃ y ∈ w.projection.reactRoundsOf (agentChain ∅).1 (agentChain ∅).2,
      x.turn < y.turn ∧ ∃ call calls,
        agentPlatform.callsOf twoOutputs (agentPlatform.encodeWarrant {}) y = some [call] ∧
        agentPlatform.callsOf twoOutputs (agentPlatform.encodeWarrant {}) x = some calls ∧
        isDuplicateCall call calls = false := by
  have hreaches : Reaches agentPlatform agentJournal (fun w e => Faultless w e ∧
      ReadsTurns twoOutputs (agentPlatform.encodeWarrant {}) (agentChain ∅) w)
      (.up (agentAfter callTwice) []) :=
    reaches_batches agentOutside _ (by decide) (by decide +kernel)
  have hfacts : ∃ x ∈ (agentAfter callTwice).projection.reactRoundsOf (agentChain ∅).1
      (agentChain ∅).2, ∃ y ∈ (agentAfter callTwice).projection.reactRoundsOf (agentChain ∅).1
      (agentChain ∅).2, x.turn < y.turn ∧ firesTool x.branch = true ∧
        y.branch = .tool "echo" "1" := by decide +kernel
  obtain ⟨x, hx, y, hy, hlater, hfires, htool⟩ := hfacts
  exact ⟨x, hx, y, hy, hlater,
    unrepeated_of_reaches (.inl rfl) rfl hreaches hx hy hlater hfires htool⟩

end Kortecx.Coordinator
