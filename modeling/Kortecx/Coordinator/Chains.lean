import Kortecx.Coordinator.Chores
import Kortecx.Coordinator.Runs
import Kortecx.Projection.ChainIndex

/-!
The facts of a chain of model turns. A chain starts with the pending fact of its turn 0, and
goes on from its last fact alone: a pending turn is frozen into a branch, a turn that fired
tools may be superseded or given up, and a turn that is done with is followed by the next, if
the budget allows one.
-/

namespace Kortecx.Coordinator

open Lib Mote Journal Projection Warrant List

def chainRounds (log : List JournalEntry) (chain : ChainKey) : List ReactRoundRecord :=
  (log.filterMap reactRoundOf).filter (inChain chain.1 chain.2)

/-- A chain goes on after this branch. -/
def isOpen : ReactBranch → Bool
  | .answer | .deadLettered => false
  | _ => true

/-- The turn is done with, and the next may follow. -/
def isSpent : ReactBranch → Bool
  | .tool .. | .toolBatch _ | .rejected _ => true
  | _ => false

def spentCalls (rounds : List ReactRoundRecord) : Nat :=
  (rounds.map fun r => callsSpent r.branch).sum

inductive Next (rounds : List ReactRoundRecord) (last r : ReactRoundRecord) : Prop where
  | freezes (hturn : r.turn = last.turn) (hmote : r.turnMoteId = last.turnMoteId)
      (hbranch : r.branch ≠ .pending) (hopen : isOpen last.branch = true)
      (hfires : firesTool r.branch = true → last.branch = .pending)
  | advances (hturn : r.turn.toNat = last.turn.toNat + 1) (hbranch : r.branch = .pending)
      (hspent : isSpent last.branch = true) (hcalls : spentCalls rounds < last.maxToolCalls.toNat)
      (hturns : last.turn.toNat + 1 < last.maxTurns.toNat)

structure Budgeted (r : ReactRoundRecord) : Prop where
  turns : 0 < r.maxTurns.toNat ∧ r.maxTurns ≤ REACT_MAX_TURNS
  calls : 0 < r.maxToolCalls.toNat ∧ r.maxToolCalls ≤ REACT_MAX_TOOL_CALLS

/-- The facts of a chain that was driven as it should be: those before the last, and the
last. -/
inductive Grown : List ReactRoundRecord → ReactRoundRecord → Prop
  | anchor {r : ReactRoundRecord} (hturn : r.turn = 0) (hbranch : r.branch = .pending)
      (hbudget : Budgeted r) : Grown [] r
  | more {front : List ReactRoundRecord} {last r : ReactRoundRecord} (hgrown : Grown front last)
      (hnext : Next (front ++ [last]) last r)
      (hbudget : r.maxTurns = last.maxTurns ∧ r.maxToolCalls = last.maxToolCalls)
      (hseq : ∀ x ∈ front ++ [last], x.seq < r.seq) : Grown (front ++ [last]) r

variable {front : List ReactRoundRecord} {last : ReactRoundRecord}

namespace Grown

variable (hgrown : Grown front last)

include hgrown

/-- No fact is of a later turn than the last one, and none has a later seq. -/
theorem le_last : ∀ x ∈ front, x.turn.toNat ≤ last.turn.toNat ∧ x.seq < last.seq := by
  induction hgrown with
  | anchor => simp
  | @more front prev r _ hnext _ hseq ih =>
    have hturn : prev.turn.toNat ≤ r.turn.toNat := by
      cases hnext with
      | freezes hturn => rw [hturn]
      | advances hturn => omega
    intro x hx
    refine ⟨?_, hseq x hx⟩
    rcases mem_append.1 hx with hx | hx
    · exact (ih x hx).1.trans hturn
    · rwa [mem_singleton.1 hx]

/-- The budgets are those the chain was started with, and its turns stay below them. -/
theorem budgeted : Budgeted last ∧ last.turn.toNat < last.maxTurns.toNat ∧
      ∀ x ∈ front, x.maxTurns = last.maxTurns ∧ x.maxToolCalls = last.maxToolCalls := by
  induction hgrown with
  | anchor hturn _ hbudget =>
    refine ⟨hbudget, ?_, by simp⟩
    rw [hturn]
    exact hbudget.turns.1
  | more _ hnext hbudget _ ih =>
    obtain ⟨hprev, hturns, hsame⟩ := ih
    refine ⟨⟨?_, ?_⟩, ?_, ?_⟩
    · rw [hbudget.1]
      exact hprev.turns
    · rw [hbudget.2]
      exact hprev.calls
    · rw [hbudget.1]
      cases hnext with
      | freezes hturn | advances hturn _ _ _ _ => rwa [hturn]
    · intro x hx
      rw [hbudget.1, hbudget.2]
      rcases mem_append.1 hx with hx | hx
      · exact hsame x hx
      rw [mem_singleton.1 hx]
      exact ⟨rfl, rfl⟩

/-- A chain starts with its turn 0. -/
theorem head?_turn : ∃ anchor, (front ++ [last]).head? = some anchor ∧ anchor.turn = 0 := by
  induction hgrown with
  | anchor hturn => exact ⟨_, rfl, hturn⟩
  | more _ _ _ _ ih =>
    obtain ⟨anchor, hhead, hturn⟩ := ih
    refine ⟨anchor, ?_, hturn⟩
    rw [List.head?_append, hhead]
    rfl

/-- A pending turn has no other fact. -/
theorem turn_ne_of_pending (hpending : last.branch = .pending) :
    ∀ x ∈ front, x.turn ≠ last.turn := by
  cases hgrown with
  | anchor => simp
  | more hgrown hnext =>
    cases hnext with
    | freezes _ _ hbranch => exact absurd hpending hbranch
    | advances hlater =>
      intro x hx heq
      rcases mem_append.1 hx with hx | hx
      · have hle := (hgrown.le_last x hx).1
        rw [heq] at hle
        omega
      rw [mem_singleton.1 hx] at heq
      rw [heq] at hlater
      omega

end Grown

section Latest

variable {α : Type} {cmp : α → α → Ordering}

theorem mem_of_lastMaxBy (hbest : lastMaxBy cmp items = some y) :
    y ∈ items := by
  refine List.foldlRecOn (motive := fun best => best = some y → y ∈ items) items _ ?_ ?_ hbest
  · intro hnone
    cases hnone
  intro best ih x hx hnext
  cases best with
  | none =>
    cases hnext
    exact hx
  | some z =>
    dsimp only at hnext
    split at hnext
    · exact ih hnext
    cases hnext
    exact hx

/-- An item that no earlier one exceeds is the last of the largest. -/
theorem lastMaxBy_concat (hmax : ∀ y ∈ items, cmp y x ≠ .gt) :
    lastMaxBy cmp (items ++ [x]) = some x := by
  unfold lastMaxBy
  rw [foldl_append]
  change List.foldl _ (lastMaxBy cmp items) [x] = some x
  cases hbest : lastMaxBy cmp items with
  | none => rfl
  | some y => exact if_neg (hmax y (mem_of_lastMaxBy hbest))

theorem compare_seq {a b : UInt64} (hlt : a < b) : compare a b = .lt := by
  simp [compare, compareOfLessAndEq, hlt]

theorem compare_turn {a b : UInt32} (hle : a.toNat ≤ b.toNat) : compare a b ≠ .gt := by
  rw [← UInt32.le_iff_toNat_le] at hle
  rcases UInt32.lt_or_eq_of_le hle with hlt | rfl
  · simp [compare, compareOfLessAndEq, hlt]
  · simp [compare, compareOfLessAndEq]

theorem Grown.latestOfTurn_eq (hgrown : Grown front last) :
    latestOfTurn (front ++ [last]) last.turn = some last := by
  unfold latestOfTurn
  rw [filter_append, filter_cons_of_pos (by simp), filter_nil]
  apply lastMaxBy_concat
  intro y hy
  rw [compare_seq (hgrown.le_last y (mem_filter.1 hy).1).2]
  decide

/-- The latest fact of the highest turn is the last fact. -/
theorem Grown.latest_eq (hgrown : Grown front last) :
    lastMaxBy (fun a b : ReactRoundRecord => (compare a.turn b.turn).then (compare a.seq b.seq))
      (front ++ [last]) = some last := by
  apply lastMaxBy_concat
  intro y hy
  obtain ⟨hturn, hseq⟩ := hgrown.le_last y hy
  rw [compare_seq hseq]
  cases hcompare : compare y.turn last.turn with
  | lt | eq => decide
  | gt => exact absurd hcompare (compare_turn hturn)

end Latest

variable {J : Backend} {P : Platform} {rel : J.State → List JournalEntry → Prop} {w w' : Core J}
  {log new : List JournalEntry} {e : Effect} {r : ReactRound}

section Log

/-- The chain facts of a running coordinator are those of its log. -/
theorem Mirrored.chainRounds_eq (hmirrored : Mirrored rel w log) (chain : ChainKey) :
    w.projection.reactRoundsOf chain.1 chain.2 = chainRounds log chain := by
  obtain ⟨s, hreplay, hjournaled⟩ := hmirrored.journaled
  have hrecords := (State.journaled_eq_iff.1 hjournaled).2
  have hderived : s.Derived := by
    have hfold := (replay_eq_ok.1 hreplay).1
    have hmany : (foldMany none {} log).1.Derived := derived_foldMany derived_default log
    rwa [hfold] at hmany
  have hrounds := hmirrored.collected collects_reactRounds rfl
  rw [(hderived.of_runRecords hrecords).reactRoundsOf_eq]
  exact congrArg (List.filter _) hrounds

/-- A chain fact is brought into the journal by the note of it only. -/
theorem Platform.Guarded.note_of_reactRound (hguarded : P.Guarded w e)
    (hr : JournalEntry.reactRound r ∈ e.entries) :
    ∃ hreadable strict, e = .chore (.note (.reactRound r hreadable) strict) := by
  rcases hguarded.mem_entries hr with ⟨fact, strict, rfl, hfact⟩ | ⟨strict, ops, rfl⟩ |
    ⟨_, _, _, hentry, _⟩ | ⟨_, _, _, _, _, _, _, hentry⟩
  · cases fact <;> cases hfact
    exact ⟨_, strict, rfl⟩
  · cases hguarded
  · cases hentry
  · cases hentry

theorem chainRounds_append (chain : ChainKey) :
    chainRounds (log ++ new) chain = chainRounds log chain ++ chainRounds new chain := by
  simp [chainRounds]

theorem chainRounds_singleton {chain : ChainKey}
    (hin : inChain chain.1 chain.2 r = true) : chainRounds [.reactRound r] chain = [r] := by
  simp [chainRounds, reactRoundOf, hin]

variable {blake3 : List UInt8 → ByteVec 32} {strict : Bool}

/-- An effect that notes no chain fact leaves every chain as it was. -/
theorem Did.chainRounds_of_omits (hdid : Did blake3 w log e new w') (hguarded : P.Guarded w e)
    (homits : e.Omits .reactRound) (chain : ChainKey) : chainRounds new chain = [] := by
  have hnone : new.filterMap reactRoundOf = [] := by
    apply filterMap_eq_nil_iff.2
    intro x hx
    obtain ⟨y, hy, n, rfl⟩ := hdid.exists_entry hx
    cases y with
    | reactRound r =>
      obtain ⟨_, _, rfl⟩ := hguarded.note_of_reactRound hy
      exact absurd rfl homits
    | _ => rfl
  rw [chainRounds, hnone]
  rfl

/-- The note of a fact that the log does not have brings its entry, numbered, or nothing. -/
theorem Did.new_of_fresh {fact : RunFact} (hfresh : DedupLog.find entryScheme log fact.entry = none)
    (hdid : Did blake3 w log (.chore (.note fact strict)) new w') :
    new = [] ∨ new = [entryScheme.stamp (log.length + 1) fact.entry] := by
  cases hdid with
  | refused => exact .inl rfl
  | grew journal hlog hreplay =>
    right
    rw [Effect.entries, DedupLog.appendAll_cons, DedupLog.append_of_fresh hfresh] at hlog
    exact (append_cancel_left hlog).symm

/-- A chain fact has no key, so that the log never has it. -/
theorem Did.new_of_reactRound
    (hdid : Did blake3 w log (.chore (.note (.reactRound r hreadable) strict)) new w') :
    new = [] ∨ new = [.reactRound { r with seq := UInt64.ofNat (log.length + 1) }] :=
  hdid.new_of_fresh rfl

end Log

section Driving

variable (P)

/-- The fact that freezes a branch of the turn of another fact. -/
def frozen (anchor last : ReactRoundRecord) (branch : ReactBranch) : ReactRound :=
  { anchor with turn := last.turn, turnMoteId := last.turnMoteId, branch, seq := 0 }

def Platform.observationAt (anchor last : ReactRoundRecord) (tool : String × String) (i : Nat) :
    Mote :=
  P.buildChainTool anchor.modelId tool.1 tool.2 last.turn anchor.instanceId anchor.stepSalt
    (u32OfNat i) last.turnMoteId

/-- The Mote is at an end for good: no late commit can overtake its failure. -/
def AtEnd (s : State) (id : MoteId) : Prop :=
  isTerminal (s.stateOfId id) = true ∧ crashRetryable s id = false

instance (s : State) (id : MoteId) : Decidable (AtEnd s id) :=
  inferInstanceAs (Decidable (_ ∧ _))

def Platform.nextTurn (anchor last : ReactRoundRecord) (rounds : List ReactRoundRecord)
    (instruction : String) (warrant : WarrantSpec) : Mote :=
  P.buildChainTurn anchor.modelId
    (P.renderTurnInstruction instruction (rejectReason last.branch)
      (decide (saturatingSucc (toolCallsOf rounds) ≥ anchor.maxToolCalls ∨
        saturatingSucc (saturatingSucc last.turn) ≥ anchor.maxTurns)))
    (last.turn + 1) anchor.instanceId anchor.stepSalt warrant.modelRoute.maxOutputTokens

/-- How a chain goes on from its last fact, as the coordinator drives it. -/
inductive Continues (w : Core J) (rounds : List ReactRoundRecord) (anchor last : ReactRoundRecord) :
    ReactRound → Prop
  /-- The turn committed, and what it committed is frozen. -/
  | froze {store : Store} {raw : List UInt8} {warrant : WarrantSpec}
      (hpending : last.branch = .pending)
      (hcommitted : w.projection.stateOfId last.turnMoteId = .committed)
      (hstore : w.outside.store = some store)
      (hraw : (w.projection.resultRefOf last.turnMoteId).bind store.get = some raw)
      (hwarrant : (store.get anchor.warrantRef).bind P.decodeWarrant = some warrant) :
      Continues w rounds anchor last (frozen anchor last
        (P.branchOfTurn w.projection store w.outside.lookup rounds last.turn warrant raw))
  | gaveUp (hopen : isOpen last.branch = true) :
      Continues w rounds anchor last (frozen anchor last .deadLettered)
  /-- One of the calls of the turn failed for good. -/
  | superseded {i : Nat} {tool : String × String} (reason : String)
      (htool : (firedCalls last.branch)[i]? = some tool)
      (hfailed : AtEnd w.projection (P.observationAt anchor last tool i).id)
      (hmissed : w.projection.stateOfId (P.observationAt anchor last tool i).id ≠ .committed) :
      Continues w rounds anchor last (frozen anchor last (.rejected reason))
  /-- The turn is done with: all its calls have landed. -/
  | advanced {store : Store} {instruction : String} {warrant : WarrantSpec}
      (hspent : isSpent last.branch = true)
      (hlanded : ∀ i tool, (firedCalls last.branch)[i]? = some tool →
        w.projection.stateOfId (P.observationAt anchor last tool i).id = .committed)
      (hcalls : toolCallsOf rounds < anchor.maxToolCalls)
      (hturns : saturatingSucc last.turn < anchor.maxTurns)
      (hstore : w.outside.store = some store)
      (hinstruction : (store.get anchor.basePromptRef).bind decodeUtf8 = some instruction)
      (hwarrant : (store.get anchor.warrantRef).bind P.decodeWarrant = some warrant) :
      Continues w rounds anchor last { anchor with
        turn := last.turn + 1
        turnMoteId := (P.nextTurn anchor last rounds instruction warrant).id
        branch := .pending
        seq := 0 }

/-- The texts put into the store are among these. -/
def Writes (written : Set (List UInt8)) : Effect → Prop
  | .chore (.query (.put bytes)) => bytes ∈ written
  | _ => True

variable (written : Set (List UInt8))

/-- The first fact of a chain: turn 0 is pending, and its prompt and warrant were put into the
store. -/
structure Anchors (r : ReactRound) : Prop where
  turn : r.turn = 0
  branch : r.branch = .pending
  budget : Budgeted r
  starts : ∃ turn0 warrant prompt, StartsChain P r.instanceId r.stepSalt warrant turn0 ∧
    turn0.def.configSubset[PROMPT_KEY]? = some prompt ∧ r.turnMoteId = turn0.id ∧
    r.modelId = turn0.def.modelId ∧ r.basePromptRef = P.contentRefOf prompt ∧
    r.warrantRef = P.warrantRefOf warrant ∧ prompt ∈ written ∧ P.encodeWarrant warrant ∈ written

/-- Where a chain fact is noted: the chain has none yet, or it goes on from its last. -/
def Placed (w : Core J) (r : ReactRound) : Prop :=
  (w.projection.reactRoundsOf r.instanceId r.stepSalt = [] ∧ Anchors P written r) ∨
  ∃ front last anchor, w.projection.reactRoundsOf r.instanceId r.stepSalt = front ++ [last] ∧
    (front ++ [last]).head? = some anchor ∧ Continues P w (front ++ [last]) anchor last r

def PlacesFacts (w : Core J) : Effect → Prop
  | .chore (.note (.reactRound r _) _) => Placed P written w r
  | _ => True

theorem placesFacts_of_omits (homits : e.Omits .reactRound) :
    PlacesFacts P written w e := by
  unfold PlacesFacts
  split
  · exact absurd rfl homits
  · trivial

end Driving

section Orders

variable {written : Set (List UInt8)}

def Orderly (log : List JournalEntry) : Prop :=
  ∀ chain, chainRounds log chain = [] ∨
    ∃ front last, chainRounds log chain = front ++ [last] ∧ Grown front last

theorem toNat_saturatingSucc_lt (hlt : saturatingSucc n < m) :
    n.toNat + 1 < m.toNat := by
  have hm := m.toNat_lt
  unfold saturatingSucc at hlt
  rw [UInt32.lt_iff_toNat_lt] at hlt
  split at hlt
  · rename_i hroom
    rwa [UInt32.toNat_add, UInt32.toNat_one, Nat.mod_eq_of_lt hroom] at hlt
  · omega

variable {rounds : List ReactRoundRecord} {raw : List UInt8} {warrant : WarrantSpec}
  {lookup : ToolName → ToolVersion → Option ToolDef}

theorem spentCalls_lt (hlt : toolCallsOf rounds < m) : spentCalls rounds < m.toNat := by
  have hm := m.toNat_lt
  rw [UInt32.lt_iff_toNat_lt, toolCallsOf, u32OfNat, UInt32.toNat_ofNat'] at hlt
  change (rounds.map fun r => callsSpent r.branch).sum < m.toNat
  omega

theorem settleCallsToBranch_ne_pending :
    P.settleCallsToBranch calls raw warrant lookup ≠ .pending := by
  unfold Platform.settleCallsToBranch
  split_ifs
  · exact nofun
  · exact nofun
  · exact nofun
  split
  · exact nofun
  · exact nofun
  · split_ifs <;> exact nofun

theorem branchOfTurn_ne_pending :
    P.branchOfTurn s store lookup rounds turn warrant raw ≠ .pending := by
  unfold Platform.branchOfTurn
  split
  · exact nofun
  split
  · split_ifs
    · exact nofun
    · exact settleCallsToBranch_ne_pending
  · exact settleCallsToBranch_ne_pending

theorem isOpen_of_fired (hfired : firedCalls branch ≠ []) :
    isOpen branch = true ∧ firesTool branch = true := by
  cases branch with
  | tool _ _ => exact ⟨rfl, rfl⟩
  | toolBatch _ => exact ⟨rfl, rfl⟩
  | _ => exact absurd rfl hfired

/-- What the coordinator notes is allowed by the last fact. -/
theorem Continues.next (hcontinues : Continues P w (front ++ [last]) anchor last r)
    (hbudget : anchor.maxTurns = last.maxTurns ∧ anchor.maxToolCalls = last.maxToolCalls)
    (seq : UInt64) : Next (front ++ [last]) last { r with seq } := by
  cases hcontinues with
  | froze hpending =>
    refine .freezes rfl rfl branchOfTurn_ne_pending ?_ fun _ => hpending
    rw [hpending]
    rfl
  | gaveUp hopen => exact .freezes rfl rfl nofun hopen nofun
  | superseded reason htool =>
    refine .freezes rfl rfl nofun (isOpen_of_fired ?_).1 nofun
    intro hnil
    rw [hnil] at htool
    cases htool
  | advanced hspent _ hcalls hturns =>
    rw [hbudget.1] at hturns
    rw [hbudget.2] at hcalls
    have hlt := toNat_saturatingSucc_lt hturns
    have hmax := last.maxTurns.toNat_lt
    refine .advances ?_ rfl hspent (spentCalls_lt hcalls) hlt
    rw [UInt32.toNat_add, UInt32.toNat_one, Nat.mod_eq_of_lt (by omega)]

/-- What one effect does to a chain: nothing, or it starts it, or it goes on from its last
fact. -/
inductive Extends (P : Platform) (written : Set (List UInt8)) (w : Core J) (e : Effect)
    (chain : ChainKey) (seq : UInt64) : List ReactRoundRecord → List ReactRoundRecord → Prop
  | same {rounds : List ReactRoundRecord} : Extends P written w e chain seq rounds rounds
  | starts {r : ReactRound} (hkey : (r.instanceId, r.stepSalt) = chain)
      (hanchors : Anchors P written r) : Extends P written w e chain seq [] [{ r with seq }]
  | goes {r : ReactRound} {front : List ReactRoundRecord} {last anchor : ReactRoundRecord}
      {hreadable : r.branch.Readable} {strict : Bool}
      (hnotes : e = .chore (.note (.reactRound r hreadable) strict))
      (hkey : (r.instanceId, r.stepSalt) = chain) (hhead : (front ++ [last]).head? = some anchor)
      (hr : Continues P w (front ++ [last]) anchor last r) :
      Extends P written w e chain seq (front ++ [last]) (front ++ [last] ++ [{ r with seq }])

/-- The note of a fact where it belongs extends its chain, and no other. -/
theorem extends_note (hmirrored : Mirrored rel w log)
    (hplaced : Placed P written w r) (chain : ChainKey) :
    Extends P written w (.chore (.note (.reactRound r hreadable) strict)) chain
      (UInt64.ofNat (log.length + 1)) (chainRounds log chain)
      (chainRounds (log ++ [.reactRound { r with seq := UInt64.ofNat (log.length + 1) }])
        chain) := by
  set r' : ReactRound := { r with seq := UInt64.ofNat (log.length + 1) } with hr'
  rw [chainRounds_append]
  by_cases hchain : inChain chain.1 chain.2 r' = true
  · have hkey : (r.instanceId, r.stepSalt) = chain := by
      have hboth : r'.instanceId = chain.1 ∧ r'.stepSalt = chain.2 := by
        simpa [inChain] using hchain
      exact Prod.ext hboth.1 hboth.2
    have hrounds := hmirrored.chainRounds_eq (r.instanceId, r.stepSalt)
    rw [chainRounds_singleton hchain, ← hkey, ← hrounds]
    rcases hplaced with ⟨hnone, hanchors⟩ | ⟨front, last, anchor, hsome, hhead, hr⟩
    · rw [hnone]
      exact .starts rfl hanchors
    rw [hsome]
    exact .goes rfl rfl hhead hr
  · have hnew : chainRounds [.reactRound r'] chain = [] := by
      simp [chainRounds, reactRoundOf, hchain]
    rw [hnew, append_nil]
    exact .same

/-- One effect, if it places its facts, extends chains or leaves them as they are. -/
theorem Did.extends (hdid : Did P.ids.blake3 w log e new w') (hmirrored : Mirrored rel w log)
    (hguarded : P.Guarded w e) (hplaces : PlacesFacts P written w e) (chain : ChainKey) :
    Extends P written w e chain (UInt64.ofNat (log.length + 1)) (chainRounds log chain)
      (chainRounds (log ++ new) chain) := by
  by_cases homits : e.Omits .reactRound
  · rw [chainRounds_append, hdid.chainRounds_of_omits hguarded homits chain, append_nil]
    exact .same
  obtain ⟨fact, strict, rfl, hkind⟩ := Effect.exists_note_of_not_omits homits
  cases fact with
  | reactRound r hreadable =>
    rcases hdid.new_of_reactRound with rfl | rfl
    · rw [append_nil]
      exact .same
    · exact extends_note hmirrored hplaces chain
  | reRankRound r =>
    exact absurd hkind (RunFact.kind_reRankRound_ne (by decide) (by decide) r)
  | _ => cases hkind

variable {chain : ChainKey}

/-- The next seq of the log is above those of all its chain facts. -/
theorem Mirrored.seq_lt_next (hmirrored : Mirrored rel w log) (hx : x ∈ chainRounds log chain) :
    x.seq < UInt64.ofNat (log.length + 1) := by
  obtain ⟨b, hb, hpick⟩ := mem_filterMap.1 (mem_filter.1 hx).1
  have hseq : x.seq = b.seq := by
    cases b <;> cases hpick
    rfl
  have hle : b.seq.toNat ≤ log.length := (hmirrored.wellFormed.number_mem hb).2
  rw [UInt64.lt_iff_toNat_lt, hseq, Backend.toNat_ofNat_seq hmirrored.room]
  omega

/-- A fact that goes on from the last one of a chain in order leaves the chain in order. -/
theorem Grown.goes {anchor last : ReactRoundRecord} {seq : UInt64}
    (hgrown : Grown front last) (hhead : (front ++ [last]).head? = some anchor)
    (hr : Continues P w (front ++ [last]) anchor last r)
    (hseq : ∀ x ∈ front ++ [last], x.seq < seq) : Grown (front ++ [last]) { r with seq } := by
  have hbudget : anchor.maxTurns = last.maxTurns ∧ anchor.maxToolCalls = last.maxToolCalls := by
    rcases mem_append.1 (mem_of_mem_head? hhead) with hmem | hmem
    · exact hgrown.budgeted.2.2 anchor hmem
    rw [mem_singleton.1 hmem]
    exact ⟨rfl, rfl⟩
  refine .more hgrown (hr.next hbudget seq) ?_ hseq
  cases hr <;> exact hbudget

theorem Orderly.grown (horderly : Orderly log) (hrounds : chainRounds log chain = front ++ [last]) :
    Grown front last := by
  rcases horderly chain with hnil | ⟨front', last', hsnoc, hgrown⟩
  · rw [hnil] at hrounds
    exact absurd hrounds.symm (by simp)
  rw [hsnoc] at hrounds
  obtain ⟨rfl, hlast⟩ := append_inj' hrounds rfl
  cases hlast
  exact hgrown

/-- One effect keeps the chains in order, if it places its facts. -/
theorem Orderly.did (horderly : Orderly log) (hmirrored : Mirrored rel w log)
    (hguarded : P.Guarded w e) (hplaces : PlacesFacts P written w e)
    (hdid : Did P.ids.blake3 w log e new w') : Orderly (log ++ new) := by
  intro chain
  have hseq : ∀ x ∈ chainRounds log chain, x.seq < UInt64.ofNat (log.length + 1) :=
    fun _ hx => hmirrored.seq_lt_next hx
  have hextends := hdid.extends hmirrored hguarded hplaces chain
  generalize hbefore : chainRounds log chain = rounds at hextends hseq
  generalize chainRounds (log ++ new) chain = rounds' at hextends
  cases hextends with
  | same =>
    rw [← hbefore]
    exact horderly chain
  | @starts r _ hanchors =>
    exact .inr ⟨[], _, rfl, .anchor hanchors.turn hanchors.branch
      ⟨hanchors.budget.turns, hanchors.budget.calls⟩⟩
  | goes _ _ hhead hr =>
    exact .inr ⟨_, _, rfl, (horderly.grown hbefore).goes hhead hr hseq⟩

end Orders

end Kortecx.Coordinator
