import Kortecx.Coordinator.AgentLoop

/-!
Recovery of a turn in flight. A process that starts builds the pending turn of every chain
again, from the facts of the chain and from what the store has of its prompt and warrant. It
is the turn that was in flight if its Mote has the identity the fact names.
-/

namespace Kortecx.Coordinator

open Lib Mote Journal Projection Warrant Platform List Option Std

/-- The store may have lost a text that was put, but answers with no other. -/
def Honest {J : Backend} (P : Platform) (written : Set (List UInt8)) (w : Core J) : Prop :=
  ∀ store ∈ w.outside.store, ∀ text ∈ written, ∀ bytes,
    store.get (P.contentRefOf text) = some bytes → bytes = text

/-- The warrants read back as they were written, as far as a turn reads them. -/
def KeepsRoutes (P : Platform) : Prop :=
  ∀ warrant, ∃ decoded, P.decodeWarrant (P.encodeWarrant warrant) = some decoded ∧
    decoded.modelRoute.maxOutputTokens = warrant.modelRoute.maxOutputTokens

variable {P : Platform}

section Shapes

variable (hshape : ShapesChains P) (modelId : ModelId) (instruction : String) (turn : UInt32)
  (instanceId : InstanceId) (stepSalt : Option (ByteVec 32)) (tokens : UInt32)
include hshape

theorem modelId_buildChainTurn :
    (P.buildChainTurn modelId instruction turn instanceId stepSalt tokens).def.modelId =
      modelId := by
  rw [hshape.turns]
  cases stepSalt <;> rfl

theorem prompt_buildChainTurn :
    (P.buildChainTurn modelId instruction turn instanceId stepSalt tokens).def.configSubset[
      PROMPT_KEY]? = some (utf8Bytes instruction) := by
  have hget : ∀ marker, (((∅ : ExtTreeMap ConfigKey ConfigVal).insert PROMPT_KEY
      (utf8Bytes instruction)).insert REACT_TURN_KEY marker)[PROMPT_KEY]? =
      some (utf8Bytes instruction) := by
    intro marker
    rw [ExtTreeMap.getElem?_insert, if_neg (by decide), ExtTreeMap.getElem?_insert_self]
  rw [hshape.turns]
  cases stepSalt with
  | none | some _ => exact hget _

end Shapes

/-- The pending turn as the live coordinator built it: turn 0 with the instruction itself, a
later one as recovery builds it. -/
def Platform.liveTurn (P : Platform) (chain : ChainKey) (rounds : List ReactRoundRecord)
    (last : ReactRoundRecord) (instruction : String) (warrant : WarrantSpec) : Mote :=
  if last.turn = 0 then
    P.buildChainTurn last.modelId instruction 0 chain.1 chain.2 warrant.modelRoute.maxOutputTokens
  else
    let prior := before rounds last.turn
    P.buildChainTurn last.modelId
      (P.renderTurnInstruction instruction
        ((latestOfTurn prior (last.turn - 1)).bind fun r => rejectReason r.branch)
        (decide (saturatingSucc (toolCallsOf prior) ≥ last.maxToolCalls ∨
          saturatingSucc last.turn ≥ last.maxTurns)))
      last.turn chain.1 chain.2 warrant.modelRoute.maxOutputTokens

/-- What the facts of a chain say of its turns: all name the prompt and the warrant the chain
was started with, and a pending one names the turn that was built. -/
structure Told (P : Platform) (written : Set (List UInt8)) (chain : ChainKey)
    (rounds : List ReactRoundRecord) (last : ReactRoundRecord) (instruction : String)
    (warrant : WarrantSpec) : Prop where
  prompt : utf8Bytes instruction ∈ written
  encoded : P.encodeWarrant warrant ∈ written
  refs : ∀ r ∈ rounds, r.basePromptRef = P.contentRefOf (utf8Bytes instruction) ∧
    r.warrantRef = P.warrantRefOf warrant
  pending : last.branch = .pending → ∀ decoded,
    P.decodeWarrant (P.encodeWarrant warrant) = some decoded →
    last.turnMoteId = (P.liveTurn chain rounds last instruction decoded).id

variable {J : Backend} {written : Set (List UInt8)} {warrant : WarrantSpec} {instruction : String}

section Steps

variable {chain : ChainKey} {w : Core J} {r : ReactRound} {front : List ReactRoundRecord}

/-- The first fact of a chain names the turn that was built for it. -/
theorem Anchors.told (hshape : ShapesChains P) (hroutes : KeepsRoutes P)
    (hanchors : Anchors P written r) (seq : UInt64) :
    ∃ instruction warrant, Told P written (r.instanceId, r.stepSalt) [{ r with seq }]
      { r with seq } instruction warrant := by
  obtain ⟨turn0, warrant, prompt, ⟨modelId, instruction, built, hbuilt, hid, hmodel, hconfig⟩,
    hprompt, hmote, hmodelId, hbase, hwarrant, hwritten, hencoded⟩ := hanchors.starts
  have htext : prompt = utf8Bytes instruction := by
    rw [hconfig, hbuilt, prompt_buildChainTurn hshape] at hprompt
    exact (Option.some.inj hprompt).symm
  subst htext
  refine ⟨instruction, warrant, hwritten, hencoded, ?_, ?_⟩
  · intro x hx
    rw [mem_singleton.1 hx]
    exact ⟨hbase, hwarrant⟩
  · intro _ decoded hdecoded
    obtain ⟨decoded', hdecoded', htokens⟩ := hroutes warrant
    have hsame : decoded' = decoded := Option.some.inj (hdecoded'.symm.trans hdecoded)
    have hmodel' : r.modelId = modelId := by
      rw [hmodelId, hmodel, hbuilt]
      exact modelId_buildChainTurn hshape ..
    unfold liveTurn
    rw [if_pos hanchors.turn, ← hsame, htokens]
    rw [hmote, hid, hbuilt, hmodel']

/-- The next turn, as the coordinator makes it, is the one recovery would make. -/
theorem nextTurn_eq_liveTurn {anchor : ReactRoundRecord} (hgrown : Grown front last)
    (hturns : saturatingSucc last.turn < anchor.maxTurns) {turnMoteId : MoteId} {seq : UInt64} :
    let r : ReactRoundRecord :=
      { anchor with turn := last.turn + 1, turnMoteId, branch := .pending, seq }
    P.nextTurn anchor last (front ++ [last]) instruction warrant =
      P.liveTurn (anchor.instanceId, anchor.stepSalt) (front ++ [last] ++ [r]) r instruction
        warrant := by
  intro r
  have hlt := toNat_saturatingSucc_lt hturns
  have hmax := anchor.maxTurns.toNat_lt
  have hnext : (last.turn + 1).toNat = last.turn.toNat + 1 := by
    rw [UInt32.toNat_add, UInt32.toNat_one, Nat.mod_eq_of_lt (by omega)]
  have hne : last.turn + 1 ≠ 0 := by
    intro hzero
    rw [hzero] at hnext
    exact absurd hnext (by simp)
  have hprior : before (front ++ [last] ++ [r]) (last.turn + 1) = front ++ [last] := by
    rw [show last.turn + 1 = r.turn from rfl, before_concat_self]
    apply before_eq_self
    intro x hx
    rw [UInt32.lt_iff_toNat_lt]
    rw [hnext]
    rcases mem_append.1 hx with hx | hx
    · exact Nat.lt_succ_of_le (hgrown.le_last x hx).1
    rw [mem_singleton.1 hx]
    exact Nat.lt_succ_self _
  have hback : last.turn + 1 - 1 = last.turn := by
    rw [UInt32.add_sub_cancel]
  have hsucc : saturatingSucc last.turn = last.turn + 1 := if_pos (by omega)
  unfold liveTurn nextTurn
  rw [if_neg (show r.turn ≠ 0 from hne)]
  dsimp only [r]
  rw [hprior, hback, hgrown.latestOfTurn_eq, hsucc]
  rfl

/-- A fact that goes on from the last one of a chain names the turn that was built. -/
theorem Told.goes (hhonest : Honest P written w)
    (htold : Told P written chain (front ++ [last]) last instruction warrant)
    (hgrown : Grown front last) (hhead : (front ++ [last]).head? = some anchor)
    (hkey : (r.instanceId, r.stepSalt) = chain) (hr : Continues P w (front ++ [last]) anchor last r)
    (seq : UInt64) :
    Told P written chain (front ++ [last] ++ [{ r with seq }]) { r with seq } instruction
      warrant := by
  have hanchor := htold.refs anchor (mem_of_mem_head? hhead)
  refine ⟨htold.prompt, htold.encoded, ?_, ?_⟩
  · intro x hx
    rcases mem_append.1 hx with hx | hx
    · exact htold.refs x hx
    rw [mem_singleton.1 hx]
    cases hr <;> exact hanchor
  · intro hpending decoded hdecoded
    cases hr with
    | froze => exact absurd hpending branchOfTurn_ne_pending
    | gaveUp | superseded => cases hpending
    | @advanced store instruction' warrant' _ _ _ hturns hstore hinstruction hwarrant =>
      rw [hanchor.1] at hinstruction
      rw [hanchor.2] at hwarrant
      obtain ⟨bytes, hbytes, hdecode⟩ := bind_eq_some_iff.1 hinstruction
      obtain ⟨encoded, hencoded, hwarrant⟩ := bind_eq_some_iff.1 hwarrant
      -- The store answers with what was put when the chain was started.
      rw [hhonest store hstore _ htold.prompt _ hbytes, decodeUtf8_utf8Bytes] at hdecode
      rw [hhonest store hstore _ htold.encoded _ hencoded, hdecoded] at hwarrant
      obtain rfl := Option.some.inj hdecode
      obtain rfl := Option.some.inj hwarrant
      rw [← hkey]
      exact congrArg Mote.id (nextTurn_eq_liveTurn hgrown hturns)

end Steps

section Runs

variable {rel : J.State → List JournalEntry → Prop}

/-- The chains of the log are in order, and their facts name the turns that were built. -/
def ToldTurns (P : Platform) (written : Set (List UInt8)) (log : List JournalEntry) : Prop :=
  Orderly log ∧ ∀ {chain front last}, chainRounds log chain = front ++ [last] →
    ∃ instruction warrant, Told P written chain (front ++ [last]) last instruction warrant

theorem ToldTurns.did (hshape : ShapesChains P) (hroutes : KeepsRoutes P)
    (htold : ToldTurns P written log)
    (hmirrored : Mirrored rel w log) (hguarded : P.Guarded w e) (hhonest : Honest P written w)
    (hplaces : PlacesFacts P written w e) (hdid : Did P.ids.blake3 w log e new w') :
    ToldTurns P written (log ++ new) := by
  refine ⟨htold.1.did hmirrored hguarded hplaces hdid, ?_⟩
  intro chain front last hrounds
  have hextends := hdid.extends hmirrored hguarded hplaces chain
  rw [hrounds] at hextends
  generalize hbefore : chainRounds log chain = rounds at hextends
  generalize hafter : front ++ [last] = rounds' at hextends
  cases hextends with
  | same =>
    rw [← hafter] at hbefore ⊢
    exact htold.2 hbefore
  | starts hkey hanchors =>
    obtain ⟨rfl, hlast⟩ := append_inj' (hafter.trans (nil_append _).symm) rfl
    cases hlast
    rw [← hkey]
    exact hanchors.told hshape hroutes _
  | goes _ hkey hhead hr =>
    obtain ⟨rfl, hlast⟩ := append_inj' hafter rfl
    cases hlast
    obtain ⟨instruction, warrant, htold'⟩ := htold.2 hbefore
    exact ⟨instruction, warrant, htold'.goes hhonest (htold.1.grown hbefore) hhead hkey hr _⟩

def toldRuns (J : Backend) (rel : J.State → List JournalEntry → Prop) (written : Set (List UInt8))
    (hshape : ShapesChains P) (hroutes : KeepsRoutes P) :
    RunInvariant P J rel fun w e =>
      (Lasting written w e ∧ Honest P written w) ∧ PlacesFacts P written w e where
  up _ log := ToldTurns P written log
  down log := ToldTurns P written log
  boot _ _ _ _ hdown := hdown
  facing _ hup := hup
  crash _ hup := hup
  step hmirrored hup hguarded he hdid _ :=
    hup.did hshape hroutes hmirrored hguarded he.1.2 he.2 hdid

theorem toldTurns_nil : ToldTurns P written [] :=
  ⟨orderly_nil, fun hnil => absurd hnil.symm (by simp [chainRounds])⟩

/-- The turn in flight is the one recovery builds, except for a turn 0 whose budget allows one
turn or one call. -/
theorem Told.rebuildTurn (hshape : ShapesChains P) {s : State} {chain : ChainKey}
    (hrounds : s.reactRoundsOf chain.1 chain.2 = front ++ [latest])
    (htold : Told P written chain (front ++ [latest]) latest instruction warrant)
    (hdecoded : P.decodeWarrant (P.encodeWarrant warrant) = some decoded)
    (hpending : latest.branch = .pending)
    (hbudget : latest.turn ≠ 0 ∨ 1 < latest.maxToolCalls ∧ 1 < latest.maxTurns) :
    (P.rebuildTurn s chain latest instruction decoded).id = latest.turnMoteId := by
  rw [htold.pending hpending decoded hdecoded]
  unfold liveTurn Platform.rebuildTurn
  rw [hrounds]
  by_cases hturn : latest.turn = 0
  · obtain ⟨hcalls, hturns⟩ := hbudget.resolve_left (not_not_intro hturn)
    have hprior : (front ++ [latest]).filter (fun r => r.turn < latest.turn) = [] := by
      rw [hturn]
      exact filter_eq_nil_iff.2 fun x _ hlt =>
        absurd (UInt32.lt_iff_toNat_lt.1 (of_decide_eq_true hlt)) (Nat.not_lt_zero _)
    have hnear : ¬ (saturatingSucc (toolCallsOf []) ≥ latest.maxToolCalls ∨
        saturatingSucc latest.turn ≥ latest.maxTurns) := by
      rw [hturn, not_or]
      exact ⟨UInt32.not_le.2 hcalls, UInt32.not_le.2 hturns⟩
    rw [if_pos hturn]
    dsimp only
    rw [hprior, decide_eq_false hnear, if_pos hturn, hshape.instructions, hturn]
    rfl
  · rw [if_neg hturn]
    dsimp only
    rw [if_neg hturn]
    rfl

theorem defs_materialize :
    ((P.materialize isTopologyShaper parents mote warrantRef warrant : Routine J Unit).run
      (tend P.ids.blake3 J) w).2.dispatch.defs[mote.id]? = some (mote, warrant) := by
  unfold materialize
  rw [Program.run_bind, Program.run_bind, Program.run_bind]
  exact ExtTreeMap.getElem?_insert_self

end Runs

/-- A crash at any point of a run whose store returns what was put: the process that starts
from the journal builds the pending turn of every chain as it was built, and inserts it again
if it is in flight. The budget has to allow more than one turn and one call, or the turn not
to be turn 0. -/
theorem recoverChainTurn_of_reaches {P : Platform} {J : Backend} (hJ : IsJournal P J)
    (hshape : ShapesChains P) (hroutes : KeepsRoutes P) {written : Set (List UInt8)}
    {journal : J.State}
    (hreaches : Reaches P J (fun w e => Lasting written w e ∧ Honest P written w) (.down journal))
    {outside : Outside} {store : Store} {w : Core J} (hrecover : recover journal outside = some w)
    (hstore : outside.store = some store)
    (hget : ∀ text ∈ written, store.get (P.contentRefOf text) = some text) {chain : ChainKey}
    {latest : ReactRoundRecord}
    (hlatest : w.projection.latestReactRound chain.1 chain.2 = some latest)
    (hpending : latest.branch = .pending)
    (hbudget : latest.turn ≠ 0 ∨ 1 < latest.maxToolCalls ∧ 1 < latest.maxTurns) :
    ∃ instruction warrant,
      (store.get latest.basePromptRef).bind decodeUtf8 = some instruction ∧
      (store.get latest.warrantRef).bind P.decodeWarrant = some warrant ∧
      (P.rebuildTurn w.projection chain latest instruction warrant).id = latest.turnMoteId ∧
      (isTerminal (w.projection.stateOfId latest.turnMoteId) = false →
        ((P.recoverChainTurn chain : Routine J Unit).run
          (tend P.ids.blake3 J) w).2.dispatch.defs[latest.turnMoteId]? =
            some (P.rebuildTurn w.projection chain latest instruction warrant, warrant)) := by
  obtain ⟨rel, hreads⟩ := hJ.readsBack
  obtain ⟨log, hkept, htold⟩ := holds_of_reaches_of_order hreads
    (I := toldRuns J rel written hshape hroutes) (fun _ _ htold => htold.1) toldTurns_nil hreaches
  obtain ⟨hmirrored, -, -⟩ := hkept.mirrored_recover hreads hrecover
  have hwstore : w.outside.store = some store := by
    unfold recover at hrecover
    split at hrecover
    · cases hrecover
      exact hstore
    · cases hrecover
  obtain ⟨front, last, hsnoc⟩ : ∃ front last,
      w.projection.reactRoundsOf chain.1 chain.2 = front ++ [last] := by
    have hsome : w.projection.reactRoundsOf chain.1 chain.2 ≠ [] := by
      intro hnil
      unfold State.latestReactRound at hlatest
      rw [hnil] at hlatest
      cases hlatest
    exact ⟨_, _, (dropLast_append_getLast hsome).symm⟩
  have hlog : chainRounds log chain = front ++ [last] := by
    rw [← hmirrored.chainRounds_eq chain, hsnoc]
  have hlast : latest = last := by
    unfold State.latestReactRound at hlatest
    rw [hsnoc, (htold.1.grown hlog).latest_eq] at hlatest
    exact (Option.some.inj hlatest).symm
  subst hlast
  obtain ⟨instruction, warrant, htold'⟩ := htold.2 hlog
  obtain ⟨decoded, hdecoded, -⟩ := hroutes warrant
  have hrefs := htold'.refs latest (by simp)
  have hprompt : (store.get latest.basePromptRef).bind decodeUtf8 = some instruction := by
    rw [hrefs.1, hget _ htold'.prompt]
    exact decodeUtf8_utf8Bytes instruction
  have hwarrant : (store.get latest.warrantRef).bind P.decodeWarrant = some decoded := by
    rw [hrefs.2, warrantRefOf, hget _ htold'.encoded]
    exact hdecoded
  have hid := htold'.rebuildTurn hshape hsnoc hdecoded hpending hbudget
  refine ⟨instruction, decoded, hprompt, hwarrant, hid, fun hflight => ?_⟩
  have hrun : (P.recoverChainTurn chain : Routine J Unit).run (tend P.ids.blake3 J) w =
      (P.materializeReactTurn (P.rebuildTurn w.projection chain latest instruction decoded)
        latest.warrantRef decoded).run (tend P.ids.blake3 J) w := by
    unfold recoverChainTurn
    rw [run_tend_look_bind, hlatest]
    dsimp only
    rw [if_neg (not_not_intro hpending), hflight, hwstore]
    dsimp only [bind_some]
    rw [hprompt, hwarrant]
    dsimp only
    rw [if_neg (not_not_intro hid)]
    rfl
  rw [hrun, ← hid]
  exact defs_materialize

theorem keepsRoutes_agentPlatform : KeepsRoutes agentPlatform := by
  intro warrant
  refine ⟨_, rfl, ?_⟩
  have htokens := warrant.modelRoute.maxOutputTokens.toNat_lt
  change UInt32.ofNat (leNat (leBytes 4 _)) = _
  rw [leNat_leBytes (by omega), UInt32.ofNat_toNat]

/-- As `Lasting` and `Honest` ask, for the texts of the sample runs. -/
def KeepsTexts (w : Core agentJournal) (e : Effect) : Prop :=
  Faultless w e ∧ Writes {text | text ∈ agentTexts} e ∧
  ∀ store ∈ w.outside.store, ∀ text ∈ agentTexts,
    ∀ bytes ∈ store.get (agentPlatform.contentRefOf text), bytes = text

instance (e : Effect) : Decidable (Writes {text | text ∈ agentTexts} e) := by
  unfold Writes
  split
  · exact inferInstanceAs (Decidable (_ ∈ agentTexts))
  · infer_instance

instance (w : Core agentJournal) (e : Effect) : Decidable (KeepsTexts w e) := by
  unfold KeepsTexts
  infer_instance

theorem KeepsTexts.lasting_honest (h : KeepsTexts w e) :
    Lasting {text | text ∈ agentTexts} w e ∧ Honest agentPlatform {text | text ∈ agentTexts} w :=
  ⟨⟨h.1, h.2.1⟩, fun store hstore text htext bytes hbytes =>
    h.2.2 store hstore text htext bytes hbytes⟩

/-- A run in which the first turn of a chain is in flight. -/
def seedOnly (config : ExtTreeMap ConfigKey ConfigVal) : List (List Command) :=
  [[registerSampleRun, submitSeed config]]

def restarted (config : ExtTreeMap ConfigKey ConfigVal) : Core agentJournal :=
  started agentOutside agentPlatform.ids.blake3 (agentAfter (seedOnly config)).journal

theorem recover_restarted (hroom : ∀ w e, Q w e → HasRoom w e)
    (hreaches : Reaches agentPlatform agentJournal Q (.up (agentAfter (seedOnly config)) [])) :
    recover (agentAfter (seedOnly config)).journal agentOutside = some (restarted config) := by
  obtain ⟨log, hmirrored, _⟩ := (mirroredRuns agentPlatform agentJournal _ Q).holds_of_reaches
    (InMemory.readsBack agentPlatform.ids.blake3) hroom trivial hreaches
  exact recover_inMemory agentOutside hmirrored.kept

theorem recoverChainTurn_of_reaches_seedOnly :
    ∃ latest instruction warrant,
      (restarted ∅).projection.latestReactRound (agentChain ∅).1 (agentChain ∅).2 = some latest ∧
      (agentPlatform.rebuildTurn (restarted ∅).projection (agentChain ∅) latest instruction
        warrant).id = latest.turnMoteId := by
  have hreaches : Reaches agentPlatform agentJournal KeepsTexts
      (.up (agentAfter (seedOnly ∅)) []) :=
    reaches_batches agentOutside _ (by decide) (by decide +kernel)
  have hrecover := recover_restarted (fun _ _ he => he.1.1) hreaches
  have hdown := (hreaches.mono fun _ _ he => he.lasting_honest).tail .stop
  have hpending : ((restarted ∅).projection.latestReactRound (agentChain ∅).1
      (agentChain ∅).2).any (fun r => r.branch = .pending ∧ 1 < r.maxToolCalls ∧ 1 < r.maxTurns) =
        true := by decide +kernel
  obtain ⟨latest, hlatest, hbudget⟩ := (any_eq_true _ _).1 hpending
  obtain ⟨hbranch, hbudget⟩ := of_decide_eq_true hbudget
  have hget : ∀ text ∈ agentTexts,
      agentStore.get (agentPlatform.contentRefOf text) = some text := by decide +kernel
  obtain ⟨instruction, warrant, -, -, hid, -⟩ := recoverChainTurn_of_reaches (.inl rfl)
    ⟨rfl, rfl, rfl⟩ keepsRoutes_agentPlatform hdown hrecover rfl hget hlatest hbranch
    (.inr hbudget)
  exact ⟨latest, instruction, warrant, hlatest, hid⟩

def oneCall : ExtTreeMap ConfigKey ConfigVal :=
  (∅ : ExtTreeMap ConfigKey ConfigVal).insert REACT_MAX_TOOL_CALLS_KEY [1]

/-- The first turn of a chain that may make one call is lost by a restart: recovery adds to the
instruction that the budget is nearly spent, so the turn it builds is another one. -/
theorem not_recovered_oneCall :
    Reaches agentPlatform agentJournal Faultless (.up (restarted oneCall) [.recover]) ∧
    ∃ latest, (restarted oneCall).projection.latestReactRound (agentChain oneCall).1
        (agentChain oneCall).2 = some latest ∧
      latest.branch = .pending ∧ latest.turnMoteId = (agentTurn oneCall).id ∧
      (restarted oneCall).projection.stateOfId latest.turnMoteId = .pending ∧
      (agentStore.get latest.basePromptRef).bind decodeUtf8 = some "go" ∧
      ((restarted oneCall).after agentPlatform agentOutside [.recover]).dispatch.defs.contains
        latest.turnMoteId = false ∧
      ∃ warrant, (agentStore.get latest.warrantRef).bind agentPlatform.decodeWarrant =
          some warrant ∧
        (agentPlatform.rebuildTurn (restarted oneCall).projection (agentChain oneCall) latest "go"
          warrant).id ≠ latest.turnMoteId := by
  have hreaches : Reaches agentPlatform agentJournal Faultless
      (.up (agentAfter (seedOnly oneCall)) []) :=
    reaches_batches agentOutside _ (by decide) (by decide +kernel)
  have hrecover := recover_restarted (fun _ _ he => he.1) hreaches
  refine ⟨(hreaches.tail .stop).tail (.boot hrecover), ?_⟩
  have hlost : ((restarted oneCall).projection.latestReactRound (agentChain oneCall).1
      (agentChain oneCall).2).any (fun latest => latest.branch = .pending ∧
        latest.turnMoteId = (agentTurn oneCall).id ∧
        (restarted oneCall).projection.stateOfId latest.turnMoteId = .pending ∧
        (agentStore.get latest.basePromptRef).bind decodeUtf8 = some "go" ∧
        ((restarted oneCall).after agentPlatform agentOutside [.recover]).dispatch.defs.contains
          latest.turnMoteId = false ∧
        ((agentStore.get latest.warrantRef).bind agentPlatform.decodeWarrant).any (fun warrant =>
          (agentPlatform.rebuildTurn (restarted oneCall).projection (agentChain oneCall) latest
            "go" warrant).id ≠ latest.turnMoteId) = true) = true := by decide +kernel
  obtain ⟨latest, hlatest, hlost⟩ := (any_eq_true _ _).1 hlost
  obtain ⟨hbranch, hmote, hstate, hprompt, hdefs, hwarrant⟩ := of_decide_eq_true hlost
  obtain ⟨warrant, hwarrant, hid⟩ := (any_eq_true _ _).1 hwarrant
  exact ⟨latest, hlatest, hbranch, hmote, hstate, hprompt, hdefs, warrant, hwarrant,
    of_decide_eq_true hid⟩

end Kortecx.Coordinator
