import Kortecx.Coordinator.ReactShape
import Kortecx.Coordinator.Runs

/-!
The tool calls of a turn, seen from the two places that decode them: the settle pass, which
freezes the calls and makes an observation for each, and the lease, which finds out from an
observation alone which of the calls it is for.
-/

namespace Kortecx.Coordinator

open Lib Mote Journal Projection Warrant Platform List

variable {P : Platform} {lookup : ToolName → ToolVersion → Option ToolDef} {calls : List ToolCall}
  {raw : List UInt8} {warrant : WarrantSpec}

/-- The call names a registered tool, and its arguments pass the tool's check. -/
def Checked (lookup : ToolName → ToolVersion → Option ToolDef) (call : ToolCall) : Prop :=
  ∃ tool, lookup call.name call.version = some tool ∧
    tool.validateArgs.bind (· call.argsBytes) = none

/-- Calls that pass the check are frozen in their order, each with its tool. -/
theorem validateCalls_eq_ok (hfired : validateCalls lookup calls = .ok fired) :
    fired = calls.map (fun call => (call.name, call.version)) ∧
      ∀ call ∈ calls, Checked lookup call := by
  induction calls generalizing fired with
  | nil =>
    cases hfired
    exact ⟨rfl, by simp⟩
  | cons call calls ih =>
    unfold validateCalls at hfired
    split at hfired
    · cases hfired
    rename_i tool htool
    split at hfired
    · cases hfired
    rename_i hargs
    split at hfired
    · cases hfired
    rename_i rest hrest
    cases hfired
    obtain ⟨rfl, hchecked⟩ := ih hrest
    refine ⟨rfl, ?_⟩
    intro c hc
    rcases mem_cons.1 hc with rfl | hc
    · exact ⟨tool, htool, hargs⟩
    · exact hchecked c hc

theorem validateCalls_of_fired
    (hfires : firedCalls (P.settleCallsToBranch calls raw warrant lookup) ≠ []) :
    validateCalls lookup calls =
        .ok (firedCalls (P.settleCallsToBranch calls raw warrant lookup)) ∧
      (firedCalls (P.settleCallsToBranch calls raw warrant lookup)).length ≤
        MAX_TOOL_BATCH_CALLS := by
  unfold settleCallsToBranch at hfires ⊢
  split_ifs at hfires ⊢
  · exact absurd rfl hfires
  · exact absurd rfl hfires
  · exact absurd rfl hfires
  split at hfires
  · exact absurd rfl hfires
  · rename_i hvalidated
    exact ⟨hvalidated, (by decide : 1 ≤ MAX_TOOL_BATCH_CALLS)⟩
  rename_i validated _ hvalidated
  split_ifs at hfires ⊢ with hcap
  · exact absurd rfl hfires
  · exact ⟨hvalidated, Nat.le_of_not_lt hcap⟩

/-- A branch that fires calls fires the calls the turn's output decodes to. -/
theorem decoded_of_fired
    (hfires : firedCalls (P.branchOfTurn s store lookup rounds turn warrant raw) ≠ []) :
    ∃ calls, P.parseToolCalls raw warrant (P.maxArgsBytes warrant) = .ok calls ∧
      firedCalls (P.branchOfTurn s store lookup rounds turn warrant raw) =
        calls.map (fun call => (call.name, call.version)) ∧
      (∀ call ∈ calls, Checked lookup call) ∧ calls.length ≤ MAX_TOOL_BATCH_CALLS := by
  unfold branchOfTurn at hfires ⊢
  split at hfires
  · exact absurd rfl hfires
  rename_i calls hparse
  -- Whether the one call repeats an earlier one or not, what is frozen was checked.
  have hsettled : ∀ {calls' : List ToolCall},
      firedCalls (P.settleCallsToBranch calls' raw warrant lookup) ≠ [] →
      firedCalls (P.settleCallsToBranch calls' raw warrant lookup) =
          calls'.map (fun call => (call.name, call.version)) ∧
        (∀ call ∈ calls', Checked lookup call) ∧ calls'.length ≤ MAX_TOOL_BATCH_CALLS := by
    intro calls' hfires
    obtain ⟨hvalidated, hlength⟩ := validateCalls_of_fired hfires
    obtain ⟨hfired, hchecked⟩ := validateCalls_eq_ok hvalidated
    refine ⟨hfired, hchecked, ?_⟩
    rwa [hfired, length_map] at hlength
  refine ⟨calls, hparse, ?_⟩
  split at hfires
  · split_ifs at hfires ⊢
    · exact absurd rfl hfires
    · exact hsettled hfires
  · exact hsettled hfires

variable {turn : UInt32} {turnMoteId : MoteId}

section Resolving

def Platform.observation (P : Platform) (modelId : ModelId) (turn : UInt32) (chain : ChainKey)
    (turnMoteId : MoteId) (tool : String × String) (i : Nat) : Mote :=
  P.buildChainTool modelId tool.1 tool.2 turn chain.1 chain.2 (u32OfNat i) turnMoteId

variable {modelId : ModelId} {chain : ChainKey}

/-- What is hashed for the identities of the first `n` observations of a turn. -/
def Platform.hashedTexts (P : Platform) (modelId : ModelId) (turn : UInt32) (chain : ChainKey)
    (turnMoteId : MoteId) (fired : List (String × String)) : Set (List UInt8) :=
  {text | ∃ i tool, fired[i]? = some tool ∧
    (text = chainToolText turn chain.1 chain.2 (u32OfNat i) ∨
      text = observationText P.ids (P.observation modelId turn chain turnMoteId tool i))}

variable {i : Nat} {r : ReactRoundRecord} {call : ToolCall}

theorem u32OfNat_inj (hi : i < 2 ^ 32) (hj : j < 2 ^ 32)
    (heq : u32OfNat i = u32OfNat j) : i = j := by
  have hnat := congrArg UInt32.toNat heq
  unfold u32OfNat at hnat
  rw [UInt32.toNat_ofNat', UInt32.toNat_ofNat'] at hnat
  omega

/-- Two observations of one turn are told apart by their ids. -/
theorem place_eq_of_id_eq (hshape : ShapesChains P)
    (hinj : Set.InjOn P.ids.blake3 (P.hashedTexts modelId turn chain turnMoteId fired))
    (hcap : fired.length ≤ MAX_TOOL_BATCH_CALLS)
    (hi : fired[i]? = some tool) (hj : fired[j]? = some tool')
    (hid : (P.observation modelId turn chain turnMoteId tool i).id =
      (P.observation modelId turn chain turnMoteId tool' j).id) : i = j := by
  have hbound : ∀ {k : Nat} {t : String × String}, fired[k]? = some t → k < 2 ^ 32 := by
    intro k t hk
    have hlt := (List.getElem?_eq_some_iff.1 hk).1
    exact lt_of_lt_of_le (lt_of_lt_of_le hlt hcap) (by decide)
  have hmote : ∀ (t : String × String) (k : Nat),
      P.observation modelId turn chain turnMoteId t k =
        observationMote P.ids (chainToolText turn chain.1 chain.2 (u32OfNat k)) modelId t.1 t.2
          turnMoteId := by
    intro t k
    rw [observation, hshape.tools, buildChainTool_eq]
  have htext : observationText P.ids (P.observation modelId turn chain turnMoteId tool i) =
      observationText P.ids (P.observation modelId turn chain turnMoteId tool' j) := by
    apply hinj ⟨i, tool, hi, .inr rfl⟩ ⟨j, tool', hj, .inr rfl⟩
    rw [hmote, hmote] at hid ⊢
    exact congrArg MoteId.bytes hid
  rw [hmote, hmote] at htext
  have hplace := hinj ⟨i, tool, hi, .inl rfl⟩ ⟨j, tool', hj, .inl rfl⟩
    (blake3_eq_of_observationText htext)
  exact u32OfNat_inj (hbound hi) (hbound hj) (chainToolText_injective hplace)

variable (hshape : ShapesChains P)
  (hinj : Set.InjOn P.ids.blake3 (P.hashedTexts modelId turn chain turnMoteId
    (calls.map fun call => (call.name, call.version))))
  (hcap : calls.length ≤ MAX_TOOL_BATCH_CALLS) {s : State}
  (hround : s.reactToolRoundOfTurnOf turnMoteId = some r)
  (hplace : r.turn = turn ∧ (r.instanceId, r.stepSalt) = chain) (hcall : calls[i]? = some call)

include hshape hinj hcap hround hplace hcall

/-- An observation finds the call it was made for. -/
theorem observedCall_eq :
    P.observedCall (P.observation modelId turn chain turnMoteId (call.name, call.version) i) s
      turnMoteId calls = .ok call := by
  obtain ⟨rfl, rfl⟩ := hplace
  unfold observedCall
  split
  · rename_i only
    have hfirst : i = 0 := by
      have hlt := (List.getElem?_eq_some_iff.1 hcall).1
      rw [length_singleton] at hlt
      omega
    subst hfirst
    cases hcall
    rfl
  · rw [hround]
    have hmodel : (P.observation modelId r.turn (r.instanceId, r.stepSalt) turnMoteId
        (call.name, call.version) i).def.modelId = modelId := by
      rw [observation, hshape.tools, modelId_buildChainTool]
    have hfired : ∀ {k : Nat} {c : ToolCall}, calls[k]? = some c →
        (calls.map fun call => (call.name, call.version))[k]? = some (c.name, c.version) := by
      intro k c hk
      rw [List.getElem?_map, hk]
      rfl
    have hi := (List.getElem?_eq_some_iff.1 hcall).1
    -- No call before it has its id, as the texts of two calls differ.
    have hfind : ∀ isCall : ToolCall × Nat → Bool, (∀ c k, isCall (c, k) = decide
        ((P.buildChainTool modelId c.name c.version r.turn r.instanceId r.stepSalt (u32OfNat k)
          turnMoteId).id =
        (P.observation modelId r.turn (r.instanceId, r.stepSalt) turnMoteId
          (call.name, call.version) i).id)) → calls.zipIdx.find? isCall = some (call, i) := by
      intro isCall hisCall
      rw [List.find?_eq_some_iff_getElem]
      refine ⟨(hisCall call i).trans (decide_eq_true rfl), i, by rwa [length_zipIdx], ?_, ?_⟩
      · rw [getElem_zipIdx, Nat.zero_add, (List.getElem?_eq_some_iff.1 hcall).2]
      intro j hj
      rw [getElem_zipIdx, Nat.zero_add, hisCall]
      have hj' : calls[j]? = some calls[j] := List.getElem?_eq_getElem (hj.trans hi)
      simp only [Bool.not_eq_true', decide_eq_false_iff_not]
      intro hid
      have hsame := place_eq_of_id_eq hshape hinj (by rwa [length_map]) (hfired hj')
        (hfired hcall) hid
      omega
    dsimp only
    rw [hmodel, hfind _ fun _ _ => rfl]

/-- What the lease hands over with an observation is the arguments of its own call. -/
theorem resolveToolArgs_eq {store : Store}
    (hraw : (s.resultRefOf turnMoteId).bind store.get = some raw)
    (hparse : P.parseToolCalls raw warrant (P.maxArgsBytes warrant) = .ok calls)
    {tool : ToolDef} (htool : lookup call.name call.version = some tool)
    (hargs : tool.validateArgs.bind (· call.argsBytes) = none) :
    P.resolveToolArgs (P.observation modelId turn chain turnMoteId (call.name, call.version) i)
        warrant s (some store) lookup =
      .resolved (P.normalizeLenientArgs call.argsBytes, tool.netScopeRequired,
        tool.fsScopeRequired) := by
  have hobserved := observedCall_eq hshape hinj hcap hround hplace hcall
  have hparent : (P.observation modelId turn chain turnMoteId (call.name, call.version) i).parents =
      [⟨turnMoteId, ⟨.data, false⟩⟩] := by
    rw [observation, hshape.tools, parents_buildChainTool]
  have hcontract : (P.observation modelId turn chain turnMoteId
      (call.name, call.version) i).def.toolContract[call.name]? = some call.version := by
    rw [observation, hshape.tools, toolContract_buildChainTool]
  unfold resolveToolArgs
  rw [hparent]
  dsimp only [List.head?_cons]
  rw [hraw]
  dsimp only
  rw [hparse]
  have hsome : calls ≠ [] := by
    rintro rfl
    cases hcall
  split
  · rename_i heq
    cases heq
  · rename_i heq
    cases heq
    exact absurd rfl hsome
  rename_i heq
  cases heq
  rw [hobserved]
  dsimp only
  rw [hcontract]
  dsimp only
  rw [if_neg (not_not.2 rfl), htool]
  dsimp only
  rw [hargs]

end Resolving

section Agreement

variable {s s' : State} {store store' : Store} {rounds : List ReactRoundRecord}
  {anchor : ReactRoundRecord} {seq : UInt64}

/-- Settle and lease agree on the calls of a turn. The settle pass freezes the branch of the
turn's output `raw` in the state `s`; the lease finds the frozen fact in a later state `s'`
that still reads `raw` for the turn, with the registry it was frozen with. Then the
observation at each place resolves to the arguments of the call decoded at that place, and
no two observations share their id. -/
theorem resolveToolArgs_of_frozen (hshape : ShapesChains P)
    (hfrozen : s'.reactToolRoundOfTurnOf turnMoteId = some { anchor with
      turn, turnMoteId, seq, branch := P.branchOfTurn s store lookup rounds turn warrant raw })
    (hraw : (s'.resultRefOf turnMoteId).bind store'.get = some raw)
    (hinj : Set.InjOn P.ids.blake3 (P.hashedTexts anchor.modelId turn
      (anchor.instanceId, anchor.stepSalt) turnMoteId
      (firedCalls (P.branchOfTurn s store lookup rounds turn warrant raw)))) :
    let fired := firedCalls (P.branchOfTurn s store lookup rounds turn warrant raw)
    let observation := P.observation anchor.modelId turn (anchor.instanceId, anchor.stepSalt)
      turnMoteId
    (∀ i tool, fired[i]? = some tool →
      ∃ calls call toolDef,
        P.parseToolCalls raw warrant (P.maxArgsBytes warrant) = .ok calls ∧
        calls.length = fired.length ∧ calls[i]? = some call ∧ tool = (call.name, call.version) ∧
        lookup call.name call.version = some toolDef ∧
        P.resolveToolArgs (observation tool i) warrant s' (some store') lookup =
          .resolved (P.normalizeLenientArgs call.argsBytes, toolDef.netScopeRequired,
            toolDef.fsScopeRequired)) ∧
      ∀ i j tool tool', fired[i]? = some tool → fired[j]? = some tool' →
        (observation tool i).id = (observation tool' j).id → i = j := by
  intro fired observation
  have hdecoded : fired ≠ [] → ∃ calls,
      P.parseToolCalls raw warrant (P.maxArgsBytes warrant) = .ok calls ∧
      fired = calls.map (fun call => (call.name, call.version)) ∧
      (∀ call ∈ calls, Checked lookup call) ∧ calls.length ≤ MAX_TOOL_BATCH_CALLS :=
    decoded_of_fired
  have hfires : ∀ {i : Nat} {tool : String × String}, fired[i]? = some tool → fired ≠ [] := by
    rintro i tool hi hnil
    rw [hnil] at hi
    cases hi
  constructor
  · intro i tool hi
    obtain ⟨calls, hparse, hfired, hchecked, hcap⟩ := hdecoded (hfires hi)
    have hmap := hi
    rw [hfired, List.getElem?_map, Option.map_eq_some_iff] at hmap
    obtain ⟨call, hcall, rfl⟩ := hmap
    obtain ⟨toolDef, htool, hargs⟩ := hchecked call (mem_of_getElem? hcall)
    refine ⟨calls, call, toolDef, hparse, by rw [hfired, length_map], hcall, rfl, htool, ?_⟩
    have hinj' := hinj
    rw [show firedCalls (P.branchOfTurn s store lookup rounds turn warrant raw) = _ from hfired]
      at hinj'
    exact resolveToolArgs_eq hshape hinj' hcap hfrozen ⟨rfl, rfl⟩ hcall hraw hparse htool hargs
  · intro i j tool tool' hi hj hid
    obtain ⟨calls, -, hfired, -, hcap⟩ := hdecoded (hfires hi)
    have hlength : fired.length ≤ MAX_TOOL_BATCH_CALLS := by
      rwa [hfired, length_map]
    exact place_eq_of_id_eq hshape hinj hlength hi hj hid

/-- A platform whose model asks for one tool twice, with two arguments. -/
def twoCallPlatform : Platform :=
  { samplePlatform with
    buildChainTurn := buildChainTurn sampleIds
    buildChainTool := buildChainTool sampleIds
    renderTurnInstruction := renderTurnInstruction
    parseToolCalls := fun _ _ _ => .ok [⟨"echo", "1", [1]⟩, ⟨"echo", "1", [2]⟩] }

def echoTool : ToolDef where
  idempotencyClass := .token
  validateArgs := none
  exampleArgsJson := ""
  netScopeRequired := .none
  fsScopeRequired := {}

def echoLookup (name : ToolName) (version : ToolVersion) : Option ToolDef :=
  if name = "echo" ∧ version = "1" then some echoTool else none

def sampleTurn : MoteId := ⟨.replicate 32 7⟩

def sampleAnchor : ReactRoundRecord where
  turn := 0
  turnMoteId := sampleTurn
  instanceId := .replicate _ 1
  basePromptRef := ⟨.replicate 32 0⟩
  warrantRef := ⟨.replicate 32 0⟩
  modelId := "model"
  branch := .pending
  maxTurns := 16
  maxToolCalls := 20
  stepSalt := none
  isAgenticLaunch := false
  contextItemsRef := none
  imageRef := none
  requireApproval := false
  seq := 0

def sampleStore : Store where
  get _ := some []
  contains _ := true
  takes := true

def twoCallBranch : ReactBranch :=
  twoCallPlatform.branchOfTurn {} sampleStore echoLookup [] 0 {} []

def twoCallState : State :=
  (foldMany none {} [committedEntry (commitOf sampleTurn) |>.setSeq 1,
    .reactRound { sampleAnchor with branch := twoCallBranch, seq := 2 }]).1

def twoCallTexts : List (List UInt8) :=
  [0, 1].flatMap fun i => [chainToolText 0 (.replicate _ 1) none (u32OfNat i),
    observationText sampleIds (twoCallPlatform.observation "model" 0
      (.replicate _ 1, none) sampleTurn ("echo", "1") i)]

theorem injOn_twoCalls : Set.InjOn twoCallPlatform.ids.blake3
    (twoCallPlatform.hashedTexts "model" 0 (.replicate _ 1, none) sampleTurn
      [("echo", "1"), ("echo", "1")]) := by
  have htexts : ∀ text ∈ twoCallPlatform.hashedTexts "model" 0 (.replicate _ 1, none)
      sampleTurn [("echo", "1"), ("echo", "1")], text ∈ twoCallTexts := by
    rintro text ⟨i, tool, hi, htext⟩
    match i, hi with
    | 0, rfl => rcases htext with rfl | rfl <;> decide +kernel
    | 1, rfl => rcases htext with rfl | rfl <;> decide +kernel
  intro x hx y hy
  have hinj : ∀ x ∈ twoCallTexts, ∀ y ∈ twoCallTexts, sampleHash x = sampleHash y → x = y := by
    decide +kernel
  exact hinj x (htexts x hx) y (htexts y hy)

/-- The second of two calls to one tool gets its own arguments. -/
theorem resolveToolArgs_of_frozen_secondCall :
    ∃ net fs, twoCallPlatform.resolveToolArgs (twoCallPlatform.observation "model" 0
      (.replicate _ 1, none) sampleTurn ("echo", "1") 1) {} twoCallState
      (some sampleStore) echoLookup = .resolved ([2], net, fs) := by
  have hshape : ShapesChains twoCallPlatform := ⟨rfl, rfl, rfl⟩
  have hfrozen : twoCallState.reactToolRoundOfTurnOf sampleTurn =
      some { sampleAnchor with
        turn := 0, turnMoteId := sampleTurn, seq := 2, branch := twoCallBranch } := by
    decide +kernel
  have hraw : (twoCallState.resultRefOf sampleTurn).bind sampleStore.get = some [] := by
    decide +kernel
  obtain ⟨calls, call, toolDef, hparse, -, hcall, -, -, hresolved⟩ :=
    (resolveToolArgs_of_frozen hshape hfrozen hraw injOn_twoCalls).1 1 ("echo", "1") rfl
  cases hparse
  cases hcall
  exact ⟨_, _, hresolved⟩

end Agreement

end Kortecx.Coordinator
