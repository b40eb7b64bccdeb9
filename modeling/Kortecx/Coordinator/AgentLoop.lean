import Kortecx.Coordinator.Driving
import Kortecx.Coordinator.Observations

/-!
The agent loop is bounded: whatever the models answer and however the tools end, the turns of
a chain are numbered one after the other, stay below the turn budget, and are not begun when
the call budget is spent.
-/

namespace Kortecx.Coordinator

open Lib Mote Journal Projection Warrant List Std

def Moment.journal {J : Backend} : Moment J → J.State
  | .down journal => journal
  | .up w _ => w.journal

section Runs

variable {P : Platform} {J : Backend} {rel : J.State → List JournalEntry → Prop}

def orderlyRuns (P : Platform) (J : Backend) (rel : J.State → List JournalEntry → Prop) :
    RunInvariant P J rel fun w e => Lasting Set.univ w e ∧ PlacesFacts P Set.univ w e where
  up _ log := Orderly log
  down log := Orderly log
  boot _ _ _ _ hdown := hdown
  facing _ hup := hup
  crash _ hup := hup
  step hmirrored hup hguarded he hdid _ := hup.did hmirrored hguarded he.2 hdid

theorem orderly_nil : Orderly [] := fun _ => .inl rfl

theorem lasting_univ (hfault : Faultless w e) : Lasting Set.univ w e := by
  refine ⟨hfault, ?_⟩
  unfold Writes
  split <;> trivial

theorem orderly_of_reaches (hJ : J.ReadsBack P.ids.blake3 rel)
    (hreaches : Reaches P J Faultless moment) : Orderly (J.durable moment.journal) := by
  have hdoes : ∀ action w, (orderlyRuns P J rel).Live w → (P.act action).AsLong (P.handler J)
      (fun w e => Lasting Set.univ w e ∧ P.Guarded w e) (PlacesFacts P Set.univ) w :=
    fun action _ hlive => (keepsOrder_act hJ hlive action).asLong
  have hholds := RunInvariant.holds_of_reaches_of_asLong hJ (fun _ _ he => he.1.1) hdoes
    orderly_nil (hreaches.mono fun _ _ => lasting_univ)
  cases moment with
  | down journal =>
    obtain ⟨log, hkept, horderly⟩ := hholds
    exact (hJ.durable hkept.rel).symm ▸ horderly
  | up w todo =>
    obtain ⟨log, hmirrored, horderly⟩ := hholds
    exact (hJ.durable hmirrored.rel).symm ▸ horderly

end Runs

section Bounds

variable {front : List ReactRoundRecord} {last : ReactRoundRecord}

def before (rounds : List ReactRoundRecord) (turn : UInt32) : List ReactRoundRecord :=
  rounds.filter fun r => r.turn < turn

theorem before_concat_self (rounds : List ReactRoundRecord) (last : ReactRoundRecord) :
    before (rounds ++ [last]) last.turn = before rounds last.turn := by
  simp [before]

theorem before_eq_self (hlt : ∀ x ∈ rounds, x.turn < turn) : before rounds turn = rounds :=
  filter_eq_self.2 fun x hx => decide_eq_true (hlt x hx)

theorem isOpen_of_isSpent (hspent : isSpent branch = true) :
    isOpen branch = true := by
  cases branch with
  | answer => cases hspent
  | deadLettered => cases hspent
  | _ => rfl

namespace Grown

variable (hgrown : Grown front last)

include hgrown

/-- The calls spent before the turn a chain is at are fewer than it may spend. -/
theorem spentCalls_before_lt :
    spentCalls (before (front ++ [last]) last.turn) < last.maxToolCalls.toNat := by
  induction hgrown with
  | @anchor r _ _ hbudget =>
    rw [before_concat_self]
    exact hbudget.calls.1
  | @more front last r hgrown hnext hbudget _ ih =>
    rw [before_concat_self, hbudget.2]
    cases hnext with
    | freezes hturn => rwa [hturn]
    | advances hturn _ _ hcalls =>
      rwa [before_eq_self]
      intro x hx
      rw [UInt32.lt_iff_toNat_lt, hturn]
      rcases mem_append.1 hx with hx | hx
      · exact Nat.lt_succ_of_le (hgrown.le_last x hx).1
      rw [mem_singleton.1 hx]
      exact Nat.lt_succ_self _

/-- Every turn up to the last one is recorded. -/
theorem exists_turn (ht : t ≤ last.turn.toNat) : ∃ r ∈ front ++ [last], r.turn.toNat = t := by
  induction hgrown with
  | anchor hturn =>
    rw [hturn] at ht
    exact ⟨_, mem_singleton_self _, by rw [hturn]; exact (Nat.le_zero.1 ht).symm⟩
  | @more front last r _ hnext _ _ ih =>
    rcases Nat.lt_or_eq_of_le ht with hlt | rfl
    · have hle : t ≤ last.turn.toNat := by
        cases hnext with
        | freezes hturn =>
          rw [hturn] at hlt
          exact hlt.le
        | advances hturn => omega
      obtain ⟨x, hx, hturn⟩ := ih hle
      exact ⟨x, mem_append_left _ hx, hturn⟩
    · exact ⟨r, by simp, rfl⟩

/-- A turn that is over fired its calls, or was rejected. -/
theorem exists_spent (ht : t < last.turn.toNat) :
    ∃ r ∈ front ++ [last], r.turn.toNat = t ∧ isSpent r.branch = true := by
  induction hgrown with
  | anchor hturn =>
    rw [hturn] at ht
    exact absurd ht (Nat.not_lt_zero t)
  | @more front last r _ hnext _ _ ih =>
    have hkeep : (∃ x ∈ front ++ [last], x.turn.toNat = t ∧ isSpent x.branch = true) →
        ∃ x ∈ front ++ [last] ++ [r], x.turn.toNat = t ∧ isSpent x.branch = true := by
      rintro ⟨x, hx, hspent⟩
      exact ⟨x, mem_append_left _ hx, hspent⟩
    apply hkeep
    cases hnext with
    | freezes hturn =>
      rw [hturn] at ht
      exact ih ht
    | advances hturn _ hspent =>
      rcases Nat.lt_or_eq_of_le (Nat.lt_succ_iff.1 (hturn ▸ ht)) with hlt | rfl
      · exact ih hlt
      · exact ⟨last, by simp, rfl, hspent⟩

/-- Nothing follows an answer, or the end of a chain. -/
theorem isOpen_of_mem_front : ∀ r ∈ front, isOpen r.branch = true := by
  induction hgrown with
  | anchor => exact fun r hr => absurd hr (by simp)
  | more _ hnext _ _ ih =>
    intro x hx
    rcases mem_append.1 hx with hx | hx
    · exact ih x hx
    rw [mem_singleton.1 hx]
    cases hnext with
    | freezes _ _ _ hopen => exact hopen
    | advances _ _ hspent => exact isOpen_of_isSpent hspent

end Grown

end Bounds

/-- A chain whose loop is within its bounds, and at turn `top`. -/
structure BoundedLoop (rounds : List ReactRoundRecord) (top : UInt32) : Prop where
  turns : ∀ t : UInt32, (∃ r ∈ rounds, r.turn = t) ↔ t ≤ top
  maxTurns : ∀ r ∈ rounds, top < r.maxTurns
  spent : ∀ t < top, ∃ r ∈ rounds, r.turn = t ∧ isSpent r.branch = true
  maxToolCalls : ∀ r ∈ rounds, spentCalls (before rounds top) < r.maxToolCalls.toNat
  ends : ∀ {front rest : List ReactRoundRecord} {r : ReactRoundRecord},
    rounds = front ++ r :: rest → r.branch = .answer ∨ r.branch = .deadLettered → rest = []

theorem Grown.boundedLoop
    (hgrown : Grown front last) : BoundedLoop (front ++ [last]) last.turn := by
  obtain ⟨-, hturns, hsame⟩ := hgrown.budgeted
  have hbudget : ∀ r ∈ front ++ [last],
      r.maxTurns = last.maxTurns ∧ r.maxToolCalls = last.maxToolCalls := by
    intro r hr
    rcases mem_append.1 hr with hr | hr
    · exact hsame r hr
    rw [mem_singleton.1 hr]
    exact ⟨rfl, rfl⟩
  refine ⟨?_, ?_, ?_, ?_, ?_⟩
  · intro t
    rw [UInt32.le_iff_toNat_le]
    constructor
    · rintro ⟨r, hr, rfl⟩
      rcases mem_append.1 hr with hr | hr
      · exact (hgrown.le_last r hr).1
      · rw [mem_singleton.1 hr]
    · intro ht
      obtain ⟨r, hr, hturn⟩ := hgrown.exists_turn ht
      exact ⟨r, hr, UInt32.toNat_inj.1 hturn⟩
  · intro r hr
    rw [(hbudget r hr).1, UInt32.lt_iff_toNat_lt]
    exact hturns
  · intro t ht
    obtain ⟨r, hr, hturn, hspent⟩ := hgrown.exists_spent (UInt32.lt_iff_toNat_lt.1 ht)
    exact ⟨r, hr, UInt32.toNat_inj.1 hturn, hspent⟩
  · intro r hr
    rw [(hbudget r hr).2]
    exact hgrown.spentCalls_before_lt
  · intro front' rest r hrounds hends
    by_contra hrest
    -- Something follows, so the fact is one of those before the last.
    have hsplit := dropLast_append_getLast hrest
    have hmem : r ∈ front := by
      rw [← hsplit, ← cons_append, ← append_assoc] at hrounds
      have hfront := (append_inj' hrounds rfl).1
      rw [hfront]
      simp
    have hopen := hgrown.isOpen_of_mem_front r hmem
    rcases hends with hanswer | hdead
    · rw [hanswer] at hopen
      cases hopen
    rw [hdead] at hopen
    cases hopen

/-- In every run whose journal takes what is appended, up or down, every chain is within its
bounds, whatever the models answer, the tools do and the processes live through. -/
theorem boundedLoop_of_reaches {P : Platform} {J : Backend} (hJ : IsJournal P J)
    {moment : Moment J} (hreaches : Reaches P J Faultless moment) (chain : ChainKey)
    (hchain : chainRounds (J.durable moment.journal) chain ≠ []) :
    ∃ top, BoundedLoop (chainRounds (J.durable moment.journal) chain) top := by
  obtain ⟨rel, hreads⟩ := hJ.readsBack
  rcases orderly_of_reaches hreads hreaches chain with hnil | ⟨front, last, hsnoc, hgrown⟩
  · exact absurd hnil hchain
  rw [hsnoc]
  exact ⟨last.turn, hgrown.boundedLoop⟩

/-- A platform whose model asks for one call for each byte of its output. -/
def agentPlatform : Platform :=
  { samplePlatform with
    buildChainTurn := buildChainTurn sampleIds
    buildChainTool := buildChainTool sampleIds
    renderTurnInstruction := renderTurnInstruction
    encodeWarrant := fun warrant => leBytes 4 warrant.modelRoute.maxOutputTokens.toNat
    decodeWarrant := fun bytes =>
      some { modelRoute := { maxOutputTokens := UInt32.ofNat (leNat bytes) } }
    jsonU32 := fun value => value.head?.map fun b => UInt32.ofNat b.toNat
    isDuplicateCall := isDuplicateCall
    parseToolCalls := fun raw _ _ => .ok (raw.map fun b => ⟨"echo", "1", [b]⟩) }

abbrev agentJournal : Backend := InMemory.inMemory agentPlatform.ids.blake3

def agentSeed (config : ExtTreeMap ConfigKey ConfigVal) : Mote :=
  stepAt (pureDef (config.insert PROMPT_KEY (utf8Bytes "go"))) 1 []

def submitSeed (config : ExtTreeMap ConfigKey ConfigVal) : Command :=
  .submit (agentSeed config).«def» (.replicate 32 0) [1] [] {} false true

def agentChain (config : ExtTreeMap ConfigKey ConfigVal) : ChainKey :=
  (sampleOutside.freshInstanceId, some (agentSeed config).id.bytes)

def agentTurn (config : ExtTreeMap ConfigKey ConfigVal) : Mote :=
  agentPlatform.buildChainTurn "model" "go" 0 (agentChain config).1 (agentChain config).2
    ({} : WarrantSpec).modelRoute.maxOutputTokens

def agentCall (config : ExtTreeMap ConfigKey ConfigVal) (call : UInt32) : Mote :=
  agentPlatform.buildChainTool "model" "echo" "1" 0 (agentChain config).1 (agentChain config).2 call
    (agentTurn config).id

/-- What is put into the store before the first turn commits. -/
def agentTexts : List (List UInt8) :=
  [utf8Bytes "go", agentPlatform.encodeWarrant {}, sampleIds.canonical (agentTurn ∅).«def»]

/-- A store that has these texts, and what the turns of the runs commit. -/
def agentStore : Store where
  get ref := (agentTexts ++ [[1], [2], [1, 2]]).find? fun text =>
    agentPlatform.contentRefOf text = ref
  contains _ := true
  takes := true

def agentOutside : Outside :=
  { sampleOutside with
    store := some agentStore
    lookup := echoLookup }

def commitText (id : MoteId) (text : List UInt8) : CommitProposal :=
  { commitOf id with resultRef := ⟨sampleHash text⟩ }

def agentStart : Core agentJournal :=
  (started agentOutside agentPlatform.ids.blake3 .new).after agentPlatform agentOutside [.recover]

def agentAfter (batches : List (List Command)) : Core agentJournal :=
  agentStart.after agentPlatform agentOutside (batches.flatMap (plan []))

/-- The first turn asks for one call, the call is made, and the second turn begins. -/
def callOnce : List (List Command) :=
  [[registerSampleRun, submitSeed ∅], [.commit (commitText (agentTurn ∅).id [1])],
    [.commit (commitText (agentCall ∅ 0).id [])]]

theorem boundedLoop_of_reaches_callOnce :
    let moment : Moment agentJournal := .up (agentAfter callOnce) []
    let rounds := chainRounds (agentJournal.durable moment.journal) (agentChain ∅)
    Reaches agentPlatform agentJournal Faultless moment ∧ rounds.map (·.turn) = [0, 0, 1] ∧
      ∃ top, BoundedLoop rounds top := by
  have hreaches : Reaches agentPlatform agentJournal Faultless (.up (agentAfter callOnce) []) :=
    reaches_batches agentOutside _ (by decide) (by decide +kernel)
  have hturns : (chainRounds (agentJournal.durable (agentAfter callOnce).journal)
      (agentChain ∅)).map (·.turn) = [0, 0, 1] := by decide +kernel
  refine ⟨hreaches, hturns, boundedLoop_of_reaches (.inl rfl) hreaches (agentChain ∅) ?_⟩
  intro hnil
  change chainRounds (agentJournal.durable (agentAfter callOnce).journal) (agentChain ∅) = []
    at hnil
  rw [hnil] at hturns
  cases hturns

end Kortecx.Coordinator
