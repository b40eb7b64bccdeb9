import Kortecx.Lib.Memo
import Kortecx.Projection.State

/-!
The Motes that may be dispatched next, and the gate a critic puts before the consumers
of a world-mutating producer. The pass over the graph asks for the promotion of a
producer once and remembers it; what it returns is a filter of the known Motes.
-/

namespace Kortecx.Projection

open Lib Mote Journal List

inductive PromotionState where
  | notApplicable
  | unpromoted
  | promoted
deriving DecidableEq, Repr

/-- The decision of a critic. The reason of a refusal is not read by the gate. -/
inductive CriticVerdict where
  | valid
  | invalid
deriving DecidableEq, Repr

def CriticVerdict.isValid : CriticVerdict → Bool
  | .valid => true
  | .invalid => false

/-- Missing bytes and bytes that do not decode both read as no verdict. -/
abbrev VerdictLookup := ContentRef → Option CriticVerdict

def noVerdicts : VerdictLookup := fun _ => none

section Promotion

variable (producerId : MoteId) (lookup : VerdictLookup)

/-- One turn of the scan for the critics of the producer: whether a critic was seen, and
whether all of them were found valid. -/
def scanCritic (acc : Bool × Bool) (info : MoteInfo) : Bool × Bool :=
  match info.declared with
  | none => acc
  | some declared =>
    if declared.criticFor ≠ some producerId then acc
    else
      match info.committed with
      | none => (true, false)
      | some c =>
        if c.repudiated then (true, false)
        else
          match lookup c.resultRef with
          | some v => (true, if v.isValid then acc.2 else false)
          | none => (true, false)

def State.promotionStateWith (s : State) (producerId : MoteId) (lookup : VerdictLookup) :
    PromotionState :=
  let (sawCritic, allValid) :=
    s.motes.toList.foldl (fun acc (_, info) => scanCritic producerId lookup acc info) (false, true)
  if !sawCritic then .notApplicable
  else if allValid then .promoted
  else .unpromoted

end Promotion

section Ready

variable (s : State) (promotion : State → MoteId → PromotionState)

/-- Walk the parents of a Mote, stopping at the first that withholds it. The producer a
critic judges does not withhold the critic by its own promotion. -/
def parentsReady (criticFor : Option MoteId) (memo : Memo (promotion s)) :
    List ParentRef → Bool × Memo (promotion s)
  | [] => (true, memo)
  | p :: parents =>
    if s.stateOfId p.parentId ≠ .committed then (false, memo)
    else if criticFor = some p.parentId then parentsReady criticFor memo parents
    else
      match s.motes[p.parentId]?.bind MoteInfo.committed with
      | none => parentsReady criticFor memo parents
      | some committed =>
        if committed.nondeterminism = .worldMutating then
          match memo.orInsert p.parentId with
          | (.unpromoted, memo) => (false, memo)
          | (_, memo) => parentsReady criticFor memo parents
        else parentsReady criticFor memo parents

def readyPass (memo : Memo (promotion s)) : List (MoteId × MoteInfo) → List MoteId
  | [] => []
  | (id, info) :: rest =>
    if s.stateOfId id ≠ .pending then readyPass memo rest
    else
      match info.declared with
      | none => readyPass memo rest
      | some d =>
        match parentsReady s promotion d.criticFor memo d.parents with
        | (true, memo) => id :: readyPass memo rest
        | (false, memo) => readyPass memo rest

def readySetImplWith : List MoteId :=
  readyPass s promotion .empty s.motes.toList

end Ready

def promotionStateImpl (_ : State) (_ : MoteId) : PromotionState := .notApplicable

namespace State

def readySet (s : State) : List MoteId :=
  readySetImplWith s promotionStateImpl

def readySetPromoted (s : State) (verdicts : VerdictLookup) : List MoteId :=
  readySetImplWith s fun s id => s.promotionStateWith id verdicts

/-- A critic that no store can answer for withholds what it gates. -/
def readySetAuto (s : State) (verdicts : Option VerdictLookup) : List MoteId :=
  if !s.hasDeclaredCritic then s.readySet
  else
    match verdicts with
    | some v => s.readySetPromoted v
    | none => s.readySetPromoted noVerdicts

end State

def MoteInfo.IsCriticOf (info : MoteInfo) (producerId : MoteId) : Prop :=
  ∃ d, info.declared = some d ∧ d.criticFor = some producerId

def MoteInfo.Approves (lookup : VerdictLookup) (info : MoteInfo) : Prop :=
  ∃ c, info.committed = some c ∧ c.repudiated = false ∧ lookup c.resultRef = some .valid

theorem MoteInfo.not_isCriticOf_default {producerId : MoteId} :
    ¬ MoteInfo.IsCriticOf {} producerId := by
  rintro ⟨d, hdeclared, _⟩
  cases hdeclared

theorem MoteInfo.not_approves_noVerdicts (info : MoteInfo) : ¬ info.Approves noVerdicts := by
  rintro ⟨c, _, _, hverdict⟩
  cases hverdict

/-- A pass over the known Motes sees what is known of every Mote, if it is not misled by
the Motes never heard of. -/
theorem State.forall_toList_iff (s : State) {P : MoteInfo → Prop} (hunknown : P {}) :
    (∀ entry ∈ s.motes.toList, P entry.2) ↔ ∀ k, P (s.info k) := by
  constructor
  · intro hknown k
    by_cases hheard : s.info k = {}
    · rw [hheard]
      exact hunknown
    · exact hknown _ (s.mem_toList_of_info_ne k hheard)
  · rintro hall ⟨k, info⟩ hmem
    rw [← s.info_of_mem_toList k hmem]
    exact hall k

section PromotionSpec

variable (producerId : MoteId) (lookup : VerdictLookup) (entries : List (MoteId × MoteInfo))
  (acc : Bool × Bool) (info : MoteInfo)

/-- The scan has seen a critic, and all it has seen approve. -/
theorem scanCritic_iff :
    ((scanCritic producerId lookup acc info).1 = true ↔
        acc.1 = true ∨ info.IsCriticOf producerId) ∧
      ((scanCritic producerId lookup acc info).2 = true ↔
        acc.2 = true ∧ (info.IsCriticOf producerId → info.Approves lookup)) := by
  unfold scanCritic MoteInfo.IsCriticOf MoteInfo.Approves
  cases info.declared with
  | none => simp
  | some d =>
    by_cases hcritic : d.criticFor = some producerId
    · dsimp only
      rw [if_neg (not_not_intro hcritic)]
      cases info.committed with
      | none => simp [hcritic]
      | some c =>
        cases hrepudiated : c.repudiated with
        | true => simp [hcritic, hrepudiated]
        | false =>
          rcases hverdict : lookup c.resultRef with _ | _ | _ <;>
            simp [hcritic, hrepudiated, hverdict, CriticVerdict.isValid]
    · simp [hcritic]

theorem scanCritics_iff :
    let scanned := entries.foldl (fun acc (_, info) => scanCritic producerId lookup acc info) acc
    (scanned.1 = false ↔ acc.1 = false ∧ ∀ entry ∈ entries, ¬ entry.2.IsCriticOf producerId) ∧
      (scanned.2 = true ↔ acc.2 = true ∧ ∀ entry ∈ entries, entry.2.IsCriticOf producerId →
        entry.2.Approves lookup) := by
  induction entries generalizing acc with
  | nil => simp
  | cons entry entries ih =>
    have hentry := scanCritic_iff producerId lookup acc entry.2
    rw [foldl_cons]
    refine ⟨(ih _).1.trans ?_, (ih _).2.trans ?_⟩
    · rw [← Bool.not_eq_true, hentry.1]
      simp [and_assoc]
    · rw [hentry.2]
      simp [and_assoc]

/-- The producer is held back exactly while some critic of it does not approve. -/
theorem State.promotionStateWith_eq_unpromoted (s : State) :
    s.promotionStateWith producerId lookup = .unpromoted ↔
      ¬ ∀ k, (s.info k).IsCriticOf producerId → (s.info k).Approves lookup := by
  obtain ⟨hnone, hall⟩ := scanCritics_iff producerId lookup s.motes.toList (false, true)
  rw [s.forall_toList_iff (P := fun info => ¬ info.IsCriticOf producerId)
    MoteInfo.not_isCriticOf_default] at hnone
  rw [s.forall_toList_iff (P := fun info => info.IsCriticOf producerId → info.Approves lookup)
    fun hcritic => absurd hcritic MoteInfo.not_isCriticOf_default] at hall
  unfold State.promotionStateWith
  generalize s.motes.toList.foldl _ _ = scanned at hnone hall ⊢
  rcases scanned with ⟨_ | _, _ | _⟩ <;> simp_all

end PromotionSpec

section ReadySpec

variable (s : State) (promotion : State → MoteId → PromotionState)

/-- The parent lets a Mote declared with this `criticFor` through. -/
def admits (criticFor : Option MoteId) (p : ParentRef) : Bool :=
  s.stateOfId p.parentId = .committed &&
    (criticFor = some p.parentId ||
      (s.info p.parentId).committed.all fun c =>
        c.nondeterminism ≠ .worldMutating || promotion s p.parentId ≠ .unpromoted)

def isReady (entry : MoteId × MoteInfo) : Bool :=
  s.stateOfId entry.1 = .pending &&
    entry.2.declared.any fun d => d.parents.all (admits s promotion d.criticFor)

variable (criticFor : Option MoteId) (memo : Memo (promotion s))

/-- One parent of the walk: whether it goes on depends on the parent alone, not on what
is remembered. -/
theorem parentsReady_cons (p : ParentRef) (parents : List ParentRef) :
    ∃ memo', parentsReady s promotion criticFor memo (p :: parents) =
      if admits s promotion criticFor p then parentsReady s promotion criticFor memo' parents
      else (false, memo') := by
  have hinfo : s.motes[p.parentId]?.bind MoteInfo.committed =
      (s.info p.parentId).committed := by
    unfold State.info
    cases s.motes[p.parentId]? <;> rfl
  rw [parentsReady, hinfo]
  by_cases hstate : s.stateOfId p.parentId = .committed
  · rw [if_neg (not_not_intro hstate)]
    by_cases hown : criticFor = some p.parentId
    · exact ⟨memo, by simp [admits, hstate, hown]⟩
    rw [if_neg hown]
    cases hcommitted : (s.info p.parentId).committed with
    | none => exact ⟨memo, by simp [admits, hstate, hcommitted]⟩
    | some c =>
      by_cases hmutating : c.nondeterminism = .worldMutating
      · have hpromotion := memo.orInsert_fst p.parentId
        refine ⟨(memo.orInsert p.parentId).2, ?_⟩
        dsimp only
        rw [if_pos hmutating]
        generalize memo.orInsert p.parentId = asked at hpromotion ⊢
        obtain ⟨promo, memo'⟩ := asked
        cases promo <;>
          simp [admits, hstate, hown, hcommitted, hmutating, ← hpromotion]
      · exact ⟨memo, by simp [admits, hstate, hcommitted, hmutating]⟩
  · exact ⟨memo, by simp [admits, hstate]⟩

theorem parentsReady_fst (parents : List ParentRef) :
    (parentsReady s promotion criticFor memo parents).1 =
      parents.all (admits s promotion criticFor) := by
  induction parents generalizing memo with
  | nil => rfl
  | cons p parents ih =>
    obtain ⟨memo', hcons⟩ := parentsReady_cons s promotion criticFor memo p parents
    rw [hcons, all_cons]
    split
    · rename_i hadmits
      rw [ih, hadmits, Bool.true_and]
    rename_i hwithheld
    rw [Bool.eq_false_of_not_eq_true hwithheld, Bool.false_and]

theorem readyPass_cons (entry : MoteId × MoteInfo) (entries : List (MoteId × MoteInfo)) :
    ∃ memo', readyPass s promotion memo (entry :: entries) =
      if isReady s promotion entry then entry.1 :: readyPass s promotion memo' entries
      else readyPass s promotion memo' entries := by
  obtain ⟨id, info⟩ := entry
  rw [readyPass]
  by_cases hpending : s.stateOfId id = .pending
  · rw [if_neg (not_not_intro hpending)]
    cases hdeclared : info.declared with
    | none => exact ⟨memo, by simp [isReady, hdeclared]⟩
    | some d =>
      have hparents := parentsReady_fst s promotion d.criticFor memo d.parents
      refine ⟨(parentsReady s promotion d.criticFor memo d.parents).2, ?_⟩
      dsimp only
      generalize parentsReady s promotion d.criticFor memo d.parents = walked at hparents ⊢
      obtain ⟨ready, memo'⟩ := walked
      cases ready <;> simp [isReady, hpending, hdeclared, ← hparents]
  · exact ⟨memo, by simp [isReady, hpending]⟩

/-- The pass is a filter: remembering changes neither what is returned nor its order. -/
theorem readyPass_eq_filter (entries : List (MoteId × MoteInfo)) :
    readyPass s promotion memo entries =
      (entries.filter (isReady s promotion)).map Prod.fst := by
  induction entries generalizing memo with
  | nil => rfl
  | cons entry entries ih =>
    obtain ⟨memo', hcons⟩ := readyPass_cons s promotion memo entry entries
    rw [hcons, filter_cons, ih]
    split <;> rfl

theorem mem_readySetImplWith {id : MoteId} :
    id ∈ readySetImplWith s promotion ↔ isReady s promotion (id, s.info id) := by
  unfold readySetImplWith
  rw [readyPass_eq_filter, mem_map]
  constructor
  · rintro ⟨⟨k, info⟩, hmem, rfl⟩
    obtain ⟨hknown, hready⟩ := mem_filter.1 hmem
    rw [s.info_of_mem_toList k hknown]
    exact hready
  · intro hready
    refine ⟨(id, s.info id), mem_filter.2 ⟨?_, hready⟩, rfl⟩
    apply s.mem_toList_of_info_ne
    -- Nothing is declared of a Mote never heard of.
    intro hunheard
    simp [isReady, hunheard] at hready

end ReadySpec

variable {s : State}

theorem State.not_isCriticOf_of_not_hasDeclaredCritic
    (hfree : s.hasDeclaredCritic = false) (k producerId : MoteId) :
    ¬ (s.info k).IsCriticOf producerId := by
  apply (s.forall_toList_iff (P := fun info => ¬ info.IsCriticOf producerId)
    MoteInfo.not_isCriticOf_default).1
  rintro entry hmem ⟨d, hdeclared, hcritic⟩
  have hnot := any_eq_false.1 hfree entry hmem
  simp [hdeclared, hcritic] at hnot

variable {verdicts : Option VerdictLookup} {m : MoteId}

theorem State.pending_of_mem_readySetAuto
    (hready : m ∈ s.readySetAuto verdicts) : s.stateOfId m = .pending := by
  have hpass : ∃ promotion, m ∈ readySetImplWith s promotion := by
    unfold State.readySetAuto at hready
    split at hready
    · exact ⟨_, hready⟩
    · split at hready <;> exact ⟨_, hready⟩
  obtain ⟨promotion, hmem⟩ := hpass
  rw [mem_readySetImplWith] at hmem
  exact of_decide_eq_true (Bool.and_eq_true_iff.1 hmem).1

/-- What lets a Mote through the gate: its parents are committed, and the critics of
those parents whose promotion it waits for all approve. -/
theorem State.gate_of_mem_readySetAuto (hready : m ∈ s.readySetAuto verdicts) :
    ∃ d, (s.info m).declared = some d ∧ ∀ p ∈ d.parents,
      s.stateOfId p.parentId = .committed ∧
        (d.criticFor ≠ some p.parentId → ∀ c, (s.info p.parentId).committed = some c →
          c.nondeterminism = .worldMutating → ∀ k, (s.info k).IsCriticOf p.parentId →
            (s.info k).Approves (verdicts.getD noVerdicts)) := by
  have hpass : ∃ promotion, m ∈ readySetImplWith s promotion ∧
      ∀ producerId, promotion s producerId ≠ .unpromoted →
        ∀ k, (s.info k).IsCriticOf producerId →
          (s.info k).Approves (verdicts.getD noVerdicts) := by
    unfold State.readySetAuto at hready
    cases hcritic : s.hasDeclaredCritic with
    | false =>
      rw [hcritic] at hready
      refine ⟨_, hready, ?_⟩
      intro producerId _ k hk
      exact absurd hk (State.not_isCriticOf_of_not_hasDeclaredCritic hcritic k producerId)
    | true =>
      rw [hcritic] at hready
      refine ⟨fun s id => s.promotionStateWith id (verdicts.getD noVerdicts), ?_, ?_⟩
      · cases verdicts <;> exact hready
      · intro producerId hpromoted
        rw [Ne, State.promotionStateWith_eq_unpromoted, not_not] at hpromoted
        exact hpromoted
  obtain ⟨promotion, hmem, hpromotion⟩ := hpass
  rw [mem_readySetImplWith] at hmem
  obtain ⟨_, hparents⟩ := Bool.and_eq_true_iff.1 hmem
  obtain ⟨d, hd, hall⟩ := (Option.any_eq_true _ _).1 hparents
  refine ⟨d, hd, ?_⟩
  intro p hp
  obtain ⟨hstate, hgate⟩ := Bool.and_eq_true_iff.1 (all_eq_true.1 hall p hp)
  refine ⟨of_decide_eq_true hstate, ?_⟩
  intro hown c hc hmutating
  apply hpromotion p.parentId
  simpa [hown, hc, hmutating] using hgate

/-- The critic gate never fails open. A Mote that is returned has all its parents
committed and not repudiated; a parent committed as world-mutating that the Mote is not
itself the critic of either has no critic, or all its critics are committed, not
repudiated, and found valid. Without a verdict source nothing that waits for a producer
with a critic is returned. -/
theorem readySetAuto_never_fails_open (s : State) (verdicts : Option VerdictLookup) :
    (∀ m ∈ s.readySetAuto verdicts, ∃ d, (s.info m).declared = some d ∧ ∀ p ∈ d.parents,
      s.stateOfId p.parentId = .committed ∧
        ∃ c, (s.info p.parentId).committed = some c ∧ c.repudiated = false ∧
          (c.nondeterminism = .worldMutating → d.criticFor ≠ some p.parentId →
            (∀ k, ¬ (s.info k).IsCriticOf p.parentId) ∨
            ∃ lookup, verdicts = some lookup ∧
              ∀ k, (s.info k).IsCriticOf p.parentId → (s.info k).Approves lookup)) ∧
    (verdicts = none → s.hasDeclaredCritic = true →
      ∀ m d p c k, (s.info m).declared = some d → p ∈ d.parents →
        d.criticFor ≠ some p.parentId → (s.info p.parentId).committed = some c →
        c.nondeterminism = .worldMutating → (s.info k).IsCriticOf p.parentId →
        m ∉ s.readySetAuto verdicts) := by
  constructor
  · intro m hready
    obtain ⟨d, hd, hparents⟩ := State.gate_of_mem_readySetAuto hready
    refine ⟨d, hd, ?_⟩
    intro p hp
    obtain ⟨hstate, hgate⟩ := hparents p hp
    obtain ⟨_, c, hc, hkept⟩ := (State.stateOfId_eq_committed s p.parentId).1 hstate
    refine ⟨hstate, c, hc, hkept, ?_⟩
    intro hmutating hown
    have happroved := hgate hown c hc hmutating
    cases verdicts with
    | none =>
      apply Or.inl
      intro k hk
      exact (s.info k).not_approves_noVerdicts (happroved k hk)
    | some lookup => exact .inr ⟨lookup, rfl, happroved⟩
  · rintro rfl _ m d p c k hd hp hown hc hmutating hk hready
    obtain ⟨d', hd', hparents⟩ := State.gate_of_mem_readySetAuto hready
    cases hd.symm.trans hd'
    exact (s.info k).not_approves_noVerdicts ((hparents p hp).2 hown c hc hmutating k hk)

def gateId (byte : UInt8) : MoteId := ⟨.replicate 32 byte⟩

def resultAt (byte : UInt8) : ContentRef := ⟨.replicate 32 byte⟩

def declaredWith (criticFor : Option MoteId) (parents : List ParentRef) : DeclaredInfo where
  ndClass := .pure
  effectPattern := .idempotentByConstruction
  criticFor := criticFor
  isTopologyShaper := false
  parents := parents
  warrantRef := resultAt 0

def committedAs (nondeterminism : NdClass) (resultRef : ContentRef) : CommittedInfo where
  seq := 1
  resultRef := resultRef
  nondeterminism := nondeterminism
  parentsInEntry := []
  warrantRef := resultAt 0
  moteDefHash := ⟨.replicate 32 0⟩
  repudiated := false

/-- Mote 1 changed the world, Mote 2 has judged it, and Motes 3 and 4 depend on it; Mote
4 may be declared as a second critic. -/
def judgedMotes (second : Option MoteId) : List (MoteId × MoteInfo) :=
  [(gateId 1, { committed := some (committedAs .worldMutating (resultAt 8)) }),
    (gateId 2,
      { declared := some (declaredWith (some (gateId 1)) [⟨gateId 1, .data, false⟩])
        committed := some (committedAs .pure (resultAt 9)) }),
    (gateId 3, { declared := some (declaredWith none [⟨gateId 1, .data, false⟩]) }),
    (gateId 4, { declared := some (declaredWith second [⟨gateId 1, .data, false⟩]) })]

def judged (second : Option MoteId) : State where
  motes := .ofList (judgedMotes second)

def verdictsAtNine : VerdictLookup := fun r =>
  if r = resultAt 9 then some .valid else none

-- With a second critic outstanding only that critic may run.
example : (judged (some (gateId 1))).readySetAuto (some verdictsAtNine) = [gateId 4] := by
  decide

theorem readySetAuto_never_fails_open_judged :
    (judged none).readySetAuto (some verdictsAtNine) = [gateId 3, gateId 4] ∧
      ((judged none).info (gateId 2)).Approves verdictsAtNine ∧
      gateId 3 ∉ (judged none).readySetAuto none := by
  have hcritic : ((judged none).info (gateId 2)).IsCriticOf (gateId 1) := ⟨_, rfl, rfl⟩
  have hreturned : (judged none).readySetAuto (some verdictsAtNine) = [gateId 3, gateId 4] := by
    decide
  refine ⟨hreturned, ?_, ?_⟩
  · obtain ⟨d, hd, hparents⟩ := (readySetAuto_never_fails_open (judged none)
      (some verdictsAtNine)).1 (gateId 3) (by simp [hreturned])
    cases hd
    obtain ⟨_, c, hc, _, hgate⟩ := hparents _ (mem_singleton.2 rfl)
    cases hc
    rcases hgate rfl nofun with hnone | ⟨lookup, hlookup, happroved⟩
    · exact absurd hcritic (hnone _)
    cases hlookup
    exact happroved _ hcritic
  · exact (readySetAuto_never_fails_open (judged none) none).2 rfl (by decide) (gateId 3) _ _ _
      (gateId 2) rfl (mem_singleton.2 rfl) nofun rfl rfl hcritic

end Kortecx.Projection
