import Kortecx.Lib.Reader
import Kortecx.Mote.Definition

/-! What a submission of motes is refused for. The rules run one after the other over the
whole submission; the theorem says what a submission that passes them all looks like. -/

namespace Kortecx.Refusal

open Mote List Std

inductive SubmissionRefusal where
  | r1NoIdempotentTool (moteId : MoteId)
  | r2NoCritic (moteId : MoteId)
  | r4CriticTargetMissing (moteId target : MoteId)
  | r5CriticTargetWrongClass (moteId target : MoteId) (targetClass : NdClass)
  | r6MultiCritic (firstCritic secondCritic target : MoteId)
  | r7WorldMutatingCritic (moteId : MoteId)
  | r8ShaperAndCritic (moteId : MoteId)
  | r9CriticChainNotTerminating (moteId : MoteId)
  | r14WorldMutatingShaper (moteId : MoteId)
  | r15NativeCheckShape (moteId : MoteId)
deriving DecidableEq, Repr

structure WorkflowSubmission where
  motes : ExtTreeMap MoteId Mote
  keyed : ∀ (id : MoteId) (m : Mote), motes[id]? = some m → m.id = id

/-- How the gateway collects the motes. -/
def WorkflowSubmission.insert (s : WorkflowSubmission) (m : Mote) : WorkflowSubmission where
  motes := s.motes.insert m.id m
  keyed id m' hm' := by
    rw [ExtTreeMap.getElem?_insert] at hm'
    split at hm'
    · rename_i heq
      cases hm'
      exact LawfulEqCmp.eq_of_compare heq
    · exact s.keyed id m' hm'

def WorkflowSubmission.values (s : WorkflowSubmission) : List Mote :=
  s.motes.toList.map Prod.snd

def isLlmJudge : CheckSpec → Bool
  | .llmJudge _ => true
  | _ => false

abbrev Verdict := Except SubmissionRefusal Unit

section Rules

variable (s : WorkflowSubmission) (mote : Mote)

def checkR1 : Verdict :=
  if mote.def.ndClass ≠ .worldMutating then .ok ()
  else if mote.def.effectPattern ≠ .idempotentByConstruction then .ok ()
  else if mote.def.toolContract.isEmpty then .error (.r1NoIdempotentTool mote.id)
  else .ok ()

def checkR2 : Verdict :=
  if mote.def.ndClass ≠ .worldMutating then .ok ()
  else if mote.def.effectPattern ≠ .validateThenCommit then .ok ()
  else if s.values.any (·.def.criticFor = some mote.id) then .ok ()
  else .error (.r2NoCritic mote.id)

def checkR4R5R7 : Verdict :=
  match mote.def.criticFor with
  | none => .ok ()
  | some targetId =>
    if mote.def.ndClass = .worldMutating then .error (.r7WorldMutatingCritic mote.id)
    else match s.motes[targetId]? with
      | none => .error (.r4CriticTargetMissing mote.id targetId)
      | some target =>
        if target.def.ndClass ≠ .worldMutating then
          .error (.r5CriticTargetWrongClass mote.id targetId target.def.ndClass)
        else .ok ()

def checkR6From (criticTargets : ExtTreeMap MoteId MoteId) : List Mote → Verdict
  | [] => .ok ()
  | critic :: rest =>
    match critic.def.criticFor with
    | none => checkR6From criticTargets rest
    | some target =>
      match criticTargets[target]? with
      | some firstCritic => .error (.r6MultiCritic firstCritic critic.id target)
      | none => checkR6From (criticTargets.insert target critic.id) rest

def checkR6 : Verdict :=
  checkR6From ∅ s.values

def checkR8 : Verdict :=
  if mote.def.isTopologyShaper && mote.def.criticFor.isSome then .error (.r8ShaperAndCritic mote.id)
  else .ok ()

def checkR14 : Verdict :=
  if mote.def.isTopologyShaper && mote.def.ndClass = .worldMutating then
    .error (.r14WorldMutatingShaper mote.id)
  else .ok ()

def checkShape (ndClass : NdClass) : Verdict :=
  if mote.def.ndClass ≠ ndClass || mote.def.criticFor.isNone || mote.def.isTopologyShaper then
    .error (.r15NativeCheckShape mote.id)
  else .ok ()

def nativeCriticShape : Verdict :=
  match mote.def.criticCheck with
  | none => .ok ()
  | some c => if isLlmJudge c then .ok () else checkShape mote .pure

def nativeJudgeShape : Verdict :=
  match mote.def.criticCheck with
  | some c => if isLlmJudge c then checkShape mote .readOnlyNondet else .ok ()
  | none => .ok ()

def checkR15 : Verdict :=
  if mote.def.criticCheck.any isLlmJudge then nativeJudgeShape mote else nativeCriticShape mote

def walkCritics (moteId : MoteId) : Nat → MoteId → List MoteId → Verdict
  | 0, _, _ => .error (.r9CriticChainNotTerminating moteId)
  | depth + 1, currentTarget, visited =>
    match s.values.find? (·.def.criticFor = some currentTarget) with
    | none => .error (.r9CriticChainNotTerminating moteId)
    | some c =>
      if c.def.ndClass = .pure then .ok ()
      else if c.id ∈ visited then .error (.r9CriticChainNotTerminating moteId)
      else walkCritics moteId depth c.id (c.id :: visited)

def checkR9 : Verdict :=
  if mote.def.ndClass ≠ .worldMutating then .ok ()
  else if mote.def.effectPattern ≠ .validateThenCommit then .ok ()
  else walkCritics s mote.id 8 mote.id [mote.id]

end Rules

def validateSubmission (s : WorkflowSubmission) : Verdict := do
  s.values.forM fun mote => do
    checkR1 mote
    checkR2 s mote
  s.values.forM (checkR4R5R7 s)
  checkR6 s
  s.values.forM fun mote => do
    checkR8 mote
    checkR14 mote
    checkR15 mote
  s.values.forM (checkR9 s)

def requiredClass (c : CheckSpec) : NdClass :=
  if isLlmJudge c then .readOnlyNondet else .pure

def Mutates (m : Mote) (pattern : EffectPattern) : Prop :=
  m.def.ndClass = .worldMutating ∧ m.def.effectPattern = pattern

def Targets (s : WorkflowSubmission) (c : Mote) : Prop :=
  ∀ t, c.def.criticFor = some t → c.def.ndClass ≠ .worldMutating ∧
    ∃ m ∈ s.values, m.id = t ∧ m.def.ndClass = .worldMutating

structure Safe (s : WorkflowSubmission) (m : Mote) : Prop where
  /-- Rule R-1. -/
  deduplicated : Mutates m .idempotentByConstruction → m.def.toolContract.isEmpty = false
  reviewed : Mutates m .validateThenCommit → ∃ c ∈ s.values, c.def.criticFor = some m.id ∧
    c.def.ndClass = .pure ∧ ∀ d ∈ s.values, d.def.criticFor = some m.id → d = c
  targets : Targets s m
  shaper : m.def.isTopologyShaper = true → m.def.criticFor = none ∧ m.def.ndClass ≠ .worldMutating
  check : ∀ c, m.def.criticCheck = some c → m.def.ndClass = requiredClass c

/-- The rules ask for more: one critic for a target of any pattern, and a check only on a
critic. -/
structure Strict (s : WorkflowSubmission) : Prop where
  safe : ∀ m ∈ s.values, Safe s m
  oneCritic : ∀ c ∈ s.values, ∀ d ∈ s.values, ∀ t, c.def.criticFor = some t →
    d.def.criticFor = some t → c = d
  checksAreCritics : ∀ m ∈ s.values, ∀ c, m.def.criticCheck = some c → m.def.criticFor ≠ none

section Rules

variable {s : WorkflowSubmission} {m : Mote}

theorem get_iff {id : MoteId} : s.motes[id]? = some m ↔ m ∈ s.values ∧ m.id = id := by
  simp only [WorkflowSubmission.values, mem_map, Prod.exists, exists_eq_right,
    ExtTreeMap.mem_toList_iff_getElem?_eq_some]
  constructor
  · intro hm
    exact ⟨⟨id, hm⟩, s.keyed id m hm⟩
  · rintro ⟨⟨id', hm⟩, rfl⟩
    rwa [s.keyed id' m hm]

theorem nodup_values : s.values.Nodup := by
  apply pairwise_map.2
  apply ExtTreeMap.distinct_keys_toList.imp_of_mem
  rintro ⟨id, m⟩ ⟨id', m'⟩ hm hm' hne rfl
  rw [ExtTreeMap.mem_toList_iff_getElem?_eq_some] at hm hm'
  exact hne (by simp [← s.keyed id m hm, s.keyed id' m hm'])

theorem bind_ok {x y : Verdict} : (x >>= fun _ => y) = .ok () ↔ x = .ok () ∧ y = .ok () := by
  cases x <;> simp [bind, Except.bind]

theorem forM_ok {f : Mote → Verdict} {l : List Mote} :
    l.forM f = .ok () ↔ ∀ a ∈ l, f a = .ok () := by
  induction l with
  | nil => simp [pure, Except.pure]
  | cons a rest ih =>
    rw [forall_mem_cons, ← ih]
    exact bind_ok

theorem checkR1_ok : checkR1 m = .ok () ↔
    (Mutates m .idempotentByConstruction → m.def.toolContract.isEmpty = false) := by
  unfold checkR1 Mutates
  split_ifs <;> simp_all

theorem checkR2_ok : checkR2 s m = .ok () ↔
    (Mutates m .validateThenCommit → ∃ c ∈ s.values, c.def.criticFor = some m.id) := by
  unfold checkR2 Mutates
  split_ifs <;> simp_all

theorem checkR4R5R7_ok : checkR4R5R7 s m = .ok () ↔ Targets s m := by
  unfold checkR4R5R7 Targets
  cases m.def.criticFor with
  | none => simp
  | some t =>
    simp only [Option.some.injEq, forall_eq', ← and_assoc, ← get_iff]
    split_ifs with hclass
    · simp [hclass]
    cases s.motes[t]? with
    | none => simp
    | some target =>
      dsimp only
      split_ifs <;> simp_all

theorem shapes_ok : checkR8 m = .ok () ∧ checkR14 m = .ok () ∧ checkR15 m = .ok () ↔
    (m.def.isTopologyShaper = true → m.def.criticFor = none ∧ m.def.ndClass ≠ .worldMutating) ∧
      ∀ c, m.def.criticCheck = some c →
        m.def.ndClass = requiredClass c ∧ m.def.criticFor ≠ none := by
  unfold checkR8 checkR14 checkR15 nativeJudgeShape nativeCriticShape checkShape requiredClass
  cases m.def.isTopologyShaper <;> cases m.def.criticFor <;> cases m.def.criticCheck with
  | none => simp
  | some c => cases hjudge : isLlmJudge c <;> simp [hjudge]

theorem checkR6From_ok : checkR6From seen motes = .ok () ↔
    (∀ c ∈ motes, ∀ t, c.def.criticFor = some t → t ∉ seen) ∧
      motes.Pairwise fun c d => ∀ t, c.def.criticFor = some t → d.def.criticFor ≠ some t := by
  induction motes generalizing seen with
  | nil => simp [checkR6From]
  | cons c rest ih =>
    simp only [checkR6From]
    split
    · rename_i hnone
      rw [ih, forall_mem_cons, pairwise_cons]
      simp [hnone]
    rename_i t ht
    split
    · rename_i first hfirst
      have hseen : t ∈ seen := ExtTreeMap.mem_iff_isSome_getElem?.2 (by simp [hfirst])
      simp only [reduceCtorEq, false_iff, not_and]
      intro hfresh
      exact absurd hseen (hfresh c mem_cons_self t ht)
    · rename_i hfresh
      have hunseen : t ∉ seen := by simpa using hfresh
      rw [ih, forall_mem_cons, pairwise_cons]
      simp only [ExtTreeMap.mem_insert, LawfulEqCmp.compare_eq_iff_eq, not_or, ht,
        Option.some.injEq, forall_eq']
      grind

/-- Two motes of the submission with one target are one mote. -/
theorem checkR6_ok : checkR6 s = .ok () ↔ ∀ c ∈ s.values, ∀ d ∈ s.values, ∀ t,
    c.def.criticFor = some t → d.def.criticFor = some t → c = d := by
  rw [checkR6, checkR6From_ok]
  constructor
  · rintro ⟨-, hpairs⟩ c hc d hd t hct hdt
    by_contra hne
    have hsymm : Symm fun c d : Mote =>
        ∀ t, c.def.criticFor = some t → d.def.criticFor ≠ some t :=
      ⟨fun _ _ hcd t hd hc => hcd t hc hd⟩
    exact hpairs.forall hc hd hne t hct hdt
  · intro hone
    refine ⟨by simp, nodup_values.imp_of_mem ?_⟩
    intro c d hc hd hne t hct hdt
    exact hne (hone c hc d hd t hct hdt)

variable (htargets : ∀ c ∈ s.values, Targets s c)
include htargets

/-- The walk decides at its first step: nothing reviews a critic. -/
theorem walkCritics_ok : walkCritics s origin (depth + 2) target visited = .ok () ↔
    ∃ c, s.values.find? (·.def.criticFor = some target) = some c ∧ c.def.ndClass = .pure := by
  rw [walkCritics]
  split
  · rename_i hnone
    simp [hnone]
  rename_i c hc
  split_ifs with hpure hvisited
  · simp [hc, hpure]
  · simp [hc, hpure]
  · have hnone : s.values.find? (·.def.criticFor = some c.id) = none := by
      rw [find?_eq_none]
      intro d hd hcritic
      obtain ⟨-, m, hm, hid, hclass⟩ := htargets d hd c.id (by simpa using hcritic)
      have hcm : c ∈ s.values := mem_of_find?_eq_some hc
      obtain rfl : m = c := Option.some.inj
        ((get_iff.2 ⟨hm, hid⟩).symm.trans (get_iff.2 ⟨hcm, rfl⟩))
      have hreviews := find?_some hc
      exact (htargets m hcm target (by simpa using hreviews)).1 hclass
    rw [walkCritics, hnone]
    simp [hc, hpure]

theorem checkR9_ok : checkR9 s m = .ok () ↔ (Mutates m .validateThenCommit →
    ∃ c, s.values.find? (·.def.criticFor = some m.id) = some c ∧ c.def.ndClass = .pure) := by
  unfold checkR9 Mutates
  split_ifs with hclass hpattern
  · simp [hclass]
  · simp [hpattern]
  · rw [walkCritics_ok htargets]
    simp_all

end Rules

/-- A submission is accepted exactly if its motes are safe, no two critics have one target and
every check is on a critic. With targets as they should be, neither the bound of the walk nor
what it has visited makes a difference. -/
theorem validateSubmission_ok_iff (s : WorkflowSubmission) :
    (validateSubmission s = .ok () ↔ Strict s) ∧
      ((∀ c ∈ s.values, Targets s c) → ∀ id depth visited visited',
        walkCritics s id (depth + 2) id visited = .ok () ↔
          walkCritics s id 8 id visited' = .ok ()) := by
  refine ⟨?_, fun htargets _ _ _ _ => (walkCritics_ok htargets).trans
    (walkCritics_ok htargets).symm⟩
  simp only [validateSubmission, bind_ok, forM_ok, checkR1_ok, checkR2_ok, checkR4R5R7_ok,
    checkR6_ok, shapes_ok]
  constructor
  · rintro ⟨hfirst, htargets, hone, hshapes, hchains⟩
    refine ⟨fun m hm => ⟨(hfirst m hm).1, ?_, htargets m hm, (hshapes m hm).1, ?_⟩, hone, ?_⟩
    · intro hmutates
      obtain ⟨c, hc, hpure⟩ := (checkR9_ok htargets).1 (hchains m hm) hmutates
      have hmem := mem_of_find?_eq_some hc
      have hreviews : c.def.criticFor = some m.id := by simpa using find?_some hc
      exact ⟨c, hmem, hreviews, hpure, fun d hd hd' => hone d hd c hmem _ hd' hreviews⟩
    · exact fun c hc => ((hshapes m hm).2 c hc).1
    · exact fun m hm c hc => ((hshapes m hm).2 c hc).2
  · rintro ⟨hsafe, hone, hchecks⟩
    have htargets : ∀ c ∈ s.values, Targets s c := fun c hc => (hsafe c hc).targets
    refine ⟨fun m hm => ⟨(hsafe m hm).deduplicated, ?_⟩, htargets, hone, ?_, ?_⟩
    · intro hmutates
      obtain ⟨c, hc, hreviews, -⟩ := (hsafe m hm).reviewed hmutates
      exact ⟨c, hc, hreviews⟩
    · intro m hm
      exact ⟨(hsafe m hm).shaper, fun c hc => ⟨(hsafe m hm).check c hc, hchecks m hm c hc⟩⟩
    · intro m hm
      rw [checkR9_ok htargets]
      intro hmutates
      obtain ⟨c, hc, hreviews, hpure, hunique⟩ := (hsafe m hm).reviewed hmutates
      have hfound : (s.values.find? (·.def.criticFor = some m.id)).isSome = true :=
        find?_isSome.2 ⟨c, hc, by simp [hreviews]⟩
      obtain ⟨d, hd⟩ := Option.isSome_iff_exists.1 hfound
      obtain rfl := hunique d (mem_of_find?_eq_some hd) (by simpa using find?_some hd)
      exact ⟨d, hd, hpure⟩

def sampleMote (id : Nat) (ndClass : NdClass) (criticFor : Option MoteId) : Mote where
  id := ⟨.ofNat 32 id⟩
  «def» :=
    { logicRef := .replicate 32 0
      modelId := ""
      promptTemplateHash := .replicate 32 0
      ndClass
      effectPattern := .stageThenCommit
      criticFor
      schemaVersion := MOTE_DEF_SCHEMA_VERSION }
  inputDataId := .replicate 32 0
  graphPosition := []
  parents := []

/-- A producer that stages its effect, and two critics. -/
def reviewed : List Mote :=
  [sampleMote 1 .worldMutating none, sampleMote 2 .pure (some ⟨.ofNat 32 1⟩),
    sampleMote 3 .pure (some ⟨.ofNat 32 1⟩)]

def twoCritics : WorkflowSubmission :=
  reviewed.foldl WorkflowSubmission.insert ⟨∅, by simp⟩

theorem values_twoCritics : twoCritics.values = reviewed := by
  rfl

/-- Every mote is as it is meant to be, and the submission is refused. -/
theorem safe_twoCritics_refused :
    (∀ m ∈ twoCritics.values, Safe twoCritics m) ∧
      validateSubmission twoCritics =
        .error (.r6MultiCritic ⟨.ofNat 32 2⟩ ⟨.ofNat 32 3⟩ ⟨.ofNat 32 1⟩) := by
  constructor
  · rw [values_twoCritics]
    simp only [reviewed, forall_mem_cons]
    refine ⟨?_, ?_, ?_, by simp⟩
    all_goals
      constructor <;> simp [Targets, Mutates, values_twoCritics, reviewed, sampleMote]
  · rfl

end Kortecx.Refusal
