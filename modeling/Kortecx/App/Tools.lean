import Kortecx.App.Envelope
import Kortecx.Policy.Ceiling

/-!
The tools a run is given beyond those its blueprint pins. Skills and the steering of an App
wish for tools; a wish is met if the caller's grants, the serve and the registry allow it and
the tool fits in with the others of the step. A tool the blueprint pins is never touched.
-/

namespace Kortecx.App

open Lib Mote Warrant Policy Std

abbrev ToolMap := ExtTreeMap String String

def AUTOGRANT_MAX_TOOLS : Nat := 16

def EMPTY_SYSCALL_PROFILE : ContentRef := ⟨.replicate 32 0⟩

/-- The mounts of both, each with the wider of two comparable modes. -/
def fsScopeUnion (a b : FsScope) : Option FsScope := do
  let mounts ← b.mounts.toList.foldlM (fun mounts mount =>
    match mounts[mount.1]? with
    | none => some (mounts.insert mount.1 mount.2)
    | some mode =>
      if mode.isSubsetOf mount.2 then some (mounts.insert mount.1 mount.2)
      else if mount.2.isSubsetOf mode then some (mounts.insert mount.1 mode)
      else none) a.mounts
  return ⟨mounts⟩

/-- The scope the pinned tools need together; one that does not fit is passed over. -/
def declaredFsScope (tools : ToolRegistry) (declared : ToolMap) : FsScope :=
  declared.toList.foldl (fun scope tool =>
    match tools ⟨tool.1, tool.2⟩ with
    | none => scope
    | some required => (fsScopeUnion scope required.fsScopeRequired).getD scope) {}

structure Granting where
  fsScope : FsScope
  granted : ToolMap
  total : Nat

section Wishes

variable (host : ToolHost) (allowlist : Option (Finset ToolGrant)) (declared : ToolMap)

def considerWish (st : Granting) (wish : String × String) : Granting :=
  if AUTOGRANT_MAX_TOOLS ≤ st.total then st
  else if wish.1 ∈ declared then st
  else if ¬ Permits allowlist ⟨wish.1, wish.2⟩ then st
  else if (⟨wish.1, wish.2⟩ : ToolGrant) ∉ host.registeredGrants then st
  else
    match host.tools ⟨wish.1, wish.2⟩ with
    | none => st
    | some required =>
      if required.syscallProfileRef ≠ EMPTY_SYSCALL_PROFILE then st
      else
        match fsScopeUnion st.fsScope required.fsScopeRequired with
        | none => st
        | some merged =>
          { fsScope := merged
            granted := st.granted.insert wish.1 wish.2
            total := st.total + 1 }

def skillUnionGrants (wish : ToolMap) : ToolMap :=
  (wish.toList.foldl (considerWish host allowlist declared)
    ⟨declaredFsScope host.tools declared, ∅, declared.size⟩).granted

end Wishes

/-- Tools are added under ids that are free. -/
def orInsertAll (contract granted : ToolMap) : ToolMap :=
  granted.toList.foldl (fun contract tool => contract.insertIfNew tool.1 tool.2) contract

namespace DagSpec

def foldStepTools (dag : DagSpec) (i : Nat) (granted : ToolMap) : DagSpec :=
  dag.modifyStep i fun s => { s with toolContract := orInsertAll s.toolContract granted }

def foldSkillTools (dag : DagSpec) (granted : ToolMap) : DagSpec :=
  match dag.entryAgenticStepIndex with
  | none => dag
  | some i => dag.foldStepTools i granted

/-- A wish for one step, or for the entry step, met as far as it can be. -/
def intersectOnto (host : ToolHost) (allowlist : Option (Finset ToolGrant)) (dag : DagSpec)
    (idx : Option Nat) (wish : ToolMap) : DagSpec :=
  if wish.isEmpty then dag
  else
    let target := idx.or dag.entryAgenticStepIndex
    let declared := ((target.bind (dag.steps[·]?)).map (·.toolContract)).getD ∅
    let granted := skillUnionGrants host allowlist declared wish
    match target with
    | some i => dag.foldStepTools i granted
    | none => dag.foldSkillTools granted

end DagSpec

/-- The wishes of skills in their order; the first version wished for counts. -/
def skillWishUnion (skills : List SkillRef) : ToolMap :=
  skills.foldl (fun wish skill => orInsertAll wish skill.tools) ∅

def combinedToolWish (skills : List SkillRef) (steering : ToolMap) : ToolMap :=
  orInsertAll (skillWishUnion skills) steering

/-- The ceiling as a map; of several versions of a tool the last one stays. -/
def ceilingWish (ceiling : List ToolGrant) : ToolMap :=
  ceiling.foldl (fun wish tool => wish.insert tool.toolId tool.toolVersion) ∅

section Wished

variable {P : ToolGrant → Prop}

def AllTools (P : ToolGrant → Prop) (tools : ToolMap) : Prop :=
  ∀ id version, tools[id]? = some version → P ⟨id, version⟩

theorem allTools_empty : AllTools P ∅ := by
  intro id version h
  simp at h

variable {tools : ToolMap} {id : String}

theorem AllTools.insert (h : AllTools P tools)
    (hnew : P ⟨id, version⟩) : AllTools P (tools.insert id version) := by
  intro id' version' hget
  rw [ExtTreeMap.getElem?_insert] at hget
  split at hget
  · rename_i heq
    obtain rfl := LawfulEqOrd.eq_of_compare heq
    obtain rfl := Option.some.inj hget
    exact hnew
  · exact h id' version' hget

theorem AllTools.insertIfNew (h : AllTools P tools)
    (hnew : P ⟨id, version⟩) : AllTools P (tools.insertIfNew id version) := by
  intro id' version' hget
  rw [ExtTreeMap.getElem?_insertIfNew] at hget
  split at hget
  · rename_i heq
    obtain rfl := LawfulEqOrd.eq_of_compare heq.1
    obtain rfl := Option.some.inj hget
    exact hnew
  · exact h id' version' hget

theorem AllTools.mem_toList (h : AllTools P tools)
    (htool : tool ∈ tools.toList) : P ⟨tool.1, tool.2⟩ :=
  h tool.1 tool.2 (ExtTreeMap.mem_toList_iff_getElem?_eq_some.1 htool)

theorem AllTools.orInsertAll (h : AllTools P contract)
    (hgranted : AllTools P granted) : AllTools P (orInsertAll contract granted) :=
  List.foldlRecOn granted.toList _ h fun _ hcontract _ htool =>
    hcontract.insertIfNew (hgranted.mem_toList htool)

end Wished

section Granted

variable {host : ToolHost} {allowlist : Option (Finset ToolGrant)} {declared : ToolMap}

/-- What a granted wish has passed. -/
def Grantable (host : ToolHost) (allowlist : Option (Finset ToolGrant)) (tool : ToolGrant) : Prop :=
  Permits allowlist tool ∧ tool ∈ host.registeredGrants ∧ (host.tools tool).isSome

theorem allTools_considerWish {st : Granting} {wish : String × String}
    (h : AllTools (Grantable host allowlist) st.granted) :
    AllTools (Grantable host allowlist)
      (considerWish host allowlist declared st wish).granted := by
  unfold considerWish
  by_cases hcap : AUTOGRANT_MAX_TOOLS ≤ st.total
  · rwa [if_pos hcap]
  by_cases hpinned : wish.1 ∈ declared
  · rwa [if_neg hcap, if_pos hpinned]
  by_cases hpermits : Permits allowlist ⟨wish.1, wish.2⟩
  swap
  · rwa [if_neg hcap, if_neg hpinned, if_pos hpermits]
  by_cases hfireable : (⟨wish.1, wish.2⟩ : ToolGrant) ∈ host.registeredGrants
  swap
  · rwa [if_neg hcap, if_neg hpinned, if_neg (not_not.2 hpermits), if_pos hfireable]
  rw [if_neg hcap, if_neg hpinned, if_neg (not_not.2 hpermits), if_neg (not_not.2 hfireable)]
  cases hknown : host.tools ⟨wish.1, wish.2⟩ with
  | none => exact h
  | some required =>
    by_cases hprofile : required.syscallProfileRef ≠ EMPTY_SYSCALL_PROFILE
    · simpa only [if_pos hprofile] using h
    simp only [if_neg hprofile]
    cases fsScopeUnion st.fsScope required.fsScopeRequired with
    | none => exact h
    | some merged => exact h.insert ⟨hpermits, hfireable, by simp [hknown]⟩

theorem allTools_skillUnionGrants :
    AllTools (Grantable host allowlist) (skillUnionGrants host allowlist declared wish) :=
  List.foldlRecOn (motive := fun st : Granting => AllTools (Grantable host allowlist) st.granted)
    wish.toList _ allTools_empty fun _ hst _ _ => allTools_considerWish hst

end Granted

/-- A graph that differs from another in tools that were added, each with a property, and in
what steps say otherwise. -/
structure Adds (P : ToolGrant → Prop) (dag dag' : DagSpec) : Prop where
  edges : dag'.edges = dag.edges
  length : dag'.steps.length = dag.steps.length
  contract : ∀ (i : Nat) (s s' : StepSpec), dag.steps[i]? = some s → dag'.steps[i]? = some s' →
    AllTools (fun tool => s.toolContract[tool.toolId]? = some tool.toolVersion ∨ P tool)
      s'.toolContract
  model : ∀ i : Nat, (dag.steps[i]?).any isModelStep = true → (dag'.steps[i]?).any isModelStep = true

namespace Adds

variable {P : ToolGrant → Prop} {dag dag' dag'' : DagSpec}

theorem refl (dag : DagSpec) : Adds P dag dag where
  edges := rfl
  length := rfl
  contract i s s' hs hs' := by
    obtain rfl := Option.some.inj (hs.symm.trans hs')
    exact fun id version hget => .inl hget
  model _ h := h

theorem trans (h : Adds P dag dag') (h' : Adds P dag' dag'') : Adds P dag dag'' where
  edges := h'.edges.trans h.edges
  length := h'.length.trans h.length
  contract i s s'' hs hs'' := by
    have hlt : i < dag'.steps.length := by
      rw [← h'.length]
      exact (List.getElem?_eq_some_iff.1 hs'').1
    have hs' : dag'.steps[i]? = some dag'.steps[i] := List.getElem?_eq_getElem hlt
    intro id version hget
    rcases h'.contract i _ s'' hs' hs'' id version hget with hold | hnew
    · exact h.contract i s _ hs hs' id version hold
    · exact .inr hnew
  model i hi := h'.model i (h.model i hi)

theorem mono (h : Adds P dag dag') (hPQ : ∀ tool, P tool → Q tool) :
    Adds Q dag dag' where
  edges := h.edges
  length := h.length
  contract i s s' hs hs' name version hget :=
    (h.contract i s s' hs hs' name version hget).imp_right (hPQ _)
  model := h.model

section Change

variable {change : StepSpec → StepSpec}
  (hmodel : ∀ s, isModelStep s = true → isModelStep (change s) = true)

include hmodel

/-- A change to steps that leaves their tools alone. -/
theorem of_map (hchange : ∀ s, (change s).toolContract = s.toolContract) :
    Adds P dag { dag with steps := dag.steps.map change } where
  edges := rfl
  length := List.length_map _
  contract i s s' hs hs' := by
    rw [List.getElem?_map, hs] at hs'
    obtain rfl := Option.some.inj hs'
    intro id version hget
    rw [hchange] at hget
    exact .inl hget
  model i hi := by
    rw [Option.any_eq_true] at hi
    obtain ⟨s, hs, hi⟩ := hi
    simpa [hs] using hmodel s hi

theorem of_modifyStep (hchange : ∀ s, AllTools (fun tool =>
      s.toolContract[tool.toolId]? = some tool.toolVersion ∨ P tool) (change s).toolContract) :
    Adds P dag (dag.modifyStep i change) where
  edges := rfl
  length := List.length_modify ..
  contract j s s' hs hs' := by
    rw [DagSpec.modifyStep, List.getElem?_modify, hs] at hs'
    obtain rfl := Option.some.inj hs'
    split
    · exact hchange s
    · exact fun id version hget => .inl hget
  model j hj := by
    rw [Option.any_eq_true] at hj
    obtain ⟨s, hs, hj⟩ := hj
    by_cases hij : i = j <;> simp [DagSpec.modifyStep, hs, hij, hj, hmodel]

theorem of_modifyStep_prompt (hchange : ∀ s, (change s).toolContract = s.toolContract) :
    Adds P dag (dag.modifyStep i change) := by
  refine of_modifyStep hmodel ?_
  intro s id version hget
  rw [hchange] at hget
  exact .inl hget

end Change

theorem foldStepTools (hgranted : AllTools P granted) :
    Adds P dag (dag.foldStepTools i granted) := by
  refine of_modifyStep ?_ fun s => ?_
  · exact fun _ hs => hs
  apply AllTools.orInsertAll
  · exact fun id version hget => .inl hget
  · exact fun id version hget => .inr (hgranted id version hget)

theorem foldSkillTools (hgranted : AllTools P granted) :
    Adds P dag (dag.foldSkillTools granted) := by
  unfold DagSpec.foldSkillTools
  split
  · exact refl dag
  · exact foldStepTools hgranted

theorem intersectOnto {host : ToolHost} {allowlist : Option (Finset ToolGrant)} :
    Adds (Grantable host allowlist) dag (DagSpec.intersectOnto host allowlist dag idx wish) := by
  unfold DagSpec.intersectOnto
  split
  · exact refl dag
  dsimp only
  split
  · exact foldStepTools allTools_skillUnionGrants
  · exact foldSkillTools allTools_skillUnionGrants

end Adds

end Kortecx.App
