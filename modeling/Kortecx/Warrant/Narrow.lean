import Kortecx.Warrant.Spec

/-!
Narrowing: the warrant of a child is computed from its parent's and the role it is to
run in, and no axis of it may be wider than the parent's. Some axes refuse a wider
proposal, some silently take the smaller value, one can only be tightened; what is
proved here is that whatever the mixture, authority only shrinks along a chain of
delegations.
-/

namespace Kortecx.Warrant

open Lib Mote Std

/-- What a refusal shows of an axis. The source keeps the debug rendering of it. -/
inductive AxisValue where
  | fsScope (scope : FsScope)
  | netScope (scope : NetScope)
  | toolGrants (grants : ExtTreeSet ToolGrant)
  | secretScope (scope : SecretScope)
deriving DecidableEq

inductive NarrowingError where
  | attemptedWiden (field : WarrantField) (parent proposed : AxisValue)
  | emptyIntersect (field : WarrantField)
  | syscallProfileNotASubset (profileRef : ContentRef)
  | invalidModelRoute (reason : String)
deriving DecidableEq

structure ToolDenied where
  field : WarrantField
deriving DecidableEq, Repr

/-- The warrant of a child of `parent` in the role. The class, the executor and the
environment are the role's own. -/
def intersect (parent : WarrantSpec) (role : Role) : Except NarrowingError WarrantSpec :=
  let proposed := role.spec
  if !proposed.fsScope.isSubsetOf parent.fsScope then
    .error (.attemptedWiden .fsScope (.fsScope parent.fsScope) (.fsScope proposed.fsScope))
  else if !proposed.netScope.isSubsetOf parent.netScope then
    .error (.attemptedWiden .netScope (.netScope parent.netScope) (.netScope proposed.netScope))
  -- The subset check on profiles is equality.
  else if proposed.syscallProfileRef ≠ parent.syscallProfileRef then
    .error (.syscallProfileNotASubset proposed.syscallProfileRef)
  else if !setWithin proposed.toolGrants parent.toolGrants then
    .error (.attemptedWiden .toolGrants (.toolGrants parent.toolGrants)
      (.toolGrants proposed.toolGrants))
  else if !proposed.secretScope.isSubsetOf parent.secretScope then
    .error (.attemptedWiden .secretScope (.secretScope parent.secretScope)
      (.secretScope proposed.secretScope))
  else if proposed.modelRoute.maxInputTokens = 0 || proposed.modelRoute.maxOutputTokens = 0 ||
      proposed.modelRoute.maxCalls = 0 then
    .error (.invalidModelRoute "max_input_tokens, max_output_tokens, and max_calls must all be > 0")
  else
    .ok
      { moteClass := proposed.moteClass
        ndClass := proposed.ndClass
        fsScope := proposed.fsScope
        netScope := proposed.netScope
        syscallProfileRef := proposed.syscallProfileRef
        toolGrants := proposed.toolGrants
        modelRoute := proposed.modelRoute.narrowQuantitative parent.modelRoute
        resourceCeiling := proposed.resourceCeiling.narrow parent.resourceCeiling
        environmentRef := proposed.environmentRef
        executorClass := proposed.executorClass
        secretScope := proposed.secretScope
        costCeiling := proposed.costCeiling.narrow parent.costCeiling
        tlsRequired := proposed.tlsRequired || parent.tlsRequired }

def checkToolRequirement (req : ToolRequirement) (warrant : WarrantSpec) :
    Except ToolDenied Unit :=
  let need := req.minResourceCeiling
  let available := warrant.resourceCeiling
  if !req.fsScopeRequired.isSubsetOf warrant.fsScope then .error ⟨.fsScope⟩
  else if !req.netScopeRequired.isSubsetOf warrant.netScope then .error ⟨.netScope⟩
  else if req.syscallProfileRef ≠ warrant.syscallProfileRef then .error ⟨.syscallProfile⟩
  else if need.cpuMilli > available.cpuMilli || need.memBytes > available.memBytes ||
      need.wallClockMs > available.wallClockMs || need.fdCount > available.fdCount ||
      need.diskBytes > available.diskBytes then
    .error ⟨.resourceCeiling⟩
  else .ok ()

structure ResourceCeiling.Within (ceiling parent : ResourceCeiling) : Prop where
  cpuMilli : ceiling.cpuMilli ≤ parent.cpuMilli
  memBytes : ceiling.memBytes ≤ parent.memBytes
  wallClockMs : ceiling.wallClockMs ≤ parent.wallClockMs
  fdCount : ceiling.fdCount ≤ parent.fdCount
  diskBytes : ceiling.diskBytes ≤ parent.diskBytes

structure ModelRoute.Within (route parent : ModelRoute) : Prop where
  maxInputTokens : route.maxInputTokens ≤ parent.maxInputTokens
  maxOutputTokens : route.maxOutputTokens ≤ parent.maxOutputTokens
  maxCalls : route.maxCalls ≤ parent.maxCalls

variable {a : ResourceCeiling}

theorem ResourceCeiling.Within.refl (a : ResourceCeiling) : a.Within a :=
  ⟨le_refl _, le_refl _, le_refl _, le_refl _, le_refl _⟩

theorem ResourceCeiling.Within.trans (hab : a.Within b) (hbc : b.Within c) : a.Within c where
  cpuMilli := le_trans hab.cpuMilli hbc.cpuMilli
  memBytes := le_trans hab.memBytes hbc.memBytes
  wallClockMs := le_trans hab.wallClockMs hbc.wallClockMs
  fdCount := le_trans hab.fdCount hbc.fdCount
  diskBytes := le_trans hab.diskBytes hbc.diskBytes

theorem ResourceCeiling.within_narrow :
    (a.narrow parent).Within parent :=
  ⟨min_le_right, min_le_right, min_le_right, min_le_right, min_le_right⟩

theorem ModelRoute.Within.refl (a : ModelRoute) : a.Within a :=
  ⟨le_refl _, le_refl _, le_refl _⟩

theorem ModelRoute.Within.trans {a : ModelRoute} (hab : a.Within b) (hbc : b.Within c) :
    a.Within c where
  maxInputTokens := le_trans hab.maxInputTokens hbc.maxInputTokens
  maxOutputTokens := le_trans hab.maxOutputTokens hbc.maxOutputTokens
  maxCalls := le_trans hab.maxCalls hbc.maxCalls

theorem ModelRoute.isWithin_iff {a : ModelRoute} : a.isWithin b = true ↔ a.Within b := by
  simp only [ModelRoute.isWithin, Bool.and_eq_true, decide_eq_true_eq]
  constructor
  · rintro ⟨⟨hin, hout⟩, hcalls⟩
    exact ⟨hin, hout, hcalls⟩
  · rintro ⟨hin, hout, hcalls⟩
    exact ⟨⟨hin, hout⟩, hcalls⟩

theorem ModelRoute.within_narrowQuantitative {a : ModelRoute} :
    (a.narrowQuantitative parent).Within parent :=
  ⟨min_le_right, min_le_right, min_le_right⟩

/-- No axis of the warrant is wider than the parent's, by the checks of the source. -/
structure WarrantSpec.Within (w parent : WarrantSpec) : Prop where
  fsScope : w.fsScope.isSubsetOf parent.fsScope = true
  netScope : w.netScope.isSubsetOf parent.netScope = true
  syscallProfileRef : w.syscallProfileRef = parent.syscallProfileRef
  toolGrants : setWithin w.toolGrants parent.toolGrants = true
  secretScope : w.secretScope.isSubsetOf parent.secretScope = true
  modelRoute : w.modelRoute.Within parent.modelRoute
  resourceCeiling : w.resourceCeiling.Within parent.resourceCeiling
  costCeiling : w.costCeiling.microUsd ≤ parent.costCeiling.microUsd
  tlsRequired : parent.tlsRequired = true → w.tlsRequired = true

/-- No axis of the warrant conveys authority that the parent does not: what may be done
at each mount, which hosts may be reached, which tools called and secrets resolved, and
how much may be used. -/
structure WarrantSpec.Contained (w parent : WarrantSpec) : Prop where
  mounts : ∀ (path : PathBuf) mode, w.fsScope.mounts[path]? = some mode →
    ∃ parentMode, parent.fsScope.mounts[path]? = some parentMode ∧
      ∀ op, mode.permits op = true → parentMode.permits op = true
  egress : ∀ host, w.netScope.Allows host → parent.netScope.Allows host
  toolGrants : ∀ grant ∈ w.toolGrants, grant ∈ parent.toolGrants
  secrets : ∀ ref, w.secretScope.Allows ref → parent.secretScope.Allows ref
  modelRoute : w.modelRoute.Within parent.modelRoute
  resourceCeiling : w.resourceCeiling.Within parent.resourceCeiling
  costCeiling : w.costCeiling.microUsd ≤ parent.costCeiling.microUsd
  tlsRequired : parent.tlsRequired = true → w.tlsRequired = true
  syscallProfileRef : w.syscallProfileRef = parent.syscallProfileRef

variable {parent w : WarrantSpec}

namespace WarrantSpec.Within

theorem refl (w : WarrantSpec) : w.Within w where
  fsScope := mapWithin_refl FsMode.isSubsetOf_refl
  netScope := AllowScope.isSubsetOf_refl _
  syscallProfileRef := rfl
  toolGrants := setWithin_refl _
  secretScope := AllowScope.isSubsetOf_refl _
  modelRoute := .refl _
  resourceCeiling := .refl _
  costCeiling := le_refl _
  tlsRequired := fun htls => htls

theorem trans {a : WarrantSpec} (hab : a.Within b) (hbc : b.Within c) : a.Within c where
  fsScope := mapWithin_trans FsMode.isSubsetOf_trans hab.fsScope hbc.fsScope
  netScope := AllowScope.isSubsetOf_trans hab.netScope hbc.netScope
  syscallProfileRef := hab.syscallProfileRef.trans hbc.syscallProfileRef
  toolGrants := setWithin_trans hab.toolGrants hbc.toolGrants
  secretScope := AllowScope.isSubsetOf_trans hab.secretScope hbc.secretScope
  modelRoute := hab.modelRoute.trans hbc.modelRoute
  resourceCeiling := hab.resourceCeiling.trans hbc.resourceCeiling
  costCeiling := le_trans hab.costCeiling hbc.costCeiling
  tlsRequired := fun htls => hab.tlsRequired (hbc.tlsRequired htls)

/-- One delegation does not widen. -/
theorem of_intersect {role : Role}
    (hintersect : intersect parent role = .ok w) : w.Within parent := by
  unfold intersect at hintersect
  dsimp only at hintersect
  split_ifs at hintersect with hfs hnet hsyscall htools hsecret hroute
  all_goals cases hintersect
  exact
    { fsScope := by simpa using hfs
      netScope := by simpa using hnet
      syscallProfileRef := not_not.1 hsyscall
      toolGrants := by simpa using htools
      secretScope := by simpa using hsecret
      modelRoute := ModelRoute.within_narrowQuantitative
      resourceCeiling := ResourceCeiling.within_narrow
      costCeiling := min_le_right
      tlsRequired := fun htls => by simp [htls] }

/-- What the checks of the source accept conveys no more authority. -/
theorem contained (hwithin : w.Within parent) : w.Contained parent where
  mounts := by
    intro path mode hmode
    obtain ⟨parentMode, hparent, hsub⟩ := mapWithin_iff.1 hwithin.fsScope path mode hmode
    exact ⟨parentMode, hparent, FsMode.isSubsetOf_iff.1 hsub⟩
  egress := fun _ hallows => hallows.of_isSubsetOf hwithin.netScope
  toolGrants := setWithin_iff.1 hwithin.toolGrants
  secrets := fun _ hallows => hallows.of_isSubsetOf hwithin.secretScope
  modelRoute := hwithin.modelRoute
  resourceCeiling := hwithin.resourceCeiling
  costCeiling := hwithin.costCeiling
  tlsRequired := hwithin.tlsRequired
  syscallProfileRef := hwithin.syscallProfileRef

end WarrantSpec.Within

variable {req : ToolRequirement}

theorem checkToolRequirement_eq_ok :
    checkToolRequirement req w = .ok () ↔
      req.fsScopeRequired.isSubsetOf w.fsScope = true ∧
        req.netScopeRequired.isSubsetOf w.netScope = true ∧
        req.syscallProfileRef = w.syscallProfileRef ∧
        req.minResourceCeiling.Within w.resourceCeiling := by
  unfold checkToolRequirement
  dsimp only
  split_ifs with hfs hnet hsyscall hresources
  · simp_all
  · simp_all
  · simp [hsyscall]
  · have hexceeds : ¬ req.minResourceCeiling.Within w.resourceCeiling := by
      intro hwithin
      simp [UInt32.not_lt.2 hwithin.cpuMilli, UInt64.not_lt.2 hwithin.memBytes,
        UInt64.not_lt.2 hwithin.wallClockMs, UInt32.not_lt.2 hwithin.fdCount,
        UInt64.not_lt.2 hwithin.diskBytes] at hresources
    simp [hexceeds]
  · have hwithin : req.minResourceCeiling.Within w.resourceCeiling := by
      simp only [gt_iff_lt, Bool.or_eq_true, decide_eq_true_eq, not_or, UInt32.not_lt,
        UInt64.not_lt] at hresources
      obtain ⟨⟨⟨⟨hcpu, hmem⟩, hwall⟩, hfd⟩, hdisk⟩ := hresources
      exact ⟨hcpu, hmem, hwall, hfd, hdisk⟩
    simp_all

/-- A tool that a warrant admits is admitted by every wider one. -/
theorem WarrantSpec.Within.checkToolRequirement (hwithin : w.Within parent)
    (haccepted : checkToolRequirement req w = .ok ()) :
    Warrant.checkToolRequirement req parent = .ok () := by
  rw [checkToolRequirement_eq_ok] at haccepted ⊢
  obtain ⟨hfs, hnet, hsyscall, hresources⟩ := haccepted
  refine ⟨?_, ?_, ?_, ?_⟩
  · exact mapWithin_trans FsMode.isSubsetOf_trans hfs hwithin.fsScope
  · exact AllowScope.isSubsetOf_trans hnet hwithin.netScope
  · exact hsyscall.trans hwithin.syscallProfileRef
  · exact hresources.trans hwithin.resourceCeiling

/-- The warrant at the end of a chain of delegations, each to the next role. -/
def delegate (root : WarrantSpec) (roles : List Role) : Except NarrowingError WarrantSpec :=
  roles.foldlM intersect root

/-- Authority never widens along a chain of delegations: the warrant at its end is
contained, axis by axis, in every warrant on the way, and a tool that it admits was
admitted all along. -/
theorem delegate_never_widens {root last : WarrantSpec} {roles given : List Role}
    (hchain : delegate root roles = .ok last) (hgiven : given <+: roles) :
    ∃ w, delegate root given = .ok w ∧ last.Contained w ∧
      ∀ req, checkToolRequirement req last = .ok () → checkToolRequirement req w = .ok () := by
  obtain ⟨w, hw, hwithin⟩ := foldlM_descends_isPrefix WarrantSpec.Within.refl
    WarrantSpec.Within.trans WarrantSpec.Within.of_intersect hchain hgiven
  exact ⟨w, hw, hwithin.contained, fun _ haccepted => hwithin.checkToolRequirement haccepted⟩

def mountedAt (mounts : List (PathBuf × FsMode)) : FsScope := ⟨.ofList mounts⟩

def granting (grants : List ToolGrant) : ExtTreeSet ToolGrant := .ofList grants

def operatorWarrant : WarrantSpec where
  fsScope := mountedAt [(["/", "data"], .readWrite), (["/", "bin"], .execOnly)]
  netScope := .egressAllowlist (.ofList ["api.example:443", "pypi.example:443"])
  toolGrants := granting [⟨"fetch", "1"⟩, ⟨"grep", "2"⟩]
  modelRoute := ⟨"large", 8000, 2000, 10⟩
  resourceCeiling := ⟨1000, 4096, 60000, 256, 4096⟩
  secretScope := .allowList (.ofList ["api-key"])
  costCeiling := ⟨500⟩
  tlsRequired := false

def analystRole : Role where
  name := "analyst"
  version := 1
  spec :=
    { fsScope := mountedAt [(["/", "data"], .readOnly)]
      netScope := .egressAllowlist (.ofList ["api.example:443"])
      toolGrants := granting [⟨"fetch", "1"⟩]
      modelRoute := ⟨"small", 9000, 1000, 20⟩
      resourceCeiling := ⟨2000, 2048, 30000, 64, 8192⟩
      costCeiling := ⟨900⟩ }
  description := ""

/-- Asks for TLS to be off again and reaches no host. -/
def summarizerRole : Role where
  name := "summarizer"
  version := 1
  spec :=
    { fsScope := mountedAt [(["/", "data"], .readOnly)]
      modelRoute := ⟨"small", 500, 500, 1⟩
      resourceCeiling := ⟨100, 8192, 30000, 64, 8192⟩
      tlsRequired := false }
  description := ""

def readsData : ToolRequirement where
  netScopeRequired := .none
  fsScopeRequired := mountedAt [(["/", "data"], .readOnly)]
  syscallProfileRef := ⟨.replicate 32 0⟩
  minResourceCeiling := ⟨100, 2048, 1000, 16, 1024⟩

theorem delegate_never_widens_twoLevels :
    ∃ last w, delegate operatorWarrant [analystRole, summarizerRole] = .ok last ∧
      delegate operatorWarrant [analystRole] = .ok w ∧ last.Contained w ∧
      last.tlsRequired = true ∧ last.resourceCeiling = ⟨100, 2048, 30000, 64, 4096⟩ ∧
      checkToolRequirement readsData last = .ok () ∧
      checkToolRequirement readsData w = .ok () := by
  have hchain : ∃ last, delegate operatorWarrant [analystRole, summarizerRole] = .ok last ∧
      last.tlsRequired = true ∧ last.resourceCeiling = ⟨100, 2048, 30000, 64, 4096⟩ ∧
      checkToolRequirement readsData last = .ok () :=
    ⟨_, rfl, rfl, rfl, rfl⟩
  obtain ⟨last, hlast, htls, hceiling, haccepted⟩ := hchain
  obtain ⟨w, hw, hcontained, hadmits⟩ :=
    delegate_never_widens hlast (List.prefix_append [analystRole] [summarizerRole])
  exact ⟨last, w, hlast, hw, hcontained, htls, hceiling, haccepted, hadmits _ haccepted⟩

section Idempotent

/-- A route that narrowing accepts: it lets something be asked, answered and called. -/
structure ModelRoute.Usable (route : ModelRoute) : Prop where
  maxInputTokens : route.maxInputTokens ≠ 0
  maxOutputTokens : route.maxOutputTokens ≠ 0
  maxCalls : route.maxCalls ≠ 0

open Std.LawfulOrderLeftLeaningMin

theorem ModelRoute.narrowQuantitative_of_within {a : ModelRoute} (hab : a.Within b) :
    a.narrowQuantitative b = a := by
  simp only [ModelRoute.narrowQuantitative, min_eq_left _ _ hab.maxInputTokens,
    min_eq_left _ _ hab.maxOutputTokens, min_eq_left _ _ hab.maxCalls]

theorem ResourceCeiling.narrow_of_within (hab : a.Within b) :
    a.narrow b = a := by
  simp only [ResourceCeiling.narrow, min_eq_left _ _ hab.cpuMilli, min_eq_left _ _ hab.memBytes,
    min_eq_left _ _ hab.wallClockMs, min_eq_left _ _ hab.fdCount, min_eq_left _ _ hab.diskBytes]

theorem min_ne_zero_iff {a b : UInt32} (ha : a ≠ 0) : min a b ≠ 0 ↔ b ≠ 0 := by
  constructor
  · rintro hmin rfl
    exact hmin (le_antisymm min_le_right (UInt32.zero_le))
  · intro hb
    rcases min_eq_or (a := a) (b := b) with h | h <;> rwa [h]

variable {role : Role}

/-- What is granted is usable exactly if the parent is, as the proposal has to be. -/
theorem usable_of_intersect (hintersect : intersect parent role = .ok w) :
    role.spec.modelRoute.Usable ∧ (w.modelRoute.Usable ↔ parent.modelRoute.Usable) := by
  unfold intersect at hintersect
  dsimp only at hintersect
  split_ifs at hintersect with _ _ _ _ _ hroute
  all_goals cases hintersect
  simp only [Bool.or_eq_true, decide_eq_true_eq, not_or] at hroute
  obtain ⟨⟨hinput, houtput⟩, hcalls⟩ := hroute
  refine ⟨⟨hinput, houtput, hcalls⟩, fun husable => ⟨?_, ?_, ?_⟩, fun hparent => ⟨?_, ?_, ?_⟩⟩
  · exact (min_ne_zero_iff hinput).1 husable.maxInputTokens
  · exact (min_ne_zero_iff houtput).1 husable.maxOutputTokens
  · exact (min_ne_zero_iff hcalls).1 husable.maxCalls
  · exact (min_ne_zero_iff hinput).2 hparent.maxInputTokens
  · exact (min_ne_zero_iff houtput).2 hparent.maxOutputTokens
  · exact (min_ne_zero_iff hcalls).2 hparent.maxCalls

/-- A proposal within the parent is granted as it stands. -/
theorem intersect_of_within (hwithin : role.spec.Within parent)
    (husable : role.spec.modelRoute.Usable) :
    intersect parent role = .ok role.spec := by
  have hcost : role.spec.costCeiling.narrow parent.costCeiling = role.spec.costCeiling := by
    simp only [CostCeiling.narrow, min_eq_left _ _ hwithin.costCeiling]
  have htls : (role.spec.tlsRequired || parent.tlsRequired) = role.spec.tlsRequired := by
    rw [Bool.or_eq_left_iff_imp]
    exact hwithin.tlsRequired
  unfold intersect
  simp only [hwithin.fsScope, hwithin.netScope, hwithin.syscallProfileRef, hwithin.toolGrants,
    hwithin.secretScope, husable.maxInputTokens, husable.maxOutputTokens, husable.maxCalls,
    ModelRoute.narrowQuantitative_of_within hwithin.modelRoute,
    ResourceCeiling.narrow_of_within hwithin.resourceCeiling, hcost, htls]
  simp [← hwithin.syscallProfileRef]

/-- Narrowing to a warrant that was narrowed already gives it back, from the parent and from
itself, exactly if the parent's own route is usable. -/
theorem intersect_idempotent {parent w : WarrantSpec} {role again : Role}
    (hintersect : intersect parent role = .ok w) (hagain : again.spec = w) :
    (intersect parent again = .ok w ∧ intersect w again = .ok w) ↔ parent.modelRoute.Usable := by
  have husable := (usable_of_intersect hintersect).2
  have hwithin := WarrantSpec.Within.of_intersect hintersect
  subst hagain
  constructor
  · exact fun hsame => husable.1 (usable_of_intersect hsame.1).1
  · intro hparent
    exact ⟨intersect_of_within hwithin (husable.2 hparent),
      intersect_of_within (.refl _) (husable.2 hparent)⟩

theorem intersect_idempotent_analyst :
    ∃ w, intersect operatorWarrant analystRole = .ok w ∧
      intersect operatorWarrant { analystRole with spec := w } = .ok w ∧
      intersect w { analystRole with spec := w } = .ok w := by
  have hnarrowed : ∃ w, intersect operatorWarrant analystRole = .ok w := ⟨_, rfl⟩
  obtain ⟨w, hw⟩ := hnarrowed
  exact ⟨w, hw, (intersect_idempotent hw rfl).2 ⟨by decide, by decide, by decide⟩⟩

/-- The smaller ceiling of a parent that lets nothing be called is the parent's zero, which
the next narrowing refuses. -/
theorem intersect_zero_parent :
    let parent : WarrantSpec := { modelRoute := ⟨"large", 8000, 2000, 0⟩ }
    let role : Role := ⟨"reader", 1, { modelRoute := ⟨"small", 100, 100, 1⟩ }, ""⟩
    let w : WarrantSpec := { modelRoute := ⟨"small", 100, 100, 0⟩ }
    let refused : NarrowingError :=
      .invalidModelRoute "max_input_tokens, max_output_tokens, and max_calls must all be > 0"
    intersect parent role = .ok w ∧ intersect parent { role with spec := w } = .error refused ∧
      intersect w { role with spec := w } = .error refused :=
  ⟨rfl, rfl, rfl⟩

end Idempotent

end Kortecx.Warrant
