import Kortecx.App.Compose

/-!
The blocks of a composed graph. Each App that is joined in contributes one block of
consecutive steps, called from the block of its caller, and what is bound to its steps,
their context and their credentials, stays with them wherever the block comes to lie.
-/

namespace Kortecx.App

open Lib Gateway Warrant List

/-- A copy of an App in a composed graph: the App as it was made ready, the position of its
first step, and, for a callee, the position of its caller and the steps there that call. -/
structure Block where
  own : Prepared
  offset : Nat
  call : Option (Nat × List Nat) := none

/-- The block in a graph that is joined to a caller of `k` steps. -/
def Block.under (k : Nat) (targets : List Nat) (b : Block) : Block where
  own := b.own
  offset := b.offset + k
  call := some (match b.call with
    | none => (0, targets)
    | some (caller, steps) => (caller + k, steps))

/-- The blocks follow one another from a position on. -/
def Consecutive : Nat → List Block → Prop
  | _, [] => True
  | k, b :: bs => b.offset = k ∧ Consecutive (k + b.own.dag.steps.length) bs

def stepsOf (blocks : List Block) : List StepSpec := blocks.flatMap (·.own.dag.steps)

def Prepared.scopeAt (p : Prepared) (i : Nat) : Option SecretScope :=
  (p.perStep.secretScope[i]?).join

def Prepared.itemsAt (p : Prepared) (i : Nat) : List ContextItemRef :=
  (p.perStep.contextItems[i]?).getD []

/-- The context a step is grounded in: what is bound to it, and on a root the run-wide one. -/
def Prepared.grounding (p : Prepared) (i : Nat) : List ContextItemRef :=
  p.itemsAt i ++ if i ∈ p.dag.roots then p.contextItems else []

/-- The calls of a block, when those of the first block are known to be `calls`. -/
def Block.calls (calls : List (String × List Nat)) (b : Block) : List (String × List Nat) :=
  if b.call = none then calls else b.own.composes

/-- A composed graph and the blocks its steps come in. `calls` are the calls of the root that
are joined in. -/
structure InBlocks (prepare : String → Except AppRunError Prepared) (root : Prepared)
    (calls : List (String × List Nat)) (p : Prepared) (blocks : List Block) : Prop where
  first : ∃ callees, blocks = { own := root, offset := 0 } :: callees ∧
    ∀ b ∈ callees, b.call.isSome
  steps : p.dag.steps = stepsOf blocks
  consecutive : Consecutive 0 blocks
  called : ∀ b ∈ blocks, ∀ caller targets, b.call = some (caller, targets) →
    targets ≠ [] ∧ b.own.contextBundles = [] ∧ ∃ a ∈ blocks, a.offset = caller ∧
      ∃ handle, (handle, targets) ∈ a.calls calls ∧ prepare handle = .ok b.own
  answered : ∀ a ∈ blocks, ∀ call ∈ a.calls calls, call.2 ≠ [] →
    ∃ b ∈ blocks, b.call = some (a.offset, call.2) ∧ prepare call.1 = .ok b.own
  bundles : p.contextBundles = root.contextBundles
  scopes : ∀ b ∈ blocks, ∀ i < b.own.dag.steps.length, p.scopeAt (b.offset + i) = b.own.scopeAt i
  grounding : ∀ b ∈ blocks, ∀ i < b.own.dag.steps.length,
    p.grounding (b.offset + i) = b.own.grounding i

theorem mem_spliced {n : Nat} {targets : List Nat} {blocks blocks' : List Block} (b : Block) :
    b ∈ blocks ++ blocks'.map (Block.under n targets) ↔
      b ∈ blocks ∨ ∃ b' ∈ blocks', b'.under n targets = b := by
  rw [mem_append, mem_map]

theorem mem_calls_append {b : Block}
    (h : call ∈ b.calls calls) : call ∈ b.calls (calls ++ more) := by
  unfold Block.calls at h ⊢
  split
  case isTrue hnone => rw [if_pos hnone] at h; exact mem_append_left _ h
  case isFalse hsome => rw [if_neg hsome] at h; exact h

section Positions

variable {blocks : List Block} {k n : Nat} {b : Block}

theorem consecutive_append :
    Consecutive k (blocks ++ more) ↔
      Consecutive k blocks ∧ Consecutive (k + (stepsOf blocks).length) more := by
  induction blocks generalizing k with
  | nil => simp [Consecutive, stepsOf]
  | cons b bs ih =>
    simp only [cons_append, Consecutive, ih, stepsOf, flatMap_cons, length_append,
      and_assoc, Nat.add_assoc]

variable (targets : List Nat)

theorem consecutive_under (h : Consecutive k blocks) :
    Consecutive (k + n) (blocks.map (Block.under n targets)) := by
  induction blocks generalizing k with
  | nil => trivial
  | cons b bs ih =>
    obtain ⟨hb, hbs⟩ := h
    refine ⟨by simp [Block.under, hb], ?_⟩
    have hrest := ih hbs
    have heq : k + b.own.dag.steps.length + n = k + n + b.own.dag.steps.length := by omega
    rw [heq] at hrest
    exact hrest

theorem stepsOf_under :
    stepsOf (blocks.map (Block.under n targets)) = stepsOf blocks := by
  simp [stepsOf, flatMap_map, Block.under]

/-- A block ends within the graph. -/
theorem Consecutive.le_length (h : Consecutive k blocks) (hb : b ∈ blocks) :
    k ≤ b.offset ∧ b.offset + b.own.dag.steps.length ≤ k + (stepsOf blocks).length := by
  induction blocks generalizing k with
  | nil => cases hb
  | cons c cs ih =>
    obtain ⟨hc, hcs⟩ := h
    simp only [stepsOf, flatMap_cons, length_append]
    rcases mem_cons.1 hb with rfl | hlater
    · omega
    have hrest := ih hcs hlater
    simp only [stepsOf] at hrest
    omega

end Positions

section Lists

variable {α : Type} (l : List α)

theorem length_resize (n : Nat) (filler : α) : (resize l n filler).length = n := by
  simp only [resize, length_append, length_take, length_replicate]
  omega

theorem getElem?_resize (filler : α) (hi : i < n) :
    (resize l n filler)[i]? = some ((l[i]?).getD filler) := by
  rw [resize, List.getElem?_append, length_take]
  split
  case isTrue h =>
    have hlt : i < l.length := by omega
    rw [List.getElem?_take_of_lt hi, List.getElem?_eq_getElem hlt, Option.getD_some]
  case isFalse h =>
    have hge : l.length ≤ i := by omega
    rw [List.getElem?_eq_none hge, List.getElem?_replicate, if_pos (by omega), Option.getD_none]

/-- Two padded lists, one after the other. -/
theorem getElem?_resize_append_left (hi : i < n) :
    (resize l n filler ++ resize l' m filler)[i]? = some ((l[i]?).getD filler) := by
  rw [List.getElem?_append_left (by rw [length_resize]; exact hi), getElem?_resize l filler hi]

theorem getElem?_resize_append_right (hi : i < m) :
    (resize l n filler ++ resize l' m filler)[n + i]? = some ((l'[i]?).getD filler) := by
  rw [List.getElem?_append_right (by rw [length_resize]; omega), length_resize,
    Nat.add_sub_cancel_left, getElem?_resize l' filler hi]

end Lists

section Pin

variable {p : Prepared}

@[simp] theorem pin_dag : (pinRunWideItemsToRoots p).dag = p.dag := by
  unfold pinRunWideItemsToRoots
  split <;> rfl

@[simp] theorem pin_contextItems : (pinRunWideItemsToRoots p).contextItems = [] := by
  unfold pinRunWideItemsToRoots
  split
  · assumption
  · rfl

@[simp] theorem pin_contextBundles :
    (pinRunWideItemsToRoots p).contextBundles = p.contextBundles := by
  unfold pinRunWideItemsToRoots
  split <;> rfl

@[simp] theorem pin_scopeAt (i : Nat) : (pinRunWideItemsToRoots p).scopeAt i = p.scopeAt i := by
  unfold pinRunWideItemsToRoots
  split <;> rfl

/-- Pinning moves the run-wide context and changes the grounding of no step. -/
theorem pin_grounding (hi : i < p.dag.steps.length) :
    (pinRunWideItemsToRoots p).grounding i = p.grounding i := by
  unfold pinRunWideItemsToRoots
  split
  · rfl
  simp only [Prepared.grounding, Prepared.itemsAt, List.getElem?_mapIdx,
    getElem?_resize _ _ hi, Option.map_some, Option.getD_some, ite_self, append_nil]
  split
  · rfl
  · rw [append_nil]

end Pin

variable {targets : List Nat} {p : Prepared}

section Splice

variable {me callee : Prepared} {i : Nat}

theorem splice_scopeAt_left (hi : i < me.dag.steps.length) :
    (spliceCallee me callee targets).scopeAt i = me.scopeAt i := by
  simp only [Prepared.scopeAt, spliceCallee, getElem?_resize_append_left _ hi]
  cases me.perStep.secretScope[i]? <;> rfl

theorem splice_scopeAt_right (hi : i < callee.dag.steps.length) :
    (spliceCallee me callee targets).scopeAt (me.dag.steps.length + i) = callee.scopeAt i := by
  simp only [Prepared.scopeAt, spliceCallee, getElem?_resize_append_right _ hi]
  cases callee.perStep.secretScope[i]? <;> rfl

theorem grounding_of_pinned (h : p.contextItems = []) (i : Nat) :
    p.grounding i = p.itemsAt i := by
  rw [Prepared.grounding, h, ite_self, append_nil]

theorem splice_itemsAt_left (hi : i < me.dag.steps.length) :
    (spliceCallee me callee targets).itemsAt i = me.itemsAt i := by
  simp only [Prepared.itemsAt, spliceCallee, getElem?_resize_append_left _ hi, Option.getD_some]

theorem splice_itemsAt_right (hi : i < callee.dag.steps.length) :
    (spliceCallee me callee targets).itemsAt (me.dag.steps.length + i) = callee.itemsAt i := by
  simp only [Prepared.itemsAt, spliceCallee, getElem?_resize_append_right _ hi,
    Option.getD_some]

end Splice

variable {prepare : String → Except AppRunError Prepared}

namespace InBlocks

variable {root me callee own : Prepared} {calls : List (String × List Nat)}
  {blocks blocks' : List Block}

/-- An App that calls none is one block. -/
theorem single : InBlocks prepare root [] root [{ own := root, offset := 0 }] where
  first := ⟨[], rfl, by simp⟩
  steps := by simp [stepsOf]
  consecutive := ⟨rfl, trivial⟩
  called := by simp
  answered := by simp [Block.calls]
  bundles := rfl
  scopes := by simp
  grounding := by simp

variable (h : InBlocks prepare root calls me blocks)

include h

/-- Calls without a target join nothing. -/
theorem skip {call : String × List Nat} (hcall : call.2 = []) :
    InBlocks prepare root (calls ++ [call]) me blocks := by
  refine { h with called := ?_, answered := ?_ }
  · intro b hb caller targets hcalled
    obtain ⟨hne, hbundles, a, ha, hoffset, handle, hmem, hprep⟩ :=
      h.called b hb caller targets hcalled
    exact ⟨hne, hbundles, a, ha, hoffset, handle, mem_calls_append hmem, hprep⟩
  · intro a ha c hc hne
    apply h.answered a ha c ?_ hne
    unfold Block.calls at hc ⊢
    split
    case isTrue hnone =>
      rw [if_pos hnone, mem_append, mem_singleton] at hc
      rcases hc with hc | rfl
      · exact hc
      · exact absurd hcall hne
    case isFalse hsome => rw [if_neg hsome] at hc; exact hc

/-- Two graphs with the same steps, bundles, scopes and grounding are in the same blocks. -/
theorem congr (hdag : p.dag = me.dag)
    (hbundles : p.contextBundles = me.contextBundles) (hscopes : ∀ i, p.scopeAt i = me.scopeAt i)
    (hgrounding : ∀ i < me.dag.steps.length, p.grounding i = me.grounding i) :
    InBlocks prepare root calls p blocks where
  first := h.first
  steps := by rw [hdag, h.steps]
  consecutive := h.consecutive
  called := h.called
  answered := h.answered
  bundles := by rw [hbundles, h.bundles]
  scopes b hb i hi := by rw [hscopes, h.scopes b hb i hi]
  grounding b hb i hi := by
    have hle := (h.consecutive.le_length hb).2
    have hlength := congrArg List.length h.steps
    rw [hgrounding _ (by omega), h.grounding b hb i hi]

theorem root_mem : ({ own := root, offset := 0 } : Block) ∈ blocks := by
  obtain ⟨callees, rfl, _⟩ := h.first
  exact mem_cons_self

theorem eq_root (hb : b ∈ blocks) (hcall : b.call = none) :
    b = { own := root, offset := 0 } := by
  obtain ⟨callees, rfl, hcallees⟩ := h.first
  rcases mem_cons.1 hb with rfl | hlater
  · rfl
  have hsome := hcallees b hlater
  rw [hcall] at hsome
  cases hsome

omit h in
/-- The calls of a block are those of its App. -/
theorem calls_eq (h : InBlocks prepare root root.composes me blocks) (hb : b ∈ blocks) :
    b.calls root.composes = b.own.composes := by
  unfold Block.calls
  split
  case isTrue hnone => rw [h.eq_root hb hnone]
  case isFalse => rfl

theorem length_eq :
    (stepsOf blocks).length = me.dag.steps.length := by rw [h.steps]

theorem root_length_le : root.dag.steps.length ≤ me.dag.steps.length := by
  have hle := (h.consecutive.le_length h.root_mem).2
  have hlength := h.length_eq
  simp only at hle
  omega

omit h in
/-- The calls of a block stay the same where its App is joined to a caller. -/
theorem calls_under (h : InBlocks prepare root root.composes me blocks) (hb : b ∈ blocks) :
    (b.under n targets).calls calls = b.calls root.composes := by
  rw [h.calls_eq hb, Block.calls, if_neg (by simp [Block.under])]
  rfl

end InBlocks

namespace InBlocks

variable {root me callee own : Prepared} {calls : List (String × List Nat)}
  {blocks blocks' all : List Block} {handle : String}
  (hme : InBlocks prepare root calls me blocks)
  (hcallee : InBlocks prepare own own.composes callee blocks')
  (hall : ∀ b, b ∈ all ↔ b ∈ blocks ∨ ∃ b' ∈ blocks', b'.under me.dag.steps.length targets = b)

include hme hcallee hall

/-- What every step of both graphs has, every step of the joined one has at its new place. -/
theorem at_spliced {α : Type} {at' : Prepared → Nat → α}
    (hleft : ∀ i < me.dag.steps.length, at' p i = at' me i)
    (hright : ∀ i < callee.dag.steps.length, at' p (me.dag.steps.length + i) = at' callee i)
    (hat : ∀ b ∈ blocks, ∀ i < b.own.dag.steps.length, at' me (b.offset + i) = at' b.own i)
    (hat' : ∀ b ∈ blocks', ∀ i < b.own.dag.steps.length,
      at' callee (b.offset + i) = at' b.own i)
    (b : Block) (hb : b ∈ all) (i : Nat) (hi : i < b.own.dag.steps.length) :
    at' p (b.offset + i) = at' b.own i := by
  rcases (hall b).1 hb with hb | ⟨b', hb', rfl⟩
  · have hle := (hme.consecutive.le_length hb).2
    have hlength := hme.length_eq
    rw [hleft _ (by omega), hat b hb i hi]
  · have hle := (hcallee.consecutive.le_length hb').2
    have hlength := hcallee.length_eq
    simp only [Block.under] at hi ⊢
    have hposition : b'.offset + me.dag.steps.length + i =
        me.dag.steps.length + (b'.offset + i) := by omega
    rw [hposition, hright _ (by omega), hat' b' hb' i hi]

theorem called_spliced (hprepare : prepare handle = .ok own) (hbundles : own.contextBundles = [])
    (hne : targets ≠ []) (b : Block) (hb : b ∈ all) (caller : Nat) (targets' : List Nat)
    (hcall : b.call = some (caller, targets')) :
    targets' ≠ [] ∧ b.own.contextBundles = [] ∧ ∃ a ∈ all, a.offset = caller ∧
      ∃ handle', (handle', targets') ∈ a.calls (calls ++ [(handle, targets)]) ∧
        prepare handle' = .ok b.own := by
  rcases (hall b).1 hb with hb | ⟨b', hb', rfl⟩
  · obtain ⟨hne', hbundles', a, ha, hoffset, handle', hmem, hprep⟩ :=
      hme.called b hb caller targets' hcall
    exact ⟨hne', hbundles', a, (hall a).2 (.inl ha), hoffset, handle',
      mem_calls_append hmem, hprep⟩
  simp only [Block.under, Option.some.injEq] at hcall
  split at hcall
  case h_1 hnone =>
    obtain ⟨rfl, rfl⟩ := Prod.mk.inj hcall
    have hown := hcallee.eq_root hb' hnone
    refine ⟨hne, ?_, _, (hall _).2 (.inl hme.root_mem), rfl, handle, ?_, ?_⟩
    · rw [hown, Block.under, hbundles]
    · exact mem_append_right _ (mem_singleton_self _)
    · rw [hprepare, hown, Block.under]
  case h_2 caller' steps hsome =>
    obtain ⟨rfl, rfl⟩ := Prod.mk.inj hcall
    obtain ⟨hne', hbundles', a, ha, hoffset, handle', hmem, hprep⟩ :=
      hcallee.called b' hb' _ _ hsome
    refine ⟨hne', hbundles', a.under me.dag.steps.length targets,
      (hall _).2 (.inr ⟨a, ha, rfl⟩), ?_, handle', ?_, hprep⟩
    · rw [Block.under, hoffset]
    · rwa [hcallee.calls_under ha]

theorem answered_spliced (hprepare : prepare handle = .ok own) (a : Block) (ha : a ∈ all)
    (call : String × List Nat) (hcall : call ∈ a.calls (calls ++ [(handle, targets)]))
    (hne : call.2 ≠ []) :
    ∃ b ∈ all, b.call = some (a.offset, call.2) ∧ prepare call.1 = .ok b.own := by
  rcases (hall a).1 ha with ha | ⟨a', ha', rfl⟩
  · by_cases hold : call ∈ a.calls calls
    · obtain ⟨b, hb, hanswer⟩ := hme.answered a ha call hold hne
      exact ⟨b, (hall b).2 (.inl hb), hanswer⟩
    -- The call is the new one, and the root makes it.
    unfold Block.calls at hcall hold
    split at hcall
    case isFalse hsome => exact absurd hcall (by rwa [if_neg hsome] at hold)
    case isTrue hnone =>
      rw [if_pos hnone] at hold
      rw [mem_append, mem_singleton] at hcall
      rw [hcall.resolve_left hold]
      refine ⟨_, (hall _).2 (.inr ⟨_, hcallee.root_mem, rfl⟩), ?_, hprepare⟩
      rw [hme.eq_root ha hnone, Block.under]
  · rw [hcallee.calls_under ha'] at hcall
    obtain ⟨b, hb, hanswer, hprep⟩ := hcallee.answered a' ha' call hcall hne
    refine ⟨_, (hall _).2 (.inr ⟨b, hb, rfl⟩), ?_, hprep⟩
    simp only [Block.under, hanswer]

omit hall in
/-- A callee is joined: its blocks come after those of the caller. -/
theorem splice (hprepare : prepare handle = .ok own)
    (hpinned : me.contextItems = []) (hpinned' : callee.contextItems = [])
    (hbundles : own.contextBundles = []) (hne : targets ≠ []) :
    InBlocks prepare root (calls ++ [(handle, targets)]) (spliceCallee me callee targets)
      (blocks ++ blocks'.map (Block.under me.dag.steps.length targets)) where
  first := by
    obtain ⟨callees, rfl, hcallees⟩ := hme.first
    refine ⟨callees ++ blocks'.map (Block.under me.dag.steps.length targets), rfl, ?_⟩
    intro b hb
    rcases mem_append.1 hb with hb | hb
    · exact hcallees b hb
    obtain ⟨b', _, rfl⟩ := mem_map.1 hb
    rfl
  steps := by
    rw [stepsOf, flatMap_append, ← stepsOf, ← stepsOf, stepsOf_under, ← hcallee.steps, ← hme.steps]
    rfl
  consecutive := by
    rw [consecutive_append, hme.length_eq]
    have hunder := consecutive_under (n := me.dag.steps.length) targets hcallee.consecutive
    exact ⟨hme.consecutive, hunder⟩
  called := hme.called_spliced hcallee mem_spliced hprepare hbundles hne
  answered := hme.answered_spliced hcallee mem_spliced hprepare
  bundles := hme.bundles
  scopes := hme.at_spliced hcallee mem_spliced (fun _ => splice_scopeAt_left)
    (fun _ => splice_scopeAt_right) hme.scopes hcallee.scopes
  grounding := by
    have hpinnedBoth : (spliceCallee me callee targets).contextItems = [] := hpinned
    apply hme.at_spliced hcallee mem_spliced _ _ hme.grounding hcallee.grounding
    · intro i hi
      rw [grounding_of_pinned hpinnedBoth, splice_itemsAt_left hi, grounding_of_pinned hpinned]
    · intro i hi
      rw [grounding_of_pinned hpinnedBoth, splice_itemsAt_right hi, grounding_of_pinned hpinned']

end InBlocks

theorem joinCallee_ok (h : joinCallee me handle targets callee = .ok p) :
    callee.contextBundles = [] ∧
      me.dag.steps.length + callee.dag.steps.length ≤ MAX_COMPOSED_STEPS ∧
      p = spliceCallee me (pinRunWideItemsToRoots callee) targets := by
  unfold joinCallee at h
  simp only [pin_dag, pin_contextBundles] at h
  split at h
  · cases h
  split at h
  · cases h
  rename_i hbundles htotal
  exact ⟨not_not.1 hbundles, by omega, (Except.ok.inj h).symm⟩

/-- A composition that succeeds: there is nothing to call, or each call in turn is skipped, as no
step makes it, or its callee is composed one level further down and joined. -/
theorem resolveComposes_ok {levels : Nat} {root p : Prepared} {chain : List String}
    (h : resolveComposes prepare levels root chain = .ok p) :
    (root.composes.all (·.2 = []) ∧ p = root) ∨
    ∃ (levels' : Nat) (f : Prepared → String × List Nat → Except AppRunError Prepared),
      levels = levels' + 1 ∧
      root.composes.foldlM f { pinRunWideItemsToRoots root with composes := [] } = .ok p ∧
      ∀ me call p, f me call = .ok p →
        (call.2 = [] ∧ p = me) ∨
        (call.2 ≠ [] ∧ ∃ own callee, prepare call.1 = .ok own ∧
          resolveComposes prepare levels' own (chain ++ [call.1]) = .ok callee ∧
          joinCallee me call.1 call.2 callee = .ok p) := by
  unfold resolveComposes at h
  split at h
  case isTrue hnone => exact .inl ⟨hnone, (Except.ok.inj h).symm⟩
  cases levels with
  | zero => cases h
  | succ levels =>
    refine .inr ⟨levels, _, rfl, h, ?_⟩
    intro me call p hstep
    split at hstep
    case isTrue hnone => exact .inl ⟨hnone, (Except.ok.inj hstep).symm⟩
    case isFalse hne =>
      split at hstep
      · cases hstep
      split at hstep
      · cases hstep
      rename_i own hown
      split at hstep
      · cases hstep
      rename_i callee hcallee
      exact .inr ⟨hne, own, callee, hown, hcallee, hstep⟩

/-- A fact about graphs in blocks that holds of an App alone and that pinning, dropped calls
and joining keep, for Apps that are `Good`. -/
structure JoinRule (prepare : String → Except AppRunError Prepared) (Good : Prepared → Prop)
    (R : Prepared → List (String × List Nat) → Prepared → List Block → Prop) : Prop where
  single : ∀ {root}, Good root → R root [] root [{ own := root, offset := 0 }]
  skip : ∀ {root calls me blocks} {call : String × List Nat}, R root calls me blocks →
    call.2 = [] → R root (calls ++ [call]) me blocks
  pin : ∀ {root calls me blocks}, R root calls me blocks →
    R root calls (pinRunWideItemsToRoots me) blocks
  taken : ∀ {root calls me blocks}, R root calls me blocks →
    R root calls { me with composes := [] } blocks
  splice : ∀ {root own calls me callee blocks blocks'} {call : String × List Nat}, Good root →
    R root calls me blocks → R own own.composes callee blocks' → prepare call.1 = .ok own →
    me.dag.steps.length + callee.dag.steps.length ≤ MAX_COMPOSED_STEPS →
    me.contextItems = [] → callee.contextItems = [] → callee.contextBundles = [] →
    call ∈ root.composes → call.2 ≠ [] →
    R root (calls ++ [call]) (spliceCallee me callee call.2)
      (blocks ++ blocks'.map (Block.under me.dag.steps.length call.2))

namespace JoinRule

variable {Good : Prepared → Prop}
  {R : Prepared → List (String × List Nat) → Prepared → List Block → Prop}

variable (rule : JoinRule prepare Good R)

include rule

theorem mono (hgood : ∀ own, Good' own → Good own) : JoinRule prepare Good' R :=
  { rule with
    single := fun hroot => rule.single (hgood _ hroot)
    splice := fun hroot => rule.splice (hgood _ hroot) }

theorem skipAll {more : List (String × List Nat)} (h : R root calls me blocks)
    (hnone : more.all (·.2 = [])) : R root (calls ++ more) me blocks := by
  induction more generalizing calls with
  | nil => rw [append_nil]; exact h
  | cons call more ih =>
    rw [all_cons, Bool.and_eq_true, decide_eq_true_eq] at hnone
    have hassoc : calls ++ call :: more = calls ++ [call] ++ more := by simp
    rw [hassoc]
    exact ih (rule.skip h hnone.1) hnone.2

/-- The calls of an App, one after the other: each joins a callee that is in blocks. -/
theorem of_foldlM {f : Prepared → String × List Nat → Except AppRunError Prepared}
    {root : Prepared} (hroot : Good root)
    (hf : ∀ me, ∀ call ∈ root.composes, ∀ p, f me call = .ok p →
      (call.2 = [] ∧ p = me) ∨
      (call.2 ≠ [] ∧ ∃ own callee blocks, prepare call.1 = .ok own ∧
        R own own.composes callee blocks ∧ joinCallee me call.1 call.2 callee = .ok p))
    {rest calls : List (String × List Nat)} {me p : Prepared} {blocks : List Block}
    (hrest : ∀ call ∈ rest, call ∈ root.composes)
    (hme : R root calls me blocks) (hpinned : me.contextItems = [])
    (h : rest.foldlM f me = .ok p) : ∃ blocks, R root (calls ++ rest) p blocks := by
  -- by induction on the calls that are left, over the blocks reached so far
  induction rest generalizing calls me blocks with
  | nil =>
    cases h
    rw [append_nil]
    exact ⟨blocks, hme⟩
  | cons call rest ih =>
    rw [foldlM_cons] at h
    cases hcall : f me call with
    | error e => rw [hcall] at h; cases h
    | ok me' =>
      rw [hcall] at h
      have hrest' := fun c hc => hrest c (mem_cons_of_mem _ hc)
      have hassoc : calls ++ call :: rest = calls ++ [call] ++ rest := by simp
      rw [hassoc]
      rcases hf me call (hrest call mem_cons_self) me' hcall with
        ⟨hnone, rfl⟩ | ⟨hne, own, callee, blocks', hprepare, hown, hjoin⟩
      · exact ih hrest' (rule.skip hme hnone) hpinned h
      obtain ⟨hbundles, htotal, rfl⟩ := joinCallee_ok hjoin
      have hjoined := rule.splice hroot hme (rule.pin hown) hprepare
        (by rw [pin_dag]; exact htotal) hpinned pin_contextItems
        (by rw [pin_contextBundles]; exact hbundles) (hrest call mem_cons_self) hne
      exact ih hrest' hjoined hpinned h

/-- What the rule keeps holds of every composition, at every depth. -/
theorem of_resolveComposes (hprepare : ∀ own, Good own → ∀ call ∈ own.composes, call.2 ≠ [] →
      ∀ callee, prepare call.1 = .ok callee → Good callee)
    {levels : Nat} {root p : Prepared} {chain : List String} (hroot : Good root)
    (h : resolveComposes prepare levels root chain = .ok p) :
    ∃ blocks, R root root.composes p blocks := by
  induction levels using Nat.strong_induction_on generalizing root p chain with
  | _ levels ih =>
    rcases resolveComposes_ok h with ⟨hnone, rfl⟩ | ⟨below, f, rfl, hfold, hf⟩
    · exact ⟨_, rule.skipAll (rule.single hroot) hnone⟩
    apply rule.of_foldlM hroot ?_ (fun _ hc => hc)
      (rule.taken (rule.pin (rule.single hroot))) pin_contextItems hfold
    intro me call hmem p' hstep
    rcases hf me call p' hstep with hskip | ⟨hne, own, callee, hown, hcallee, hjoin⟩
    · exact .inl hskip
    obtain ⟨blocks, hblocks⟩ :=
      ih below (Nat.lt_succ_self below) (hprepare root hroot call hmem hne own hown) hcallee
    exact .inr ⟨hne, own, callee, blocks, hown, hblocks, hjoin⟩

end JoinRule

theorem joinRule_inBlocks : JoinRule prepare (fun _ => True) (InBlocks prepare) where
  single _ := InBlocks.single
  skip h hcall := h.skip hcall
  pin h := h.congr pin_dag pin_contextBundles pin_scopeAt fun _ hi => pin_grounding hi
  taken h := h.congr rfl rfl (fun _ => rfl) fun _ _ => rfl
  splice _ hme hcallee hprepare _ hpinned hpinned' hbundles _ hne :=
    hme.splice hcallee hprepare hpinned hpinned' (hcallee.bundles.symm.trans hbundles) hne

end Kortecx.App
