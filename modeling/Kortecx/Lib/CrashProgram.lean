import Mathlib.Logic.Relation

/-!
Programs that perform effects on a shared world and may stop after any of them. Several
run at a time, in any interleaving. A discipline says which effects are lawful in which
world; a program is safe if every effect it comes to is lawful, whatever the others did in
the meantime. Safety is proved program by program and holds of every run.
-/

namespace Kortecx.Lib

open List

/-- A program ends with a value, or performs an effect and goes on with the answer. -/
inductive Program (E : Type) (Answer : E → Type) (α : Type) where
  | done (a : α)
  | perform (e : E) (next : Answer e → Program E Answer α)

variable {E : Type}

namespace Program

variable {Answer : E → Type} {α β : Type}

def bind : Program E Answer α → (α → Program E Answer β) → Program E Answer β
  | .done a, f => f a
  | .perform e next, f => .perform e fun a => (next a).bind f

instance : Monad (Program E Answer) where
  pure := .done
  bind := bind

def call (e : E) : Program E Answer (Answer e) :=
  .perform e .done

/-- Every effect the program can come to is one of `P`. -/
def Only (P : E → Prop) : Program E Answer α → Prop
  | .done _ => True
  | .perform e next => P e ∧ ∀ a, (next a).Only P

variable {P : E → Prop} {p : Program E Answer α} {f : α → Program E Answer β}

theorem only_of_forall (hall : ∀ e, P e) (p : Program E Answer α) : p.Only P := by
  induction p with
  | done a => trivial
  | perform e next ih => exact ⟨hall e, ih⟩

theorem only_pure (a : α) : Only P (pure a : Program E Answer α) :=
  trivial

theorem Only.call_bind {e : E} {g : Answer e → Program E Answer β} (he : P e)
    (hg : ∀ a, (g a).Only P) : Only P (call e >>= g) :=
  ⟨he, hg⟩

theorem Only.bind (hp : p.Only P) (hf : ∀ a, (f a).Only P) : Only P (p >>= f) := by
  induction p with
  | done a => exact hf a
  | perform e next ih => exact ⟨hp.1, fun a => ih a (hp.2 a)⟩

end Program

/-- What an effect performed in a world may answer, and the world it leaves. -/
abbrev Semantics (E : Type) (Answer : E → Type) (W : Type) :=
  (e : E) → W → Answer e → W → Prop

/-- The lawful effects keep the invariant and only ever lead to later worlds. -/
structure Discipline {E : Type} {Answer : E → Type} {W : Type} (exec : Semantics E Answer W) where
  inv : W → Prop
  later : W → W → Prop
  lawful : E → W → Prop
  later_refl : ∀ w, later w w
  later_trans : ∀ {w₁ w₂ w₃}, later w₁ w₂ → later w₂ w₃ → later w₁ w₃
  keeps : ∀ {e w a w'}, inv w → lawful e w → exec e w a w' → inv w' ∧ later w w'

namespace Discipline

variable {Answer : E → Type} {W α β : Type} {exec : Semantics E Answer W} (D : Discipline exec)

/-- From `w` on, whatever the other programs do, the program performs lawful effects only,
and it ends in a world of which `Q` holds. -/
def Safe (Q : α → W → Prop) : Program E Answer α → W → Prop
  | .done a, w => Q a w
  | .perform e next, w => ∀ w₁, D.later w w₁ → D.inv w₁ →
      D.lawful e w₁ ∧ ∀ a w₂, exec e w₁ a w₂ → Safe Q (next a) w₂

variable {D} {Q : α → W → Prop} {R : β → W → Prop} {p : Program E Answer α} {w : W}

theorem safe_pure (ha : Q a w) : D.Safe Q (pure a) w :=
  ha

/-- A program whose effects are lawful in every world. -/
theorem safe_of_only (hp : p.Only fun e => ∀ w, D.lawful e w) :
    D.Safe (fun _ _ => True) p w := by
  induction p generalizing w with
  | done a => trivial
  | perform e next ih => exact fun w₁ _ _ => ⟨hp.1 w₁, fun a _ _ => ih a (hp.2 a)⟩

/-- One effect and what follows it. The world may have moved on before the effect. -/
theorem Safe.call_bind (hlawful : ∀ w₁, D.later w w₁ → D.inv w₁ → D.lawful e w₁)
    (hnext : ∀ w₁ a w₂, D.later w w₁ → D.inv w₁ → exec e w₁ a w₂ → D.later w w₂ →
      D.Safe Q (f a) w₂) :
    D.Safe Q (Program.call e >>= f) w := by
  intro w₁ hlater hinv
  refine ⟨hlawful w₁ hlater hinv, fun a w₂ hexec => ?_⟩
  have hkept := D.keeps hinv (hlawful w₁ hlater hinv) hexec
  exact hnext w₁ a w₂ hlater hinv hexec (D.later_trans hlater hkept.2)

theorem Safe.bind (hp : D.Safe Q p w)
    (hf : ∀ a w, Q a w → D.Safe R (f a) w) : D.Safe R (p >>= f) w := by
  induction p generalizing w with
  | done a => exact hf a w hp
  | perform e next ih =>
    intro w₁ hlater hinv
    obtain ⟨hlawful, hnext⟩ := hp w₁ hlater hinv
    exact ⟨hlawful, fun a w₂ hexec => ih a (hnext a w₂ hexec)⟩

/-- A safe program stays safe while others run. -/
theorem Safe.of_later (hp : D.Safe (fun _ _ => True) p w) (hlater : D.later w w') :
    D.Safe (fun _ _ => True) p w' := by
  cases p with
  | done a => trivial
  | perform e next => exact fun w₁ hlater₁ hinv => hp w₁ (D.later_trans hlater hlater₁) hinv

end Discipline

/-- A world and the programs running in it, each with the call it was started for. -/
structure System (κ E : Type) (Answer : E → Type) (W ρ : Type) where
  world : W
  tasks : List (κ × Program E Answer ρ)

namespace System

variable {κ : Type} {Answer : E → Type} {W ρ : Type} (exec : Semantics E Answer W)
  (program : κ → Program E Answer ρ)

/-- The task `k` performs its next effect `e`. -/
inductive Performs (k : κ) (e : E) : System κ E Answer W ρ → System κ E Answer W ρ → Prop where
  | perform {w w' : W} {before after : List (κ × Program E Answer ρ)}
      {next : Answer e → Program E Answer ρ} {a : Answer e} (hexec : exec e w a w') :
      Performs k e ⟨w, before ++ (k, .perform e next) :: after⟩ ⟨w', before ++ (k, next a) :: after⟩

/-- A call is started, a task performs an effect, or a task stops: at its end, or wherever
it was when its process died. -/
inductive Step : System κ E Answer W ρ → System κ E Answer W ρ → Prop where
  | start (y : System κ E Answer W ρ) (k : κ) :
      Step y { y with tasks := (k, program k) :: y.tasks }
  | performs {y y' : System κ E Answer W ρ} {k : κ} {e : E} (h : Performs exec k e y y') : Step y y'
  | stop {w : W} {before after : List (κ × Program E Answer ρ)}
      {task : κ × Program E Answer ρ} :
      Step ⟨w, before ++ task :: after⟩ ⟨w, before ++ after⟩

def Reaches (w : W) (y : System κ E Answer W ρ) : Prop :=
  Relation.ReflTransGen (Step exec program) ⟨w, []⟩ y

variable {exec program} {D : Discipline exec} {y y' : System κ E Answer W ρ}
  {tasks : List (κ × Program E Answer ρ)}

theorem Reaches.start {w w' : W} (k : κ) (h : Reaches exec program w ⟨w', tasks⟩) :
    Reaches exec program w ⟨w', (k, program k) :: tasks⟩ :=
  h.tail (.start _ k)

variable {e : E} {k : κ}

/-- The task that was started last goes on. -/
theorem Reaches.perform {w₀ w w' : W} {next : Answer e → Program E Answer ρ} {a : Answer e}
    (h : Reaches exec program w₀ ⟨w, (k, .perform e next) :: tasks⟩) (hexec : exec e w a w') :
    Reaches exec program w₀ ⟨w', (k, next a) :: tasks⟩ := by
  have hperforms : Performs exec k e ⟨w, [] ++ (k, .perform e next) :: tasks⟩
      ⟨w', [] ++ (k, next a) :: tasks⟩ := .perform hexec
  exact h.tail (.performs hperforms)

theorem Performs.mem_tasks (h : Performs exec k e y y') :
    ∃ next, (k, .perform e next) ∈ y.tasks := by
  cases h with
  | perform hexec => exact ⟨_, mem_append_right _ mem_cons_self⟩

theorem Performs.executed (h : Performs exec k e y y') :
    ∃ a, exec e y.world a y'.world := by
  cases h with
  | perform hexec => exact ⟨_, hexec⟩

/-- Only a performed effect changes the world. -/
theorem Step.world (hstep : Step exec program y y') :
    y'.world = y.world ∨ ∃ k e, Performs exec k e y y' := by
  cases hstep with
  | start | stop => exact .inl rfl
  | performs h => exact .inr ⟨_, _, h⟩

/-- Where the tasks after a step come from: they were there before, they were just started,
or they went on with the answer to an effect. -/
theorem Step.mem_tasks (hstep : Step exec program y y') (htask : task ∈ y'.tasks) :
    task ∈ y.tasks ∨ (∃ k, task = (k, program k) ∧ y'.world = y.world) ∨
      ∃ k e next a, (k, .perform e next) ∈ y.tasks ∧ exec e y.world a y'.world ∧
        task = (k, next a) := by
  cases hstep with
  | start _ k =>
    rcases mem_cons.1 htask with heq | hold
    · exact .inr (.inl ⟨k, heq, rfl⟩)
    · exact .inl hold
  | performs h =>
    cases h with
    | @perform w w' before after next a hexec =>
      rcases mem_append.1 htask with hbefore | hrest
      · exact .inl (mem_append_left _ hbefore)
      rcases mem_cons.1 hrest with heq | hafter
      · refine .inr (.inr ⟨_, _, next, a, ?_, hexec, heq⟩)
        exact mem_append_right _ mem_cons_self
      · exact .inl (mem_append_right _ (mem_cons_of_mem _ hafter))
  | stop =>
    rcases mem_append.1 htask with hbefore | hafter
    · exact .inl (mem_append_left _ hbefore)
    · exact .inl (mem_append_right _ (mem_cons_of_mem _ hafter))

structure Sound (D : Discipline exec) (y : System κ E Answer W ρ) : Prop where
  inv : D.inv y.world
  safe : ∀ task ∈ y.tasks, D.Safe (fun _ _ => True) task.2 y.world

/-- The effect a task comes to is lawful, and leads to what remains of its program. -/
theorem Sound.next {next : Answer e → Program E Answer ρ} (hsound : Sound D y)
    (hmem : (k, .perform e next) ∈ y.tasks) :
    D.lawful e y.world ∧
      ∀ a w, exec e y.world a w → D.Safe (fun _ _ => True) (next a) w :=
  hsound.safe _ hmem y.world (D.later_refl _) hsound.inv

theorem Sound.lawful (hsound : Sound D y) (h : Performs exec k e y y') :
    D.lawful e y.world := by
  obtain ⟨next, hmem⟩ := h.mem_tasks
  exact (hsound.next hmem).1

theorem Sound.step (hprogram : ∀ k w, D.inv w → D.Safe (fun _ _ => True) (program k) w)
    (hsound : Sound D y) (hstep : Step exec program y y') : Sound D y' := by
  have hworld : D.inv y'.world ∧ D.later y.world y'.world := by
    rcases hstep.world with heq | ⟨k, e, h⟩
    · rw [heq]
      exact ⟨hsound.inv, D.later_refl _⟩
    obtain ⟨a, hexec⟩ := h.executed
    exact D.keeps hsound.inv (hsound.lawful h) hexec
  refine ⟨hworld.1, fun task htask => ?_⟩
  rcases hstep.mem_tasks htask with hold | ⟨k, rfl, _⟩ | ⟨k, e, next, a, hmem, hexec, rfl⟩
  · exact (hsound.safe task hold).of_later hworld.2
  · exact hprogram k _ hworld.1
  · exact (hsound.next hmem).2 a _ hexec

/-- Safe programs make every run sound. -/
theorem Reaches.sound (hprogram : ∀ k w, D.inv w → D.Safe (fun _ _ => True) (program k) w)
    (hinv : D.inv w) (hreaches : Reaches exec program w y) : Sound D y := by
  induction hreaches with
  | refl => exact ⟨hinv, fun task htask => absurd htask not_mem_nil⟩
  | tail _ hstep ih => exact ih.step hprogram hstep

/-- A task performs the effects its program can come to, and no others. -/
theorem Reaches.only {w : W} {P : κ → E → Prop} (hprogram : ∀ k, (program k).Only (P k))
    (hreaches : Reaches exec program w y) : ∀ task ∈ y.tasks, task.2.Only (P task.1) := by
  induction hreaches with
  | refl => exact fun task htask => absurd htask not_mem_nil
  | tail _ hstep ih =>
    intro task htask
    rcases hstep.mem_tasks htask with hold | ⟨k, rfl, _⟩ | ⟨k, e, next, a, hmem, _, rfl⟩
    · exact ih task hold
    · exact hprogram k
    · exact (ih _ hmem).2 a

end System

end Kortecx.Lib
