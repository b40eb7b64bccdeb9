import Kortecx.Lib.CrashProgram

/-!
Programs run by one thread on a world of their own. A handler says what an effect answers
and what it does to the world; then a program is a function of the world it starts in, and
the effects it performs are a sequence of steps, each taken in a world of its own. What
holds of every step of a program is put together from its parts, and an invariant that
every such step keeps is kept by the program.
-/

namespace Kortecx.Lib

open List

/-- What an effect answers in a world, and the world it leaves. -/
abbrev Handler (E : Type) (Answer : E → Type) (W : Type) :=
  (e : E) → W → Answer e × W

namespace Program

variable {E : Type} {Answer : E → Type} {W α β γ : Type}

def forEach : List γ → (γ → Program E Answer Unit) → Program E Answer Unit
  | [], _ => pure ()
  | x :: xs, body => body x >>= fun _ => forEach xs body

def filterEach : List γ → (γ → Program E Answer Bool) → Program E Answer (List γ)
  | [], _ => pure []
  | x :: xs, keep => do
    let kept ← keep x
    let rest ← filterEach xs keep
    return if kept then x :: rest else rest

def collectEach : List γ → (γ → Program E Answer (Option β)) → Program E Answer (List β)
  | [], _ => pure []
  | x :: xs, find => do
    let found ← find x
    let rest ← collectEach xs find
    return found.toList ++ rest

/-- A program over some of the effects of a larger language, as a program of that
language. -/
def embed {E' : Type} {Answer' : E' → Type} (inj : E' → E)
    (back : ∀ e, Answer (inj e) → Answer' e) : Program E' Answer' α → Program E Answer α
  | .done a => .done a
  | .perform e next => .perform (inj e) fun a => (next (back e a)).embed inj back

section Running

variable (handle : Handler E Answer W)

def run : Program E Answer α → W → α × W
  | .done a, w => (a, w)
  | .perform e next, w => (next (handle e w).1).run (handle e w).2

/-- Every effect the program performs from `w` on satisfies `P` where it is performed. -/
def Along (P : W → E → Prop) : Program E Answer α → W → Prop
  | .done _, _ => True
  | .perform e next, w => P w e ∧ (next (handle e w).1).Along P (handle e w).2

/-- `w'` is a world the program comes through from `w`, and every effect performed on the
way to it satisfies `P`. -/
def During (P : W → E → Prop) : Program E Answer α → W → W → Prop
  | .done _, w, w' => w' = w
  | .perform e next, w, w' =>
    w' = w ∨ (P w e ∧ (next (handle e w).1).During P (handle e w).2 w')

end Running

variable {handle : Handler E Answer W} {P Q : W → E → Prop} {inv : W → Prop} {w : W}
  {p : Program E Answer α} {f : α → Program E Answer β}

@[simp]
theorem run_pure (a : α) (w : W) : run handle (pure a : Program E Answer α) w = (a, w) := rfl

theorem run_bind (p : Program E Answer α) (w : W) :
    run handle (p >>= f) w = run handle (f (run handle p w).1) (run handle p w).2 := by
  induction p generalizing w with
  | done a => rfl
  | perform e next ih => exact ih _ _

@[simp]
theorem run_call_bind (e : E) (g : Answer e → Program E Answer β) (w : W) :
    run handle (call e >>= g) w = run handle (g (handle e w).1) (handle e w).2 := rfl

instance decidableAlong [∀ w e, Decidable (P w e)] :
    (p : Program E Answer α) → (w : W) → Decidable (Along handle P p w)
  | .done _, _ => isTrue trivial
  | .perform _ next, _ =>
    @instDecidableAnd _ _ _ (decidableAlong (next _) _)

@[simp]
theorem along_call_bind :
    Along handle P (call e >>= g) w ↔ P w e ∧ Along handle P (g (handle e w).1) (handle e w).2 :=
  Iff.rfl

@[simp]
theorem along_call : Along handle P (call e : Program E Answer (Answer e)) w ↔ P w e := by
  change P w e ∧ True ↔ P w e
  rw [and_true]

theorem along_bind :
    Along handle P (p >>= f) w ↔
      Along handle P p w ∧ Along handle P (f (run handle p w).1) (run handle p w).2 := by
  induction p generalizing w with
  | done a => exact ⟨fun h => ⟨trivial, h⟩, fun h => h.2⟩
  | perform e next ih =>
    have hnext := @ih (handle e w).1 (handle e w).2
    exact (and_congr_right fun _ => hnext).trans and_assoc.symm

theorem Along.mono (h : Along handle P p w) (hPQ : ∀ w e, P w e → Q w e) : Along handle Q p w := by
  induction p generalizing w with
  | done a => trivial
  | perform e next ih => exact ⟨hPQ _ _ h.1, ih _ h.2⟩

theorem Along.and (hP : Along handle P p w) (hQ : Along handle Q p w) :
    Along handle (fun w e => P w e ∧ Q w e) p w := by
  induction p generalizing w with
  | done a => trivial
  | perform e next ih => exact ⟨⟨hP.1, hQ.1⟩, ih _ hP.2 hQ.2⟩

/-- An invariant that every step keeps is kept. -/
theorem Along.preserves (hstep : ∀ w e, inv w → P w e → inv (handle e w).2)
    (h : Along handle P p w) (hinv : inv w) : inv (run handle p w).2 := by
  induction p generalizing w with
  | done a => exact hinv
  | perform e next ih => exact ih _ h.2 (hstep _ _ hinv h.1)

variable {w' : W}

/-- An invariant that every step keeps holds in every world the program comes through. -/
theorem During.preserves (hstep : ∀ w e, inv w → P w e → inv (handle e w).2)
    (h : During handle P p w w') (hinv : inv w) : inv w' := by
  induction p generalizing w with
  | done a =>
    have heq : w' = w := h
    exact heq ▸ hinv
  | perform e next ih =>
    rcases h with rfl | ⟨hP, hnext⟩
    · exact hinv
    · exact ih _ hnext (hstep _ _ hinv hP)

theorem During.mono (h : During handle P p w w') (hPQ : ∀ w e, P w e → Q w e) :
    During handle Q p w w' := by
  induction p generalizing w with
  | done a => exact h
  | perform e next ih => exact h.imp_right fun h => ⟨hPQ _ _ h.1, ih _ h.2⟩

/-- What holds of every step holds of those performed. -/
theorem During.and (hP : During handle P p w w') (hQ : Along handle Q p w) :
    During handle (fun w e => P w e ∧ Q w e) p w w' := by
  induction p generalizing w with
  | done a => exact hP
  | perform e next ih => exact hP.imp_right fun h => ⟨⟨h.1, hQ.1⟩, ih _ h.2 hQ.2⟩

variable (handle P) in
/-- Every effect the program performs satisfies `P`, wherever the program starts. -/
def Always (p : Program E Answer α) : Prop :=
  ∀ w, Along handle P p w

theorem always_pure (a : α) : Always handle P (pure a : Program E Answer α) :=
  fun _ => trivial

theorem always_trivial (p : Program E Answer α) : Always handle (fun _ _ => True) p := by
  induction p with
  | done a => exact always_pure a
  | perform e next ih => exact fun w => ⟨trivial, ih _ _⟩

section Only

variable {A : E → Prop}

theorem only_call (he : A e) : Only A (call e : Program E Answer (Answer e)) :=
  ⟨he, fun _ => trivial⟩

theorem only_forEach (hbody : ∀ x, Only A (body x)) : Only A (forEach xs body) := by
  induction xs with
  | nil => trivial
  | cons x xs ih => exact (hbody x).bind fun _ => ih

theorem Only.imp (hp : Only A p) (hAB : ∀ e, A e → B e) : Only B p := by
  induction p with
  | done a => trivial
  | perform e next ih => exact ⟨hAB e hp.1, fun a => ih a (hp.2 a)⟩

theorem Only.along (hp : Only A p) (hA : ∀ w e, A e → P w e) (w : W) : Along handle P p w := by
  induction p generalizing w with
  | done a => trivial
  | perform e next ih => exact ⟨hA w e hp.1, ih _ (hp.2 _) _⟩

end Only

/-- As long as the effects performed satisfy `Q`, they satisfy `P` too. -/
def AsLong (handle : Handler E Answer W) (Q P : W → E → Prop) : Program E Answer α → W → Prop
  | .done _, _ => True
  | .perform e next, w => Q w e → P w e ∧ (next (handle e w).1).AsLong handle Q P (handle e w).2

theorem Along.asLong (h : Along handle P p w) : AsLong handle Q P p w := by
  induction p generalizing w with
  | done a => trivial
  | perform e next ih => exact fun _ => ⟨h.1, ih _ h.2⟩

/-- The rest of a program has to be looked at only where its first part led. -/
theorem AsLong.bind (hp : AsLong handle Q P p w)
    (hf : Along handle Q p w → AsLong handle Q P (f (run handle p w).1) (run handle p w).2) :
    AsLong handle Q P (p >>= f) w := by
  induction p generalizing w with
  | done a => exact hf trivial
  | perform e next ih => exact fun hQ => ⟨(hp hQ).1, ih _ (hp hQ).2 fun h => hf ⟨hQ, h⟩⟩

theorem AsLong.along (h : AsLong handle Q P p w) (hQ : Along handle Q p w) :
    Along handle P p w := by
  induction p generalizing w with
  | done a => trivial
  | perform e next ih => exact ⟨(h hQ.1).1, ih _ (h hQ.1).2 hQ.2⟩

theorem AsLong.during (h : AsLong handle Q P p w) (hQ : During handle Q p w w') :
    During handle (fun w e => Q w e ∧ P w e) p w w' := by
  induction p generalizing w with
  | done a => exact hQ
  | perform e next ih =>
    rcases hQ with heq | ⟨hq, hnext⟩
    · exact .inl heq
    · exact .inr ⟨⟨hq, (h hq).1⟩, ih _ (h hq).2 hnext⟩

theorem AsLong.imp (h : AsLong handle Q P p w)
    (hQ : ∀ w e, Q' w e → Q w e) : AsLong handle Q' P p w := by
  induction p generalizing w with
  | done a => trivial
  | perform e next ih => exact fun he => ⟨(h (hQ w e he)).1, ih _ (h (hQ w e he)).2⟩

/-- As long as the effects satisfy `Q` they satisfy `P`, and if all do, the program answers
and leaves what `R` says. -/
structure Yields (handle : Handler E Answer W) (Q P : W → E → Prop) (p : Program E Answer α) (w : W)
    (R : α → W → Prop) : Prop where
  asLong : AsLong handle Q P p w
  post : Along handle Q p w → R (run handle p w).1 (run handle p w).2

theorem yields_pure (h : R a w) :
    Yields handle Q P (pure a : Program E Answer α) w R :=
  ⟨trivial, fun _ => h⟩

theorem Yields.bind (hp : Yields handle Q P p w S)
    (hf : ∀ a w, S a w → Yields handle Q P (f a) w R) : Yields handle Q P (p >>= f) w R where
  asLong := hp.asLong.bind fun hQ => (hf _ _ (hp.post hQ)).asLong
  post hQ := by
    rw [along_bind] at hQ
    rw [run_bind]
    exact (hf _ _ (hp.post hQ.1)).post hQ.2

theorem Yields.mono (hp : Yields handle Q P p w S)
    (hSR : ∀ a w, S a w → R a w) : Yields handle Q P p w R :=
  ⟨hp.asLong, fun hQ => hSR _ _ (hp.post hQ)⟩

theorem yields_call (he : Q w e → P w e ∧ R (handle e w).1 (handle e w).2) :
    Yields handle Q P (call e : Program E Answer (Answer e)) w R :=
  ⟨fun hQ => ⟨(he hQ).1, trivial⟩, fun hQ => (he hQ.1).2⟩

section Embedding

variable {E' : Type} {Answer' : E' → Type} {inj : E' → E} {back : ∀ e, Answer (inj e) → Answer' e}

theorem embed_bind (p : Program E' Answer' α) (f : α → Program E' Answer' β) :
    embed inj back (p >>= f) = (embed inj back p >>= fun a => embed inj back (f a)) := by
  induction p with
  | done a => rfl
  | perform e next ih => exact congrArg (perform (inj e)) (funext fun a => ih (back e a))

theorem Only.embed {A : E → Prop} {A' : E' → Prop} {p : Program E' Answer' α} (hp : Only A' p)
    (hinj : ∀ e, A' e → A (inj e)) : Only A (embed inj back p) := by
  induction p with
  | done a => trivial
  | perform e next ih => exact ⟨hinj e hp.1, fun a => ih _ (hp.2 _)⟩

/-- What holds of every effect of the smaller language holds of every effect performed. -/
theorem always_embed (p : Program E' Answer' α) (hinj : ∀ w e, P w (inj e)) :
    Always handle P (embed inj back p) := by
  induction p with
  | done a => exact always_pure a
  | perform e next ih => exact fun w => ⟨hinj w e, ih _ _⟩

end Embedding

section Loops

variable {xs : List γ} {body : γ → Program E Answer Unit}

/-- A loop whose body satisfies `P` from every world does. -/
theorem along_forEach (hbody : ∀ x ∈ xs, ∀ w, Along handle P (body x) w) :
    Along handle P (forEach xs body) w := by
  induction xs generalizing w with
  | nil => trivial
  | cons x xs ih =>
    apply along_bind.2
    refine ⟨hbody x (by simp) w, ?_⟩
    exact ih fun y hy => hbody y (by simp [hy])

/-- A loop all of whose steps satisfy `Q`, with a body that then satisfies `P` too and keeps
an invariant, as long as the invariant holds. -/
theorem Along.loop
    (hbody : ∀ x ∈ xs, ∀ w, inv w → Along handle Q (body x) w →
      Along handle P (body x) w ∧ inv (run handle (body x) w).2)
    (hloop : Along handle Q (forEach xs body) w) (hw : inv w) :
    Along handle P (forEach xs body) w ∧ inv (run handle (forEach xs body) w).2 := by
  induction xs generalizing w with
  | nil => exact ⟨trivial, hw⟩
  | cons x xs ih =>
    unfold forEach at hloop ⊢
    rw [along_bind] at hloop
    rw [along_bind, run_bind]
    obtain ⟨halong, hinv⟩ := hbody x (by simp) w hw hloop.1
    have hrest := ih (fun y hy => hbody y (by simp [hy])) hloop.2 hinv
    exact ⟨⟨halong, hrest.1⟩, hrest.2⟩

/-- A loop whose body satisfies `P` and keeps an invariant, as long as the invariant
holds. -/
theorem along_forEach_of_inv
    (hbody : ∀ x ∈ xs, ∀ w, inv w → Along handle P (body x) w ∧ inv (run handle (body x) w).2)
    (hw : inv w) : Along handle P (forEach xs body) w ∧ inv (run handle (forEach xs body) w).2 := by
  have hany : Along handle (fun _ _ => True) (forEach xs body) w :=
    along_forEach fun x _ w => (always_trivial (body x)) w
  exact hany.loop (fun x hx w hinv _ => hbody x hx w hinv) hw

section Keeps

variable {G : W → Prop}
  (hbody : ∀ y ∈ xs, ∀ w, inv w → Along handle Q (body y) w → inv (run handle (body y) w).2)
  (hkeep : ∀ y ∈ xs, ∀ w, inv w → G w → Along handle Q (body y) w →
    G (run handle (body y) w).2) (hloop : Along handle Q (forEach xs body) w) (hw : inv w)

include hbody hloop hw

theorem Along.loop_preserves : inv (run handle (forEach xs body) w).2 :=
  (hloop.loop (fun x hx w hw halong => ⟨halong, hbody x hx w hw halong⟩) hw).2

include hkeep

/-- What the body does not undo, as long as the invariant holds, still holds after the loop. -/
theorem Along.loop_keeps (hgoal : G w) : G (run handle (forEach xs body) w).2 := by
  have hboth : ∀ y ∈ xs, ∀ w, inv w ∧ G w → Along handle Q (body y) w →
      inv (run handle (body y) w).2 ∧ G (run handle (body y) w).2 := by
    intro y hy w hw halong
    exact ⟨hbody y hy w hw.1 halong, hkeep y hy w hw.1 hw.2 halong⟩
  exact (hloop.loop_preserves hboth ⟨hw, hgoal⟩).2

/-- What the body establishes at one item, and does not undo at any other, holds after the
loop. -/
theorem Along.loop_establishes (hx : x ∈ xs)
    (hgoal : ∀ w, inv w → Along handle Q (body x) w → G (run handle (body x) w).2) :
    G (run handle (forEach xs body) w).2 := by
  induction xs generalizing w with
  | nil => cases hx
  | cons y ys ih =>
    unfold forEach at hloop ⊢
    rw [along_bind] at hloop
    rw [run_bind]
    have hinv := hbody y (by simp) w hw hloop.1
    rcases mem_cons.1 hx with rfl | hx
    · -- From here on `G` only has to be kept.
      exact hloop.2.loop_keeps (fun z hz => hbody z (by simp [hz]))
        (fun z hz => hkeep z (by simp [hz])) hinv (hgoal w hw hloop.1)
    exact ih (fun z hz => hbody z (by simp [hz])) (fun z hz => hkeep z (by simp [hz])) hloop.2
      hinv hx

end Keeps

/-- What a filtering loop keeps, it was told to keep, in a world where the invariant
holds. -/
theorem mem_run_filterEach {x : γ}
    (hkeep : ∀ x w, inv w → inv (run handle (keep x) w).2) (hw : inv w)
    (hx : x ∈ (run handle (filterEach xs keep) w).1) :
    x ∈ xs ∧ ∃ w', inv w' ∧ (run handle (keep x) w').1 = true := by
  induction xs generalizing w with
  | nil => cases hx
  | cons y ys ih =>
    unfold filterEach at hx
    rw [run_bind, run_bind, run_pure] at hx
    have hrest := @ih _ (hkeep y w hw)
    split at hx
    · rename_i hkept
      rcases mem_cons.1 hx with rfl | hx
      · exact ⟨by simp, w, hw, hkept⟩
      · exact ⟨mem_cons_of_mem _ (hrest hx).1, (hrest hx).2⟩
    · exact ⟨mem_cons_of_mem _ (hrest hx).1, (hrest hx).2⟩

/-- What a collecting loop returns, it found for one of the items. -/
theorem mem_run_collectEach (hfind : ∀ x w, inv w → inv (run handle (find x) w).2) (hw : inv w)
    (hb : b ∈ (run handle (collectEach xs find) w).1) :
    ∃ x ∈ xs, ∃ w', inv w' ∧ (run handle (find x) w').1 = some b := by
  induction xs generalizing w with
  | nil => cases hb
  | cons y ys ih =>
    unfold collectEach at hb
    rw [run_bind, run_bind, run_pure] at hb
    rcases mem_append.1 hb with hb | hb
    · exact ⟨y, by simp, w, hw, Option.mem_toList.1 hb⟩
    obtain ⟨x, hx, hfound⟩ := ih (hfind y w hw) hb
    exact ⟨x, mem_cons_of_mem _ hx, hfound⟩

end Loops

end Program

end Kortecx.Lib
