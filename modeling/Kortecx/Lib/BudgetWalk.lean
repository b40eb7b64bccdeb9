import Mathlib.Tactic

/-!
A depth-first walk over frames on a stack, with a budget of edges. Each edge that is looked
at costs one; an edge leads to a new frame or nowhere. What matters of such a walk is the
list of the frames it makes, in the order in which it makes them: two walks whose frames
correspond make corresponding lists, and what every edge preserves holds of every frame.
-/

namespace Kortecx.Lib

open List

variable {σ τ ε : Type}

section Walk

variable (edges : σ → List ε) (next : σ → ε → Option σ)

/-- The frames made by the edges of a frame, and what is left of the budget. -/
def expand (s : σ) : Nat → List ε → List σ × Nat
  | budget, [] => ([], budget)
  | 0, _ :: _ => ([], 0)
  | budget + 1, e :: es =>
    match next s e with
    | none => expand s budget es
    | some child => (child :: (expand s budget es).1, (expand s budget es).2)

/-- The frames made from the frames on the stack. -/
def walk : Nat → Nat → List σ → List σ
  | 0, _, _ => []
  | _ + 1, _, [] => []
  | fuel + 1, budget, s :: stack =>
    (expand next s budget (edges s)).1 ++
      walk fuel (expand next s budget (edges s)).2
        ((expand next s budget (edges s)).1.reverse ++ stack)

end Walk

section Facts

variable {edges : σ → List ε} {next : σ → ε → Option σ}

theorem length_expand_le (s : σ) (budget : Nat) (es : List ε) :
    (expand next s budget es).1.length + (expand next s budget es).2 ≤ budget := by
  induction es generalizing budget with
  | nil => cases budget <;> simp [expand]
  | cons e es ih =>
    cases budget with
    | zero => simp [expand]
    | succ budget =>
      have hrest := ih budget
      cases hnext : next s e with
      | none =>
        simp only [expand, hnext]
        omega
      | some child =>
        simp only [expand, hnext, length_cons]
        omega

/-- Without budget no frame is made. -/
theorem expand_zero (s : σ) (es : List ε) : expand next s 0 es = ([], 0) := by
  cases es <;> rfl

theorem walk_zero (fuel : Nat) (stack : List σ) : walk edges next fuel 0 stack = [] := by
  induction fuel generalizing stack with
  | zero => rfl
  | succ fuel ih =>
    cases stack with
    | nil => rfl
    | cons s stack => simp [walk, expand_zero, ih]

theorem walk_nil (fuel budget : Nat) : walk edges next fuel budget [] = [] := by
  cases fuel <;> rfl

variable {stack : List σ}

/-- Every frame taken off the stack was put there for a unit of the budget, so as much fuel
as there are frames and units is enough. -/
theorem walk_of_le (hfuel : budget + stack.length ≤ fuel) (hfuel' : budget + stack.length ≤ fuel') :
    walk edges next fuel budget stack = walk edges next fuel' budget stack := by
  induction fuel generalizing fuel' budget stack with
  | zero =>
    have hstack : stack = [] := length_eq_zero_iff.1 (by omega)
    rw [hstack, walk_nil, walk_nil]
  | succ fuel ih =>
    cases stack with
    | nil => rw [walk_nil, walk_nil]
    | cons s stack =>
      cases fuel' with
      | zero => simp at hfuel'
      | succ fuel' =>
        have hlen : (expand next s budget (edges s)).1.length +
            (expand next s budget (edges s)).2 ≤ budget :=
          length_expand_le s budget (edges s)
        simp only [length_cons] at hfuel hfuel'
        simp only [walk]
        apply congrArg
        apply ih
        all_goals
          simp only [length_append, length_reverse]
          omega

variable {P : σ → Prop} {fuel budget : Nat}

/-- A frame that is made is made by an edge of a frame, of which all holds that the edges
preserve. -/
theorem exists_of_mem_walk
    (hnext : ∀ s e child, P s → e ∈ edges s → next s e = some child → P child)
    (hstack : ∀ s ∈ stack, P s) :
    ∀ child ∈ walk edges next fuel budget stack,
      ∃ s, P s ∧ ∃ e ∈ edges s, next s e = some child := by
  have hexpand : ∀ s, ∀ es ⊆ edges s, ∀ budget, ∀ child ∈ (expand next s budget es).1,
      ∃ e ∈ edges s, next s e = some child := by
    intro s es
    induction es with
    | nil =>
      intro _ budget child hchild
      cases budget <;> simp [expand] at hchild
    | cons e es ih =>
      intro hsub budget child hchild
      have hrest := ih fun e' he' => hsub (mem_cons_of_mem _ he')
      cases budget with
      | zero => simp [expand] at hchild
      | succ budget =>
        cases hmade : next s e with
        | none =>
          simp only [expand, hmade] at hchild
          exact hrest budget child hchild
        | some made =>
          simp only [expand, hmade, mem_cons] at hchild
          rcases hchild with rfl | hchild
          · exact ⟨e, hsub (mem_cons_self ..), hmade⟩
          · exact hrest budget child hchild
  induction fuel generalizing budget stack with
  | zero => simp [walk]
  | succ fuel ih =>
    cases stack with
    | nil => simp [walk]
    | cons s stack =>
      have hs := hstack s (mem_cons_self ..)
      have hchildren := hexpand s (edges s) (List.Subset.refl _) budget
      intro child hchild
      simp only [walk, mem_append] at hchild
      rcases hchild with hfirst | hlater
      · exact ⟨s, hs, hchildren child hfirst⟩
      refine ih ?_ child hlater
      intro s' hs'
      rcases mem_append.1 hs' with hmade | hold
      · obtain ⟨e, he, hnext'⟩ := hchildren s' (mem_reverse.1 hmade)
        exact hnext s e s' hs he hnext'
      · exact hstack s' (mem_cons_of_mem _ hold)

/-- Walks over frames that correspond make frames that correspond. -/
theorem map_walk {edges' : τ → List ε} {next' : τ → ε → Option τ} {f : σ → τ}
    (hedges : ∀ s, P s → edges' (f s) = edges s)
    (hmap : ∀ s e, P s → next' (f s) e = (next s e).map f)
    (hnext : ∀ s e child, P s → next s e = some child → P child) (hstack : ∀ s ∈ stack, P s) :
    (walk edges next fuel budget stack).map f = walk edges' next' fuel budget (stack.map f) := by
  have hexpand : ∀ s, P s → ∀ es budget,
      ((expand next s budget es).1.map f, (expand next s budget es).2) =
        expand next' (f s) budget es ∧ ∀ child ∈ (expand next s budget es).1, P child := by
    intro s hs es
    induction es with
    | nil =>
      intro budget
      cases budget <;> simp [expand]
    | cons e es ih =>
      intro budget
      cases budget with
      | zero => simp [expand]
      | succ budget =>
        obtain ⟨hsame, hkept⟩ := ih budget
        cases hmade : next s e with
        | none =>
          simp only [expand, hmade, hmap s e hs, Option.map_none]
          exact ⟨hsame, hkept⟩
        | some made =>
          simp only [expand, hmade, hmap s e hs, Option.map_some, ← hsame, map_cons,
            mem_cons]
          refine ⟨trivial, ?_⟩
          rintro child (rfl | hchild)
          · exact hnext s e child hs hmade
          · exact hkept child hchild
  induction fuel generalizing budget stack with
  | zero => rfl
  | succ fuel ih =>
    cases stack with
    | nil => rfl
    | cons s stack =>
      have hs := hstack s (mem_cons_self ..)
      obtain ⟨hsame, hkept⟩ := hexpand s hs (edges s) budget
      simp only [walk, map_cons, hedges s hs, ← hsame, map_append]
      rw [ih, map_append, map_reverse]
      intro s' hs'
      rcases mem_append.1 hs' with hchild | hold
      · exact hkept s' (mem_reverse.1 hchild)
      · exact hstack s' (mem_cons_of_mem _ hold)

end Facts

end Kortecx.Lib
