import Mathlib.Tactic

/-!
Facts about a history of events that depend on what came before: an event of some kind
happened at a point where the earlier events had some property. Such a fact stays true
of every longer history, and one more event adds at most the occurrence at the end.
-/

namespace Kortecx.Lib

open List

variable {α : Type} {R : List α → α → Prop} {events : List α}

/-- Somewhere in the history, `R` holds of an event and the events before it. -/
def Occurs (R : List α → α → Prop) (events : List α) : Prop :=
  ∃ before event after, events = before ++ event :: after ∧ R before event

theorem occurs_nil : ¬ Occurs R [] := by
  rintro ⟨before, event, after, hsplit, _⟩
  simp at hsplit

theorem occurs_concat :
    Occurs R (events ++ [event]) ↔ Occurs R events ∨ R events event := by
  constructor
  · rintro ⟨before, found, after, hsplit, hfound⟩
    rcases eq_nil_or_concat after with rfl | ⟨after, last, rfl⟩
    · obtain ⟨rfl, hlast⟩ := append_inj' hsplit rfl
      cases hlast
      exact .inr hfound
    rw [concat_eq_append, ← cons_append, ← append_assoc] at hsplit
    obtain ⟨rfl, _⟩ := append_inj' hsplit rfl
    exact .inl ⟨before, found, after, rfl, hfound⟩
  · rintro (⟨before, found, after, rfl, hfound⟩ | hlast)
    · exact ⟨before, found, after ++ [event], by simp, hfound⟩
    · exact ⟨events, event, [], rfl, hlast⟩

/-- What has occurred has occurred in every longer history. -/
theorem Occurs.of_isPrefix (hoccurs : Occurs R events)
    (hextends : events <+: longer) : Occurs R longer := by
  obtain ⟨before, event, after, rfl, hevent⟩ := hoccurs
  obtain ⟨rest, rfl⟩ := hextends
  exact ⟨before, event, after ++ rest, by simp, hevent⟩

end Kortecx.Lib
