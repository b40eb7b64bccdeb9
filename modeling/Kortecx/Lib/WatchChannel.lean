import Mathlib.Tactic

/-!
A single-slot watch channel: a sender keeps one value and counts how often it was
modified, and each receiver remembers the count it has seen. A receiver waits until
the counts differ, so modifications it missed are reported once, together.

`raise` is the use of such a channel as a watermark, which only ever goes up.
-/

namespace Kortecx.Lib.WatchChannel

structure Channel (α : Type) where
  value : α
  version : Nat
deriving DecidableEq

structure Receiver where
  seen : Nat
deriving DecidableEq

variable {α : Type}

def Channel.new (value : α) : Channel α := ⟨value, 0⟩

/-- Receivers are notified only when `modify` returns a new value. -/
def Channel.sendIfModified (c : Channel α) (modify : α → Option α) : Channel α :=
  match modify c.value with
  | some value => ⟨value, c.version + 1⟩
  | none => c

/-- A new receiver has seen the current value. -/
def Channel.subscribe (c : Channel α) : Receiver := ⟨c.version⟩

/-- Wait for a modification and mark the latest one as seen; `none` while there is
none to report. -/
def Receiver.changed (r : Receiver) (c : Channel α) : Option Receiver :=
  if r.seen = c.version then none else some ⟨c.version⟩

variable [LT α] [DecidableLT α]

def Channel.raise (c : Channel α) (value : α) : Channel α :=
  c.sendIfModified fun current => if current < value then some value else none

variable {c : Channel α}

theorem raise_of_lt (hlt : c.value < value) :
    c.raise value = ⟨value, c.version + 1⟩ := by
  unfold Channel.raise Channel.sendIfModified
  simp [hlt]

theorem raise_of_not_lt (hlt : ¬ c.value < value) :
    c.raise value = c := by
  unfold Channel.raise Channel.sendIfModified
  simp [hlt]

/-- Either the watermark goes up to `value` and every receiver has something to see,
or nothing changes. -/
theorem raise_cases (c : Channel α) (value : α) :
    (c.value < value ∧ c.raise value = ⟨value, c.version + 1⟩) ∨
      (¬ c.value < value ∧ c.raise value = c) := by
  by_cases hlt : c.value < value
  · exact .inl ⟨hlt, raise_of_lt hlt⟩
  · exact .inr ⟨hlt, raise_of_not_lt hlt⟩

end Kortecx.Lib.WatchChannel
