import Mathlib.Data.List.Basic

/-!
# A memory with a live prefix

A buffer of which only the first cells are live: values are appended behind the live
ones, and the last ones are dropped by lowering the count. What lies behind the count is
whatever was written there before.

A memory holds a list of values when the list is its live prefix.
-/

namespace SpecBlock

universe u

/-- A buffer and the number of its live cells; a cell that was not written holds nothing. -/
structure LivePrefix (α : Type u) where
  cells : Nat → Option α
  count : Nat

namespace LivePrefix

variable {α : Type u} {memory : LivePrefix α} {values kept last : List α}

/-- A memory that was never written. -/
def blank : LivePrefix α := ⟨fun _ => none, 0⟩

/-- Write values behind the live ones. -/
def append (memory : LivePrefix α) (values : List α) : LivePrefix α where
  cells := fun cell =>
    if memory.count ≤ cell ∧ cell - memory.count < values.length then values[cell - memory.count]?
    else memory.cells cell
  count := memory.count + values.length

/-- Drop the last live values. -/
def retract (memory : LivePrefix α) (dropped : Nat) : LivePrefix α :=
  { memory with count := memory.count - dropped }

/-- The live cells hold the given values. -/
structure Holds (memory : LivePrefix α) (values : List α) : Prop where
  counted : memory.count = values.length
  stored : ∀ cell, cell < values.length → memory.cells cell = values[cell]?

theorem holds_blank : (blank : LivePrefix α).Holds [] :=
  ⟨rfl, fun _ inside => absurd inside (Nat.not_lt_zero _)⟩

theorem Holds.append (holds : memory.Holds kept) (values : List α) :
    (memory.append values).Holds (kept ++ values) := by
  have counted := holds.counted
  constructor
  · show memory.count + values.length = _
    rw [List.length_append, counted]
  · intro cell inside
    rw [List.length_append] at inside
    show (if _ then _ else _) = _
    by_cases early : cell < kept.length
    · rw [if_neg (by omega), holds.stored cell early, List.getElem?_append_left early]
    · rw [if_pos (by omega), counted, List.getElem?_append_right (by omega)]

theorem Holds.retract (holds : memory.Holds (kept ++ last)) :
    (memory.retract last.length).Holds kept := by
  constructor
  · show memory.count - last.length = _
    rw [holds.counted, List.length_append, Nat.add_sub_cancel]
  · intro cell inside
    show memory.cells cell = _
    rw [holds.stored cell (by rw [List.length_append]; omega), List.getElem?_append_left inside]

end LivePrefix

end SpecBlock
