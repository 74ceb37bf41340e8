import Mathlib.Logic.Function.Basic
import Mathlib.Data.List.Basic

/-!
# Overwritten buffers and recently used entries

A buffer of a fixed size is used again and again: its first cells are overwritten and the cells
behind them are cleared. What it held before can then no longer be read. A buffer is a function of
the cell; its size is kept by whoever reads it.

A table of limited capacity names an entry for every key that was looked up recently. An entry that
leaves the table is gone: looking its key up again makes a new one.
-/

namespace SpecBlock

universe u v

section Overwrites

variable {α : Type u}

/-- Overwrite the cells below a bound. -/
def writeBelow (bound : Nat) (source held : Nat → α) : Nat → α :=
  fun cell => if cell < bound then source cell else held cell

/-- Clear the cells from a bound on. -/
def clearFrom (bound : Nat) (cleared : α) (held : Nat → α) : Nat → α :=
  fun cell => if bound ≤ cell then cleared else held cell

/-- An overwritten and cleared buffer holds nothing of before. -/
theorem clearFrom_writeBelow (bound : Nat) (cleared : α) (source held : Nat → α) :
    clearFrom bound cleared (writeBelow bound source held) =
      fun cell => if cell < bound then source cell else cleared := by
  funext cell
  by_cases below : cell < bound
  · have notFrom : ¬ bound ≤ cell := by omega
    simp only [clearFrom, writeBelow, below, notFrom, if_true, if_false]
  · have fromBound : bound ≤ cell := by omega
    simp only [clearFrom, below, fromBound, if_true, if_false]

end Overwrites

section RecentlyUsed

variable {κ : Type v} [DecidableEq κ]

/-- Keys with the names of their entries, the most recent one first, and the next new name. -/
structure RecentlyUsed (κ : Type v) where
  entries : List (κ × Nat)
  next : Nat

namespace RecentlyUsed

/-- Look a key up: a held entry becomes the most recent one, and a key without an entry gets a new
one, for which the oldest has to leave. -/
def lookup (capacity : Nat) (table : RecentlyUsed κ) (key : κ) : Nat × RecentlyUsed κ :=
  match table.entries.find? (fun entry => entry.1 = key) with
  | some entry => (entry.2, { table with entries := entry :: table.entries.erase entry })
  | none => (table.next,
      { entries := ((key, table.next) :: table.entries).take capacity, next := table.next + 1 })

/-- An entry is in the table. -/
def Holds (table : RecentlyUsed κ) (name : Nat) : Prop := name ∈ table.entries.map Prod.snd

instance (table : RecentlyUsed κ) (name : Nat) : Decidable (table.Holds name) :=
  inferInstanceAs (Decidable (name ∈ table.entries.map Prod.snd))

theorem lookup_holds {capacity : Nat} (positive : 0 < capacity) (table : RecentlyUsed κ) (key : κ) :
    (table.lookup capacity key).2.Holds (table.lookup capacity key).1 := by
  obtain ⟨smaller, rfl⟩ : ∃ smaller, capacity = smaller + 1 := ⟨capacity - 1, by omega⟩
  unfold lookup
  cases found : table.entries.find? (fun entry => entry.1 = key) with
  | some entry => simp [Holds]
  | none => simp [Holds]

end RecentlyUsed

end RecentlyUsed

end SpecBlock
