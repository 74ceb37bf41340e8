import Mathlib.Data.List.Nodup
import Mathlib.Data.List.Perm.Basic
import Mathlib.Data.List.Range

/-!
# A ledger of numbered slots

An allocator hands out numbered slots from a free list, keeps slot 0 to itself
and may grow at the top. A ledger entry relates two states of the allocator and
the slots its callers hold before and after: slots move between the free list
and the callers, fresh ones come from growth, and nothing else happens. Entries
compose and can be framed by slots that do not take part.

An allocator is whole when its free list and the held slots are every slot but
the reserved one, each once. A ledger entry keeps a whole allocator whole, and a
whole allocator has exclusive owners.
-/

namespace SpecBlock

/-- What ownership depends on in an allocator: its free list, its size and how
many slots it counts as handed out. -/
structure SlotState where
  free : List Nat
  size : Nat
  issued : Int

/-- Callers held `before` in the first state and hold `after` in the second. -/
structure Ledger (first second : SlotState) (before after : List Nat) : Prop where
  wider : first.size ≤ second.size
  placed : (second.free ++ after).Perm
    (first.free ++ before ++ List.range' first.size (second.size - first.size))
  counted : second.issued - after.length = first.issued - before.length

namespace Ledger

variable {first second third : SlotState} {before between after others : List Nat}

theorem refl (state : SlotState) (held : List Nat) : Ledger state state held held :=
  ⟨Nat.le_refl _, by simp, rfl⟩

theorem trans (earlier : Ledger first second before between)
    (later : Ledger second third between after) : Ledger first third before after := by
  constructor
  · exact Nat.le_trans earlier.wider later.wider
  · have grown : List.range' first.size (third.size - first.size) =
        List.range' first.size (second.size - first.size) ++
          List.range' second.size (third.size - second.size) := by
      have middle : second.size = first.size + (second.size - first.size) :=
        (Nat.add_sub_cancel' earlier.wider).symm
      rw [show third.size - first.size =
        (second.size - first.size) + (third.size - second.size) by
          have := earlier.wider; have := later.wider; omega, ← List.range'_append_1, ← middle]
    apply List.perm_iff_count.mpr
    intro slot
    have earlierCount := List.perm_iff_count.mp earlier.placed slot
    have laterCount := List.perm_iff_count.mp later.placed slot
    simp only [grown, List.count_append] at earlierCount laterCount ⊢
    omega
  · exact later.counted.trans earlier.counted

theorem frame (entry : Ledger first second before after) (others : List Nat) :
    Ledger first second (before ++ others) (after ++ others) := by
  constructor
  · exact entry.wider
  · apply List.perm_iff_count.mpr
    intro slot
    have count := List.perm_iff_count.mp entry.placed slot
    simp only [List.count_append] at count ⊢
    omega
  · have counted := entry.counted
    simp only [List.length_append]
    omega

/-- The order in which held slots are listed does not matter. -/
theorem reorder {before' after' : List Nat} (entry : Ledger first second before after)
    (sameBefore : before.Perm before') (sameAfter : after.Perm after') :
    Ledger first second before' after' := by
  constructor
  · exact entry.wider
  · exact ((sameAfter.symm.append_left _).trans entry.placed).trans
      ((sameBefore.append_left _).append_right _)
  · rw [← sameBefore.length_eq, ← sameAfter.length_eq]
    exact entry.counted

end Ledger

/-- The free list and the held slots are every slot but slot 0, each once, and
the allocator counts the held ones. -/
structure Whole (state : SlotState) (held : List (List Nat)) : Prop where
  reserved : 0 < state.size
  placed : (state.free ++ held.flatten).Perm (List.range' 1 (state.size - 1))
  counted : state.issued = held.flatten.length

namespace Whole

variable {state first second : SlotState} {held after : List (List Nat)}

theorem initial (size : Nat) (reserved : 0 < size) :
    Whole ⟨List.range' 1 (size - 1), size, 0⟩ [] :=
  ⟨reserved, by simp, rfl⟩

theorem entry (whole : Whole first held)
    (moved : Ledger first second held.flatten after.flatten) : Whole second after := by
  constructor
  · exact Nat.lt_of_lt_of_le whole.reserved moved.wider
  · have grown : List.range' 1 (second.size - 1) =
        List.range' 1 (first.size - 1) ++
          List.range' first.size (second.size - first.size) := by
      have start : first.size = 1 + (first.size - 1) := by have := whole.reserved; omega
      rw [show second.size - 1 = (first.size - 1) + (second.size - first.size) by
        have := whole.reserved; have := moved.wider; omega, ← List.range'_append_1, ← start]
    rw [grown]
    exact moved.placed.trans (whole.placed.append_right _)
  · have counted := moved.counted
    have before := whole.counted
    omega

theorem nodup (whole : Whole state held) : (state.free ++ held.flatten).Nodup :=
  whole.placed.nodup_iff.mpr List.nodup_range'

theorem free_nodup (whole : Whole state held) : state.free.Nodup :=
  (List.nodup_append.mp whole.nodup).1

theorem holder_nodup (whole : Whole state held) {holder : List Nat} (member : holder ∈ held) :
    holder.Nodup :=
  (List.nodup_flatten.mp (List.nodup_append.mp whole.nodup).2.1).1 holder member

theorem holders_disjoint (whole : Whole state held) : held.Pairwise List.Disjoint :=
  (List.nodup_flatten.mp (List.nodup_append.mp whole.nodup).2.1).2

theorem holder_not_free (whole : Whole state held) {holder : List Nat} (member : holder ∈ held) :
    List.Disjoint holder state.free := by
  intro slot inHolder inFree
  have inHeld : slot ∈ held.flatten := List.mem_flatten.mpr ⟨holder, member, inHolder⟩
  exact (List.nodup_append.mp whole.nodup).2.2 slot inFree slot inHeld rfl

theorem covered (whole : Whole state held) (slot : Nat) :
    (slot ∈ state.free ∨ ∃ holder ∈ held, slot ∈ holder) ↔ 1 ≤ slot ∧ slot < state.size := by
  have member := whole.placed.mem_iff (a := slot)
  simp only [List.mem_append, List.mem_flatten, List.mem_range'_1] at member
  rw [member]
  have := whole.reserved
  omega

end Whole

end SpecBlock
