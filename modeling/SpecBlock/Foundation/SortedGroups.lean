import Mathlib.Data.Nat.Count
import Mathlib.Order.Monotone.Basic

/-!
# Numbering the groups of a sorted sequence

Once a sequence is sorted, equal keys stand together, and a group starts wherever a key
differs from the one before it. Counting the starts up to a position numbers the groups, so two
positions have the same number exactly when their keys are equal.
-/

namespace SpecBlock.SortedGroups

variable {K : Type} [PartialOrder K] {keys : Nat → K} {length : Nat} {starts : Nat → Prop}
  [DecidablePred starts]

/-- A later position has the number of an earlier one exactly when it has its key. -/
theorem count_eq_iff_of_le (rising : ∀ low high, low ≤ high → high < length → keys low ≤ keys high)
    (boundary : ∀ position, position + 1 < length →
      (starts (position + 1) ↔ keys (position + 1) ≠ keys position))
    {low high : Nat} (order : low ≤ high) (inside : high < length) :
    Nat.count starts (low + 1) = Nat.count starts (high + 1) ↔ keys low = keys high := by
  induction high, order using Nat.le_induction with
  | base => simp
  | succ high order ih =>
    have same := ih (Nat.lt_of_succ_lt inside)
    rw [Nat.count_succ starts (high + 1)]
    by_cases start : starts (high + 1)
    · have fewer : Nat.count starts (low + 1) ≤ Nat.count starts (high + 1) :=
        Nat.count_monotone starts (Nat.succ_le_succ order)
      have below := rising low high order (Nat.lt_of_succ_lt inside)
      have up := (rising high (high + 1) (Nat.le_succ high) inside).lt_of_ne
        ((boundary high inside).mp start).symm
      rw [if_pos start]
      constructor
      · intro equal
        omega
      · intro equal
        exact absurd (equal ▸ below.trans_lt up) (lt_irrefl _)
    · have unchanged : keys (high + 1) = keys high := by
        by_contra different
        exact start ((boundary high inside).mpr different)
      rw [if_neg start, Nat.add_zero, unchanged]
      exact same

/-- Two positions have the same number exactly when they have the same key. -/
theorem count_eq_iff (rising : ∀ low high, low ≤ high → high < length → keys low ≤ keys high)
    (boundary : ∀ position, position + 1 < length →
      (starts (position + 1) ↔ keys (position + 1) ≠ keys position))
    {first second : Nat} (inside : first < length) (inside' : second < length) :
    Nat.count starts (first + 1) = Nat.count starts (second + 1) ↔ keys first = keys second := by
  rcases Nat.le_total first second with order | order
  · exact count_eq_iff_of_le rising boundary order inside'
  · rw [eq_comm, count_eq_iff_of_le rising boundary order inside, eq_comm]

end SpecBlock.SortedGroups
