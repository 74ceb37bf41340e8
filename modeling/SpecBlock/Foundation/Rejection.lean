import Mathlib.Algebra.Order.Field.Basic
import SpecBlock.Foundation.FiniteLaw

/-!
# Sequential rejection

Proposals are tested one after the other against a weight function. What earlier
rejections leave is the weight outside the rejected tokens; testing a proposal
with its share of that weight moves its own weight from the left part to the
outcome and nothing else. A test divides by the left weight, so a proposal of
positive weight is tested exactly only while that weight is not below the
smallest divisor used.
-/

namespace SpecBlock.Rejection

variable (weights : Nat → ℚ)

/-- Weights outside the rejected tokens. -/
def left (rejected : List Nat) (token : Nat) : ℚ := if token ∈ rejected then 0 else weights token

/-- Total left weight below a size. -/
def leftMass (size : Nat) (rejected : List Nat) : ℚ :=
  ∑ token ∈ Finset.range size, left weights rejected token

/-- Left weight averages of a function. -/
def leftSum (size : Nat) (rejected : List Nat) (value : Nat → ℚ) : ℚ :=
  ∑ token ∈ Finset.range size, left weights rejected token * value token

/-- Every proposal of positive weight is tested while enough weight is left. -/
def Resolved (smallest : ℚ) : ℚ → List Nat → Prop
  | _, [] => True
  | remaining, token :: tokens =>
      (0 < weights token → smallest ≤ remaining) ∧
        Resolved smallest (remaining - weights token) tokens

variable {weights}

theorem leftSum_append (size : Nat) (rejected : List Nat) (token : Nat) (value : Nat → ℚ)
    (inside : token < size) (fresh : token ∉ rejected) :
    leftSum weights size (rejected ++ [token]) value =
      leftSum weights size rejected value - weights token * value token := by
  have share : ∑ other ∈ Finset.range size,
      (left weights rejected other * value other -
        left weights (rejected ++ [token]) other * value other) = weights token * value token := by
    rw [Finset.sum_eq_single_of_mem token (Finset.mem_range.mpr inside)]
    · simp [left, fresh]
    · intro other _ different
      simp [left, different]
  rw [Finset.sum_sub_distrib] at share
  unfold leftSum
  linarith

theorem leftMass_eq (size : Nat) (rejected : List Nat) :
    leftMass weights size rejected = leftSum weights size rejected (fun _ => 1) := by
  simp [leftMass, leftSum]

theorem leftMass_append (size : Nat) (rejected : List Nat) (token : Nat) (inside : token < size)
    (fresh : token ∉ rejected) :
    leftMass weights size (rejected ++ [token]) =
      leftMass weights size rejected - weights token := by
  rw [leftMass_eq, leftMass_eq, leftSum_append size rejected token _ inside fresh, mul_one]

section nonnegative

variable (nonnegative : ∀ token, 0 ≤ weights token)
include nonnegative

theorem left_nonneg (rejected : List Nat) (token : Nat) : 0 ≤ left weights rejected token := by
  unfold left
  split
  · exact le_refl _
  · exact nonnegative token

theorem leftMass_nonneg (size : Nat) (rejected : List Nat) :
    0 ≤ leftMass weights size rejected :=
  Finset.sum_nonneg fun token _ => left_nonneg nonnegative rejected token

theorem le_leftMass (size : Nat) (rejected : List Nat) (token : Nat) (inside : token < size)
    (fresh : token ∉ rejected) : weights token ≤ leftMass weights size rejected := by
  have rest := leftMass_nonneg nonnegative size (rejected ++ [token])
  rw [leftMass_append size rejected token inside fresh] at rest
  linarith

theorem leftSum_eq_zero (size : Nat) (rejected : List Nat) (value : Nat → ℚ)
    (empty : leftMass weights size rejected = 0) : leftSum weights size rejected value = 0 := by
  have each := (Finset.sum_eq_zero_iff_of_nonneg
    (fun token _ => left_nonneg nonnegative rejected token)).mp empty
  exact Finset.sum_eq_zero fun token member => by rw [each token member, zero_mul]

/-- Testing one fresh proposal with its share of the left weight. The average
over acceptance and the rest is the average before the test. -/
theorem test_average (size : Nat) (rejected : List Nat) (token : Nat) (value : Nat → ℚ)
    (smallest rest : ℚ) (inside : token < size) (fresh : token ∉ rejected)
    (positive : 0 < leftMass weights size rejected)
    (resolved : 0 < weights token → smallest ≤ leftMass weights size rejected)
    (later : 0 < leftMass weights size (rejected ++ [token]) →
      leftMass weights size (rejected ++ [token]) * rest =
        leftSum weights size (rejected ++ [token]) value) :
    leftMass weights size rejected *
        ((Law.uniformLe (weights token / max (leftMass weights size rejected) smallest)).expect
          (fun take => if take then value token else rest)) =
      leftSum weights size rejected value := by
  have bound := le_leftMass nonnegative size rejected token inside fresh
  have share : weights token / max (leftMass weights size rejected) smallest =
      weights token / leftMass weights size rejected := by
    rcases (nonnegative token).eq_or_lt with zero | some_weight
    · simp [← zero]
    · rw [max_eq_left (resolved some_weight)]
  have unit : weights token / leftMass weights size rejected ≤ 1 := (div_le_one positive).mpr bound
  have positivity : 0 ≤ weights token / leftMass weights size rejected :=
    div_nonneg (nonnegative token) positive.le
  rw [share, Law.expect_uniformLe _ _ positivity unit]
  have mass := @leftMass_append weights size rejected token inside fresh
  have sums := @leftSum_append weights size rejected token value inside fresh
  have scaled : leftMass weights size rejected *
      (weights token / leftMass weights size rejected * value token +
        (1 - weights token / leftMass weights size rejected) * rest) =
      weights token * value token +
        leftMass weights size (rejected ++ [token]) * rest := by
    rw [mass]
    field_simp
  simp only [if_true, Bool.false_eq_true, if_false]
  rw [scaled]
  rcases (leftMass_nonneg nonnegative size (rejected ++ [token])).eq_or_lt with empty | some_left
  · have vanished := leftSum_eq_zero nonnegative size (rejected ++ [token]) value empty.symm
    rw [← empty]
    linarith
  · rw [later some_left]
    linarith

/-- Proposals whose positive weights are all at least the smallest divisor are
resolved: each of them is itself still left when it is tested. -/
theorem resolved_of_normal (smallest : ℚ) (size : Nat) (rejected tokens : List Nat)
    (normal : ∀ token, 0 < weights token → smallest ≤ weights token)
    (inside : ∀ token ∈ tokens, token < size) (distinct : tokens.Nodup)
    (fresh : ∀ token ∈ tokens, token ∉ rejected) :
    Resolved weights smallest (leftMass weights size rejected) tokens := by
  induction tokens generalizing rejected with
  | nil => trivial
  | cons token tokens ih =>
    obtain ⟨absent, others⟩ := List.nodup_cons.mp distinct
    have bound := inside token List.mem_cons_self
    have unseen := fresh token List.mem_cons_self
    refine ⟨fun some_weight => (normal token some_weight).trans
      (le_leftMass nonnegative size rejected token bound unseen), ?_⟩
    rw [← leftMass_append size rejected token bound unseen]
    refine ih (rejected ++ [token])
      (fun other member => inside other (List.mem_cons_of_mem _ member)) others ?_
    intro other member
    rw [List.mem_append, List.mem_singleton, not_or]
    exact ⟨fresh other (List.mem_cons_of_mem _ member), fun same => absent (same ▸ member)⟩

end nonnegative

end SpecBlock.Rejection
