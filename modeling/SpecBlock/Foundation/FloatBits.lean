import Mathlib.Algebra.Ring.Nat
import Mathlib.Data.Int.Order.Basic
import Mathlib.Order.Basic

/-!
# Numbers of a single-precision format by their bits

A number of the format is a sign and a magnitude, the infinities having the largest
magnitude. Comparing numbers is comparing signed magnitudes, so that the two zeros are equal.
Read as a pattern of bits, a number is its magnitude, with the top bit set for a negative one.

Patterns of numbers that are not negative are in the order of the numbers. Negating a number
that is not positive therefore turns the falling order of numbers into the rising order of
patterns; subtraction from zero is used for it, which never gives a negative zero.
-/

namespace SpecBlock.FloatBits

/-- The magnitude of the infinities, `0x7F800000`. -/
def infinity : Nat := 2139095040

/-- A single-precision value that is a number. -/
structure Number where
  negative : Bool
  magnitude : Nat
  number : magnitude ≤ infinity
  deriving DecidableEq, Repr

namespace Number

/-- The signed magnitude. -/
def value (number : Number) : Int :=
  if number.negative then -(number.magnitude : Int) else number.magnitude

/-- Numbers compare as their signed magnitudes do; the two zeros are equivalent. -/
instance : Preorder Number := @Preorder.lift Number Int Int.instLinearOrder.toPreorder value

instance (first second : Number) : Decidable (first ≤ second) :=
  inferInstanceAs (Decidable (first.value ≤ second.value))

instance (first second : Number) : Decidable (first < second) :=
  inferInstanceAs (Decidable (first.value < second.value))

/-- Minus infinity. -/
def negInfinity : Number := ⟨true, infinity, Nat.le_refl _⟩

/-- The negative number of a magnitude, the infinite one at most. -/
def minus (magnitude : Nat) : Number := ⟨true, min magnitude infinity, Nat.min_le_right _ _⟩

/-- Positive zero. -/
def plusZero : Number := ⟨false, 0, Nat.zero_le _⟩

/-- The pattern of bits. -/
def bits (number : Number) : Nat :=
  (if number.negative then 2 ^ 31 else 0) + number.magnitude

/-- Subtraction from zero. -/
def negate (number : Number) : Number where
  negative := !number.negative && number.magnitude ≠ 0
  magnitude := number.magnitude
  number := number.number

theorem bits_positive_zero {number : Number} :
    number.bits = 0 ↔ number.negative = false ∧ number.magnitude = 0 := by
  cases sign : number.negative <;> simp [bits, sign]

theorem bits_negative_zero {number : Number} :
    number.bits = 2147483648 ↔ number.negative = true ∧ number.magnitude = 0 := by
  have bound := number.number
  unfold infinity at bound
  cases sign : number.negative with
  | true => simp [bits, sign]
  | false =>
    simp only [bits, sign, Bool.false_eq_true, if_false, false_and, iff_false]
    omega

theorem value_of_zero {number : Number} (zero : number.magnitude = 0) : number.value = 0 := by
  simp [value, zero]

theorem lt_iff {first second : Number} : first < second ↔ first.value < second.value := Iff.rfl

theorem le_iff {first second : Number} : first ≤ second ↔ first.value ≤ second.value := Iff.rfl

theorem value_of_nonpositive {number : Number} (nonpositive : number.value ≤ 0) :
    number.value = -(number.magnitude : Int) := by
  unfold value at nonpositive ⊢
  split at nonpositive <;> split <;> simp_all

/-- Negating a number that is not positive leaves the pattern of its magnitude. -/
theorem negate_bits {number : Number} (nonpositive : number.value ≤ 0) :
    number.negate.bits = number.magnitude := by
  cases sign : number.negative with
  | true => simp [negate, bits, sign]
  | false =>
    have zero : number.magnitude = 0 := by
      simp only [value, sign, Bool.false_eq_true, if_false] at nonpositive
      omega
    simp [negate, bits, sign, zero]

/-- Among numbers that are not positive, the smaller one has the larger magnitude. -/
theorem lt_iff_magnitude {first second : Number} (nonpositive : first.value ≤ 0)
    (nonpositive' : second.value ≤ 0) : first < second ↔ second.magnitude < first.magnitude := by
  rw [lt_iff, value_of_nonpositive nonpositive, value_of_nonpositive nonpositive']
  omega

theorem negInfinity_nonpositive : negInfinity.value ≤ 0 := by decide

theorem negInfinity_le (number : Number) : negInfinity ≤ number := by
  have bound := number.number
  have least : negInfinity.value = -(infinity : Int) := rfl
  rw [le_iff, least]
  unfold value
  split <;> omega

theorem ne_negInfinity_of_lt {low high : Number} (less : low < high) : high ≠ negInfinity := by
  rintro rfl
  exact absurd less (not_lt_of_ge (negInfinity_le low))

end Number

end SpecBlock.FloatBits
