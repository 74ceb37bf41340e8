import Mathlib.Algebra.BigOperators.Group.List.Basic
import Mathlib.Algebra.Field.Basic
import Mathlib.Order.Lattice

/-!
# Exact arithmetic with infinities and NaN

A number is exact, one of the two infinities or not a number, and the operations treat the
last three as the floating-point standard says: an infinity less itself, zero times an
infinity and zero by zero are not numbers, and whatever meets such a value becomes one. The
maximum alone ignores it. Nothing is rounded and nothing overflows, and there is one zero.

The exponential is a parameter on the exact numbers; it sends minus infinity to zero.
-/

namespace SpecBlock

universe u

/-- An exact number, an infinity or not a number. -/
inductive Ieee (R : Type u) where
  | nan
  | negInf
  | posInf
  | fin (value : R)
  deriving DecidableEq, Repr

namespace Ieee

variable {R : Type u}

section operations

variable [Field R] [LinearOrder R]

instance : Zero (Ieee R) := ⟨fin 0⟩

/-- Sum; opposite infinities have none. -/
protected def add : Ieee R → Ieee R → Ieee R
  | fin left, fin right => fin (left + right)
  | nan, _ | _, nan => nan
  | negInf, posInf | posInf, negInf => nan
  | negInf, _ | _, negInf => negInf
  | posInf, _ | _, posInf => posInf

/-- Negation. -/
protected def neg : Ieee R → Ieee R
  | fin value => fin (-value)
  | negInf => posInf
  | posInf => negInf
  | nan => nan

/-- An infinity, positive or negative, scaled by the sign of a number; zero has none. -/
def scaled (positive : Bool) (factor : R) : Ieee R :=
  if factor = 0 then nan else if (0 < factor) = positive then posInf else negInf

/-- Product. -/
protected def mul : Ieee R → Ieee R → Ieee R
  | fin left, fin right => fin (left * right)
  | nan, _ | _, nan => nan
  | posInf, fin factor | fin factor, posInf => scaled true factor
  | negInf, fin factor | fin factor, negInf => scaled false factor
  | posInf, posInf | negInf, negInf => posInf
  | posInf, negInf | negInf, posInf => negInf

/-- Quotient. -/
protected def div : Ieee R → Ieee R → Ieee R
  | fin left, fin right =>
    if right = 0 then (if left = 0 then nan else if 0 < left then posInf else negInf)
    else fin (left / right)
  | fin _, posInf | fin _, negInf => fin 0
  | posInf, fin right => if 0 ≤ right then posInf else negInf
  | negInf, fin right => if 0 ≤ right then negInf else posInf
  | _, _ => nan

instance : Add (Ieee R) := ⟨Ieee.add⟩
instance : Sub (Ieee R) := ⟨fun left right => Ieee.add left right.neg⟩
instance : Mul (Ieee R) := ⟨Ieee.mul⟩
instance : Div (Ieee R) := ⟨Ieee.div⟩

/-- The larger number; a value that is none is ignored. -/
def maxNum : Ieee R → Ieee R → Ieee R
  | fin left, fin right => fin (max left right)
  | nan, other | other, nan => other
  | posInf, _ | _, posInf => posInf
  | negInf, other | other, negInf => other

/-- The exponential. -/
def exp (e : R → R) : Ieee R → Ieee R
  | fin value => fin (e value)
  | negInf => fin 0
  | posInf => posInf
  | nan => nan

/-- Whether a value is minus infinity. -/
def isNegInf : Ieee R → Bool
  | negInf => true
  | _ => false

/-- Whether a value is above zero; a value that is no number is not. -/
def isPositive : Ieee R → Bool
  | fin value => 0 < value
  | posInf => true
  | _ => false

end operations

section sums

variable [Field R] (left right : R) (other : Ieee R)

@[simp] theorem fin_add : (fin left + fin right : Ieee R) = fin (left + right) := rfl

@[simp] theorem fin_sub : (fin left - fin right : Ieee R) = fin (left - right) := by
  rw [sub_eq_add_neg]
  rfl

@[simp] theorem fin_add_negInf : (fin left + negInf : Ieee R) = negInf := rfl

@[simp] theorem negInf_sub_fin : (negInf - fin right : Ieee R) = negInf := rfl

@[simp] theorem negInf_sub_negInf : (negInf - negInf : Ieee R) = nan := rfl

@[simp] theorem nan_add : (nan + other : Ieee R) = nan := by
  cases other <;> rfl

@[simp] theorem sum_replicate_zero (count : Nat) :
    (List.replicate count (fin 0 : Ieee R)).sum = fin 0 := by
  induction count with
  | zero => rfl
  | succ count ih =>
    rw [List.replicate_succ, List.sum_cons, ih, fin_add, add_zero]

end sums

section products

variable [Field R] [LinearOrder R] (left right : R) (other : Ieee R)

@[simp] theorem fin_mul : (fin left * fin right : Ieee R) = fin (left * right) := rfl

@[simp] theorem mul_nan : (other * nan : Ieee R) = nan := by
  cases other <;> rfl

@[simp] theorem nan_mul : (nan * other : Ieee R) = nan := by
  cases other <;> rfl

@[simp] theorem nan_div : (nan / other : Ieee R) = nan := by
  cases other <;> rfl

theorem fin_div (nonzero : right ≠ 0) : (fin left / fin right : Ieee R) = fin (left / right) := by
  show (if right = 0 then _ else fin (left / right)) = _
  rw [if_neg nonzero]

end products

section maxima

variable [LinearOrder R] (left right : R)

@[simp] theorem maxNum_fin : maxNum (fin left) (fin right) = fin (max left right) := rfl

@[simp] theorem fin_maxNum_negInf : maxNum (fin left) negInf = fin left := rfl

@[simp] theorem negInf_maxNum_fin : maxNum negInf (fin right) = fin right := rfl

@[simp] theorem negInf_maxNum_negInf : maxNum negInf negInf = (negInf : Ieee R) := rfl

end maxima

section exponentials

variable [Field R] (left : R) (e : R → R)

@[simp] theorem exp_fin : (fin left).exp e = fin (e left) := rfl

@[simp] theorem exp_negInf : (negInf : Ieee R).exp e = fin 0 := rfl

@[simp] theorem exp_nan : (nan : Ieee R).exp e = nan := rfl

end exponentials

@[simp] theorem isNegInf_negInf : (negInf : Ieee R).isNegInf = true := rfl

@[simp] theorem isNegInf_fin (value : R) : (fin value).isNegInf = false := rfl

end Ieee

end SpecBlock
