import Grapher.Calculus.Difference
import Mathlib.Algebra.Polynomial.Derivative
import Mathlib.Algebra.Polynomial.Eval.Degree
import Mathlib.Tactic.FieldSimp
import Mathlib.Tactic.LinearCombination
import Mathlib.Tactic.NormNum

/-!
# Central differences over the rational numbers

Over the rational numbers a central difference with a step other than zero does not fail, and that
of a cubic is its derivative with a constant added: the leading coefficient times the square of the
step. So the rule is exact for quadratics. The derivative of a cubic by central differences is again
a polynomial, a quadratic whose own derivative has lost the constant, and so taking the derivative
twice is exact even for cubics (`derivativeOf_polynomial`).
-/

set_option autoImplicit false

namespace Grapher.Calculus

open Polynomial

/-- The values of a polynomial, which never fail. -/
def valuesOf (p : ℚ[X]) (x : ℚ) : Except Unit ℚ := .ok (p.eval x)

theorem centralDifference_valuesOf (p : ℚ[X]) (x : ℚ) {h : ℚ} (moved : h ≠ 0) :
    centralDifference rationals (valuesOf p) x h
      = .ok ((p.eval (x + h) - p.eval (x - h)) / (2 * h)) := by
  have run : (2 * h : ℚ) ≠ 0 := mul_ne_zero two_ne_zero moved
  simp only [centralDifference, rationals, valuesOf, bind, Except.bind, if_neg run]

/-- What central differences of a cubic give: the derivative, off by a constant. -/
noncomputable def offsetDerivative (p : ℚ[X]) (h : ℚ) : ℚ[X] :=
  p.derivative + C (p.coeff 3 * h ^ 2)

theorem derivative_offsetDerivative (p : ℚ[X]) (h : ℚ) :
    (offsetDerivative p h).derivative = p.derivative.derivative := by
  rw [offsetDerivative, derivative_add, derivative_C, add_zero]

theorem natDegree_offsetDerivative_le {p : ℚ[X]} (cubic : p.natDegree ≤ 3) (h : ℚ) :
    (offsetDerivative p h).natDegree ≤ 2 := by
  have slope : p.derivative.natDegree ≤ 2 := (natDegree_derivative_le p).trans (by omega)
  have constant : (C (p.coeff 3 * h ^ 2)).natDegree ≤ 2 := by
    rw [natDegree_C]
    omega
  exact natDegree_add_le_of_degree_le slope constant

/-- On quadratics there is no offset. -/
theorem offsetDerivative_quadratic {p : ℚ[X]} (quadratic : p.natDegree ≤ 2) (h : ℚ) :
    offsetDerivative p h = p.derivative := by
  have leading : p.coeff 3 = 0 := coeff_eq_zero_of_natDegree_lt (by omega)
  rw [offsetDerivative, leading, zero_mul, C_0, add_zero]

theorem eval_derivative_cubic {p : ℚ[X]} (cubic : p.natDegree ≤ 3) (x : ℚ) :
    p.derivative.eval x = p.coeff 1 + 2 * p.coeff 2 * x + 3 * p.coeff 3 * x ^ 2 := by
  have slope : p.derivative.natDegree < 3 := (natDegree_derivative_le p).trans_lt (by omega)
  rw [eval_eq_sum_range' slope]
  simp only [Finset.sum_range_succ, Finset.sum_range_zero, coeff_derivative]
  push_cast
  ring

theorem derivativeOf_cubic {p : ℚ[X]} (cubic : p.natDegree ≤ 3) {h : ℚ} (moved : h ≠ 0) :
    derivativeOf rationals (valuesOf p) h = valuesOf (offsetDerivative p h) := by
  funext x
  have values (y : ℚ) :
      p.eval y = p.coeff 0 + p.coeff 1 * y + p.coeff 2 * y ^ 2 + p.coeff 3 * y ^ 3 := by
    rw [eval_eq_sum_range' (Nat.lt_succ_of_le cubic)]
    simp only [Finset.sum_range_succ, Finset.sum_range_zero]
    ring
  rw [derivativeOf, centralDifference_valuesOf p x moved, valuesOf, offsetDerivative, eval_add,
    eval_C, eval_derivative_cubic cubic, values, values]
  congr 1
  field_simp
  ring

/-- Central differences over the rational numbers, at any place and with any step but zero: exact on
quadratics, off by the leading coefficient times the square of the step on cubics, and exact on
cubics when taken twice. -/
theorem derivativeOf_polynomial (p : ℚ[X]) (x : ℚ) {h : ℚ} (moved : h ≠ 0) :
    (p.natDegree ≤ 2 →
      centralDifference rationals (valuesOf p) x h = .ok (p.derivative.eval x)) ∧
    (p.natDegree ≤ 3 →
      centralDifference rationals (valuesOf p) x h
        = .ok (p.derivative.eval x + p.coeff 3 * h ^ 2)) ∧
    (p.natDegree ≤ 3 →
      derivativeOf rationals (derivativeOf rationals (valuesOf p) h) h x
        = .ok (p.derivative.derivative.eval x)) := by
  refine ⟨fun quadratic => ?_, fun cubic => ?_, fun cubic => ?_⟩
  · have once := derivativeOf_cubic (quadratic.trans (by decide)) moved
    rw [offsetDerivative_quadratic quadratic] at once
    exact congrFun once x
  · have once := congrFun (derivativeOf_cubic cubic moved) x
    rwa [valuesOf, offsetDerivative, eval_add, eval_C] at once
  · have quadratic := natDegree_offsetDerivative_le cubic h
    have twice := derivativeOf_cubic (quadratic.trans (by decide)) moved
    rw [offsetDerivative_quadratic quadratic, derivative_offsetDerivative] at twice
    rw [derivativeOf_cubic cubic moved]
    exact congrFun twice x

/-- The cube at 2 with the step −1/2: 12 and a quarter, and twice 12. -/
theorem derivativeOf_polynomial_cube :
    centralDifference rationals (valuesOf (X ^ 3)) 2 (-1 / 2) = .ok (12 + 1 / 4) ∧
    derivativeOf rationals (derivativeOf rationals (valuesOf (X ^ 3)) (-1 / 2)) (-1 / 2) 2
      = .ok 12 := by
  have cubic : (X ^ 3 : ℚ[X]).natDegree ≤ 3 := natDegree_X_pow_le 3
  obtain ⟨-, once, twice⟩ := derivativeOf_polynomial (X ^ 3) 2 (by norm_num : (-1 / 2 : ℚ) ≠ 0)
  rw [once cubic, twice cubic]
  norm_num [derivative_X_pow, coeff_X_pow]

end Grapher.Calculus
