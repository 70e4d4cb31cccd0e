import Grapher.Evaluation.Apply
import Mathlib.Algebra.BigOperators.Intervals
import Mathlib.Algebra.Polynomial.Derivative
import Mathlib.Algebra.Polynomial.Eval.Degree
import Mathlib.Tactic.FieldSimp
import Mathlib.Tactic.LinearCombination
import Mathlib.Tactic.NormNum

/-!
# Simpson's rule over the rational numbers

Over the rational numbers the cut points lie at equal distances, whichever way they are reached,
and the weighted sum of the samples is a sum over indices. Each two neighbouring parts of the
interval make a panel with the weights 1, 4, 1, and the weights of the whole are those of the panels
added up where they meet. On one panel the rule is exact for cubics, so the panels of an interval
telescope to the difference of an antiderivative at the limits (`simpson_cubic`).

The weights read the same from both ends, and the points between reversed limits are the points of
the interval from its other end. So reversed limits negate the integral, wherever the integrand
fails (`simpson_reversed`).
-/

set_option autoImplicit false

namespace Grapher.Calculus

variable {ε : Type}

/-! ## Weights -/

/-- The weight of the sample of a given index. -/
def weight (intervals index : ℕ) : ℕ :=
  if index = 0 ∨ index = intervals then 1 else if index % 2 = 1 then 4 else 2

/-- The weights of an even number of intervals read the same from both ends. -/
theorem weight_reflect {intervals index : ℕ} (even : Even intervals) (inside : index ≤ intervals) :
    weight intervals (intervals - index) = weight intervals index := by
  obtain ⟨half, rfl⟩ := even
  have ends : (half + half - index = 0 ∨ half + half - index = half + half) ↔
      (index = 0 ∨ index = half + half) := by omega
  have parity : (half + half - index) % 2 = index % 2 := by omega
  simp only [weight, ends, parity]

/-- One panel more: the sample where it starts counts once more, and two new ones are added. -/
theorem sum_weight_succ (samples : ℕ → ℚ) {panels : ℕ} (some : 0 < panels) :
    ∑ i ∈ Finset.range (2 * (panels + 1) + 1), (weight (2 * (panels + 1)) i : ℚ) * samples i
      = ∑ i ∈ Finset.range (2 * panels + 1), (weight (2 * panels) i : ℚ) * samples i
        + (samples (2 * panels) + 4 * samples (2 * panels + 1) + samples (2 * panels + 2)) := by
  have before : ∀ i ∈ Finset.range (2 * panels),
      (weight (2 * (panels + 1)) i : ℚ) * samples i = (weight (2 * panels) i : ℚ) * samples i := by
    intro i member
    have inside := Finset.mem_range.mp member
    have first : (i = 0 ∨ i = 2 * (panels + 1)) ↔ (i = 0 ∨ i = 2 * panels) := by omega
    simp only [weight, first]
  have joint : weight (2 * (panels + 1)) (2 * panels) = 2 := by
    rw [weight, if_neg (by omega), if_neg (by omega)]
  have middle : weight (2 * (panels + 1)) (2 * panels + 1) = 4 := by
    rw [weight, if_neg (by omega), if_pos (by omega)]
  have last : weight (2 * (panels + 1)) (2 * panels + 2) = 1 := if_pos (by omega)
  have ending : weight (2 * panels) (2 * panels) = 1 := if_pos (by omega)
  rw [show 2 * (panels + 1) + 1 = 2 * panels + 1 + 1 + 1 by omega, Finset.sum_range_succ,
    Finset.sum_range_succ, Finset.sum_range_succ, Finset.sum_congr rfl before,
    Finset.sum_range_succ, joint, middle, last, ending]
  push_cast
  ring

/-- The weights of an interval are those of its panels, added up where two panels meet. -/
theorem sum_weight_eq_sum_panels (samples : ℕ → ℚ) {panels : ℕ} (some : 0 < panels) :
    ∑ i ∈ Finset.range (2 * panels + 1), (weight (2 * panels) i : ℚ) * samples i
      = ∑ j ∈ Finset.range panels,
          (samples (2 * j) + 4 * samples (2 * j + 1) + samples (2 * j + 2)) := by
  induction panels, some using Nat.le_induction with
  | base => simp [Finset.sum_range_succ, weight]
  | succ panels some ih => rw [sum_weight_succ samples some, ih, Finset.sum_range_succ]

/-! ## Points and samples -/

/-- Over the rational numbers each cut point is reached by equal steps. -/
theorem point_eq (lower upper : ℚ) {intervals : ℕ} (positive : 0 < intervals) (index : ℕ) :
    point lower upper intervals index = lower + index * ((upper - lower) / intervals) := by
  change (if index = intervals then upper
    else if ((upper - lower) / intervals == 0) = true then
      (index : ℚ) / intervals * (upper - lower) + lower
    else (index : ℚ) * ((upper - lower) / intervals) + lower) = _
  split
  · next last =>
    subst last
    field_simp
    ring
  · split <;> ring

/-- The point of an index between reversed limits is the point of the index from the other end. -/
theorem point_reversed (lower upper : ℚ) {intervals index : ℕ} (positive : 0 < intervals)
    (inside : index ≤ intervals) :
    point upper lower intervals index = point lower upper intervals (intervals - index) := by
  rw [point_eq upper lower positive, point_eq lower upper positive, Nat.cast_sub inside]
  field_simp
  ring

/-- The weighted sum of the samples as a sum over their indices. -/
theorem weightedSum_eq (function : ℚ → Except ε ℚ) (lower upper : ℚ) (intervals : ℕ) :
    weightedSum function lower upper intervals
      = ∑ i ∈ Finset.range (intervals + 1),
          (weight intervals i : ℚ) * sample function (point lower upper intervals i) := by
  have added : ∀ (term : ℕ → ℚ) (count : ℕ),
      (List.range count).foldl (fun sum i => sum + term i) 0 = ∑ i ∈ Finset.range count, term i := by
    intro term count
    induction count with
    | zero => rfl
    | succ count ih =>
      rw [List.range_succ, List.foldl_append, ih, Finset.sum_range_succ]
      rfl
  have paired : (List.range (intervals + 1)).zip (weights intervals)
      = (List.range (intervals + 1)).map fun i => (i, weight intervals i) :=
    List.map_prod_left_eq_zip.symm
  rw [weightedSum, paired, List.foldl_map]
  exact added _ _

theorem simpson_eq (function : ℚ → Except ε ℚ) (lower upper : ℚ) (intervals : ℕ) :
    simpson function lower upper intervals
      = (upper - lower) / intervals / 3 * ∑ i ∈ Finset.range (intervals + 1),
          (weight intervals i : ℚ) * sample function (point lower upper intervals i) := by
  rw [← weightedSum_eq]
  rfl

/-! ## Cubics -/

/-- On one panel the rule is exact for cubics. -/
theorem panel_cubic {p antiderivative : Polynomial ℚ} (cubic : p.natDegree ≤ 3)
    (derives : antiderivative.derivative = p) (place step : ℚ) :
    step / 3 * (p.eval place + 4 * p.eval (place + step) + p.eval (place + 2 * step))
      = antiderivative.eval (place + 2 * step) - antiderivative.eval place := by
  have quartic : antiderivative.natDegree < 5 := by
    have degree := Polynomial.natDegree_derivative antiderivative
    rw [derives] at degree
    omega
  have coefficient : ∀ i, p.coeff i = antiderivative.coeff (i + 1) * (i + 1) := by
    intro i
    rw [← derives, Polynomial.coeff_derivative]
  simp only [Polynomial.eval_eq_sum_range' (Nat.lt_succ_of_le cubic),
    Polynomial.eval_eq_sum_range' quartic, Finset.sum_range_succ, Finset.sum_range_zero, coefficient]
  push_cast
  ring

/-- Simpson's rule is exact for cubics: it gives the difference of an antiderivative at the limits,
in whichever order these stand. -/
theorem simpson_cubic {p antiderivative : Polynomial ℚ} (cubic : p.natDegree ≤ 3)
    (derives : antiderivative.derivative = p) (lower upper : ℚ) {intervals : ℕ}
    (positive : 0 < intervals) (even : Even intervals) :
    simpson (fun x => (.ok (p.eval x) : Except ε ℚ)) lower upper intervals
      = antiderivative.eval upper - antiderivative.eval lower := by
  obtain ⟨panels, rfl⟩ := even
  rw [← two_mul] at positive ⊢
  have some : 0 < panels := by omega
  let step : ℚ := (upper - lower) / (2 * panels : ℕ)
  -- the places where panels meet
  let place (j : ℕ) : ℚ := lower + 2 * j * step
  have panel : ∀ j ∈ Finset.range panels, step / 3 *
      (p.eval (point lower upper (2 * panels) (2 * j))
        + 4 * p.eval (point lower upper (2 * panels) (2 * j + 1))
        + p.eval (point lower upper (2 * panels) (2 * j + 2)))
      = antiderivative.eval (place (j + 1)) - antiderivative.eval (place j) := by
    intro j _
    have next : place (j + 1) = place j + 2 * step := by
      simp only [place]
      push_cast
      ring
    rw [next, ← panel_cubic cubic derives, point_eq lower upper positive,
      point_eq lower upper positive, point_eq lower upper positive]
    simp only [place, step]
    push_cast
    ring_nf
  have ends : place panels = upper := by
    have whole : (panels : ℚ) ≠ 0 := Nat.cast_ne_zero.mpr some.ne'
    simp only [place, step]
    push_cast
    field_simp
    ring
  calc simpson (fun x => (.ok (p.eval x) : Except ε ℚ)) lower upper (2 * panels)
      = step / 3 * ∑ i ∈ Finset.range (2 * panels + 1), (weight (2 * panels) i : ℚ)
          * p.eval (point lower upper (2 * panels) i) := simpson_eq _ _ _ _
    _ = ∑ j ∈ Finset.range panels,
          (antiderivative.eval (place (j + 1)) - antiderivative.eval (place j)) := by
      rw [sum_weight_eq_sum_panels (fun i => p.eval (point lower upper (2 * panels) i)) some,
        Finset.mul_sum, Finset.sum_congr rfl panel]
    _ = antiderivative.eval (place panels) - antiderivative.eval (place 0) :=
      Finset.sum_range_sub (fun j => antiderivative.eval (place j)) panels
    _ = antiderivative.eval upper - antiderivative.eval lower := by
      rw [ends]
      simp [place]

open Polynomial in
/-- The cube from 2 down to -1 with four intervals. -/
theorem simpson_cubic_descending :
    simpson (fun x => (.ok (x ^ 3) : Except Unit ℚ)) 2 (-1) 4 = -15 / 4 := by
  have derives : (C (1 / 4 : ℚ) * X ^ 4).derivative = X ^ 3 := by
    rw [derivative_C_mul_X_pow]
    norm_num
  have value := @simpson_cubic Unit (X ^ 3) (C (1 / 4) * X ^ 4) (natDegree_X_pow_le 3) derives 2 (-1)
    4 (by decide) (by decide)
  simp only [eval_pow, eval_X, eval_mul, eval_C] at value
  rw [value]
  norm_num

/-! ## Reversed limits and failures -/

/-- A function with zero for its value wherever it fails. -/
def extendedByZero {α : Type} [Scalar α] (function : α → Except ε α) (place : α) : Except ε α :=
  match function place with
  | .ok value => .ok value
  | .error _ => .ok (Scalar.ofNat 0)

/-- A sample does not tell a failure from a zero. -/
theorem sample_extendedByZero {α : Type} [Scalar α] (function : α → Except ε α) :
    sample (extendedByZero function) = sample function := by
  funext place
  unfold sample extendedByZero
  cases function place <;> rfl

theorem simpson_extendedByZero {α : Type} [Scalar α] (function : α → Except ε α) :
    simpson (extendedByZero function) = simpson function := by
  funext lower upper intervals
  simp only [simpson, weightedSum, sample_extendedByZero]

/-- The count of a positive even number of intervals is taken. -/
theorem isEvenCount_int {intervals : ℕ} (positive : 0 < intervals) (even : Even intervals) :
    isEvenCount (.int intervals) = true := by
  obtain ⟨half, rfl⟩ := even
  simp [isEvenCount, Number.whole?]
  omega

/-- Reversed limits negate the integral, and an integrand that fails somewhere is integrated as if
it were zero there. So the integral over a positive even number of intervals never fails, whatever
samples do: once the limits are doubles, it is the one of the extended function. -/
theorem simpson_reversed (function : ℚ → Except ε ℚ) (lower upper : ℚ) {intervals : ℕ}
    (positive : 0 < intervals) (even : Even intervals) :
    simpson function upper lower intervals = -simpson function lower upper intervals ∧
    simpson function lower upper intervals
      = simpson (extendedByZero function) lower upper intervals ∧
    ∀ (sampled : Float → Except Fault Float) (first last : Value) (a b : Float),
      first.double = .ok a → last.double = .ok b →
      integrate sampled first last (.int intervals)
        = .ok (.float (simpson (extendedByZero sampled) a b intervals)) := by
  refine ⟨?_, by rw [simpson_extendedByZero], ?_⟩
  · have turned : ∑ i ∈ Finset.range (intervals + 1),
          (weight intervals i : ℚ) * sample function (point upper lower intervals i)
        = ∑ i ∈ Finset.range (intervals + 1),
          (weight intervals i : ℚ) * sample function (point lower upper intervals i) := by
      rw [← Finset.sum_range_reflect]
      refine Finset.sum_congr rfl fun i member => ?_
      have inside : i ≤ intervals := Nat.lt_succ_iff.mp (Finset.mem_range.mp member)
      have other : intervals + 1 - 1 - i = intervals - i := by omega
      rw [other, weight_reflect even inside, point_reversed lower upper positive (Nat.sub_le _ _),
        Nat.sub_sub_self inside]
    rw [simpson_eq, simpson_eq, turned]
    ring
  · intro sampled first last a b low high
    have counted := isEvenCount_int positive even
    simp only [integrate, counted, if_true, low, high, simpson_extendedByZero]
    rfl

/-- The square without a value at 1, from 2 back to 0 with four intervals. -/
theorem simpson_reversed_square :
    simpson (fun x => if x = 1 then .error () else .ok (x * x)) 2 0 4 = (-7 / 3 : ℚ) := by
  have forward : simpson (fun x => if x = 1 then .error () else .ok (x * x)) 0 2 4
      = (7 / 3 : ℚ) := by decide +kernel
  rw [(simpson_reversed (fun x => if x = 1 then .error () else .ok (x * x)) 0 2 (by decide : 0 < 4)
    (by decide)).1, forward]
  norm_num

end Grapher.Calculus
