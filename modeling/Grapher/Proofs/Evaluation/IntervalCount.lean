import Grapher.Formula.Evaluation
import Grapher.Proofs.Calculus.Simpson
import Grapher.Proofs.Double.Nearest
import Grapher.Proofs.Evaluation.Dependence
import Mathlib.Order.Bounds.Defs

/-!
# Interval counts

The interval count in use is the least even number that is neither below two nor below the given
one. So an integral of the engine is not rejected for its count, whatever the settings are and
whatever the integrand does: once the limits and the count are doubles, it has a value.

The same holds inside of formulas, at every depth of nesting. Integrals come into a formula by the
helpers that it runs with, and values that hold no others than such integrals (`Value.Counted`) stay
so in every evaluation. Calls that end in any way at all where a count is rejected
(`applyRejecting`) then give the same results.
-/

set_option autoImplicit false

namespace Grapher

open Program (Expr)

/-! ## The count in use -/

namespace Settings

variable (settings : Settings)

theorem isLeast_simpsonIntervals :
    IsLeast {n : ℤ | Even n ∧ max 2 settings.integralIntervals ≤ n} settings.simpsonIntervals := by
  have unfolded : (settings.simpsonIntervals : ℤ)
      = max 2 settings.integralIntervals + max 2 settings.integralIntervals % 2 := by
    simp only [simpsonIntervals]
    omega
  refine ⟨⟨Int.even_iff.mpr ?_, ?_⟩, fun n ⟨even, bound⟩ => ?_⟩
  · omega
  · omega
  · rw [Int.even_iff] at even
    omega

/-- The count in use is taken by Simpson's rule. -/
theorem isEvenCount_simpsonIntervals : isEvenCount (.int settings.simpsonIntervals) = true := by
  obtain ⟨⟨even, bound⟩, -⟩ := settings.isLeast_simpsonIntervals
  exact Calculus.isEvenCount_int (by omega) (Int.even_coe_nat _ |>.mp even)

end Settings

namespace Calculus

variable {α ε : Type} [Scalar α]

/-- The points at which an integrand is sampled. -/
def points (lower upper : α) (intervals : ℕ) : List α :=
  (List.range (intervals + 1)).map (point lower upper intervals)

/-- There are as many weights as points, and the sum pairs them off. -/
theorem weightedSum_eq_zip (function : α → Except ε α) (lower upper : α) (intervals : ℕ) :
    (weights intervals).length = (points lower upper intervals).length ∧
    weightedSum function lower upper intervals
      = ((points lower upper intervals).zip (weights intervals)).foldl
          (fun sum entry => sum + Scalar.ofNat entry.2 * sample function entry.1)
          (Scalar.ofNat 0) := by
  constructor
  · rw [weights, points, List.length_map, List.length_map]
  · rw [points, List.zip_map_left, List.foldl_map]
    rfl

end Calculus

/-! ## One integral -/

/-- An integer is a double up to the first one beyond them. -/
theorem Number.double_int (n : ℕ) :
    (Number.int n).double = if n < Double.firstBeyond then .ok (Double.ofInt n)
      else .error (.conversion .tooLarge) := by
  have finite := Double.isFinite_ofInt n
  rw [Int.natAbs_natCast] at finite
  have taken : Decimal.doubleOfInt n = if n < Double.firstBeyond then .ok (Double.ofInt n)
      else .error .tooLarge := by
    rw [Decimal.doubleOfInt, if_congr finite rfl rfl]
  have shape : (Number.int n).double = Fault.ofConversion (Decimal.doubleOfInt n) := rfl
  rw [shape, taken]
  split <;> rfl

/-- With a count that is taken, an integral fails where the limits and the count are no doubles, and
nowhere else. -/
theorem integralBetween_of_isEvenCount {intervals : ℕ}
    (counted : isEvenCount (.int intervals) = true) (sampled : Float → Except Fault Float)
    (lower upper : Value) :
    integralBetween sampled lower upper (.int intervals) = (do
      let a ← lower.double
      let b ← upper.double
      let _ ← (Number.int intervals).double
      .ok (.float (Calculus.simpson sampled a b intervals))) := by
  simp only [integralBetween, integrate, counted, if_true]
  rfl

/-! ## Integrals in formulas -/

/-- Values that no evaluation tells apart, in which every integral has a count that is taken. -/
inductive Value.Counted : Value → Value → Prop where
  | basic {value : Value} (isBasic : value.isBasic = true)
      (counted : ∀ intervals : ℕ, value = .function (.integral intervals) →
        isEvenCount (.int intervals) = true) : Counted value value
  | closure {birth : Moment} {parameter : String} {body : Expr} {helpers scope scope' : Scope}
      (helped : ∀ name, Option.Rel Counted (helpers.lookup name) (helpers.lookup name))
      (agree : ∀ name ∈ body.namesOutside [parameter],
        Option.Rel Counted (scope.lookup name) (scope'.lookup name)) :
      Counted (.function (.closure birth parameter body helpers scope))
        (.function (.closure birth parameter body helpers scope'))
  | formula {routine : Option Routine} {intervals : ℕ} {time time' : Value}
      (counted : isEvenCount (.int intervals) = true) (like : Counted time time') :
      Counted (.function (.formula routine intervals time))
        (.function (.formula routine intervals time'))
  | derivative {function function' : Function} {step : Number}
      (like : Counted (.function function) (.function function')) :
      Counted (.function (.derivative function step)) (.function (.derivative function' step))

namespace Value

theorem counts_counted {intervals : ℕ} (counted : isEvenCount (.int intervals) = true) :
    Counts Counted intervals :=
  .basic rfl fun _ same => by
    cases same
    exact counted

theorem closes_counted : Closes id Counted (Equiv.refl String) := by
  intro birth parameter body helpers scope scope' helped agree
  rw [Expr.rename_refl]
  exact .closure (fun name => (helped name trivial).1) fun name member => (agree name member).1

instance likeness_counted : Likeness id Counted where
  injective := Function.injective_id
  basic isBuiltin := .basic (isBasic_of_isBuiltin isBuiltin) fun _ same => by
    subst same
    cases isBuiltin
  closes := closes_counted
  inversion like := by
    cases like with
    | basic isBasic => exact .basic isBasic
    | @closure birth parameter body helpers scope scope' helped agree =>
      have case := @Likeness.Case.closure _ _ _ closes_counted birth parameter body helpers scope
        scope' (fun name _ => ⟨helped name, fun _ => rfl⟩)
        fun name member => ⟨agree name member, fun _ => rfl⟩
      rwa [Expr.rename_refl] at case
    | formula counted like => exact .formula (counts_counted counted) like
    | derivative like => exact .derivative like

end Value

/-- What a function gives for arguments, if an integral with a count that is not taken gives
something else. -/
def Function.applyRejecting (rejected : List Value → Except Fault Value) (call : Apply)
    (moment : Moment) : Function → List Value → Except Fault Value
  | .integral intervals, args =>
    if isEvenCount (.int intervals) then (Function.integral intervals).applyWith call moment args
    else rejected args
  | function, args => function.applyWith call moment args

/-- Calls nested at most to a given depth, in which a rejected count has any outcome. -/
def applyRejecting (rejected : List Value → Except Fault Value) : ℕ → Apply
  | 0, _, _, _ => .error .tooDeep
  | depth + 1, moment, .function function, args =>
    function.applyRejecting rejected (applyRejecting rejected depth) moment args
  | _ + 1, _, _, _ => .error .wrongKind

/-- Among counted values it does not matter what a rejected count would do. -/
theorem keeps_applyRejecting (rejected : List Value → Except Fault Value) (depth : ℕ) :
    (applyAt depth).Keeps id Value.Counted (applyRejecting rejected depth) := by
  induction depth with
  | zero => exact fun _ _ _ _ _ _ _ _ => .error _
  | succ depth ih =>
    intro moment carries function function' args args' like all
    cases Likeness.twin like with
    | @function g h kinds =>
      have paired := Function.paired_applyWith ih carries all like
      have same : h.applyRejecting rejected (applyRejecting rejected depth) (id moment) args'
          = h.applyWith (applyRejecting rejected depth) (id moment) args' := by
        cases h with
        | integral intervals =>
          cases like with
          | basic _ counted => exact if_pos (counted intervals rfl)
        | _ => rfl
      rw [← same] at paired
      exact paired
    | _ => exact .error _

/-- Integrals of the engine are not rejected for their count. The count in use is the least even
number from the greater of two and the given one on. An integral fails only where its limits or the
count are no doubles, and the count is one up to the first integer beyond the doubles. There are as
many weights as sample points. And in formulas, in any scope of counted values, a rejected count
could do anything without a trace. -/
theorem integrals_not_rejected (settings : Settings) :
    IsLeast {n : ℤ | Even n ∧ max 2 settings.integralIntervals ≤ n} settings.simpsonIntervals ∧
    (∀ (sampled : Float → Except Fault Float) (lower upper : Value),
      integralBetween sampled lower upper (.int settings.simpsonIntervals) = do
        let a ← lower.double
        let b ← upper.double
        let _ ← (Number.int settings.simpsonIntervals).double
        .ok (.float (Calculus.simpson sampled a b settings.simpsonIntervals))) ∧
    (Number.int settings.simpsonIntervals).double =
      (if settings.simpsonIntervals < Double.firstBeyond
        then .ok (Double.ofInt settings.simpsonIntervals) else .error (.conversion .tooLarge)) ∧
    (∀ (sampled : Float → Except Fault Float) (lower upper : Float),
      let points := Calculus.points lower upper settings.simpsonIntervals
      let weights := Calculus.weights settings.simpsonIntervals
      weights.length = points.length ∧
      Calculus.weightedSum sampled lower upper settings.simpsonIntervals
        = (points.zip weights).foldl
          (fun sum entry => sum + Float.ofNat entry.2 * Calculus.sample sampled entry.1) 0) ∧
    ∀ (rejected : List Value → Except Fault Value) (routine : Routine) (scope : Scope)
      (moment : Moment), scope.Stands Value.Counted →
      let call := applyRejecting rejected depthLimit
      routine.evaluate apply settings.simpsonIntervals scope moment
        = routine.evaluate call settings.simpsonIntervals scope moment ∧
      routine.evaluateNative apply settings.simpsonIntervals scope moment
        = routine.evaluateNative call settings.simpsonIntervals scope moment := by
  have even := settings.isEvenCount_simpsonIntervals
  refine ⟨settings.isLeast_simpsonIntervals, integralBetween_of_isEvenCount even,
    Number.double_int _,
    fun sampled lower upper => Calculus.weightedSum_eq_zip sampled lower upper _, ?_⟩
  intro rejected routine scope moment stands call
  have keeps : apply.Keeps id Value.Counted call := keeps_applyRejecting rejected depthLimit
  have counted := Value.counts_counted even
  have carries := Moment.carries_id moment
  exact ⟨Routine.evaluate_of_matches keeps stands carries counted fun _ _ => trivial,
    Routine.evaluateNative_of_matches keeps stands carries counted (fun _ _ => trivial)
      fun _ _ _ _ => trivial⟩

/-- Three intervals below zero make two. The integrand is a formula that was made a function under
other settings. -/
theorem integrals_not_rejected_function :
    let settings : Settings := { Settings.standard with integralIntervals := -3 }
    let scope : Scope := [("F", .function (.formula none 8 (.int 0))), ("a", .int 1)]
    let routine : Routine := ⟨.call (.name "integral") [.name "F", .number 0, .name "a"], none⟩
    settings.simpsonIntervals = 2 ∧ scope.Stands Value.Counted ∧
    routine.evaluate apply settings.simpsonIntervals scope .start
      = routine.evaluate (applyRejecting (fun _ => .ok .absent) depthLimit)
          settings.simpsonIntervals scope .start := by
  intro settings scope routine
  have stands : scope.Stands Value.Counted :=
    .cons (.formula rfl (Likeness.basic rfl)) (.cons (Likeness.basic rfl) Scope.matches_nil)
  exact ⟨rfl, stands, ((integrals_not_rejected settings).2.2.2.2 _ routine scope .start stands).1⟩

/-- A count beyond the doubles. -/
def hugeCount : ℕ := 10 ^ 400

/-- With a count beyond the doubles an integral fails, although its limits are doubles. -/
theorem integral_of_huge_count :
    let settings : Settings := { Settings.standard with integralIntervals := hugeCount }
    let formula := Formula.ofText settings "x"
    (Value.float 0).double = .ok 0 ∧ (Value.float 1).double = .ok 1 ∧
    formula.integralOver settings (.float 0) (.float 1) = .error (.conversion .tooLarge) := by
  intro settings formula
  have lower : (Value.float 0).double = .ok 0 := rfl
  have upper : (Value.float 1).double = .ok 1 := rfl
  refine ⟨lower, upper, ?_⟩
  have count : settings.simpsonIntervals = hugeCount := by decide +kernel
  have beyond : ¬hugeCount < Double.firstBeyond := by decide +kernel
  rw [Formula.integralOver, integralBetween_of_isEvenCount settings.isEvenCount_simpsonIntervals,
    lower, upper, Number.double_int, count, if_neg beyond]
  rfl

end Grapher
