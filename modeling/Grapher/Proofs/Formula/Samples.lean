import Grapher.Formula.Composition
import Grapher.Proofs.Double.Nearest
import Mathlib.Data.List.Forall2

/-!
# Scalars and samples are doubles

The result of a formula is a truth value, an integer or a double, whatever went wrong on the way.
As a scalar and as the sample of a curve it is taken as a double. This can fail in one way only: an
integer at least half a step beyond the last finite double has no nearest double. Such a result is
refused, and a curve with such a sample is refused as a whole. All other results have a double, and
the samples of a curve do not depend on each other (`doubles_unless_beyond`).
-/

set_option autoImplicit false

namespace Grapher

/-! ## Numbers as doubles -/

namespace Number

/-- An integer at least half a step beyond the last finite double. -/
def isBeyond : Number → Bool
  | .int n => decide (Double.firstBeyond ≤ n.natAbs)
  | _ => false

/-- The double that a number is as a double: a truth value is one or zero, an integer is rounded to
the nearest double. -/
inductive RoundsTo : Number → Float → Prop where
  | bool (value : Bool) : RoundsTo (.bool value) (if value then 1 else 0)
  | int {n : Int} {x : Float} (nearest : Double.IsNearest n x) : RoundsTo (.int n) x
  | float (x : Float) : RoundsTo (.float x) x

theorem toDouble_of_isBeyond {a : Number} (beyond : a.isBeyond = true) :
    a.toDouble = .error .tooLarge := by
  cases a with
  | int n =>
    rw [isBeyond, decide_eq_true_eq, ← Nat.not_lt, ← Double.isFinite_ofInt] at beyond
    exact if_neg beyond
  | bool value | float x => cases beyond

theorem exists_toDouble {a : Number} (within : a.isBeyond = false) :
    ∃ x, a.toDouble = .ok x ∧ a.RoundsTo x := by
  cases a with
  | bool value => exact ⟨_, rfl, .bool value⟩
  | int n =>
    rw [isBeyond, decide_eq_false_iff_not, Nat.not_le, ← Double.isFinite_ofInt] at within
    exact ⟨Double.ofInt n, if_pos within, .int (Double.isNearest_ofInt within)⟩
  | float x => exact ⟨x, rfl, .float x⟩

end Number

namespace Formula

/-! ## Samples -/

/-- The sample of a number: its double if that is finite, else the undefined one. -/
def IsSample (a : Number) (y : Float) : Prop :=
  ∃ x, a.RoundsTo x ∧ y = if Double.isFinite x then x else Double.nan

/-- The samples of a row of numbers, all or none. -/
theorem mapM_samples (value : Float → Number) (places : List Float) :
    let samples := places.mapM fun x => (value x).toDouble.map gapUnlessFinite
    if places.any fun x => (value x).isBeyond then samples = .error .tooLarge
    else ∃ row, samples = .ok row ∧ List.Forall₂ (fun x y => IsSample (value x) y) places row := by
  intro samples
  induction places with
  | nil => exact ⟨[], rfl, .nil⟩
  | cons x places ih =>
    dsimp only [samples] at ih ⊢
    rw [List.any_cons, List.mapM_cons]
    cases beyond : (value x).isBeyond with
    | true =>
      rw [Bool.true_or, if_pos rfl, Number.toDouble_of_isBeyond beyond]
      rfl
    | false =>
      obtain ⟨y, converted, rounds⟩ := Number.exists_toDouble beyond
      rw [Bool.false_or, converted]
      split at ih
      · next later =>
        rw [if_pos later, ih]
        rfl
      · next later =>
        obtain ⟨row, found, all⟩ := ih
        rw [if_neg later, found]
        exact ⟨gapUnlessFinite y :: row, rfl, .cons ⟨y, rounds, rfl⟩ all⟩

/-- Formulas of which one cannot be run make no exception: their composed result is undefined, and
so is its sample. -/
theorem samples_eq_mapM (settings : Settings) (world player : Formula) (view : Viewpoint)
    (places : List Float) :
    samples settings world player view places = places.mapM fun x =>
      (composed settings world player { view with place := .float x }).toDouble.map
        gapUnlessFinite := by
  unfold samples
  split
  · refine congrArg (List.mapM · places) ?_
    funext x
    cases (composed settings world player { view with place := .float x }).toDouble <;> rfl
  · next invalid =>
    have undefined : ∀ x, composed settings world player { view with place := .float x } = .nan :=
      fun _ => if_neg invalid
    have gap : gapUnlessFinite Double.nan = Double.nan := ite_self _
    induction places with
    | nil => rfl
    | cons x places ih =>
      rw [List.map_cons, List.mapM_cons, ← ih, undefined]
      change _ = Except.ok (gapUnlessFinite Double.nan :: _)
      rw [gap]

theorem curve_floats (settings : Settings) (world player : Formula) (view : Viewpoint)
    (places : List Float) :
    curve settings world player view (places.map Value.float)
      = samples settings world player view places := by
  have read : (places.map Value.float).mapM coordinate = .ok places := by
    induction places with
    | nil => rfl
    | cons x places ih =>
      rw [List.map_cons, List.mapM_cons, ih]
      rfl
  unfold curve
  rw [read]
  rfl

/-- A scalar is the double of the result, and the samples of a curve are those of the composed
formulas, each at its own place. Only an integer beyond the doubles is refused, and a curve then as
a whole. -/
theorem doubles_unless_beyond (settings : Settings) (formula world player : Formula) (scope : Scope)
    (view : Viewpoint) (places : List Float) :
    let result := formula.evaluate settings scope
    let value := fun x => composed settings world player { view with place := .float x }
    let curve := curve settings world player view (places.map Value.float)
    (if result.isBeyond then formula.scalar settings scope = .error .tooLarge
      else ∃ x, formula.scalar settings scope = .ok x ∧ result.RoundsTo x) ∧
    (if places.any fun x => (value x).isBeyond then curve = .error .tooLarge
      else ∃ row, curve = .ok row ∧ List.Forall₂ (fun x y => IsSample (value x) y) places row) := by
  intro result value curve
  refine ⟨?_, ?_⟩
  · split
    · next beyond => exact Number.toDouble_of_isBeyond beyond
    · next within => exact Number.exists_toDouble (Bool.eq_false_iff.mpr within)
  · have sampled : curve = _ := curve_floats settings world player view places
    rw [sampled, samples_eq_mapM]
    exact mapM_samples value places

/-- An integer beyond the doubles as the value of a variable is refused as a scalar, and as the time
of a curve it takes all samples with it. -/
theorem refused_of_isBeyond {n : Int} (beyond : (Number.int n).isBeyond = true) :
    let place := ofTree .standard (.symbol "x") ""
    let time := ofTree .standard (.symbol "t") ""
    place.scalar .standard [("x", .int n)] = .error .tooLarge ∧
      curve .standard time place ⟨.float 0, .int n, none, none⟩ [.float 0, .float 1]
        = .error .tooLarge := by
  intro place time
  have refused := Number.toDouble_of_isBeyond beyond
  refine ⟨?_, ?_⟩
  · have result : place.evaluate .standard [("x", .int n)] = .int n := rfl
    rw [scalar, result, refused]
  · have first : composed .standard time place ⟨.float 0, .int n, none, none⟩ = .int n := rfl
    refine (curve_floats .standard time place _ [0, 1]).trans ?_
    rw [samples_eq_mapM, List.mapM_cons, first, refused]
    rfl

/-- The least integer beyond the doubles is neither a scalar nor a gap of a curve. -/
theorem firstBeyond_refused :
    let place := ofTree .standard (.symbol "x") ""
    let time := ofTree .standard (.symbol "t") ""
    place.scalar .standard [("x", .int Double.firstBeyond)] = .error .tooLarge ∧
      curve .standard time place ⟨.float 0, .int Double.firstBeyond, none, none⟩ [.float 0, .float 1]
        = .error .tooLarge :=
  refused_of_isBeyond (by decide +kernel)

end Formula

end Grapher
