/-!
# Central differences

The slope between two points at one step to either side of a place. The rule is given over any
operations that may fail: those of values, on which it runs, and those of the rational numbers,
over which it is exact for quadratics. Failures of the function are passed on.
-/

set_option autoImplicit false

namespace Grapher.Calculus

/-- Operations that may fail. -/
structure Operations (ε α : Type) where
  add : α → α → Except ε α
  subtract : α → α → Except ε α
  multiply : α → α → Except ε α
  divide : α → α → Except ε α
  two : α

variable {ε α : Type}

/-- The central difference of a function at a place. -/
def centralDifference (ops : Operations ε α) (function : α → Except ε α) (place step : α) :
    Except ε α := do
  let right ← ops.add place step
  let above ← function right
  let left ← ops.subtract place step
  let below ← function left
  let rise ← ops.subtract above below
  let run ← ops.multiply ops.two step
  ops.divide rise run

/-- The derivative of a function by central differences. -/
def derivativeOf (ops : Operations ε α) (function : α → Except ε α) (step : α) :
    α → Except ε α :=
  fun place => centralDifference ops function place step

/-- The rational numbers, where a division by zero fails. -/
def rationals : Operations Unit Rat where
  add x y := .ok (x + y)
  subtract x y := .ok (x - y)
  multiply x y := .ok (x * y)
  divide x y := if y = 0 then .error () else .ok (x / y)
  two := 2

end Grapher.Calculus
