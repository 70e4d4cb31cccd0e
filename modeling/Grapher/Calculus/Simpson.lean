/-!
# Simpson's rule

Simpson's rule over any scalars with the four operations: the doubles, on which it runs, and the
rational numbers, over which it is exact for cubics. The interval is cut into an even number of
equal parts; the samples at the cut points are summed with the weights 1, 4, 2, 4, …, 2, 4, 1. A
sample at which the integrand fails counts as zero.
-/

set_option autoImplicit false

namespace Grapher.Calculus

/-- Scalars with the four operations. -/
class Scalar (α : Type) extends Add α, Sub α, Mul α, Div α where
  /-- A natural number as a scalar. -/
  ofNat : Nat → α
  /-- Whether a scalar is zero. -/
  isZero : α → Bool

/-- The weights of the samples. -/
def weights (intervals : Nat) : List Nat :=
  (List.range (intervals + 1)).map fun i =>
    if i = 0 ∨ i = intervals then 1 else if i % 2 = 1 then 4 else 2

/-- The weights for a count that may be negative. There is one weight more than there are
intervals, so a count below minus one has none. -/
def weightsFor? (intervals : Int) : Option (List Nat) :=
  if intervals < -1 then none
  else if intervals = -1 then some []
  else some (weights intervals.toNat)

variable {α ε : Type} [Scalar α]

/-- The cut point of a given index. Points are reached by steps from the lower limit, and the last
is the upper limit itself. A step that vanishes is not used: the fraction of the way is then taken
first. -/
def point (lower upper : α) (intervals index : Nat) : α :=
  let length := upper - lower
  let step := length / Scalar.ofNat intervals
  if index = intervals then upper
  else if Scalar.isZero step then
    Scalar.ofNat index / Scalar.ofNat intervals * length + lower
  else Scalar.ofNat index * step + lower

/-- The sample at a point, zero where the integrand fails. -/
def sample (function : α → Except ε α) (place : α) : α :=
  match function place with
  | .ok value => value
  | .error _ => Scalar.ofNat 0

/-- The weighted sum of the samples. -/
def weightedSum (function : α → Except ε α) (lower upper : α) (intervals : Nat) : α :=
  (List.range (intervals + 1)).zip (weights intervals) |>.foldl
    (fun sum (index, weight) =>
      sum + Scalar.ofNat weight * sample function (point lower upper intervals index))
    (Scalar.ofNat 0)

/-- The integral by Simpson's rule. -/
def simpson (function : α → Except ε α) (lower upper : α) (intervals : Nat) : α :=
  (upper - lower) / Scalar.ofNat intervals / Scalar.ofNat 3
    * weightedSum function lower upper intervals

/-- The doubles as scalars. -/
instance : Scalar Float where
  ofNat := Float.ofNat
  isZero x := x == 0

/-- The rational numbers as scalars. -/
instance : Scalar Rat where
  ofNat n := n
  isZero x := x == 0

end Grapher.Calculus
