import Grapher.Tree.Head
import Grapher.Value.Fault

/-!
# Numbers

A number is a truth value, an integer of any size, or a double. Truth values count as 0 and 1.
Whole operands give whole results for sums, differences, products and powers with a nonnegative
exponent; a double among the operands makes the result a double. Comparison is exact, whatever the
kinds of the two sides.

Division and power are total over the extended reals: a division by zero gives a signed infinity,
and a power without a real value gives the undefined number. What still fails is an integer too
large to be taken as a double.
-/

set_option autoImplicit false

namespace Grapher

/-- A number. -/
inductive Number where
  | bool (value : Bool)
  | int (value : Int)
  | float (value : Float)

namespace Number

/-- The undefined number. -/
def nan : Number := .float Double.nan

/-- The positive infinity. -/
def infinity : Number := .float Double.infinity

/-- A truth value or an integer as an integer. -/
def whole? : Number → Option Int
  | .bool value => some (if value then 1 else 0)
  | .int value => some value
  | .float _ => none

/-- A number as a double. -/
def toDouble : Number → Except DoubleError Float
  | .bool value => .ok (Decimal.doubleOfBool value)
  | .int value => Decimal.doubleOfInt value
  | .float value => .ok value

/-- A number as a double, as a step of an evaluation. -/
def double (a : Number) : Except Fault Float :=
  Fault.ofConversion a.toDouble

/-- The display text of a number. -/
def display : Number → String
  | .bool value => if value then "True" else "False"
  | .int value => Decimal.intText value
  | .float value => Decimal.doubleText value

/-! ## Sums and products -/

/-- An operation that is exact on whole numbers. -/
def combine (onInt : Int → Int → Int) (onFloat : Float → Float → Float) (a b : Number) :
    Except Fault Number :=
  match a.whole?, b.whole? with
  | some m, some n => .ok (.int (onInt m n))
  | _, _ => do
    let x ← a.double
    let y ← b.double
    .ok (.float (onFloat x y))

/-- The sum. -/
def add : Number → Number → Except Fault Number := combine (· + ·) (· + ·)

/-- The difference. -/
def subtract : Number → Number → Except Fault Number := combine (· - ·) (· - ·)

/-- The product. -/
def multiply : Number → Number → Except Fault Number := combine (· * ·) (· * ·)

/-- The negative. -/
def negate : Number → Number
  | .bool value => .int (if value then -1 else 0)
  | .int value => .int (-value)
  | .float value => .float (-value)

/-- The absolute value. -/
def abs : Number → Number
  | .bool value => .int (if value then 1 else 0)
  | .int value => .int value.natAbs
  | .float value => .float value.abs

/-! ## Comparison -/

/-- The order of an integer and a double, exact. -/
def compareWithDouble? (m : Int) (y : Float) : Option Ordering :=
  match Double.units? y with
  | some units => some (compare (m * Double.unitsPerOne) units)
  | none => if y.isNaN then none else if y < 0 then some .gt else some .lt

/-- The order of two doubles. -/
def compareDoubles? (x y : Float) : Option Ordering :=
  if x < y then some .lt else if x == y then some .eq else if y < x then some .gt else none

/-- The order of two numbers; the undefined number has no place in it. -/
def compare? : Number → Number → Option Ordering
  | .float x, .float y => compareDoubles? x y
  | .float x, b => b.whole?.bind fun n => (compareWithDouble? n x).map Ordering.swap
  | a, .float y => a.whole?.bind fun m => compareWithDouble? m y
  | a, b => do some (compare (← a.whole?) (← b.whole?))

/-- Whether a relation holds for an order; without an order only inequality does. -/
def holds : Relation → Option Ordering → Bool
  | .equal, order => order == some .eq
  | .notEqual, order => order != some .eq
  | .less, order => order == some .lt
  | .lessEqual, order => order == some .lt || order == some .eq
  | .greater, order => order == some .gt
  | .greaterEqual, order => order == some .gt || order == some .eq

/-- Whether a relation holds between two numbers. -/
def relates (relation : Relation) (a b : Number) : Bool :=
  holds relation (compare? a b)

/-- Whether a number is the undefined number. -/
def isNaN : Number → Bool
  | .float value => value.isNaN
  | _ => false

/-- Whether a number is zero of any kind. -/
def isZero (a : Number) : Bool := relates .equal a (.int 0)

/-- Whether a number counts as true: every number but zero does. -/
def truth (a : Number) : Bool := !a.isZero

/-! ## Division -/

/-- The quotient; a division by zero fails. The quotient of integers is the nearest double, and the
zero has the sign of the denominator. -/
def exactQuotient (a b : Number) : Except Fault Number :=
  match a.whole?, b.whole? with
  | some m, some n =>
    if n = 0 then .error .divisionByZero
    else
      let x := Double.nearest (decide (m < 0) != decide (n < 0)) m.natAbs n.natAbs
      if Double.isFinite x then .ok (.float x) else .error .overflow
  | _, _ => do
    let x ← a.double
    let y ← b.double
    if y == 0 then .error .divisionByZero else .ok (.float (x / y))

/-- What a division by zero gives: a signed infinity, or the undefined number for zero and the
undefined number themselves. -/
def overZero (a b : Number) : Except Fault Number :=
  if a.isNaN || a.isZero then .ok nan
  else do
    let x ← a.double
    let y ← b.double
    .ok (.float (Double.ofMagnitudeBits (Double.isNegative x != Double.isNegative y)
      Double.infinityBits))

/-- The quotient over the extended reals. -/
def quotient (a b : Number) : Except Fault Number :=
  match exactQuotient a b with
  | .error .divisionByZero => overZero a b
  | result => result

/-! ## Powers -/

/-- Whether a double is an odd integer. -/
def isOdd (y : Float) : Bool :=
  match Double.toInt? y with
  | some n => n % 2 == 1
  | none => false

/-- The power of a positive finite base, negated on request; it may overflow. -/
def positivePower (negated : Bool) (x y : Float) : Except Fault Float :=
  if x == 1 then .ok (if negated then -1 else 1)
  else
    let r := x.pow y
    if Double.isInfinite r then .error .overflow else .ok (if negated then -r else r)

/-- The power with an infinite exponent. -/
def infinitePower (x y : Float) : Float :=
  if x.abs == 1 then 1
  else if decide (0 < y) == decide (1 < x.abs) then Double.infinity
  else 0

/-- The power of an infinite base. -/
def powerOfInfinite (x y : Float) : Float :=
  if 0 < y then (if isOdd y then x else x.abs)
  else if isOdd y then Double.ofMagnitudeBits (Double.isNegative x) 0
  else 0

/-- The power of doubles. A negative base with a fractional exponent has no real power. -/
def doublePower (x y : Float) : Except Fault Float :=
  if y == 0 then .ok 1
  else if x.isNaN then .ok x
  else if y.isNaN then .ok (if x == 1 then 1 else y)
  else if Double.isInfinite y then .ok (infinitePower x y)
  else if Double.isInfinite x then .ok (powerOfInfinite x y)
  else if x == 0 then
    if y < 0 then .error .divisionByZero else .ok (if isOdd y then x else 0)
  else if x < 0 then
    if (Double.toInt? y).isSome then positivePower (isOdd y) (-x) y
    else do
      let _ ← positivePower false (-x) y
      .ok Double.nan
  else positivePower false x y

/-- The power of an integer. A base of size at most one has the same power for all positive
exponents of one parity, so that the size of the exponent does not matter. -/
def wholePower (base : Int) (exponent : Nat) : Int :=
  if base.natAbs ≤ 1 then base ^ (if exponent = 0 then 0 else 2 - exponent % 2)
  else base ^ exponent

theorem pow_add_three {base : Int} (small : base.natAbs ≤ 1) (n : Nat) :
    base ^ (n + 3) = base ^ (n + 1) := by
  have cases : base = -1 ∨ base = 0 ∨ base = 1 := by omega
  rcases cases with rfl | rfl | rfl <;> simp [Int.pow_succ]

theorem wholePower_eq_pow (base : Int) : ∀ exponent : Nat,
    wholePower base exponent = base ^ exponent
  | 0 => by simp [wholePower]
  | 1 => by simp [wholePower]
  | 2 => by simp [wholePower]
  | n + 3 => by
    have smaller := wholePower_eq_pow base (n + 1)
    unfold wholePower at smaller ⊢
    split
    · next small =>
      rw [pow_add_three small, ← smaller, if_pos small]
      have parity : (n + 3) % 2 = (n + 1) % 2 := by omega
      simp [parity]
    · rfl

/-- The power; what lies beyond the doubles, and a negative power of zero, fail. -/
def exactPower (a b : Number) : Except Fault Number :=
  match a.whole?, b.whole? with
  | some m, some n =>
    if 0 ≤ n then .ok (.int (wholePower m n.toNat))
    else do
      let x ← a.double
      let y ← b.double
      .ok (.float (← doublePower x y))
  | _, _ => do
    let x ← a.double
    let y ← b.double
    .ok (.float (← doublePower x y))

/-- The power over the extended reals: what fails for its size is infinite. -/
def power (a b : Number) : Except Fault Number :=
  match exactPower a b with
  | .error .divisionByZero | .error .overflow | .error (.conversion .tooLarge) => .ok infinity
  | result => result

end Number

end Grapher
