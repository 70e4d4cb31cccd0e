import Grapher.Value.Number

/-!
# Elementary functions of numbers

The real functions take a number as a double. A result that is undefined at a defined argument, or
infinite at a finite one, fails: the argument lies outside of the domain, or the result beyond the
doubles. The undefined number passes through.
-/

set_option autoImplicit false

namespace Grapher.Number

/-- A real function of one number; `grows` says whether an infinite result is an overflow. -/
def real (grows : Bool) (function : Float → Float) (a : Number) : Except Fault Number := do
  let x ← a.double
  let r := function x
  if r.isNaN && !x.isNaN then .error .outsideDomain
  else if Double.isInfinite r && Double.isFinite x then
    .error (if grows then .overflow else .outsideDomain)
  else .ok (.float r)

/-- A logarithm. Integers of any size have one: an integer beyond the doubles is scaled down by a
power of two first. -/
def logarithm (function : Float → Float) (a : Number) : Except Fault Number :=
  match a with
  | .float x =>
    if x ≤ 0 then .error .outsideDomain else .ok (.float (function x))
  | a =>
    match a.whole? with
    | none => .error .wrongKind
    | some n =>
      if n ≤ 0 then .error .outsideDomain
      else
        match Decimal.doubleOfInt n with
        | .ok x => .ok (.float (function x))
        | .error _ =>
          let power := n.natAbs.log2 + 1
          let scaled := Double.nearest false n.natAbs (2 ^ power)
          .ok (.float (function scaled + function 2 * Double.ofInt power))

/-- The natural logarithm. -/
def naturalLog : Number → Except Fault Number := logarithm Float.log

/-- The logarithm to the base ten. -/
def decimalLog : Number → Except Fault Number := logarithm Float.log10

/-- The logarithm to a given base. -/
def logBase (a base : Number) : Except Fault Number := do
  let x ← naturalLog a
  let y ← naturalLog base
  exactQuotient x y

/-- Rounds a number to an integer; infinities are too large, and the undefined number is outside of
the domain. -/
def rounded (round : Float → Option Int) : Number → Except Fault Number
  | .float x =>
    match round x with
    | some n => .ok (.int n)
    | none => .error (if x.isNaN then .outsideDomain else .overflow)
  | .bool value => .ok (.int (if value then 1 else 0))
  | .int n => .ok (.int n)

/-- The sign of a number as an integer. -/
def sign (a : Number) : Number :=
  if a.isNaN then nan
  else if relates .greater a (.int 0) then .int 1
  else if relates .less a (.int 0) then .int (-1)
  else .int 0

/-- The reciprocal of a real function. -/
def reciprocal (function : Float → Float) (a : Number) : Except Fault Number := do
  let x ← real false function a
  quotient (.float 1) x

/-- The cotangent. -/
def cotangent (a : Number) : Except Fault Number := do
  let x ← real false Float.cos a
  let y ← real false Float.sin a
  quotient x y

end Grapher.Number
