import Grapher.Value.Basic
import Grapher.Value.Functions

/-!
# Builtin functions on values

Each builtin takes a fixed number of arguments, except the logarithm, which may have a base, and
the extrema, which take any number of arguments or the characters of one text.
-/

set_option autoImplicit false

namespace Grapher

namespace Value

/-- A value taken as an integer, toward zero; texts are read. -/
def asInt : Value → Except Fault Int
  | .number (.float x) =>
    match Double.truncate? x with
    | some n => .ok n
    | none => .error (if x.isNaN then .outsideDomain else .overflow)
  | .number a =>
    match a.whole? with
    | some n => .ok n
    | none => .error .wrongKind
  | .text s =>
    match Decimal.readInt? s with
    | some n => .ok n
    | none => .error (.notInteger s)
  | _ => .error .wrongKind

/-- Whether a value taken as a double is an odd integer. -/
def isOddInteger (degree : Value) : Except Fault Bool := do
  let x ← degree.double
  if (Double.toInt? x).isSome then
    let n ← degree.asInt
    .ok (n % 2 == 1)
  else .ok false

/-- The real root of a given degree; an odd root of a negative number is negative. The parity of
the degree matters for negative radicands only. -/
def nthRoot (radicand degree : Value) : Except Fault Value := do
  if degree.equal (.int 0) then .ok nan
  else
    let negative ← relates .less radicand (.int 0)
    let odd ← if negative then isOddInteger degree else .ok false
    if odd then
      let positive ← radicand.negate
      let exponent ← exactQuotient (.float 1) degree
      let root ← power positive exponent
      root.negate
    else
      let exponent ← exactQuotient (.float 1) degree
      power radicand exponent

/-- The extreme of a nonempty list, the first of equals. -/
def extremeOf (relation : Relation) (best : Value) : List Value → Except Fault Value
  | [] => .ok best
  | next :: rest => do
    if ← relates relation next best then extremeOf relation next rest
    else extremeOf relation best rest

/-- The extreme of the arguments, or of the characters of a single text. -/
def extreme (relation : Relation) : List Value → Except Fault Value
  | [] => .error .wrongKind
  | [.text s] =>
    match s.toList.map fun c => Value.text (String.singleton c) with
    | [] => .error .outsideDomain
    | first :: rest => extremeOf relation first rest
  | [_] => .error .wrongKind
  | first :: rest => extremeOf relation first rest

end Value

namespace Primitive

/-- A function of one number. -/
def unary (function : Number → Except Fault Number) : List Value → Except Fault Value
  | [.number a] => do
    let result ← function a
    .ok (.number result)
  | _ => .error .wrongKind

/-- The logarithm, natural or to a base; an absent base is no base. -/
def logarithm : List Value → Except Fault Value
  | [a, .absent] => unary Number.naturalLog [a]
  | [.number a, .number base] => do
    let result ← a.logBase base
    .ok (.number result)
  | [.number a, _] => do
    let _ ← a.naturalLog
    .error .wrongKind
  | args => unary Number.naturalLog args

/-- Applies a builtin function. -/
def apply : Primitive → List Value → Except Fault Value
  | .sin => unary (Number.real false Float.sin)
  | .cos => unary (Number.real false Float.cos)
  | .tan => unary (Number.real false Float.tan)
  | .sec => unary (Number.reciprocal Float.cos)
  | .csc => unary (Number.reciprocal Float.sin)
  | .cot => unary Number.cotangent
  | .asin => unary (Number.real false Float.asin)
  | .acos => unary (Number.real false Float.acos)
  | .atan => unary (Number.real false Float.atan)
  | .sinh => unary (Number.real true Float.sinh)
  | .cosh => unary (Number.real true Float.cosh)
  | .tanh => unary (Number.real false Float.tanh)
  | .sqrt => unary (Number.real false Float.sqrt)
  | .abs => unary fun a => .ok a.abs
  | .exp => unary (Number.real true Float.exp)
  | .log => logarithm
  | .log10 => unary Number.decimalLog
  | .nthRoot => fun
    | [radicand, degree] => Value.nthRoot radicand degree
    | _ => .error .wrongKind
  | .floor => unary (Number.rounded Double.floor?)
  | .ceil => unary (Number.rounded Double.ceil?)
  | .sign => unary fun a => .ok a.sign
  | .min => Value.extreme .less
  | .max => Value.extreme .greater

end Primitive

/-- The value of a builtin name. -/
def builtin? (name : String) : Option Value :=
  match Constant.ofName? name with
  | some constant => some (.float constant.value)
  | none => (Primitive.ofName? name).map fun p => .function (.primitive p)

end Grapher
