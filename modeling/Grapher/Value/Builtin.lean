import Grapher.Double.Units

/-!
# Builtin names

The constants and functions that every formula can use without the scope supplying them.
-/

set_option autoImplicit false

namespace Grapher

/-- The builtin constants. -/
inductive Constant where
  | pi | e | infinity | nan
  deriving DecidableEq, Repr

/-- The builtin functions. -/
inductive Primitive where
  | sin | cos | tan | sec | csc | cot
  | asin | acos | atan
  | sinh | cosh | tanh
  | sqrt | abs | exp | log | log10 | nthRoot
  | floor | ceil | sign | min | max
  deriving DecidableEq, Repr

namespace Constant

/-- All builtin constants. -/
def all : List Constant := [.pi, .e, .infinity, .nan]

/-- The name of a builtin constant. -/
def name : Constant → String
  | .pi => "pi"
  | .e => "e"
  | .infinity => "Infinity"
  | .nan => "NaN"

/-- The value of a builtin constant. -/
def value : Constant → Float
  | .pi => 3.141592653589793
  | .e => 2.718281828459045
  | .infinity => Double.infinity
  | .nan => Double.nan

/-- The builtin constant with a given name. -/
def ofName? (word : String) : Option Constant :=
  all.find? (·.name == word)

end Constant

namespace Primitive

/-- All builtin functions. -/
def all : List Primitive := [
  .sin, .cos, .tan, .sec, .csc, .cot, .asin, .acos, .atan, .sinh, .cosh, .tanh,
  .sqrt, .abs, .exp, .log, .log10, .nthRoot, .floor, .ceil, .sign, .min, .max]

/-- The name of a builtin function. -/
def name : Primitive → String
  | .sin => "sin" | .cos => "cos" | .tan => "tan"
  | .sec => "sec" | .csc => "csc" | .cot => "cot"
  | .asin => "asin" | .acos => "acos" | .atan => "atan"
  | .sinh => "sinh" | .cosh => "cosh" | .tanh => "tanh"
  | .sqrt => "sqrt" | .abs => "abs" | .exp => "exp"
  | .log => "log" | .log10 => "log10" | .nthRoot => "nthRoot"
  | .floor => "floor" | .ceil => "ceil" | .sign => "sign"
  | .min => "min" | .max => "max"

/-- The builtin function with a given name. -/
def ofName? (word : String) : Option Primitive :=
  all.find? (·.name == word)

end Primitive

/-- Whether a name is builtin. -/
def isBuiltinName (word : String) : Bool :=
  (Constant.ofName? word).isSome || (Primitive.ofName? word).isSome

end Grapher
