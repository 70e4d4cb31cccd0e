import Grapher.Reading.Term
import Grapher.Text.Quoted
import Grapher.Decimal.Layout
import Grapher.Tree.Chain
import Grapher.Value.Builtin

/-!
# Native code

Native code is the fast path of a formula: an expression of the host language over a scope, with
direct calls of the mathematical functions. It covers part of what readings can say. Names are
looked up in the scope where they are used; a builtin name is bound before the expression, to the
scope's entry if there is one.

The module gives the expressions, their source text, and which readings have native code.
-/

set_option autoImplicit false

namespace Grapher.Native

open Reading

/-- Functions that native code calls directly; the scope cannot replace them. -/
inductive Helper where
  | divide | power
  | sqrt | sin | cos | tan | abs | exp | log | log10
  deriving DecidableEq, Repr

/-- How native code refers to a name: in the scope, or bound in the prelude. -/
inductive Reference where
  | scope (name : String)
  | builtin (name : String)
  deriving DecidableEq, Repr

/-- A native expression. -/
inductive Code where
  | number (value : Float)
  | reference (reference : Reference)
  | joined (joiner : Joiner) (parts : List Code)
  | helper (helper : Helper) (args : List Code)
  | negate (operand : Code)
  | not (operand : Code)
  | connective (connective : Connective) (parts : List Code)
  | chain (terms : List Code) (relations : List Relation)
  | call (function : Reference) (args : List Code)

/-! ## Names -/

/-- The words that the host language keeps for itself. -/
def hostKeywords : List String := [
  "False", "None", "True", "and", "as", "assert", "async", "await", "break", "class", "continue",
  "def", "del", "elif", "else", "except", "finally", "for", "from", "global", "if", "import", "in",
  "is", "lambda", "nonlocal", "not", "or", "pass", "raise", "return", "try", "while", "with",
  "yield"]

/-- The names that native code uses itself. -/
def reservedNames : List String := ["scope", "bool", "abs"]

/-- Whether native code may refer to a name. -/
def isLocalName (name : String) : Bool :=
  Text.isIdentifier name && !hostKeywords.contains name && !(name.toList.head? == some '_')
    && !reservedNames.contains name

/-- The reference to a name of a tree. -/
def reference? (name : String) : Option Reference :=
  let name := resolveConstant name
  if isLocalName name then
    some (if isBuiltinName name then .builtin name else .scope name)
  else none

/-! ## Code of a reading -/

/-- The direct function for an elementary function of so many arguments. -/
def helper? : Elementary → Nat → Option Helper
  | .sqrt, 1 => some .sqrt
  | .sin, 1 => some .sin
  | .cos, 1 => some .cos
  | .tan, 1 => some .tan
  | .abs, 1 => some .abs
  | .exp, 1 => some .exp
  | .ln, 1 => some .log
  | .log, 1 => some .log10
  | .log, 2 => some .log
  | _, _ => none

mutual

/-- The native code of a reading, if it has any. -/
def ofTerm? : Term → Option Code
  | .number value => some (.number value)
  | .symbol name => (reference? name).map .reference
  | .joined joiner args => (ofTerms? args).map (.joined joiner)
  | .product factors => (ofTerms? factors).map (.joined .multiply)
  | .quotient numerator denominator => do
    some (.helper .divide [← ofTerm? numerator, ← ofTerm? denominator])
  | .power base exponent => do
    some (.helper .power [← ofTerm? base, ← ofTerm? exponent])
  | .negate operand => (ofTerm? operand).map .negate
  | .elementary function args => do
    some (.helper (← helper? function args.length) (← ofTerms? args))
  | .chain terms relations => (ofTerms? terms).map (.chain · relations)
  | .connective connective args => (ofTerms? args).map (.connective connective)
  | .not operand => (ofTerm? operand).map .not
  | .derivative _ _ => none
  | .derivativeHere _ => none
  | .call function args => do
    some (.call (← reference? function) (← ofTerms? args))
  | .integral _ _ _ _ => none

/-- The native code of each reading of a list. -/
def ofTerms? : List Term → Option (List Code)
  | [] => some []
  | term :: terms => do
    let code ← ofTerm? term
    let codes ← ofTerms? terms
    some (code :: codes)

end

/-! ## Source text -/

/-- The source text of a direct function. -/
def Helper.text : Helper → String
  | .divide => "_div"
  | .power => "_pow"
  | .sqrt => "_m.sqrt"
  | .sin => "_m.sin"
  | .cos => "_m.cos"
  | .tan => "_m.tan"
  | .abs => "abs"
  | .exp => "_m.exp"
  | .log => "_m.log"
  | .log10 => "_m.log10"

/-- The source text of a reference. -/
def Reference.text : Reference → String
  | .scope name => "scope[" ++ Text.quoted name ++ "]"
  | .builtin name => name

/-- The source text of a number. -/
def numberText (value : Float) : String :=
  if value.isNaN then "_m.nan"
  else if Double.isInfinite value then (if value < 0 then "(-_m.inf)" else "_m.inf")
  else if value < 0 then "(" ++ Decimal.doubleText value ++ ")"
  else Decimal.doubleText value

/-- The sign of a joiner. -/
def joinerText : Joiner → String
  | .add => " + "
  | .subtract => " - "
  | .multiply => " * "

/-- The word of a connective. -/
def connectiveText : Connective → String
  | .and => " and "
  | .or => " or "

/-- The links of a chain, more than one joined by `and`. -/
def chainText (terms : List String) (relations : List Relation) : String :=
  let links := (Chain.linksOf relations terms).map fun link =>
    "(" ++ link.left ++ " " ++ link.head.symbol ++ " " ++ link.right ++ ")"
  match links with
  | [link] => link
  | links => "(" ++ " and ".intercalate links ++ ")"

namespace Code

mutual

/-- The source text of native code. -/
def text : Code → String
  | .number value => numberText value
  | .reference target => target.text
  | .joined joiner parts => "(" ++ (joinerText joiner).intercalate (texts parts) ++ ")"
  | .helper function args => function.text ++ "(" ++ ", ".intercalate (texts args) ++ ")"
  | .negate operand => "(-" ++ text operand ++ ")"
  | .not operand => "(not " ++ text operand ++ ")"
  | .connective joiner parts =>
    let conditions := (texts parts).map fun part => "bool(" ++ part ++ ")"
    "(" ++ (connectiveText joiner).intercalate conditions ++ ")"
  | .chain terms relations => chainText (texts terms) relations
  | .call function args => function.text ++ "(" ++ ", ".intercalate (texts args) ++ ")"

/-- The source texts of several parts. -/
def texts : List Code → List String
  | [] => []
  | code :: codes => text code :: texts codes

end

/-- The builtin name of a reference, as a list of at most one. -/
def builtinOf : Reference → List String
  | .builtin name => [name]
  | .scope _ => []

mutual

/-- The builtin names in native code, in order of occurrence. -/
def builtins : Code → List String
  | .number _ => []
  | .reference target => builtinOf target
  | .joined _ parts => builtinsArgs parts
  | .helper _ args => builtinsArgs args
  | .negate operand => builtins operand
  | .not operand => builtins operand
  | .connective _ parts => builtinsArgs parts
  | .chain terms _ => builtinsArgs terms
  | .call function args => builtinOf function ++ builtinsArgs args

/-- The builtin names in several parts. -/
def builtinsArgs : List Code → List String
  | [] => []
  | code :: codes => builtins code ++ builtinsArgs codes

end

/-- The builtin names in native code, each once, in the order of their characters. -/
def boundNames (code : Code) : List String :=
  code.builtins.eraseDups.mergeSort fun first second => !(second < first)

/-- The line of the prelude that binds a builtin name. -/
def bindingLine (name : String) : String :=
  name ++ " = scope.get(" ++ Text.quoted name ++ ", _builtins[" ++ Text.quoted name ++ "])"

/-- The source text of the function over a scope. -/
def source (code : Code) : String :=
  let lines := code.boundNames.map bindingLine ++ ["return " ++ code.text]
  "def _native(scope):\n" ++ String.join (lines.map fun line => "    " ++ line ++ "\n")

end Code

end Grapher.Native
