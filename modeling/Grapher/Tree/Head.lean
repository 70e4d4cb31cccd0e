/-!
# Heads of operations

An operation of a formula tree carries a head. Most heads are operators with a fixed meaning: the
arithmetic operators, the elementary functions, the six relations, the connectives, and the marks
of grouping, differentiation and integration. Every other word is the name of a function that the
scope has to supply.

A word that names an operator is never a call (`Head.call` carries the proof), so a head and its
word determine each other: `Head.ofName_name`.
-/

set_option autoImplicit false

namespace Grapher

/-- The six relations between two quantities. -/
inductive Relation where
  | equal | notEqual | less | lessEqual | greater | greaterEqual
  deriving DecidableEq, Repr

/-- The elementary functions. -/
inductive Elementary where
  | sqrt | root
  | sin | cos | tan | sec | csc | cot
  | arcsin | arccos | arctan
  | sinh | cosh | tanh
  | abs | exp | ln | log
  | floor | ceil | sign
  deriving DecidableEq, Repr

/-- The heads with a fixed meaning. -/
inductive Operator where
  | add | subtract | multiply | divide | rational | power | negate
  | elementary (function : Elementary)
  | relation (relation : Relation)
  | and | or | not
  | prime | invisible | delimiter | sequence | tuple
  | integrate | function | lambda | block | hold | limits | triple
  deriving DecidableEq, Repr

namespace Relation

/-- All relations. -/
def all : List Relation := [.equal, .notEqual, .less, .lessEqual, .greater, .greaterEqual]

/-- The word of a relation as a head. -/
def name : Relation → String
  | .equal => "Equal"
  | .notEqual => "NotEqual"
  | .less => "Less"
  | .lessEqual => "LessEqual"
  | .greater => "Greater"
  | .greaterEqual => "GreaterEqual"

/-- The sign of a relation between two terms of a program. -/
def symbol : Relation → String
  | .equal => "=="
  | .notEqual => "!="
  | .less => "<"
  | .lessEqual => "<="
  | .greater => ">"
  | .greaterEqual => ">="

/-- Whether equal terms satisfy the relation. -/
def isInclusive : Relation → Bool
  | .equal | .lessEqual | .greaterEqual => true
  | .notEqual | .less | .greater => false

end Relation

namespace Elementary

/-- All elementary functions. -/
def all : List Elementary := [
  .sqrt, .root, .sin, .cos, .tan, .sec, .csc, .cot, .arcsin, .arccos, .arctan,
  .sinh, .cosh, .tanh, .abs, .exp, .ln, .log, .floor, .ceil, .sign]

/-- The word of an elementary function as a head. -/
def name : Elementary → String
  | .sqrt => "Sqrt" | .root => "Root"
  | .sin => "Sin" | .cos => "Cos" | .tan => "Tan"
  | .sec => "Sec" | .csc => "Csc" | .cot => "Cot"
  | .arcsin => "Arcsin" | .arccos => "Arccos" | .arctan => "Arctan"
  | .sinh => "Sinh" | .cosh => "Cosh" | .tanh => "Tanh"
  | .abs => "Abs" | .exp => "Exp" | .ln => "Ln" | .log => "Log"
  | .floor => "Floor" | .ceil => "Ceil" | .sign => "Sign"

end Elementary

namespace Operator

/-- All operators. -/
def all : List Operator :=
  ([.add, .subtract, .multiply, .divide, .rational, .power, .negate] : List Operator)
    ++ Elementary.all.map Operator.elementary
    ++ Relation.all.map Operator.relation
    ++ ([.and, .or, .not, .prime, .invisible, .delimiter, .sequence, .tuple,
        .integrate, .function, .lambda, .block, .hold, .limits, .triple] : List Operator)

/-- The word of an operator. -/
def name : Operator → String
  | .add => "Add"
  | .subtract => "Subtract"
  | .multiply => "Multiply"
  | .divide => "Divide"
  | .rational => "Rational"
  | .power => "Power"
  | .negate => "Negate"
  | .elementary named => named.name
  | .relation sign => sign.name
  | .and => "And"
  | .or => "Or"
  | .not => "Not"
  | .prime => "Prime"
  | .invisible => "InvisibleOperator"
  | .delimiter => "Delimiter"
  | .sequence => "Sequence"
  | .tuple => "Tuple"
  | .integrate => "Integrate"
  | .function => "Function"
  | .lambda => "Lambda"
  | .block => "Block"
  | .hold => "Hold"
  | .limits => "Limits"
  | .triple => "Triple"

/-- The operator with a given word. -/
def ofName? (word : String) : Option Operator :=
  all.find? (·.name == word)

/-- The word of an operator finds it again. -/
theorem ofName?_name (operator : Operator) : ofName? operator.name = some operator := by
  cases operator with
  | elementary named => cases named <;> decide +kernel
  | relation sign => cases sign <;> decide +kernel
  | _ => decide +kernel

end Operator

/-- The head of an operation: an operator, or a call of the function with another name. -/
inductive Head where
  | operator (operator : Operator)
  | call (name : String) (unknown : Operator.ofName? name = none)
  deriving DecidableEq, Repr

namespace Head

/-- The head that a word stands for. -/
def ofName (word : String) : Head :=
  match found : Operator.ofName? word with
  | some known => .operator known
  | none => .call word found

/-- The word of a head. -/
def name : Head → String
  | .operator known => known.name
  | .call name _ => name

/-- A head is determined by its word. -/
theorem ofName_name (head : Head) : ofName head.name = head := by
  cases head with
  | operator known =>
    simp only [ofName, name]
    split
    · next found heq => rw [Operator.ofName?_name] at heq; cases heq; rfl
    · next heq => rw [Operator.ofName?_name] at heq; cases heq
  | call name unknown =>
    simp only [ofName, Head.name]
    split
    · next heq => rw [unknown] at heq; cases heq
    · rfl

end Head

end Grapher
