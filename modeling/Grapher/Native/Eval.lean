import Grapher.Evaluation.Run

/-!
# Running native code

A name of the scope must be there when it is used; a builtin name is taken from the scope or else
from the builtins. The direct functions are those of the builtins, whatever the scope says. A term
of a chain is evaluated in each link that it stands in. A failure anywhere makes the whole result
undefined.
-/

set_option autoImplicit false

namespace Grapher.Native

open Reading (Joiner Connective)

/-- The value of a reference. -/
def Reference.run : Reference → Run
  | .scope name => fun scope _ =>
    match scope.lookup name with
    | some value => .ok value
    | none => .error (.missing name)
  | .builtin name => .named [] name

/-- The operation of a joiner. -/
def operation : Joiner → Program.Arithmetic
  | .add => .add
  | .subtract => .subtract
  | .multiply => .multiply

/-- What a connective makes of two conditions. -/
def connect : Connective → Run → Run → Run
  | .and => .both
  | .or => .either

/-- Applies a direct function. -/
def Helper.apply : Helper → List Value → Except Fault Value
  | .log, [a, b] => Value.onNumbers Number.logBase a b
  | .sqrt, args => Primitive.sqrt.apply args
  | .sin, args => Primitive.sin.apply args
  | .cos, args => Primitive.cos.apply args
  | .tan, args => Primitive.tan.apply args
  | .abs, args => Primitive.abs.apply args
  | .exp, args => Primitive.exp.apply args
  | .log, args => Primitive.log.apply args
  | .log10, args => Primitive.log10.apply args
  | .divide, _ | .power, _ => .error .wrongKind

/-- A direct function of arguments. -/
def Helper.run : Helper → List Run → Run
  | .divide, [a, b] => .binary .divide a b
  | .power, [a, b] => .binary .power a b
  | function, args => .applied function.apply args

namespace Code

mutual

/-- The value of native code. -/
def eval (call : Apply) : Code → Run
  | .number value => .constant (.float value)
  | .reference target => target.run
  | .joined joiner parts => .folded (.binary (operation joiner)) (evalArgs call parts)
  | .helper function args => function.run (evalArgs call args)
  | .negate operand => .negated (eval call operand)
  | .not operand => .denied (eval call operand)
  | .connective joint parts => .folded (connect joint) ((evalArgs call parts).map .truth)
  | .chain terms relations =>
    .folded .both ((Chain.linksOf relations (evalArgs call terms)).map .related)
  | .call function args => .called call function.run (evalArgs call args)

/-- The values of several parts. -/
def evalArgs (call : Apply) : List Code → List Run
  | [] => []
  | code :: codes => eval call code :: evalArgs call codes

end

/-- The result of native code: its value, or the undefined number after any failure. -/
def run (call : Apply) (scope : Scope) (moment : Moment) (code : Code) : Value :=
  match code.eval call scope moment with
  | .ok value => value
  | .error _ => .nan

end Code

end Grapher.Native
