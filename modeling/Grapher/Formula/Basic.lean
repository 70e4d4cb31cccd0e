import Grapher.Evaluation.Apply
import Grapher.Markup.Parser
import Grapher.Native.OfTree
import Grapher.Program.Parser
import Grapher.Program.Writer
import Grapher.Settings

/-!
# Compiled formulas

Compiling a formula goes from its text over a tree and a program text to a program, and to native
code where there is any. Each stage can be the last one reached; the formula then keeps what was
made so far and the reason. Nothing is thrown: a formula that cannot be compiled is a formula too.
-/

set_option autoImplicit false

namespace Grapher

/-- How far the compilation of a formula came. -/
inductive Build where
  /-- Nothing was written. -/
  | empty
  /-- The text has no tree. -/
  | unparsed (reason : Markup.ParseError)
  /-- The tree has no program. -/
  | unsupported (tree : Node)
  /-- The program text is no program. -/
  | malformed (tree : Node) (text : String) (reason : Program.SyntaxError)
  /-- The formula can be run. -/
  | ready (tree : Node) (text : String) (routine : Routine)

/-- A formula: what was written, and what became of it. -/
structure Formula where
  raw : String
  build : Build

namespace Build

/-- Compiles a tree. -/
def ofTree (settings : Settings) (tree : Node) : Build :=
  match Program.textOf? settings.defaultVariable tree with
  | none => .unsupported tree
  | some text =>
    match Program.parse text with
    | .error reason => .malformed tree text reason
    | .ok program =>
      let native := if settings.nativeEnabled then Native.ofNode? tree else none
      .ready tree text ⟨program, native⟩

/-- Compiles a text. -/
def ofText (settings : Settings) (text : String) : Build :=
  if (Text.trim text.toList).isEmpty then .empty
  else
    match Markup.parse text with
    | .error reason => .unparsed reason
    | .ok tree => ofTree settings tree

/-- The program text, which is empty for a tree without a program. -/
def text? : Build → Option String
  | .empty | .unparsed _ => none
  | .unsupported _ => some ""
  | .malformed _ text _ | .ready _ text _ => some text

/-- What a formula runs, if it can be run. -/
def routine? : Build → Option Routine
  | .ready _ _ routine => some routine
  | _ => none

/-- Why a formula cannot be run. -/
def error? : Build → Option String
  | .empty => some "Empty"
  | .unparsed reason => some reason.message
  | .unsupported _ => some "Unsupported expression"
  | .malformed _ _ reason => some reason.message
  | .ready _ _ _ => none

end Build

namespace Formula

/-- The formula of a text. -/
def ofText (settings : Settings) (text : String) : Formula :=
  ⟨text, .ofText settings text⟩

/-- The formula of a tree. What was written defaults to the display of the tree. -/
def ofTree (settings : Settings) (tree : Node) (raw : String) : Formula :=
  ⟨if raw == "" then tree.text else raw, .ofTree settings tree⟩

/-- What the formula runs, if it can be run. -/
def routine? (formula : Formula) : Option Routine := formula.build.routine?

/-- Whether the formula can be run. -/
def isValid (formula : Formula) : Bool := formula.routine?.isSome

/-- The native code of the formula, if it has any. -/
def native? (formula : Formula) : Option Native.Code := formula.routine?.bind (·.native)

/-- The display of the formula. -/
def display (formula : Formula) : String :=
  let state :=
    match formula.build.error? with
    | none => "valid"
    | some reason => "invalid: " ++ reason
  "CompiledFunction(" ++ Text.quoted formula.raw ++ ", " ++ state ++ ")"

/-- The display of the program, if there is one. -/
def programDisplay? (formula : Formula) : Option String :=
  match formula.build with
  | .ready _ text _ => some ("CompiledProgram(" ++ Text.quoted text ++ ")")
  | _ => none

/-- The display of the native code, if there is any. -/
def nativeDisplay? (formula : Formula) : Option String :=
  formula.native?.map fun code => "NativeFunction(" ++ Text.quoted code.source ++ ")"

end Formula

end Grapher
