import Grapher.Decimal.Conversion
import Grapher.Tree.Basic

/-!
# Trees as plain data

Trees are exchanged as plain data: a number for a number, a text for a symbol, a list with the
head first for an operation. A record may stand for a number, a symbol or an operation by its
field. Whole numbers are given out as integers.

Data that is no tree is refused with the reason; messages show the offending datum.
-/

set_option autoImplicit false

namespace Grapher

/-- Plain data. -/
inductive Datum where
  | null
  | bool (value : Bool)
  | int (value : Int)
  | float (value : Float)
  | text (value : String)
  | list (items : List Datum)
  | record (fields : List (String × Datum))

/-- Why data is no tree. -/
inductive DatumError where
  | truthValue
  | number (reason : DoubleError)
  | symbolName
  | unknownRecord (datum : Datum)
  | emptyList
  | headNotText (datum : Datum)
  | notTree (datum : Datum)
  | notArgument (datum : Datum)

namespace Datum

/-- The word for a truth value. -/
def boolText (value : Bool) : String := if value then "True" else "False"

mutual

/-- The display text of a datum. -/
def display : Datum → String
  | .null => "None"
  | .bool value => boolText value
  | .int value => Decimal.intText value
  | .float value => Decimal.doubleText value
  | .text value => Text.quoted value
  | .list items => "[" ++ ", ".intercalate (displayItems items) ++ "]"
  | .record fields => "\x7b" ++ ", ".intercalate (displayFields fields) ++ "\x7d"

/-- The display texts of list items. -/
def displayItems : List Datum → List String
  | [] => []
  | item :: items => display item :: displayItems items

/-- The display texts of the fields of a record. -/
def displayFields : List (String × Datum) → List String
  | [] => []
  | (key, value) :: fields => (Text.quoted key ++ ": " ++ display value) :: displayFields fields

end

/-- The field of a record with the given key. -/
def field? (key : String) (fields : List (String × Datum)) : Option Datum :=
  fields.lookup key

/-- A datum taken as a double: truth values count as 0 and 1, texts are read. -/
def toDouble : Datum → Except DoubleError Float
  | .null => .error (.notNumeric .null)
  | .bool value => .ok (Decimal.doubleOfBool value)
  | .int value => Decimal.doubleOfInt value
  | .float value => .ok value
  | .text value => Decimal.doubleOfText value
  | .list _ => .error (.notNumeric .list)
  | .record _ => .error (.notNumeric .record)

end Datum

namespace DatumError

/-- The message for data that is no tree. -/
def message : DatumError → String
  | .truthValue => "booleans are not expression nodes"
  | .number reason => reason.message
  | .symbolName => "symbol names must be strings"
  | .unknownRecord datum => "unrecognised MathJSON object: " ++ datum.display
  | .emptyList => "empty MathJSON list"
  | .headNotText datum => "MathJSON head must be a string, got " ++ datum.display
  | .notTree datum => "cannot convert " ++ datum.display ++ " to a node"
  | .notArgument datum => "cannot build a node from " ++ datum.display

end DatumError

namespace Node

/-- A number given as an integer. -/
def ofInt (n : Int) : Except DatumError Node :=
  match Decimal.doubleOfInt n with
  | .ok x => .ok (.number x)
  | .error reason => .error (.number reason)

mutual

/-- The tree that a datum stands for. A record is asked for a number, a symbol and a tree in that
order. -/
def ofDatum : Datum → Except DatumError Node
  | .null => .error (.notTree .null)
  | .bool _ => .error .truthValue
  | .int value => ofInt value
  | .float value => .ok (.number value)
  | .text name => .ok (.symbol name)
  | .list items =>
    match items with
    | [] => .error .emptyList
    | .text name :: args => do .ok (.op (.ofName name) (← ofData args))
    | head :: _ => .error (.headNotText head)
  | .record fields =>
    match Datum.field? "num" fields with
    | some datum =>
      match datum.toDouble with
      | .ok x => .ok (.number x)
      | .error reason => .error (.number reason)
    | none =>
      match Datum.field? "sym" fields with
      | some (.text name) => .ok (.symbol name)
      | some _ => .error .symbolName
      | none =>
        match ofField "fn" fields with
        | some result => result
        | none => .error (.unknownRecord (.record fields))

/-- The trees of a list of data, or the first refusal. -/
def ofData : List Datum → Except DatumError (List Node)
  | [] => .ok []
  | datum :: data => do
    let node ← ofDatum datum
    let nodes ← ofData data
    .ok (node :: nodes)

/-- The tree in the field with the given key, if there is such a field. -/
def ofField (key : String) : List (String × Datum) → Option (Except DatumError Node)
  | [] => none
  | (other, datum) :: fields => if other == key then some (ofDatum datum) else ofField key fields

end

mutual

/-- The datum of a tree. -/
def toDatum : Node → Datum
  | .number value =>
    match Double.toInt? value with
    | some whole => .int whole
    | none => .float value
  | .symbol name => .text name
  | .op head args => .list (.text head.name :: toData args)

/-- The data of argument trees. -/
def toData : List Node → List Datum
  | [] => []
  | node :: nodes => toDatum node :: toData nodes

end

/-- An argument given as a plain number or name. -/
def ofArgument : Datum → Except DatumError Node
  | .bool _ => .error .truthValue
  | .int value => ofInt value
  | .float value => .ok (.number value)
  | .text name => .ok (.symbol name)
  | datum => .error (.notArgument datum)

/-- The operation with the given head word and plain arguments. -/
def build (word : String) (args : List Datum) : Except DatumError Node := do
  .ok (.op (.ofName word) (← args.mapM ofArgument))

end Node

end Grapher
