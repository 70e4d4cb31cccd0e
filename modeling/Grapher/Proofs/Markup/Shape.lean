import Grapher.Proofs.Decimal.Rounding
import Grapher.Proofs.Double.Bits
import Grapher.Proofs.Markup.Lexemes
import Grapher.Proofs.Program.Writable

/-!
# Parsed trees at every place

What the shape of a parsed tree means for each place in it: how many arguments an operator has
there, that its numbers are not negative, and that its names, where they can be names of a program,
are of ASCII characters. As integrals name their variable, the reading of a parsed tree does not
depend on the default variable.
-/

set_option autoImplicit false

namespace Grapher

namespace Markup

variable {node : Node} {operator : Operator}

/-- Whether an operator can have so many arguments in a parsed tree. -/
def takes : Operator → Nat → Bool
  | .or, count | .and, count | .add, count | .multiply, count | .invisible, count
  | .relation _, count | .sequence, count => 2 ≤ count
  | .subtract, count | .divide, count | .power, count => count == 2
  | .not, count | .negate, count | .prime, count => count == 1
  | .elementary .root, count => 1 ≤ count
  | .elementary _, _ => true
  | .delimiter, count => count ≤ 1
  | .integrate, count | .function, count => count == 2
  | .limits, count => count == 3
  | .rational, _ | .tuple, _ | .lambda, _ | .block, _ | .hold, _ | .triple, _ => false

theorem takes_of_takesMany (many : takesMany operator = true) {count : Nat} (several : 2 ≤ count) :
    takes operator count = true := by
  cases operator with
  | or | and | add | multiply | invisible | relation => exact decide_eq_true several
  | _ => cases many

theorem takes_two (two : takesTwo operator = true) : takes operator 2 = true := by
  cases operator with
  | subtract | divide | power => rfl
  | _ => cases two

theorem takes_one (one : takesOne operator = true) : takes operator 1 = true := by
  cases operator with
  | not | negate | prime => rfl
  | _ => cases one

theorem takes_elementary {function : Elementary} {args : List Node}
    (root : function = .root → args ≠ []) : takes (.elementary function) args.length = true := by
  cases function with
  | root => exact decide_eq_true (List.length_pos_iff.mpr (root rfl))
  | _ => rfl

section Throughout

variable {kinds : Kinds} {property : Node → Prop}

/-- A property holds throughout a formed tree if it holds of its numbers and symbols, and of all
operations with as many arguments as they can have. -/
theorem Formed.throughout (numbers : ∀ value, kinds.literal value → property (.number value))
    (names : ∀ name, kinds.word name → property (.symbol name))
    (operations : ∀ operator args, takes operator args.length = true → property (.of operator args))
    (formed : Formed kinds node) : node.Throughout property := by
  have operation : ∀ {operator : Operator} {args : List Node},
      takes operator args.length = true → (∀ arg ∈ args, arg.Throughout property) →
      (Node.of operator args).Throughout property :=
    fun shaped inside => .op (operations _ _ shaped) inside
  induction formed with
  | number literal => exact .number (numbers _ literal)
  | symbol word => exact .symbol (names _ word)
  | many many count _ ih => exact operation (takes_of_takesMany many count) ih
  | two shaped _ _ first second => exact operation (takes_two shaped) (forall_mem_pair first second)
  | one shaped _ only => exact operation (takes_one shaped) (List.forall_mem_singleton.mpr only)
  | function root _ ih => exact operation (takes_elementary root) ih
  | noItem => exact operation rfl (List.forall_mem_nil _)
  | item _ only => exact operation rfl (List.forall_mem_singleton.mpr only)
  | items count _ ih =>
    refine operation rfl (List.forall_mem_singleton.mpr ?_)
    exact operation (decide_eq_true count) ih
  | @integral body lower upper name word _ _ _ inside low high =>
    have symbol := Node.Throughout.symbol (names _ word)
    have function : (Node.of .function [body, .symbol name]).Throughout property :=
      operation rfl (forall_mem_pair inside symbol)
    have limits : (Node.of .limits [.symbol name, lower, upper]).Throughout property :=
      operation rfl (List.forall_mem_cons.mpr ⟨symbol, forall_mem_pair low high⟩)
    exact operation rfl (forall_mem_pair function limits)

end Throughout

/-! ## Numbers and names -/

/-- What holds at each place of a parsed tree: numbers are defined and not negative, and operations
have an operator with as many arguments as it can have. -/
def IsShaped : Node → Prop
  | .number value => value.isNaN = false ∧ Double.isNegative value = false
  | .symbol _ => True
  | .of operator args => takes operator args.length = true
  | .op (.call _ _) _ => False

theorem shaped_of_formed (formed : Formed scannedKinds node) : node.Throughout IsShaped := by
  refine formed.throughout ?_ (fun _ _ => trivial) (fun _ _ => id)
  rintro value ⟨decimal, rfl⟩
  exact ⟨Decimal.isNaN_toDouble false decimal, Decimal.isNegative_toDouble false decimal⟩

theorem isAscii_operator (operator : Operator) : Program.isAscii operator.name = true := by
  cases operator with
  | elementary function => cases function <;> decide
  | relation relation => cases relation <;> decide
  | _ => decide

/-- A scanned name that can be a name of a program has no blanks in it. -/
theorem isAscii_of_word {name : String} (word : scannedKinds.word name)
    (named : Reading.isName name = true) : Program.isAscii name = true := by
  rw [Reading.isName, Bool.and_eq_true] at named
  have rest := Text.isIdentifierRest_of_isIdentifier named.1
  rw [Program.isAscii, List.all_eq_true]
  intro c member
  rcases word.2 c member with letter | ⟨-, blank⟩
  · exact decide_eq_true (small_of_isNameChar letter)
  · rw [Text.isBlank_of_isIdentifierRest (rest c member)] at blank
    cases blank

theorem spellable_of_formed (formed : Formed scannedKinds node) : node.Spellable := by
  refine formed.throughout ?_ ?_ ?_
  · intro value _ word found
    cases found
  · intro name word other found named
    cases found
    exact isAscii_of_word word named
  · intro operator args _ word found _
    cases found
    exact isAscii_operator operator

/-! ## The default variable -/

open Reading Annotated

theorem readOperator_congr (other : operator ≠ .integrate) (a b : String) (args : List Annotated) :
    readOperator a operator args = readOperator b operator args := by
  cases operator with
  | integrate => exact absurd rfl other
  | _ => rfl

theorem annotate_of_congr (other : operator ≠ .integrate) {a b : String} {args : List Node}
    (same : ∀ arg ∈ args, annotate a arg = annotate b arg) :
    annotate a (.of operator args) = annotate b (.of operator args) := by
  have maps : annotateArgs a args = annotateArgs b args := by
    rw [annotateArgs_eq_map, annotateArgs_eq_map]
    exact List.map_congr_left same
  rw [annotate, annotate, maps, readOperation, readOperation, readOperator_congr other a b]

/-- The reading of a tree without integrals does not depend on the default variable. -/
theorem annotate_of_throughout {property : Node → Prop}
    (refuses : ∀ args, ¬ property (.of .integrate args)) (a b : String) :
    ∀ {node : Node}, node.Throughout property → annotate a node = annotate b node
  | .number _, _ | .symbol _, _ => rfl
  | .op head args, free => by
    have same : ∀ arg ∈ args, annotate a arg = annotate b arg := fun arg member =>
      annotate_of_throughout refuses a b (free.within (.arg member))
    cases head with
    | operator operator =>
      refine annotate_of_congr ?_ same
      rintro rfl
      exact refuses args free.here
    | call name unknown =>
      have maps : annotateArgs a args = annotateArgs b args := by
        rw [annotateArgs_eq_map, annotateArgs_eq_map]
        exact List.map_congr_left same
      rw [annotate, annotate, maps]
      rfl
termination_by node => sizeOf node
decreasing_by exact (Node.Within.arg member).sizeOf_lt

/-- The reading of an integral that names its variable does not depend on the default variable. -/
theorem integral?_congr {name : String} (some : name ≠ "") (body lower upper : Node)
    (a b here : String) :
    integral? a (annotate here (.of .function [body, .symbol name]))
        (annotate here (.of .limits [.symbol name, lower, upper]))
      = integral? b (annotate here (.of .function [body, .symbol name]))
        (annotate here (.of .limits [.symbol name, lower, upper])) := by
  have integrand : Node.integrand? (.of .function [body, .symbol name]) = .some (name, body) := rfl
  have limits : Node.limits? (.of .limits [.symbol name, lower, upper])
      = .some (.some name, lower, upper) := rfl
  unfold integral?
  rw [integrand?_annotate, limits?_annotate, integrand, limits]
  simp only [Option.map_some, Option.bind_eq_bind, Option.bind_some, Option.getD_some,
    beq_eq_false_iff_ne.mpr some, Bool.false_eq_true, if_false]

/-- The reading of a formed tree does not depend on the default variable. -/
theorem annotate_congr {kinds : Kinds} (some : ∀ name, kinds.word name → name ≠ "") {node : Node}
    (formed : Formed kinds node) (a b : String) : annotate a node = annotate b node := by
  induction formed with
  | number literal | symbol word | noItem => rfl
  | many shaped count _ ih => exact annotate_of_congr (by rintro rfl; cases shaped) ih
  | two shaped _ _ first second =>
    exact annotate_of_congr (by rintro rfl; cases shaped) (forall_mem_pair first second)
  | one shaped _ only =>
    exact annotate_of_congr (by rintro rfl; cases shaped) (List.forall_mem_singleton.mpr only)
  | function root _ ih => exact annotate_of_congr Operator.noConfusion ih
  | item _ only =>
    exact annotate_of_congr Operator.noConfusion (List.forall_mem_singleton.mpr only)
  | items count _ ih =>
    refine annotate_of_congr Operator.noConfusion (List.forall_mem_singleton.mpr ?_)
    exact annotate_of_congr Operator.noConfusion ih
  | @integral body lower upper name word _ _ _ inside low high =>
    have function : annotate a (.of .function [body, .symbol name])
        = annotate b (.of .function [body, .symbol name]) :=
      annotate_of_congr Operator.noConfusion (forall_mem_pair inside rfl)
    have limits : annotate a (.of .limits [.symbol name, lower, upper])
        = annotate b (.of .limits [.symbol name, lower, upper]) :=
      annotate_of_congr Operator.noConfusion
        (List.forall_mem_cons.mpr ⟨rfl, forall_mem_pair low high⟩)
    have reading := integral?_congr (some name word) body lower upper a b b
    unfold integralTree
    rw [annotate, annotate, annotateArgs_eq_map, annotateArgs_eq_map]
    simp only [List.map_cons, List.map_nil, function, limits, readOperation, readOperator, reading]

end Markup

end Grapher
