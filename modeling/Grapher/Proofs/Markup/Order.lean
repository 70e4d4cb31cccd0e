import Grapher.Proofs.Markup.Grammar
import Mathlib.Data.List.Chain

/-!
# Reading order

The leaves of a tree, from left to right, are the numbers and the names of the formula in the order
in which they are written (`leaves_of_parse`). Trees are built in many shapes, flat, nested to the
left or to the right, and none of them moves a leaf. Only what a function word takes ahead of its
arguments, and the limits and the differential of an integral, stand elsewhere in the tree; rows
without them are `Straight`.
-/

set_option autoImplicit false

namespace Grapher

/-! ## Leaves of trees -/

/-- What stands at the end of a branch. -/
inductive Leaf where
  | number (value : Float)
  | symbol (name : String)

namespace Node

mutual

/-- The leaves of a tree, from left to right. -/
def leaves : Node → List Leaf
  | .number value => [.number value]
  | .symbol name => [.symbol name]
  | .op _ args => leavesArgs args

/-- The leaves of arguments, from left to right. -/
def leavesArgs : List Node → List Leaf
  | [] => []
  | node :: nodes => leaves node ++ leavesArgs nodes

end

@[simp] theorem leaves_number (value : Float) : (number value).leaves = [.number value] := rfl

@[simp] theorem leaves_symbol (name : String) : (symbol name).leaves = [.symbol name] := rfl

@[simp] theorem leaves_op (head : Head) (args : List Node) :
    (op head args).leaves = leavesArgs args := rfl

@[simp] theorem leavesArgs_nil : leavesArgs [] = [] := rfl

@[simp] theorem leavesArgs_cons (node : Node) (nodes : List Node) :
    leavesArgs (node :: nodes) = node.leaves ++ leavesArgs nodes := rfl

@[simp] theorem leavesArgs_append (nodes more : List Node) :
    leavesArgs (nodes ++ more) = leavesArgs nodes ++ leavesArgs more := by
  induction nodes with
  | nil => rfl
  | cons node nodes ih =>
    rw [List.cons_append, leavesArgs_cons, leavesArgs_cons, ih, List.append_assoc]

end Node

namespace Markup

open Node List

/-! ## Leaves of the trees that are built -/

theorem leaves_joined (operator : Operator) (first : Node) (more : List Node) :
    (joined operator first more).leaves = first.leaves ++ leavesArgs more := by
  cases more with
  | nil => simp [joined]
  | cons second more => rfl

theorem leaves_nestRight (first : Node) (more : List (Relation × Node)) :
    (nestRight first more).leaves = first.leaves ++ leavesArgs (more.map (·.2)) := by
  induction more generalizing first with
  | nil => simp [nestRight]
  | cons entry more ih =>
    rw [nestRight, leaves_op, leavesArgs_cons, leavesArgs_cons, ih]
    simp

theorem leaves_relationTree (first : Node) (more : List (Relation × Node)) :
    (relationTree first more).leaves = first.leaves ++ leavesArgs (more.map (·.2)) := by
  unfold relationTree
  split
  · simp
  · split
    · rfl
    · exact leaves_nestRight first _

/-- A fold of a run shows the leaves of the tree on the left, then those of the further operands:
the operands collected so far are those of the tree on the left. -/
theorem leaves_foldRun (collecting binary : Operator) {left : Node} {run : List Node}
    (collected : run = [] ∨ left = .of collecting run) (more : List (Bool × Node)) :
    (foldRun collecting binary left run more).leaves
      = left.leaves ++ leavesArgs (more.map (·.2)) := by
  induction more generalizing left run with
  | nil => simp [foldRun]
  | cons entry more ih =>
    obtain ⟨isCollected, right⟩ := entry
    cases isCollected with
    | false =>
      rw [foldRun, ih (.inl rfl)]
      simp
    | true =>
      rw [foldRun, ih (.inr rfl), map_cons, leavesArgs_cons, ← append_assoc]
      congr 1
      cases run with
      | nil => simp
      | cons first rest =>
        obtain rfl := collected.resolve_left (cons_ne_nil _ _)
        simp

theorem leaves_primed (count : Nat) (node : Node) : (primed count node).leaves = node.leaves := by
  induction count generalizing node with
  | zero => rfl
  | succ count ih =>
    rw [primed, ih]
    simp

theorem leaves_groupTree (items : List Node) : (groupTree items).leaves = leavesArgs items := by
  rcases items with _ | ⟨item, _ | ⟨second, items⟩⟩ <;> simp [groupTree]

/-- A function word with nothing but arguments. -/
theorem functionTree_bare (function : Elementary) (args : List Node) :
    functionTree function ⟨none, none⟩ none args = .of (.elementary function) args := by
  cases function <;> rfl

/-! ## Leaves of rows -/

/-- The leaf that a token stands for. The letter e is the base of the natural logarithm. -/
def Token.leaf? : Token → Option Leaf
  | .number value => some (.number value)
  | .name text => some (.symbol (if text == "e" then naturalBase else text))
  | _ => none

/-- The leaves that a row of tokens stands for, in the order of the row. -/
def rowLeaves (row : List Located) : List Leaf := row.filterMap (·.token.leaf?)

@[simp] theorem rowLeaves_nil : rowLeaves [] = [] := rfl

@[simp] theorem rowLeaves_append (row more : List Located) :
    rowLeaves (row ++ more) = rowLeaves row ++ rowLeaves more :=
  filterMap_append

theorem rowLeaves_cons_of_none {located : Located} (none : located.token.leaf? = none)
    (row : List Located) : rowLeaves (located :: row) = rowLeaves row :=
  filterMap_cons_none none

theorem leaves_nameTree (name : String) (position : Nat) :
    (nameTree name).leaves = rowLeaves [⟨.name name, position⟩] := by
  unfold nameTree
  change _ = [Leaf.symbol (if name == "e" then naturalBase else name)]
  split <;> rfl

theorem Encloses.leaf? {opening closing : Token} (encloses : Encloses opening closing) :
    opening.leaf? = none ∧ closing.leaf? = none := by
  cases encloses <;> exact ⟨rfl, rfl⟩

theorem leaf?_of_separates {token : Token} (separates : token.separates = true) :
    token.leaf? = none := by
  cases token <;> first | rfl | cases separates

/-- Whether a function word takes what stands behind it as a script or as the index of a root. -/
def Token.attaches : Token → Token → Bool
  | .function _ _, .sign .power | .function _ _, .sign .subscript => true
  | .function _ .sqrt, .opening .square => true
  | _, _ => false

/-- Rows without integrals, whose function words have nothing but arguments. -/
structure Straight (row : List Located) : Prop where
  noIntegral : ∀ located ∈ row, located.token ≠ .integral
  apart : row.IsChain fun first second => first.token.attaches second.token = false

namespace Straight

variable {row row' : List Located}

theorem left (straight : Straight (row ++ row')) : Straight row :=
  ⟨fun located member => straight.noIntegral located (mem_append_left row' member),
    straight.apart.left_of_append⟩

theorem right (straight : Straight (row ++ row')) : Straight row' :=
  ⟨fun located member => straight.noIntegral located (mem_append_right row member),
    straight.apart.right_of_append⟩

theorem tail {located : Located} (straight : Straight (located :: row)) : Straight row :=
  @right [located] row straight

theorem not_attaches {first second : Located} (straight : Straight (first :: second :: row)) :
    first.token.attaches second.token = false :=
  (isChain_cons_cons.mp straight.apart).1

end Straight

/-! ## Rows that are read in order -/

/-- What is found has the leaves of the row, in the order of the row. -/
def InOrder {α : Type} (leaves : α → List Leaf) (row : List Located) (found : α) : Prop :=
  Straight row → leaves found = rowLeaves row

namespace InOrder

variable {α β γ : Type} {leaves : α → List Leaf} {leaves' : β → List Leaf}
  {leaves'' : γ → List Leaf} {row row' : List Located} {a : α} {b : β} {c : γ}

theorem append (first : InOrder leaves row a) (second : InOrder leaves' row' b)
    (joins : leaves'' c = leaves a ++ leaves' b) : InOrder leaves'' (row ++ row') c := by
  intro straight
  rw [joins, first straight.left, second straight.right, rowLeaves_append]

/-- A token that stands for no leaf, in front. -/
theorem token {located : Located} (quiet : located.token.leaf? = none)
    (more : InOrder leaves row a) : InOrder leaves (located :: row) a := by
  intro straight
  rw [more straight.tail, rowLeaves_cons_of_none quiet]

/-- Tokens that stand for no leaves, behind. -/
theorem behind (quiet : rowLeaves row' = []) (first : InOrder leaves row a) :
    InOrder leaves (row ++ row') a := by
  intro straight
  rw [first straight.left, rowLeaves_append, quiet, append_nil]

/-- The same row for something else with the same leaves. -/
theorem change (first : InOrder leaves row a) (same : leaves' b = leaves a) :
    InOrder leaves' row b :=
  fun straight => same.trans (first straight)

/-- A row between tokens that close it in. -/
theorem enclosed {located last : Located} (first : InOrder leaves row a)
    (encloses : Encloses located.token last.token) :
    InOrder leaves (located :: (row ++ [last])) a := by
  obtain ⟨opens, closes⟩ := encloses.leaf?
  exact (first.behind (rowLeaves_cons_of_none closes [])).token opens

end InOrder

/-- What is found in a constituent has the leaves of its row. Scripts and an index are not there, or
the row starts with their sign. -/
def Constituent.InOrder : (part : Constituent) → List Located → part.Found → Prop
  | .tree | .power | .script | .operand => Markup.InOrder Node.leaves
  | .trees | .factors | .group | .arguments => Markup.InOrder leavesArgs
  | .terms => Markup.InOrder fun more => leavesArgs (more.map (·.2))
  | .scripts before => fun row found => row = [] ∧ found = before ∨
    ∃ sign more, row = sign :: more ∧
      (sign.token = .sign .power ∨ sign.token = .sign .subscript)
  | .index elementary => fun row found => row = [] ∧ found = none ∨
    ∃ first more, row = first :: more ∧ elementary = .sqrt ∧ first.token = .opening .square
  | .limits | .integrand => fun _ _ => True

/-- A straight row has no scripts and no index behind a function word, so that the arguments are all
that the word takes. -/
theorem inOrder_function {word : String} {function : Elementary} {position : Nat}
    {row row' row'' : List Located} {found : Scripts} {slot : Option Node} {args : List Node}
    (scripts : (Constituent.scripts ⟨none, none⟩).InOrder row found)
    (index : (Constituent.index function).InOrder row' slot) (inside : InOrder leavesArgs row'' args) :
    InOrder leaves (⟨.function word function, position⟩ :: (row ++ (row' ++ row'')))
      (functionTree function found slot args) := by
  intro straight
  rcases scripts with ⟨rfl, rfl⟩ | ⟨sign, more, rfl, isScript⟩
  · rcases index with ⟨rfl, rfl⟩ | ⟨first, more, rfl, rfl, isSquare⟩
    · rw [functionTree_bare, leaves_op, inside straight.tail, rowLeaves_cons_of_none rfl]
      rfl
    · have free := straight.not_attaches
      rw [isSquare] at free
      cases free
  · have free := straight.not_attaches
    rcases isScript with isPower | isSubscript
    · rw [isPower] at free
      cases free
    · rw [isSubscript] at free
      cases free

/-- What a row takes has the leaves of the row, in its order. -/
theorem inOrder_of_takes {part : Constituent} {row : List Located} {found : part.Found}
    (taken : Takes part row found) : part.InOrder row found := by
  induction taken with
  | connected _ _ _ start others => exact InOrder.append start others (leaves_joined _ _ _)
  | related _ _ start others => exact InOrder.append start others (leaves_relationTree _ _)
  | sum _ _ start others | product _ _ start others =>
    exact InOrder.append start others (leaves_foldRun _ _ (.inl rfl) _)
  | juxtaposed _ _ start others => exact InOrder.append start others (leaves_joined _ _ _)
  | bare _ _ start others =>
    exact InOrder.append start others ((append_nil _).trans (leaves_joined _ _ _))
  | denied _ inside | negated _ inside | negative _ inside =>
    exact (inside.change (by simp)).token rfl
  | plus _ inside => exact inside.token rfl
  | noTree | noTerm | noFactor | number => exact fun _ => rfl
  | separator separates _ others => exact others.token (leaf?_of_separates separates)
  | next _ _ start others | factor _ _ start others => exact InOrder.append start others rfl
  | added _ _ start others | subtracted _ _ start others =>
    exact (InOrder.append start others rfl).token rfl
  | unraised _ inside | plain _ inside | listed _ inside => exact inside
  | primed _ inside | raisedPrime _ inside | bracedPrime _ inside =>
    exact (inside.behind rfl).change (leaves_primed _ _)
  | raised _ _ inside script => exact InOrder.append inside (script.token rfl) (by simp)
  | name => exact fun _ => leaves_nameTree _ _
  | bracketed _ inside => exact inside.change (leaves_groupTree _)
  | braced encloses _ inside | group encloses _ inside => exact inside.enclosed encloses
  | barred encloses _ inside => exact (inside.enclosed encloses).change (by simp)
  | function _ _ _ scripts index inside => exact inOrder_function scripts index inside
  | fraction _ _ above under => exact (InOrder.append above under (by simp)).token rfl
  | integral => exact fun straight => absurd rfl (straight.noIntegral _ (.head _))
  | single _ inside => exact inside.change (append_nil _)
  | noScript | noIndex => exact .inl ⟨rfl, rfl⟩
  | subscript => exact .inr ⟨_, _, rfl, .inr rfl⟩
  | superscript => exact .inr ⟨_, _, rfl, .inl rfl⟩
  | root => exact .inr ⟨_, _, rfl, rfl, rfl⟩
  | lowerFirst | upperFirst | whole | ended | alone => trivial

/-! ## Whole formulas -/

/-- The leaves of the tree of a formula are its numbers and names, in the order in which they are
written: none is dropped, doubled or moved. -/
theorem leaves_of_parse {text : String} {located : List Located} {node : Node}
    (scanned : scan 0 0 (prepared text.toList) = .ok located) (straight : Straight located)
    (parsed : parse text = .ok node) : node.leaves = rowLeaves located := by
  obtain ⟨other, scanned', parsed⟩ := parse_eq_ok_iff.mp parsed
  cases scanned.symm.trans scanned'
  obtain ⟨row, split, taken⟩ := takes_parse (budgetFor located.length) .or .plain located node []
    (parseTokens_eq_ok_iff.mp parsed).2
  rw [append_nil] at split
  subst split
  exact inOrder_of_takes taken straight

/-- A chain of two kinds of relations, with a difference, bars and a group. -/
theorem leaves_of_parse_chain :
    let two := Decimal.toDouble false ⟨2, 0⟩
    let three := Decimal.toDouble false ⟨3, 0⟩
    let located : List Located := [⟨.name "a", 0⟩, ⟨.sign .minus, 1⟩, ⟨.number two, 2⟩,
      ⟨.name "x", 3⟩, ⟨.sign .divide, 4⟩, ⟨.function "sin" .sin, 5⟩, ⟨.name "e", 10⟩,
      ⟨.sign .plus, 11⟩, ⟨.bar true, 12⟩, ⟨.name "y", 13⟩, ⟨.prime 1, 14⟩, ⟨.bar true, 15⟩,
      ⟨.sign (.relation .equal), 16⟩, ⟨.opening .round, 17⟩, ⟨.name "b", 18⟩, ⟨.comma, 19⟩,
      ⟨.number three, 20⟩, ⟨.closing .round, 21⟩, ⟨.sign (.relation .less), 22⟩, ⟨.name "c", 23⟩]
    let quotient := of .divide [.of .invisible [.number two, .symbol "x"],
      .of (.elementary .sin) [.symbol naturalBase]]
    let node := of (.relation .equal) [
      .of .add [.of .subtract [.symbol "a", quotient],
        .of (.elementary .abs) [.of .prime [.symbol "y"]]],
      .of (.relation .less) [.of .delimiter [.of .sequence [.symbol "b", .number three]],
        .symbol "c"]]
    scan 0 0 (prepared "a-2x/\\sin e+|y'|=(b,3)<c".toList) = .ok located ∧ Straight located ∧
      parse "a-2x/\\sin e+|y'|=(b,3)<c" = .ok node ∧ node.leaves = rowLeaves located := by
  intro two three located quotient node
  have scanned : scan 0 0 (prepared "a-2x/\\sin e+|y'|=(b,3)<c".toList) = .ok located := rfl
  have straight : Straight located :=
    ⟨by simp [located], by simp [located, Token.attaches]⟩
  have parsed : parse "a-2x/\\sin e+|y'|=(b,3)<c" = .ok node :=
    parse_eq_ok_iff.mpr ⟨located, scanned, rfl⟩
  exact ⟨scanned, straight, parsed, leaves_of_parse scanned straight parsed⟩

end Markup

end Grapher
