import Grapher.Proofs.Markup.Grammar
import Mathlib.Algebra.Order.Group.Multiset
import Mathlib.Data.Multiset.Filter

/-!
# Ledgers of markup

What becomes of the numbers, the names and the minus signs of a formula. A ledger has an entry for
each of them, which says whether the tree shows it or why it does not, and an entry for each mark
that the parser supplies by itself.

`Account` keeps the ledger of a row of tokens, part by part as formulas are written. Only three
places drop what is written:

* the differential of an integral, whose letter d no tree shows,
* the exponent -1 of a trigonometric word, which makes the word an inverse,
* the scripts of a function word that do not count: of each kind only the last one counts, and a
  subscript counts at a logarithm only.
-/

set_option autoImplicit false

namespace Grapher

/-! ## Marks of trees -/

/-- What a tree shows: numbers, symbols, and a minus sign for each negation and each difference. -/
inductive TreeMark where
  | number (value : Float)
  | symbol (name : String)
  | minus

/-- The marks of a head. -/
def Head.marks : Head → Multiset TreeMark
  | .operator .negate | .operator .subtract => {.minus}
  | _ => 0

namespace Node

mutual

/-- The marks of a tree, as often as it shows them. -/
def marks : Node → Multiset TreeMark
  | .number value => {.number value}
  | .symbol name => {.symbol name}
  | .op head args => head.marks + marksArgs args

/-- The marks of arguments. -/
def marksArgs : List Node → Multiset TreeMark
  | [] => 0
  | node :: nodes => marks node + marksArgs nodes

end

@[simp] theorem marks_number (value : Float) : (number value).marks = {.number value} := rfl

@[simp] theorem marks_symbol (name : String) : (symbol name).marks = {.symbol name} := rfl

@[simp] theorem marks_op (head : Head) (args : List Node) :
    (op head args).marks = head.marks + marksArgs args := rfl

@[simp] theorem marksArgs_nil : marksArgs [] = 0 := rfl

@[simp] theorem marksArgs_cons (node : Node) (nodes : List Node) :
    marksArgs (node :: nodes) = node.marks + marksArgs nodes := rfl

@[simp] theorem marksArgs_append (nodes more : List Node) :
    marksArgs (nodes ++ more) = marksArgs nodes + marksArgs more := by
  induction nodes with
  | nil => exact (zero_add _).symm
  | cons node nodes ih => rw [List.cons_append, marksArgs_cons, marksArgs_cons, ih, add_assoc]

end Node

namespace Markup

/-! ## Entries -/

/-- The tokens that leave a mark, with the mark. The letter e is the base of the natural logarithm,
unless it names the variable of an integral. -/
inductive Token.Shows : Token → TreeMark → Prop where
  | number (value : Float) : Shows (.number value) (.number value)
  | name (name : String) : Shows (.name name) (.symbol name)
  | base : Shows (.name "e") (.symbol naturalBase)
  | minus : Shows (.sign .minus) .minus

/-- Whether a token can leave a mark. -/
def Token.isMarked : Token → Bool
  | .number _ | .name _ | .sign .minus => true
  | _ => false

/-- Why a tree does not show a token. -/
inductive Reason where
  | differential
  | inverse
  | script

/-- An entry of a ledger: a token with the mark that shows it, a mark without a token, or a token
without a mark. -/
inductive Entry where
  | shown (located : Located) (mark : TreeMark) (shows : located.token.Shows mark)
  | supplied (mark : TreeMark)
  | dropped (located : Located) (reason : Reason)

namespace Entry

def mark? : Entry → Option TreeMark
  | .shown _ mark _ | .supplied mark => some mark
  | .dropped _ _ => none

def token? : Entry → Option Located
  | .shown located _ _ | .dropped located _ => some located
  | .supplied _ => none

/-- What is left of an entry when its part of the tree is dropped. -/
def drop? (reason : Reason) : Entry → Option Entry
  | .shown located _ _ => some (.dropped located reason)
  | .supplied _ => none
  | .dropped located earlier => some (.dropped located earlier)

end Entry

/-- The entries for a row of tokens. -/
abbrev Ledger := Multiset Entry

namespace Ledger

/-- The marks in a ledger. -/
def marks (ledger : Ledger) : Multiset TreeMark := ledger.filterMap Entry.mark?

/-- The tokens in a ledger. -/
def tokens (ledger : Ledger) : Multiset Located := ledger.filterMap Entry.token?

/-- The ledger of a part of the tree that is dropped. -/
def drop (reason : Reason) (ledger : Ledger) : Ledger := ledger.filterMap (Entry.drop? reason)

@[simp] theorem marks_zero : marks 0 = 0 := rfl

@[simp] theorem marks_add (ledger more : Ledger) :
    marks (ledger + more) = ledger.marks + more.marks :=
  Multiset.filterMap_add _ _ _

@[simp] theorem marks_drop (reason : Reason) (ledger : Ledger) :
    (ledger.drop reason).marks = 0 := by
  have none : (fun entry => (Entry.drop? reason entry).bind Entry.mark?) = fun _ => none := by
    funext entry
    cases entry <;> rfl
  rw [marks, drop, Multiset.filterMap_filterMap, none]
  induction ledger using Multiset.induction_on with
  | empty => rfl
  | cons entry ledger ih => rw [Multiset.filterMap_cons_none _ _ rfl, ih]

@[simp] theorem tokens_zero : tokens 0 = 0 := rfl

@[simp] theorem tokens_add (ledger more : Ledger) :
    tokens (ledger + more) = ledger.tokens + more.tokens :=
  Multiset.filterMap_add _ _ _

/-- Dropping a part of the tree keeps its tokens in the ledger. -/
@[simp] theorem tokens_drop (reason : Reason) (ledger : Ledger) :
    (ledger.drop reason).tokens = ledger.tokens := by
  have kept : (fun entry => (Entry.drop? reason entry).bind Entry.token?) = Entry.token? := by
    funext entry
    cases entry <;> rfl
  rw [tokens, drop, Multiset.filterMap_filterMap, kept, tokens]

/-! ### Single ledgers -/

/-- The ledger of a number. -/
def number (value : Float) (position : Nat) : Ledger :=
  {.shown ⟨.number value, position⟩ (.number value) (.number value)}

/-- The ledger of a minus sign. -/
def minus (position : Nat) : Ledger :=
  {.shown ⟨.sign .minus, position⟩ .minus .minus}

/-- The ledger of a name. -/
def name (text : String) (position : Nat) : Ledger :=
  if same : text = "e" then {.shown ⟨.name text, position⟩ (.symbol naturalBase) (same ▸ .base)}
  else {.shown ⟨.name text, position⟩ (.symbol text) (.name text)}

/-- The ledger of a differential. A tree shows the variable of an integral twice. -/
def differential (text : String) (letterAt nameAt : Nat) : Ledger :=
  {.dropped ⟨.name "d", letterAt⟩ .differential,
    .shown ⟨.name text, nameAt⟩ (.symbol text) (.name text), .supplied (.symbol text)}

/-- The ledger of a missing differential, where the variable is x. -/
def noDifferential : Ledger := {.supplied (.symbol "x"), .supplied (.symbol "x")}

/-- The ledger of a missing integrand, which is one. -/
def noBody : Ledger := {.supplied (.number 1.0)}

@[simp] theorem marks_number (value : Float) (position : Nat) :
    (number value position).marks = {.number value} := rfl

@[simp] theorem tokens_number (value : Float) (position : Nat) :
    (number value position).tokens = {⟨.number value, position⟩} := rfl

@[simp] theorem marks_minus (position : Nat) : (minus position).marks = {.minus} := rfl

@[simp] theorem tokens_minus (position : Nat) :
    (minus position).tokens = {⟨.sign .minus, position⟩} := rfl

@[simp] theorem marks_name (text : String) (position : Nat) :
    (name text position).marks = (nameTree text).marks := by
  unfold name nameTree
  by_cases same : text = "e"
  · rw [dif_pos same, if_pos (beq_iff_eq.mpr same)]
    rfl
  · rw [dif_neg same, if_neg (by simpa using same)]
    rfl

@[simp] theorem tokens_name (text : String) (position : Nat) :
    (name text position).tokens = {⟨.name text, position⟩} := by
  unfold name
  split <;> rfl

@[simp] theorem marks_differential (text : String) (letterAt nameAt : Nat) :
    (differential text letterAt nameAt).marks = {.symbol text} + {.symbol text} := rfl

@[simp] theorem tokens_differential (text : String) (letterAt nameAt : Nat) :
    (differential text letterAt nameAt).tokens
      = {⟨.name "d", letterAt⟩} + {⟨.name text, nameAt⟩} := rfl

@[simp] theorem marks_noDifferential :
    noDifferential.marks = {.symbol "x"} + {.symbol "x"} := rfl

@[simp] theorem tokens_noDifferential : noDifferential.tokens = 0 := rfl

@[simp] theorem marks_noBody : noBody.marks = {.number 1.0} := rfl

@[simp] theorem tokens_noBody : noBody.tokens = 0 := rfl

end Ledger

/-- The tokens of a row that can leave a mark. -/
def marked (row : List Located) : Multiset Located := row.filter (·.token.isMarked)

@[simp] theorem marked_nil : marked [] = 0 := rfl

@[simp] theorem marked_cons (located : Located) (row : List Located) :
    marked (located :: row) = (if located.token.isMarked then {located} else 0) + marked row := by
  cases isMarked : located.token.isMarked <;> simp [marked, isMarked]

@[simp] theorem marked_append (row row' : List Located) :
    marked (row ++ row') = marked row + marked row' := by
  rw [marked, List.filter_append, ← Multiset.coe_add]
  rfl

/-! ## Accounts -/

/-- The parts of a formula that a row of tokens can be. The scripts of a function word go with their
kinds in the order of writing. -/
inductive Portion where
  | row | factors | power | operand | script
  | scripts (function : Elementary) (signs : List Sign)
  | index (function : Elementary)
  | limits | integrand

/-- A script of a function word counts if it is the last of its kind; a subscript only does at a
logarithm. -/
def Counts (function : Elementary) (sign : Sign) (later : List Sign) : Prop :=
  sign ∉ later ∧ (sign = .power ∨ sign = .subscript ∧ function = .log)

theorem Counts.kind {function : Elementary} {sign : Sign} {later : List Sign}
    (counts : Counts function sign later) : sign = .power ∨ sign = .subscript :=
  counts.2.imp_right And.left

theorem isMarked_of_separates {token : Token} (separates : token.separates = true) :
    token.isMarked = false := by
  unfold Token.separates at separates
  split at separates
  all_goals first | rfl | contradiction | skip
  next sign _ _ _ => cases sign <;> first | rfl | contradiction

theorem Encloses.unmarked {first last : Token} (encloses : Encloses first last) :
    first.isMarked = false ∧ last.isMarked = false := by
  cases encloses <;> exact ⟨rfl, rfl⟩

theorem isMarked_of_script {sign : Sign} (kind : sign = .power ∨ sign = .subscript) :
    (Token.sign sign).isMarked = false := by
  rcases kind with rfl | rfl <;> rfl

/-- The ledger of a row of tokens that is a part of a formula. -/
inductive Account : Portion → List Located → Ledger → Prop where
  -- Operands with signs and commas between them.
  | nothing : Account .row [] 0
  | separator {located : Located} {row : List Located} {ledger : Ledger}
      (separates : located.token.separates = true) (more : Account .row row ledger) :
      Account .row (located :: row) ledger
  | minus {position : Nat} {row : List Located} {ledger : Ledger} (more : Account .row row ledger) :
      Account .row (⟨.sign .minus, position⟩ :: row) (.minus position + ledger)
  | next {row row' : List Located} {ledger ledger' : Ledger} (first : Account .power row ledger)
      (more : Account .row row' ledger') : Account .row (row ++ row') (ledger + ledger')
  | noFactor : Account .factors [] 0
  | factor {row row' : List Located} {ledger ledger' : Ledger} (first : Account .power row ledger)
      (more : Account .factors row' ledger') : Account .factors (row ++ row') (ledger + ledger')
  -- Operands with primes and exponents.
  | unraised {row : List Located} {ledger : Ledger} (base : Account .operand row ledger) :
      Account .power row ledger
  | primed {row : List Located} {ledger : Ledger} {count position : Nat}
      (base : Account .power row ledger) : Account .power (row ++ [⟨.prime count, position⟩]) ledger
  | raisedPrime {row : List Located} {ledger : Ledger} {count position at₁ : Nat}
      (base : Account .power row ledger) :
      Account .power (row ++ [⟨.sign .power, position⟩, ⟨.prime count, at₁⟩]) ledger
  | bracedPrime {row : List Located} {ledger : Ledger} {count position at₁ at₂ at₃ : Nat}
      (base : Account .power row ledger) :
      Account .power (row ++ [⟨.sign .power, position⟩, ⟨.braceOpen, at₁⟩, ⟨.prime count, at₂⟩,
        ⟨.braceClose, at₃⟩]) ledger
  | raised {row row' : List Located} {ledger ledger' : Ledger} {position : Nat}
      (base : Account .power row ledger) (exponent : Account .script row' ledger') :
      Account .power (row ++ ⟨.sign .power, position⟩ :: row') (ledger + ledger')
  | plain {row : List Located} {ledger : Ledger} (operand : Account .operand row ledger) :
      Account .script row ledger
  | negative {position : Nat} {row : List Located} {ledger : Ledger}
      (inside : Account .script row ledger) :
      Account .script (⟨.sign .minus, position⟩ :: row) (.minus position + ledger)
  -- Single operands.
  | number {value : Float} {position : Nat} :
      Account .operand [⟨.number value, position⟩] (.number value position)
  | name {text : String} {position : Nat} :
      Account .operand [⟨.name text, position⟩] (.name text position)
  | enclosed {first last : Located} {row : List Located} {ledger : Ledger}
      (encloses : Encloses first.token last.token) (inside : Account .row row ledger) :
      Account .operand (first :: row ++ [last]) ledger
  | function {word : String} {function : Elementary} {position : Nat} {signs : List Sign}
      {row row' row'' : List Located} {ledger ledger' ledger'' : Ledger}
      (scripts : Account (.scripts function signs) row ledger)
      (index : Account (.index function) row' ledger')
      (arguments : Account .factors row'' ledger'') :
      Account .operand (⟨.function word function, position⟩ :: (row ++ row' ++ row''))
        (ledger + ledger' + ledger'')
  | fraction {position : Nat} {row row' : List Located} {ledger ledger' : Ledger}
      (above : Account .script row ledger) (under : Account .script row' ledger') :
      Account .operand (⟨.fraction, position⟩ :: (row ++ row')) (ledger + ledger')
  | integral {position : Nat} {row row' : List Located} {ledger ledger' : Ledger}
      (limits : Account .limits row ledger) (integrand : Account .integrand row' ledger') :
      Account .operand (⟨.integral, position⟩ :: (row ++ row')) (ledger + ledger')
  -- The scripts of a function word.
  | noScript {function : Elementary} : Account (.scripts function []) [] 0
  | kept {function : Elementary} {sign : Sign} {signs : List Sign} {position : Nat}
      {row row' : List Located} {ledger ledger' : Ledger} (counts : Counts function sign signs)
      (first : Account .script row ledger) (more : Account (.scripts function signs) row' ledger') :
      Account (.scripts function (sign :: signs)) (⟨.sign sign, position⟩ :: (row ++ row'))
        (ledger + ledger')
  | inverse {function : Elementary} {signs : List Sign} {position : Nat} {value : Float}
      {row row' : List Located} {ledger ledger' : Ledger} (counts : Counts function .power signs)
      (invertible : (inverse? function).isSome = true) (one : (value == 1.0) = true)
      (minusOne : ledger.marks = {.minus} + {.number value}) (first : Account .script row ledger)
      (more : Account (.scripts function signs) row' ledger') :
      Account (.scripts function (.power :: signs)) (⟨.sign .power, position⟩ :: (row ++ row'))
        (ledger.drop .inverse + ledger')
  | lost {function : Elementary} {sign : Sign} {signs : List Sign} {position : Nat}
      {row row' : List Located} {ledger ledger' : Ledger}
      (kind : sign = .power ∨ sign = .subscript) (idle : ¬ Counts function sign signs)
      (first : Account .script row ledger) (more : Account (.scripts function signs) row' ledger') :
      Account (.scripts function (sign :: signs)) (⟨.sign sign, position⟩ :: (row ++ row'))
        (ledger.drop .script + ledger')
  -- The index of a root.
  | noIndex {function : Elementary} : Account (.index function) [] 0
  | root {position at₁ : Nat} {row : List Located} {ledger : Ledger}
      (inside : Account .row row ledger) :
      Account (.index .sqrt) (⟨.opening .square, position⟩ :: row ++ [⟨.closing .square, at₁⟩])
        ledger
  -- The limits of an integral, its body and its differential.
  | limits {sign other : Sign} {position at₁ : Nat} {row row' : List Located}
      {ledger ledger' : Ledger}
      (kinds : sign = .subscript ∧ other = .power ∨ sign = .power ∧ other = .subscript)
      (first : Account .script row ledger) (second : Account .script row' ledger') :
      Account .limits (⟨.sign sign, position⟩ :: row ++ ⟨.sign other, at₁⟩ :: row')
        (ledger + ledger')
  | whole {row : List Located} {ledger : Ledger} (body : Account .row row ledger) :
      Account .integrand row (ledger + .noDifferential)
  | ended {text : String} {position at₁ : Nat} {row : List Located} {ledger : Ledger}
      (body : Account .row row ledger) :
      Account .integrand (row ++ [⟨.name "d", position⟩, ⟨.name text, at₁⟩])
        (ledger + .differential text position at₁)
  | alone {text : String} {position at₁ : Nat} :
      Account .integrand [⟨.name "d", position⟩, ⟨.name text, at₁⟩]
        (.noBody + .differential text position at₁)

namespace Account

/-- Rows stand one after the other. -/
theorem append {row row' : List Located} {ledger ledger' : Ledger}
    (first : Account .row row ledger) (second : Account .row row' ledger') :
    Account .row (row ++ row') (ledger + ledger') := by
  generalize isRow : Portion.row = part at first
  induction first with
  | nothing => rwa [List.nil_append, zero_add]
  | separator separates _ ih => exact .separator separates (ih isRow)
  | minus _ ih =>
    rw [List.cons_append, add_assoc]
    exact .minus (ih isRow)
  | next first _ _ ih =>
    rw [List.append_assoc, add_assoc]
    exact .next first (ih isRow)
  | _ => cases isRow

theorem factors_row {row : List Located} {ledger : Ledger} (factors : Account .factors row ledger) :
    Account .row row ledger := by
  generalize areFactors : Portion.factors = part at factors
  induction factors with
  | noFactor => exact .nothing
  | factor first _ _ ih => exact .next first (ih areFactors)
  | _ => cases areFactors

/-- A power is a row of one factor. -/
theorem power_factors {row : List Located} {ledger : Ledger} (power : Account .power row ledger) :
    Account .factors row ledger := by
  simpa using Account.factor power .noFactor

/-- A ledger has the marked tokens of its row, each as often as it is written. -/
theorem tokens_eq {part : Portion} {row : List Located} {ledger : Ledger}
    (account : Account part row ledger) : ledger.tokens = marked row := by
  induction account with
  | nothing | noFactor | noScript | noIndex => rfl
  | separator separates _ ih => simp [ih, isMarked_of_separates separates]
  | next _ _ first more | factor _ _ first more => simp [first, more]
  | unraised _ ih | plain _ ih => exact ih
  | primed _ ih | raisedPrime _ ih | bracedPrime _ ih | root _ ih => simp [ih, Token.isMarked]
  | minus _ ih | negative _ ih => simp [ih, Token.isMarked]
  | raised _ _ base exponent => simp [base, exponent, Token.isMarked]
  | number | name | alone => simp [Token.isMarked]
  | enclosed encloses _ ih => simp [ih, encloses.unmarked]
  | function _ _ _ scripts index arguments =>
    simp [scripts, index, arguments, add_assoc, Token.isMarked]
  | fraction _ _ first second | integral _ _ first second => simp [first, second, Token.isMarked]
  | kept counts _ _ first more => simp [first, more, isMarked_of_script counts.kind]
  | inverse _ _ _ _ _ _ first more => simp [first, more, Token.isMarked]
  | lost kind _ _ _ first more => simp [first, more, isMarked_of_script kind]
  | limits kinds _ _ first second =>
    rcases kinds with ⟨rfl, rfl⟩ | ⟨rfl, rfl⟩ <;> simp [first, second, Token.isMarked]
  | whole _ ih | ended _ ih => simp [ih, Token.isMarked]

end Account

end Markup

end Grapher
