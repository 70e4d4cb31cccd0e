import Grapher.Program.Parser
import Grapher.Proofs.Descent

/-!
# The descent through programs

The parsing functions of programs as one descent. Before a token is taken, the calls go down from the
arguments of a call over the levels of binding to single operands. What follows the left side of an
operator is asked for after that side, so after a token.
-/

set_option autoImplicit false

namespace Grapher.Program

open List

/-- The parsing functions, with the arguments that only some of them have. -/
inductive Goal where
  | or | and | not | comparison | comparisonTail | sum | product | signed | power | call | operand
  | arguments | argumentList | argument
  | orTail (left : Expr)
  | andTail (left : Expr)
  | sumTail (left : Expr)
  | productTail (left : Expr)
  | callTail (callee : Expr)

namespace Goal

/-- What a parsing function finds. -/
abbrev Found : Goal → Type
  | .comparisonTail => List (Relation × Expr)
  | .arguments | .argumentList => List Expr
  | _ => Expr

/-- The parsing function of a goal. -/
def parse (budget : Nat) (rest : Rest) : (goal : Goal) → Except SyntaxError (goal.Found × Rest)
  | .or => parseOr budget rest
  | .and => parseAnd budget rest
  | .not => parseNot budget rest
  | .comparison => parseComparison budget rest
  | .comparisonTail => parseComparisonTail budget rest
  | .sum => parseSum budget rest
  | .product => parseProduct budget rest
  | .signed => parseSigned budget rest
  | .power => parsePower budget rest
  | .call => parseCall budget rest
  | .operand => parseOperand budget rest
  | .arguments => parseArguments budget rest
  | .argumentList => parseArgumentList budget rest
  | .argument => parseArgument budget rest
  | .orTail left => parseOrTail budget left rest
  | .andTail left => parseAndTail budget left rest
  | .sumTail left => parseSumTail budget left rest
  | .productTail left => parseProductTail budget left rest
  | .callTail callee => parseCallTail budget callee rest

/-- The order in which functions call each other before a token is taken. -/
def rank : Goal → Nat
  | .arguments => 13
  | .argumentList => 12
  | .argument => 11
  | .or => 10
  | .and => 9
  | .not => 8
  | .comparison => 7
  | .sum => 6
  | .product => 5
  | .signed => 4
  | .power => 3
  | .call => 2
  | .operand | .comparisonTail | .orTail _ | .andTail _ | .sumTail _ | .productTail _
  | .callTail _ => 1

/-- The tokens in what is found: one for each entry of a row, one for a phrase. What follows a phrase
or an opening mark may be nothing. -/
def size : (goal : Goal) → goal.Found → Nat
  | .comparisonTail, row => List.length row
  | .argumentList, row => List.length row
  | .or, _ | .and, _ | .not, _ | .comparison, _ | .sum, _ | .product, _ | .signed, _ | .power, _
  | .call, _ | .operand, _ | .argument, _ => 1
  | .arguments, _ | .orTail _, _ | .andTail _, _ | .sumTail _, _ | .productTail _, _
  | .callTail _, _ => 0

end Goal

/-- The descent through program tokens. -/
def descent : Descent SyntaxError Token where
  Goal := Goal
  Found := Goal.Found
  parse goal budget rest := goal.parse budget rest
  exhausted := .exhausted
  refuses reason := reason ≠ .exhausted
  rank := Goal.rank
  size := Goal.size

/-! ## Steps -/

/-- The calls that a goal may make at some tokens: of functions of lower rank at the same tokens, and
of all functions at fewer. -/
structure Below (Rel : (α : Type) → Except SyntaxError α → Except SyntaxError α → Prop)
    (budget budget' : Nat) (goal : Goal) (rest : Rest) : Prop where
  down : ∀ other : Goal, other.rank < goal.rank →
    Advances Rel rest other.size (other.parse budget rest) (other.parse budget' rest)
  onward : ∀ (other : Goal) (later : Rest), later.length < rest.length →
    Advances Rel later other.size (other.parse budget later) (other.parse budget' later)

theorem suffix_afterClosing {rest later : Rest} (found : afterClosing rest = .ok later) :
    later <:+ rest := by
  unfold afterClosing at found
  split at found <;> cases found
  exact suffix_cons _ _

theorem afterClosing_ne_exhausted (rest : Rest) (reason : SyntaxError)
    (same : afterClosing rest = .error reason) : reason ≠ .exhausted := by
  unfold afterClosing at same
  split at same <;> cases same
  rintro ⟨⟩

section Steps

variable {Rel : (α : Type) → Except SyntaxError α → Except SyntaxError α → Prop}
  (congruence : Congruence (fun reason : SyntaxError => reason ≠ .exhausted) Rel) {budget budget' : Nat} {rest : Rest}

include congruence

/-- A left side, and then what follows it. -/
theorem advances_opened {first first' : Except SyntaxError (Expr × Rest)}
    {after after' : Expr → Rest → Except SyntaxError (Expr × Rest)}
    (start : Advances Rel rest (fun _ => 1) first first')
    (others : ∀ left later, later.length < rest.length →
      Advances Rel later (fun _ => 0) (after left later) (after' left later)) :
    Advances Rel rest (fun _ => 1)
      (do
        let (left, rest) ← first
        after left rest)
      (do
        let (left, rest) ← first'
        after' left rest) := by
  refine congruence.call start fun left later suffix taken => ?_
  exact (others left later (by omega)).mono suffix fun _ => by omega

/-- One more part after an operator, and then what follows. -/
theorem advances_joined {α : Type} {size : α → Nat} {token : Token}
    {next next' : Except SyntaxError (α × Rest)}
    {after after' : α → Rest → Except SyntaxError (Expr × Rest)}
    (start : Advances Rel rest size next next')
    (others : ∀ found later, later.length < (token :: rest).length →
      Advances Rel later (fun _ => 0) (after found later) (after' found later)) :
    Advances Rel (token :: rest) (fun _ => 0)
      (do
        let (found, rest) ← next
        after found rest)
      (do
        let (found, rest) ← next'
        after' found rest) := by
  refine congruence.call start fun found later suffix taken => ?_
  refine (others found later ?_).mono (suffix.trans ⟨[_], rfl⟩) fun _ => ?_
  all_goals
    rw [length_cons]
    omega

/-- A mark before an operand. -/
theorem advances_marked {token : Token} (build : Expr → Expr)
    {operand operand' : Except SyntaxError (Expr × Rest)}
    (inside : Advances Rel rest (fun _ => 1) operand operand') :
    Advances Rel (token :: rest) (fun _ => 1)
      (do
        let (inner, rest) ← operand
        .ok (build inner, rest))
      (do
        let (inner, rest) ← operand'
        .ok (build inner, rest)) := by
  refine congruence.call inside fun found later suffix taken => ?_
  exact congruence.okWithin suffix ⟨[_], rfl⟩ (by rw [length_cons]; omega)

/-- What follows the left side of an operator may be nothing. -/
theorem advances_done (left : Expr) :
    Advances Rel rest (fun _ => 0) (.ok (left, rest)) (.ok (left, rest)) :=
  congruence.ok suffix_rfl (by simp)

theorem advances_power (below : Below Rel budget budget' .power rest) :
    Advances Rel rest (fun _ => 1) (parsePower (budget + 1) rest)
      (parsePower (budget' + 1) rest) := by
  refine congruence.call (below.down .call (by decide)) fun base later suffix taken => ?_
  dsimp only
  split
  · rw [length_cons] at taken
    refine congruence.call (below.onward .signed _ (by omega)) fun exponent last inner _ => ?_
    refine congruence.okWithin inner (IsSuffix.trans ⟨[_], rfl⟩ suffix) ?_
    omega
  · exact congruence.ok suffix taken

theorem advances_operand (below : Below Rel budget budget' .operand rest) :
    Advances Rel rest (fun _ => 1) (parseOperand (budget + 1) rest)
      (parseOperand (budget' + 1) rest) := by
  unfold parseOperand
  split
  · exact congruence.ok ⟨[_], rfl⟩ (by rw [length_cons]; omega)
  · exact congruence.ok ⟨[_], rfl⟩ (by rw [length_cons]; omega)
  · refine congruence.call (below.onward .or _ (by simp)) fun inner later suffix taken => ?_
    refine congruence.check (afterClosing_ne_exhausted later) (fun _ => suffix_afterClosing) ?_
    intro last suffix'
    exact congruence.okWithin (suffix'.trans suffix) ⟨[_], rfl⟩ (by rw [length_cons]; omega)
  · exact congruence.error (by rintro ⟨⟩)
  · exact congruence.error (by rintro ⟨⟩)

theorem advances_argumentList (below : Below Rel budget budget' .argumentList rest) :
    Advances Rel rest List.length (parseArgumentList (budget + 1) rest)
      (parseArgumentList (budget' + 1) rest) := by
  refine congruence.call (below.down .argument (by decide)) fun arg later suffix taken => ?_
  rw [Goal.size] at taken
  dsimp only
  split
  · rw [length_cons] at taken
    refine congruence.call (below.onward .argumentList _ (by omega)) fun args last suffix' taken' => ?_
    rw [Goal.size] at taken'
    refine congruence.ok (suffix'.trans (IsSuffix.trans ⟨[_], rfl⟩ suffix)) ?_
    dsimp only
    rw [length_cons]
    omega
  · refine congruence.check (afterClosing_ne_exhausted later) (fun _ => suffix_afterClosing) ?_
    intro last suffix'
    exact congruence.okWithin suffix' suffix (by rw [length_singleton]; omega)

/-- Each function hands on what relates the outcomes of its calls. -/
theorem advances_parse (goal : Goal) (below : Below Rel budget budget' goal rest) :
    Advances Rel rest goal.size (goal.parse (budget + 1) rest) (goal.parse (budget' + 1) rest) := by
  cases goal with
  | or =>
    exact advances_opened congruence (below.down .and (by decide))
      fun left => below.onward (.orTail left)
  | and =>
    exact advances_opened congruence (below.down .not (by decide))
      fun left => below.onward (.andTail left)
  | sum =>
    exact advances_opened congruence (below.down .product (by decide))
      fun left => below.onward (.sumTail left)
  | product =>
    exact advances_opened congruence (below.down .signed (by decide))
      fun left => below.onward (.productTail left)
  | call =>
    exact advances_opened congruence (below.down .operand (by decide))
      fun left => below.onward (.callTail left)
  | comparison =>
    exact congruence.row _ (below.down .sum (by decide)) (below.onward .comparisonTail)
  | orTail left =>
    simp only [Goal.parse, parseOrTail]
    split
    · exact advances_joined congruence (below.onward .and _ (by simp))
        fun right => below.onward (.orTail _)
    · exact advances_done congruence left
  | andTail left =>
    simp only [Goal.parse, parseAndTail]
    split
    · exact advances_joined congruence (below.onward .not _ (by simp))
        fun right => below.onward (.andTail _)
    · exact advances_done congruence left
  | sumTail left =>
    simp only [Goal.parse, parseSumTail]
    split
    · exact advances_joined congruence (below.onward .product _ (by simp))
        fun right => below.onward (.sumTail _)
    · exact advances_joined congruence (below.onward .product _ (by simp))
        fun right => below.onward (.sumTail _)
    · exact advances_done congruence left
  | productTail left =>
    simp only [Goal.parse, parseProductTail]
    split
    · exact advances_joined congruence (below.onward .signed _ (by simp))
        fun right => below.onward (.productTail _)
    · exact advances_joined congruence (below.onward .signed _ (by simp))
        fun right => below.onward (.productTail _)
    · exact advances_done congruence left
  | callTail callee =>
    simp only [Goal.parse, parseCallTail]
    split
    · exact advances_joined congruence (below.onward .arguments _ (by simp))
        fun args => below.onward (.callTail _)
    · exact advances_done congruence callee
  | comparisonTail =>
    simp only [Goal.parse, parseComparisonTail]
    split
    · next relation _ =>
      exact congruence.entry (relation, ·) ⟨[_], rfl⟩ (below.onward .sum _ (by simp))
        (below.onward .comparisonTail)
    · exact congruence.noEntry
  | not =>
    simp only [Goal.parse]
    unfold parseNot
    split
    · exact advances_marked congruence .not (below.onward .not _ (by simp))
    · exact below.down .comparison (by decide)
  | signed =>
    simp only [Goal.parse]
    unfold parseSigned
    split
    · exact advances_marked congruence .negate (below.onward .signed _ (by simp))
    · refine (below.onward .signed _ (by simp)).mono ⟨[_], rfl⟩ fun _ => ?_
      rw [length_cons]
      omega
    · exact below.down .power (by decide)
  | argument =>
    simp only [Goal.parse]
    unfold parseArgument
    split
    · refine congruence.call (below.onward .or _ ?_) fun body later suffix taken => ?_
      · simp only [length_cons]
        omega
      · refine congruence.okWithin suffix ⟨[_, _], rfl⟩ ?_
        simp only [Goal.size, length_cons]
        omega
    · exact below.down .or (by decide)
  | arguments =>
    simp only [Goal.parse]
    unfold parseArguments
    split
    · exact congruence.okWithin ⟨[_], rfl⟩ suffix_rfl (by simp [Goal.size])
    · exact (below.down .argumentList (by decide)).mono suffix_rfl fun _ => by simp [Goal.size]
  | power => exact advances_power congruence below
  | operand => exact advances_operand congruence below
  | argumentList => exact advances_argumentList congruence below

end Steps

theorem descent_steps : descent.Steps where
  rank_pos goal := by cases goal <;> exact Nat.succ_pos _
  rank_lt goal := by cases goal <;> simp [descent, Goal.rank]
  zero goal rest := by cases goal <;> rfl
  succ congruence budget budget' goal rest smaller := by
    refine advances_parse congruence goal ⟨fun other lower => ?_, fun other later less => ?_⟩
    · exact smaller other rest (Nat.add_lt_add_left lower _)
    · have bounded : other.rank < 16 := by cases other <;> simp [Goal.rank]
      refine smaller other later ?_
      dsimp only [Descent.need, descent]
      omega

/-- The budget that the parser starts with is enough. -/
theorem need_le_budgetFor (tokens : List Token) :
    descent.need .or tokens ≤ budgetFor tokens.length := by
  dsimp only [Descent.need, descent, Goal.rank, budgetFor]
  omega

theorem parseOr_of_parseTokens {tokens : List Token} {program : Expr}
    (parsed : parseTokens tokens = .ok program) :
    parseOr (budgetFor tokens.length) tokens = .ok (program, []) := by
  obtain ⟨⟨program', rest⟩, found, parsed⟩ := ok_of_bind parsed
  cases rest with
  | nil =>
    cases parsed
    exact found
  | cons token rest => cases parsed

end Grapher.Program
