import Grapher.Proofs.Program.Preservation
import Grapher.Proofs.Program.Recognition
import Grapher.Proofs.Program.Unambiguity

/-!
# The parser and the grammar

A derivation runs by its productions: a sign is its operation on what stands on its two sides, a
chain compares each term with the one before it, a call applies its callee to its arguments, and a
binder is a closure over the scope at hand. The main statement puts the theory of the grammar
together: the parser succeeds on exactly the rows of tokens that have a derivation, a row has at
most one, and the program that the parser returns runs as the derivation does.
-/

set_option autoImplicit false

namespace Grapher

open List

namespace Run

/-- Whether each term of a chain stands in its relation to the term before it; `index` is the part
that the first of them is. Nothing is looked at after a relation that does not hold. -/
def linked (index : Nat) (left : Value) :
    List (Relation × Run) → Scope → Moment → Except Fault Bool
  | [], _, _ => .ok true
  | (relation, next) :: more, scope, moment => do
    let right ← next scope (.part moment index)
    let holds ← Value.relates relation left right
    if holds then linked (index + 1) right more scope moment
    else .ok false

/-- Whether a whole chain of comparisons holds. -/
def chained (first : Run) (more : List (Relation × Run)) : Run := fun scope moment => do
  let a ← first scope (.part moment 0)
  let holds ← linked 1 a more scope moment
  .ok (.bool holds)

end Run

namespace Program

/-! ## Runs of derivations -/

/-- The operation of a sign. -/
def Sign.operation : {level : Level} → Sign level → Run → Run → Run
  | _, .or => .either
  | _, .and => .both
  | _, .plus => .binary .add
  | _, .minus => .binary .subtract
  | _, .times => .binary .multiply
  | _, .divide => .binary .divide

section

variable (call : Apply) (helpers : Scope)

mutual

/-- The value of a derivation in each scope at each moment. -/
def Derivation.run : {level : Level} → Derivation level → Run
  | _, .inward _ inner => inner.run
  | _, .extended left suffix => suffix.run left.run
  | _, .not operand => .denied operand.run
  | _, .chain first second more => .chained first.run (second.run :: chainRuns more)
  | _, .negative operand => .negated operand.run
  | _, .positive operand => operand.run
  | _, .power base exponent => .binary .power base.run exponent.run
  | _, .number value => .constant (.float value)
  | _, .name word => .named helpers word
  | _, .group inside => inside.run

def Suffix.run : {level : Level} → Suffix level → Run → Run
  | _, .joined sign right => fun left => sign.operation left right.run
  | _, .arguments args => fun callee => .called call callee (argumentRuns args)

def Passed.run : Passed → Run
  | .plain phrase => phrase.run
  | .binder parameter body => .closed helpers parameter body.expr

def argumentRuns : List Passed → List Run
  | [] => []
  | arg :: args => arg.run :: argumentRuns args

def Compared.run : Compared → Relation × Run
  | .mk relation term => (relation, term.run)

def chainRuns : List Compared → List (Relation × Run)
  | [] => []
  | next :: more => next.run :: chainRuns more

end

end

/-! ## Expressions run as their derivations -/

section

variable (call : Apply) (helpers : Scope)

namespace Expr

theorem run_called (callee : Expr) (args : List Expr) :
    run call helpers (.call callee args)
      = .called call (run call helpers callee) (args.map (run call helpers)) := by
  funext scope moment
  simp only [run, eval, Run.called, evalArgs_eq]

theorem evalChain_eq (relations : List Relation) (others : List Expr) (index : Nat) (left : Value)
    (scope : Scope) (moment : Moment) :
    evalChain call helpers scope moment index left relations others
      = Run.linked index left (relations.zip (others.map (run call helpers))) scope moment := by
  induction others generalizing relations index left with
  | nil => simp only [evalChain, map_nil, zip_nil_right, Run.linked]
  | cons next others ih =>
    cases relations with
    | nil => simp only [evalChain, zip_nil_left, Run.linked]
    | cons relation relations => simp only [evalChain, map_cons, zip_cons_cons, Run.linked, ih, run]

theorem run_chained (first : Expr) (relations : List Relation) (others : List Expr) :
    run call helpers (.compare first relations others)
      = .chained (run call helpers first) (relations.zip (others.map (run call helpers))) := by
  funext scope moment
  simp only [run, eval, Run.chained, evalChain_eq]

theorem run_combine {level : Level} (sign : Sign level) (left right : Expr) :
    run call helpers (sign.combine left right)
      = sign.operation (run call helpers left) (run call helpers right) := by
  cases sign
  · exact run_or call helpers left right
  · exact run_and call helpers left right
  all_goals exact run_arithmetic call helpers _ left right

end Expr

theorem run_argumentExprs {args : List Passed}
    (all : ∀ arg ∈ args, arg.phrase.expr.run call helpers = arg.phrase.run call helpers) :
    (argumentExprs args).map (Expr.run call helpers) = argumentRuns call helpers args := by
  induction args with
  | nil => simp only [argumentExprs, argumentRuns, map_nil]
  | cons arg args ih =>
    obtain ⟨here, later⟩ := forall_mem_cons.mp all
    rw [argumentExprs, argumentRuns, map_cons, ih later]
    cases arg with
    | plain phrase =>
      rw [Passed.phrase] at here
      rw [Passed.expr, Passed.run, here]
    | binder parameter body => rw [Passed.expr, Passed.run, Expr.run_binder]

theorem zip_chainExprs {more : List Compared}
    (all : ∀ next ∈ more, next.term.expr.run call helpers = next.term.run call helpers) :
    (more.map Compared.relation).zip ((chainExprs more).map (Expr.run call helpers))
      = chainRuns call helpers more := by
  induction more with
  | nil => rw [chainRuns, map_nil, zip_nil_left]
  | cons next more ih =>
    obtain ⟨here, later⟩ := forall_mem_cons.mp all
    obtain ⟨relation, term⟩ := next
    rw [Compared.term] at here
    rw [chainExprs, chainRuns, map_cons, map_cons, zip_cons_cons, ih later,
      Compared.run, Compared.expr, here, Compared.relation]

/-- The expression of a derivation runs as the derivation does. -/
theorem Derivation.run_expr {level : Level} (derivation : Derivation level) :
    derivation.expr.run call helpers = derivation.run call helpers := by
  induction derivation using Derivation.induction with
  | inward proper inner ih | positive operand ih | group inside ih => rw [expr, run, ih]
  | joined left sign right first second =>
    rw [expr, run, Suffix.extend, Suffix.run, Expr.run_combine, first, second]
  | called callee args first all =>
    rw [expr, run, Suffix.extend, Suffix.run, Expr.run_called, first,
      run_argumentExprs call helpers all]
  | not operand ih => rw [expr, run, Expr.run_not, ih]
  | chain first second more start others =>
    rw [expr, run, Expr.run_chained, start, ← map_cons, ← chainExprs, ← chainRuns,
      zip_chainExprs call helpers others]
  | negative operand ih => rw [expr, run, Expr.run_negate, ih]
  | power base exponent first second => rw [expr, run, Expr.run_arithmetic, first, second]
  | number value => rw [expr, run, Expr.run_number]
  | name word => rw [expr, run, Expr.run_name]

end

/-- The parser succeeds on exactly the rows of tokens that have a derivation. A row has at most one,
and the program that the parser returns runs as it does; a binder in it is a closure whose calls run
the derivation of its body with the parameter bound. -/
theorem parseTokens_iff_derivable (row : List Token) :
    ((∃ program, parseTokens row = .ok program) ↔ ∃ derivation : Derivation .or,
      derivation.tokens = row) ∧
    ∀ derivation : Derivation .or, derivation.tokens = row →
      (∀ other : Derivation .or, other.tokens = row → other = derivation) ∧
      (∃ program, parseTokens row = .ok program ∧ ∀ call helpers,
        program.run call helpers = derivation.run call helpers) ∧
      ∀ (body : Derivation .or) (parameter : String) (birth moment : Moment) (call : Apply)
        (helpers scope : Scope) (value : Value),
        (Function.closure birth parameter body.expr helpers scope).applyWith call moment [value]
          = body.run call helpers ((parameter, value) :: scope) moment := by
  have parsed : ∀ derivation : Derivation .or, derivation.tokens = row →
      parseTokens row = .ok derivation.expr := by
    rintro derivation rfl
    exact parseTokens_phrase derivation.phrase
  refine ⟨⟨?_, ?_⟩, ?_⟩
  · rintro ⟨program, found⟩
    obtain ⟨derivation, -, spelled⟩ := exists_derivation found
    exact ⟨derivation, spelled⟩
  · rintro ⟨derivation, spelled⟩
    exact ⟨derivation.expr, parsed derivation spelled⟩
  · intro derivation spelled
    refine ⟨?_, ⟨derivation.expr, parsed derivation spelled, ?_⟩, ?_⟩
    · intro other spelled'
      exact other.eq_of_tokens_eq derivation (spelled'.trans spelled.symm)
    · intro call helpers
      exact derivation.run_expr call helpers
    · intro body parameter birth moment call helpers scope value
      rw [← body.run_expr call helpers]
      rfl

/-- In `not -x ^ 2 < 3` the power binds tighter than the sign before it, and the comparison tighter
than the denial. -/
theorem parseTokens_denied_comparison :
    ∃ program, parseTokens [.keyword .not, .mark .minus, .name "x", .mark .power, .number 2,
        .mark (.relation .less), .number 3] = .ok program ∧
      ∀ call helpers, program.run call helpers
        = .denied (.chained
          (.negated (.binary .power (.named helpers "x") (.constant (.float 2))))
          [(.less, .constant (.float 3))]) := by
  let signed (operand : Derivation .operand) : Derivation .signed :=
    .inward (by decide) (.inward (by decide) (.inward (by decide) operand))
  let power : Derivation .power := .power (.inward (by decide) (.name "x")) (signed (.number 2))
  let first : Derivation .sum :=
    .inward (by decide) (.inward (by decide) (.negative (.inward (by decide) power)))
  let second : Compared := .mk .less (.inward (by decide) (.inward (by decide) (signed (.number 3))))
  let whole : Derivation .or :=
    .inward (by decide) (.inward (by decide) (.not (.inward (by decide) (.chain first second []))))
  exact ((parseTokens_iff_derivable _).2 whole rfl).2.1

end Program

end Grapher
