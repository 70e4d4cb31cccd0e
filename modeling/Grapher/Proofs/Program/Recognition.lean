import Grapher.Proofs.Program.Derivation
import Grapher.Proofs.Program.Descent

/-!
# Every parsed program is derived

Whatever a parsing function returns is the expression of a derivation whose tokens are the ones it
took. The statement is proved for all parsing functions at once, by induction on the budget; a
function that goes on after a phrase is given the derivation of what stands on its left.
-/

set_option autoImplicit false

namespace Grapher.Program

open List Program.Derivation

/-- What holds of the result of a parsing function and of the tokens that it leaves. -/
def Gives {α : Type} (good : α → Rest → Prop) (outcome : Except SyntaxError (α × Rest)) : Prop :=
  ∀ found rest, outcome = .ok (found, rest) → good found rest

namespace Gives

variable {α β : Type} {good : α → Rest → Prop} {better : β → Rest → Prop}

theorem ok {found : α} {rest : Rest} (isGood : good found rest) :
    Gives good (.ok (found, rest)) := by
  intro other later same
  cases same
  exact isGood

theorem error (reason : SyntaxError) : Gives good (.error reason) :=
  fun _ _ same => nomatch same

theorem bind {outcome : Except SyntaxError (α × Rest)} (first : Gives good outcome)
    {next : α × Rest → Except SyntaxError (β × Rest)}
    (more : ∀ found rest, good found rest → Gives better (next (found, rest))) :
    Gives better (outcome >>= next) := by
  cases outcome with
  | error reason => exact error reason
  | ok result =>
    obtain ⟨found, rest⟩ := result
    exact more found rest (first found rest rfl)

/-- A closing mark in between. -/
theorem closing {rest : Rest} {next : Rest → Except SyntaxError (β × Rest)}
    (more : ∀ later, rest = .mark .closing :: later → Gives better (next later)) :
    Gives better (afterClosing rest >>= next) := by
  unfold afterClosing
  split
  · exact more _ rfl
  · exact error _

end Gives

/-- The tokens in front of the rest are those of a derivation of the expression. -/
def Derives (level : Level) (row : Rest) (found : Expr) (rest : Rest) : Prop :=
  ∃ derivation : Derivation level, derivation.expr = found ∧ row = derivation.tokens ++ rest

/-- The tokens in front of the rest are arguments with commas between them and a closing mark. -/
def DerivesArguments (args : List Passed) (row : Rest) (found : List Expr) (rest : Rest) : Prop :=
  argumentExprs args = found ∧
    row = [Token.mark .comma].intercalate (argumentTokens args) ++ .mark .closing :: rest

/-- With a budget, all parsing functions return derived results only. -/
structure Sound (budget : Nat) : Prop where
  phrase : ∀ level row, Gives (Derives level row) (level.parse budget row)
  after : ∀ {level : Level} (left : Derivation level) row,
    Gives (Derives level (left.tokens ++ row)) (level.after budget left.expr row)
  chain : ∀ row, Gives (fun found rest => ∃ more : List Compared,
      more.map (fun next => (next.relation, next.expr)) = found ∧ row = chainTokens more ++ rest)
    (parseComparisonTail budget row)
  arguments : ∀ row, Gives (fun found rest => ∃ args, DerivesArguments args row found rest)
    (parseArguments budget row)
  argumentList : ∀ row, Gives
    (fun found rest => ∃ arg args, DerivesArguments (arg :: args) row found rest)
    (parseArgumentList budget row)
  argument : ∀ row, Gives (fun found rest => ∃ arg : Passed, arg.expr = found ∧
      row = arg.tokens ++ rest) (parseArgument budget row)

/-- A phrase of the next tighter level is a phrase. -/
theorem Derives.inward (level : Level) (proper : level ≠ .operand) {row rest : Rest} {found : Expr}
    (derived : Derives level.inner row found rest) : Derives level row found rest := by
  obtain ⟨inner, rfl, rfl⟩ := derived
  exact ⟨.inward proper inner, by rw [Derivation.expr], by rw [Derivation.tokens]⟩

/-- What goes on after a phrase gives the phrase itself where nothing extends it. -/
theorem Derivation.derives {level : Level} (derivation : Derivation level) (rest : Rest) :
    Derives level (derivation.tokens ++ rest) derivation.expr rest :=
  ⟨derivation, rfl, rfl⟩

namespace Sound

variable {budget : Nat}

theorem zero : Sound 0 := by
  refine ⟨?_, ?_, ?_, ?_, ?_, ?_⟩
  · intro level row
    cases level <;> exact .error _
  · intro level left row
    cases level
    case or | and | sum | product | call => exact .error _
    all_goals exact .ok (left.derives row)
  all_goals intro row; exact .error _

section

variable (ih : Sound budget)

include ih

/-- A level with suffixes: its first operand, and then what follows. -/
theorem opened (level : Level) (proper : level ≠ .operand) (row : Rest) :
    Gives (Derives level row)
      (level.inner.parse budget row >>= fun found => level.after budget found.1 found.2) := by
  refine (ih.phrase level.inner row).bind ?_
  rintro found rest ⟨inner, rfl, rfl⟩
  have later := ih.after (.inward proper inner) rest
  rwa [Derivation.tokens, Derivation.expr] at later

/-- A sign and its operand after a phrase, and then what follows. -/
theorem joined {level : Level} (left : Derivation level) (sign : Sign level)
    (row : Rest) :
    Gives (Derives level (left.tokens ++ sign.token :: row))
      (level.inner.parse budget row >>= fun found =>
        level.after budget (sign.combine left.expr found.1) found.2) := by
  refine (ih.phrase level.inner row).bind ?_
  rintro found rest ⟨right, rfl, rfl⟩
  have later := ih.after (.extended left (.joined sign right)) rest
  simpa only [Derivation.tokens, Derivation.expr, Suffix.tokens, Suffix.extend, append_assoc,
    cons_append] using later

/-- Arguments after a callee, and then what follows. -/
theorem called (callee : Derivation .call) (row : Rest) :
    Gives (Derives .call (callee.tokens ++ .mark .opening :: row))
      (parseArguments budget row >>= fun found =>
        parseCallTail budget (.call callee.expr found.1) found.2) := by
  refine (ih.arguments row).bind ?_
  rintro found rest ⟨args, rfl, rfl⟩
  have later := ih.after (.extended callee (.arguments args)) rest
  simpa only [Derivation.tokens, Derivation.expr, Suffix.tokens, Suffix.extend, delimited,
    Level.after, append_assoc, cons_append, nil_append] using later

theorem succ_phrase (level : Level) (row : Rest) :
    Gives (Derives level row) (level.parse (budget + 1) row) := by
  cases level with
  | or => exact ih.opened .or (by decide) row
  | and => exact ih.opened .and (by decide) row
  | not =>
    rw [Level.parse, parseNot.eq_def]
    dsimp only
    split
    · refine (ih.phrase .not _).bind ?_
      rintro found rest ⟨operand, rfl, rfl⟩
      exact .ok ⟨.not operand, by rw [Derivation.expr], by rw [Derivation.tokens]; rfl⟩
    · intro found rest same
      exact .inward .not (by decide) (ih.phrase .comparison row found rest same)
  | comparison =>
    rw [Level.parse, parseComparison.eq_def]
    refine (ih.phrase .sum row).bind ?_
    rintro found rest ⟨first, rfl, rfl⟩
    refine (ih.chain rest).bind ?_
    rintro found later ⟨more, rfl, rfl⟩
    cases more with
    | nil =>
      rw [chainTokens, nil_append]
      exact .ok (.inward .comparison (by decide) (first.derives later))
    | cons second more =>
      refine .ok ⟨.chain first second more, ?_, ?_⟩
      · simp only [expr, chainExprs_eq, comparison, map_cons, map_map, Function.comp_def]
      · simp only [Derivation.tokens, chainTokens, append_assoc]
  | sum => exact ih.opened .sum (by decide) row
  | product => exact ih.opened .product (by decide) row
  | signed =>
    rw [Level.parse, parseSigned.eq_def]
    dsimp only
    split
    · refine (ih.phrase .signed _).bind ?_
      rintro found rest ⟨operand, rfl, rfl⟩
      exact .ok ⟨.negative operand, by rw [Derivation.expr], by rw [Derivation.tokens]; rfl⟩
    · intro found rest same
      obtain ⟨operand, rfl, rfl⟩ := ih.phrase .signed _ found rest same
      exact ⟨.positive operand, by rw [Derivation.expr], by rw [Derivation.tokens]; rfl⟩
    · intro found rest same
      exact .inward .signed (by decide) (ih.phrase .power row found rest same)
  | power =>
    rw [Level.parse, parsePower.eq_def]
    refine (ih.phrase .call row).bind ?_
    rintro found rest ⟨base, rfl, rfl⟩
    dsimp only
    split
    · refine (ih.phrase .signed _).bind ?_
      rintro found later ⟨exponent, rfl, rfl⟩
      refine .ok ⟨.power base exponent, by rw [expr], ?_⟩
      rw [Derivation.tokens, append_assoc, cons_append]
    · exact .ok (.inward .power (by decide) (base.derives rest))
  | call => exact ih.opened .call (by decide) row
  | operand =>
    rw [Level.parse, parseOperand.eq_def]
    dsimp only
    split
    · exact .ok ⟨.number _, by rw [Derivation.expr], by rw [Derivation.tokens]; rfl⟩
    · exact .ok ⟨.name _, by rw [Derivation.expr], by rw [Derivation.tokens]; rfl⟩
    · refine (ih.phrase .or _).bind ?_
      rintro found rest ⟨inside, rfl, rfl⟩
      refine .closing ?_
      rintro later rfl
      refine .ok ⟨.group inside, by rw [expr], ?_⟩
      rw [Derivation.tokens, cons_append, cons_append, append_assoc]
      rfl
    · exact .error _
    · exact .error _

theorem succ_after {level : Level} (left : Derivation level) (row : Rest) :
    Gives (Derives level (left.tokens ++ row)) (level.after (budget + 1) left.expr row) := by
  cases continues level row with
  | stops same =>
    rw [same]
    exact .ok (left.derives row)
  | joined joint =>
    obtain ⟨sign, rfl, rfl⟩ := joint.sign
    rw [joint.after]
    exact ih.joined left sign _
  | called isCall =>
    subst isCall
    exact ih.called left _

theorem succ : Sound (budget + 1) where
  phrase := ih.succ_phrase
  after := ih.succ_after
  chain row := by
    rw [parseComparisonTail.eq_def]
    dsimp only
    split
    · next relation row =>
      refine (ih.phrase .sum row).bind ?_
      rintro found rest ⟨term, rfl, rfl⟩
      refine (ih.chain rest).bind ?_
      rintro found later ⟨more, rfl, rfl⟩
      refine .ok ⟨.mk relation term :: more, ?_, ?_⟩
      · rw [map_cons, Compared.relation, Compared.expr]
      · rw [chainTokens, Compared.tokens, append_assoc, cons_append]
    · exact .ok ⟨[], rfl, by rw [chainTokens, nil_append]⟩
  arguments row := by
    rw [parseArguments.eq_def]
    dsimp only
    split
    · exact .ok ⟨[], by rw [argumentExprs], by rw [argumentTokens]; rfl⟩
    · intro found rest same
      obtain ⟨arg, args, derived⟩ := ih.argumentList row found rest same
      exact ⟨arg :: args, derived⟩
  argumentList row := by
    rw [parseArgumentList.eq_def]
    refine (ih.argument row).bind ?_
    rintro found rest ⟨arg, rfl, rfl⟩
    dsimp only
    split
    · next row =>
      refine (ih.argumentList row).bind ?_
      rintro found later ⟨second, args, rfl, rfl⟩
      refine .ok ⟨arg, second :: args, by rw [argumentExprs], ?_⟩
      simp only [argumentTokens, intercalate_cons_cons, append_assoc, cons_append, nil_append]
    · refine .closing ?_
      rintro later rfl
      refine .ok ⟨arg, [], by rw [argumentExprs, argumentExprs], ?_⟩
      rw [argumentTokens, argumentTokens, intercalate_singleton]
  argument row := by
    rw [parseArgument.eq_def]
    dsimp only
    split
    · next parameter row =>
      refine (ih.phrase .or row).bind ?_
      rintro found rest ⟨body, rfl, rfl⟩
      refine .ok ⟨.binder parameter body, by rw [Passed.expr], ?_⟩
      rw [Passed.tokens, cons_append, cons_append]
    · intro found rest same
      obtain ⟨phrase, rfl, rfl⟩ := ih.phrase .or row found rest same
      exact ⟨.plain phrase, by rw [Passed.expr], by rw [Passed.tokens]⟩

end

end Sound

theorem sound (budget : Nat) : Sound budget := by
  induction budget with
  | zero => exact .zero
  | succ budget ih => exact ih.succ

/-- A program is the expression of a derivation of its tokens. -/
theorem exists_derivation {tokens : List Token} {program : Expr}
    (parsed : parseTokens tokens = .ok program) :
    ∃ derivation : Derivation .or, derivation.expr = program ∧ derivation.tokens = tokens := by
  obtain ⟨derivation, rfl, shape⟩ := (sound (budgetFor tokens.length)).phrase .or tokens program []
    (parseOr_of_parseTokens parsed)
  rw [append_nil] at shape
  exact ⟨derivation, rfl, shape.symm⟩

end Grapher.Program
