import Grapher.Proofs.Evaluation.Renaming
import Grapher.Proofs.Program.Descent
import Grapher.Proofs.Program.Mention

/-!
# The first argument of a program that is a call

Two texts that start with a call of one function and differ only in its first argument. If both
first arguments are expressions, and interchangeable ones, then either no program comes of either
text, or two interchangeable programs do. What comes after the first
argument need not be the text of a program: the scanner and the parser treat it alike on both sides,
since the call is the leftmost operand of all that is built around it.
-/

set_option autoImplicit false

namespace Grapher.Program

open Program.Expr (Interchangeable)

/-- Two outcomes of scanning or parsing: related results, or two refusals. -/
inductive Parallel {α : Type} (R : α → α → Prop) :
    Except SyntaxError α → Except SyntaxError α → Prop where
  | ok {first second : α} (related : R first second) : Parallel R (.ok first) (.ok second)
  | error (reason reason' : SyntaxError) : Parallel R (.error reason) (.error reason')

theorem Parallel.bind {α β : Type} {R : α → α → Prop} {S : β → β → Prop}
    {first second : Except SyntaxError α} (parallel : Parallel R first second)
    {next other : α → Except SyntaxError β}
    (more : ∀ a b, R a b → Parallel S (next a) (other b)) :
    Parallel S (first >>= next) (second >>= other) := by
  cases parallel with
  | ok related => exact more _ _ related
  | error reason reason' => exact .error reason reason'

/-- Interchangeable expressions in front of the same rest. -/
def Ahead (first second : Expr × Rest) : Prop :=
  first.1.Interchangeable second.1 ∧ first.2 = second.2

/-! ## Going on after an operand -/

/-- A way to build an expression with a given one as its leftmost operand. -/
def LeftContext (build : Expr → Expr) : Prop :=
  ∀ e e', Interchangeable e e' → Interchangeable (build e) (build e')

/-- A parsing function that goes on after an expression. -/
abbrev Tail := Nat → Expr → Rest → Except SyntaxError (Expr × Rest)

/-- What such a function does with a rest, whatever the expression before it is: it stops there,
refuses the rest, or takes a part of it to build an expression around the given one. -/
inductive Going (tail : Tail) (budget : Nat) (rest : Rest) : Prop where
  | stops (same : ∀ left, tail (budget + 1) left rest = .ok (left, rest))
  | refuses {reason : SyntaxError} (fails : ∀ left, tail (budget + 1) left rest = .error reason)
  | builds {build : Expr → Expr} {later : Rest} (context : LeftContext build)
      (step : ∀ left, tail (budget + 1) left rest = tail budget (build left) later)

/-- A sign with an operand after it. -/
theorem Going.joined {tail : Tail} {α : Type} {combine : Expr → α → Expr}
    (context : ∀ right, LeftContext (combine · right)) {budget : Nat} {rest : Rest}
    (parsed : Except SyntaxError (α × Rest))
    (shape : ∀ left, tail (budget + 1) left rest
      = parsed >>= fun found => tail budget (combine left found.1) found.2) :
    Going tail budget rest := by
  cases parsed with
  | error reason => exact .refuses shape
  | ok found => exact .builds (context found.1) shape

/-- A parsing function that treats all expressions before a rest alike. -/
structure GoesOn (tail : Tail) : Prop where
  exhausted : ∀ left rest, tail 0 left rest = .error .exhausted
  going : ∀ budget rest, Going tail budget rest

theorem GoesOn.parallel {tail : Tail} (goesOn : GoesOn tail) (budget : Nat) {left left' : Expr}
    (same : Interchangeable left left') (rest : Rest) :
    Parallel Ahead (tail budget left rest) (tail budget left' rest) := by
  induction budget generalizing left left' rest with
  | zero =>
    rw [goesOn.exhausted, goesOn.exhausted]
    exact .error _ _
  | succ budget ih =>
    cases goesOn.going budget rest with
    | stops stops =>
      rw [stops, stops]
      exact .ok ⟨same, rfl⟩
    | refuses fails =>
      rw [fails, fails]
      exact .error _ _
    | builds context step =>
      rw [step, step]
      exact ih (context _ _ same) _

theorem leftContext_joint {level : Level} {token : Token} {combine : Expr → Expr → Expr}
    (joint : Joint level token combine) (right : Expr) : LeftContext (combine · right) := by
  intro e e' same
  cases joint with
  | or => exact same.or right
  | and => exact same.and right
  | _ => exact same.arithmetic _ right

theorem goesOn_after (level : Level) (goesOn : level.goesOn = true) : GoesOn level.after := by
  refine ⟨fun left rest => ?_, fun budget rest => ?_⟩
  · cases level with
    | or | and | sum | product | call => rfl
    | _ => cases goesOn
  · cases continues level rest with
    | stops same => exact .stops (same budget)
    | joined joint =>
      exact .joined (leftContext_joint joint) (level.inner.parse budget _) fun left =>
        joint.after left _
    | called isCall =>
      subst isCall
      exact .joined (fun args _ _ same => same.callee args) (parseArguments budget _) fun _ => rfl

/-! ## From a call to a program -/

section Levels

variable {budget : Nat} {word : String} {row row' : Rest}

theorem parallel_power (calls : Parallel Ahead (parseCall budget row) (parseCall budget row')) :
    Parallel Ahead (parsePower (budget + 1) row) (parsePower (budget + 1) row') := by
  refine calls.bind fun first second ahead => ?_
  obtain ⟨base, rest⟩ := first
  obtain ⟨base', rest'⟩ := second
  obtain ⟨same, rfl⟩ := ahead
  have alone : Parallel Ahead (.ok (base, rest)) (.ok (base', rest)) := .ok ⟨same, rfl⟩
  rcases rest with _ | ⟨token, rest⟩
  · exact alone
  · cases token with
    | mark sign =>
      cases sign with
      | power =>
        dsimp only
        cases parseSigned budget rest with
        | error reason => exact .error reason reason
        | ok exponent => exact .ok ⟨same.arithmetic .power exponent.1, rfl⟩
      | _ => exact alone
    | _ => exact alone

theorem parallel_comparison (sums : Parallel Ahead (parseSum budget row) (parseSum budget row')) :
    Parallel Ahead (parseComparison (budget + 1) row) (parseComparison (budget + 1) row') := by
  refine sums.bind fun first second ahead => ?_
  obtain ⟨left, rest⟩ := first
  obtain ⟨left', rest'⟩ := second
  obtain ⟨same, rfl⟩ := ahead
  dsimp only
  cases parseComparisonTail budget rest with
  | error reason => exact .error reason reason
  | ok found =>
    obtain ⟨more, later⟩ := found
    cases more with
    | nil => exact .ok ⟨same, rfl⟩
    | cons link more => exact .ok ⟨same.compare _ _, rfl⟩

/-- An operand and what a level goes on with after it. -/
theorem parallel_joined {inner level : Nat → Rest → Except SyntaxError (Expr × Rest)}
    {tail : Tail} (goesOn : GoesOn tail)
    (shape : ∀ row, level (budget + 1) row
      = inner budget row >>= fun found => tail budget found.1 found.2)
    (operands : Parallel Ahead (inner budget row) (inner budget row')) :
    Parallel Ahead (level (budget + 1) row) (level (budget + 1) row') := by
  rw [shape, shape]
  refine operands.bind fun first second ahead => ?_
  obtain ⟨left, rest⟩ := first
  obtain ⟨left', rest'⟩ := second
  obtain ⟨same, rfl⟩ := ahead
  exact goesOn.parallel budget same rest

/-- Rows that start with a name start with no sign and no negation, so each level starts with the
next tighter one. -/
theorem parallel_or (calls : Parallel Ahead (parseCall budget (.name word :: row))
      (parseCall budget (.name word :: row'))) :
    Parallel Ahead (parseOr (budget + 8) (.name word :: row))
      (parseOr (budget + 8) (.name word :: row')) := by
  have signed : Parallel Ahead (parseSigned (budget + 2) (.name word :: row))
      (parseSigned (budget + 2) (.name word :: row')) := parallel_power calls
  have product : Parallel Ahead (parseProduct (budget + 3) (.name word :: row))
      (parseProduct (budget + 3) (.name word :: row')) :=
    parallel_joined (goesOn_after .product rfl) (fun _ => rfl) signed
  have sum : Parallel Ahead (parseSum (budget + 4) (.name word :: row))
      (parseSum (budget + 4) (.name word :: row')) :=
    parallel_joined (goesOn_after .sum rfl) (fun _ => rfl) product
  have negation : Parallel Ahead (parseNot (budget + 6) (.name word :: row))
      (parseNot (budget + 6) (.name word :: row')) := parallel_comparison sum
  have conjunction : Parallel Ahead (parseAnd (budget + 7) (.name word :: row))
      (parseAnd (budget + 7) (.name word :: row')) :=
    parallel_joined (goesOn_after .and rfl) (fun _ => rfl) negation
  exact parallel_joined (goesOn_after .or rfl) (fun _ => rfl) conjunction

end Levels

/-! ## Calls with interchangeable first arguments -/

section Calls

variable {name : String} {tokens tokens' : List Token} {e e' : Expr}

/-- A call whose first argument is known goes on with the further arguments. -/
theorem parseCall_argument (arg : Argument tokens e) (rest : Rest) {budget : Nat}
    (enough : 16 * tokens.length + 10 ≤ budget) :
    parseCall (budget + 4) (.name name :: .mark .opening :: (tokens ++ .mark .comma :: rest))
      = parseArgumentList budget rest >>= fun found =>
        parseCallTail (budget + 2) (.call (.name name) (e :: found.1)) found.2 := by
  obtain ⟨token, more, shape, can⟩ := arg.starts
  have list : parseArguments (budget + 2) (tokens ++ .mark .comma :: rest)
      = parseArgumentList (budget + 1) (tokens ++ .mark .comma :: rest) := by
    rw [parseArguments]
    intro later equal
    rw [shape, List.cons_append] at equal
    cases equal
    exact absurd rfl can
  change (parseArguments (budget + 2) (tokens ++ .mark .comma :: rest) >>= fun found =>
    parseCallTail (budget + 2) (.call (.name name) found.1) found.2) = _
  rw [list, parseArgumentList, arg.parses enough ⟨rest, .inl rfl⟩]
  simp only [ok_bind]
  cases parseArgumentList budget rest <;> rfl

theorem parallel_call (arg : Argument tokens e) (arg' : Argument tokens' e')
    (same : Interchangeable e e') (rest : Rest) {budget : Nat}
    (enough : 16 * (tokens.length + tokens'.length) + 10 ≤ budget) :
    Parallel Ahead
      (parseCall (budget + 4) (.name name :: .mark .opening :: (tokens ++ .mark .comma :: rest)))
      (parseCall (budget + 4) (.name name :: .mark .opening :: (tokens' ++ .mark .comma :: rest))) := by
  rw [parseCall_argument arg rest (by omega), parseCall_argument arg' rest (by omega)]
  cases parseArgumentList budget rest with
  | error reason => exact .error reason reason
  | ok found => exact (goesOn_after .call rfl).parallel _ (same.argument (.name name) found.1) found.2

/-- A program is parsed alike with every larger budget. -/
theorem parseOr_budget {row : List Token} {budget : Nat} (enough : budgetFor row.length ≤ budget) :
    parseOr (budgetFor row.length) row = parseOr budget row := by
  have least := need_le_budgetFor row
  exact (descent_steps.settled least (Nat.le_trans least enough)).1

theorem parallel_parseTokens (arg : Argument tokens e) (arg' : Argument tokens' e')
    (same : Interchangeable e e') (rest : Rest) :
    Parallel Interchangeable
      (parseTokens (.name name :: .mark .opening :: (tokens ++ .mark .comma :: rest)))
      (parseTokens (.name name :: .mark .opening :: (tokens' ++ .mark .comma :: rest))) := by
  let budget := 16 * (tokens.length + tokens'.length + rest.length) + 52
  have parsed := parallel_or (@parallel_call name _ _ _ _ arg arg' same rest budget (by omega))
  have enough : ∀ row : List Token, row.length ≤ tokens.length + tokens'.length →
      budgetFor (Token.name name :: .mark .opening :: (row ++ .mark .comma :: rest)).length
        ≤ budget + 4 + 8 := by
    intro row shorter
    simp only [budgetFor, List.length_cons, List.length_append]
    omega
  rw [parseTokens, parseTokens, parseOr_budget (enough tokens (by omega)),
    parseOr_budget (enough tokens' (by omega))]
  refine parsed.bind fun first second ahead => ?_
  obtain ⟨program, later⟩ := first
  obtain ⟨program', later'⟩ := second
  obtain ⟨same, rfl⟩ := ahead
  cases later with
  | nil => exact .ok same
  | cons token later => exact .error _ _

end Calls

/-! ## Texts -/

theorem Token.EndsAt.congr {token : Token} {text text' : List Char} (ends : token.EndsAt text)
    (same : text.head? = text'.head?) : token.EndsAt text' := by
  cases token with
  | number value =>
    obtain ⟨noDigit, noPoint, noPower⟩ := ends
    exact ⟨fun c member => noDigit c (same ▸ member), same ▸ noPoint, same ▸ noPower⟩
  | name word | keyword word | mark sign => exact fun c member => ends c (same ▸ member)

/-- What stands after a row is scanned by itself, if it starts as what the row was made for. -/
theorem finds_after {row back : List Piece} {rest : List Char} {found : List Token}
    (spaced : Spaced (row ++ back)) (same : (pieceChars back).head? = rest.head?)
    (finds : Finds (pieceChars row ++ rest) found) : ∃ more, Finds rest more := by
  induction row generalizing found with
  | nil => exact ⟨found, finds⟩
  | cons piece row ih =>
    have heads : (pieceChars (row ++ back)).head? = (pieceChars row ++ rest).head? := by
      rw [pieceChars_append, List.head?_append, List.head?_append, same]
    rw [pieceChars_cons, List.append_assoc] at finds
    generalize shape : piece :: row ++ back = whole at spaced
    cases spaced with
    | nil => cases shape
    | blank later =>
      obtain ⟨rfl, after⟩ := List.cons.inj shape
      rw [← after] at later
      exact ih later (Finds.blank finds)
    | token spelled ends later =>
      obtain ⟨rfl, rfl⟩ := List.cons.inj shape
      obtain ⟨more, -, following⟩ := Finds.token spelled (ends.congr heads) finds
      exact ih later following
    | name identifier stops later =>
      obtain ⟨rfl, rfl⟩ := List.cons.inj shape
      obtain ⟨-, more, -, -, following⟩ := fragments_of_finds
        (Text.isIdentifierRest_of_isIdentifier identifier) (fun c member => stops c (heads ▸ member))
        finds
      exact ih later following

/-- Where a text stands matters only for what is said about it when it is refused. -/
theorem scan_position {text : List Char} {found : List Token} {skip position : Nat}
    (scanned : scan skip position text = .ok found) (position' : Nat) :
    scan skip position' text = .ok found := by
  induction text generalizing skip position position' found with
  | nil => exact scanned
  | cons c rest ih =>
    cases skip with
    | succ skip => exact ih scanned _
    | zero =>
      unfold scan at scanned ⊢
      cases recognised : lexeme? (Text.dropBlanks (c :: rest)) with
      | none => simp [recognised] at scanned
      | some lexeme =>
        simp only [recognised] at scanned ⊢
        split at scanned
        · next blank =>
          rw [if_pos blank]
          exact ih scanned _
        · next visible =>
          rw [if_neg visible]
          obtain ⟨more, later, scanned⟩ := ok_of_bind scanned
          rw [ih later]
          exact scanned

theorem Finds.scanned {text : List Char} {found : List Token} (finds : Finds text found) :
    Scanned text found := by
  obtain ⟨position, scanned⟩ := finds
  exact scan_position scanned

/-- Pieces that start a call: its function, the parenthesis, and a first argument. -/
structure Leads (name : String) (row : List Piece) (e : Expr) : Prop where
  word : IsWord name
  legible : Legible row
  spaced : Spaced (row ++ [markPiece .comma])
  argument : Argument (piecesTokens row) e

/-- A call with a given first argument and anything after it. -/
def callRow (name : String) (row back : List Piece) : List Piece :=
  namePiece name :: markPiece .opening :: (row ++ markPiece .comma :: (back ++ [markPiece .closing]))

theorem pieceChars_callRow (name : String) (row back : List Piece) :
    pieceChars (callRow name row back) = pieceChars (namePiece name :: markPiece .opening :: row)
      ++ ',' :: (pieceChars back ++ [')']) := by
  simp only [callRow, pieceChars_cons, pieceChars_append, pieceChars_nil, List.append_assoc]
  rfl

theorem dropBlanksRight_callRow (name : String) (row back : List Piece) :
    Text.dropBlanksRight (pieceChars (callRow name row back))
      = pieceChars (callRow name row back) := by
  rw [pieceChars_callRow, ← List.cons_append, ← List.append_assoc]
  exact dropBlanksRight_of_visible rfl

namespace Leads

variable {name : String} {row : List Piece} {e : Expr} (leads : Leads name row e)

include leads

theorem legible_front : Legible (namePiece name :: markPiece .opening :: row) := by
  refine @Legible.cons (.name name) _ ⟨leads.word.named, leads.word.ascii⟩
    (fun _ => (Stops.cons (by decide)).endsAt _)
    (@Legible.cons (.mark .opening) _ trivial ?_ leads.legible)
  intro rest c _ grows
  cases grows

theorem spaced_front :
    Spaced (namePiece name :: markPiece .opening :: row ++ [markPiece .comma]) := by
  have named := leads.word.named
  rw [Reading.isName, Bool.and_eq_true] at named
  exact .name named.1 (.cons (by decide)) (.mark rfl leads.spaced)

/-- The tokens of such a call: its own up to the comma, and whatever is found after it. -/
theorem tokens_eq_ok_iff {back : List Piece} {found : List Token} :
    tokens (piecesText (callRow name row back)) = .ok found ↔
      ∃ more, found = .name name :: .mark .opening :: (piecesTokens row ++ .mark .comma :: more) ∧
        Scanned (pieceChars back ++ [')']) more := by
  have whole : ∀ {more : List Token}, Scanned (pieceChars back ++ [')']) more →
      Scanned (pieceChars (callRow name row back))
        (.name name :: .mark .opening :: (piecesTokens row ++ .mark .comma :: more)) := by
    intro more scanned
    rw [pieceChars_callRow]
    exact leads.legible_front.scanned (.cons (by decide)) (.mark .comma rfl scanned)
  rw [tokens, toList_piecesText, dropBlanksRight_callRow]
  constructor
  · intro scanned
    have start : (pieceChars [markPiece .comma]).head?
        = (',' :: (pieceChars back ++ [')'])).head? := rfl
    obtain ⟨_, after⟩ := finds_after leads.spaced_front start
      ⟨0, by rw [← pieceChars_callRow]; exact scanned⟩
    obtain ⟨more, -, later⟩ :=
      @Finds.token _ _ (.mark .comma) trivial (fun c _ grows => by cases grows) after
    have again := whole later.scanned 0
    rw [scanned] at again
    exact ⟨more, Except.ok.inj again, later.scanned⟩
  · rintro ⟨more, rfl, scanned⟩
    exact whole scanned 0

theorem trim_callRow (back : List Piece) :
    (Text.trim (piecesText (callRow name row back)).toList).isEmpty = false := by
  obtain ⟨c, more, text, visible⟩ := leads.legible_front.first
  have undropped : Text.dropBlanks (pieceChars (callRow name row back))
      = pieceChars (callRow name row back) := by
    rw [pieceChars_callRow, text]
    exact dropBlanks_of_visible visible
  rw [Text.trim, toList_piecesText, undropped, dropBlanksRight_callRow, pieceChars_callRow, text]
  rfl

end Leads

/-- Two calls with interchangeable first arguments and the same text after them. -/
theorem parallel_parse {name : String} {row row' : List Piece} {e e' : Expr}
    (leads : Leads name row e) (leads' : Leads name row' e') (same : Interchangeable e e')
    (back : List Piece) :
    Parallel Interchangeable (parse (piecesText (callRow name row back)))
      (parse (piecesText (callRow name row' back))) := by
  rw [parse, parse, leads.trim_callRow, leads'.trim_callRow, if_neg Bool.false_ne_true,
    if_neg Bool.false_ne_true]
  cases scanned : tokens (piecesText (callRow name row back)) with
  | ok found =>
    obtain ⟨more, rfl, later⟩ := leads.tokens_eq_ok_iff.mp scanned
    rw [leads'.tokens_eq_ok_iff.mpr ⟨more, rfl, later⟩]
    exact parallel_parseTokens leads.argument leads'.argument same more
  | error reason =>
    cases scanned' : tokens (piecesText (callRow name row' back)) with
    | ok found =>
      obtain ⟨more, rfl, later⟩ := leads'.tokens_eq_ok_iff.mp scanned'
      rw [leads.tokens_eq_ok_iff.mpr ⟨more, rfl, later⟩] at scanned
      cases scanned
    | error reason' => exact .error reason reason'

end Grapher.Program
