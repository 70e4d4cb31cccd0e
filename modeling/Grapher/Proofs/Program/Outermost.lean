import Grapher.Proofs.Program.Insertion
import Grapher.Proofs.Program.Mention

/-!
# Tokens outside of all parentheses

What a program is can be seen from the tokens that stand outside of all parentheses. A sum and
everything that binds tighter has no relation and no connective word there, so a row with one of
them outside of its parentheses is a comparison, a negation or a connective; and a row that is one
pair of parentheses is a group of what stands between them.

Both hold for every row that the parser accepts. The row of a written program keeps its parentheses
and its signs when names are taken apart, so a condition that is written in parentheses is a
condition when it is parsed, whatever the names in it are.
-/

set_option autoImplicit false

namespace Grapher.Program

open Reading List

/-! ## Rows with closed parentheses -/

/-- Whether a token is a parenthesis. -/
def Token.isParenthesis : Token → Bool
  | .mark .opening | .mark .closing => true
  | _ => false

/-- Whether a token joins or denies conditions, or makes one. -/
def Token.isConditional : Token → Bool
  | .keyword _ | .mark (.relation _) => true
  | _ => false

/-- Rows in which all parentheses are closed, with their outermost tokens: those outside of all
parentheses, and the opening parenthesis of each outermost pair. -/
inductive Nested : List Token → List Token → Prop where
  | nil : Nested [] []
  | token {token : Token} {row outer : List Token} (plain : token.isParenthesis = false)
      (later : Nested row outer) : Nested (token :: row) (token :: outer)
  | group {inside hidden row outer : List Token} (inner : Nested inside hidden)
      (later : Nested row outer) :
      Nested (.mark .opening :: (inside ++ .mark .closing :: row)) (.mark .opening :: outer)

/-- The outermost tokens of a row that starts inside of so many parentheses. -/
def outermost : Nat → List Token → List Token
  | _, [] => []
  | 0, .mark .opening :: row => .mark .opening :: outermost 1 row
  | depth + 1, .mark .opening :: row => outermost (depth + 2) row
  | depth, .mark .closing :: row => outermost (depth - 1) row
  | 0, token :: row => token :: outermost 0 row
  | depth + 1, _ :: row => outermost (depth + 1) row

theorem outermost_zero {token : Token} (plain : token.isParenthesis = false) (row : List Token) :
    outermost 0 (token :: row) = token :: outermost 0 row := by
  cases token with
  | mark sign =>
    cases sign with
    | opening | closing => cases plain
    | _ => rfl
  | _ => rfl

theorem outermost_succ {token : Token} (plain : token.isParenthesis = false) (depth : Nat)
    (row : List Token) : outermost (depth + 1) (token :: row) = outermost (depth + 1) row := by
  cases token with
  | mark sign =>
    cases sign with
    | opening | closing => cases plain
    | _ => rfl
  | _ => rfl

namespace Nested

variable {row other outer outer' : List Token}

section

variable (nested : Nested row outer)

include nested

/-- Inside of parentheses a row with closed parentheses shows nothing. -/
theorem outermost_inside (depth : Nat) (rest : List Token) :
    outermost (depth + 1) (row ++ rest) = outermost (depth + 1) rest := by
  induction nested generalizing depth rest with
  | nil => rfl
  | token plain _ ih => rw [cons_append, outermost_succ plain, ih]
  | group _ _ inner later =>
    rw [cons_append, append_assoc, cons_append]
    exact (inner (depth + 1) _).trans (later depth rest)

theorem outermost_outside (rest : List Token) :
    outermost 0 (row ++ rest) = outer ++ outermost 0 rest := by
  induction nested with
  | nil => rfl
  | token plain _ ih => rw [cons_append, outermost_zero plain, ih, cons_append]
  | group inner _ _ later =>
    rw [cons_append, append_assoc, cons_append, cons_append, ← later]
    exact congrArg _ (inner.outermost_inside 0 _)

/-- The outermost tokens are determined by the row. -/
theorem unique (same : Nested row outer') : outer = outer' := by
  have first := nested.outermost_outside []
  have second := same.outermost_outside []
  rw [first] at second
  simpa [outermost] using second

theorem append (more : Nested other outer') :
    Nested (row ++ other) (outer ++ outer') := by
  induction nested with
  | nil => exact more
  | token plain _ ih => exact .token plain ih
  | group inner _ _ ih =>
    rw [cons_append, append_assoc, cons_append]
    exact .group inner ih

theorem enclosed :
    Nested (.mark .opening :: (row ++ [.mark .closing])) [.mark .opening] :=
  .group nested .nil

/-- Rows with a token between them. -/
theorem join {token : Token} (plain : token.isParenthesis = false)
    (more : Nested other outer') : Nested (row ++ token :: other) (outer ++ token :: outer') :=
  nested.append (.token plain more)

end

theorem intercalate {separator : Token} (plain : separator.isParenthesis = false) :
    ∀ {rows : List (List Token)}, (∀ row ∈ rows, ∃ outer, Nested row outer) →
      ∃ outer, Nested ([separator].intercalate rows) outer ∧
        (2 ≤ rows.length → separator ∈ outer) := by
  intro rows all
  induction rows with
  | nil => exact ⟨[], .nil, fun several => absurd several (by simp)⟩
  | cons first rows ih =>
    rw [forall_mem_cons] at all
    obtain ⟨start, nested⟩ := all.1
    obtain ⟨outer, later, -⟩ := ih all.2
    cases rows with
    | nil =>
      rw [intercalate_singleton]
      exact ⟨start, nested, fun several => absurd several (by simp)⟩
    | cons second rows =>
      rw [intercalate_cons_cons, append_assoc, singleton_append]
      exact ⟨_, nested.join plain later, fun _ => by simp⟩

end Nested

/-! ## Derivations -/

/-- Whether an expression is a negation, a comparison or a connective. -/
def Expr.isCondition : Expr → Bool
  | .not _ | .and _ _ | .or _ _ | .compare _ _ _ => true
  | _ => false

/-- What the outermost tokens say of a phrase of a level and its expression. -/
structure Exposes (level : Level) (row : List Token) (e : Expr) (outer : List Token) : Prop where
  nested : Nested row outer
  some : outer ≠ []
  tight : Level.sum.index ≤ level.index → ∀ token ∈ outer, token.isConditional = false
  condition : ∀ token ∈ outer, token.isConditional = true → e.isCondition = true
  group : outer = [.mark .opening] → ∃ inside : Derivation .or,
    row = .mark .opening :: (inside.tokens ++ [.mark .closing]) ∧ inside.expr = e

namespace Exposes

variable {level : Level} {row outer : List Token} {e : Expr}

/-- A phrase that binds at least as tight as a sum shows no condition. -/
theorem condition_of_tight (tight : ∀ token ∈ outer, token.isConditional = false) :
    ∀ token ∈ outer, token.isConditional = true → e.isCondition = true := by
  intro token member conditional
  rw [tight token member] at conditional
  cases conditional

theorem nested_passed {arg : Passed}
    (inside : ∃ outer, Exposes .or arg.phrase.tokens arg.phrase.expr outer) :
    ∃ outer, Nested arg.tokens outer := by
  obtain ⟨outer, exposes⟩ := inside
  cases arg with
  | plain phrase => exact ⟨outer, exposes.nested⟩
  | binder parameter body => exact ⟨_, .token rfl (.token rfl exposes.nested)⟩

theorem nested_arguments {args : List Passed}
    (all : ∀ arg ∈ args, ∃ outer, Exposes .or arg.phrase.tokens arg.phrase.expr outer) :
    Nested (delimited (argumentTokens args)) [.mark .opening] := by
  have rows : ∀ row ∈ argumentTokens args, ∃ outer, Nested row outer := by
    intro row member
    rw [argumentTokens_eq] at member
    obtain ⟨arg, among, rfl⟩ := mem_map.mp member
    exact nested_passed (all arg among)
  obtain ⟨outer, nested, -⟩ := @Nested.intercalate (.mark .comma) rfl _ rows
  exact nested.enclosed

theorem nested_chain {more : List Compared}
    (all : ∀ next ∈ more, ∃ outer, Exposes .sum next.term.tokens next.term.expr outer) :
    ∃ outer, Nested (chainTokens more) outer := by
  induction more with
  | nil => exact ⟨[], .nil⟩
  | cons next more ih =>
    obtain ⟨relation, term⟩ := next
    rw [forall_mem_cons] at all
    obtain ⟨first, exposes⟩ := all.1
    obtain ⟨outer, later⟩ := ih all.2
    exact ⟨_, .token rfl (exposes.nested.append later)⟩

/-- A token behind a phrase leaves no room for a single parenthesis. -/
theorem apart (exposes : Exposes level row e outer) (token : Token) (more : List Token) :
    outer ++ token :: more ≠ [.mark .opening] := by
  intro same
  have lengths := congrArg length same
  have some := length_pos_of_ne_nil exposes.some
  simp only [length_append, length_cons, length_nil] at lengths
  omega

/-- A sign in front of a phrase. -/
theorem signed {mark : Mark} (plain : (Token.mark mark).isParenthesis = false)
    (arithmetic : (Token.mark mark).isConditional = false) (exposes : Exposes .signed row e outer)
    (e' : Expr) : Exposes .signed (.mark mark :: row) e' (.mark mark :: outer) := by
  have tight : ∀ token ∈ Token.mark mark :: outer, token.isConditional = false := by
    rw [forall_mem_cons]
    exact ⟨arithmetic, exposes.tight (by decide)⟩
  refine ⟨.token plain exposes.nested, cons_ne_nil _ _, fun _ => tight,
    condition_of_tight tight, fun same => ?_⟩
  rw [(cons.inj same).1] at plain
  cases plain

/-- A sign between two phrases. -/
theorem joined {sign : Sign level} {left : Derivation level} {right : Derivation level.inner}
    {first second : List Token} (before : Exposes level left.tokens left.expr first)
    (after : Exposes level.inner right.tokens right.expr second) :
    Exposes level (left.tokens ++ sign.token :: right.tokens)
      (sign.combine left.expr right.expr) (first ++ sign.token :: second) := by
  have tight : Level.sum.index ≤ level.index →
      ∀ token ∈ first ++ sign.token :: second, token.isConditional = false := by
    intro low
    rw [forall_mem_append, forall_mem_cons]
    refine ⟨before.tight low, ?_, after.tight ?_⟩
    · cases sign <;> first | rfl | exact absurd low (by decide)
    · cases sign <;> first | decide | exact absurd low (by decide)
  refine ⟨before.nested.join (by cases sign <;> rfl) after.nested, by simp, tight, ?_,
    fun same => absurd same (before.apart _ _)⟩
  cases sign with
  | or | and => exact fun _ _ _ => rfl
  | plus | minus | times | divide => exact condition_of_tight (tight (by decide))

end Exposes

/-- The outermost tokens of a derivation. -/
theorem Derivation.exposes {level : Level} (d : Derivation level) :
    ∃ outer, Exposes level d.tokens d.expr outer := by
  induction d using Derivation.induction with
  | @inward level proper inner ih =>
    obtain ⟨outer, exposes⟩ := ih
    have below : level.index ≤ level.inner.index := by cases level <;> decide
    exact ⟨outer, exposes.nested, exposes.some, fun low => exposes.tight (low.trans below),
      exposes.condition, exposes.group⟩
  | joined left sign right before after =>
    obtain ⟨first, before⟩ := before
    obtain ⟨second, after⟩ := after
    exact ⟨_, before.joined after⟩
  | called callee args function all =>
    obtain ⟨outer, exposes⟩ := function
    have tight : ∀ token ∈ outer ++ [.mark .opening], token.isConditional = false := by
      rw [forall_mem_append, forall_mem_singleton]
      exact ⟨exposes.tight (by decide), rfl⟩
    exact ⟨_, exposes.nested.append (Exposes.nested_arguments all), by simp, fun _ => tight,
      Exposes.condition_of_tight tight, fun same => absurd same (exposes.apart _ [])⟩
  | not operand ih =>
    obtain ⟨outer, exposes⟩ := ih
    exact ⟨_, .token rfl exposes.nested, cons_ne_nil _ _, fun low => absurd low (by decide),
      fun _ _ _ => rfl, fun same => by cases same⟩
  | chain first second more start all =>
    obtain ⟨before, exposes⟩ := start
    obtain ⟨after, nested⟩ := Exposes.nested_chain all
    rw [Derivation.tokens, Derivation.expr, ← chainTokens]
    refine ⟨_, exposes.nested.append nested, by simp [exposes.some], fun low => absurd low (by decide),
      fun _ _ _ => rfl, fun same => ?_⟩
    -- a further term brings a relation, so more than one token is outermost
    obtain ⟨relation, term⟩ := second
    cases nested with
    | token plain later => exact absurd same (exposes.apart _ _)
  | negative operand ih | positive operand ih =>
    obtain ⟨outer, exposes⟩ := ih
    exact ⟨_, exposes.signed rfl rfl _⟩
  | power base exponent before after =>
    obtain ⟨first, before⟩ := before
    obtain ⟨second, after⟩ := after
    have tight : ∀ token ∈ first ++ .mark .power :: second, token.isConditional = false := by
      rw [forall_mem_append, forall_mem_cons]
      exact ⟨before.tight (by decide), rfl, after.tight (by decide)⟩
    exact ⟨_, before.nested.join rfl after.nested, by simp, fun _ => tight,
      Exposes.condition_of_tight tight, fun same => absurd same (before.apart _ _)⟩
  | number value | name word =>
    exact ⟨_, .token rfl .nil, cons_ne_nil _ _, fun _ => by simp [Token.isConditional],
      by simp [Token.isConditional], fun same => by cases same⟩
  | group inside ih =>
    obtain ⟨outer, exposes⟩ := ih
    rw [Derivation.tokens, Derivation.expr, cons_append]
    exact ⟨_, exposes.nested.enclosed, cons_ne_nil _ _, fun _ => by simp [Token.isConditional],
      by simp [Token.isConditional], fun _ => ⟨inside, rfl, rfl⟩⟩

/-- A row in parentheses with a relation or a connective word right inside them is a condition. -/
theorem isCondition_of_enclosed {row outer : List Token} (nested : Nested row outer)
    {token : Token} (shown : token ∈ outer) (conditional : token.isConditional = true)
    {program : Expr}
    (parsed : parseTokens (.mark .opening :: (row ++ [.mark .closing])) = .ok program) :
    program.isCondition = true := by
  obtain ⟨d, rfl, spelled⟩ := exists_derivation parsed
  obtain ⟨outside, exposes⟩ := d.exposes
  rw [spelled] at exposes
  obtain ⟨inside, same, means⟩ := exposes.group (exposes.nested.unique nested.enclosed)
  obtain rfl : row = inside.tokens :=
    append_cancel_right (cons.inj same).2
  obtain ⟨shows, exposed⟩ := inside.exposes
  rw [exposed.nested.unique nested] at exposed
  rw [← means]
  exact exposed.condition token shown conditional

/-! ## Written programs -/

theorem Garbled.append_inv {row more found : List Token} (garbled : Garbled (row ++ more) found) :
    ∃ first second, found = first ++ second ∧ Garbled row first ∧ Garbled more second := by
  induction row generalizing found with
  | nil => exact ⟨[], found, rfl, .nil, garbled⟩
  | cons token row ih =>
    cases garbled with
    | same _ later =>
      obtain ⟨first, second, rfl, here, there⟩ := ih later
      exact ⟨token :: first, second, rfl, .same token here, there⟩
    | @broken word parts _ found some ordinary arrowless later =>
      obtain ⟨first, second, rfl, here, there⟩ := ih later
      refine ⟨parts ++ first, second, by rw [append_assoc],
        .broken word some ordinary ?_ here, there⟩
      cases row with
      | nil => exact fun same => by cases same
      | cons next row => exact arrowless

theorem nested_of_passive {parts : List Token}
    (passive : ∀ token ∈ parts, token.isPassive = true) : Nested parts parts := by
  induction parts with
  | nil => exact .nil
  | cons token parts ih =>
    rw [forall_mem_cons] at passive
    refine .token ?_ (ih passive.2)
    cases token with
    | mark sign => cases sign <;> first | rfl | cases passive.1
    | _ => rfl

/-- Names that are taken apart leave the parentheses and the signs of a row as they are. -/
theorem Nested.garbled {row outer found : List Token} (nested : Nested row outer)
    (garbled : Garbled row found) :
    ∃ outer', Nested found outer' ∧ ∀ token ∈ outer, token.isConditional = true → token ∈ outer' := by
  induction nested generalizing found with
  | nil =>
    cases garbled
    exact ⟨[], .nil, fun _ member => by cases member⟩
  | @token token row outer plain _ ih =>
    cases garbled with
    | same _ later =>
      obtain ⟨outer', nested, kept⟩ := ih later
      refine ⟨token :: outer', .token plain nested, ?_⟩
      rw [forall_mem_cons]
      exact ⟨fun _ => .head _, fun other member shown => .tail _ (kept other member shown)⟩
    | @broken word parts _ found some ordinary arrowless later =>
      obtain ⟨outer', nested, kept⟩ := ih later
      refine ⟨parts ++ outer', (nested_of_passive fun token member => (ordinary token member).1).append
        nested, ?_⟩
      rw [forall_mem_cons]
      refine ⟨fun shown => (by cases shown), fun other member shown => ?_⟩
      exact mem_append_right _ (kept other member shown)
  | group _ _ inner later =>
    cases garbled with
    | same _ rest =>
      obtain ⟨first, second, rfl, here, there⟩ := rest.append_inv
      cases there with
      | same _ after =>
        obtain ⟨hidden, inside, -⟩ := inner here
        obtain ⟨outer', nested, kept⟩ := later after
        refine ⟨.mark .opening :: outer', .group inside nested, ?_⟩
        rw [forall_mem_cons]
        exact ⟨fun _ => .head _, fun other member shown => .tail _ (kept other member shown)⟩

/-- The tokens of a row of pieces have closed parentheses. -/
abbrev Closed (row : List Piece) : Prop := ∃ outer, Nested (piecesTokens row) outer

namespace Closed

variable {row : List Piece} {rows : List (List Piece)}

theorem token {token : Token} (plain : token.isParenthesis = false) : Closed [.token token] :=
  ⟨_, .token plain .nil⟩

theorem enclosed (closed : Closed row) : Closed (enclosed row) := by
  obtain ⟨outer, nested⟩ := closed
  rw [Closed, piecesTokens_enclosed]
  exact ⟨_, nested.enclosed⟩

theorem cons {token : Token} (plain : token.isParenthesis = false) (closed : Closed row) :
    Closed (.token token :: row) := by
  obtain ⟨outer, nested⟩ := closed
  exact ⟨_, .token plain nested⟩

theorem tokens (all : ∀ row ∈ rows, Closed row) :
    ∀ row ∈ rows.map piecesTokens, ∃ outer, Nested row outer := by
  intro row member
  obtain ⟨part, among, rfl⟩ := mem_map.mp member
  exact all part among

theorem tokens_separated (separator : Token) (rows : List (List Piece)) :
    piecesTokens (separated separator rows) = [separator].intercalate (rows.map piecesTokens) := by
  induction rows with
  | nil => rfl
  | cons first rows ih =>
    cases rows with
    | nil => simp [separated]
    | cons second rows =>
      rw [separated] at ih
      rw [separated, intercalate_cons_cons, piecesTokens_append, piecesTokens_append, ih,
        map_cons, map_cons, map_cons, intercalate_cons_cons]
      rfl

/-- Rows with a token between them show this token. -/
theorem separated {separator : Token} (plain : separator.isParenthesis = false)
    (all : ∀ row ∈ rows, Closed row) :
    ∃ outer, Nested (piecesTokens (separated separator rows)) outer ∧
      (2 ≤ rows.length → separator ∈ outer) := by
  obtain ⟨outer, nested, shown⟩ := Nested.intercalate plain (tokens all)
  rw [length_map] at shown
  rw [tokens_separated]
  exact ⟨outer, nested, shown⟩

theorem joined {separator : Token} (plain : separator.isParenthesis = false)
    (all : ∀ row ∈ rows, Closed row) : Closed (Program.separated separator rows) := by
  obtain ⟨outer, nested, -⟩ := separated plain all
  exact ⟨outer, nested⟩

theorem call (name : String) (all : ∀ row ∈ rows, Closed row) : Closed (callPieces name rows) := by
  obtain ⟨outer, nested, -⟩ := @Nested.intercalate (.mark .comma) rfl _ (tokens all)
  refine cons rfl (enclosed ⟨outer, ?_⟩)
  rw [piecesTokens_listed]
  exact nested

theorem pair {separator : Token} (plain : separator.isParenthesis = false) {left right : List Piece}
    (first : Closed left) (second : Closed right) :
    Closed (Program.separated separator [left, right]) := by
  refine joined plain ?_
  simp only [forall_mem_cons]
  exact ⟨first, second, fun _ member => by cases member⟩

theorem connective (connective : Connective) (all : ∀ row ∈ rows, Closed row) :
    Closed (connectivePieces connective rows) := by
  unfold connectivePieces
  split
  · next only => exact all only (.head _)
  · exact enclosed (joined rfl all)

theorem links (all : ∀ row ∈ rows, Closed row) (relations : List Relation) :
    ∀ row ∈ (Chain.linksOf relations rows).map linkRow, Closed row := by
  intro row member
  obtain ⟨link, among, rfl⟩ := mem_map.mp member
  obtain ⟨left, right⟩ := mem_linksOf among
  exact enclosed (pair rfl (all _ left) (all _ right))

theorem number (value : Float) : Closed (numberPieces value) := by
  unfold numberPieces
  split
  · exact token rfl
  · split
    · refine enclosed (cons rfl ?_)
      split <;> exact token rfl
    · split <;> exact token rfl

end Closed

mutual

/-- All parentheses of a written program are closed. -/
theorem closed_pieces (here : String) : ∀ term : Term, Closed (pieces here term)
  | .number value => by exact .number value
  | .symbol name => by exact .token rfl
  | .joined joiner args => by
    exact .enclosed (.joined (by cases joiner <;> rfl) (closed_piecesArgs here args))
  | .product factors => by exact .enclosed (.joined rfl (closed_piecesArgs here factors))
  | .quotient numerator denominator => by
    exact .pair rfl (closed_pieces here numerator).enclosed (closed_pieces here denominator).enclosed
  | .power base exponent => by
    exact .pair rfl (closed_pieces here base).enclosed (closed_pieces here exponent).enclosed
  | .negate operand => by exact .cons rfl (closed_pieces here operand).enclosed
  | .elementary function args | .derivative function args | .call function args => by
    exact .call _ (closed_piecesArgs here args)
  | .chain terms relations => by
    rw [pieces, chainPieces_eq_connectivePieces]
    exact .connective .and (.links (closed_piecesArgs here terms) relations)
  | .connective connective args => by exact .connective connective (closed_piecesArgs here args)
  | .not operand => by exact .enclosed (.cons rfl (closed_pieces here operand))
  | .derivativeHere function => by
    refine .call _ ?_
    rw [forall_mem_singleton]
    exact .token rfl
  | .integral name body lower upper => by
    refine .call _ ?_
    simp only [forall_mem_cons]
    exact ⟨.cons rfl (.cons rfl (closed_pieces here body)), closed_pieces here lower,
      closed_pieces here upper, fun _ member => by cases member⟩

theorem closed_piecesArgs (here : String) :
    ∀ terms : List Term, ∀ row ∈ piecesArgs here terms, Closed row
  | [] => fun _ member => by cases member
  | term :: terms => by
    rw [piecesArgs, forall_mem_cons]
    exact ⟨closed_pieces here term, closed_piecesArgs here terms⟩

end

end Grapher.Program
