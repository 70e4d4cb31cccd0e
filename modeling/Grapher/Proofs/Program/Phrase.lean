import Grapher.Program.Parser

/-!
# Phrases of the program grammar

A phrase of a level is a row of tokens that the parsing function of that level takes whole, in front
of anything that cannot continue it. Each production of the grammar is a lemma that makes a phrase
out of its parts, so that what a written program means is read off its shape and never off the
parser. Budgets are accounted for here once: sixteen for each token, and one for each level that is
still to be descended.
-/

set_option autoImplicit false

namespace Grapher.Program

open List

variable {expr : Expr} {budget : Nat} {rest : Rest}

/-- The levels of the grammar, from the loosest to the tightest binding. -/
inductive Level where
  | or | and | not | comparison | sum | product | signed | power | call | operand
  deriving DecidableEq

namespace Level

/-- The place of a level, counted from the loosest. -/
def index : Level → Nat
  | .or => 0
  | .and => 1
  | .not => 2
  | .comparison => 3
  | .sum => 4
  | .product => 5
  | .signed => 6
  | .power => 7
  | .call => 8
  | .operand => 9

/-- The level right inside a level. -/
def inner : Level → Level
  | .or => .and
  | .and => .not
  | .not => .comparison
  | .comparison => .sum
  | .sum => .product
  | .product => .signed
  | .signed => .power
  | .power => .call
  | .call => .operand
  | .operand => .operand

/-- The parsing function of a level. -/
def parse : Level → Nat → Rest → Except SyntaxError (Expr × Rest)
  | .or => parseOr
  | .and => parseAnd
  | .not => parseNot
  | .comparison => parseComparison
  | .sum => parseSum
  | .product => parseProduct
  | .signed => parseSigned
  | .power => parsePower
  | .call => parseCall
  | .operand => parseOperand

end Level

namespace Token

/-- The tightest level that a token continues when it stands after a phrase. -/
def reach? : Token → Option Nat
  | .keyword .or => some 0
  | .keyword .and => some 1
  | .mark (.relation _) => some 3
  | .mark .plus | .mark .minus => some 4
  | .mark .times | .mark .divide => some 5
  | .mark .power => some 7
  | .mark .opening => some 8
  | _ => none

/-- The tightest level at which a token can start a phrase. -/
def start? : Token → Option Nat
  | .number _ | .name _ | .mark .opening => some 9
  | .mark .plus | .mark .minus => some 6
  | .keyword .not => some 2
  | _ => none

end Token

/-- Tokens that do not continue a phrase of a level. -/
def Ends (level : Level) (rest : Rest) : Prop :=
  ∀ token ∈ rest.head?, ∀ tightest ∈ token.reach?, tightest < level.index

/-- Tokens that can start a phrase of a level. -/
def Starts (level : Level) (tokens : List Token) : Prop :=
  ∃ token more, tokens = token :: more ∧ ∃ tightest, token.start? = some tightest ∧
    level.index ≤ tightest

/-- The budget that a phrase of a level is parsed with. -/
def need (level : Level) (tokens : List Token) : Nat :=
  16 * tokens.length + (9 - level.index)

/-- Tokens that a level takes as an expression, in front of anything that does not continue
them. -/
structure Phrase (level : Level) (tokens : List Token) (expr : Expr) : Prop where
  starts : Starts level tokens
  parses : ∀ {budget : Nat} {rest : Rest}, need level tokens ≤ budget → Ends level rest →
    level.parse budget (tokens ++ rest) = .ok (expr, rest)

theorem Ends.nil (level : Level) : Ends level [] := by
  intro token member
  cases member

theorem Ends.cons {level : Level} {token : Token} {rest : Rest}
    (loose : ∀ tightest ∈ token.reach?, tightest < level.index) : Ends level (token :: rest) := by
  intro other member
  cases member
  exact loose

theorem Ends.mono {level tighter : Level} (order : level.index ≤ tighter.index)
    (ends : Ends level rest) : Ends tighter rest :=
  fun token member tightest reaches => Nat.lt_of_lt_of_le (ends token member tightest reaches) order

theorem Starts.append {level : Level} {tokens : List Token} (starts : Starts level tokens)
    (more : List Token) : Starts level (tokens ++ more) := by
  obtain ⟨token, rest, rfl, can⟩ := starts
  exact ⟨token, rest ++ more, rfl, can⟩

theorem Starts.mono {level looser : Level} {tokens : List Token} (order : looser.index ≤ level.index)
    (starts : Starts level tokens) : Starts looser tokens := by
  obtain ⟨token, more, rfl, tightest, can, low⟩ := starts
  exact ⟨token, more, rfl, tightest, can, Nat.le_trans order low⟩

theorem ok_bind {ε α β : Type} (value : α) (next : α → Except ε β) :
    (Except.ok value >>= next) = next value := rfl

theorem index_le_inner (level : Level) : level.index ≤ level.inner.index := by
  cases level <;> decide

theorem Level.index_inner {level : Level} (proper : level ≠ .operand) :
    level.inner.index = level.index + 1 ∧ level.index ≤ 8 := by
  cases level with
  | operand => exact absurd rfl proper
  | _ => decide

/-- A phrase is parsed with a budget above zero. -/
theorem Phrase.ofSucc {level : Level} {tokens : List Token} (starts : Starts level tokens)
    (parses : ∀ {budget : Nat} {rest : Rest}, need level tokens ≤ budget + 1 → Ends level rest →
      level.parse (budget + 1) (tokens ++ rest) = .ok (expr, rest)) : Phrase level tokens expr := by
  refine ⟨starts, fun {budget rest} enough ends => ?_⟩
  obtain ⟨token, more, rfl, -⟩ := starts
  cases budget with
  | zero => simp [need] at enough
  | succ budget => exact parses enough ends

theorem Phrase.length_pos {level : Level} {tokens : List Token} (phrase : Phrase level tokens expr) :
    1 ≤ tokens.length := by
  obtain ⟨token, rest, rfl, -⟩ := phrase.starts
  simp

/-! ## After the first operand -/

/-- What the parsing function of a level does after its first operand. -/
def Level.after : Level → Nat → Expr → Rest → Except SyntaxError (Expr × Rest)
  | .or => parseOrTail
  | .and => parseAndTail
  | .sum => parseSumTail
  | .product => parseProductTail
  | .call => parseCallTail
  | _ => fun _ left rest => .ok (left, rest)

/-- The levels that go on after their first operand. -/
def Level.goesOn : Level → Bool
  | .or | .and | .sum | .product | .call => true
  | _ => false

/-- A level that goes on parses its first operand and then what follows. -/
theorem Level.parse_succ {level : Level} (goesOn : level.goesOn = true) (row : Rest) :
    level.parse (budget + 1) row
      = level.inner.parse budget row >>= fun found => level.after budget found.1 found.2 := by
  cases level with
  | or | and | sum | product | call => rfl
  | _ => cases goesOn

/-- The tokens that join two operands of a level from left to right, and what they make of them. -/
inductive Joint : Level → Token → (Expr → Expr → Expr) → Prop where
  | or : Joint .or (.keyword .or) .or
  | and : Joint .and (.keyword .and) .and
  | plus : Joint .sum (.mark .plus) (.arithmetic .add)
  | minus : Joint .sum (.mark .minus) (.arithmetic .subtract)
  | times : Joint .product (.mark .times) (.arithmetic .multiply)
  | divide : Joint .product (.mark .divide) (.arithmetic .divide)

/-- One joint and its operand are taken into the left side. -/
theorem Joint.after {level : Level} {token : Token} {combine : Expr → Expr → Expr}
    (joint : Joint level token combine) (left : Expr) (rest : Rest) :
    level.after (budget + 1) left (token :: rest)
      = level.inner.parse budget rest >>= fun found =>
        level.after budget (combine left found.1) found.2 := by
  cases joint <;> rfl

/-- What a level goes on with, whatever stands on its left: nothing, a joint, or arguments. -/
inductive Continues (level : Level) : Rest → Prop where
  | stops {rest : Rest}
      (same : ∀ budget left, level.after (budget + 1) left rest = .ok (left, rest)) :
    Continues level rest
  | joined {token : Token} {combine : Expr → Expr → Expr} {rest : Rest}
      (joint : Joint level token combine) : Continues level (token :: rest)
  | called {rest : Rest} (isCall : level = .call) : Continues level (.mark .opening :: rest)

theorem continues (level : Level) (rest : Rest) : Continues level rest := by
  rcases rest with _ | ⟨token, rest⟩
  · cases level <;> exact .stops fun _ _ => rfl
  · cases token with
    | number value | name word => cases level <;> exact .stops fun _ _ => rfl
    | keyword word =>
      cases level <;> cases word <;>
        first | exact .stops fun _ _ => rfl | exact .joined (by constructor)
    | mark sign =>
      cases level <;> cases sign <;>
        first | exact .stops fun _ _ => rfl | exact .joined (by constructor) | exact .called rfl

/-- A level stops where nothing continues it. -/
theorem after_stop (level : Level) {left : Expr} (ends : Ends level rest) :
    level.after (budget + 1) left rest = .ok (left, rest) := by
  cases continues level rest with
  | stops same => exact same budget left
  | joined joint => cases joint <;> exact absurd (ends _ rfl _ rfl) (by decide)
  | called isCall =>
    subst isCall
    exact absurd (ends _ rfl 8 rfl) (by decide)

theorem parseComparisonTail_stop (ends : Ends .comparison rest) :
    parseComparisonTail (budget + 1) rest = .ok ([], rest) := by
  unfold parseComparisonTail
  split
  · exact absurd (ends _ rfl 3 rfl) (by decide)
  · rfl

/-! ## A phrase is a phrase of every looser level -/

/-- A phrase of the next tighter level. -/
theorem Phrase.outward {level : Level} {tokens : List Token}
    (phrase : Phrase level.inner tokens expr) : Phrase level tokens expr := by
  by_cases proper : level = .operand
  · subst proper
    exact phrase
  have length := phrase.length_pos
  refine ⟨phrase.starts.mono (index_le_inner level), fun {budget rest} enough ends => ?_⟩
  obtain ⟨budget, rfl⟩ : ∃ less, budget = less + 2 := by
    unfold need at enough
    exact ⟨budget - 2, by omega⟩
  have less : need level.inner tokens ≤ budget + 1 := by
    unfold need at enough ⊢
    obtain ⟨deeper, last⟩ := Level.index_inner proper
    omega
  have first := phrase.parses less (ends.mono (index_le_inner level))
  obtain ⟨token, more, shape, tightest, can, low⟩ := phrase.starts
  cases level with
  | or | and | sum | product | call =>
    rw [Level.parse_succ rfl, first]
    exact after_stop _ ends
  | not =>
    simp only [Level.inner, Level.parse] at first ⊢
    unfold parseNot
    split
    · next equal =>
      rw [shape] at equal
      cases equal
      cases can
      exact absurd low (by decide)
    · exact first
  | comparison =>
    simp only [Level.inner, Level.parse] at first ⊢
    unfold parseComparison
    simp only [first, ok_bind, parseComparisonTail_stop ends]
    rfl
  | signed =>
    simp only [Level.inner, Level.parse] at first ⊢
    unfold parseSigned
    split
    · next equal =>
      rw [shape] at equal
      cases equal
      cases can
      exact absurd low (by decide)
    · next equal =>
      rw [shape] at equal
      cases equal
      cases can
      exact absurd low (by decide)
    · exact first
  | power =>
    simp only [Level.inner, Level.parse] at first ⊢
    unfold parsePower
    simp only [first, ok_bind]
    split
    · exact absurd (ends _ rfl 7 rfl) (by decide)
    · rfl
  | operand => exact absurd rfl proper

theorem index_injective {level other : Level} (same : level.index = other.index) :
    level = other := by
  cases level <;> cases other <;> first | rfl | cases same

/-- A phrase is a phrase of every looser level. -/
theorem Phrase.loosen {level looser : Level} {tokens : List Token}
    (order : looser.index ≤ level.index) (phrase : Phrase level tokens expr) :
    Phrase looser tokens expr := by
  obtain ⟨steps, count⟩ : ∃ steps, level.index = looser.index + steps :=
    ⟨level.index - looser.index, by omega⟩
  induction steps generalizing looser with
  | zero =>
    rw [index_injective count] at phrase
    exact phrase
  | succ steps ih =>
    have proper : looser.inner.index = looser.index + 1 := by
      refine (Level.index_inner ?_).1
      rintro rfl
      have last : level.index ≤ 9 := by cases level <;> decide
      simp only [Level.index] at count last
      omega
    exact Phrase.outward (ih (by omega) (by omega))

/-! ## Operands -/

theorem Phrase.number (value : Float) : Phrase .operand [.number value] (.number value) :=
  .ofSucc ⟨_, [], rfl, 9, rfl, Nat.le_refl 9⟩ fun _ _ => rfl

theorem Phrase.name (word : String) : Phrase .operand [.name word] (.name word) :=
  .ofSucc ⟨_, [], rfl, 9, rfl, Nat.le_refl 9⟩ fun _ _ => rfl

/-- A phrase in parentheses is an operand. -/
theorem Phrase.group {tokens : List Token} {expr : Expr} (phrase : Phrase .or tokens expr) :
    Phrase .operand (.mark .opening :: tokens ++ [.mark .closing]) expr := by
  refine .ofSucc ⟨_, _, rfl, 9, rfl, Nat.le_refl 9⟩ fun {budget rest} enough _ => ?_
  have less : need .or tokens ≤ budget := by
    simp [need, Level.index] at enough ⊢
    omega
  have inside := phrase.parses less (@Ends.cons .or (.mark .closing) rest (by decide))
  simp only [Level.parse] at inside ⊢
  unfold parseOperand
  simp only [cons_append, append_assoc, nil_append, inside, ok_bind, afterClosing]

/-! ## Signs and powers -/

/-- The denial of a phrase. -/
theorem Phrase.not {tokens : List Token} {expr : Expr} (phrase : Phrase .not tokens expr) :
    Phrase .not (.keyword .not :: tokens) (.not expr) := by
  refine .ofSucc ⟨_, _, rfl, 2, rfl, Nat.le_refl 2⟩ fun {budget rest} enough ends => ?_
  simp only [need, length_cons] at enough
  have parsed := phrase.parses (show need .not tokens ≤ budget by unfold need; omega) ends
  simp only [Level.parse, cons_append] at parsed ⊢
  rw [parseNot]
  simp only [parsed, ok_bind]

/-- The negative of a phrase. -/
theorem Phrase.negate {tokens : List Token} {expr : Expr} (phrase : Phrase .signed tokens expr) :
    Phrase .signed (.mark .minus :: tokens) (.negate expr) := by
  refine .ofSucc ⟨_, _, rfl, 6, rfl, Nat.le_refl 6⟩ fun {budget rest} enough ends => ?_
  simp only [need, length_cons] at enough
  have parsed := phrase.parses (show need .signed tokens ≤ budget by unfold need; omega) ends
  simp only [Level.parse, cons_append] at parsed ⊢
  rw [parseSigned]
  simp only [parsed, ok_bind]

/-- A plus before a phrase leaves no trace. -/
theorem Phrase.positive {tokens : List Token} (phrase : Phrase .signed tokens expr) :
    Phrase .signed (.mark .plus :: tokens) expr := by
  refine .ofSucc ⟨_, _, rfl, 6, rfl, Nat.le_refl 6⟩ fun {budget rest} enough ends => ?_
  simp only [need, length_cons] at enough
  have parsed := phrase.parses (show need .signed tokens ≤ budget by unfold need; omega) ends
  simp only [Level.parse, cons_append] at parsed ⊢
  exact parsed

/-- No token continues signed phrases without continuing powers. -/
theorem Ends.signed_of_power (ends : Ends .power rest) : Ends .signed rest := by
  intro token member tightest reaches
  have bound : tightest < 7 := ends token member tightest reaches
  have skipped : tightest ≠ 6 := by
    rintro rfl
    unfold Token.reach? at reaches
    split at reaches <;> cases reaches
  show tightest < 6
  omega

/-- A base with an exponent. -/
theorem Phrase.power {left right : List Token} {a b : Expr} (base : Phrase .call left a)
    (exponent : Phrase .signed right b) :
    Phrase .power (left ++ .mark .power :: right) (.arithmetic .power a b) := by
  refine .ofSucc ((base.starts.append _).mono (by decide)) fun {budget rest} enough ends => ?_
  simp only [need, length_append, length_cons, Level.index] at enough
  have parsed := base.parses
    (show need .call left ≤ budget by simp only [need, Level.index]; omega)
    (@Ends.cons .call (.mark .power) (right ++ rest) (by decide))
  have parsed' := exponent.parses
    (show need .signed right ≤ budget by simp only [need, Level.index]; omega) ends.signed_of_power
  simp only [Level.parse, append_assoc, cons_append] at parsed parsed' ⊢
  rw [parsePower]
  simp only [parsed, ok_bind, parsed']

/-! ## Chains -/

/-- A further term of a chain: a sum with the relation before it. -/
structure Linked where
  relation : Relation
  tokens : List Token
  expr : Expr

/-- The tokens of the further terms of a chain. -/
def linkedTokens (more : List Linked) : List Token :=
  more.flatMap fun next => .mark (.relation next.relation) :: next.tokens

theorem ends_linked {more : List Linked} {rest : Rest} (ends : Ends .comparison rest) :
    Ends .sum (linkedTokens more ++ rest) := by
  cases more with
  | nil => exact ends.mono (by decide)
  | cons next more => exact .cons fun _ reaches => by cases reaches; decide

/-- The further terms of a chain are taken with their relations. -/
theorem parseComparisonTail_linked {more : List Linked}
    (all : ∀ next ∈ more, Phrase .sum next.tokens next.expr) {budget : Nat} {rest : Rest}
    (enough : 16 * (linkedTokens more).length + 1 ≤ budget) (ends : Ends .comparison rest) :
    parseComparisonTail budget (linkedTokens more ++ rest)
      = .ok (more.map (fun next => (next.relation, next.expr)), rest) := by
  rcases budget with _ | budget
  · omega
  induction more generalizing budget with
  | nil => exact parseComparisonTail_stop ends
  | cons next more ih =>
    obtain ⟨here, later⟩ := forall_mem_cons.mp all
    have shape : linkedTokens (next :: more)
        = .mark (.relation next.relation) :: (next.tokens ++ linkedTokens more) := rfl
    rw [shape, length_cons, length_append] at enough
    rcases budget with _ | budget
    · omega
    have parsed := here.parses
      (show need .sum next.tokens ≤ budget + 1 by simp only [need, Level.index]; omega)
      (@ends_linked more rest ends)
    simp only [Level.parse] at parsed
    rw [shape, cons_append, append_assoc, parseComparisonTail]
    simp only [parsed, ok_bind, ih later budget (by omega), map_cons]

/-- A sum with any number of relations after it, each with the sum that it stands before. -/
theorem Phrase.chain {first : List Token} {start : Expr} {more : List Linked} (some : more ≠ [])
    (phrase : Phrase .sum first start) (all : ∀ next ∈ more, Phrase .sum next.tokens next.expr) :
    Phrase .comparison (first ++ linkedTokens more)
      (.compare start (more.map Linked.relation) (more.map Linked.expr)) := by
  refine .ofSucc ((phrase.starts.append _).mono (by decide)) fun {budget rest} enough ends => ?_
  simp only [need, length_append, Level.index] at enough
  have parsed := phrase.parses
    (show need .sum first ≤ budget by simp only [need, Level.index]; omega) (@ends_linked more _ ends)
  have others := @parseComparisonTail_linked more all budget rest (by omega) ends
  obtain ⟨second, more, rfl⟩ := exists_cons_of_ne_nil some
  simp only [Level.parse, append_assoc] at parsed ⊢
  rw [parseComparison]
  simp only [parsed, ok_bind, others, Program.comparison, map_cons, map_map, Function.comp_def]

/-! ## Arguments -/

/-- Tokens that are taken as an argument, in front of a comma or a closing mark. -/
structure Argument (tokens : List Token) (expr : Expr) : Prop where
  starts : ∃ token more, tokens = token :: more ∧ token.start? ≠ none
  parses : ∀ {budget : Nat} {rest : Rest}, 16 * tokens.length + 10 ≤ budget →
    (∃ more, rest = .mark .comma :: more ∨ rest = .mark .closing :: more) →
    parseArgument budget (tokens ++ rest) = .ok (expr, rest)

theorem ends_of_delimiter
    (delimited : ∃ more, rest = .mark .comma :: more ∨ rest = .mark .closing :: more)
    (level : Level) : Ends level rest := by
  obtain ⟨more, rfl | rfl⟩ := delimited <;> exact .cons (by simp [Token.reach?])

/-- A phrase is an argument. -/
theorem Argument.phrase {tokens : List Token} {expr : Expr} (phrase : Phrase .or tokens expr) :
    Argument tokens expr := by
  obtain ⟨token, more, shape, tightest, can, -⟩ := phrase.starts
  refine ⟨⟨token, more, shape, by simp [can]⟩, ?_⟩
  intro budget rest enough delimited
  rcases budget with _ | budget
  · omega
  have parsed := phrase.parses (show need .or tokens ≤ budget by
    simp only [need, Level.index]; omega) (ends_of_delimiter delimited .or)
  simp only [Level.parse] at parsed
  unfold parseArgument
  split
  · -- a name before an arrow is a whole phrase, so that the arrow would be left over
    next parameter after arrow =>
    have alone := ((Phrase.name parameter).loosen (show Level.index .or ≤ 9 by decide)).parses
      (show need .or [Token.name parameter] ≤ budget by
        have length : 1 ≤ tokens.length := by simp [shape]
        simp only [need, Level.index, length_singleton]
        omega)
      (@Ends.cons .or (.mark .arrow) after (by decide))
    simp only [Level.parse, singleton_append] at alone
    rw [arrow, alone] at parsed
    obtain ⟨more, rfl | rfl⟩ := delimited <;> cases parsed
  · exact parsed

/-- A binder is an argument. -/
theorem Argument.binder {tokens : List Token} {body : Expr} (parameter : String)
    (phrase : Phrase .or tokens body) :
    Argument (.name parameter :: .mark .arrow :: tokens) (.binder parameter body) := by
  refine ⟨⟨_, _, rfl, by simp [Token.start?]⟩, ?_⟩
  intro budget rest enough delimited
  simp only [length_cons] at enough
  rcases budget with _ | budget
  · omega
  have parsed := phrase.parses (show need .or tokens ≤ budget by
    simp only [need, Level.index]; omega) (ends_of_delimiter delimited .or)
  simp only [Level.parse, cons_append] at parsed ⊢
  rw [parseArgument]
  simp only [parsed, ok_bind]

/-- Arguments with commas between them. -/
theorem parseArgumentList_intercalate :
    ∀ {args : List (List Token × Expr)}, args ≠ [] → (∀ arg ∈ args, Argument arg.1 arg.2) →
      ∀ {budget : Nat} {rest : Rest},
        16 * ([Token.mark .comma].intercalate (args.map (·.1))).length + 11 ≤ budget →
        parseArgumentList budget
          ([Token.mark .comma].intercalate (args.map (·.1)) ++ .mark .closing :: rest)
          = .ok (args.map (·.2), rest)
  | [], nonempty, _, _, _, _ => absurd rfl nonempty
  | [only], _, all, budget, rest, enough => by
    rcases budget with _ | budget
    · omega
    simp only [map_cons, map_nil, intercalate_singleton] at enough ⊢
    have parsed := (all only (.head _)).parses (show 16 * only.1.length + 10 ≤ budget by omega)
      ⟨rest, .inr rfl⟩
    rw [parseArgumentList]
    simp only [parsed, ok_bind, afterClosing]
  | first :: second :: args, _, all, budget, rest, enough => by
    have later := fun {budget : Nat} => @parseArgumentList_intercalate (second :: args)
      (cons_ne_nil _ _) (fun arg member => all arg (mem_cons_of_mem _ member)) budget rest
    simp only [map_cons, intercalate_cons_cons, append_assoc, length_append,
      length_cons, cons_append, nil_append] at enough later ⊢
    rcases budget with _ | budget
    · omega
    have parsed := fun more => (all first (.head _)).parses
      (show 16 * first.1.length + 10 ≤ budget by omega) ⟨more, .inl rfl⟩
    rw [parseArgumentList]
    simp only [parsed, ok_bind]
    rw [later (by omega)]
    rfl

/-- The arguments of a call with the closing mark after them. -/
theorem parseArguments_intercalate {args : List (List Token × Expr)}
    (all : ∀ arg ∈ args, Argument arg.1 arg.2) {budget : Nat} {rest : Rest}
    (enough : 16 * ([Token.mark .comma].intercalate (args.map (·.1))).length + 12 ≤ budget) :
    parseArguments budget
      ([Token.mark .comma].intercalate (args.map (·.1)) ++ .mark .closing :: rest)
      = .ok (args.map (·.2), rest) := by
  rcases budget with _ | budget
  · omega
  cases args with
  | nil => rfl
  | cons arg args =>
    have listed := @parseArgumentList_intercalate (arg :: args) (cons_ne_nil arg args) all
      budget rest (by omega)
    have starts : ∀ more, [Token.mark .comma].intercalate ((arg :: args).map (·.1))
        ++ .mark .closing :: rest ≠ .mark .closing :: more := by
      obtain ⟨token, tokens, shape, can⟩ := (all arg (.head _)).starts
      intro more equal
      cases args <;> simp [shape] at equal <;> exact can (by rw [equal.1]; rfl)
    unfold parseArguments
    split
    · next equal => exact absurd equal (starts _)
    · exact listed

/-! ## Suffixes -/

/-- Arguments in parentheses, with commas between them. -/
def delimited (args : List (List Token)) : List Token :=
  .mark .opening :: ([.mark .comma].intercalate args ++ [.mark .closing])

/-- Tokens that extend a phrase of a level on its right, and what they make of it. -/
inductive Extends : Level → List Token → (Expr → Expr) → Prop where
  | joined {level : Level} {token : Token} {combine : Expr → Expr → Expr} {tokens : List Token}
      {expr : Expr} (joint : Joint level token combine) (phrase : Phrase level.inner tokens expr) :
    Extends level (token :: tokens) (fun left => combine left expr)
  | called {args : List (List Token × Expr)} (all : ∀ arg ∈ args, Argument arg.1 arg.2) :
    Extends .call (delimited (args.map (·.1))) (fun callee => .call callee (args.map (·.2)))

namespace Extends

variable {level : Level} {tokens : List Token} {extend : Expr → Expr}

section

variable (extension : Extends level tokens extend)

include extension

/-- A suffix leaves the operands before it alone. -/
theorem ends (rest : Rest) : Ends level.inner (tokens ++ rest) := by
  cases extension with
  | joined joint phrase => cases joint <;> exact .cons (by decide)
  | called all => exact .cons (by decide)

theorem ne_nil : tokens ≠ [] := by
  cases extension <;> exact cons_ne_nil _ _

theorem goesOn : level.goesOn = true := by
  cases extension with
  | joined joint phrase => cases joint <;> rfl
  | called all => rfl

/-- One suffix is taken into the left side. -/
theorem step {budget : Nat} {left : Expr} {rest : Rest}
    (enough : 16 * tokens.length ≤ budget + 1) (ends : Ends level.inner rest) :
    level.after (budget + 1) left (tokens ++ rest) = level.after budget (extend left) rest := by
  cases extension with
  | @joined _ _ _ tokens _ joint phrase =>
    rw [length_cons] at enough
    have parsed := phrase.parses (show need level.inner tokens ≤ budget by unfold need; omega) ends
    rw [cons_append, joint.after, parsed]
    rfl
  | @called args all =>
    simp only [delimited, length_cons, length_append, length_nil] at enough
    have parsed := @parseArguments_intercalate args all budget rest (by omega)
    simp only [delimited, cons_append, append_assoc, nil_append, Level.after]
    rw [parseCallTail]
    simp only [parsed, ok_bind]

end

end Extends

/-- A row of suffixes, each as its tokens with what it makes of the phrase before it. -/
abbrev Suffixes := List (List Token × (Expr → Expr))

namespace Suffixes

def tokens (more : Suffixes) : List Token := more.flatMap (·.1)

def fold (first : Expr) (more : Suffixes) : Expr := more.foldl (fun left part => part.2 left) first

theorem ends {level : Level} {more : Suffixes} {rest : Rest}
    (all : ∀ part ∈ more, Extends level part.1 part.2) (ends : Ends level rest) :
    Ends level.inner (tokens more ++ rest) := by
  cases more with
  | nil => exact ends.mono (index_le_inner level)
  | cons part more =>
    rw [tokens, flatMap_cons, append_assoc]
    exact (all part (.head _)).ends _

/-- A level takes a whole row of suffixes. -/
theorem after_row {level : Level} {more : Suffixes}
    (all : ∀ part ∈ more, Extends level part.1 part.2) {first : Expr}
    (enough : 16 * (tokens more).length + 1 ≤ budget) (last : Ends level rest) :
    level.after budget first (tokens more ++ rest) = .ok (fold first more, rest) := by
  rcases budget with _ | budget
  · omega
  induction more generalizing first budget with
  | nil => exact after_stop level last
  | cons part more ih =>
    obtain ⟨here, later⟩ := forall_mem_cons.mp all
    have size : (tokens (part :: more)).length = part.1.length + (tokens more).length := by
      simp only [tokens, flatMap_cons, length_append]
    have some : 1 ≤ part.1.length := length_pos_iff.mpr here.ne_nil
    rcases budget with _ | budget
    · omega
    have shape : tokens (part :: more) ++ rest = part.1 ++ (tokens more ++ rest) := by
      simp only [tokens, flatMap_cons, append_assoc]
    rw [shape, here.step (by omega) (Suffixes.ends later last)]
    exact ih later budget (by omega)

end Suffixes

/-- A phrase of the next tighter level with suffixes after it. -/
theorem Phrase.extended {level : Level} {tokens : List Token} {first : Expr} {more : Suffixes}
    (phrase : Phrase level.inner tokens first) (all : ∀ part ∈ more, Extends level part.1 part.2) :
    Phrase level (tokens ++ Suffixes.tokens more) (Suffixes.fold first more) := by
  cases more with
  | nil => simpa [Suffixes.tokens, Suffixes.fold] using phrase.outward
  | cons part more =>
    refine .ofSucc ((phrase.starts.append _).mono (index_le_inner level))
      fun {budget rest} enough ends => ?_
    have goesOn := (all part (.head _)).goesOn
    have length := phrase.length_pos
    have inside : level ≠ .operand := by rintro rfl; cases goesOn
    obtain ⟨deeper, proper⟩ := Level.index_inner inside
    rw [need, length_append] at enough
    have parsed := phrase.parses
      (show need level.inner tokens ≤ budget by unfold need; omega) (Suffixes.ends all ends)
    rw [append_assoc, Level.parse_succ goesOn, parsed]
    exact Suffixes.after_row all (by omega) ends

/-- Tokens laid out as a phrase of the next tighter level with suffixes after it. -/
def LaidOut (level : Level) (tokens : List Token) (expr : Expr) : Prop :=
  ∃ (first : List Token) (start : Expr) (more : Suffixes), Phrase level.inner first start ∧
    (∀ part ∈ more, Extends level part.1 part.2) ∧ tokens = first ++ Suffixes.tokens more ∧
    expr = Suffixes.fold start more

namespace LaidOut

variable {level : Level} {tokens : List Token} {expr : Expr}

theorem inward (phrase : Phrase level.inner tokens expr) : LaidOut level tokens expr :=
  ⟨tokens, expr, [], phrase, nofun, (append_nil tokens).symm, rfl⟩

theorem extended (laid : LaidOut level tokens expr) {suffix : List Token} {extend : Expr → Expr}
    (extension : Extends level suffix extend) :
    LaidOut level (tokens ++ suffix) (extend expr) := by
  obtain ⟨first, start, more, phrase, all, rfl, rfl⟩ := laid
  refine ⟨first, start, more ++ [(suffix, extend)], phrase, ?_, ?_, ?_⟩
  · intro part member
    rcases mem_append.mp member with earlier | last
    · exact all part earlier
    · cases mem_singleton.mp last
      exact extension
  · simp only [Suffixes.tokens, flatMap_append, flatMap_cons, flatMap_nil, append_nil, append_assoc]
  · simp only [Suffixes.fold, foldl_append, foldl_cons, foldl_nil]

theorem phrase (laid : LaidOut level tokens expr) : Phrase level tokens expr := by
  obtain ⟨first, start, more, phrase, all, rfl, rfl⟩ := laid
  exact phrase.extended all

end LaidOut

/-- A call of a function by its name. -/
theorem Phrase.call {name : String} {args : List (List Token × Expr)}
    (all : ∀ arg ∈ args, Argument arg.1 arg.2) :
    Phrase .call (.name name :: delimited (args.map (·.1)))
      (.call (.name name) (args.map (·.2))) :=
  ((@LaidOut.inward .call _ _ (Phrase.name name)).extended (.called all)).phrase

/-! ## Whole programs -/

/-- A phrase of the loosest level is a program. -/
theorem parseTokens_phrase {tokens : List Token} (phrase : Phrase .or tokens expr) :
    parseTokens tokens = .ok expr := by
  have parsed := phrase.parses (show need .or tokens ≤ budgetFor tokens.length by
    simp only [need, budgetFor, Level.index]
    omega) (Ends.nil .or)
  simp only [Level.parse, append_nil] at parsed
  unfold parseTokens
  simp only [parsed, ok_bind]

end Grapher.Program
