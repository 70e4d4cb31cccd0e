import Grapher.Markup.Parser

/-!
# Phrases of the markup grammar

A phrase of a level is a row of tokens that the parsing function of that level takes whole, in any
surroundings and in front of anything that cannot continue it. The productions below make phrases
out of operands in braces. A brace shields what it holds: an operand in braces is a phrase of every
level, and inside it no differential begins and no bar closes.

The levels that read a row of operands, from `or` down to juxtaposition, all do the same: they take
one operand of the next level and then further entries until something else stands next.
`ReadsRow` says so once, and `Brings` says which mark brings an entry of which kind.
-/

set_option autoImplicit false

namespace Grapher.Markup

variable {row : List Located} {mode : Mode} {node : Node} {rest : Rest}

/-! ## Levels -/

/-- The levels of the grammar, from the loosest to the tightest binding. -/
inductive Level where
  | or | and | not | relation | sum | product | signed | juxtaposed | power | operand
  deriving DecidableEq

namespace Level

/-- The place of a level, counted from the loosest. -/
def index : Level → Nat
  | .or => 0
  | .and => 1
  | .not => 2
  | .relation => 3
  | .sum => 4
  | .product => 5
  | .signed => 6
  | .juxtaposed => 7
  | .power => 8
  | .operand => 9

/-- The level right inside a level. -/
def inner : Level → Level
  | .or => .and
  | .and => .not
  | .not => .relation
  | .relation => .sum
  | .sum => .product
  | .product => .signed
  | .signed => .juxtaposed
  | .juxtaposed => .power
  | .power => .operand
  | .operand => .operand

/-- The parsing function of a level. -/
def parse : Level → Nat → Mode → Rest → Except ParseError (Parsed Node)
  | .or => parseOr
  | .and => parseAnd
  | .not => parseNot
  | .relation => parseRelation
  | .sum => parseSum
  | .product => parseProduct
  | .signed => parseSigned
  | .juxtaposed => parseJuxtaposed
  | .power => parsePower
  | .operand => parseOperand

end Level

/-- The tightest level at which a token can start a phrase. -/
def Token.start? : Token → Option Nat
  | .number _ | .name _ | .function _ _ | .opening _ | .braceOpen | .fraction | .integral => some 9
  | .sign .minus => some 6
  | .sign .not => some 2
  | _ => none

/-- The tightest level that the tokens at hand continue when they stand after a phrase. -/
def continued? (mode : Mode) (rest : Rest) : Option Nat :=
  match rest with
  | ⟨.prime _, _⟩ :: _ | ⟨.sign .power, _⟩ :: _ | ⟨.sign .subscript, _⟩ :: _ => some 8
  | ⟨.sign .times, _⟩ :: _ | ⟨.sign .divide, _⟩ :: _ => some 5
  | ⟨.sign .plus, _⟩ :: _ | ⟨.sign .minus, _⟩ :: _ => some 4
  | ⟨.sign (.relation _), _⟩ :: _ => some 3
  | ⟨.sign .and, _⟩ :: _ => some 1
  | ⟨.sign .or, _⟩ :: _ => some 0
  | rest => if startsOperand mode rest then some 7 else none

/-- Tokens that do not continue a phrase of a level. -/
def Ends (level : Level) (mode : Mode) (rest : Rest) : Prop :=
  ∀ tightest ∈ continued? mode rest, tightest < level.index

/-- Tokens that can start a phrase of a level. -/
def Starts (level : Level) (row : List Located) : Prop :=
  ∃ first more, row = first :: more ∧ ∃ tightest, first.token.start? = some tightest ∧
    level.index ≤ tightest

/-- The budget that a phrase of a level is parsed with. -/
def need (level : Level) (row : List Located) : Nat :=
  16 * row.length + (9 - level.index)

/-- Tokens that a level takes as a tree, in any surroundings and in front of anything that does not
continue them. -/
structure Phrase (level : Level) (node : Node) (row : List Located) : Prop where
  starts : Starts level row
  parses : ∀ {budget : Nat} {mode : Mode} {rest : Rest}, need level row ≤ budget →
    Ends level mode rest → level.parse budget mode (row ++ rest) = .ok (node, rest)

/-- A phrase has tokens, so that at least one call is paid for. -/
theorem Phrase.of_step {level : Level} (starts : Starts level row)
    (step : ∀ (budget : Nat) (mode : Mode) (rest : Rest), need level row ≤ budget + 1 →
      Ends level mode rest → level.parse (budget + 1) mode (row ++ rest) = .ok (node, rest)) :
    Phrase level node row := by
  refine ⟨starts, ?_⟩
  intro budget mode rest enough ends
  obtain ⟨first, more, shape, -⟩ := starts
  have long : 0 < row.length := by simp [shape]
  obtain ⟨less, rfl⟩ : ∃ less, budget = less + 1 := by
    unfold need at enough
    exact ⟨budget - 1, by omega⟩
  exact step less mode rest enough ends

theorem Ends.mono {level tighter : Level} (order : level.index ≤ tighter.index)
    (ends : Ends level mode rest) : Ends tighter mode rest :=
  fun tightest continued => Nat.lt_of_lt_of_le (ends tightest continued) order

/-- Tokens that continue nothing end every phrase. -/
theorem Ends.of_none (none : continued? mode rest = none) (level : Level) :
    Ends level mode rest := by
  intro tightest continued
  rw [none] at continued
  cases continued

/-- Nothing continues a single operand. -/
theorem Ends.operand (mode : Mode) (rest : Rest) : Ends .operand mode rest := by
  intro tightest continued
  unfold continued? at continued
  split at continued <;> grind [Level.index]

theorem Starts.mono {level looser : Level} (order : looser.index ≤ level.index)
    (starts : Starts level row) : Starts looser row := by
  obtain ⟨first, more, rfl, tightest, can, low⟩ := starts
  exact ⟨first, more, rfl, tightest, can, Nat.le_trans order low⟩

theorem Starts.append {level : Level} (starts : Starts level row) (more : List Located) :
    Starts level (row ++ more) := by
  obtain ⟨first, rest, rfl, can⟩ := starts
  exact ⟨first, rest ++ more, rfl, can⟩

theorem Starts.length_pos {level : Level} (starts : Starts level row) : 0 < row.length := by
  obtain ⟨first, more, rfl, -⟩ := starts
  exact Nat.succ_pos _

/-- A sign that starts phrases of a looser level only does not stand first. -/
theorem Starts.first_ne {level : Level} {token : Token} {position : Nat} {more : List Located}
    (starts : Starts level row)
    (loose : ∀ tightest, token.start? = some tightest → tightest < level.index) :
    row ≠ ⟨token, position⟩ :: more := by
  rintro rfl
  obtain ⟨first, others, shape, tightest, can, low⟩ := starts
  cases shape
  exact absurd (loose tightest can) (Nat.not_lt.mpr low)

/-! ## Rows of operands -/

/-- Tokens that start with an opening brace. -/
def AtBrace (row : List Located) : Prop :=
  ∃ position more, row = ⟨.braceOpen, position⟩ :: more

/-- How a level reads a row of operands: one of the next level, then entries up to something that
does not continue the level. -/
structure ReadsRow {α : Type} (level : Level)
    (tail : Nat → Mode → Rest → Except ParseError (Parsed (List α)))
    (build : Node → List α → Node) : Prop where
  opens : ∀ budget mode row, level.parse (budget + 1) mode row = (do
    let (first, rest) ← level.inner.parse budget mode row
    let (more, rest) ← tail budget mode rest
    .ok (build first more, rest)) := by intros; rfl
  stops : ∀ budget mode rest, Ends level mode rest → tail (budget + 1) mode rest = .ok ([], rest)
  alone : ∀ node, build node [] = node := by intros; rfl
  place : level.inner.index = level.index + 1 := by rfl

/-- A mark that brings one more entry of a row: it ends the operand before it. -/
structure Brings {α : Type} (level : Level)
    (tail : Nat → Mode → Rest → Except ParseError (Parsed (List α)))
    (mark : List Located) (entry : Node → α) : Prop where
  enters : ∀ budget mode row, AtBrace row → tail (budget + 1) mode (mark ++ row) = (do
    let (next, rest) ← level.inner.parse budget mode row
    let (more, rest) ← tail budget mode rest
    .ok (entry next :: more, rest))
  leaves : ∀ mode row, AtBrace row → Ends level.inner mode (mark ++ row)

theorem Brings.sign {α : Type} {level : Level} {sign : Sign}
    {tail : Nat → Mode → Rest → Except ParseError (Parsed (List α))} {entry : Node → α}
    (position : Nat)
    (enters : ∀ budget mode row, tail (budget + 1) mode (⟨.sign sign, position⟩ :: row) = (do
      let (next, rest) ← level.inner.parse budget mode row
      let (more, rest) ← tail budget mode rest
      .ok (entry next :: more, rest)) := by intros; rfl)
    (reach : ∀ mode row, Ends level.inner mode (⟨.sign sign, position⟩ :: row) := by
      intro _ _ _ continued; cases continued; decide) :
    Brings level tail [⟨.sign sign, position⟩] entry :=
  ⟨fun budget mode row _ => enters budget mode row, fun mode row _ => reach mode row⟩

theorem readsRow_or : ReadsRow .or parseOrTail (joined .or) where
  stops _ _ _ ends := by
    unfold parseOrTail
    split
    · exact absurd (ends 0 rfl) (by decide)
    · rfl

theorem readsRow_and : ReadsRow .and parseAndTail (joined .and) where
  stops _ _ _ ends := by
    unfold parseAndTail
    split
    · exact absurd (ends 1 rfl) (by decide)
    · rfl

theorem readsRow_relation : ReadsRow .relation parseRelationTail relationTree where
  stops _ _ _ ends := by
    unfold parseRelationTail
    split
    · exact absurd (ends 3 rfl) (by decide)
    · rfl

theorem readsRow_sum : ReadsRow .sum parseSumTail sumTree where
  stops _ _ _ ends := by
    unfold parseSumTail
    split
    · exact absurd (ends 4 rfl) (by decide)
    · exact absurd (ends 4 rfl) (by decide)
    · rfl

theorem readsRow_product : ReadsRow .product parseProductTail productTree where
  stops _ _ _ ends := by
    unfold parseProductTail
    split
    · exact absurd (ends 5 rfl) (by decide)
    · exact absurd (ends 5 rfl) (by decide)
    · rfl

theorem continued?_of_startsOperand (starts : startsOperand mode rest = true) :
    continued? mode rest = some 7 := by
  unfold continued?
  split <;> simp_all [startsOperand]

theorem startsOperand_of_atBrace (mode : Mode) (atBrace : AtBrace row) :
    startsOperand mode row = true := by
  obtain ⟨opened, more, rfl⟩ := atBrace
  simp [startsOperand, atDifferential]

theorem readsRow_juxtaposed : ReadsRow .juxtaposed parseJuxtaposedTail (joined .invisible) where
  stops budget mode rest ends := by
    unfold parseJuxtaposedTail
    split
    · next starts => exact absurd (ends 7 (continued?_of_startsOperand starts)) (by decide)
    · rfl

/-- An operand in braces needs no mark to multiply what stands before it. -/
theorem brings_nothing : Brings .juxtaposed parseJuxtaposedTail [] id where
  enters budget mode row atBrace := if_pos (startsOperand_of_atBrace mode atBrace)
  leaves mode row atBrace := by
    intro tightest continued
    rw [List.nil_append,
      continued?_of_startsOperand (startsOperand_of_atBrace mode atBrace)] at continued
    cases continued
    decide

/-! ## A phrase is a phrase of every looser level -/

theorem need_inner {level : Level} (place : level.inner.index = level.index + 1)
    (row : List Located) : need level.inner row + 1 ≤ need level row := by
  have least : level.inner.index ≤ 9 := by cases level <;> decide
  unfold need
  omega

/-- A phrase of the next tighter level is taken where a level takes what that level takes. -/
theorem Phrase.of_inner {level : Level} (place : level.inner.index = level.index + 1)
    (phrase : Phrase level.inner node row)
    (step : ∀ (budget : Nat) (mode : Mode) (rest : Rest), Ends level mode rest →
      Starts level.inner (row ++ rest) →
      level.inner.parse (budget + 1) mode (row ++ rest) = .ok (node, rest) →
      level.parse (budget + 2) mode (row ++ rest) = .ok (node, rest)) : Phrase level node row := by
  refine .of_step (phrase.starts.mono (by omega)) ?_
  intro budget mode rest enough ends
  have less := need_inner place row
  have long := phrase.starts.length_pos
  -- The tokens of the phrase pay for one more call.
  obtain ⟨budget, rfl⟩ : ∃ less, budget = less + 1 := by
    unfold need at enough
    exact ⟨budget - 1, by omega⟩
  exact step budget mode rest ends (phrase.starts.append rest)
    (phrase.parses (by omega) (ends.mono (by omega)))

/-- One operand is a row by itself. -/
theorem ReadsRow.outward {α : Type} {level : Level}
    {tail : Nat → Mode → Rest → Except ParseError (Parsed (List α))} {build : Node → List α → Node}
    (reads : ReadsRow level tail build) (phrase : Phrase level.inner node row) :
    Phrase level node row := by
  refine phrase.of_inner reads.place fun budget mode rest ends _ first => ?_
  rw [reads.opens, first]
  simp only [bind, Except.bind, reads.stops budget mode rest ends, reads.alone]

/-- A relation that no negation stands before. -/
theorem Phrase.not_outward (phrase : Phrase .relation node row) : Phrase .not node row := by
  refine of_inner rfl phrase fun budget mode rest _ starts inside => ?_
  simp only [Level.parse, parseNot]
  split
  · next shape => exact absurd shape (starts.first_ne (by rintro tightest ⟨⟩; decide))
  · exact inside

/-- A juxtaposition that no sign stands before. -/
theorem Phrase.signed_outward (phrase : Phrase .juxtaposed node row) : Phrase .signed node row := by
  refine of_inner rfl phrase fun budget mode rest _ starts inside => ?_
  simp only [Level.parse, parseSigned]
  split
  · next shape => exact absurd shape (starts.first_ne (by rintro tightest ⟨⟩; decide))
  · next shape => exact absurd shape (starts.first_ne (by rintro tightest ⟨⟩; decide))
  · next shape => exact absurd shape (starts.first_ne (by rintro tightest ⟨⟩))
  · exact inside

theorem applyPrimes_of_ends (ends : Ends .power mode rest) (node : Node) :
    applyPrimes node rest = (node, rest) := by
  unfold applyPrimes
  split
  · exact absurd (ends 8 rfl) (by decide)
  · rfl

/-- An operand and its primes, with no exponent behind them. -/
theorem parsePower_of_operand {budget : Nat} {tokens after : Rest} {base : Node}
    (operand : parseOperand budget mode tokens = .ok (base, after))
    (marked : applyPrimes base after = (node, rest)) (ends : Ends .power mode rest) :
    parsePower (budget + 1) mode tokens = .ok (node, rest) := by
  unfold parsePower
  simp only [operand, bind, Except.bind, marked]
  split
  · exact absurd (ends 8 rfl) (by decide)
  · exact absurd (ends 8 rfl) (by decide)
  · exact absurd (ends 8 rfl) (by decide)
  · exact absurd (ends 8 rfl) (by decide)
  · rfl

/-- An operand without primes or scripts. -/
theorem Phrase.power_outward (phrase : Phrase .operand node row) : Phrase .power node row :=
  of_inner rfl phrase fun _ _ _ ends _ inside =>
    parsePower_of_operand inside (applyPrimes_of_ends ends node) ends

/-- A phrase of the next tighter level. -/
theorem Phrase.outward {level : Level} (phrase : Phrase level.inner node row) :
    Phrase level node row := by
  cases level with
  | or => exact readsRow_or.outward phrase
  | and => exact readsRow_and.outward phrase
  | not => exact phrase.not_outward
  | relation => exact readsRow_relation.outward phrase
  | sum => exact readsRow_sum.outward phrase
  | product => exact readsRow_product.outward phrase
  | signed => exact phrase.signed_outward
  | juxtaposed => exact readsRow_juxtaposed.outward phrase
  | power => exact phrase.power_outward
  | operand => exact phrase

theorem index_injective {level other : Level} (same : level.index = other.index) :
    level = other := by
  cases level <;> cases other <;> simp_all [Level.index]

/-- A phrase is a phrase of every looser level. -/
theorem Phrase.loosen {level looser : Level} (order : looser.index ≤ level.index)
    (phrase : Phrase level node row) : Phrase looser node row := by
  obtain ⟨steps, count⟩ : ∃ steps, level.index = looser.index + steps :=
    ⟨level.index - looser.index, by omega⟩
  induction steps generalizing looser with
  | zero =>
    rw [index_injective count] at phrase
    exact phrase
  | succ steps ih =>
    have least : level.index ≤ 9 := by cases level <;> decide
    have proper : looser.inner.index = looser.index + 1 := by
      cases looser <;> simp only [Level.index, Level.inner] at * ; omega
    exact Phrase.outward (ih (by omega) (by omega))

/-! ## Operands in braces -/

/-- A phrase between braces. -/
inductive Braced (node : Node) : List Located → Prop where
  | intro {inside : List Located} (phrase : Phrase .or node inside) (opened closed : Nat) :
      Braced node (⟨.braceOpen, opened⟩ :: (inside ++ [⟨.braceClose, closed⟩]))

namespace Braced

variable {node : Node} {row : List Located}

theorem atBrace (braced : Braced node row) (more : List Located) : AtBrace (row ++ more) := by
  cases braced with
  | intro phrase opened closed => exact ⟨opened, _, rfl⟩

theorem length_pos (braced : Braced node row) : 0 < row.length := by
  cases braced with
  | intro phrase opened closed => exact Nat.succ_pos _

/-- What the braces hold, read up to the closing one. -/
theorem inside {inside : List Located} (phrase : Phrase .or node inside) (closed : Nat)
    {budget : Nat} (enough : 16 * inside.length + 9 ≤ budget) (mode : Mode) (rest : Rest) :
    (do
      let (inner, rest) ← parseOr budget mode (inside ++ ⟨.braceClose, closed⟩ :: rest)
      let rest ← afterBrace rest
      .ok (inner, rest)) = Except.ok (node, rest) := by
  have none : continued? mode (⟨.braceClose, closed⟩ :: rest) = none := by
    simp [continued?, startsOperand]
  have found := phrase.parses enough (.of_none none .or)
  simp only [Level.parse] at found
  rw [found]
  rfl

theorem phrase (braced : Braced node row) : Phrase .operand node row := by
  cases braced with
  | intro phrase opened closed =>
    refine .of_step ⟨_, _, rfl, 9, rfl, Nat.le_refl 9⟩ ?_
    intro budget mode rest enough _
    simp only [need, Level.index, List.length_cons, List.length_append] at enough
    simp only [Level.parse, List.cons_append, List.append_assoc, List.nil_append]
    exact inside phrase closed (by omega) mode rest

/-- An operand in braces is a script. -/
theorem script (braced : Braced node row) {budget : Nat} (enough : 16 * row.length ≤ budget)
    (mode : Mode) (rest : Rest) : parseScript budget mode (row ++ rest) = .ok (node, rest) := by
  cases braced with
  | intro phrase opened closed =>
    simp only [List.length_cons, List.length_append] at enough
    rcases budget with _ | budget
    · omega
    simp only [List.cons_append, List.append_assoc, List.nil_append]
    exact inside phrase closed (by omega) mode rest

/-- An operand in braces is taken by every level in front of what ends the level. -/
theorem parses (braced : Braced node row) (level : Level) {budget : Nat}
    (enough : 16 * row.length + 9 ≤ budget) {mode : Mode} {rest : Rest}
    (ends : Ends level mode rest) : level.parse budget mode (row ++ rest) = .ok (node, rest) := by
  have least : level.index ≤ Level.operand.index := by cases level <;> decide
  exact (braced.phrase.loosen least).parses (by unfold need; omega) ends

end Braced

end Grapher.Markup
