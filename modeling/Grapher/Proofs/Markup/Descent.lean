import Grapher.Markup.Parser
import Grapher.Proofs.Descent

/-!
# The descent through markup

The parsing functions of markup as one descent. Before a token is taken, the calls go down the levels
of precedence, from `or` to single operands; the functions for groups and arguments stand above the
functions that they start with, and everything else is called after a token. Each function hands on
what relates the outcomes of its calls (`descent_steps`), so the descent ends by itself.
-/

set_option autoImplicit false

namespace Grapher.Markup

open List

/-- The parsing functions, with the arguments that only some of them have. -/
inductive Goal where
  | or | orTail | and | andTail | not | relation | relationTail | sum | sumTail | product
  | productTail | signed | juxtaposed | juxtaposedTail | power | script | operand | itemList
  | argumentTail | integral
  | items (bracket : Bracket)
  | function (word : String) (elementary : Elementary)
  | scripts (found : Scripts)
  | index (elementary : Elementary)
  | arguments (word : String)
  | limit (found : Limits)

namespace Goal

/-- What a parsing function finds. -/
abbrev Found : Goal → Type
  | .orTail | .andTail | .juxtaposedTail | .itemList | .argumentTail | .items _ | .arguments _ =>
    List Node
  | .relationTail => List (Relation × Node)
  | .sumTail | .productTail => List (Bool × Node)
  | .scripts _ => Scripts
  | .index _ => Option Node
  | .limit _ => Limits
  | _ => Node

/-- The parsing function of a goal. -/
def parse (budget : Nat) (mode : Mode) (rest : Rest) :
    (goal : Goal) → Except ParseError (Parsed goal.Found)
  | .or => parseOr budget mode rest
  | .orTail => parseOrTail budget mode rest
  | .and => parseAnd budget mode rest
  | .andTail => parseAndTail budget mode rest
  | .not => parseNot budget mode rest
  | .relation => parseRelation budget mode rest
  | .relationTail => parseRelationTail budget mode rest
  | .sum => parseSum budget mode rest
  | .sumTail => parseSumTail budget mode rest
  | .product => parseProduct budget mode rest
  | .productTail => parseProductTail budget mode rest
  | .signed => parseSigned budget mode rest
  | .juxtaposed => parseJuxtaposed budget mode rest
  | .juxtaposedTail => parseJuxtaposedTail budget mode rest
  | .power => parsePower budget mode rest
  | .script => parseScript budget mode rest
  | .operand => parseOperand budget mode rest
  | .itemList => parseItemList budget mode rest
  | .argumentTail => parseArgumentTail budget mode rest
  | .integral => parseIntegral budget mode rest
  | .items bracket => parseItems budget mode bracket rest
  | .function word elementary => parseFunction budget mode word elementary rest
  | .scripts found => parseScripts budget mode found rest
  | .index elementary => parseIndex budget mode elementary rest
  | .arguments word => parseArguments budget mode word rest
  | .limit found => parseLimit budget mode found rest

/-- The order in which functions call each other before a token is taken. -/
def rank : Goal → Nat
  | .items _ => 12
  | .itemList => 11
  | .or => 10
  | .and => 9
  | .not => 8
  | .relation | .integral => 7
  | .sum => 6
  | .product => 5
  | .signed | .function _ _ => 4
  | .juxtaposed | .juxtaposedTail | .argumentTail | .arguments _ => 3
  | .power | .script => 2
  | .operand | .orTail | .andTail | .relationTail | .sumTail | .productTail | .scripts _ | .index _
  | .limit _ => 1

/-- The tokens in what is found: one for each entry of a row, one for a tree. What is read after
a bracket, a word or a sign may be nothing. -/
def size : (goal : Goal) → goal.Found → Nat
  | .orTail, row | .andTail, row | .juxtaposedTail, row | .itemList, row | .argumentTail, row =>
    List.length row
  | .relationTail, row => List.length row
  | .sumTail, row | .productTail, row => List.length row
  | .or, _ | .and, _ | .not, _ | .relation, _ | .sum, _ | .product, _ | .signed, _
  | .juxtaposed, _ | .power, _ | .script, _ | .operand, _ => 1
  | .integral, _ | .items _, _ | .function _ _, _ | .scripts _, _ | .index _, _ | .arguments _, _
  | .limit _, _ => 0

end Goal

/-- The reports about a place in a text. -/
def ParseError.isRefusal : ParseError → Bool
  | .foreignSign | .exhausted => false
  | _ => true

/-- The descent through markup tokens, in every mode. -/
def descent : Descent ParseError Located where
  Goal := Goal × Mode
  Found call := call.1.Found
  parse call budget rest := call.1.parse budget call.2 rest
  exhausted := .exhausted
  refuses reason := reason.isRefusal = true
  rank call := call.1.rank
  size call := call.1.size

/-! ## Steps -/

/-- The calls that a goal may make at some tokens: of functions of lower rank at the same tokens, and
of all functions at fewer. -/
structure Below (Rel : (α : Type) → Except ParseError α → Except ParseError α → Prop)
    (budget budget' : Nat) (goal : Goal) (rest : Rest) : Prop where
  down : ∀ (other : Goal) (mode : Mode), other.rank < goal.rank →
    Advances Rel rest other.size (other.parse budget mode rest) (other.parse budget' mode rest)
  onward : ∀ (other : Goal) (mode : Mode) (later : Rest), later.length < rest.length →
    Advances Rel later other.size (other.parse budget mode later) (other.parse budget' mode later)

section Below

variable {Rel : (α : Type) → Except ParseError α → Except ParseError α → Prop}
  {budget budget' : Nat} {goal : Goal} {rest later : Rest}

/-- A call behind a token. -/
theorem Below.behind {first : Located} (below : Below Rel budget budget' goal (first :: rest))
    (other : Goal) (mode : Mode) :
    Advances Rel rest other.size (other.parse budget mode rest) (other.parse budget' mode rest) :=
  below.onward other mode rest (Nat.lt_succ_self _)

/-- A call at a suffix of the tokens, which may be all of them. -/
theorem Below.within (below : Below Rel budget budget' goal rest) (other : Goal) (mode : Mode)
    (lower : other.rank < goal.rank) (suffix : later <:+ rest) :
    Advances Rel later other.size (other.parse budget mode later)
      (other.parse budget' mode later) := by
  rcases Nat.lt_or_ge later.length rest.length with less | same
  · exact below.onward other mode later less
  · rw [suffix.eq_of_length_le same]
    exact below.down other mode lower

end Below

theorem suffix_applyPrimes (node : Node) (rest : Rest) : (applyPrimes node rest).2 <:+ rest := by
  fun_induction applyPrimes node rest with
  | case1 node count position rest ih => exact ih.trans (suffix_cons _ _)
  | case2 node rest _ => exact suffix_rfl

theorem suffix_differential (mode : Mode) (rest : Rest) : (differential mode rest).2 <:+ rest := by
  unfold differential
  split
  · exact (suffix_cons _ _).trans (suffix_cons _ _)
  · exact suffix_rfl

/-! ## Closing tokens -/

/-- The tokens around a group. -/
inductive Encloses : Token → Token → Prop where
  | bracket (bracket : Bracket) : Encloses (.opening bracket) (.closing bracket)
  | brace : Encloses .braceOpen .braceClose
  | bar (first last : Bool) : Encloses (.bar first) (.bar last)

/-- A function that takes one token, which closes what another one opens, and refuses all others. -/
structure Checks (check : Rest → Except ParseError Rest) (opening : Token) : Prop where
  nil : ∃ expectation, check [] = .error (misplaced expectation [])
  cons : ∀ token,
    (Encloses opening token ∧ ∀ position rest, check (⟨token, position⟩ :: rest) = .ok rest) ∨
    ∃ expectation, ∀ position rest,
      check (⟨token, position⟩ :: rest) = .error (misplaced expectation (⟨token, position⟩ :: rest))

theorem checks_afterBrace : Checks afterBrace .braceOpen where
  nil := ⟨_, rfl⟩
  cons token := by
    cases token with
    | braceClose => exact .inl ⟨.brace, fun _ _ => rfl⟩
    | _ => exact .inr ⟨_, fun _ _ => rfl⟩

theorem checks_afterBar (written : Bool) : Checks afterBar (.bar written) where
  nil := ⟨_, rfl⟩
  cons token := by
    cases token with
    | bar last => exact .inl ⟨.bar written last, fun _ _ => rfl⟩
    | _ => exact .inr ⟨_, fun _ _ => rfl⟩

theorem checks_afterBracket (bracket : Bracket) :
    Checks (afterBracket bracket) (.opening bracket) where
  nil := ⟨_, rfl⟩
  cons token := by
    cases token with
    | closing other =>
      by_cases same : other = bracket
      · exact .inl ⟨same ▸ .bracket _, fun _ _ => by simp [afterBracket, afterBracket?, same]⟩
      · exact .inr ⟨.closingBracket bracket, fun _ _ => by simp [afterBracket, afterBracket?, same]⟩
    | _ => exact .inr ⟨_, fun _ _ => rfl⟩

theorem afterBracket_of_some {bracket : Bracket} {rest later : Rest}
    (found : afterBracket? bracket rest = some later) : afterBracket bracket rest = .ok later := by
  rw [afterBracket, found]

namespace Checks

variable {check : Rest → Except ParseError Rest} {opening : Token} (checks : Checks check opening)
  {rest : Rest}

include checks

theorem refused (token : Token) (other : ¬ Encloses opening token) : ∃ expectation,
    ∀ position rest, check (⟨token, position⟩ :: rest)
      = .error (misplaced expectation (⟨token, position⟩ :: rest)) :=
  (checks.cons token).resolve_left fun taken => other taken.1

theorem taken {later : Rest} (found : check rest = .ok later) :
    ∃ last : Located, rest = last :: later ∧ Encloses opening last.token := by
  rcases rest with _ | ⟨⟨token, position⟩, rest⟩
  · obtain ⟨expectation, refused⟩ := checks.nil
    cases found.symm.trans refused
  · rcases checks.cons token with ⟨encloses, taken⟩ | ⟨expectation, refused⟩
    · cases found.symm.trans (taken position rest)
      exact ⟨_, rfl, encloses⟩
    · cases found.symm.trans (refused position rest)

theorem suffix {later : Rest} (found : check rest = .ok later) : later <:+ rest := by
  obtain ⟨last, rfl, -⟩ := checks.taken found
  exact suffix_cons _ _

theorem isRefusal {reason : ParseError} (found : check rest = .error reason) :
    reason.isRefusal = true := by
  rcases rest with _ | ⟨⟨token, position⟩, rest⟩
  · obtain ⟨expectation, refused⟩ := checks.nil
    cases found.symm.trans refused
    rfl
  · rcases checks.cons token with ⟨-, taken⟩ | ⟨expectation, refused⟩
    · cases found.symm.trans (taken position rest)
    · cases found.symm.trans (refused position rest)
      rfl

end Checks

/-! ## Tails of rows -/

/-- What a token brings that is a sign of a certain kind. -/
def Token.bySign {τ : Type} (entry : Sign → Option τ) : Token → Option τ
  | .sign mark => entry mark
  | _ => none

/-- The tail of a row: operands behind signs of one kind, up to any other token. -/
structure IsTail {τ α : Type} (entry : Sign → Option τ) (make : τ → Node → α)
    (operand : Nat → Mode → Rest → Except ParseError (Parsed Node))
    (tail : Nat → Mode → Rest → Except ParseError (Parsed (List α))) : Prop where
  zero : ∀ mode rest, tail 0 mode rest = .error .exhausted := by intros; rfl
  nil : ∀ budget mode, tail (budget + 1) mode [] = .ok ([], []) := by intros; rfl
  cons : ∀ budget mode token position rest, tail (budget + 1) mode (⟨token, position⟩ :: rest)
    = match token.bySign entry with
      | none => .ok ([], ⟨token, position⟩ :: rest)
      | some tag => operand budget mode rest >>= fun (next, rest) =>
        tail budget mode rest >>= fun (more, rest) => .ok (make tag next :: more, rest) := by
    intro _ _ token _ _
    cases token with
    | sign sign => cases sign <;> rfl
    | _ => rfl

/-- Whether a sign goes on with a run of `or`. -/
def orEntry : Sign → Option Unit
  | .or => some ()
  | _ => none

/-- Whether a sign goes on with a run of `and`. -/
def andEntry : Sign → Option Unit
  | .and => some ()
  | _ => none

/-- The relation of a sign. -/
def relationEntry : Sign → Option Relation
  | .relation relation => some relation
  | _ => none

/-- Which one of two signs a sign is. -/
def pairEntry (joining other sign : Sign) : Option Bool :=
  if sign = joining then some true else if sign = other then some false else none

theorem isTail_or : IsTail orEntry (fun _ => id) parseAnd parseOrTail := {}

theorem isTail_and : IsTail andEntry (fun _ => id) parseNot parseAndTail := {}

theorem isTail_relation : IsTail relationEntry Prod.mk parseSum parseRelationTail := {}

theorem isTail_sum : IsTail (pairEntry .plus .minus) Prod.mk parseProduct parseSumTail := {}

theorem isTail_product : IsTail (pairEntry .times .divide) Prod.mk parseSigned parseProductTail := {}

section Steps

variable {Rel : (α : Type) → Except ParseError α → Except ParseError α → Prop}
  (congruence : Congruence (fun reason : ParseError => reason.isRefusal = true) Rel) {budget budget' : Nat}
  {α β γ : Type} {rest later : Rest}

include congruence

theorem advances_misplaced {size : α → Nat} (expectation : Expectation) (tokens : Rest) :
    Advances Rel rest size (.error (misplaced expectation tokens))
      (.error (misplaced expectation tokens)) :=
  congruence.error rfl

/-- Something up to the token that closes it. -/
theorem advances_closed {check : Rest → Except ParseError Rest} {opening : Token}
    (checks : Checks check opening) (wrap : α → β) {size : α → Nat}
    {inside inside' : Except ParseError (Parsed α)} (start : Advances Rel rest size inside inside') :
    Advances Rel rest (fun _ => 1)
      (do
        let (inner, rest) ← inside
        let rest ← check rest
        .ok (wrap inner, rest))
      (do
        let (inner, rest) ← inside'
        let rest ← check rest
        .ok (wrap inner, rest)) := by
  refine congruence.call start fun inner later suffix taken => ?_
  dsimp only
  cases found : check later with
  | error reason => exact congruence.error (checks.isRefusal found)
  | ok last =>
    obtain ⟨closing, rfl, -⟩ := checks.taken found
    refine congruence.ok ((suffix_cons _ _).trans suffix) ?_
    rw [length_cons] at taken
    omega

/-! ### Operands -/

theorem advances_power (mode : Mode) (below : Below Rel budget budget' .power rest) :
    Advances Rel rest (fun _ => 1) (parsePower (budget + 1) mode rest)
      (parsePower (budget' + 1) mode rest) := by
  refine congruence.call (below.down .operand mode (by decide)) fun base later suffix taken => ?_
  have primes := suffix_applyPrimes base later
  dsimp only
  generalize applyPrimes base later = applied at primes ⊢
  obtain ⟨base, later'⟩ := applied
  dsimp only at primes ⊢
  have shorter : 1 + later'.length ≤ rest.length :=
    (Nat.add_le_add_left primes.length_le 1).trans taken
  have suffix' := primes.trans suffix
  split
  · refine congruence.okWithin ?_ suffix' shorter
    exact (suffix_applyPrimes _ _).trans ⟨[_, _], rfl⟩
  · exact congruence.okWithin ⟨[_, _, _, _], rfl⟩ suffix' shorter
  · have fewer := shorter
    rw [length_cons] at fewer
    refine congruence.call (below.onward .script mode _ (by omega)) fun exponent last inner _ => ?_
    exact congruence.okWithin (inner.trans ⟨[_], rfl⟩) suffix' shorter
  · exact advances_misplaced congruence _ _
  · exact congruence.ok suffix' shorter

theorem advances_operand (mode : Mode) (below : Below Rel budget budget' .operand rest) :
    Advances Rel rest (fun _ => 1) (parseOperand (budget + 1) mode rest)
      (parseOperand (budget' + 1) mode rest) := by
  have two : ∀ found : Node, 1 ≤ (fun _ => 1) found + 1 := fun _ => Nat.le_succ 1
  unfold parseOperand
  split
  · exact congruence.ok ⟨[_], rfl⟩ (by rw [length_cons]; omega)
  · exact congruence.ok ⟨[_], rfl⟩ (by rw [length_cons]; omega)
  · next bracket _ _ =>
    exact (congruence.map groupTree (below.behind (.items bracket) mode) fun _ => le_rfl).token
      fun _ => le_rfl
  · exact (advances_closed congruence checks_afterBrace id (below.behind .or mode)).token two
  · exact (advances_closed congruence (checks_afterBar true)
      (fun inner => Node.of (.elementary .abs) [inner]) (below.behind .or _)).token two
  · next word function _ _ =>
    exact (below.behind (.function word function) mode).token fun _ => le_rfl
  · exact (congruence.row (fun above under => Node.of .divide [above, under])
      (below.behind .script mode) fun later less =>
        below.onward .script mode later (less.trans (Nat.lt_succ_self _))).token two
  · exact (below.behind .integral mode).token fun _ => le_rfl
  · exact advances_misplaced congruence _ _

/-! ### Groups -/

theorem advances_items (mode : Mode) {bracket : Bracket}
    (below : Below Rel budget budget' (.items bracket) rest) :
    Advances Rel rest (fun _ => 0) (parseItems (budget + 1) mode bracket rest)
      (parseItems (budget' + 1) mode bracket rest) := by
  unfold parseItems
  split
  · next later closed =>
    have shorter := (checks_afterBracket bracket).suffix (afterBracket_of_some closed)
    exact congruence.okWithin shorter suffix_rfl (by simp)
  · refine (advances_closed congruence (checks_afterBracket bracket) id
      (below.down .itemList _ (by simp [Goal.rank]))).mono suffix_rfl fun _ => ?_
    omega

theorem advances_itemList (mode : Mode) (below : Below Rel budget budget' .itemList rest) :
    Advances Rel rest length (parseItemList (budget + 1) mode rest)
      (parseItemList (budget' + 1) mode rest) := by
  refine congruence.call (below.down .or mode (by decide)) fun item later suffix taken => ?_
  rw [Goal.size] at taken
  dsimp only
  split
  · rw [length_cons] at taken
    refine congruence.call (below.onward .itemList mode _ (by omega)) ?_
    intro items last suffix' taken'
    rw [Goal.size] at taken'
    refine congruence.ok (suffix'.trans (IsSuffix.trans ⟨[_], rfl⟩ suffix)) ?_
    dsimp only
    rw [length_cons]
    omega
  · exact congruence.ok suffix (by rw [length_singleton]; omega)

/-! ### Function words -/

theorem advances_function (mode : Mode) {word : String} {function : Elementary}
    (below : Below Rel budget budget' (.function word function) rest) :
    Advances Rel rest (fun _ => 0) (parseFunction (budget + 1) mode word function rest)
      (parseFunction (budget' + 1) mode word function rest) := by
  refine congruence.call (below.down (.scripts _) mode (by simp [Goal.rank])) ?_
  intro scripts later suffix _
  -- Scripts and an index may be missing, so that these calls may be at the same tokens.
  refine congruence.call (below.within (.index function) mode (by simp [Goal.rank]) suffix) ?_
  intro index middle suffix' _
  have inner := suffix'.trans suffix
  refine congruence.call (below.within (.arguments word) mode (by simp [Goal.rank]) inner) ?_
  intro args last suffix'' _
  exact congruence.okWithin (suffix''.trans inner) suffix_rfl (by simp)

theorem advances_scripts (mode : Mode) {scripts : Scripts}
    (below : Below Rel budget budget' (.scripts scripts) rest) :
    Advances Rel rest (fun _ => 0) (parseScripts (budget + 1) mode scripts rest)
      (parseScripts (budget' + 1) mode scripts rest) := by
  have further {sign : Located} {rest : Rest}
      (below : Below Rel budget budget' (.scripts scripts) (sign :: rest))
      (attach : Node → Scripts) : Advances Rel (sign :: rest) (fun _ => 0)
        (parseScript budget mode rest >>= fun (script, rest) =>
          parseScripts budget mode (attach script) rest)
        (parseScript budget' mode rest >>= fun (script, rest) =>
          parseScripts budget' mode (attach script) rest) := by
    refine congruence.call (below.behind .script mode) fun script later suffix _ => ?_
    have shorter := suffix.length_le
    refine (below.onward (.scripts _) mode later ?_).mono (suffix.trans (suffix_cons _ _)) ?_
    · exact Nat.lt_succ_of_le shorter
    · exact fun _ => (Nat.zero_add _).trans_le (shorter.trans (Nat.le_succ _))
  unfold parseScripts
  split
  · exact further below fun base => { scripts with base := some base }
  · exact further below fun power => { scripts with power := some power }
  · exact congruence.ok suffix_rfl (by simp)

theorem advances_index (mode : Mode) {function : Elementary}
    (below : Below Rel budget budget' (.index function) rest) :
    Advances Rel rest (fun _ => 0) (parseIndex (budget + 1) mode function rest)
      (parseIndex (budget' + 1) mode function rest) := by
  unfold parseIndex
  split
  · exact (advances_closed congruence (checks_afterBracket .square) some
      (below.behind .or mode)).token fun _ => Nat.zero_le _
  · exact congruence.ok suffix_rfl (by simp)

theorem advances_arguments (mode : Mode) {word : String}
    (below : Below Rel budget budget' (.arguments word) rest) :
    Advances Rel rest (fun _ => 0) (parseArguments (budget + 1) mode word rest)
      (parseArguments (budget' + 1) mode word rest) := by
  unfold parseArguments
  split
  · exact (below.behind (.items .round) mode).token fun _ => Nat.zero_le _
  · exact congruence.map (fun arg => [arg]) (below.down .script mode (by simp [Goal.rank]))
      fun _ => Nat.zero_le _
  · split
    · refine (congruence.row (fun first more => [joined .invisible first more])
        (below.down .power mode (by simp [Goal.rank])) (below.onward .argumentTail mode)).mono
        suffix_rfl fun _ => ?_
      omega
    · exact advances_misplaced congruence _ _

/-! ### Integrals -/

theorem advances_limit (mode : Mode) {limits : Limits}
    (below : Below Rel budget budget' (.limit limits) rest) :
    Advances Rel rest (fun _ => 0) (parseLimit (budget + 1) mode limits rest)
      (parseLimit (budget' + 1) mode limits rest) := by
  unfold parseLimit
  split
  · refine congruence.map (fun lower => { limits with lower := some lower })
      ((below.behind .script mode).token fun _ => Nat.zero_le _) fun _ => ?_
    exact le_rfl
  · refine congruence.map (fun upper => { limits with upper := some upper })
      ((below.behind .script mode).token fun _ => Nat.zero_le _) fun _ => ?_
    exact le_rfl
  · exact congruence.ok suffix_rfl (by simp)

theorem advances_integral (mode : Mode) (below : Below Rel budget budget' .integral rest) :
    Advances Rel rest (fun _ => 0) (parseIntegral (budget + 1) mode rest)
      (parseIntegral (budget' + 1) mode rest) := by
  refine congruence.call (below.down (.limit _) mode (by simp [Goal.rank])) ?_
  intro limits later suffix _
  refine congruence.call (below.within (.limit limits) mode (by simp [Goal.rank]) suffix) ?_
  intro limits middle suffix' _
  have inner := suffix'.trans suffix
  dsimp only
  split
  · have ends : ∀ (body lower upper : Node) (last : Rest), last <:+ middle →
        Advances Rel rest (fun _ => 0)
          (.ok (integralTree body (differential ⟨mode.inBars, true⟩ last).1 lower upper,
            (differential ⟨mode.inBars, true⟩ last).2))
          (.ok (integralTree body (differential ⟨mode.inBars, true⟩ last).1 lower upper,
            (differential ⟨mode.inBars, true⟩ last).2)) := by
      intro body lower upper last suffix''
      exact congruence.okWithin ((suffix_differential _ last).trans (suffix''.trans inner))
        suffix_rfl (by simp)
    split
    · exact ends _ _ _ middle suffix_rfl
    · refine congruence.call (below.within .sum _ (by decide) inner) fun body last suffix'' _ => ?_
      exact ends _ _ _ last suffix''
  · exact congruence.error rfl

/-! ### All functions -/

/-- An operator before its operand. -/
theorem advances_sign (operator : Operator) {sign : Located}
    {operand operand' : Except ParseError (Parsed Node)}
    (inside : Advances Rel rest (fun _ => 1) operand operand') :
    Advances Rel (sign :: rest) (fun _ => 1)
      (do
        let (inner, rest) ← operand
        .ok (Node.of operator [inner], rest))
      (do
        let (inner, rest) ← operand'
        .ok (Node.of operator [inner], rest)) :=
  (congruence.map (fun inner => Node.of operator [inner]) inside fun _ => le_rfl).token
    fun _ => Nat.le_succ 1

theorem advances_tail {τ : Type} {entry : Sign → Option τ} {make : τ → Node → α}
    {operand : Nat → Mode → Rest → Except ParseError (Parsed Node)}
    {tail : Nat → Mode → Rest → Except ParseError (Parsed (List α))}
    (isTail : IsTail entry make operand tail) {mode : Mode}
    (operands : ∀ later, later.length < rest.length →
      Advances Rel later (fun _ => 1) (operand budget mode later) (operand budget' mode later))
    (others : ∀ later, later.length < rest.length →
      Advances Rel later length (tail budget mode later) (tail budget' mode later)) :
    Advances Rel rest length (tail (budget + 1) mode rest) (tail (budget' + 1) mode rest) := by
  rcases rest with _ | ⟨⟨token, position⟩, rest⟩
  · rw [isTail.nil, isTail.nil]
    exact congruence.noEntry
  · rw [isTail.cons, isTail.cons]
    cases token.bySign entry with
    | none => exact congruence.noEntry
    | some tag =>
      exact congruence.entry (make tag) ⟨[_], rfl⟩ (operands rest (Nat.lt_succ_self _)) others

/-- Each function hands on what relates the outcomes of its calls. -/
theorem advances_parse (mode : Mode) (goal : Goal) (below : Below Rel budget budget' goal rest) :
    Advances Rel rest goal.size (goal.parse (budget + 1) mode rest)
      (goal.parse (budget' + 1) mode rest) := by
  cases goal with
  | or => exact congruence.row _ (below.down .and mode (by decide)) (below.onward .orTail mode)
  | and => exact congruence.row _ (below.down .not mode (by decide)) (below.onward .andTail mode)
  | relation =>
    exact congruence.row _ (below.down .sum mode (by decide)) (below.onward .relationTail mode)
  | sum =>
    exact congruence.row _ (below.down .product mode (by decide)) (below.onward .sumTail mode)
  | product =>
    exact congruence.row _ (below.down .signed mode (by decide)) (below.onward .productTail mode)
  | juxtaposed =>
    exact congruence.row _ (below.down .power mode (by decide)) (below.onward .juxtaposedTail mode)
  | orTail =>
    exact advances_tail congruence isTail_or (below.onward .and mode) (below.onward .orTail mode)
  | andTail =>
    exact advances_tail congruence isTail_and (below.onward .not mode) (below.onward .andTail mode)
  | relationTail =>
    exact advances_tail congruence isTail_relation (below.onward .sum mode)
      (below.onward .relationTail mode)
  | sumTail =>
    exact advances_tail congruence isTail_sum (below.onward .product mode)
      (below.onward .sumTail mode)
  | productTail =>
    exact advances_tail congruence isTail_product (below.onward .signed mode)
      (below.onward .productTail mode)
  | juxtaposedTail =>
    unfold Goal.parse parseJuxtaposedTail
    split
    · exact congruence.entry id suffix_rfl (below.down .power mode (by decide))
        (below.onward .juxtaposedTail mode)
    · exact congruence.noEntry
  | argumentTail =>
    unfold Goal.parse parseArgumentTail
    split
    · exact congruence.entry id suffix_rfl (below.down .power mode (by decide))
        (below.onward .argumentTail mode)
    · exact congruence.noEntry
  | not =>
    unfold Goal.parse parseNot
    split
    · exact advances_sign congruence .not (below.behind .not mode)
    · exact below.down .relation mode (by decide)
  | signed =>
    unfold Goal.parse parseSigned
    split
    · exact advances_sign congruence .negate (below.behind .signed mode)
    · exact advances_sign congruence .not (below.behind .signed mode)
    · exact (below.behind .signed mode).token fun _ => Nat.le_succ 1
    · exact below.down .juxtaposed mode (by decide)
  | script =>
    unfold Goal.parse parseScript
    split
    · exact (advances_closed congruence checks_afterBrace id (below.behind .or mode)).token
        fun _ => Nat.le_succ 1
    · exact advances_sign congruence .negate (below.behind .script mode)
    · exact below.down .operand mode (by decide)
  | power => exact advances_power congruence mode below
  | operand => exact advances_operand congruence mode below
  | items => exact advances_items congruence mode below
  | itemList => exact advances_itemList congruence mode below
  | function => exact advances_function congruence mode below
  | scripts => exact advances_scripts congruence mode below
  | index => exact advances_index congruence mode below
  | arguments => exact advances_arguments congruence mode below
  | limit => exact advances_limit congruence mode below
  | integral => exact advances_integral congruence mode below

end Steps

theorem descent_steps : descent.Steps where
  rank_pos call := by
    obtain ⟨goal, mode⟩ := call
    cases goal <;> exact Nat.succ_pos _
  rank_lt call := by
    obtain ⟨goal, mode⟩ := call
    cases goal <;> simp [descent, Goal.rank]
  zero call rest := by
    obtain ⟨goal, mode⟩ := call
    cases goal <;> rfl
  succ congruence budget budget' call rest smaller := by
    refine advances_parse congruence call.2 call.1 ⟨fun other mode lower => ?_, ?_⟩
    · exact smaller (other, mode) rest (Nat.add_lt_add_left lower _)
    · intro other mode later less
      have bounded : other.rank < 16 := by cases other <;> simp [Goal.rank]
      refine smaller (other, mode) later ?_
      dsimp only [Descent.need, descent]
      omega

/-- The budget that the parser starts with is enough. -/
theorem need_le_budgetFor (located : List Located) :
    descent.need (.or, .plain) located ≤ budgetFor located.length := by
  dsimp only [Descent.need, descent, Goal.rank, budgetFor]
  omega

/-! ## Whole formulas -/

theorem parseTokens_eq_ok_iff {located : List Located} {tree : Node} :
    parseTokens located = .ok tree ↔ located ≠ [] ∧
      parseOr (budgetFor located.length) .plain located = .ok (tree, []) := by
  cases located with
  | nil => simp [parseTokens]
  | cons first located =>
    simp only [parseTokens, isEmpty_cons, Bool.false_eq_true, if_false, ne_eq, reduceCtorEq,
      not_false_eq_true, true_and]
    cases parseOr (budgetFor (first :: located).length) .plain (first :: located) with
    | error reason => constructor <;> rintro ⟨⟩
    | ok result =>
      obtain ⟨node, rest⟩ := result
      cases rest with
      | nil =>
        constructor
        · rintro ⟨⟩
          rfl
        · rintro ⟨⟩
          rfl
      | cons token rest => constructor <;> rintro ⟨⟩

theorem parse_eq_ok_iff {text : String} {node : Node} :
    parse text = .ok node ↔
      ∃ located, scan 0 0 (prepared text.toList) = .ok located ∧ parseTokens located = .ok node := by
  unfold parse
  dsimp only
  cases prepared text.toList with
  | nil =>
    constructor
    · rintro ⟨⟩
    · rintro ⟨located, ⟨⟩, ⟨⟩⟩
  | cons first more =>
    rw [isEmpty_cons, if_neg Bool.false_ne_true]
    cases scan 0 0 (first :: more) with
    | error reason =>
      constructor
      · rintro ⟨⟩
      · rintro ⟨located, ⟨⟩, parsed⟩
    | ok located =>
      constructor
      · exact fun parsed => ⟨located, rfl, parsed⟩
      · rintro ⟨other, ⟨⟩, parsed⟩
        exact parsed

end Grapher.Markup
