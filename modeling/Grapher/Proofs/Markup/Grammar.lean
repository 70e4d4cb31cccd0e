import Grapher.Proofs.Markup.Descent

/-!
# What parsing functions take

A parsing function takes a row of tokens off the front and finds something in it. `Takes` says what
can be found in which row, for each constituent of a formula. It leaves out which operators bind
tighter, and where a row ends. Every parsing function finds only what its row takes (`takes_parse`),
and this is enough for what trees have in common with the rows that they come from: such things are
shown over the relation, without a look at the parser.
-/

set_option autoImplicit false

namespace Grapher.Markup

/-! ## Constituents -/

/-- The constituents of a formula. -/
inductive Constituent where
  | tree | trees | terms | factors | power | script | operand | group | arguments
  | scripts (before : Scripts)
  | index (function : Elementary)
  | limits | integrand

/-- What is found in a constituent. -/
abbrev Constituent.Found : Constituent → Type
  | .trees | .factors | .group | .arguments => List Node
  | .terms => List (Bool × Node)
  | .scripts _ => Scripts
  | .index _ => Option Node
  | .limits => Node × Node
  | .integrand => Node × String
  | _ => Node

/-- The tokens between the operands of a row that leave no mark. -/
def Token.separates : Token → Bool
  | .sign .minus | .sign .power | .sign .subscript => false
  | .sign _ | .comma => true
  | _ => false

/-- What is found in a row of tokens. -/
inductive Takes : (part : Constituent) → List Located → part.Found → Prop where
  -- Operands with signs and commas between them.
  | connected {operator : Operator} {row row' : List Located} {first : Node} {more : List Node}
      (connects : operator = .or ∨ operator = .and) (start : Takes .tree row first)
      (others : Takes .trees row' more) : Takes .tree (row ++ row') (joined operator first more)
  | related {row row' : List Located} {first : Node} {more : List (Relation × Node)}
      (start : Takes .tree row first) (others : Takes .trees row' (more.map (·.2))) :
      Takes .tree (row ++ row') (relationTree first more)
  | sum {row row' : List Located} {first : Node} {more : List (Bool × Node)}
      (start : Takes .tree row first) (others : Takes .terms row' more) :
      Takes .tree (row ++ row') (sumTree first more)
  | product {row row' : List Located} {first : Node} {more : List (Bool × Node)}
      (start : Takes .tree row first) (others : Takes .trees row' (more.map (·.2))) :
      Takes .tree (row ++ row') (productTree first more)
  | juxtaposed {row row' : List Located} {first : Node} {more : List Node}
      (start : Takes .power row first) (others : Takes .factors row' more) :
      Takes .tree (row ++ row') (joined .invisible first more)
  | denied {position : Nat} {row : List Located} {inner : Node} (inside : Takes .tree row inner) :
      Takes .tree (⟨.sign .not, position⟩ :: row) (.of .not [inner])
  | negated {position : Nat} {row : List Located} {inner : Node} (inside : Takes .tree row inner) :
      Takes .tree (⟨.sign .minus, position⟩ :: row) (.of .negate [inner])
  | plus {position : Nat} {row : List Located} {inner : Node} (inside : Takes .tree row inner) :
      Takes .tree (⟨.sign .plus, position⟩ :: row) inner
  | noTree : Takes .trees [] []
  | separator {located : Located} {row : List Located} {nodes : List Node}
      (separates : located.token.separates = true) (others : Takes .trees row nodes) :
      Takes .trees (located :: row) nodes
  | next {row row' : List Located} {first : Node} {more : List Node}
      (start : Takes .tree row first) (others : Takes .trees row' more) :
      Takes .trees (row ++ row') (first :: more)
  | noTerm : Takes .terms [] []
  | added {position : Nat} {row row' : List Located} {first : Node} {more : List (Bool × Node)}
      (start : Takes .tree row first) (others : Takes .terms row' more) :
      Takes .terms (⟨.sign .plus, position⟩ :: (row ++ row')) ((true, first) :: more)
  | subtracted {position : Nat} {row row' : List Located} {first : Node}
      {more : List (Bool × Node)} (start : Takes .tree row first) (others : Takes .terms row' more) :
      Takes .terms (⟨.sign .minus, position⟩ :: (row ++ row')) ((false, first) :: more)
  | noFactor : Takes .factors [] []
  | factor {row row' : List Located} {first : Node} {more : List Node}
      (start : Takes .power row first) (others : Takes .factors row' more) :
      Takes .factors (row ++ row') (first :: more)
  -- Operands with primes and exponents.
  | unraised {row : List Located} {base : Node} (operand : Takes .operand row base) :
      Takes .power row base
  | primed {row : List Located} {base : Node} {count position : Nat}
      (inside : Takes .power row base) :
      Takes .power (row ++ [⟨.prime count, position⟩]) (primed count base)
  | raisedPrime {row : List Located} {base : Node} {count position at₁ : Nat}
      (inside : Takes .power row base) :
      Takes .power (row ++ [⟨.sign .power, position⟩, ⟨.prime count, at₁⟩]) (primed count base)
  | bracedPrime {row : List Located} {base : Node} {count position at₁ at₂ at₃ : Nat}
      (inside : Takes .power row base) :
      Takes .power (row ++ [⟨.sign .power, position⟩, ⟨.braceOpen, at₁⟩, ⟨.prime count, at₂⟩,
        ⟨.braceClose, at₃⟩]) (primed count base)
  | raised {row row' : List Located} {base exponent : Node} {position : Nat}
      (inside : Takes .power row base) (script : Takes .script row' exponent) :
      Takes .power (row ++ ⟨.sign .power, position⟩ :: row') (.of .power [base, exponent])
  | plain {row : List Located} {node : Node} (operand : Takes .operand row node) :
      Takes .script row node
  | negative {position : Nat} {row : List Located} {inner : Node}
      (inside : Takes .script row inner) :
      Takes .script (⟨.sign .minus, position⟩ :: row) (.of .negate [inner])
  -- Single operands.
  | number {value : Float} {position : Nat} :
      Takes .operand [⟨.number value, position⟩] (.number value)
  | name {text : String} {position : Nat} : Takes .operand [⟨.name text, position⟩] (nameTree text)
  | bracketed {row : List Located} {items : List Node} (inside : Takes .group row items) :
      Takes .operand row (groupTree items)
  | braced {first last : Located} {row : List Located} {inner : Node}
      (encloses : Encloses first.token last.token) (inside : Takes .tree row inner) :
      Takes .operand (first :: (row ++ [last])) inner
  | barred {first last : Located} {row : List Located} {inner : Node}
      (encloses : Encloses first.token last.token) (inside : Takes .tree row inner) :
      Takes .operand (first :: (row ++ [last])) (.of (.elementary .abs) [inner])
  | function {word : String} {function : Elementary} {position : Nat}
      {row row' row'' : List Located} {found : Scripts} {slot : Option Node} {args : List Node}
      (scripts : Takes (.scripts ⟨none, none⟩) row found) (index : Takes (.index function) row' slot)
      (arguments : Takes .arguments row'' args) :
      Takes .operand (⟨.function word function, position⟩ :: (row ++ (row' ++ row'')))
        (functionTree function found slot args)
  | fraction {position : Nat} {row row' : List Located} {above below : Node}
      (numerator : Takes .script row above) (denominator : Takes .script row' below) :
      Takes .operand (⟨.fraction, position⟩ :: (row ++ row')) (.of .divide [above, below])
  | integral {position : Nat} {row row' : List Located} {lower upper body : Node} {name : String}
      (limits : Takes .limits row (lower, upper)) (integrand : Takes .integrand row' (body, name)) :
      Takes .operand (⟨.integral, position⟩ :: (row ++ row')) (integralTree body name lower upper)
  -- Groups and the arguments of function words.
  | group {first last : Located} {row : List Located} {items : List Node}
      (encloses : Encloses first.token last.token) (inside : Takes .trees row items) :
      Takes .group (first :: (row ++ [last])) items
  | listed {row : List Located} {items : List Node} (inside : Takes .group row items) :
      Takes .arguments row items
  | single {row : List Located} {node : Node} (operand : Takes .operand row node) :
      Takes .arguments row [node]
  | bare {row row' : List Located} {first : Node} {more : List Node}
      (start : Takes .power row first) (others : Takes .factors row' more) :
      Takes .arguments (row ++ row') [joined .invisible first more]
  -- The scripts of a function word and the index of a root.
  | noScript {before : Scripts} : Takes (.scripts before) [] before
  | subscript {before found : Scripts} {position : Nat} {row row' : List Located} {node : Node}
      (script : Takes .script row node)
      (others : Takes (.scripts { before with base := some node }) row' found) :
      Takes (.scripts before) (⟨.sign .subscript, position⟩ :: (row ++ row')) found
  | superscript {before found : Scripts} {position : Nat} {row row' : List Located} {node : Node}
      (script : Takes .script row node)
      (others : Takes (.scripts { before with power := some node }) row' found) :
      Takes (.scripts before) (⟨.sign .power, position⟩ :: (row ++ row')) found
  | noIndex {function : Elementary} : Takes (.index function) [] none
  | root {position at₁ : Nat} {row : List Located} {node : Node} (inside : Takes .tree row node) :
      Takes (.index .sqrt) (⟨.opening .square, position⟩ :: (row ++ [⟨.closing .square, at₁⟩]))
        (some node)
  -- The limits of an integral, its body and its differential.
  | lowerFirst {position at₁ : Nat} {row row' : List Located} {lower upper : Node}
      (first : Takes .script row lower) (second : Takes .script row' upper) :
      Takes .limits (⟨.sign .subscript, position⟩ :: row ++ ⟨.sign .power, at₁⟩ :: row') (lower, upper)
  | upperFirst {position at₁ : Nat} {row row' : List Located} {lower upper : Node}
      (first : Takes .script row upper) (second : Takes .script row' lower) :
      Takes .limits (⟨.sign .power, position⟩ :: row ++ ⟨.sign .subscript, at₁⟩ :: row') (lower, upper)
  | whole {row : List Located} {body : Node} (inside : Takes .tree row body) :
      Takes .integrand row (body, "x")
  | ended {text : String} {position at₁ : Nat} {row : List Located} {body : Node}
      (inside : Takes .tree row body) :
      Takes .integrand (row ++ [⟨.name "d", position⟩, ⟨.name text, at₁⟩]) (body, text)
  | alone {text : String} {position at₁ : Nat} :
      Takes .integrand [⟨.name "d", position⟩, ⟨.name text, at₁⟩] (Node.one, text)

/-! ## Rows that are taken -/

/-- What is found goes with the row of tokens in front of the remaining ones. -/
def Consumes {α : Type} (good : List Located → α → Prop) (rest : Rest)
    (outcome : Except ParseError (Parsed α)) : Prop :=
  ∀ found later, outcome = .ok (found, later) → ∃ row, rest = row ++ later ∧ good row found

namespace Consumes

variable {α β γ : Type} {good : List Located → α → Prop} {better : List Located → β → Prop}
  {best : List Located → γ → Prop} {rest : Rest}

theorem ok {found : α} (isGood : good [] found) : Consumes good rest (.ok (found, rest)) := by
  intro other later same
  cases same
  exact ⟨[], rfl, isGood⟩

theorem error (reason : ParseError) : Consumes good rest (.error reason) := by
  rintro found later ⟨⟩

theorem mono {good' : List Located → α → Prop} {outcome : Except ParseError (Parsed α)}
    (first : Consumes good rest outcome) (implies : ∀ row found, good row found → good' row found) :
    Consumes good' rest outcome := by
  intro found later same
  obtain ⟨row, split, isGood⟩ := first found later same
  exact ⟨row, split, implies row found isGood⟩

/-- The row that is taken leads the tokens. -/
theorem leading {outcome : Except ParseError (Parsed α)} (first : Consumes good rest outcome) :
    Consumes (fun row found => row <+: rest ∧ good row found) rest outcome := by
  intro found later same
  obtain ⟨row, split, isGood⟩ := first found later same
  exact ⟨row, split, ⟨later, split.symm⟩, isGood⟩

/-- Tokens that are taken first. -/
theorem skip (row : List Located) {outcome : Except ParseError (Parsed α)}
    (more : Consumes (fun row' => good (row ++ row')) rest outcome) :
    Consumes good (row ++ rest) outcome := by
  intro found later same
  obtain ⟨row', split, isGood⟩ := more found later same
  exact ⟨row ++ row', by rw [split, List.append_assoc], isGood⟩

theorem token {located : Located} {outcome : Except ParseError (Parsed α)}
    (more : Consumes (fun row => good (located :: row)) rest outcome) :
    Consumes good (located :: rest) outcome :=
  skip [located] more

theorem bind {outcome : Except ParseError (Parsed α)} (first : Consumes good rest outcome)
    {next : Parsed α → Except ParseError (Parsed β)}
    (more : ∀ row found later, good row found →
      Consumes (fun row' => better (row ++ row')) later (next (found, later))) :
    Consumes better rest (outcome >>= next) := by
  cases outcome with
  | error reason => exact error reason
  | ok result =>
    obtain ⟨found, later⟩ := result
    obtain ⟨row, split, isGood⟩ := first found later rfl
    rw [split]
    exact skip row (more row found later isGood)

/-- Two things, one after the other. -/
theorem pair (combine : α → β → γ) {first : Except ParseError (Parsed α)}
    {tail : Rest → Except ParseError (Parsed β)} (start : Consumes good rest first)
    (others : ∀ later, Consumes better later (tail later))
    (joins : ∀ row row' a b, good row a → better row' b → best (row ++ row') (combine a b)) :
    Consumes best rest (do
      let (a, rest) ← first
      let (b, rest) ← tail rest
      .ok (combine a b, rest)) := by
  refine start.bind fun row a later isGood => ?_
  refine (others later).bind fun row' b last isBetter => ?_
  refine ok ?_
  rw [List.append_nil]
  exact joins row row' a b isGood isBetter

/-- One thing, made into another. -/
theorem map (change : α → β) {first : Except ParseError (Parsed α)}
    (start : Consumes good rest first)
    (changes : ∀ row a, good row a → better row (change a)) :
    Consumes better rest (do
      let (a, rest) ← first
      .ok (change a, rest)) := by
  refine start.bind fun row a later isGood => ?_
  refine ok ?_
  rw [List.append_nil]
  exact changes row a isGood

/-- Something up to the token that closes it. -/
theorem closed (wrap : α → β) {inside : Except ParseError (Parsed α)}
    {check : Rest → Except ParseError Rest} {opening : Token} (start : Consumes good rest inside)
    (checks : Checks check opening)
    (wraps : ∀ row a (last : Located), good row a → Encloses opening last.token →
      better (row ++ [last]) (wrap a)) :
    Consumes better rest (do
      let (inner, rest) ← inside
      let rest ← check rest
      .ok (wrap inner, rest)) := by
  refine start.bind fun row inner later isGood => ?_
  dsimp only
  cases outcome : check later with
  | error reason => exact error reason
  | ok after =>
    obtain ⟨last, rfl, closing⟩ := checks.taken outcome
    exact token (ok (wraps row inner last isGood closing))

end Consumes

/-! ## The functions -/

/-- What a limit of an integral adds to the limits before it. -/
inductive LimitTaken (limits : Limits) : List Located → Limits → Prop where
  | none : LimitTaken limits [] limits
  | lower {position : Nat} {row : List Located} {node : Node} (script : Takes .script row node) :
      LimitTaken limits (⟨.sign .subscript, position⟩ :: row) { limits with lower := some node }
  | upper {position : Nat} {row : List Located} {node : Node} (script : Takes .script row node) :
      LimitTaken limits (⟨.sign .power, position⟩ :: row) { limits with upper := some node }

/-- What a parsing function finds in the row that it takes. Functions that are called behind a token
are about the row with that token. -/
def Goal.Takes : (goal : Goal) → List Located → goal.Found → Prop
  | .or | .and | .not | .relation | .sum | .product | .signed | .juxtaposed => Markup.Takes .tree
  | .orTail | .andTail | .itemList => Markup.Takes .trees
  | .relationTail => fun row more => Markup.Takes .trees row (more.map (·.2))
  | .productTail => fun row more => Markup.Takes .trees row (more.map (·.2))
  | .sumTail => Markup.Takes .terms
  | .juxtaposedTail | .argumentTail => Markup.Takes .factors
  | .power => Markup.Takes .power
  | .script => Markup.Takes .script
  | .operand => Markup.Takes .operand
  | .arguments _ => Markup.Takes .arguments
  | .items bracket => fun row items =>
    ∀ position, Markup.Takes .group (⟨.opening bracket, position⟩ :: row) items
  | .function word elementary => fun row node =>
    ∀ position, Markup.Takes .operand (⟨.function word elementary, position⟩ :: row) node
  | .integral => fun row node => ∀ position, Markup.Takes .operand (⟨.integral, position⟩ :: row) node
  | .scripts before => Markup.Takes (.scripts before)
  | .index elementary => Markup.Takes (.index elementary)
  | .limit before => LimitTaken before

theorem consumes_applyPrimes {row : List Located} {node : Node} (base : Takes .power row node)
    (rest : Rest) :
    Consumes (fun row' => Takes .power (row ++ row')) rest (.ok (applyPrimes node rest)) := by
  fun_induction applyPrimes node rest generalizing row with
  | case1 node count position rest ih =>
    have longer := @Takes.primed row node count position base
    refine .token ((ih longer).mono fun row' found primed => ?_)
    rwa [List.append_assoc] at primed
  | case2 node rest _ => exact .ok (by rwa [List.append_nil])

/-- A differential is the letter d and a name, or it is missing. -/
theorem differential_cases (mode : Mode) (rest : Rest) :
    (∃ text position at₁ later, rest = ⟨.name "d", position⟩ :: ⟨.name text, at₁⟩ :: later
        ∧ differential mode rest = (text, later))
      ∨ atDifferential mode rest = false ∧ differential mode rest = ("x", rest) := by
  unfold differential
  cases present : atDifferential mode rest with
  | false => exact .inr ⟨rfl, rfl⟩
  | true =>
    have shape := (Bool.and_eq_true_iff.mp present).2
    split at shape
    · next letter position text at₁ later =>
      obtain rfl := eq_of_beq shape
      exact .inl ⟨text, position, at₁, later, rfl, rfl⟩
    · cases shape

/-- Two limits, one of each kind. -/
theorem takes_limits {between : Limits} {row row' : List Located} {lower upper : Node}
    (first : LimitTaken ⟨none, none⟩ row between)
    (second : LimitTaken between row' ⟨some lower, some upper⟩) :
    Takes .limits (row ++ row') (lower, upper) := by
  cases first with
  | none => cases second
  | lower script =>
    cases second with
    | upper script' => exact .lowerFirst script script'
  | upper script =>
    cases second with
    | lower script' => exact .upperFirst script script'

section Steps

variable {budget : Nat}
  (ih : ∀ (goal : Goal) (mode : Mode) (rest : Rest),
    Consumes goal.Takes rest (goal.parse budget mode rest))
  (mode : Mode) (rest : Rest)

include ih

theorem takes_power : Consumes (Takes .power) rest (parsePower (budget + 1) mode rest) := by
  refine (ih .operand mode rest).bind fun row base later operand => ?_
  have primes := consumes_applyPrimes (.unraised operand) later
  dsimp only
  generalize applyPrimes base later = applied at primes ⊢
  obtain ⟨base, later⟩ := applied
  obtain ⟨row', rfl, inside⟩ := primes base later rfl
  refine .skip row' ?_
  simp only [← List.append_assoc]
  split
  · next position count at₁ rest =>
    have raised := @Takes.raisedPrime _ base count position at₁ inside
    refine .token (.token ((consumes_applyPrimes raised rest).mono fun _ _ primed => ?_))
    rwa [List.append_assoc] at primed
  · exact .token (.token (.token (.token (.ok inside.bracedPrime))))
  · exact .token (.map _ (ih .script mode _) fun _ _ script => inside.raised script)
  · exact .error _
  · exact .ok (by rwa [List.append_nil])

theorem takes_script : Consumes (Takes .script) rest (parseScript (budget + 1) mode rest) := by
  unfold parseScript
  split
  · exact .token (.closed id (ih .or mode _) checks_afterBrace fun _ _ _ inside encloses =>
      .plain (.braced encloses inside))
  · exact .token (.map (fun inner => Node.of .negate [inner]) (ih .script mode _)
      fun _ _ => .negative)
  · exact (ih .operand mode rest).mono fun _ _ => .plain

theorem takes_operand : Consumes (Takes .operand) rest (parseOperand (budget + 1) mode rest) := by
  unfold parseOperand
  split
  · exact .token (.ok .number)
  · exact .token (.ok .name)
  · next bracket _ _ =>
    exact .token (.map _ (ih (.items bracket) mode _) fun _ _ inside => .bracketed (inside _))
  · exact .token (.closed id (ih .or mode _) checks_afterBrace fun _ _ _ inside encloses =>
      .braced encloses inside)
  · next written _ _ =>
    exact .token (.closed (fun inner => Node.of (.elementary .abs) [inner]) (ih .or _ _)
      (checks_afterBar written) fun _ _ _ inside encloses => .barred encloses inside)
  · next word function _ _ =>
    exact .token ((ih (.function word function) mode _).mono fun _ _ inside => inside _)
  · exact .token (.pair (fun above below => Node.of .divide [above, below]) (ih .script mode _)
      (ih .script mode) fun _ _ _ _ => .fraction)
  · exact .token ((ih .integral mode _).mono fun _ _ inside => inside _)
  · exact .error _

theorem takes_items (bracket : Bracket) :
    Consumes (Goal.Takes (.items bracket)) rest (parseItems (budget + 1) mode bracket rest) := by
  unfold parseItems
  split
  · next later closed =>
    obtain ⟨last, rfl, encloses⟩ := (checks_afterBracket bracket).taken (afterBracket_of_some closed)
    exact .token (.ok fun position => .group encloses .noTree)
  · exact .closed id (ih .itemList _ rest) (checks_afterBracket bracket)
      fun _ _ _ inside encloses position => .group encloses inside

theorem takes_itemList :
    Consumes (Takes .trees) rest (parseItemList (budget + 1) mode rest) := by
  refine (ih .or mode rest).bind fun row item later first => ?_
  dsimp only
  split
  · exact .token (.map _ (ih .itemList mode _) fun _ _ more => .next first (.separator rfl more))
  · exact .ok (.next first .noTree)

theorem takes_arguments (word : String) :
    Consumes (Takes .arguments) rest (parseArguments (budget + 1) mode word rest) := by
  unfold parseArguments
  split
  · exact .token ((ih (.items .round) mode _).mono fun _ _ inside => .listed (inside _))
  · refine .map (fun arg => [arg]) (ih .script mode _).leading ?_
    rintro row arg ⟨leads, script⟩
    -- A row that starts with a brace has no sign before its operand.
    cases script with
    | plain operand => exact .single operand
    | negative _ => cases (List.cons_prefix_cons.mp leads).1
  · split
    · exact .pair (fun first more => [joined .invisible first more]) (ih .power mode rest)
        (ih .argumentTail mode) fun _ _ _ _ => .bare
    · exact .error _

theorem takes_integral :
    Consumes (Goal.Takes .integral) rest (parseIntegral (budget + 1) mode rest) := by
  refine (ih (.limit ⟨none, none⟩) mode rest).bind fun row between later first => ?_
  refine (ih (.limit between) mode later).bind fun row' limits last second => ?_
  simp only [← List.append_assoc]
  split
  · next lower upper =>
    have limits := takes_limits first second
    split
    · next alone =>
      rcases differential_cases { mode with inIntegral := true } last with
        ⟨text, position, at₁, rest, rfl, found⟩ | ⟨absent, -⟩
      · dsimp only [bind, Except.bind]
        exact .token (.token (.ok fun _ => .integral limits .alone))
      · rw [absent] at alone
        cases alone
    · refine (ih .sum _ last).bind fun row'' body rest inside => ?_
      rcases differential_cases { mode with inIntegral := true } rest with
        ⟨text, position, at₁, rest, rfl, found⟩ | ⟨-, found⟩
      · rw [found]
        exact .token (.token (.ok fun _ => .integral limits (.ended inside)))
      · rw [found]
        exact .ok fun _ => .integral limits (by rw [List.append_nil]; exact .whole inside)
  · exact .error _

/-- One step of each function. -/
theorem takes_succ (goal : Goal) : Consumes goal.Takes rest (goal.parse (budget + 1) mode rest) := by
  cases goal with
  | or => exact .pair _ (ih .and mode rest) (ih .orTail mode) fun _ _ _ _ => .connected (.inl rfl)
  | and => exact .pair _ (ih .not mode rest) (ih .andTail mode) fun _ _ _ _ => .connected (.inr rfl)
  | relation => exact .pair _ (ih .sum mode rest) (ih .relationTail mode) fun _ _ _ _ => .related
  | sum => exact .pair _ (ih .product mode rest) (ih .sumTail mode) fun _ _ _ _ => .sum
  | product => exact .pair _ (ih .signed mode rest) (ih .productTail mode) fun _ _ _ _ => .product
  | juxtaposed =>
    exact .pair _ (ih .power mode rest) (ih .juxtaposedTail mode) fun _ _ _ _ => .juxtaposed
  | orTail =>
    unfold Goal.parse parseOrTail
    split
    · exact .token (.pair _ (ih .and mode _) (ih .orTail mode) fun _ _ _ _ first more =>
        .separator rfl (.next first more))
    · exact .ok .noTree
  | andTail =>
    unfold Goal.parse parseAndTail
    split
    · exact .token (.pair _ (ih .not mode _) (ih .andTail mode) fun _ _ _ _ first more =>
        .separator rfl (.next first more))
    · exact .ok .noTree
  | relationTail =>
    unfold Goal.parse parseRelationTail
    split
    · next relation _ _ =>
      exact .token (.pair (fun next more => (relation, next) :: more) (ih .sum mode _)
        (ih .relationTail mode) fun _ _ _ _ first more => .separator rfl (.next first more))
    · exact .ok .noTree
  | sumTail =>
    unfold Goal.parse parseSumTail
    split
    · exact .token (.pair (fun next more => (true, next) :: more) (ih .product mode _)
        (ih .sumTail mode) fun _ _ _ _ => .added)
    · exact .token (.pair (fun next more => (false, next) :: more) (ih .product mode _)
        (ih .sumTail mode) fun _ _ _ _ => .subtracted)
    · exact .ok .noTerm
  | productTail =>
    unfold Goal.parse parseProductTail
    split
    · exact .token (.pair (fun next more => (true, next) :: more) (ih .signed mode _)
        (ih .productTail mode) fun _ _ _ _ first more => .separator rfl (.next first more))
    · exact .token (.pair (fun next more => (false, next) :: more) (ih .signed mode _)
        (ih .productTail mode) fun _ _ _ _ first more => .separator rfl (.next first more))
    · exact .ok .noTree
  | juxtaposedTail =>
    unfold Goal.parse parseJuxtaposedTail
    split
    · exact .pair _ (ih .power mode rest) (ih .juxtaposedTail mode) fun _ _ _ _ => .factor
    · exact .ok .noFactor
  | argumentTail =>
    unfold Goal.parse parseArgumentTail
    split
    · exact .pair _ (ih .power mode rest) (ih .argumentTail mode) fun _ _ _ _ => .factor
    · exact .ok .noFactor
  | not =>
    unfold Goal.parse parseNot
    split
    · exact .token (.map (fun inner => Node.of .not [inner]) (ih .not mode _) fun _ _ => .denied)
    · exact ih .relation mode rest
  | signed =>
    unfold Goal.parse parseSigned
    split
    · exact .token (.map (fun inner => Node.of .negate [inner]) (ih .signed mode _) fun _ _ => .negated)
    · exact .token (.map (fun inner => Node.of .not [inner]) (ih .signed mode _) fun _ _ => .denied)
    · exact .token ((ih .signed mode _).mono fun _ _ => .plus)
    · exact ih .juxtaposed mode rest
  | scripts before =>
    unfold Goal.parse parseScripts
    split
    · refine .token ((ih .script mode _).bind fun _ base later script => ?_)
      exact (ih (.scripts { before with base := some base }) mode later).mono
        fun _ _ => .subscript script
    · refine .token ((ih .script mode _).bind fun _ power later script => ?_)
      exact (ih (.scripts { before with power := some power }) mode later).mono
        fun _ _ => .superscript script
    · exact .ok .noScript
  | index function =>
    rw [Goal.parse]
    unfold parseIndex
    split
    · refine .token (.closed some (ih .or mode _) (checks_afterBracket .square) ?_)
      rintro row index ⟨token, position⟩ inside ⟨⟩
      exact .root inside
    · exact .ok .noIndex
  | function word function =>
    unfold Goal.parse parseFunction
    refine (ih (.scripts ⟨none, none⟩) mode rest).bind fun _ _ _ scripts => ?_
    refine (ih (.index function) mode _).bind fun _ _ _ index => ?_
    exact .map _ (ih (.arguments word) mode _) fun _ _ args position => .function scripts index args
  | limit limits =>
    unfold Goal.parse parseLimit
    split
    · exact .token (.map (fun lower => { limits with lower := some lower }) (ih .script mode _)
        fun _ _ => .lower)
    · exact .token (.map (fun upper => { limits with upper := some upper }) (ih .script mode _)
        fun _ _ => .upper)
    · exact .ok .none
  | power => exact takes_power ih mode rest
  | script => exact takes_script ih mode rest
  | operand => exact takes_operand ih mode rest
  | items bracket => exact takes_items ih mode rest bracket
  | itemList => exact takes_itemList ih mode rest
  | arguments word => exact takes_arguments ih mode rest word
  | integral => exact takes_integral ih mode rest

end Steps

/-- Every parsing function finds only what its row takes. -/
theorem takes_parse (budget : Nat) (goal : Goal) (mode : Mode) (rest : Rest) :
    Consumes goal.Takes rest (goal.parse budget mode rest) := by
  induction budget generalizing goal mode rest with
  | zero => cases goal <;> exact .error _
  | succ budget ih => exact takes_succ ih mode rest goal

end Grapher.Markup
