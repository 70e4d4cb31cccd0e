import Grapher.Proofs.Markup.Phrase
import Grapher.Proofs.Markup.Surroundings

/-!
# Parsing functions in other surroundings

Every parsing function repeats what it finds when the same tokens stand in other surroundings
(`repeats`): this goes from the calls of a function to the function, one step for each of them. Only
three places look at bars. A further factor and a bare argument may start with a bar, unless bars
close; and inside of groups and of further bars, the bars around them do not count.
-/

set_option autoImplicit false

namespace Grapher.Markup

/-! ## Functions at bars and primes -/

/-- The functions that a bar can stop: rows of operands, which end at what does not continue them. -/
def Goal.stops : Goal → Bool
  | .or | .orTail | .and | .andTail | .not | .relation | .relationTail | .sum | .sumTail
  | .product | .productTail | .signed | .juxtaposed | .juxtaposedTail | .itemList | .integral => true
  | .power | .script | .operand | .argumentTail | .items _ | .function _ _ | .scripts _ | .index _
  | .arguments _ | .limit _ => false

/-- Within a budget, a function repeats what it finds in other surroundings. -/
def Goal.Repeats (whole ending : Rest) (budget : Nat) (goal : Goal) : Prop :=
  ∀ ⦃mode mode' : Mode⦄, Into whole mode mode' → ∀ ⦃rest rest' : Rest⦄,
    Echo whole ending rest rest' → Markup.Repeats whole ending (mode ≠ mode') goal.stops
      (goal.parse budget mode rest) (goal.parse budget mode' rest')

/-- Within a budget, all functions do so. -/
abbrev RepeatsAll (whole ending : Rest) (budget : Nat) : Prop :=
  ∀ goal : Goal, goal.Repeats whole ending budget

/-- No operand starts with a prime. -/
theorem level_at_prime (budget : Nat) (level : Level) (mode : Mode) (count position : Nat)
    (rest : Rest) : ∃ reason, reason.atBar = false ∧
      level.parse budget mode (⟨.prime count, position⟩ :: rest) = .error reason := by
  induction budget generalizing level with
  | zero => cases level <;> exact ⟨_, rfl, rfl⟩
  | succ budget ih =>
    have row : ∀ {α : Type} {next : Parsed Node → Except ParseError α} (inner : Level),
        ∃ reason, reason.atBar = false ∧
          inner.parse budget mode (⟨.prime count, position⟩ :: rest) >>= next = .error reason := by
      intro α next inner
      obtain ⟨reason, elsewhere, same⟩ := ih inner
      exact ⟨reason, elsewhere, by rw [same]; rfl⟩
    cases level with
    | or => exact row .and
    | and => exact row .not
    | not => exact ih .relation
    | relation => exact row .sum
    | sum => exact row .product
    | product => exact row .signed
    | signed => exact ih .juxtaposed
    | juxtaposed => exact row .power
    | power => exact row .operand
    | operand => exact ⟨_, rfl, rfl⟩

theorem script_at_prime (budget : Nat) (mode : Mode) (count at₁ at₂ : Nat) :
    ∃ reason, reason.atBar = false ∧
      parseScript budget mode [⟨.braceOpen, at₁⟩, ⟨.prime count, at₂⟩] = .error reason := by
  cases budget with
  | zero => exact ⟨_, rfl, rfl⟩
  | succ budget =>
    obtain ⟨reason, elsewhere, same⟩ := level_at_prime budget .or mode count at₂ []
    simp only [Level.parse] at same
    exact ⟨reason, elsewhere, by simp only [parseScript, same]; rfl⟩

section Tails

variable {τ α : Type} {entry : Sign → Option τ} {make : τ → Node → α}
  {operand : Nat → Mode → Rest → Except ParseError (Parsed Node)}
  {tail : Nat → Mode → Rest → Except ParseError (Parsed (List α))}
  (isTail : IsTail entry make operand tail) {whole ending : Rest} {changed : Prop} {stops : Bool}
  {budget : Nat} {mode mode' : Mode}
  (others : ∀ ⦃later later' : Rest⦄, Echo whole ending later later' →
    Repeats whole ending changed true (tail budget mode later) (tail budget mode' later'))

include isTail others

/-- An operand and a tail behind it, which finds nothing at a bar. -/
theorem IsTail.repeats_row {β : Type} (combine : Node → List α → β)
    {first first' : Except ParseError (Parsed Node)}
    (start : Repeats whole ending changed stops first first') :
    Repeats whole ending changed true
      (do
        let (a, rest) ← first
        let (b, rest) ← tail budget mode rest
        .ok (combine a b, rest))
      (do
        let (a, rest) ← first'
        let (b, rest) ← tail budget mode' rest
        .ok (combine a b, rest)) := by
  refine .pair combine start others id fun _ => ⟨rfl, ?_⟩
  intro later result found written position more
  cases budget with
  | zero =>
    rw [isTail.zero] at found
    cases found
  | succ budget => exact ⟨[], isTail.cons budget mode' (.bar written) position more⟩

theorem IsTail.repeats
    (first : ∀ ⦃later later' : Rest⦄, Echo whole ending later later' →
      Repeats whole ending changed stops (operand budget mode later) (operand budget mode' later'))
    {rest rest' : Rest} (echo : Echo whole ending rest rest') :
    Repeats whole ending changed true (tail (budget + 1) mode rest)
      (tail (budget + 1) mode' rest') := by
  cases echo with
  | nil =>
    rw [isTail.nil, isTail.nil]
    exact .ok [] .nil
  | closed =>
    rw [isTail.nil, isTail.cons]
    exact .ok [] .closed
  | @cons _ token _ _ _ _ member more =>
    rw [isTail.cons, isTail.cons]
    cases token.bySign entry with
    | none => exact .ok [] (.cons member more)
    | some tag =>
      exact isTail.repeats_row others (fun next more => make tag next :: more) (first more)

end Tails

/-! ## The descent -/

section Steps

variable {whole ending : Rest} {budget : Nat}
  (ih : RepeatsAll whole ending budget) {mode mode' : Mode} (into : Into whole mode mode')
  {rest rest' : Rest} (echo : Echo whole ending rest rest')

include ih

/-! ### Rows -/

theorem repeats_not : Goal.not.Repeats whole ending (budget + 1) := by
  intro mode mode' into rest rest' echo
  cases echo with
  | nil | closed => exact ih .relation into (by constructor)
  | @cons _ token _ _ _ _ member more =>
    cases token with
    | sign sign =>
      cases sign with
      | not => exact .map (fun inner => Node.of .not [inner]) (ih .not into more)
      | _ => exact ih .relation into (.cons member more)
    | _ => exact ih .relation into (.cons member more)

theorem repeats_signed : Goal.signed.Repeats whole ending (budget + 1) := by
  intro mode mode' into rest rest' echo
  cases echo with
  | nil | closed => exact ih .juxtaposed into (by constructor)
  | @cons _ token _ _ _ _ member more =>
    cases token with
    | sign sign =>
      cases sign with
      | minus => exact .map (fun inner => Node.of .negate [inner]) (ih .signed into more)
      | not => exact .map (fun inner => Node.of .not [inner]) (ih .signed into more)
      | plus => exact ih .signed into more
      | _ => exact ih .juxtaposed into (.cons member more)
    | _ => exact ih .juxtaposed into (.cons member more)

/-- A further factor, unless it is one between bars where bars close. -/
theorem repeats_juxtaposedTail : Goal.juxtaposedTail.Repeats whole ending (budget + 1) := by
  intro mode mode' into rest rest' echo
  dsimp only [Goal.parse]
  unfold parseJuxtaposedTail
  rcases startsOperand_echo into echo with same | ⟨differs, closed, bar⟩
  · rw [same]
    split
    · exact .pair List.cons (ih .power into echo) (ih .juxtaposedTail into) id (by rintro ⟨⟩)
    · exact .ok [] echo
  · obtain ⟨written, position, more, rfl, member⟩ := bar
    rw [closed]
    refine ⟨fun found later _ => .inr ⟨differs, .inr ⟨rfl, [], written, position, more, member, rfl⟩⟩,
      fun _ _ _ => .inl differs⟩

/-! ### Powers and scripts -/

include into echo in
theorem repeats_raised (base : Node) : Repeats whole ending (mode ≠ mode') false
    (raised budget mode base rest) (raised budget mode' base rest') := by
  cases echo with
  | nil | closed => exact .ok base (by constructor)
  | @cons _ token _ _ _ _ member more =>
    cases token with
    | sign sign =>
      cases sign with
      | power =>
        rw [raised_power, raised_power]
        rcases primesRaised_echo more with
          none | ⟨count, later, later', echo, same⟩ | ⟨count, at₁, at₂, rfl⟩
        · rw [(none base).1, (none base).2]
          exact .map (fun exponent => Node.of .power [base, exponent]) (ih .script into more)
        · rw [(same base).1, (same base).2]
          exact .ok _ echo
        · -- Without the closing brace, the exponent is a script that starts with a prime.
          obtain ⟨reason, elsewhere, refused⟩ := script_at_prime budget mode count at₁ at₂
          simp only [primesRaised, refused]
          exact .idle elsewhere
      | subscript => exact .misplaced .noSubscript (.cons member more)
      | _ => exact .ok base (.cons member more)
    | _ => exact .ok base (.cons member more)

theorem repeats_power : Goal.power.Repeats whole ending (budget + 1) := by
  intro mode mode' into rest rest' echo
  rw [Goal.parse, Goal.parse, parsePower_succ, parsePower_succ]
  refine (ih .operand into echo).bind (fun base later later' _ after => ?_) (by rintro _ ⟨⟩)
  obtain ⟨count, last, last', echo, same⟩ := applyPrimes_echo after
  dsimp only
  rw [(same base).1, (same base).2]
  exact repeats_raised ih into echo (primed count base)

include into echo in
/-- What stands in braces. -/
theorem repeats_braced : Repeats whole ending (mode ≠ mode') false
    (do
      let (inner, rest) ← parseOr budget mode rest
      let rest ← afterBrace rest
      .ok (inner, rest))
    (do
      let (inner, rest) ← parseOr budget mode' rest'
      let rest ← afterBrace rest
      .ok (inner, rest)) :=
  .closed id checks_afterBrace (ih .or into echo) fun _ _ => ⟨_, fun _ _ => rfl⟩

theorem repeats_script : Goal.script.Repeats whole ending (budget + 1) := by
  intro mode mode' into rest rest' echo
  cases echo with
  | nil | closed => exact ih .operand into (by constructor)
  | @cons _ token _ _ _ _ member more =>
    cases token with
    | braceOpen => exact repeats_braced ih into more
    | sign sign =>
      cases sign with
      | minus => exact .map (fun inner => Node.of .negate [inner]) (ih .script into more)
      | _ => exact ih .operand into (.cons member more)
    | _ => exact ih .operand into (.cons member more)

include into echo in
/-- Inside of further bars both runs are in the same surroundings. -/
theorem repeats_barred (changed : Prop) : Repeats whole ending changed false
    (do
      let (inner, rest) ← parseOr budget { mode with inBars := true } rest
      let rest ← afterBar rest
      .ok (Node.of (.elementary .abs) [inner], rest))
    (do
      let (inner, rest) ← parseOr budget { mode' with inBars := true } rest'
      let rest ← afterBar rest
      .ok (Node.of (.elementary .abs) [inner], rest)) := by
  rw [into.within true]
  have inside := ih .or (.same { mode with inBars := true }) echo
  exact (Repeats.closed (fun inner => Node.of (.elementary .abs) [inner]) (checks_afterBar true) inside
    fun differs => absurd rfl differs).unchanged (not_not_intro rfl)

theorem repeats_operand : Goal.operand.Repeats whole ending (budget + 1) := by
  intro mode mode' into rest rest' echo
  cases echo with
  | nil | closed => exact .idle rfl
  | @cons _ token _ _ _ _ member more =>
    cases token with
    | number value => exact .ok (Node.number value) more
    | name name => exact .ok (nameTree name) more
    | opening bracket => exact .map groupTree (ih (.items bracket) into more)
    | braceOpen => exact repeats_braced ih into more
    | bar written => exact repeats_barred ih into more _
    | function word elementary => exact ih (.function word elementary) into more
    | fraction =>
      exact .pair (fun above under => Node.of .divide [above, under]) (ih .script into more)
        (ih .script into) id (by rintro ⟨⟩)
    | integral =>
      cases into with
      | same => exact (ih .integral (.same mode) more).unchanged (not_not_intro rfl)
      | bars inIntegral free => exact absurd rfl (free _ member)
    | _ => exact .misplaced .operand (.cons member more)

/-! ### Groups and arguments -/

theorem repeats_itemList : Goal.itemList.Repeats whole ending (budget + 1) := by
  intro mode mode' into rest rest' echo
  dsimp only [Goal.parse]
  refine (ih .or into echo).bind (fun item later later' _ after => ?_) ?_
  · cases after with
    | nil | closed => exact .ok [item] (by constructor)
    | @cons _ token _ _ _ _ member more =>
      cases token with
      | comma => exact .map (fun items => item :: items) (ih .itemList into more)
      | _ => exact .ok [item] (.cons member more)
  · intro _ _ _ _ _ _ item written position more member
    exact .inr ⟨rfl, [item], written, position, more, member, rfl⟩

omit ih in
include echo in
theorem afterBracket?_echo (bracket : Bracket) :
    afterBracket? bracket rest = none ∧ afterBracket? bracket rest' = none ∨
      ∃ later later', afterBracket? bracket rest = some later ∧
        afterBracket? bracket rest' = some later' ∧ Echo whole ending later later' := by
  cases echo with
  | nil | closed => exact .inl ⟨rfl, rfl⟩
  | @cons _ token _ _ _ _ _ more =>
    cases token with
    | closing other =>
      by_cases same : other = bracket
      · exact .inr ⟨_, _, if_pos same, if_pos same, more⟩
      · exact .inl ⟨if_neg same, if_neg same⟩
    | _ => exact .inl ⟨rfl, rfl⟩

/-- Inside of a group both runs are in the same surroundings. -/
theorem repeats_items (bracket : Bracket) :
    (Goal.items bracket).Repeats whole ending (budget + 1) := by
  intro mode mode' into rest rest' echo
  dsimp only [Goal.parse]
  unfold parseItems
  rcases afterBracket?_echo echo bracket with
    ⟨none, none'⟩ | ⟨later, later', some, some', after⟩
  · rw [none, none', into.within false]
    have inside := ih .itemList (.same { mode with inBars := false }) echo
    exact (Repeats.closed id (checks_afterBracket bracket) inside
      fun differs => absurd rfl differs).unchanged (not_not_intro rfl)
  · rw [some, some']
    exact .ok [] after

theorem repeats_argumentTail : Goal.argumentTail.Repeats whole ending (budget + 1) := by
  intro mode mode' into rest rest' echo
  dsimp only [Goal.parse]
  unfold parseArgumentTail
  rw [continuesArgument_echo into echo]
  split
  · exact .pair List.cons (ih .power into echo) (ih .argumentTail into) id (by rintro ⟨⟩)
  · exact .ok [] echo

include into echo in
/-- A bare argument, unless it is one between bars where bars close. -/
theorem repeats_bare (word : String) : Repeats whole ending (mode ≠ mode') false
    (if startsOperand mode rest then do
        let (first, rest) ← parsePower budget mode rest
        let (more, rest) ← parseArgumentTail budget mode rest
        .ok ([joined .invisible first more], rest)
      else .error (misplaced (.argument word) rest))
    (if startsOperand mode' rest' then do
        let (first, rest) ← parsePower budget mode' rest'
        let (more, rest) ← parseArgumentTail budget mode' rest
        .ok ([joined .invisible first more], rest)
      else .error (misplaced (.argument word) rest')) := by
  rcases startsOperand_echo into echo with same | ⟨differs, closed, bar⟩
  · rw [same]
    split
    · exact .pair (fun first more => [joined .invisible first more]) (ih .power into echo)
        (ih .argumentTail into) id (by rintro ⟨⟩)
    · exact .misplaced (.argument word) echo
  · obtain ⟨written, position, more, rfl, member⟩ := bar
    rw [closed]
    exact ⟨fun found later _ => .inr ⟨differs, .inl ⟨.argument word, written, position, member, rfl⟩⟩,
      fun _ _ _ => .inl differs⟩

theorem repeats_arguments (word : String) :
    (Goal.arguments word).Repeats whole ending (budget + 1) := by
  intro mode mode' into rest rest' echo
  cases echo with
  | nil | closed => exact repeats_bare ih into (by constructor) word
  | @cons _ token _ _ _ _ member more =>
    cases token with
    | opening bracket =>
      cases bracket with
      | round => exact ih (.items .round) into more
      | _ => exact repeats_bare ih into (.cons member more) word
    | braceOpen => exact .map (fun arg => [arg]) (ih .script into (.cons member more))
    | _ => exact repeats_bare ih into (.cons member more) word

theorem repeats_index (function : Elementary) :
    (Goal.index function).Repeats whole ending (budget + 1) := by
  intro mode mode' into rest rest' echo
  cases function with
  | sqrt =>
    cases echo with
    | nil | closed => exact .ok none (by constructor)
    | @cons _ token _ _ _ _ member more =>
      cases token with
      | opening bracket =>
        cases bracket with
        | square =>
          exact .closed some (checks_afterBracket .square) (ih .or into more)
            fun _ _ => ⟨_, fun _ _ => rfl⟩
        | _ => exact .ok none (.cons member more)
      | _ => exact .ok none (.cons member more)
  | _ => exact .ok none echo

/-! ### Function words and integrals -/

theorem repeats_scripts (before : Scripts) :
    (Goal.scripts before).Repeats whole ending (budget + 1) := by
  intro mode mode' into rest rest' echo
  cases echo with
  | nil | closed => exact .ok before (by constructor)
  | @cons _ token _ _ _ _ member more =>
    cases token with
    | sign sign =>
      cases sign with
      | subscript =>
        refine (ih .script into more).bind (fun base later later' _ after => ?_) (by rintro _ ⟨⟩)
        exact ih (.scripts { before with base := some base }) into after
      | power =>
        refine (ih .script into more).bind (fun power later later' _ after => ?_) (by rintro _ ⟨⟩)
        exact ih (.scripts { before with power := some power }) into after
      | _ => exact .ok before (.cons member more)
    | _ => exact .ok before (.cons member more)

theorem repeats_function (word : String) (function : Elementary) :
    (Goal.function word function).Repeats whole ending (budget + 1) := by
  intro mode mode' into rest rest' echo
  dsimp only [Goal.parse]
  refine (ih (.scripts ⟨none, none⟩) into echo).bind (fun scripts later later' _ after => ?_)
    (by rintro _ ⟨⟩)
  refine (ih (.index function) into after).bind (fun index middle middle' _ last => ?_)
    (by rintro _ ⟨⟩)
  exact .map (functionTree function scripts index) (ih (.arguments word) into last)

theorem repeats_limit (limits : Limits) :
    (Goal.limit limits).Repeats whole ending (budget + 1) := by
  intro mode mode' into rest rest' echo
  cases echo with
  | nil | closed => exact .ok limits (by constructor)
  | @cons _ token _ _ _ _ member more =>
    cases token with
    | sign sign =>
      cases sign with
      | subscript =>
        exact .map (fun lower => { limits with lower := some lower }) (ih .script into more)
      | power =>
        exact .map (fun upper => { limits with upper := some upper }) (ih .script into more)
      | _ => exact .ok limits (.cons member more)
    | _ => exact .ok limits (.cons member more)

omit ih in
/-- An integrand and the differential behind it. -/
theorem repeats_integrand {changed : Prop} {inner inner' : Mode} (into : Into whole inner inner')
    {body body' : Except ParseError (Parsed Node)} (lower upper : Node)
    (start : Repeats whole ending changed true body body') : Repeats whole ending changed true
      (do
        let (body, rest) ← body
        let (name, rest) := differential inner rest
        .ok (integralTree body name lower upper, rest))
      (do
        let (body, rest) ← body'
        let (name, rest) := differential inner' rest
        .ok (integralTree body name lower upper, rest)) := by
  refine start.bind (fun integrand later later' _ after => ?_) ?_
  · obtain ⟨name, last, last', found, found', echo⟩ := differential_echo into after
    dsimp only
    rw [found, found']
    exact .ok _ echo
  · intro _ _ _ _ _ _ integrand written position more member
    have absent : differential inner' (⟨.bar written, position⟩ :: more)
        = ("x", ⟨.bar written, position⟩ :: more) := by
      simp [differential, atDifferential]
    refine .inr ⟨rfl, integralTree integrand "x" lower upper, written, position, more, member, ?_⟩
    dsimp only
    rw [absent]

theorem repeats_integral : Goal.integral.Repeats whole ending (budget + 1) := by
  intro mode mode' into rest rest' echo
  dsimp only [Goal.parse]
  refine (ih (.limit ⟨none, none⟩) into echo).bind (fun between later later' _ after => ?_)
    (by rintro _ ⟨⟩)
  refine (ih (.limit between) into after).bind (fun limits last last' _ behind => ?_)
    (by rintro _ ⟨⟩)
  dsimp only
  split
  · next lower upper _ =>
    have inner := into.integrand
    rw [atDifferential_echo inner behind]
    split
    · exact repeats_integrand inner lower upper (.ok Node.one behind)
    · refine repeats_integrand inner lower upper ((ih .sum inner behind).mono ?_ id)
      intro differs same
      exact differs (by rw [same])
  · exact .idle rfl

theorem repeats_succ : RepeatsAll whole ending (budget + 1) := by
  intro goal
  cases goal with
  | or =>
    exact fun _ _ into _ _ echo =>
      isTail_or.repeats_row (ih .orTail into) (joined .or) (ih .and into echo)
  | orTail => exact fun _ _ into _ _ => isTail_or.repeats (ih .orTail into) (ih .and into)
  | and =>
    exact fun _ _ into _ _ echo =>
      isTail_and.repeats_row (ih .andTail into) (joined .and) (ih .not into echo)
  | andTail => exact fun _ _ into _ _ => isTail_and.repeats (ih .andTail into) (ih .not into)
  | not => exact repeats_not ih
  | relation =>
    exact fun _ _ into _ _ echo =>
      isTail_relation.repeats_row (ih .relationTail into) relationTree (ih .sum into echo)
  | relationTail =>
    exact fun _ _ into _ _ =>
      isTail_relation.repeats (ih .relationTail into) (ih .sum into)
  | sum =>
    exact fun _ _ into _ _ echo =>
      isTail_sum.repeats_row (ih .sumTail into) sumTree (ih .product into echo)
  | sumTail => exact fun _ _ into _ _ => isTail_sum.repeats (ih .sumTail into) (ih .product into)
  | product =>
    exact fun _ _ into _ _ echo =>
      isTail_product.repeats_row (ih .productTail into) productTree (ih .signed into echo)
  | productTail =>
    exact fun _ _ into _ _ =>
      isTail_product.repeats (ih .productTail into) (ih .signed into)
  | signed => exact repeats_signed ih
  | juxtaposed =>
    exact fun _ _ into _ _ echo => .pair (joined .invisible) (ih .power into echo)
      (ih .juxtaposedTail into) id (by rintro ⟨⟩)
  | juxtaposedTail => exact repeats_juxtaposedTail ih
  | power => exact repeats_power ih
  | script => exact repeats_script ih
  | operand => exact repeats_operand ih
  | itemList => exact repeats_itemList ih
  | argumentTail => exact repeats_argumentTail ih
  | integral => exact repeats_integral ih
  | items bracket => exact repeats_items ih bracket
  | function word function => exact repeats_function ih word function
  | scripts before => exact repeats_scripts ih before
  | index function => exact repeats_index ih function
  | arguments word => exact repeats_arguments ih word
  | limit limits => exact repeats_limit ih limits

end Steps

/-- Every parsing function repeats what it finds in other surroundings. -/
theorem repeats {whole ending : Rest} (budget : Nat) : RepeatsAll whole ending budget := by
  induction budget with
  | zero =>
    intro goal _ _ _ _ _ _
    cases goal <;> exact .idle rfl
  | succ budget ih => exact repeats_succ ih

end Grapher.Markup
