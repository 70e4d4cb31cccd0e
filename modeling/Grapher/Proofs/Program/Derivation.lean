import Grapher.Proofs.Program.Phrase

/-!
# Derivations of programs

The grammar of programs as trees of its productions. A phrase of a level is a phrase of the next
tighter level, or one of the level's own productions; a level that associates to the left is
extended on its right, by a sign with an operand of the next tighter level or, after a callee, by
arguments. A binder is an argument and nothing else.

A derivation spells a row of tokens and stands for an expression. The parser takes the tokens of
every derivation whole and makes its expression of them. The productions to the left are the only
ones that need care: the parser reads their first operand and then one suffix after the other, so
a derivation is first laid out as such a row.
-/

set_option autoImplicit false

namespace Grapher.Program

open List

variable {level : Level}

/-! ## Productions -/

/-- The signs that join an operand of the next tighter level to a phrase of a level. -/
inductive Sign : Level → Type where
  | or : Sign .or
  | and : Sign .and
  | plus : Sign .sum
  | minus : Sign .sum
  | times : Sign .product
  | divide : Sign .product

mutual

/-- The derivations of the phrases of a level. -/
inductive Derivation : Level → Type where
  | inward {level : Level} (proper : level ≠ .operand) (inner : Derivation level.inner) :
    Derivation level
  | extended {level : Level} (left : Derivation level) (suffix : Suffix level) : Derivation level
  | not (operand : Derivation .not) : Derivation .not
  | chain (first : Derivation .sum) (second : Compared) (more : List Compared) :
    Derivation .comparison
  | negative (operand : Derivation .signed) : Derivation .signed
  | positive (operand : Derivation .signed) : Derivation .signed
  | power (base : Derivation .call) (exponent : Derivation .signed) : Derivation .power
  | number (value : Float) : Derivation .operand
  | name (word : String) : Derivation .operand
  | group (inside : Derivation .or) : Derivation .operand

/-- What extends a phrase of a level on its right. -/
inductive Suffix : Level → Type where
  | joined {level : Level} (sign : Sign level) (right : Derivation level.inner) : Suffix level
  | arguments (args : List Passed) : Suffix .call

/-- An argument of a call. -/
inductive Passed : Type where
  | plain (phrase : Derivation .or)
  | binder (parameter : String) (body : Derivation .or)

/-- A further term of a comparison with the relation before it. -/
inductive Compared : Type where
  | mk (relation : Relation) (term : Derivation .sum)

end

/-- The phrase of an argument, which is the body of a binder. -/
def Passed.phrase : Passed → Derivation .or
  | .plain phrase => phrase
  | .binder _ body => body

namespace Compared

def relation : Compared → Relation
  | .mk relation _ => relation

def term : Compared → Derivation .sum
  | .mk _ term => term

end Compared

/-- Only levels that associate to the left have suffixes. -/
theorem Suffix.level_mem (suffix : Suffix level) :
    level ∈ [Level.or, .and, .sum, .product, .call] := by
  cases suffix with
  | joined sign right => cases sign <;> decide
  | arguments args => decide

/-- Induction over derivations, with what suffixes, arguments and chains hold as parts of the
derivation that they stand in. -/
@[elab_as_elim]
theorem Derivation.induction {motive : ∀ level : Level, Derivation level → Prop}
    (inward : ∀ {level : Level} (proper : level ≠ .operand) (inner : Derivation level.inner),
      motive level.inner inner → motive level (.inward proper inner))
    (joined : ∀ {level : Level} (left : Derivation level) (sign : Sign level)
      (right : Derivation level.inner), motive level left → motive level.inner right →
      motive level (.extended left (.joined sign right)))
    (called : ∀ (callee : Derivation .call) (args : List Passed), motive .call callee →
      (∀ arg ∈ args, motive .or arg.phrase) → motive .call (.extended callee (.arguments args)))
    (not : ∀ operand : Derivation .not, motive .not operand → motive .not (.not operand))
    (chain : ∀ (first : Derivation .sum) (second : Compared) (more : List Compared),
      motive .sum first → (∀ next ∈ second :: more, motive .sum next.term) →
      motive .comparison (.chain first second more))
    (negative : ∀ operand : Derivation .signed, motive .signed operand →
      motive .signed (.negative operand))
    (positive : ∀ operand : Derivation .signed, motive .signed operand →
      motive .signed (.positive operand))
    (power : ∀ (base : Derivation .call) (exponent : Derivation .signed), motive .call base →
      motive .signed exponent → motive .power (.power base exponent))
    (number : ∀ value : Float, motive .operand (.number value))
    (name : ∀ word : String, motive .operand (.name word))
    (group : ∀ inside : Derivation .or, motive .or inside → motive .operand (.group inside))
    (derivation : Derivation level) : motive level derivation :=
  @Derivation.rec motive
    (fun level suffix => ∀ left, motive level left → motive level (.extended left suffix))
    (fun arg => motive .or arg.phrase) (fun next => motive .sum next.term)
    (fun more => ∀ next ∈ more, motive .sum next.term)
    (fun args => ∀ arg ∈ args, motive .or arg.phrase)
    inward (fun left _ first extension => extension left first) not
    (fun first second more start next others =>
      chain first second more start (forall_mem_cons.mpr ⟨next, others⟩))
    negative positive power number name group
    (fun sign right second left first => joined left sign right first second)
    (fun args all callee first => called callee args first all)
    (fun _ inside => inside) (fun _ _ inside => inside) (fun _ _ inside => inside)
    (fun _ member => nomatch member)
    (fun _ _ first others => forall_mem_cons.mpr ⟨first, others⟩)
    (fun _ member => nomatch member)
    (fun _ _ first others => forall_mem_cons.mpr ⟨first, others⟩)
    level derivation

/-! ## What a derivation spells -/

/-- The token of a sign. -/
def Sign.token : {level : Level} → Sign level → Token
  | _, .or => .keyword .or
  | _, .and => .keyword .and
  | _, .plus => .mark .plus
  | _, .minus => .mark .minus
  | _, .times => .mark .times
  | _, .divide => .mark .divide

mutual

/-- The tokens of a derivation. -/
def Derivation.tokens : {level : Level} → Derivation level → List Token
  | _, .inward _ inner => inner.tokens
  | _, .extended left suffix => left.tokens ++ suffix.tokens
  | _, .not operand => .keyword .not :: operand.tokens
  | _, .chain first second more => first.tokens ++ (second.tokens ++ chainTokens more)
  | _, .negative operand => .mark .minus :: operand.tokens
  | _, .positive operand => .mark .plus :: operand.tokens
  | _, .power base exponent => base.tokens ++ .mark .power :: exponent.tokens
  | _, .number value => [.number value]
  | _, .name word => [.name word]
  | _, .group inside => .mark .opening :: inside.tokens ++ [.mark .closing]

def Suffix.tokens : {level : Level} → Suffix level → List Token
  | _, .joined sign right => sign.token :: right.tokens
  | _, .arguments args => delimited (argumentTokens args)

def Passed.tokens : Passed → List Token
  | .plain phrase => phrase.tokens
  | .binder parameter body => .name parameter :: .mark .arrow :: body.tokens

def argumentTokens : List Passed → List (List Token)
  | [] => []
  | arg :: args => arg.tokens :: argumentTokens args

def Compared.tokens : Compared → List Token
  | .mk relation term => .mark (.relation relation) :: term.tokens

def chainTokens : List Compared → List Token
  | [] => []
  | next :: more => next.tokens ++ chainTokens more

end

theorem argumentTokens_eq (args : List Passed) : argumentTokens args = args.map Passed.tokens := by
  induction args with
  | nil => rw [argumentTokens, map_nil]
  | cons arg args ih => rw [argumentTokens, map_cons, ih]

/-! ## What a derivation stands for -/

/-- What a sign makes of its two sides. -/
def Sign.combine : {level : Level} → Sign level → Expr → Expr → Expr
  | _, .or => .or
  | _, .and => .and
  | _, .plus => .arithmetic .add
  | _, .minus => .arithmetic .subtract
  | _, .times => .arithmetic .multiply
  | _, .divide => .arithmetic .divide

mutual

/-- The expression of a derivation. -/
def Derivation.expr : {level : Level} → Derivation level → Expr
  | _, .inward _ inner => inner.expr
  | _, .extended left suffix => suffix.extend left.expr
  | _, .not operand => .not operand.expr
  | _, .chain first second more =>
    .compare first.expr (second.relation :: more.map Compared.relation)
      (second.expr :: chainExprs more)
  | _, .negative operand => .negate operand.expr
  | _, .positive operand => operand.expr
  | _, .power base exponent => .arithmetic .power base.expr exponent.expr
  | _, .number value => .number value
  | _, .name word => .name word
  | _, .group inside => inside.expr

/-- What a suffix makes of the phrase on its left. -/
def Suffix.extend : {level : Level} → Suffix level → Expr → Expr
  | _, .joined sign right => fun left => sign.combine left right.expr
  | _, .arguments args => fun callee => .call callee (argumentExprs args)

def Passed.expr : Passed → Expr
  | .plain phrase => phrase.expr
  | .binder parameter body => .binder parameter body.expr

def argumentExprs : List Passed → List Expr
  | [] => []
  | arg :: args => arg.expr :: argumentExprs args

def Compared.expr : Compared → Expr
  | .mk _ term => term.expr

def chainExprs : List Compared → List Expr
  | [] => []
  | next :: more => next.expr :: chainExprs more

end

theorem argumentExprs_eq (args : List Passed) : argumentExprs args = args.map Passed.expr := by
  induction args with
  | nil => rw [argumentExprs, map_nil]
  | cons arg args ih => rw [argumentExprs, map_cons, ih]

theorem chainExprs_eq (more : List Compared) : chainExprs more = more.map Compared.expr := by
  induction more with
  | nil => rw [chainExprs, map_nil]
  | cons next more ih => rw [chainExprs, map_cons, ih]

theorem Sign.joint (sign : Sign level) : Joint level sign.token sign.combine := by
  cases sign
  · exact .or
  · exact .and
  · exact .plus
  · exact .minus
  · exact .times
  · exact .divide

theorem Joint.sign {token : Token} {combine : Expr → Expr → Expr}
    (joint : Joint level token combine) :
    ∃ sign : Sign level, sign.token = token ∧ sign.combine = combine := by
  cases joint
  · exact ⟨.or, rfl, rfl⟩
  · exact ⟨.and, rfl, rfl⟩
  · exact ⟨.plus, rfl, rfl⟩
  · exact ⟨.minus, rfl, rfl⟩
  · exact ⟨.times, rfl, rfl⟩
  · exact ⟨.divide, rfl, rfl⟩

theorem Sign.token_injective {sign other : Sign level} (same : sign.token = other.token) :
    sign = other := by
  cases sign <;> cases other <;> first | rfl | cases same

/-! ## Every derivation is parsed -/

/-- What the parser makes of the tokens of a derivation; the layout exists at levels that have
suffixes. -/
structure Taken (level : Level) (tokens : List Token) (expr : Expr) : Prop where
  phrase : Phrase level tokens expr
  laid : Suffix level → LaidOut level tokens expr

namespace Taken

variable {level : Level} {tokens : List Token} {expr : Expr}

theorem ofLaid (laid : LaidOut level tokens expr) : Taken level tokens expr :=
  ⟨laid.phrase, fun _ => laid⟩

/-- At a level without suffixes only the phrase counts. -/
theorem ofPhrase (phrase : Phrase level tokens expr)
    (bare : level ∉ [Level.or, .and, .sum, .product, .call]) : Taken level tokens expr :=
  ⟨phrase, fun suffix => absurd suffix.level_mem bare⟩

end Taken

/-- A further term as its tokens with what they stand for. -/
def Compared.linked (next : Compared) : Linked := ⟨next.relation, next.term.tokens, next.term.expr⟩

theorem linkedTokens_eq (more : List Compared) :
    linkedTokens (more.map Compared.linked) = chainTokens more := by
  induction more with
  | nil => rw [chainTokens]; rfl
  | cons next more ih =>
    obtain ⟨relation, term⟩ := next
    rw [chainTokens, ← ih, Compared.tokens]
    rfl

theorem expr_comp_linked : Linked.expr ∘ Compared.linked = Compared.expr := by
  funext next
  obtain ⟨relation, term⟩ := next
  rfl

/-- An argument is taken as one if its phrase is a phrase. -/
theorem Passed.taken (arg : Passed) (phrase : Phrase .or arg.phrase.tokens arg.phrase.expr) :
    Argument arg.tokens arg.expr := by
  cases arg with
  | plain inside => exact .phrase phrase
  | binder parameter body => exact .binder parameter phrase

theorem extends_arguments {args : List Passed} (all : ∀ arg ∈ args, Argument arg.tokens arg.expr) :
    Extends .call (Suffix.arguments args).tokens (Suffix.arguments args).extend := by
  have called := @Extends.called (args.map fun arg => (arg.tokens, arg.expr)) (by
    intro pair member
    obtain ⟨arg, inside, rfl⟩ := mem_map.mp member
    exact all arg inside)
  rw [Suffix.tokens, Suffix.extend, argumentTokens_eq, argumentExprs_eq]
  simpa only [map_map, Function.comp_def] using called

/-- The parser takes the tokens of every derivation. -/
theorem Derivation.taken (derivation : Derivation level) :
    Taken level derivation.tokens derivation.expr := by
  induction derivation using Derivation.induction with
  | inward proper inner ih => exact .ofLaid (.inward ih.phrase)
  | joined left sign right first second =>
    exact .ofLaid ((first.laid (.joined sign right)).extended (.joined sign.joint second.phrase))
  | called callee args first all =>
    refine .ofLaid ((first.laid (.arguments args)).extended (extends_arguments ?_))
    intro arg member
    exact arg.taken (all arg member).phrase
  | not operand ih => exact .ofPhrase (.not ih.phrase) (by decide)
  | chain first second more start others =>
    have phrase := @Phrase.chain _ _ ((second :: more).map Compared.linked) (cons_ne_nil _ _)
      start.phrase (forall_mem_map.mpr fun next member => (others next member).phrase)
    rw [linkedTokens_eq, chainTokens, map_map, map_map, expr_comp_linked] at phrase
    rw [tokens, expr, chainExprs_eq]
    exact .ofPhrase phrase (by decide)
  | negative operand ih => exact .ofPhrase (.negate ih.phrase) (by decide)
  | positive operand ih => exact .ofPhrase (.positive ih.phrase) (by decide)
  | power base exponent first second =>
    exact .ofPhrase (.power first.phrase second.phrase) (by decide)
  | number value => exact .ofPhrase (.number value) (by decide)
  | name word => exact .ofPhrase (.name word) (by decide)
  | group inside ih => exact .ofPhrase (.group ih.phrase) (by decide)

theorem Derivation.phrase (derivation : Derivation level) :
    Phrase level derivation.tokens derivation.expr :=
  derivation.taken.phrase

end Grapher.Program
