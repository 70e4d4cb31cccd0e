import Grapher.Proofs.Evaluation.Likeness
import Grapher.Proofs.Program.Recognition
import Mathlib.Data.List.Chain
import Mathlib.Data.List.ReduceOption

/-!
# Free names of a row of tokens

The names that a program looks up can be read off its tokens. A walk over the row keeps one frame
for each open parenthesis; a frame holds the parameter of the argument at hand when that argument
is a binder, and a name is free if no frame holds it. On the tokens of a derivation the walk finds
exactly the names of its expression.

The walk needs no derivation, so it can follow rows that are not programs as well. Two facts about
neighbours tell such rows from programs: in a program two operands never stand side by side, and an
arrow comes after a name.
-/

set_option autoImplicit false

namespace Grapher.Program

open List Program.Derivation Program.Expr

/-- The names of a row of tokens that no binder in it binds, in order of occurrence. -/
def unbound (frames : List (Option String)) : List Token → List String
  | [] => []
  | .name parameter :: .mark .arrow :: rest => unbound (some parameter :: frames.tail) rest
  | .name word :: rest => (if some word ∈ frames then [] else [word]) ++ unbound frames rest
  | .mark .opening :: rest => unbound (none :: frames) rest
  | .mark .closing :: rest => unbound frames.tail rest
  | .mark .comma :: rest => unbound (none :: frames.tail) rest
  | _ :: rest => unbound frames rest

/-- A row that does not start with an arrow, so that a name before it is no parameter. -/
def Arrowless (rest : List Token) : Prop :=
  rest.head? ≠ some (.mark .arrow)

/-- Tokens that the walk passes over. -/
def Token.isPassive : Token → Bool
  | .number _ | .keyword _ => true
  | .name _ => false
  | .mark sign => sign ∉ [Mark.opening, .closing, .comma]

section Walk

variable {frames : List (Option String)} {rest : List Token}

theorem unbound_name (word : String) (arrowless : Arrowless rest) :
    unbound frames (.name word :: rest)
      = (if some word ∈ frames then [] else [word]) ++ unbound frames rest := by
  match rest with
  | [] | .number _ :: _ | .name _ :: _ | .keyword _ :: _ => rfl
  | .mark sign :: _ =>
    cases sign with
    | arrow => exact absurd rfl arrowless
    | _ => rfl

theorem unbound_parameter (parameter : String) :
    unbound frames (.name parameter :: .mark .arrow :: rest)
      = unbound (some parameter :: frames.tail) rest := rfl

theorem unbound_opening : unbound frames (.mark .opening :: rest) = unbound (none :: frames) rest :=
  rfl

theorem unbound_closing (frame : Option String) :
    unbound (frame :: frames) (.mark .closing :: rest) = unbound frames rest := rfl

theorem unbound_comma (frame : Option String) :
    unbound (frame :: frames) (.mark .comma :: rest) = unbound (none :: frames) rest := rfl

theorem unbound_passive {token : Token} (passive : token.isPassive = true) :
    unbound frames (token :: rest) = unbound frames rest := by
  cases token with
  | number value | keyword word => rfl
  | name word => cases passive
  | mark sign =>
    cases sign with
    | opening | closing | comma => cases passive
    | _ => rfl

theorem arrowless_cons {token : Token} (other : token ≠ .mark .arrow) : Arrowless (token :: rest) :=
  fun same => other (Option.some.inj same)

theorem arrowless_mark {sign : Mark} (other : sign ≠ .arrow) : Arrowless (.mark sign :: rest) :=
  arrowless_cons fun same => other (Token.mark.inj same)

end Walk

/-! ## Derivations -/

/-- A row on which the walk finds the names of an expression, and goes on after it as it came. -/
def Shows (row : List Token) (e : Expr) : Prop :=
  ∀ frames rest, Arrowless rest →
    unbound frames (row ++ rest) = e.namesOutside frames.reduceOption ++ unbound frames rest

theorem Sign.passes {level : Level} (sign : Sign level) :
    sign.token.isPassive = true ∧ sign.token ≠ .mark .arrow := by
  cases sign <;> exact ⟨rfl, by simp [Sign.token]⟩

theorem namesOutside_combine {level : Level} (sign : Sign level) (bound : List String)
    (left right : Expr) : (sign.combine left right).namesOutside bound
      = left.namesOutside bound ++ right.namesOutside bound := by
  cases sign <;> simp only [Sign.combine, namesOutside]

/-- An argument leaves its frame to the next comma or parenthesis. -/
theorem unbound_passed {arg : Passed} (shows : Shows arg.phrase.tokens arg.phrase.expr)
    (frames : List (Option String)) {rest : List Token} (arrowless : Arrowless rest) :
    ∃ frame, unbound (none :: frames) (arg.tokens ++ rest)
      = arg.expr.namesOutside frames.reduceOption ++ unbound (frame :: frames) rest := by
  cases arg with
  | plain phrase => exact ⟨none, shows (none :: frames) rest arrowless⟩
  | binder parameter body => exact ⟨some parameter, shows (some parameter :: frames) rest arrowless⟩

theorem unbound_arguments {args : List Passed}
    (all : ∀ arg ∈ args, Shows arg.phrase.tokens arg.phrase.expr) (frames : List (Option String))
    (rest : List Token) :
    unbound (none :: frames)
        ([.mark .comma].intercalate (argumentTokens args) ++ .mark .closing :: rest)
      = namesOutsideArgs frames.reduceOption (argumentExprs args) ++ unbound frames rest := by
  match args with
  | [] => rfl
  | [arg] =>
    obtain ⟨frame, passed⟩ := unbound_passed (all arg (.head _)) frames
      (@arrowless_mark rest .closing (by decide))
    simp only [argumentTokens, argumentExprs, namesOutsideArgs, append_nil]
    rw [intercalate_singleton, passed, unbound_closing]
  | arg :: next :: args =>
    have later := @unbound_arguments (next :: args)
      (fun arg member => all arg (.tail _ member)) frames rest
    obtain ⟨frame, passed⟩ := unbound_passed (all arg (.head _)) frames
      (@arrowless_mark ([.mark .comma].intercalate (argumentTokens (next :: args)) ++
        .mark .closing :: rest) .comma (by decide))
    rw [argumentTokens, argumentExprs, namesOutsideArgs, append_assoc, ← later,
      argumentTokens, intercalate_cons_cons]
    simp only [append_assoc, singleton_append]
    rw [← argumentTokens, cons_append, passed, unbound_comma]

theorem unbound_chain {more : List Compared}
    (all : ∀ next ∈ more, Shows next.term.tokens next.term.expr) (frames : List (Option String))
    {rest : List Token} (arrowless : Arrowless rest) :
    Arrowless (chainTokens more ++ rest) ∧ unbound frames (chainTokens more ++ rest)
      = namesOutsideArgs frames.reduceOption (chainExprs more) ++ unbound frames rest := by
  induction more with
  | nil => exact ⟨arrowless, rfl⟩
  | cons next more ih =>
    obtain ⟨relation, term⟩ := next
    rw [forall_mem_cons] at all
    obtain ⟨after, later⟩ := ih all.2
    have first := all.1 frames _ after
    rw [Compared.term] at first
    rw [chainTokens, chainExprs, namesOutsideArgs, Compared.tokens, Compared.expr,
      append_assoc, append_assoc, ← later, ← first]
    exact ⟨arrowless_mark (by simp), unbound_passive rfl⟩

/-- The walk finds the names of a program in its tokens. -/
theorem Derivation.shows {level : Level} (d : Derivation level) : Shows d.tokens d.expr := by
  induction d using induction with
  | inward proper inner ih => exact ih
  | joined left sign right first second =>
    intro frames rest arrowless
    obtain ⟨passive, other⟩ := sign.passes
    rw [tokens, expr, Suffix.tokens, Suffix.extend, namesOutside_combine,
      append_assoc, append_assoc, ← second frames rest arrowless, cons_append,
      first frames _ (arrowless_cons other), unbound_passive passive]
  | called callee args function all =>
    intro frames rest arrowless
    rw [tokens, expr, Suffix.tokens, Suffix.extend, namesOutside,
      append_assoc, append_assoc, ← unbound_arguments all]
    simp only [delimited, cons_append, append_assoc, nil_append]
    rw [function frames (.mark .opening :: _) (arrowless_mark (by decide)), unbound_opening]
  | not operand ih | negative operand ih =>
    intro frames rest arrowless
    rw [tokens, expr, namesOutside, cons_append, unbound_passive rfl, ih frames rest arrowless]
  | chain first second more start all =>
    intro frames rest arrowless
    obtain ⟨after, later⟩ := unbound_chain all frames arrowless
    rw [chainTokens, append_assoc] at after later
    rw [tokens, expr, namesOutside, append_assoc, append_assoc,
      start frames _ after, later, chainExprs, append_assoc]
  | positive operand ih =>
    intro frames rest arrowless
    rw [tokens, expr, cons_append, unbound_passive rfl, ih frames rest arrowless]
  | power base exponent first second =>
    intro frames rest arrowless
    rw [tokens, expr, namesOutside, append_assoc, append_assoc,
      ← second frames rest arrowless, cons_append,
      first frames (.mark .power :: _) (arrowless_mark (by decide)), unbound_passive rfl]
  | number value =>
    intro frames rest arrowless
    rfl
  | name word =>
    intro frames rest arrowless
    rw [tokens, expr, namesOutside, singleton_append, unbound_name word arrowless]
    simp only [reduceOption_mem_iff]
  | group inside ih =>
    intro frames rest arrowless
    rw [tokens, expr, cons_append, cons_append, append_assoc, singleton_append, unbound_opening,
      ih (none :: frames) (.mark .closing :: rest) (arrowless_mark (by decide)), unbound_closing]
    rfl

/-! ## Neighbours -/

/-- Whether a token is an operand. -/
def Token.isOperand : Token → Bool
  | .number _ | .name _ => true
  | .keyword _ | .mark _ => false

/-- Whether a token is a name. -/
def Token.isWord : Token → Bool
  | .name _ => true
  | _ => false

/-- Tokens that can stand side by side in a program: not two operands, and an arrow after a name
only. -/
def Neighbours (first second : Token) : Prop :=
  (first.isOperand = true → second.isOperand = false) ∧
    (second = .mark .arrow → first.isWord = true)

/-- A row of neighbours that no arrow starts. -/
structure Tidy (row : List Token) : Prop where
  chain : row.IsChain Neighbours
  arrowless : Arrowless row

namespace Tidy

variable {row other : List Token} {token : Token}

theorem nil : Tidy [] := ⟨.nil, fun same => nomatch same⟩

theorem singleton (ordinary : token ≠ .mark .arrow) : Tidy [token] :=
  ⟨.singleton token, arrowless_cons ordinary⟩

/-- A token that is no operand in front of a row. -/
theorem cons (plain : token.isOperand = false) (ordinary : token ≠ .mark .arrow)
    (tidy : Tidy row) : Tidy (token :: row) := by
  refine ⟨isChain_cons.mpr ⟨fun next first => ⟨fun operand => ?_, fun arrow => ?_⟩, tidy.chain⟩,
    arrowless_cons ordinary⟩
  · rw [plain] at operand
    cases operand
  · subst arrow
    exact absurd first tidy.arrowless

/-- A token that is no operand between two rows. -/
theorem join (left : Tidy row) (plain : token.isOperand = false) (ordinary : token ≠ .mark .arrow)
    (right : Tidy other) : Tidy (row ++ token :: other) := by
  have after := right.cons plain ordinary
  refine ⟨isChain_append.mpr ⟨left.chain, after.chain, fun last _ next first => ?_⟩, ?_⟩
  · cases first
    exact ⟨fun _ => plain, fun arrow => absurd arrow ordinary⟩
  · cases row with
    | nil => exact after.arrowless
    | cons first row => exact left.arrowless

theorem enclosed (inside : Tidy row) : Tidy (.mark .opening :: (row ++ [.mark .closing])) :=
  .cons rfl (by simp) (inside.join rfl (by simp) .nil)

theorem intercalate {rows : List (List Token)} (all : ∀ row ∈ rows, Tidy row) :
    Tidy ([.mark .comma].intercalate rows) := by
  match rows with
  | [] => exact .nil
  | [row] =>
    rw [intercalate_singleton]
    exact all row (.head _)
  | row :: next :: rows =>
    rw [intercalate_cons_cons, append_assoc, singleton_append]
    exact (all row (.head _)).join rfl (by simp)
      (intercalate fun row member => all row (.tail _ member))

theorem passed {arg : Passed} (tidy : Tidy arg.phrase.tokens) : Tidy arg.tokens := by
  cases arg with
  | plain phrase => exact tidy
  | binder parameter body =>
    refine ⟨isChain_cons_cons.mpr ⟨⟨fun _ => rfl, fun _ => rfl⟩, ?_⟩, arrowless_cons (by simp)⟩
    refine isChain_cons.mpr ⟨fun next first => ⟨by simp [Token.isOperand], fun arrow => ?_⟩, tidy.chain⟩
    subst arrow
    exact absurd first tidy.arrowless

theorem compared {more : List Compared} (left : Tidy row)
    (all : ∀ next ∈ more, Tidy next.term.tokens) : Tidy (row ++ chainTokens more) := by
  induction more generalizing row with
  | nil =>
    rw [chainTokens, append_nil]
    exact left
  | cons next more ih =>
    obtain ⟨relation, term⟩ := next
    rw [forall_mem_cons] at all
    rw [chainTokens, Compared.tokens, ← append_assoc]
    exact ih (left.join rfl (by simp) all.1) all.2

end Tidy

/-- The tokens of a derivation are neighbours. -/
theorem Derivation.tidy {level : Level} (d : Derivation level) : Tidy d.tokens := by
  induction d using induction with
  | inward proper inner ih => exact ih
  | joined left sign right first second =>
    exact first.join (by cases sign <;> rfl) sign.passes.2 second
  | called callee args function all =>
    rw [tokens, Suffix.tokens, delimited, argumentTokens_eq]
    refine function.join rfl (by simp) (Tidy.join (.intercalate ?_) rfl (by simp) .nil)
    intro row member
    obtain ⟨arg, among, rfl⟩ := mem_map.mp member
    exact .passed (all arg among)
  | not operand ih | negative operand ih | positive operand ih => exact ih.cons rfl (by simp)
  | chain first second more start all =>
    rw [tokens, ← chainTokens]
    exact start.compared all
  | power base exponent first second => exact first.join rfl (by simp) second
  | number value | name word => exact .singleton (by simp)
  | group inside ih => exact ih.enclosed

/-- What the parser accepts is a row of neighbours, in which the walk finds the names that the
program looks up. -/
theorem walk_of_parseTokens {tokens : List Token} {program : Expr}
    (parsed : parseTokens tokens = .ok program) :
    Tidy tokens ∧ unbound [] tokens = program.namesOutside [] := by
  obtain ⟨d, rfl, rfl⟩ := exists_derivation parsed
  have shows := d.shows [] [] (nomatch ·)
  rw [append_nil] at shows
  exact ⟨d.tidy, shows.trans (append_nil _)⟩

end Grapher.Program
