import Grapher.Proofs.Program.Phrase
import Grapher.Proofs.Program.Scanning

/-!
# What a written program parses to

The program of a reading is written as a row of pieces. Here is the expression that the row parses
to, given on the reading itself (`expr`), and the proof that the parser finds it: the row is legible,
and its tokens are a phrase (`written`). All readings but one are phrases that can stand as a factor.
The exception is a quotient, whose two sides stand in parentheses but not the whole: as a factor
after the first it hands its numerator to the product on its left and divides all of that by its
denominator.
-/

set_option autoImplicit false

namespace Grapher

open Reading List Double Chain

namespace Reading.Term

/-- Whether the program of a reading is a quotient without parentheses around it. -/
def isBare : Term → Bool
  | .quotient _ _ => true
  | .connective _ [only] => only.isBare
  | _ => false

end Reading.Term

namespace Program

/-! ## The expression of a reading -/

/-- The expression of a number: one with digits, or the name of one without. -/
def numberExpr (value : Float) : Expr :=
  if value.isNaN then .name "NaN"
  else if value < 0 then
    .negate (if Double.isInfinite value then .name "Infinity" else .number (-value))
  else if Double.isInfinite value then .name "Infinity"
  else .number (if value == 0 then 0 else value)

/-- Expressions joined from left to right. -/
def leftFold (combine : Expr → Expr → Expr) : List Expr → Expr
  | [] => .number 0
  | first :: more => more.foldl combine first

/-- A product with one more factor; a bare quotient passes its numerator to the left. -/
def timesFactor (left : Expr) (bare : Bool) (factor : Expr) : Expr :=
  match bare, factor with
  | true, .arithmetic .divide a b => .arithmetic .divide (.arithmetic .multiply left a) b
  | _, factor => .arithmetic .multiply left factor

/-- Factors multiplied from left to right, each with a mark if it is a bare quotient. -/
def productExpr : List (Bool × Expr) → Expr
  | [] => .number 0
  | (_, first) :: more => more.foldl (fun left factor => timesFactor left factor.1 factor.2) first

/-- The conjunction of the links of a chain. -/
def chainExpr (terms : List Expr) (relations : List Relation) : Expr :=
  leftFold .and ((Chain.linksOf relations terms).map fun link =>
    .compare link.left [link.head] [link.right])

/-- What a connective makes of two expressions. -/
def connect : Connective → Expr → Expr → Expr
  | .and => .and
  | .or => .or

mutual

/-- The expression that the program of a reading parses to; `here` is the default variable. -/
def expr (here : String) : Term → Expr
  | .number value => numberExpr value
  | .symbol name => .name (resolveConstant name)
  | .joined .add args => leftFold (.arithmetic .add) (exprArgs here args)
  | .joined .subtract args => leftFold (.arithmetic .subtract) (exprArgs here args)
  | .joined .multiply args => productExpr (exprFactors here args)
  | .product factors => productExpr (exprFactors here factors)
  | .quotient numerator denominator =>
    .arithmetic .divide (expr here numerator) (expr here denominator)
  | .power base exponent => .arithmetic .power (expr here base) (expr here exponent)
  | .negate operand => .negate (expr here operand)
  | .elementary function args =>
    .call (.name ((function.programName? args.length).getD "")) (exprArgs here args)
  | .chain terms relations => chainExpr (exprArgs here terms) relations
  | .connective connective args => leftFold (connect connective) (exprArgs here args)
  | .not operand => .not (expr here operand)
  | .derivative function args => .call (.name (derivativeName function)) (exprArgs here args)
  | .derivativeHere function => .call (.name (derivativeName function)) [.name here]
  | .call function args => .call (.name function) (exprArgs here args)
  | .integral name body lower upper =>
    .call (.name integralName) [.binder name (expr here body), expr here lower, expr here upper]

/-- The expressions of arguments. -/
def exprArgs (here : String) : List Term → List Expr
  | [] => []
  | term :: terms => expr here term :: exprArgs here terms

/-- The expressions of factors, with a mark for each bare quotient. -/
def exprFactors (here : String) : List Term → List (Bool × Expr)
  | [] => []
  | term :: terms => (term.isBare, expr here term) :: exprFactors here terms

end

theorem exprArgs_eq_map (here : String) (terms : List Term) :
    exprArgs here terms = terms.map (expr here) := by
  induction terms with
  | nil => rfl
  | cons term terms ih => rw [exprArgs, ih, map_cons]

theorem exprFactors_eq_map (here : String) (terms : List Term) :
    exprFactors here terms = terms.map fun term => (term.isBare, expr here term) := by
  induction terms with
  | nil => rfl
  | cons term terms ih => rw [exprFactors, ih, map_cons]

theorem piecesArgs_eq_map (here : String) (terms : List Term) :
    piecesArgs here terms = terms.map (pieces here) := by
  induction terms with
  | nil => rfl
  | cons term terms ih => rw [piecesArgs, ih, map_cons]

/-! ## Readings that can be written -/

/-- A word that the scanner finds as a name. -/
structure IsWord (word : String) : Prop where
  named : isName word = true
  ascii : isAscii word = true

mutual

/-- A reading whose names are of ASCII characters and whose rows of parts are as long as they
should be. -/
def Writable : Term → Prop
  | .number _ => True
  | .symbol name => IsWord (resolveConstant name)
  | .joined _ args => args ≠ [] ∧ WritableArgs args
  | .product factors => factors ≠ [] ∧ WritableArgs factors
  | .quotient numerator denominator => Writable numerator ∧ Writable denominator
  | .power base exponent => Writable base ∧ Writable exponent
  | .negate operand => Writable operand
  | .elementary function args =>
    (function.programName? args.length).isSome = true ∧ WritableArgs args
  | .chain terms relations =>
    relations ≠ [] ∧ terms.length = relations.length + 1 ∧ WritableArgs terms
  | .connective _ args => args ≠ [] ∧ WritableArgs args
  | .not operand => Writable operand
  | .derivative function args => IsWord function ∧ WritableArgs args
  | .derivativeHere function => IsWord function
  | .call function args => IsWord function ∧ WritableArgs args
  | .integral name body lower upper => IsWord name ∧ Writable body ∧ Writable lower ∧ Writable upper

/-- The same of all readings of a list. -/
def WritableArgs : List Term → Prop
  | [] => True
  | term :: terms => Writable term ∧ WritableArgs terms

end

theorem isWord_programName {function : Elementary} {count : Nat} {name : String}
    (found : function.programName? count = some name) : IsWord name := by
  unfold Elementary.programName? at found
  split at found <;> cases found <;> exact ⟨by decide, by decide⟩

theorem isIdentifier_of_isName {word : String} (named : isName word = true) :
    Text.isIdentifier word = true := by
  rw [isName, Bool.and_eq_true] at named
  exact named.1

theorem toList_derivativeName (function : String) :
    (derivativeName function).toList = 'd' :: ("erivative_".toList ++ function.toList) := by
  simp [derivativeName]

theorem isIdentifier_derivativeName {function : String}
    (identifier : Text.isIdentifier function = true) :
    Text.isIdentifier (derivativeName function) = true := by
  have first : ∀ c ∈ "erivative_".toList, Text.isIdentifierRest c = true := by decide
  unfold Text.isIdentifier
  rw [toList_derivativeName]
  simp only [Bool.and_eq_true, all_eq_true]
  exact ⟨by decide, forall_mem_append.mpr
    ⟨first, Text.isIdentifierRest_of_isIdentifier identifier⟩⟩

theorem isWord_derivativeName {function : String} (word : IsWord function) :
    IsWord (derivativeName function) := by
  refine ⟨?_, ?_⟩
  · have long : 11 ≤ (derivativeName function).toList.length := by
      rw [toList_derivativeName]
      simp
    rw [isName, Bool.and_eq_true, Bool.not_eq_true']
    refine ⟨isIdentifier_derivativeName (isIdentifier_of_isName word.named), ?_⟩
    -- the connective words are shorter
    rw [contains_eq_any_beq, any_eq_false]
    intro word member
    simp only [beq_iff_eq]
    rintro rfl
    simp only [connectiveWords, mem_cons, not_mem_nil, or_false] at member
    rcases member with equal | equal | equal <;> rw [equal] at long <;> revert long <;> decide
  · have small : ∀ c ∈ function.toList, c.toNat < 128 := by
      simpa [isAscii] using word.ascii
    simp only [isAscii, toList_derivativeName, all_eq_true, mem_cons, mem_append, decide_eq_true_eq]
    rintro c (rfl | early | late)
    · decide
    · revert c
      decide
    · exact small c late

/-! ## The tokens of rows -/

@[simp] theorem piecesTokens_enclosed (row : List Piece) :
    piecesTokens (enclosed row) = .mark .opening :: piecesTokens row ++ [.mark .closing] := by
  simp [enclosed, markPiece]

theorem piecesTokens_separated (separator : Token) (first : List Piece)
    (more : List (List Piece)) :
    piecesTokens (separated separator (first :: more))
      = piecesTokens first ++ more.flatMap fun part => separator :: piecesTokens part := by
  induction more generalizing first with
  | nil => simp [separated]
  | cons second more ih =>
    have unfolded : separated separator (first :: second :: more)
        = first ++ ([.blank, .token separator, .blank] ++ separated separator (second :: more)) := by
      simp [separated, intercalate_cons_cons]
    rw [unfolded, piecesTokens_append, piecesTokens_append, ih]
    simp

theorem piecesTokens_listed (parts : List (List Piece)) :
    piecesTokens ([markPiece .comma, .blank].intercalate parts)
      = [Token.mark .comma].intercalate (parts.map piecesTokens) := by
  match parts with
  | [] => rfl
  | [only] => simp
  | first :: second :: more =>
    have rest := piecesTokens_listed (second :: more)
    simp only [map_cons, markPiece] at rest
    simp [intercalate_cons_cons, markPiece, rest]

theorem piecesTokens_callPieces (name : String) (args : List (List Piece)) :
    piecesTokens (callPieces name args)
      = .name name :: .mark .opening ::
        ([Token.mark .comma].intercalate (args.map piecesTokens) ++ [.mark .closing]) := by
  simp [callPieces, namePiece, piecesTokens_listed]

/-! ## Factors -/

/-- The two forms of a written reading: a bare quotient of operands, or a phrase that can stand as a
factor. -/
inductive Shape : Bool → List Token → Expr → Prop where
  | tight {tokens : List Token} {expr : Expr} (phrase : Phrase .signed tokens expr) :
      Shape false tokens expr
  | quotient {left right : List Token} {a b : Expr} (numerator : Phrase .operand left a)
      (denominator : Phrase .operand right b) :
      Shape true (left ++ .mark .divide :: right) (.arithmetic .divide a b)

/-- Tokens of factors joined by times and division. -/
abbrev Factored : List Token → Expr → Prop := LaidOut .product

theorem Shape.factored {bare : Bool} {tokens : List Token} {expr : Expr}
    (shape : Shape bare tokens expr) : Factored tokens expr := by
  cases shape with
  | tight phrase => exact .inward phrase
  | quotient numerator denominator =>
    exact (LaidOut.inward (numerator.loosen (by decide))).extended
      (.joined .divide (denominator.loosen (by decide)))

/-- One more factor after a times. -/
theorem Factored.times {tokens more : List Token} {left factor : Expr} {bare : Bool}
    (factored : Factored tokens left) (shape : Shape bare more factor) :
    Factored (tokens ++ .mark .times :: more) (timesFactor left bare factor) := by
  cases shape with
  | tight phrase => exact factored.extended (.joined .times phrase)
  | quotient first second =>
    have times := factored.extended (.joined .times (first.loosen (by decide)))
    have divided := times.extended (.joined .divide (second.loosen (by decide)))
    simpa [timesFactor] using divided

/-- Factors after a times each. -/
theorem Factored.product {α : Type} {rows : α → List Token} {bare : α → Bool} {exprs : α → Expr}
    {items : List α} (shapes : ∀ item ∈ items, Shape (bare item) (rows item) (exprs item))
    {tokens : List Token} {left : Expr} (factored : Factored tokens left) :
    Factored (tokens ++ items.flatMap fun item => .mark .times :: rows item)
      (items.foldl (fun left item => timesFactor left (bare item) (exprs item)) left) := by
  induction items generalizing tokens left with
  | nil => simpa using factored
  | cons item items ih =>
    have first := factored.times (shapes item (.head _))
    have rest := ih (fun other member => shapes other (.tail _ member)) first
    simpa using rest

/-! ## The program of a reading -/

/-- The row of a reading is legible and parses to its expression. -/
structure Written (here : String) (term : Term) : Prop where
  legible : Legible (pieces here term)
  shape : Shape term.isBare (piecesTokens (pieces here term)) (expr here term)

theorem Written.phrase {here : String} {term : Term} (written : Written here term) :
    Phrase .product (piecesTokens (pieces here term)) (expr here term) :=
  written.shape.factored.phrase

theorem Written.argument {here : String} {term : Term} (written : Written here term) :
    Argument (piecesTokens (pieces here term)) (expr here term) :=
  .phrase (written.phrase.loosen (by decide))

/-- A legible row that is an operand. -/
theorem Written.of_operand {here : String} {term : Term} (legible : Legible (pieces here term))
    (whole : term.isBare = false)
    (phrase : Phrase .operand (piecesTokens (pieces here term)) (expr here term)) :
    Written here term := by
  refine ⟨legible, ?_⟩
  rw [whole]
  exact .tight (phrase.loosen (by decide))

/-- A row in parentheses is an operand. -/
theorem phrase_enclosed {level : Level} {row : List Piece} {e : Expr}
    (phrase : Phrase level (piecesTokens row) e) : Phrase .operand (piecesTokens (enclosed row)) e := by
  rw [piecesTokens_enclosed]
  exact (phrase.loosen (Nat.zero_le _)).group

/-- Rows with the joint of a level between them. -/
theorem phrase_separated {level : Level} {joint : Token} {combine : Expr → Expr → Expr}
    (joins : Joint level joint combine) {α : Type} {rows : α → List Piece} {exprs : α → Expr}
    {items : List α} (some : items ≠ [])
    (phrases : ∀ item ∈ items, Phrase level.inner (piecesTokens (rows item)) (exprs item)) :
    Phrase level (piecesTokens (separated joint (items.map rows)))
      (leftFold combine (items.map exprs)) := by
  cases items with
  | nil => exact absurd rfl some
  | cons first more =>
    rw [map_cons, map_cons, piecesTokens_separated]
    have joined := @Phrase.extended level _ _
      (more.map fun item => (joint :: piecesTokens (rows item), (combine · (exprs item))))
      (phrases first (.head _)) (forall_mem_map.mpr fun item among =>
        .joined joins (phrases item (.tail _ among)))
    simpa [Suffixes.tokens, Suffixes.fold, leftFold, flatMap_map, foldl_map] using joined

theorem Legible.pair {separator : Token} {a b : List Piece} (spelled : separator.IsSpelled)
    (first : Legible a) (second : Legible b) : Legible (Program.separated separator [a, b]) :=
  .separated spelled (cons_ne_nil _ _) (forall_mem_cons.mpr ⟨first, forall_mem_singleton.mpr second⟩)

/-- A call of a function by its name. -/
theorem written_call {here name : String} {term : Term} {args : List (List Piece × Expr)}
    (row : pieces here term = callPieces name (args.map (·.1)))
    (call : expr here term = .call (.name name) (args.map (·.2))) (whole : term.isBare = false)
    (word : IsWord name)
    (all : ∀ arg ∈ args, Legible arg.1 ∧ Argument (piecesTokens arg.1) arg.2) :
    Written here term := by
  refine ⟨?_, ?_⟩
  · rw [row]
    exact .callPieces word.named word.ascii (forall_mem_map.mpr fun arg among => (all arg among).1)
  · rw [row, call, whole, piecesTokens_callPieces]
    have phrase := @Phrase.call name (args.map fun arg => (piecesTokens arg.1, arg.2))
      (forall_mem_map.mpr fun arg among => (all arg among).2)
    simp only [map_map, Function.comp_def] at phrase ⊢
    exact .tight (phrase.loosen (by decide))

-- all proofs below rewrite with the equations of rows and expressions, so they are made first
attribute [local grind =] pieces expr

theorem isSpelled_negated {value : Float} (negative : value < 0)
    (finite : ¬ isInfinite value = true) : (Token.number (-value)).IsSpelled := by
  obtain ⟨sign, -, bound⟩ := (lt_zero_iff value).mp negative
  obtain ⟨magnitude, flipped⟩ := bits_neg bound
  simp only [isInfinite, beq_iff_eq] at finite
  refine ⟨by rw [flipped, sign]; rfl, ?_⟩
  simp only [isFinite, magnitude, decide_eq_true_eq]
  omega

theorem isSpelled_magnitude {value : Float} (defined : ¬ value.isNaN = true)
    (nonnegative : ¬ value < 0) (finite : ¬ isInfinite value = true) :
    (Token.number (if value == 0 then 0 else value)).IsSpelled := by
  rw [isNaN_iff] at defined
  rw [lt_zero_iff] at nonnegative
  simp only [isInfinite, beq_iff_eq] at finite
  split
  · exact ⟨by decide, by decide⟩
  · next nonzero =>
    have positive : magnitudeBits value ≠ 0 := fun zero =>
      nonzero ((beq_zero_iff value).mpr zero)
    refine ⟨?_, ?_⟩
    · cases sign : isNegative value with
      | false => rfl
      | true => exact absurd ⟨sign, by omega, by omega⟩ nonnegative
    · simp only [isFinite, decide_eq_true_eq]
      omega

/-- A minus ends before a numeral. -/
theorem minus_endsAt_number {value : Float} (spelled : (Token.number value).IsSpelled)
    (rest : List Char) :
    (Token.mark .minus).EndsAt (pieceChars [.token (.number value)] ++ rest) := by
  obtain ⟨d, numeral, -⟩ := Decimal.numeral_numberText spelled.1 spelled.2
  obtain ⟨first, more, text, digit⟩ := Decimal.startsNumeral_of_numeral numeral
  have chars : pieceChars [.token (.number value)] ++ rest = first :: (more ++ rest) := by
    simp [pieceChars, Piece.text, Token.text, numberText, text]
  rw [chars]
  intro c member grows
  cases member
  cases grows
  exact absurd digit (by decide)

theorem written_number (here : String) (value : Float) : Written here (.number value) := by
  have nan : IsWord "NaN" := ⟨by decide, by decide⟩
  have infinity : IsWord "Infinity" := ⟨by decide, by decide⟩
  have named : ∀ {word : String}, IsWord word → Legible [namePiece word] :=
    fun word => @Legible.token (.name _) ⟨word.named, word.ascii⟩
  refine .of_operand ?_ rfl ?_
  · rw [pieces]
    unfold numberPieces
    split
    · exact named nan
    · next defined =>
      split
      · next negative =>
        refine .enclosed (.inr ?_)
        split
        · refine @Legible.cons (.mark .minus) _ trivial (fun rest => ?_) (named infinity)
          intro c member grows
          cases member
          cases grows
        · next finite =>
          have spelled := isSpelled_negated negative finite
          exact @Legible.cons (.mark .minus) _ trivial (minus_endsAt_number spelled)
            (.token spelled)
      · next nonnegative =>
        split
        · exact named infinity
        · next finite => exact .token (isSpelled_magnitude defined nonnegative finite)
  · rw [pieces, expr]
    unfold numberPieces numberExpr
    split
    · exact .name "NaN"
    · split
      · refine @phrase_enclosed .signed _ _ ?_
        split
        · exact ((Phrase.name "Infinity").loosen (by decide)).negate
        · exact ((Phrase.number (-value)).loosen (by decide)).negate
      · split
        · exact .name "Infinity"
        · exact .number _

/-- A quotient of which both sides stand in parentheses. -/
theorem written_quotient {here : String} {a b : Term} (first : Written here a)
    (second : Written here b) : Written here (.quotient a b) := by
  refine ⟨?_, ?_⟩
  · rw [pieces]
    exact .pair trivial (.enclosed (.inr first.legible)) (.enclosed (.inr second.legible))
  · rw [pieces, expr, piecesTokens_separated, flatMap_cons, flatMap_nil, append_nil]
    exact .quotient (phrase_enclosed first.phrase) (phrase_enclosed second.phrase)

theorem written_power {here : String} {a b : Term} (first : Written here a)
    (second : Written here b) : Written here (.power a b) := by
  refine ⟨?_, ?_⟩
  · rw [pieces]
    exact .pair trivial (.enclosed (.inr first.legible)) (.enclosed (.inr second.legible))
  · rw [pieces, expr, piecesTokens_separated, flatMap_cons, flatMap_nil, append_nil]
    have power := Phrase.power ((phrase_enclosed first.phrase).loosen (by decide))
      ((phrase_enclosed second.phrase).loosen (by decide))
    exact .tight (power.loosen (by decide))

theorem written_negate {here : String} {a : Term} (only : Written here a) :
    Written here (.negate a) := by
  refine ⟨?_, ?_⟩
  · rw [pieces]
    refine @Legible.cons (.mark .minus) _ trivial (fun rest => ?_) (.enclosed (.inr only.legible))
    exact (Stops.cons (by decide)).endsAt _
  · rw [pieces, expr]
    exact .tight ((phrase_enclosed only.phrase).loosen (by decide)).negate

theorem written_not {here : String} {a : Term} (only : Written here a) :
    Written here (.not a) := by
  refine .of_operand ?_ rfl ?_
  · rw [pieces]
    exact .enclosed (.inr (.consBlank trivial only.legible))
  · rw [pieces, expr]
    exact @phrase_enclosed .not _ _ (only.phrase.loosen (by decide)).not

section Rows

variable {here : String} {terms : List Term}

theorem legible_pieces (all : ∀ term ∈ terms, Written here term) :
    ∀ part ∈ piecesArgs here terms, Legible part := by
  rw [piecesArgs_eq_map]
  exact forall_mem_map.mpr fun term among => (all term among).legible

/-- The row of joined operands in parentheses. -/
theorem legible_joined {separator : Token} (spelled : separator.IsSpelled) (some : terms ≠ [])
    (all : ∀ term ∈ terms, Written here term) :
    Legible (enclosed (separated separator (piecesArgs here terms))) := by
  refine .enclosed (.inr (.separated spelled ?_ (legible_pieces all)))
  rw [piecesArgs_eq_map]
  simpa using some

theorem phrase_joined {level : Level} {joint : Token} {combine : Expr → Expr → Expr}
    (joins : Joint level joint combine) (loose : level.inner.index ≤ Level.index .product)
    (some : terms ≠ []) (all : ∀ term ∈ terms, Written here term) :
    Phrase .operand (piecesTokens (enclosed (separated joint (piecesArgs here terms))))
      (leftFold combine (exprArgs here terms)) := by
  rw [piecesArgs_eq_map, exprArgs_eq_map]
  exact phrase_enclosed (phrase_separated joins some fun term member =>
    (all term member).phrase.loosen loose)

/-- The row of a product in parentheses. -/
theorem phrase_product (some : terms ≠ []) (all : ∀ term ∈ terms, Written here term) :
    Phrase .operand (piecesTokens (enclosed (separated (.mark .times) (piecesArgs here terms))))
      (productExpr (exprFactors here terms)) := by
  rw [piecesArgs_eq_map, exprFactors_eq_map]
  cases terms with
  | nil => exact absurd rfl some
  | cons first more =>
    refine @phrase_enclosed .product _ _ ?_
    rw [map_cons, map_cons, piecesTokens_separated]
    have factored := (all first (.head _)).shape.factored.product
      (fun term member => (all term (.tail _ member)).shape)
    simpa [productExpr, flatMap_map, foldl_map] using factored.phrase

/-- The arguments of a call by a list of readings. -/
theorem written_callArgs {name : String} {term : Term}
    (row : pieces here term = callPieces name (piecesArgs here terms))
    (call : expr here term = .call (.name name) (exprArgs here terms))
    (whole : term.isBare = false) (word : IsWord name)
    (all : ∀ term ∈ terms, Written here term) : Written here term := by
  rw [piecesArgs_eq_map] at row
  rw [exprArgs_eq_map] at call
  refine @written_call here name term (terms.map fun term => (pieces here term, expr here term))
    (by simpa [Function.comp_def] using row) (by simpa [Function.comp_def] using call) whole word ?_
  exact forall_mem_map.mpr fun term among => ⟨(all term among).legible, (all term among).argument⟩

end Rows

/-- The links of a chain with as many relations as there are gaps. -/
theorem linksOf_ne_nil {Term Bond : Type} {relations : List Bond} {terms : List Term}
    (some : relations ≠ []) (count : terms.length = relations.length + 1) :
    linksOf relations terms ≠ [] := by
  match relations, terms with
  | [], _ => exact absurd rfl some
  | _ :: _, [] => simp at count
  | _ :: _, [only] => simp at count
  | _ :: _, _ :: _ :: _ => simp [linksOf]

theorem linksOf_map {Term Other Bond : Type} (f : Term → Other) (relations : List Bond)
    (terms : List Term) :
    linksOf relations (terms.map f)
      = (linksOf relations terms).map fun link => ⟨link.head, f link.left, f link.right⟩ := by
  match relations, terms with
  | [], _ => simp [linksOf]
  | _ :: _, [] => simp [linksOf]
  | _ :: _, [only] => simp [linksOf]
  | relation :: relations, first :: second :: terms =>
    have rest := linksOf_map f relations (second :: terms)
    simp only [map_cons] at rest
    simp [linksOf, rest]

theorem mem_linksOf {Term Bond : Type} {relations : List Bond} {terms : List Term}
    {link : Link Term Bond} (member : link ∈ linksOf relations terms) :
    link.left ∈ terms ∧ link.right ∈ terms := by
  fun_induction linksOf relations terms with
  | case1 relation relations first second terms ih =>
    rcases mem_cons.mp member with rfl | later
    · simp
    · exact ⟨.tail _ (ih later).1, .tail _ (ih later).2⟩
  | case2 relations terms short => cases member

/-- The row of a link. -/
def linkPieces (here : String) (link : Link Term Relation) : List Piece :=
  enclosed (separated (.mark (.relation link.head)) [pieces here link.left, pieces here link.right])

/-- The expression of a link. -/
def linkExpr (here : String) (link : Link Term Relation) : Expr :=
  .compare (expr here link.left) [link.head] [expr here link.right]

theorem legible_link {here : String} {link : Link Term Relation} (left : Written here link.left)
    (right : Written here link.right) : Legible (linkPieces here link) :=
  .enclosed (.inr (.pair trivial left.legible right.legible))

theorem phrase_link {here : String} {link : Link Term Relation} (left : Written here link.left)
    (right : Written here link.right) :
    Phrase .operand (piecesTokens (linkPieces here link)) (linkExpr here link) := by
  refine @phrase_enclosed .comparison _ _ ?_
  rw [piecesTokens_separated]
  exact @Phrase.chain _ _ [⟨link.head, _, _⟩] (cons_ne_nil _ _) (left.phrase.loosen (by decide))
    (forall_mem_singleton.mpr (right.phrase.loosen (by decide)))

theorem chainPieces_eq (here : String) (terms : List Term) (relations : List Relation) :
    chainPieces (piecesArgs here terms) relations
      = match (linksOf relations terms).map (linkPieces here) with
        | [link] => link
        | links => enclosed (separated (.keyword .and) links) := by
  unfold chainPieces
  rw [piecesArgs_eq_map, linksOf_map, map_map]
  rfl

theorem chainExpr_eq (here : String) (terms : List Term) (relations : List Relation) :
    chainExpr (exprArgs here terms) relations
      = leftFold .and ((linksOf relations terms).map (linkExpr here)) := by
  unfold chainExpr
  rw [exprArgs_eq_map, linksOf_map, map_map]
  rfl

theorem written_chain {here : String} {terms : List Term} {relations : List Relation}
    (some : relations ≠ []) (count : terms.length = relations.length + 1)
    (all : ∀ term ∈ terms, Written here term) : Written here (.chain terms relations) := by
  have sides : ∀ link ∈ linksOf relations terms,
      Written here link.left ∧ Written here link.right := fun link member =>
    ⟨all _ (mem_linksOf member).1, all _ (mem_linksOf member).2⟩
  have nonempty := linksOf_ne_nil some count
  generalize same : linksOf relations terms = links at sides nonempty
  have row : pieces here (.chain terms relations)
      = match links.map (linkPieces here) with
        | [link] => link
        | links => enclosed (separated (.keyword .and) links) := by
    rw [pieces, chainPieces_eq, same]
  have program : expr here (.chain terms relations) = leftFold .and (links.map (linkExpr here)) := by
    rw [expr, chainExpr_eq, same]
  match links with
  | [] => exact absurd rfl nonempty
  | [only] =>
    obtain ⟨left, right⟩ := sides only (.head _)
    refine .of_operand ?_ rfl ?_
    · rw [row]
      exact legible_link left right
    · rw [row, program]
      exact phrase_link left right
  | first :: second :: more =>
    refine .of_operand ?_ rfl ?_
    · rw [row]
      refine .enclosed (.inr (.separated trivial (cons_ne_nil _ _) ?_))
      exact forall_mem_map.mpr fun link among => legible_link (sides link among).1 (sides link among).2
    · rw [row, program]
      exact phrase_enclosed (phrase_separated .and nonempty fun link member =>
        (phrase_link (sides link member).1 (sides link member).2).loosen (by decide))

/-- Conditions joined by a connective; a single one stands for itself. -/
theorem written_connective {here : String} {terms : List Term} (connective : Connective)
    (some : terms ≠ []) (all : ∀ term ∈ terms, Written here term) :
    Written here (.connective connective terms) := by
  match terms with
  | [] => exact absurd rfl some
  | [only] =>
    obtain ⟨legible, shape⟩ := all only (.head _)
    refine ⟨?_, ?_⟩
    · rw [pieces, piecesArgs_eq_map]
      exact legible
    · rw [pieces, piecesArgs_eq_map, expr, exprArgs_eq_map]
      exact shape
  | first :: second :: more =>
    have row : pieces here (.connective connective (first :: second :: more))
        = enclosed (separated (.keyword (connectiveKeyword connective))
          (piecesArgs here (first :: second :: more))) := by
      rfl
    refine .of_operand ?_ rfl ?_
    · rw [row]
      exact legible_joined trivial some all
    · rw [row, expr]
      cases connective with
      | and => exact phrase_joined .and (by decide) some all
      | or => exact phrase_joined .or (by decide) some all

mutual

/-- The program of a reading is legible and parses to its expression. -/
theorem written {here : String} (default : IsWord here) :
    ∀ {term : Term}, Writable term → Written here term
  | .number value, _ => written_number here value
  | .symbol name, writable => by
    refine .of_operand ?_ rfl ?_
    · rw [pieces]
      exact @Legible.token (.name _) ⟨writable.named, writable.ascii⟩
    · rw [pieces, expr]
      exact .name _
  | .joined joiner args, writable => by
    obtain ⟨some, all⟩ := writable
    have all := writtenArgs default all
    refine .of_operand ?_ rfl ?_
    · rw [pieces]
      exact legible_joined trivial some all
    · rw [pieces]
      cases joiner with
      | add => rw [expr]; exact phrase_joined .plus (by decide) some all
      | subtract => rw [expr]; exact phrase_joined .minus (by decide) some all
      | multiply => rw [expr]; exact phrase_product some all
  | .product factors, writable => by
    obtain ⟨some, all⟩ := writable
    have all := writtenArgs default all
    refine .of_operand ?_ rfl ?_
    · rw [pieces]
      exact legible_joined trivial some all
    · rw [pieces, expr]
      exact phrase_product some all
  | .quotient numerator denominator, writable => by
    exact written_quotient (written default writable.1) (written default writable.2)
  | .power base exponent, writable => by
    exact written_power (written default writable.1) (written default writable.2)
  | .negate operand, writable => by exact written_negate (written default writable)
  | .elementary function args, writable => by
    obtain ⟨takes, all⟩ := writable
    obtain ⟨name, found⟩ := Option.isSome_iff_exists.mp takes
    refine written_callArgs (by rw [pieces]) (by rw [expr]) rfl ?_ (writtenArgs default all)
    rw [found]
    exact isWord_programName found
  | .chain terms relations, writable => by
    obtain ⟨some, count, all⟩ := writable
    exact written_chain some count (writtenArgs default all)
  | .connective connective args, writable => by
    obtain ⟨some, all⟩ := writable
    exact written_connective connective some (writtenArgs default all)
  | .not operand, writable => by exact written_not (written default writable)
  | .derivative function args, writable => by
    exact written_callArgs (by rw [pieces]) (by rw [expr]) rfl (isWord_derivativeName writable.1)
      (writtenArgs default writable.2)
  | .derivativeHere function, writable => by
    refine @written_call here (derivativeName function) _ [([namePiece here], .name here)]
      (by rw [pieces]; rfl) (by rw [expr]; rfl) rfl (isWord_derivativeName writable) ?_
    exact forall_mem_singleton.mpr ⟨@Legible.token (.name here) ⟨default.named, default.ascii⟩,
      .phrase ((Phrase.name here).loosen (by decide))⟩
  | .call function args, writable => by
    exact written_callArgs (by rw [pieces]) (by rw [expr]) rfl writable.1
      (writtenArgs default writable.2)
  | .integral name body lower upper, writable => by
    obtain ⟨word, inside, low, high⟩ := writable
    have inside := written default inside
    have low := written default low
    have high := written default high
    refine @written_call here integralName _
      [(namePiece name :: .blank :: markPiece .arrow :: .blank :: pieces here body,
        .binder name (expr here body)), (pieces here lower, expr here lower),
        (pieces here upper, expr here upper)]
      (by rw [pieces]; rfl) (by rw [expr]; rfl) rfl ⟨by decide, by decide⟩ ?_
    have binder := @Legible.consBlank (.name name) _ ⟨word.named, word.ascii⟩
      (@Legible.consBlank (.mark .arrow) _ trivial inside.legible)
    exact forall_mem_cons.mpr ⟨⟨binder, .binder name (inside.phrase.loosen (by decide))⟩,
      forall_mem_cons.mpr ⟨⟨low.legible, low.argument⟩,
        forall_mem_singleton.mpr ⟨high.legible, high.argument⟩⟩⟩

theorem writtenArgs {here : String} (default : IsWord here) :
    ∀ {terms : List Term}, WritableArgs terms → ∀ term ∈ terms, Written here term
  | [], _ => by simp
  | first :: rest, writable => by
    exact forall_mem_cons.mpr ⟨written default writable.1, writtenArgs default writable.2⟩

end

/-- The program text of a writable reading parses to its expression. -/
theorem parse_pieces {here : String} (default : IsWord here) {term : Term}
    (writable : Writable term) : parse (piecesText (pieces here term)) = .ok (expr here term) := by
  have done := written default writable
  rw [parse_piecesText done.legible]
  exact parseTokens_phrase (done.phrase.loosen (by decide))

end Program

end Grapher
