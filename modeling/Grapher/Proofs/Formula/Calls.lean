import Grapher.Proofs.Formula.Derivative
import Grapher.Proofs.Program.Preservation

/-!
# Calls in programs

A program calls functions by their names only: nothing that is written for a tree puts parentheses
behind the end of a call, of a group or of a number (`callsByName_expr`). In a juxtaposition the
choice between a call and a product is made for each place on its own, so a primed name in front of a
group is one call of the derivative, between the factors that the trees before and behind it make
(`factors_split`), and what is written for the juxtaposition stands unchanged in the program of the
tree around it (`placed_of_read`).
-/

set_option autoImplicit false

namespace Grapher

open Reading Program List Node

/-! ## Callees -/

namespace Program

namespace Expr

mutual

/-- Whether all calls in a program are of functions that stand there by their names. -/
def callsByName : Expr → Bool
  | .number _ | .name _ => true
  | .negate operand | .not operand | .binder _ operand => operand.callsByName
  | .arithmetic _ left right | .and left right | .or left right =>
    left.callsByName && right.callsByName
  | .compare first _ others => first.callsByName && callsByNameArgs others
  | .call (.name _) args => callsByNameArgs args
  | .call _ _ => false

/-- The same of several programs. -/
def callsByNameArgs : List Expr → Bool
  | [] => true
  | e :: es => e.callsByName && callsByNameArgs es

end

theorem callsByNameArgs_iff {es : List Expr} :
    callsByNameArgs es = true ↔ ∀ e ∈ es, e.callsByName = true := by
  induction es with
  | nil => simp [callsByNameArgs]
  | cons e es ih => rw [callsByNameArgs, Bool.and_eq_true, ih, forall_mem_cons]

end Expr

variable {here : String}

theorem callsByName_leftFold {combine : Expr → Expr → Expr} {es : List Expr}
    (step : ∀ a b, a.callsByName = true → b.callsByName = true → (combine a b).callsByName = true)
    (all : ∀ e ∈ es, e.callsByName = true) : (leftFold combine es).callsByName = true := by
  cases es with
  | nil => rfl
  | cons first more =>
    obtain ⟨start, rest⟩ := forall_mem_cons.mp all
    exact foldlRecOn more combine start fun a left b member => step a b left (rest b member)

theorem callsByName_timesFactor {left factor : Expr} (bare : Bool)
    (first : left.callsByName = true) (second : factor.callsByName = true) :
    (timesFactor left bare factor).callsByName = true := by
  unfold timesFactor
  split
  · rw [Expr.callsByName, Bool.and_eq_true] at second
    simp only [Expr.callsByName, first, second, Bool.and_self]
  · rw [Expr.callsByName, first, second, Bool.and_self]

theorem callsByName_productExpr {factors : List (Bool × Expr)}
    (all : ∀ factor ∈ factors, factor.2.callsByName = true) :
    (productExpr factors).callsByName = true := by
  cases factors with
  | nil => rfl
  | cons first more =>
    obtain ⟨start, rest⟩ := forall_mem_cons.mp all
    exact foldlRecOn (motive := fun e : Expr => e.callsByName = true) more _ start
      fun a left b member => callsByName_timesFactor b.1 left (rest b member)

theorem callsByName_numberExpr (value : Float) : (numberExpr value).callsByName = true := by
  unfold numberExpr
  split
  · rfl
  · split
    · rw [Expr.callsByName]
      split <;> rfl
    · split <;> rfl

theorem callsByName_chainExpr {terms : List Expr} (relations : List Relation)
    (all : ∀ e ∈ terms, e.callsByName = true) : (chainExpr terms relations).callsByName = true := by
  refine callsByName_leftFold (fun a b left right => ?_) fun e member => ?_
  · rw [Expr.callsByName, left, right, Bool.and_self]
  · obtain ⟨link, among, rfl⟩ := mem_map.mp member
    obtain ⟨left, right⟩ := mem_linksOf among
    rw [Expr.callsByName, Expr.callsByNameArgs, Expr.callsByNameArgs, all _ left, all _ right]
    rfl

theorem callsByName_exprFactors {terms : List Term}
    (all : ∀ e ∈ exprArgs here terms, e.callsByName = true) :
    ∀ factor ∈ exprFactors here terms, factor.2.callsByName = true := by
  rw [exprArgs_eq_map] at all
  rw [exprFactors_eq_map]
  intro factor member
  obtain ⟨term, among, rfl⟩ := mem_map.mp member
  exact all _ (mem_map_of_mem among)

mutual

/-- The program of a reading calls functions by their names. -/
theorem callsByName_expr : ∀ term : Term, (expr here term).callsByName = true
  | .number value => by rw [expr]; exact callsByName_numberExpr value
  | .symbol _ | .derivativeHere _ => by
    simp only [expr, Expr.callsByName, Expr.callsByNameArgs, Bool.and_self]
  | .joined joiner args => by
    have all := callsByName_exprArgs args
    cases joiner with
    | add | subtract =>
      exact callsByName_leftFold
        (fun a b left right => by rw [Expr.callsByName, left, right, Bool.and_self]) all
    | multiply => exact callsByName_productExpr (callsByName_exprFactors all)
  | .product args => by
    exact callsByName_productExpr (callsByName_exprFactors (callsByName_exprArgs args))
  | .quotient first second | .power first second => by
    rw [expr, Expr.callsByName, callsByName_expr first, callsByName_expr second, Bool.and_self]
  | .negate operand | .not operand => by rw [expr, Expr.callsByName, callsByName_expr operand]
  | .elementary _ args | .derivative _ args | .call _ args => by
    exact Expr.callsByNameArgs_iff.mpr (callsByName_exprArgs args)
  | .chain terms relations => by exact callsByName_chainExpr relations (callsByName_exprArgs terms)
  | .connective connective args => by
    refine callsByName_leftFold (fun a b left right => ?_) (callsByName_exprArgs args)
    cases connective <;> rw [connect, Expr.callsByName, left, right, Bool.and_self]
  | .integral _ body lower upper => by
    simp only [expr, Expr.callsByName, Expr.callsByNameArgs, callsByName_expr body,
      callsByName_expr lower, callsByName_expr upper, Bool.and_self]

theorem callsByName_exprArgs :
    ∀ terms : List Term, ∀ e ∈ exprArgs here terms, e.callsByName = true
  | [] => by simp [exprArgs]
  | term :: terms => by
    exact forall_mem_cons.mpr ⟨callsByName_expr term, callsByName_exprArgs terms⟩

end

end Program

/-! ## Parts that enter -/

namespace Node

/-- A part of a tree that enters into what the tree means. All arguments of a tree do, but of an
integral only the integrand and the two limits. -/
inductive Enters (part : Node) : Node → Prop where
  | self : Enters part part
  | arg {head : Head} {args : List Node} {outer : Node} (unbound : head ≠ .operator .integrate)
      (member : outer ∈ args) (inside : Enters part outer) : Enters part (.op head args)
  | body {argument limits body : Node} {parameter : String}
      (integrand : argument.integrand? = some (parameter, body)) (inside : Enters part body) :
      Enters part (.of .integrate [argument, limits])
  | limit {argument limits lower upper outer : Node} {bound : Option String}
      (limited : limits.limits? = some (bound, lower, upper)) (among : outer ∈ [lower, upper])
      (inside : Enters part outer) : Enters part (.of .integrate [argument, limits])

/-- Whether a tree is a juxtaposition, or a tuple of a function and its arguments. -/
def isJuxtaposition : Node → Bool
  | .of .invisible _ | .of .tuple _ => true
  | _ => false

variable {part : Node}

theorem Enters.exists_arg {head : Head} {args : List Node} (enters : part.Enters (.op head args))
    (other : part ≠ .op head args) (unbound : head ≠ .operator .integrate) :
    ∃ outer ∈ args, part.Enters outer := by
  cases enters with
  | self => exact absurd rfl other
  | arg _ member inside => exact ⟨_, member, inside⟩
  | body | limit => exact absurd rfl unbound

theorem Enters.only {head : Head} {a : Node} (enters : part.Enters (.op head [a]))
    (other : part ≠ .op head [a]) (unbound : head ≠ .operator .integrate) : part.Enters a := by
  obtain ⟨outer, member, inside⟩ := enters.exists_arg other unbound
  rwa [← mem_singleton.mp member]

theorem Enters.either {head : Head} {a b : Node} (enters : part.Enters (.op head [a, b]))
    (other : part ≠ .op head [a, b]) (unbound : head ≠ .operator .integrate) :
    part.Enters a ∨ part.Enters b := by
  obtain ⟨outer, member, inside⟩ := enters.exists_arg other unbound
  rcases mem_cons.mp member with rfl | member
  · exact .inl inside
  · exact .inr (mem_singleton.mp member ▸ inside)

theorem enters_items (juxtaposition : part.isJuxtaposition = true) {group : Node}
    {items : List Node} (found : group.items? = some items) (enters : part.Enters group) :
    ∃ item ∈ items, part.Enters item := by
  have inside : ∀ {operator : Operator} {args : List Node}, operator ∈ [Operator.delimiter, .sequence] →
      part.Enters (.of operator args) → ∃ outer ∈ args, part.Enters outer := by
    intro operator args mark enters
    simp only [mem_cons, not_mem_nil, or_false] at mark
    refine enters.exists_arg ?_ ?_
    · rintro rfl
      rcases mark with rfl | rfl <;> cases juxtaposition
    · rcases mark with rfl | rfl <;> decide
  unfold items? at found
  split at found <;> cases found
  · obtain ⟨sequence, member, enters⟩ := inside (.head _) enters
    cases mem_singleton.mp member
    exact inside (.tail _ (.head _)) enters
  · exact inside (.head _) enters

theorem enters_tupleArguments (juxtaposition : part.isJuxtaposition = true) {nodes : List Node}
    {node : Node} (member : node ∈ nodes) (enters : part.Enters node) :
    ∃ arg ∈ tupleArguments nodes, part.Enters arg := by
  unfold tupleArguments
  split
  · next only =>
    cases mem_singleton.mp member
    cases found : node.items? with
    | none => exact ⟨node, .head _, enters⟩
    | some items => exact enters_items juxtaposition found enters
  · exact ⟨node, member, enters⟩

/-- What enters into an argument of a comparison enters into a term of the chain. -/
theorem enters_flattened (juxtaposition : part.isJuxtaposition = true) {Bond : Type}
    (bond : Relation → Bond) (outer : Bond) (nodes : List Node) {node : Node} (member : node ∈ nodes)
    (enters : part.Enters node) : ∃ term ∈ (flattened bond outer nodes).terms, part.Enters term := by
  refine flattened_induction bond (motive := fun _ nodes chain => (∃ node ∈ nodes, part.Enters node) →
    ∃ term ∈ chain.terms, part.Enters term) id (fun _ => id) ?_ ?_ outer nodes ⟨node, member, enters⟩
  · rintro outer relation args inner - entered ⟨whole, member, enters⟩
    cases mem_singleton.mp member
    refine entered (enters.exists_arg ?_ (by simp))
    rintro rfl
    cases juxtaposition
  · rintro outer first second rest here later entered others ⟨whole, member, enters⟩
    rcases mem_cons.mp member with rfl | member
    · obtain ⟨term, among, enters⟩ := entered ⟨whole, .head _, enters⟩
      exact ⟨term, mem_append_left _ among, enters⟩
    · obtain ⟨term, among, enters⟩ := others ⟨whole, member, enters⟩
      exact ⟨term, mem_append_right _ among, enters⟩

end Node

/-! ## Readings that are taken up -/

namespace Reading

variable {here : String} {part node : Node} {nodes : List Node} {term : Term} {terms : List Term}

/-- The reading of a part is taken up in a reading. -/
def Placed (here : String) (part : Node) (term : Term) : Prop :=
  ∃ inner wrap, read here part = some inner ∧ Places here wrap ∧ term = wrap inner

theorem Placed.through {outer : Term → Term} {whole : Term} (placed : Placed here part term)
    (places : Places here outer) (same : whole = outer term) : Placed here part whole := by
  obtain ⟨inner, wrap, found, inside, rfl⟩ := placed
  exact ⟨inner, _, found, places.comp inside, same⟩

/-- A reading takes up a part if it enters into the tree. -/
abbrev Takes (here : String) (part node : Node) (term : Term) : Prop :=
  part.Enters node → Placed here part term

/-- One of several readings takes up the reading of a part. -/
def PlacedAmong (here : String) (part : Node) (terms : List Term) : Prop :=
  ∃ left term right, terms = left ++ term :: right ∧ Placed here part term

namespace PlacedAmong

theorem head (placed : Placed here part term) : PlacedAmong here part (term :: terms) :=
  ⟨[], term, terms, rfl, placed⟩

theorem tail (placed : PlacedAmong here part terms) : PlacedAmong here part (term :: terms) := by
  obtain ⟨left, inner, right, rfl, placed⟩ := placed
  exact ⟨term :: left, inner, right, rfl, placed⟩

theorem through {build : List Term → Term} (placed : PlacedAmong here part terms)
    (places : ∀ left right, Places here fun term => build (left ++ term :: right)) :
    Placed here part (build terms) := by
  obtain ⟨left, inner, right, rfl, placed⟩ := placed
  exact placed.through (places left right) rfl

theorem application {head : Node} (placed : PlacedAmong here part terms)
    (made : Application head terms term) : Placed here part term := by
  cases made with
  | derivative => exact placed.through (.derivative _)
  | call => exact placed.through (.call _)

end PlacedAmong

theorem placedAmong (all : Forall₂ (Takes here part) nodes terms) (member : node ∈ nodes)
    (enters : part.Enters node) : PlacedAmong here part terms := by
  induction all with
  | nil => cases member
  | cons taken _ ih =>
    rcases mem_cons.mp member with rfl | later
    · exact .head (taken enters)
    · exact (ih later).tail

theorem placedAmong_args {head : Head} (enters : part.Enters (.op head nodes))
    (other : part ≠ .op head nodes) (unbound : head ≠ .operator .integrate)
    (all : Forall₂ (Takes here part) nodes terms) :
    PlacedAmong here part terms := by
  obtain ⟨outer, member, inside⟩ := enters.exists_arg other unbound
  exact placedAmong all member inside

section

variable (juxtaposition : part.isJuxtaposition = true)

include juxtaposition

/-- Nothing enters into the head of a call. -/
theorem not_enters_head {head : Node} (made : Application head terms term) :
    ¬ part.Enters head := by
  have leaf : ∀ {name : String}, ¬ part.Enters (.symbol name) := by
    intro name enters
    cases enters
    cases juxtaposition
  intro enters
  cases made with
  | derivative primed =>
    unfold primedName? at primed
    split at primed
    · exact leaf (enters.only (by rintro rfl; cases juxtaposition) (by decide))
    · cases primed
  | call callee =>
    unfold calleeName? at callee
    split at callee
    · exact leaf enters
    · cases callee

theorem placedAmong_factors (factors : Factors (Takes here part) nodes terms)
    (member : node ∈ nodes) (enters : part.Enters node) : PlacedAmong here part terms := by
  induction factors with
  | nil => cases member
  | plain _ taken _ ih =>
    rcases mem_cons.mp member with rfl | later
    · exact .head (taken enters)
    · exact (ih later).tail
  | applied found all made _ ih =>
    rcases mem_cons.mp member with rfl | member
    · exact absurd enters (not_enters_head juxtaposition made)
    rcases mem_cons.mp member with rfl | later
    · obtain ⟨item, among, enters⟩ := enters_items juxtaposition found enters
      exact .head ((placedAmong all among enters).application made)
    · exact (ih later).tail

/-- A rule takes up what enters into a tree, as long as the parts do. -/
theorem placed_of_rule (rule : Rule here (Takes here part) node term)
    (enters : part.Enters node) (other : part ≠ node) : Placed here part term := by
  cases rule with
  | number value | symbol named =>
    cases enters
    exact absurd rfl other
  | joined joiner some all =>
    exact (placedAmong_args enters other (by cases joiner <;> decide) all).through (.joined joiner)
  | quotient divides first second =>
    rcases enters.either other (by rcases divides with rfl | rfl <;> decide) with inside | inside
    · exact (first inside).through (.numerator _) rfl
    · exact (second inside).through (.denominator _) rfl
  | power first second =>
    rcases enters.either other (by decide) with inside | inside
    · exact (first inside).through (.base _) rfl
    · exact (second inside).through (.exponent _) rfl
  | negate only => exact (only (enters.only other (by decide))).through .negate rfl
  | not only => exact (only (enters.only other (by decide))).through .not rfl
  | @elementary function nodes terms takes all =>
    exact (placedAmong_args enters other (by simp) all).through (.elementary function)
  | @chain relation nodes terms compares all =>
    obtain ⟨outer, member, inside⟩ := enters.exists_arg other (by simp)
    obtain ⟨whole, among, enters⟩ := enters_flattened juxtaposition id relation nodes member inside
    have count := all.length_eq
    obtain ⟨left, inner, right, rfl, placed⟩ := placedAmong all among enters
    rw [comparisonChain, length_flattened id relation nodes (ne_nil_of_mem member)] at count
    refine placed.through (.chain compares ?_) rfl
    rw [length_append, length_cons] at count
    rw [comparisonChain]
    omega
  | connective connective some all =>
    exact (placedAmong_args enters other (by cases connective <;> decide) all).through
      (.connective connective)
  | derivativeHere named =>
    cases enters.only other (by decide)
    cases juxtaposition
  | wrapped wraps only =>
    simp only [mem_cons, not_mem_nil, or_false] at wraps
    exact only (enters.only other (by rcases wraps with rfl | rfl | rfl <;> decide))
  | single factors =>
    obtain ⟨outer, member, inside⟩ := enters.exists_arg other (by decide)
    obtain ⟨left, inner, right, same, placed⟩ := placedAmong_factors juxtaposition factors member inside
    rcases left with _ | ⟨first, left⟩
    · cases same
      exact placed
    · simp at same
  | product factors =>
    obtain ⟨outer, member, inside⟩ := enters.exists_arg other (by decide)
    exact (placedAmong_factors juxtaposition factors member inside).through .product
  | tuple all made =>
    obtain ⟨outer, member, inside⟩ := enters.exists_arg other (by decide)
    rcases mem_cons.mp member with rfl | member
    · exact absurd inside (not_enters_head juxtaposition made)
    · obtain ⟨arg, among, enters⟩ := enters_tupleArguments juxtaposition member inside
      exact (placedAmong all among enters).application made
  | @call name unknown nodes terms named all =>
    exact (placedAmong_args enters other (by simp) all).through (.call name)
  | integral integrand limited named inside low high =>
    cases enters with
    | self => exact absurd rfl other
    | arg unbound => exact absurd rfl unbound
    | body found enters =>
      rw [integrand] at found
      cases found
      exact (inside enters).through (.body _ _ _) rfl
    | limit found among enters =>
      rw [limited] at found
      cases found
      simp only [mem_cons, not_mem_nil, or_false] at among
      rcases among with rfl | rfl
      · exact (low enters).through (.lower _ _ _) rfl
      · exact (high enters).through (.upper _ _ _) rfl

/-- A reading takes up the readings of the juxtapositions and tuples that enter into the tree. -/
theorem placed_of_read (found : read here node = some term) (enters : part.Enters node) :
    Placed here part term := by
  refine @read_induction here
    (fun node term => read here node = some term → Takes here part node term) ?_ node term found found
    enters
  intro node term inside rule found enters
  by_cases same : part = node
  · subst same
    exact ⟨term, _, found, .whole, rfl⟩
  · refine placed_of_rule juxtaposition (rule.imp ?_) enters same
    rintro inner innerTerm within ⟨innerFound, -⟩
    exact inside inner innerTerm within innerFound innerFound

end

end Reading

/-! ## Texts of juxtapositions -/

namespace Program

variable {here : String} {nodes : List Node} {terms : List Term} {term : Term}

/-- The text of a product: a single factor stands for itself. -/
def productText : List String → String
  | [only] => only
  | factors => "(" ++ " * ".intercalate factors ++ ")"

/-- The text of what stands in a juxtaposition. -/
def juxtaposedText (here : String) : Node.Juxtaposed → String
  | .factor node => textOf here node
  | .application name args => callText name (args.map (textOf here))

/-- The texts of the factors of a juxtaposition. -/
def factorTexts (here : String) (nodes : List Node) : List String :=
  (Node.juxtaposed nodes).map (juxtaposedText here)

theorem textOf_of_read {node : Node} (found : read here node = some term) :
    textOf here node = piecesText (pieces here term) := by
  rw [textOf, textOf?, found, Option.map_some, Option.getD_some]

theorem texts_of_forall₂ (all : ReadAll here nodes terms) :
    (piecesArgs here terms).map piecesText = nodes.map (textOf here) := by
  induction all with
  | nil => rfl
  | cons first _ ih => rw [piecesArgs, map_cons, map_cons, ih, textOf_of_read first]

theorem piecesText_application {head : Node} (made : Application head terms term)
    (all : ReadAll here nodes terms) :
    ∃ name, head.applicationName? = some name ∧
      piecesText (pieces here term) = callText name (nodes.map (textOf here)) := by
  obtain ⟨name, called, -, row⟩ := @applicationName_of_application _ here _ _ made
  exact ⟨name, called, by rw [row, piecesText_call, texts_of_forall₂ all]⟩

/-- Each factor of a juxtaposition is written as it stands there. -/
theorem texts_of_factors
    (factors : Factors (fun node term => read here node = some term) nodes terms) :
    (piecesArgs here terms).map piecesText = factorTexts here nodes := by
  induction factors with
  | nil => rfl
  | plain alone first _ ih =>
    rw [piecesArgs, map_cons, ih, factorTexts, factorTexts, juxtaposed_plain alone,
      map_cons, juxtaposedText, textOf_of_read first]
  | @applied head group items nodes term args terms found all made _ ih =>
    obtain ⟨name, called, text⟩ := piecesText_application made all
    have unfolded : juxtaposed (head :: group :: nodes)
        = .application name items :: juxtaposed nodes := by
      rw [juxtaposed, called, found]
    rw [piecesArgs, map_cons, ih, factorTexts, factorTexts, unfolded, map_cons,
      juxtaposedText, text]

theorem piecesText_product (rows : List (List Piece)) :
    piecesText (enclosed (separated (.mark .times) rows))
      = "(" ++ " * ".intercalate (rows.map piecesText) ++ ")" := by
  have row : enclosed (separated (.mark .times) rows) = [markPiece .opening]
      ++ [.blank, .token (.mark .times), .blank].intercalate rows ++ [markPiece .closing] := rfl
  have opening : piecesText [markPiece .opening] = "(" := by decide
  have times : piecesText [.blank, .token (.mark .times), .blank] = " * " := by decide
  have closing : piecesText [markPiece .closing] = ")" := by decide
  rw [row, piecesText_append, piecesText_append, piecesText_intercalate, opening, times, closing]

/-- What a juxtaposition is read from, and what is written for it. -/
theorem text_of_invisible (found : read here (.of .invisible nodes) = some term) :
    (∃ terms, Factors (fun node term => read here node = some term) nodes terms) ∧
      textOf here (.of .invisible nodes) = productText (factorTexts here nodes) := by
  rw [textOf_of_read found]
  rw [read_invisible] at found
  obtain ⟨terms, each, joined⟩ := Option.bind_eq_some_iff.mp found
  have factors := factors_of_factors? each
  refine ⟨⟨terms, factors⟩, ?_⟩
  rw [← texts_of_factors factors]
  rcases terms with _ | ⟨first, _ | ⟨second, more⟩⟩
  · cases joined
  · cases joined
    rfl
  · cases joined
    rw [pieces, piecesText_product]
    rfl

/-- A prime that stands in a juxtaposition marks a name. -/
theorem isName_of_factors {function : String}
    (factors : Factors (fun node term => read here node = some term) nodes terms)
    (member : .of .prime [.symbol function] ∈ nodes) : isName function = true := by
  by_contra unnamed
  have unprimed : primedName? (.of .prime [.symbol function]) = none := by
    simp [primedName?, unnamed]
  induction factors with
  | nil => cases member
  | plain _ first _ ih =>
    rcases mem_cons.mp member with rfl | later
    · rw [read_op] at first
      simp [readOperation, readOperator, unprimed] at first
    · exact ih later
  | applied found _ made _ ih =>
    rcases mem_cons.mp member with rfl | member
    · cases made with
      | derivative primed => cases unprimed.symm.trans primed
      | call callee => cases callee
    rcases mem_cons.mp member with rfl | later
    · cases found
    · exact ih later

theorem applicationName?_primed (function : String) :
    applicationName? (.of .prime [.symbol function])
      = if isName function then some (derivativeName function) else none := by
  cases named : isName function <;> simp [applicationName?, primedName?, calleeName?, named]

/-- A primed name in front of a group is one application, between what the trees before and behind it
make on their own. -/
theorem juxtaposed_split {function : String} (named : isName function = true) {group : Node}
    {items : List Node} (found : group.items? = some items) (left right : List Node) :
    juxtaposed (left ++ .of .prime [.symbol function] :: group :: right)
      = juxtaposed left
        ++ .application (derivativeName function) items :: juxtaposed right := by
  have start : juxtaposed (.of .prime [.symbol function] :: group :: right)
      = .application (derivativeName function) items :: juxtaposed right := by
    rw [juxtaposed, applicationName?_primed, if_pos named, found]
  -- A factor may take the next one as its arguments, so the induction takes one or two at a time.
  induction left using twoStepInduction with
  | nil => exact start
  | singleton item =>
    have alone : takesNext (item :: .of .prime [.symbol function] :: group :: right) = false :=
      Bool.and_false _
    rw [singleton_append, juxtaposed_plain alone, start]
    rfl
  | cons_cons item next left afterTwo afterOne =>
    rw [cons_append, cons_append, juxtaposed, juxtaposed]
    split
    · rw [afterTwo]; rfl
    · rw [← cons_append, afterOne]; rfl

/-- A tuple of a primed name and arguments is one call of the derivative. -/
theorem text_of_tuple {function : String} {rest : List Node}
    (found : read here (.of .tuple (.of .prime [.symbol function] :: rest)) = some term) :
    textOf here (.of .tuple (.of .prime [.symbol function] :: rest))
      = derivativeCall function ((tupleArguments rest).map (textOf here)) := by
  rw [textOf_of_read found]
  simp only [read_op, readOperation, readOperator, map_cons, node_annotate, items_tuple,
    Option.bind_eq_bind, Option.bind_eq_some_iff, Option.some.injEq] at found
  obtain ⟨apply, callee, args, all, rfl⟩ := found
  obtain ⟨name, called, text⟩ :=
    piecesText_application (application_of_application? callee args) (readAll_of_terms? all)
  rw [applicationName?_primed] at called
  split at called <;> cases called
  exact text

/-- The text of a tree has that of a part in it, at one or more places (a middle term of a chain stands
in two links). -/
def IsWrittenIn (here : String) (part node : Node) : Prop :=
  ∃ front behind, behind ≠ [] ∧ textOf here node = withCopies front behind (textOf here part)

theorem isWrittenIn_of_placed {part node : Node} (found : read here node = some term)
    (placed : Placed here part term) : IsWrittenIn here part node := by
  obtain ⟨inner, wrap, partFound, ⟨around, inserts, same⟩, rfl⟩ := placed
  obtain ⟨front, behind, some, texts⟩ := inserts.text
  refine ⟨front, behind, some, ?_⟩
  rw [textOf_of_read found, textOf_of_read partFound, same, texts, withCopies]

/-- The program of a tree calls functions by their names. A juxtaposition that enters into the tree,
in which a primed name stands in front of a group, is written as the product of its factors, and the
primed name and the group are one of them: a call of the derivative on the items of the group. A tuple
of a primed name and arguments is written as such a call. -/
theorem calls_of_textOf (here : String) (node : Node) (default : isName here = true)
    (asciiDefault : isAscii here = true) (ascii : node.isAscii = true)
    (written : textOf here node ≠ "") :
    (∃ program, Program.parse (textOf here node) = .ok program ∧ program.callsByName = true) ∧
    (∀ (function : String) (left right items : List Node) (group : Node),
      group.items? = some items →
      let part := of .invisible (left ++ .of .prime [.symbol function] :: group :: right)
      part.Enters node →
        textOf here part = productText (factorTexts here left
          ++ derivativeCall function (items.map (textOf here)) :: factorTexts here right) ∧
        IsWrittenIn here part node) ∧
    (∀ (function : String) (args : List Node),
      let part := of .tuple (.of .prime [.symbol function] :: args)
      part.Enters node →
        textOf here part = derivativeCall function ((tupleArguments args).map (textOf here)) ∧
        IsWrittenIn here part node) := by
  obtain ⟨term, found⟩ := exists_read written
  refine ⟨?_, ?_, ?_⟩
  · obtain ⟨parsed, -⟩ := compiled_of_read ⟨default, asciiDefault⟩ found
      (spellable_of_isAscii ascii)
    exact ⟨_, parsed, callsByName_expr term⟩
  · intro function left right items group isGroup part enters
    have placed := placed_of_read rfl found enters
    have ⟨_, _, partFound, _⟩ := placed
    obtain ⟨⟨terms, factors⟩, text⟩ := text_of_invisible partFound
    have named := isName_of_factors factors (mem_append_right left (.head _))
    refine ⟨?_, isWrittenIn_of_placed found placed⟩
    rw [text, factorTexts, juxtaposed_split named isGroup, map_append, map_cons]
    rfl
  · intro function args part enters
    have placed := placed_of_read rfl found enters
    have ⟨_, _, partFound, _⟩ := placed
    exact ⟨text_of_tuple partFound, isWrittenIn_of_placed found placed⟩

/-- A juxtaposition in the middle of a chain, with a group behind the arguments of the derivative, and
a tuple at its end. -/
theorem calls_of_textOf_chain :
    let pair := of .delimiter [.of .sequence [.symbol "x", .symbol "y"]]
    let product := of .invisible
      [.symbol "u", .of .prime [.symbol "f"], pair, .of .delimiter [.symbol "v"]]
    let last := of .tuple [.of .prime [.symbol "g"], pair]
    let tree := of (.relation .less) [.number 0, .of .power [product, .number 2], last]
    textOf "x" tree = "((0 < ((u * derivative_f(x, y) * v)) ^ (2)) and "
        ++ "(((u * derivative_f(x, y) * v)) ^ (2) < derivative_g(x, y)))" ∧
      (∃ program, Program.parse (textOf "x" tree) = .ok program ∧ program.callsByName = true) ∧
      textOf "x" product = productText ["u", derivativeCall "f" ["x", "y"], "v"] ∧
      IsWrittenIn "x" product tree ∧
      textOf "x" last = derivativeCall "g" ["x", "y"] ∧ IsWrittenIn "x" last tree := by
  intro pair product last tree
  have text : textOf "x" tree = "((0 < ((u * derivative_f(x, y) * v)) ^ (2)) and "
      ++ "(((u * derivative_f(x, y) * v)) ^ (2) < derivative_g(x, y)))" := by decide +kernel
  have middle : product.Enters tree :=
    .arg (by decide) (.tail _ (.head _)) (.arg (by decide) (.head _) .self)
  have final : last.Enters tree := .arg (by decide) (.tail _ (.tail _ (.head _))) .self
  obtain ⟨byName, products, tuples⟩ := calls_of_textOf "x" tree (by decide) (by decide) (by decide +kernel)
    (by rw [text]; decide)
  obtain ⟨productText, productWritten⟩ := products "f" [.symbol "u"] [.of .delimiter [.symbol "v"]]
    [.symbol "x", .symbol "y"] pair rfl middle
  obtain ⟨tupleText, tupleWritten⟩ := tuples "g" [pair] final
  have names : factorTexts "x" [.symbol "u"] = ["u"] ∧
      factorTexts "x" [.of .delimiter [.symbol "v"]] = ["v"] ∧
      [symbol "x", .symbol "y"].map (textOf "x") = ["x", "y"] := by decide +kernel
  rw [names.1, names.2.1, names.2.2] at productText
  exact ⟨text, byName, productText, productWritten, tupleText.trans (by decide +kernel), tupleWritten⟩

end Program

end Grapher
