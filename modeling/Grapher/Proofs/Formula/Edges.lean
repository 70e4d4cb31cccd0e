import Grapher.Boundary
import Grapher.Proofs.Formula.Dependence
import Grapher.Proofs.Markup.Completeness
import Grapher.Proofs.Markup.Shape
import Grapher.Proofs.Program.Meaning

/-!
# Edges do not depend on their axis

An edge says where an axis equals an expression, so the expression should not depend on the axis. The
test for an edge looks at the free symbols of the expression, but its text is written from the
reading, and a reading has one name that the tree need not have: a derivative without arguments is
taken at the default variable. Apart from that name the text looks up only what the expression
mentions, so that the value of an edge is the same in all scopes that differ in its axis only
(`eval_of_differ_on_axis`). Where a derivative is taken at the default variable and that is the
axis, the edge does depend on it (`edge_varies_with_axis`).
-/

set_option autoImplicit false

namespace Grapher

open Program Markup

/-! ## The default variable in a text -/

namespace Reading.Term

mutual

/-- Whether a reading takes a derivative at the default variable. -/
def derivesHere : Term → Bool
  | .number _ | .symbol _ => false
  | .joined _ args | .product args | .elementary _ args | .chain args _ | .connective _ args
  | .derivative _ args | .call _ args => derivesHereArgs args
  | .quotient first second | .power first second => first.derivesHere || second.derivesHere
  | .negate operand | .not operand => operand.derivesHere
  | .derivativeHere _ => true
  | .integral _ body lower upper => body.derivesHere || lower.derivesHere || upper.derivesHere

/-- The same of any of several readings. -/
def derivesHereArgs : List Term → Bool
  | [] => false
  | term :: terms => term.derivesHere || derivesHereArgs terms

end

end Reading.Term

open Reading

namespace Program

mutual

/-- Only a derivative at the default variable is written with it. -/
theorem pieces_congr (a b : String) :
    ∀ {term : Term}, term.derivesHere = false → pieces a term = pieces b term
  | .number _, _ | .symbol _, _ => by simp only [pieces]
  | .joined _ _, absent | .product _, absent | .elementary _ _, absent | .chain _ _, absent
  | .connective _ _, absent | .derivative _ _, absent | .call _ _, absent => by
    simp only [pieces, piecesArgs_congr a b absent]
  | .quotient _ _, absent | .power _ _, absent => by
    rw [Term.derivesHere, Bool.or_eq_false_iff] at absent
    simp only [pieces, pieces_congr a b absent.1, pieces_congr a b absent.2]
  | .negate _, absent | .not _, absent => by
    rw [Term.derivesHere] at absent
    simp only [pieces, pieces_congr a b absent]
  | .derivativeHere _, absent => by cases absent
  | .integral _ _ _ _, absent => by
    rw [Term.derivesHere, Bool.or_eq_false_iff, Bool.or_eq_false_iff] at absent
    obtain ⟨⟨body, lower⟩, upper⟩ := absent
    simp only [pieces, pieces_congr a b body, pieces_congr a b lower, pieces_congr a b upper]

theorem piecesArgs_congr (a b : String) :
    ∀ {terms : List Term}, Term.derivesHereArgs terms = false →
      piecesArgs a terms = piecesArgs b terms
  | [], _ => rfl
  | _ :: _, absent => by
    rw [Term.derivesHereArgs, Bool.or_eq_false_iff] at absent
    rw [piecesArgs, piecesArgs, pieces_congr a b absent.1, piecesArgs_congr a b absent.2]

end

/-- A tree that is annotated alike under two default variables has the same text under both, as long
as it takes no derivative there. -/
theorem textOf?_congr {a b : String} {node : Node} (same : annotate a node = annotate b node)
    (absent : (read a node).any Term.derivesHere = false) : textOf? a node = textOf? b node := by
  have reads : read a node = read b node := congrArg Annotated.term same
  unfold textOf?
  rw [← reads]
  cases found : read a node with
  | none => rfl
  | some term =>
    rw [found] at absent
    rw [Option.map_some, Option.map_some, pieces_congr a b absent]

end Program

/-- The annotation of a tree holds those of its parts. -/
theorem annotate_sub {a b : String} {part node : Node} (sub : node.Sub part)
    (same : annotate a part = annotate b part) : annotate a node = annotate b node := by
  have inside : ∀ {head : Head} {args : List Node} {arg : Node}, arg ∈ args →
      annotate a (.op head args) = annotate b (.op head args) → annotate a arg = annotate b arg := by
    intro head args arg member same
    have maps := congrArg Annotated.args same
    rw [annotate, annotate, Annotated.args, Annotated.args, annotateArgs_eq_map,
      annotateArgs_eq_map] at maps
    exact List.map_inj_left.mp maps arg member
  rcases sub with rfl | within
  · exact same
  · induction within with
    | arg member => exact inside member same
    | deep member _ ih => exact ih (inside member same)

/-! ## Edges of a condition -/

namespace Boundary

/-- An edge as it is found in a condition: a part of it, written as a program, without a free symbol
of those that the axis excludes. -/
structure Found (here : String) (node : Node) (edge : Boundary) : Prop where
  part : edge.expression.Sub node
  written : Program.textOf? here edge.expression = some edge.text
  unmentioned : ∀ word ∈ edge.axis.excluded, word ∉ edge.expression.freeSymbols

variable {here : String} {node : Node} {edge : Boundary}

theorem Found.of_sub {part : Node} (found : Found here part edge) (sub : part.Sub node) :
    Found here node edge :=
  ⟨found.part.trans sub, found.written, found.unmentioned⟩

theorem found_of_isolating? {style : EdgeStyle} {axis : Axis} {side other : Node}
    (isolated : isolating? here style axis side other = some edge) : Found here other edge := by
  unfold isolating? at isolated
  split at isolated
  · next free =>
    obtain ⟨text, written, rfl⟩ := Option.map_eq_some_iff.mp isolated
    rw [Bool.and_eq_true, Bool.not_eq_true', List.any_eq_false] at free
    refine ⟨.refl other, written, fun word excluded occurs => free.2 word excluded ?_⟩
    rwa [← Node.contains_freeSymbols, List.contains_iff_mem]
  · cases isolated

theorem found_of_ofLink? {link : Link Node Relation} (drawn : ofLink? here link = some edge) :
    Found here link.left edge ∨ Found here link.right edge := by
  obtain ⟨axis, -, isolated⟩ := List.exists_of_findSome?_eq_some drawn
  rcases Option.or_eq_some_iff.mp isolated with right | ⟨-, left⟩
  · exact .inr (found_of_isolating? right)
  · exact .inl (found_of_isolating? left)

mutual

theorem found_of_ofNode : ∀ {node : Node}, edge ∈ ofNode here node → Found here node edge
  | .number _, member | .symbol _, member | .op (.call _ _) _, member => by cases member
  | .of operator args, member => by
    unfold ofNode at member
    split at member
    · obtain ⟨link, among, drawn⟩ := List.mem_filterMap.mp member
      obtain ⟨left, right⟩ := Node.within_links among
      rcases found_of_ofLink? drawn with found | found
      · exact found.of_sub (.inr left)
      · exact found.of_sub (.inr right)
    · split at member
      · obtain ⟨arg, among, found⟩ := found_of_ofNodes member
        exact found.of_sub (.inr (.arg among))
      · cases member

theorem found_of_ofNodes :
    ∀ {nodes : List Node}, edge ∈ ofNodes here nodes → ∃ node ∈ nodes, Found here node edge
  | [], member => by cases member
  | _ :: _, member => by
    rw [ofNodes, List.mem_append] at member
    rcases member with first | later
    · exact ⟨_, .head _, found_of_ofNode first⟩
    · obtain ⟨node, among, found⟩ := found_of_ofNodes later
      exact ⟨node, .tail _ among, found⟩

end

/-! ## What an edge looks up -/

/-- Whether the text of an edge takes a derivative at the default variable. -/
def derivesHere (here : String) (edge : Boundary) : Bool :=
  (read here edge.expression).any Term.derivesHere

theorem excluded_ne_operator {axis : Axis} {word : String} (excluded : word ∈ axis.excluded)
    (operator : Operator) : operator.name ≠ word := by
  have names : ∀ operator : Operator, operator.name ∉ ["x", "y"] := by
    intro operator
    cases operator with
    | elementary function => cases function <;> decide
    | relation relation => cases relation <;> decide
    | _ => decide
  have coordinate : ∀ axis : Axis, axis.excluded ⊆ ["x", "y"] := by
    intro axis
    cases axis <;> decide
  rintro rfl
  exact names operator (coordinate axis excluded)

theorem excluded_ne_derivative {axis : Axis} {word : String} (excluded : word ∈ axis.excluded)
    (name : String) : derivativeName name ≠ word := by
  have first : ∀ word ∈ axis.excluded, word.toList.head? ≠ some 'd' := by
    cases axis <;> decide
  rintro rfl
  exact first _ excluded (by rw [toList_derivativeName]; rfl)

/-- What is found for an edge in a tree of operators does not mention what the axis excludes, the
default variable aside. -/
theorem Found.not_mentioned (found : Found here node edge)
    (operators : node.Throughout IsShaped) {other word : String}
    (excluded : word ∈ edge.axis.excluded) (apart : other ≠ word) :
    ¬ edge.expression.Mentioned other [] word := by
  have fresh : ∀ word ∈ edge.axis.excluded,
      isBuiltinName word = false ∧ word ≠ integralName := by
    cases edge.axis <;> decide
  intro mentioned
  cases mentioned with
  | builtin known => exact Bool.false_ne_true ((fresh word excluded).1.symm.trans known)
  | integral => exact (fresh _ excluded).2 rfl
  | here => exact apart rfl
  | free occurs => exact found.unmentioned word excluded (Node.mem_freeSymbols.mpr occurs)
  | @head head args part =>
    have shaped := operators _ (part.trans found.part)
    cases head with
    | operator operator => exact excluded_ne_operator excluded operator rfl
    | call name unknown => exact shaped
  | @derivative name part => exact excluded_ne_derivative excluded name rfl

/-- The text of an edge of a parsed condition is written with a default variable that is no symbol
of the axis, unless a derivative is taken at one that is. -/
theorem Found.exists_default (found : Found here node edge)
    (formed : Formed scannedKinds node)
    (apart : edge.derivesHere here = true →
      Text.isIdentifier here = true ∧ here ∉ edge.axis.excluded) :
    ∃ other, Text.isIdentifier other = true ∧ other ∉ edge.axis.excluded ∧
      textOf? other edge.expression = some edge.text := by
  cases derives : edge.derivesHere here with
  | true =>
    obtain ⟨identifier, outside⟩ := apart derives
    exact ⟨here, identifier, outside, found.written⟩
  | false =>
    have annotated :=
      @annotate_congr scannedKinds (fun _ word => word.1) _ formed here "t"
    have same := textOf?_congr (annotate_sub found.part annotated) derives
    refine ⟨"t", by decide, ?_, same ▸ found.written⟩
    cases edge.axis <;> decide

/-- The value of an edge of a parsed condition is the same in any two scopes that differ in its axis
only, or for the horizontal axis in the two axes only, as long as it takes no derivative at an axis
that is the default variable. -/
theorem eval_of_differ_on_axis {text : String} {tree : Node} (parsed : Markup.parse text = .ok tree)
    {here : String} {edge : Boundary} (member : edge ∈ ofNode here tree)
    (apart : edge.derivesHere here = true →
      Text.isIdentifier here = true ∧ here ∉ edge.axis.excluded)
    {program : Program.Expr} (compiled : Program.parse edge.text = .ok program)
    (helpers scope scope' : Scope)
    (same : ∀ word, word ∉ edge.axis.excluded → scope.lookup word = scope'.lookup word)
    (moment : Moment) :
    Paired Value.Like (program.eval apply helpers scope moment)
      (program.eval apply helpers scope' moment) := by
  have formed := formed_of_parse parsed
  have found := found_of_ofNode member
  obtain ⟨other, identifier, outside, written⟩ := found.exists_default formed apart
  have names : ∀ word ∈ program.namesOutside [], word ∉ edge.axis.excluded := by
    intro word looked excluded
    have mentioned := mentioned_of_parse identifier written compiled word looked
    refine found.not_mentioned (shaped_of_formed formed) excluded ?_ mentioned
    rintro rfl
    exact outside excluded
  exact Expr.stable_run stable_apply helpers names scope scope'
    (Scope.agree_of_lookup_eq same) moment

/-! ## A derivative as an edge -/

/-- The condition that an axis equals a derivative without arguments. -/
def slope (name : String) : Node :=
  .of (.relation .equal) [.symbol name, .of .prime [.symbol "f"]]

/-- A text for the condition. -/
def slopeText (name : String) : String :=
  "\x7b\\mathrm\x7b" ++ name ++ "\x7d\x7d=\x7b\x7b\\mathrm\x7bf\x7d\x7d'\x7d"

/-- The edge of the condition where `x` is the default variable. -/
def slopeEdge (axis : Axis) : Boundary :=
  ⟨axis, "derivative_f(x)", .solid, .of .prime [.symbol "f"]⟩

theorem parse_slopeText {name : String} (plain : Markup.IsPlainName name) :
    Markup.parse (slopeText name) = .ok (slope name) := by
  have function : Markup.IsPlainName "f" := by constructor <;> decide
  have equation := @Markup.Writes.many (.relation .equal) _ [(_, _), (_, _)]
    (.sign rfl (@Markup.Spelling.single _ '=' rfl)) (Nat.le_refl 2)
    (Markup.forall_mem_pair (.symbol plain) (.prime (.symbol function)))
  refine Markup.parse_of_writes ?_
  simpa [slopeText, Markup.separated, Markup.followers, Markup.braced, Markup.nameText,
    Markup.command, Markup.trees, slope] using equation

theorem parse_slopeEdge (axis : Axis) : Program.parse (slopeEdge axis).text
    = .ok (.call (.name "derivative_f") [.name "x"]) := by
  have default : Program.IsWord "x" := ⟨by decide, by decide⟩
  have function : Program.IsWord "f" := ⟨by decide, by decide⟩
  have text :
      "derivative_f(x)" = Program.piecesText (Program.pieces "x" (.derivativeHere "f")) := by
    decide +kernel
  rw [slopeEdge, text, Program.parse_pieces default (by rwa [Program.Writable]), Program.expr]
  rfl

/-- The vertical edge does not depend on the vertical axis. -/
theorem eval_of_differ_on_axis_slope :
    let program : Program.Expr := .call (.name "derivative_f") [.name "x"]
    let root := Value.function (.primitive .sqrt)
    let scope : Scope := [("derivative_f", root), ("x", .int 4), ("y", .int 1)]
    let scope' : Scope := [("derivative_f", root), ("x", .int 4), ("y", .int 2)]
    Markup.parse (slopeText "y") = .ok (slope "y") ∧ slopeEdge .vertical ∈ ofNode "x" (slope "y") ∧
      (slopeEdge .vertical).derivesHere "x" = true ∧
      Program.parse (slopeEdge .vertical).text = .ok program ∧
      Paired Value.Like (program.eval apply [] scope .start)
        (program.eval apply [] scope' .start) := by
  intro program root scope scope'
  have parsed := @parse_slopeText "y" (by constructor <;> decide)
  have drawn : slopeEdge .vertical ∈ ofNode "x" (slope "y") := .head _
  have same : ∀ word, word ∉ ["y"] → scope.lookup word = scope'.lookup word := by
    intro word outside
    have other : (word == "y") = false := by simpa using outside
    simp only [scope, scope', List.lookup_cons, List.lookup_nil, other]
  refine ⟨parsed, drawn, rfl, parse_slopeEdge _, ?_⟩
  exact eval_of_differ_on_axis parsed drawn (fun _ => ⟨by decide, by decide⟩) (parse_slopeEdge _) []
    scope scope' same .start

/-- The horizontal edge depends on the horizontal axis, since its derivative is taken there. -/
theorem edge_varies_with_axis :
    let program : Program.Expr := .call (.name "derivative_f") [.name "x"]
    let identity := Value.function (.lambda "u" ["u"] (.name "u"))
    let scope : Scope := [("derivative_f", identity), ("x", .int 1)]
    let scope' : Scope := [("derivative_f", identity), ("x", .int 2)]
    Markup.parse (slopeText "x") = .ok (slope "x") ∧
      slopeEdge .horizontal ∈ ofNode "x" (slope "x") ∧
      Program.parse (slopeEdge .horizontal).text = .ok program ∧
      (∀ word, word ∉ (slopeEdge .horizontal).axis.excluded →
        scope.lookup word = scope'.lookup word) ∧
      ¬ Paired Value.Like (program.eval apply [] scope .start)
        (program.eval apply [] scope' .start) := by
  intro program identity scope scope'
  have parsed := @parse_slopeText "x" (by constructor <;> decide)
  refine ⟨parsed, .head _, parse_slopeEdge _, ?_, ?_⟩
  · intro word outside
    have other : (word == "x") = false := by
      rw [beq_eq_false_iff_ne]
      rintro rfl
      exact outside (.head _)
    simp only [scope, scope', List.lookup_cons, List.lookup_nil, other]
  · have first : program.eval apply [] scope .start = .ok (.int 1) := rfl
    have second : program.eval apply [] scope' .start = .ok (.int 2) := rfl
    rw [first, second]
    rintro ⟨⟨⟩⟩

end Boundary

end Grapher
