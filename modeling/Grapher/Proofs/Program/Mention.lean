import Grapher.Proofs.Program.Fragments
import Grapher.Proofs.Program.Writing
import Grapher.Proofs.Reading.Rules
import Grapher.Proofs.Tree.Occurrences

/-!
# The names in the program of a tree

The program text of a tree is a row of pieces that is built from names, numbers, signs, groups and
calls. Each of these ways keeps two facts about a row: that it is spaced, and that the walk over its
tokens finds only names of a given class (`Mentions`). By the rules of reading, the row of a tree
has names only that the tree mentions, and so has the program that is parsed from its text.
-/

set_option autoImplicit false

namespace Grapher

open Reading List

namespace Program

variable {nodes : List Node} {terms : List Term} {term : Term}

/-! ## Rows -/

/-- A row of pieces that is spaced in front of any row that ends a token, and in which all free names
are allowed; what is allowed may depend on the names that are bound around it. -/
structure Mentions (allowed : List String → String → Prop) (pieces : List Piece) : Prop where
  some : pieces ≠ []
  spaced : ∀ {row : List Piece}, Stops (pieceChars row) → Spaced row → Spaced (pieces ++ row)
  names : ∀ frames {rest : List Token}, Arrowless rest →
    ∀ word ∈ unbound frames (piecesTokens pieces ++ rest),
      allowed frames.reduceOption word ∨ word ∈ unbound frames rest

theorem Spaced.mark {sign : Mark} {row : List Piece} (closed : sign.growth? = none)
    (later : Spaced row) : Spaced (markPiece sign :: row) := by
  refine .token trivial ?_ later
  intro c _ grows
  rw [closed] at grows
  cases grows

theorem stops_blank (row : List Piece) : Stops (pieceChars (.blank :: row)) :=
  .cons (by decide)

theorem stops_comma (row : List Piece) : Stops (pieceChars (markPiece .comma :: row)) :=
  .cons (by decide)

theorem Spaced.blankOf {row : List Piece} (some : row ≠ []) (later : Spaced row) :
    Spaced (.blank :: row) := by
  obtain ⟨piece, row, rfl⟩ := exists_cons_of_ne_nil some
  exact .blank later

namespace Mentions

variable {allowed : List String → String → Prop} {pieces : List Piece}

theorem mono {wider : List String → String → Prop}
    (weaker : ∀ bound word, allowed bound word → wider bound word) (row : Mentions allowed pieces) :
    Mentions wider pieces where
  some := row.some
  spaced := row.spaced
  names frames _ arrowless word member :=
    (row.names frames arrowless word member).imp (weaker _ word) id

theorem token {token : Token} (spelled : token.IsSpelled) (passive : token.isPassive = true) :
    Mentions allowed [.token token] where
  some := cons_ne_nil _ _
  spaced stops later := .token spelled (stops.endsAt token) later
  names frames rest _ word member := by
    simp only [piecesTokens_token, piecesTokens_nil, cons_append, nil_append,
      unbound_passive passive] at member
    exact .inr member

theorem name {word : String} (identifier : Text.isIdentifier word = true)
    (free : ∀ bound, word ∉ bound → allowed bound word) : Mentions allowed [namePiece word] where
  some := cons_ne_nil _ _
  spaced stops later := .name identifier stops later
  names frames rest arrowless other member := by
    simp only [namePiece, piecesTokens_token, piecesTokens_nil, cons_append, nil_append,
      unbound_name word arrowless, mem_append] at member
    rcases member with here | later
    · split at here
      · cases here
      · next outside =>
        cases mem_singleton.mp here
        exact .inl (free _ (by rwa [reduceOption_mem_iff]))
    · exact .inr later

/-- A sign directly before a row. -/
theorem cons {token : Token} (spelled : token.IsSpelled) (passive : token.isPassive = true)
    (ends : ∀ row, token.EndsAt (pieceChars (pieces ++ row))) (mentions : Mentions allowed pieces) :
    Mentions allowed (.token token :: pieces) where
  some := cons_ne_nil _ _
  spaced stops later := .token spelled (ends _) (mentions.spaced stops later)
  names frames rest arrowless word member := by
    rw [piecesTokens_token, cons_append, unbound_passive passive] at member
    exact mentions.names frames arrowless word member

theorem consBlank {token : Token} (spelled : token.IsSpelled) (passive : token.isPassive = true)
    (mentions : Mentions allowed pieces) : Mentions allowed (.token token :: .blank :: pieces) where
  some := cons_ne_nil _ _
  spaced stops later := by
    have after : Spaced (.blank :: (pieces ++ _)) :=
      .blankOf (append_ne_nil_of_left_ne_nil mentions.some _) (mentions.spaced stops later)
    exact .token spelled ((stops_blank _).endsAt token) after
  names frames rest arrowless word member := by
    rw [piecesTokens_token, piecesTokens_blank, cons_append, unbound_passive passive] at member
    exact mentions.names frames arrowless word member

theorem separated (separator : Token) (spelled : separator.IsSpelled)
    (passive : separator.isPassive = true) (ordinary : separator ≠ .mark .arrow) :
    ∀ {parts : List (List Piece)}, parts ≠ [] → (∀ part ∈ parts, Mentions allowed part) →
      Mentions allowed (separated separator parts)
  | [], some, _ => absurd rfl some
  | [only], _, all => by
    rw [Program.separated, intercalate_singleton]
    exact all only (.head _)
  | first :: second :: parts, _, all => by
    have start := all first (.head _)
    have later := separated separator spelled passive ordinary (cons_ne_nil second parts)
      fun part member => all part (.tail _ member)
    rw [Program.separated, intercalate_cons_cons, ← Program.separated, append_assoc]
    refine ⟨append_ne_nil_of_left_ne_nil start.some _, fun stops after => ?_,
      fun frames rest arrowless word member => ?_⟩
    · have following := Spaced.blankOf (append_ne_nil_of_left_ne_nil later.some _)
        (later.spaced stops after)
      rw [append_assoc, append_assoc]
      exact start.spaced (stops_blank _)
        (.blank (.token spelled ((stops_blank _).endsAt separator) following))
    · simp only [piecesTokens_append, piecesTokens_token, piecesTokens_blank, append_assoc,
        cons_append, nil_append] at member
      rcases start.names frames (arrowless_cons ordinary) word member with here | after
      · exact .inl here
      · rw [unbound_passive passive] at after
        exact later.names frames arrowless word after

end Mentions

/-! ## Groups and calls -/

/-- A row that can stand in parentheses, with commas and perhaps a binder in it. -/
structure Inside (allowed : List String → String → Prop) (pieces : List Piece) : Prop where
  spaced : ∀ {row : List Piece}, Spaced row → Spaced (pieces ++ markPiece .closing :: row)
  names : ∀ frames rest, ∀ word ∈ unbound (none :: frames) (piecesTokens pieces ++ .mark .closing :: rest),
    allowed frames.reduceOption word ∨ word ∈ unbound frames rest

namespace Inside

variable {allowed : List String → String → Prop} {pieces more : List Piece}

theorem nil : Inside allowed [] where
  spaced later := .mark rfl later
  names _ _ _ member := .inr member

theorem single (row : Mentions allowed pieces) : Inside allowed pieces where
  spaced later := row.spaced (Stops.cons (by decide)) (.mark rfl later)
  names frames rest word member :=
    row.names (none :: frames) (arrowless_mark (by decide)) word member

/-- What stands after a comma. -/
theorem spaced_comma (later : Inside allowed more) {row : List Piece} (after : Spaced row) :
    Spaced (markPiece .comma :: .blank :: (more ++ markPiece .closing :: row)) :=
  .mark rfl (.blankOf (by simp) (later.spaced after))

theorem comma (row : Mentions allowed pieces) (later : Inside allowed more) :
    Inside allowed (pieces ++ markPiece .comma :: .blank :: more) where
  spaced after := by
    rw [append_assoc]
    exact row.spaced (stops_comma _) (later.spaced_comma after)
  names frames rest word member := by
    simp only [piecesTokens_append, markPiece, piecesTokens_token, piecesTokens_blank,
      append_assoc, cons_append] at member
    rcases row.names (none :: frames) (arrowless_mark (by decide)) word member with here | after
    · exact .inl here
    · exact later.names frames rest word after

/-- A binder before a comma. In its body the parameter is bound. -/
theorem binder {inner : List String → String → Prop} {parameter : String}
    (identifier : Text.isIdentifier parameter = true) (body : Mentions inner pieces)
    (narrower : ∀ bound word, inner (parameter :: bound) word → allowed bound word)
    (later : Inside allowed more) :
    Inside allowed (namePiece parameter :: .blank :: markPiece .arrow :: .blank ::
      (pieces ++ markPiece .comma :: .blank :: more)) where
  spaced after := by
    have inside := body.spaced (stops_comma _) (later.spaced_comma after)
    have arrow : Spaced (markPiece .arrow :: .blank :: (pieces ++ _)) :=
      .mark rfl (.blankOf (append_ne_nil_of_left_ne_nil body.some _) inside)
    have whole := Spaced.name identifier (stops_blank _) (.blank arrow)
    simpa using whole
  names frames rest word member := by
    simp only [namePiece, markPiece, piecesTokens_append, piecesTokens_token, piecesTokens_blank,
      append_assoc, cons_append, unbound_parameter, tail_cons] at member
    rcases body.names (Option.some parameter :: frames) (arrowless_mark (by decide)) word member with
      here | after
    · exact .inl (narrower _ word here)
    · exact later.names frames rest word after

theorem arguments : ∀ {args : List (List Piece)}, (∀ arg ∈ args, Mentions allowed arg) →
    Inside allowed ([markPiece .comma, .blank].intercalate args)
  | [], _ => nil
  | [only], all => by
    rw [intercalate_singleton]
    exact single (all only (.head _))
  | first :: second :: args, all => by
    have later := arguments fun arg member => all arg (mem_cons_of_mem first member)
    rw [intercalate_cons_cons, append_assoc]
    exact comma (all first (.head _)) later

theorem enclosed (inside : Inside allowed pieces) : Mentions allowed (enclosed pieces) where
  some := cons_ne_nil _ _
  spaced _ later := by
    have whole := @Spaced.mark .opening _ rfl (inside.spaced later)
    simpa [Program.enclosed] using whole
  names frames rest _ word member := by
    refine inside.names frames rest word ?_
    simpa [Program.enclosed, markPiece, unbound_opening] using member

end Inside

namespace Mentions

variable {allowed : List String → String → Prop} {pieces : List Piece}

theorem enclosed (row : Mentions allowed pieces) : Mentions allowed (enclosed pieces) :=
  (Inside.single row).enclosed

/-- A function before a group of arguments. -/
theorem applied {word : String} (identifier : Text.isIdentifier word = true)
    (free : ∀ bound, word ∉ bound → allowed bound word) (inside : Inside allowed pieces) :
    Mentions allowed (namePiece word :: Program.enclosed pieces) where
  some := cons_ne_nil _ _
  spaced stops later := .name identifier (Stops.cons (by decide)) (inside.enclosed.spaced stops later)
  names frames rest arrowless other member := by
    rcases (Mentions.name identifier free).names frames (arrowless_mark (by decide)) other member with
      here | later
    · exact .inl here
    · exact inside.enclosed.names frames arrowless other later

theorem call {word : String} (identifier : Text.isIdentifier word = true)
    (free : ∀ bound, word ∉ bound → allowed bound word) {args : List (List Piece)}
    (all : ∀ arg ∈ args, Mentions allowed arg) : Mentions allowed (callPieces word args) :=
  applied identifier free (.arguments all)

end Mentions

/-! ## Readings -/

section Readings

variable {here : String} {node : Node}

theorem isBuiltin_programName {function : Elementary} {count : Nat} {name : String}
    (found : function.programName? count = some name) : isBuiltinName name = true := by
  unfold Elementary.programName? at found
  split at found <;> cases found <;> decide

/-- The row of a reading with names that a tree mentions. -/
abbrev Row (here : String) (node : Node) (term : Term) : Prop :=
  Mentions (node.Mentioned here) (pieces here term)

theorem Row.of_reaches {part : Node} (row : Row here part term) (reaches : part.Reaches node) :
    Row here node term :=
  row.mono fun _ _ mentioned => mentioned.of_reaches reaches

theorem Row.of_only {part : Node} (only : Row here part term) (operator : Operator)
    (unbound : operator ≠ .integrate) : Row here (.of operator [part]) term :=
  only.of_reaches (Node.reaches_arg unbound (.head _))

theorem rows_of_forall₂ (all : Forall₂ (Row here) nodes terms)
    (inside : ∀ part ∈ nodes, part.Reaches node) :
    ∀ row ∈ piecesArgs here terms, Mentions (node.Mentioned here) row := by
  induction all with
  | nil => simp [piecesArgs]
  | cons first _ ih =>
    rw [forall_mem_cons] at inside
    rw [piecesArgs, forall_mem_cons]
    exact ⟨first.of_reaches inside.1, ih inside.2⟩

theorem piecesArgs_ne_nil (all : Forall₂ (Row here) nodes terms) (some : nodes ≠ []) :
    piecesArgs here terms ≠ [] := by
  cases all with
  | nil => exact absurd rfl some
  | cons => exact cons_ne_nil _ _

theorem row_number (value : Float) : Row here node (.number value) := by
  have named : ∀ {word : String}, Text.isIdentifier word = true → isBuiltinName word = true →
      Mentions (node.Mentioned here) [namePiece word] := fun identifier known =>
    .name identifier fun _ _ => .builtin known
  have nan := @named "NaN" (by decide) (by decide)
  have infinity := @named "Infinity" (by decide) (by decide)
  unfold Row
  rw [pieces, numberPieces]
  split
  · exact nan
  · next defined =>
    split
    · next negative =>
      refine .enclosed ?_
      split
      · refine .cons trivial rfl (fun row => ?_) infinity
        intro c member grows
        cases member
        cases grows
      · next finite =>
        have spelled := isSpelled_negated negative finite
        refine .cons trivial rfl (fun row => ?_) (.token spelled rfl)
        rw [pieceChars_append]
        exact minus_endsAt_number spelled _
    · next nonnegative =>
      split
      · exact infinity
      · next finite => exact .token (isSpelled_magnitude defined nonnegative finite) rfl

theorem row_symbol {name : String} (named : (isConstantName name || isName name) = true) :
    Row here (.symbol name) (.symbol name) := by
  unfold Row
  rw [pieces]
  rcases resolveConstant_cases name with ⟨other, same⟩ | ⟨-, member⟩
  · rw [other, Bool.false_or] at named
    rw [same]
    refine .name (isIdentifier_of_isName named) fun bound outside => .free ?_
    simp [Node.freeOccurrences, outside]
  · have words : ∀ word ∈ constantNames.map (·.2),
        Text.isIdentifier word = true ∧ isBuiltinName word = true := by decide
    exact .name (words _ member).1 fun _ _ => .builtin (words _ member).2

/-- A primed name stands for its derivative, and a callee is a symbol. -/
theorem row_application {head : Node} {args : List Term} (made : Application head args term)
    (reaches : head.Reaches node)
    (all : ∀ row ∈ piecesArgs here args, Mentions (node.Mentioned here) row) :
    Row here node term := by
  unfold Row
  cases made with
  | @derivative name primed =>
    unfold primedName? at primed
    split at primed
    · split at primed <;> cases primed
      rename_i named
      exact .call (isIdentifier_derivativeName (isIdentifier_of_isName named))
        (fun _ _ => .derivative reaches.sub) all
    · cases primed
  | @call name callee =>
    unfold calleeName? at callee
    split at callee
    · split at callee <;> cases callee
      rename_i named
      rw [Bool.and_eq_true] at named
      refine .call (isIdentifier_of_isName named.2) (fun bound outside => ?_) all
      exact .free (reaches.freeOccurrences (by simp [Node.freeOccurrences, outside]))
    · cases callee

theorem rows_of_factors (factors : Factors (Row here) nodes terms)
    (among : ∀ part ∈ nodes, part.Reaches node) :
    ∀ row ∈ piecesArgs here terms, Mentions (node.Mentioned here) row := by
  induction factors with
  | nil => simp [piecesArgs]
  | plain _ first _ ih =>
    rw [forall_mem_cons] at among
    rw [piecesArgs, forall_mem_cons]
    exact ⟨first.of_reaches among.1, ih among.2⟩
  | applied found all made _ ih =>
    rw [forall_mem_cons, forall_mem_cons] at among
    obtain ⟨head, group, rest⟩ := among
    have items := rows_of_forall₂ all fun part member => (Node.reaches_items found member).trans group
    rw [piecesArgs, forall_mem_cons]
    exact ⟨row_application made head items, ih rest⟩

theorem row_chain {relations : List Relation}
    (linked : Chain.linksOf relations (piecesArgs here terms) ≠ [])
    (all : ∀ row ∈ piecesArgs here terms, Mentions (node.Mentioned here) row) :
    Row here node (.chain terms relations) := by
  have links : ∀ row ∈ (Chain.linksOf relations (piecesArgs here terms)).map fun link =>
      enclosed (separated (.mark (.relation link.head)) [link.left, link.right]),
      Mentions (node.Mentioned here) row := by
    intro row member
    obtain ⟨link, among, rfl⟩ := mem_map.mp member
    obtain ⟨left, right⟩ := mem_linksOf among
    refine .enclosed (.separated (.mark (.relation link.head)) trivial rfl nofun
      (cons_ne_nil _ _) ?_)
    simp only [forall_mem_cons]
    exact ⟨all _ left, all _ right, fun _ member => nomatch member⟩
  unfold Row
  rw [pieces, chainPieces]
  split
  · next link single =>
    rw [single] at links
    exact links link (.head _)
  · next others _ =>
    exact .enclosed (.separated (.keyword .and) trivial rfl nofun (by simpa using linked) links)

theorem row_connective (connective : Connective) (some : piecesArgs here terms ≠ [])
    (all : ∀ row ∈ piecesArgs here terms, Mentions (node.Mentioned here) row) :
    Row here node (.connective connective terms) := by
  unfold Row
  rw [pieces]
  unfold connectivePieces
  split
  · next only single =>
    rw [single] at all
    exact all only (.head _)
  · exact .enclosed (.separated (.keyword (connectiveKeyword connective)) trivial rfl nofun some all)

/-- Two sides in parentheses with a sign between them. -/
theorem row_sides (sign : Token) (spelled : sign.IsSpelled) (passive : sign.isPassive = true)
    (ordinary : sign ≠ .mark .arrow) {s t : Term} (first : Row here node s)
    (second : Row here node t) :
    Mentions (node.Mentioned here)
      (separated sign [enclosed (pieces here s), enclosed (pieces here t)]) := by
  refine .separated sign spelled passive ordinary (cons_ne_nil _ _) ?_
  simp only [forall_mem_cons]
  exact ⟨first.enclosed, second.enclosed, fun _ member => nomatch member⟩

theorem row_integral {argument limits body lower upper : Node} {parameter : String}
    {bound : Option String} {b l u : Term}
    (integrand : argument.integrand? = some (parameter, body))
    (limited : limits.limits? = some (bound, lower, upper))
    (named : isName (Node.integralName here parameter bound) = true)
    (inside : Row here body b) (low : Row here lower l) (high : Row here upper u) :
    Row here (.of .integrate [argument, limits])
      (.integral (Node.integralName here parameter bound) b l u) := by
  have outer : Node.Sub limits (.of .integrate [argument, limits]) :=
    .inr (.arg (.tail _ (.head _)))
  have limit : ∀ {part : Node} {term : Term}, part.Reaches limits → Row here part term →
      Row here (.of .integrate [argument, limits]) term := by
    intro part term reaches row
    refine row.mono fun outside word mentioned => ?_
    refine mentioned.of_sub (reaches.sub.trans outer) fun occurs => ?_
    rw [Node.freeOccurrences_integrate, mem_append]
    exact .inr (reaches.freeOccurrences occurs)
  obtain ⟨reachesLow, reachesHigh⟩ := Node.reaches_limits limited
  unfold Row
  refine .applied (by decide) (fun _ _ => .integral) ?_
  have limitsRow := Inside.comma (limit reachesLow low) (.single (limit reachesHigh high))
  have whole := Inside.binder (isIdentifier_of_isName named) inside (fun outside word mentioned =>
    mentioned.of_sub (.inr ((Node.reaches_integrand integrand).sub.within (.head _)))
      (Node.mem_freeOccurrences_integrand integrand limited)) limitsRow
  simpa [intercalate_cons_cons] using whole

/-- A rule makes a row with names that the tree mentions of such rows of its parts. -/
theorem row_of_rule (default : Text.isIdentifier here = true)
    (rule : Rule here (Row here) node term) : Row here node term := by
  cases rule with
  | number value => exact row_number value
  | symbol named => exact row_symbol named
  | joined joiner some all =>
    have other : joiner.operator ≠ .integrate := by cases joiner <;> decide
    unfold Row
    exact .enclosed (.separated (.mark (joinerMark joiner)) trivial (by cases joiner <;> rfl)
      (by cases joiner <;> exact nofun) (piecesArgs_ne_nil all some)
      (rows_of_forall₂ all fun _ => Node.reaches_arg other))
  | @quotient operator divides a b s t first second =>
    have other : operator ≠ .integrate := by rcases divides with rfl | rfl <;> decide
    exact row_sides (.mark .divide) trivial rfl nofun
      (first.of_reaches (Node.reaches_arg other (.head _)))
      (second.of_reaches (Node.reaches_arg other (.tail _ (.head _))))
  | power first second =>
    exact row_sides (.mark .power) trivial rfl nofun
      (first.of_reaches (Node.reaches_arg (by decide) (.head _)))
      (second.of_reaches (Node.reaches_arg (by decide) (.tail _ (.head _))))
  | negate only =>
    have inside := only.of_only .negate (by decide)
    unfold Row
    refine .cons trivial rfl (fun row => ?_) inside.enclosed
    intro c member grows
    cases member
    cases grows
  | @elementary function nodes terms takes all =>
    rw [all.length_eq] at takes
    obtain ⟨name, found⟩ := Option.isSome_iff_exists.mp takes
    unfold Row
    rw [pieces, found]
    exact .call (isIdentifier_of_isName (isWord_programName found).named)
      (fun _ _ => .builtin (isBuiltin_programName found))
      (rows_of_forall₂ all fun _ => @Node.reaches_arg (.elementary function) nofun _ _)
  | @chain relation nodes terms compares all =>
    have some : nodes ≠ [] := by
      rintro rfl
      exact compares rfl
    have count := Node.length_flattened id relation nodes some
    have linked : Chain.linksOf (Node.comparisonChain relation nodes).heads (piecesArgs here terms)
        ≠ [] := by
      refine linksOf_ne_nil compares ?_
      rw [piecesArgs_eq_map, length_map, ← all.length_eq]
      exact count
    refine row_chain linked (rows_of_forall₂ all fun part member => ?_)
    obtain ⟨whole, among, reaches⟩ := Node.reaches_flattened id relation nodes member
    exact .arg nofun among reaches
  | connective connective some all =>
    have other : connective.operator ≠ .integrate := by cases connective <;> decide
    exact row_connective connective (piecesArgs_ne_nil all some)
      (rows_of_forall₂ all fun _ => Node.reaches_arg other)
  | not only =>
    have inside := only.of_only .not (by decide)
    unfold Row
    exact .enclosed (.consBlank trivial rfl inside)
  | derivativeHere named =>
    unfold Row
    refine .call (isIdentifier_derivativeName (isIdentifier_of_isName named))
      (fun _ _ => .derivative (.refl _)) ?_
    rw [forall_mem_singleton]
    exact .name default fun _ _ => .here
  | @wrapped operator wraps _ _ only =>
    have other : operator ≠ .integrate := by
      rintro rfl
      exact absurd wraps (by decide)
    exact only.of_only operator other
  | single factors =>
    have rows := rows_of_factors factors fun _ => @Node.reaches_arg .invisible (by decide) _ _
    exact rows _ (.head _)
  | product factors =>
    have rows := rows_of_factors factors fun _ => @Node.reaches_arg .invisible (by decide) _ _
    unfold Row
    exact .enclosed (.separated (.mark .times) trivial rfl nofun (cons_ne_nil _ _) rows)
  | tuple all made =>
    exact row_application made (Node.reaches_arg (by decide) (.head _))
      (rows_of_forall₂ all fun _ => Node.reaches_tupleArguments)
  | call named all =>
    unfold Row
    refine .call (isIdentifier_of_isName named) (fun _ _ => .head (.refl _)) ?_
    exact rows_of_forall₂ all fun part member => .arg nofun member (.self part)
  | integral integrand limited named inside low high =>
    exact row_integral integrand limited named inside low high

/-- The row of a tree has names only that the tree mentions. -/
theorem row_of_read (default : Text.isIdentifier here = true) (found : read here node = some term) :
    Row here node term :=
  read_of_rules (H := fun _ => True) (fun _ => id) (fun _ => row_of_rule default) found trivial

end Readings

end Program

end Grapher
