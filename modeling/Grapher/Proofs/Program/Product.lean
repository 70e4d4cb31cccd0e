import Grapher.Proofs.Program.Preservation

/-!
# Products of trees

A product is written with its factors side by side, and a quotient among them is written without
parentheses of its own. So the program of a product is the left-to-right product of its factors only
as far as none of them after the first is a quotient; a quotient multiplies what stands to its left
by its numerator and divides the whole by its denominator. The difference shows where the larger
product overflows.
-/

set_option autoImplicit false

namespace Grapher

open Reading Program List Node

/-- The factors of a product: the operands of a multiplication, or the items of a juxtaposition in
which no item takes the next one as its arguments. -/
inductive IsProduct : Node → List Node → Prop where
  | multiply {factors : List Node} (several : 2 ≤ factors.length) :
      IsProduct (.of .multiply factors) factors
  | juxtaposed {factors : List Node}
      (apart : ∀ nodes, nodes <:+ factors → takesNext nodes = false) :
      IsProduct (.of .invisible factors) factors

/-! ## The factors of a product -/

section Factors

variable {here : String} {node : Node} {factors : List Node}

theorem juxtaposed_of_apart (apart : ∀ nodes, nodes <:+ factors → takesNext nodes = false) :
    juxtaposed factors = factors.map .factor := by
  induction factors with
  | nil => rfl
  | cons first rest ih =>
    have later := ih fun nodes suffix => apart nodes (suffix.trans (suffix_cons first rest))
    rw [juxtaposed_plain (apart _ (suffix_refl _)), later, map_cons]

theorem forall₂_of_factors {R : Node → Term → Prop} {terms : List Term}
    (apart : ∀ nodes, nodes <:+ factors → takesNext nodes = false)
    (all : Factors R factors terms) : Forall₂ R factors terms := by
  induction all with
  | nil => exact .nil
  | plain _ first _ ih =>
    exact .cons first (ih fun nodes suffix => apart nodes (suffix.trans (suffix_cons _ _)))
  | @applied head group items nodes term args terms found _ made _ _ =>
    have taken := apart _ (suffix_refl _)
    obtain ⟨name, called, -⟩ := @applicationName_of_application term "" head args made
    simp [takesNext, isSome_application?, called, found] at taken

theorem exists_of_forall₂ {R : Node → Term → Prop} {terms : List Term}
    (all : Forall₂ R factors terms) {factor : Node} (member : factor ∈ factors) :
    ∃ term, R factor term := by
  induction all with
  | nil => cases member
  | cons first _ ih =>
    rcases mem_cons.mp member with rfl | later
    · exact ⟨_, first⟩
    · exact ih later

/-- The factors of a product that has a reading have readings. -/
theorem IsProduct.readAll (product : IsProduct node factors) {term : Term}
    (found : read here node = some term) :
    factors ≠ [] ∧ ∃ terms, ReadAll here factors terms := by
  have rule := rule_of_read found
  cases product with
  | multiply several =>
    refine ⟨(by rintro rfl; simp at several), ?_⟩
    generalize whole : of .multiply factors = node at rule
    cases rule with
    | joined joiner _ all =>
      cases joiner <;> cases whole
      exact ⟨_, all⟩
    | connective connective => cases connective <;> cases whole
    | quotient divides =>
      cases whole
      simp at divides
    | wrapped wraps =>
      cases whole
      simp at wraps
    | _ => cases whole
  | juxtaposed apart =>
    generalize whole : of .invisible factors = node at rule
    cases rule with
    | single all | product all =>
      cases whole
      have parts := forall₂_of_factors apart all
      exact ⟨(by rintro rfl; cases parts), _, parts⟩
    | joined joiner => cases joiner <;> cases whole
    | connective connective => cases connective <;> cases whole
    | quotient divides =>
      cases whole
      simp at divides
    | wrapped wraps =>
      cases whole
      simp at wraps
    | _ => cases whole

theorem IsProduct.within (product : IsProduct node factors) {factor : Node}
    (member : factor ∈ factors) : factor.Within node := by
  cases product <;> exact .arg member

theorem IsProduct.evaluate (product : IsProduct node factors) (call : Apply) (helpers : Scope) :
    node.evaluate call helpers here
      = .product (factors.map (evaluateFactor call helpers here)) := by
  cases product with
  | multiply => rw [evaluate]
  | juxtaposed apart =>
    rw [evaluate_invisible, juxtaposed_of_apart apart, map_map]
    rfl

end Factors

/-! ## The programs of the factors -/

section Compiled

variable {call : Apply} {helpers : Scope} {here : String} {node : Node} {term : Term}

theorem run_compiled (default : IsWord here) (found : read here node = some term)
    (spellable : node.Spellable) :
    Expr.run call helpers (node.compiled here) = node.evaluate call helpers here := by
  rw [(compiled_of_read default found spellable).2]
  exact run_of_read default found spellable

theorem parse_text (default : IsWord here) (spellable : node.Spellable) {text : String}
    (written : textOf? here node = some text) :
    parse text = .ok (node.compiled here) := by
  obtain ⟨term, found, -⟩ := Option.map_eq_some_iff.mp written
  obtain ⟨parsed, same⟩ := compiled_of_read default found spellable
  rw [textOf, written, Option.getD_some] at parsed
  rw [parsed, same]

/-- The factor that a tree is by the programs of its parts: a quotient if it is a bare one, with its
sides compiled on their own, else the tree compiled on its own. -/
def Node.compiledFactor (call : Apply) (helpers : Scope) (here : String) (node : Node) :
    Run.Factor :=
  match node.bareQuotient? with
  | some (a, b) =>
    .quotient (Expr.run call helpers (a.compiled here)) (Expr.run call helpers (b.compiled here))
  | none => .plain (Expr.run call helpers (node.compiled here))

theorem compiledFactor_some {a b : Node} (bare : node.bareQuotient? = some (a, b)) :
    node.compiledFactor call helpers here
      = .quotient (Expr.run call helpers (a.compiled here))
        (Expr.run call helpers (b.compiled here)) := by
  rw [compiledFactor, bare]

theorem compiledFactor_none (bare : node.bareQuotient? = none) :
    node.compiledFactor call helpers here
      = .plain (Expr.run call helpers (node.compiled here)) := by
  rw [compiledFactor, bare]

theorem compiledFactor_eq (default : IsWord here) (found : read here node = some term)
    (spellable : node.Spellable) :
    node.compiledFactor call helpers here = node.evaluateFactor call helpers here := by
  rcases bareAgrees_of_read found with ⟨bare, -⟩ | ⟨a, b, s, t, bare, -, first, second, -⟩
  · rw [compiledFactor_none bare, evaluateFactor_none _ _ _ bare,
      run_compiled default found spellable]
  · obtain ⟨left, right⟩ := within_bareQuotient bare
    rw [compiledFactor_some bare, evaluateFactor_some _ _ _ bare,
      run_compiled default first (spellable.within left),
      run_compiled default second (spellable.within right)]

/-- At the start of a product a quotient stands for itself. -/
theorem first_compiledFactor (default : IsWord here) (found : read here node = some term)
    (spellable : node.Spellable) :
    (node.compiledFactor call helpers here).first
      = Expr.run call helpers (node.compiled here) := by
  rcases bareAgrees_of_read found with ⟨bare, -⟩ | ⟨a, b, s, t, bare, -, first, second, same⟩
  · rw [compiledFactor_none bare]
    rfl
  · obtain ⟨left, right⟩ := within_bareQuotient bare
    rw [compiledFactor_some bare, (compiled_of_read default found spellable).2, same,
      Expr.run_arithmetic, (compiled_of_read default first (spellable.within left)).2,
      (compiled_of_read default second (spellable.within right)).2]
    rfl

/-- Factors that are no quotients multiply what stands to their left, one after the other. -/
theorem foldl_compiledFactor {nodes : List Node} (plain : ∀ node ∈ nodes, node.bareQuotient? = none)
    (left : Run) :
    (nodes.map (compiledFactor call helpers here)).foldl Run.Factor.after left
      = (nodes.map fun node => Expr.run call helpers (node.compiled here)).foldl
        (.binary .multiply) left := by
  induction nodes generalizing left with
  | nil => rfl
  | cons node nodes ih =>
    rw [map_cons, foldl_cons, compiledFactor_none (plain node (.head _)),
      ih fun node later => plain node (.tail _ later)]
    rfl

end Compiled

/-- The value of a product. A product that has a program text has a program, and so has each of its
factors on its own. The value of the product is made of the values of the factors from left to
right, failing with the first of them that fails. A factor multiplies what stands to its left by its
value, except for a quotient: its numerator multiplies what stands to its left, and its denominator
divides the whole. So without a quotient after the first factor, the value is the product of the
values. -/
theorem eval_product {here text : String} {node : Node} {factors : List Node}
    (default : isName here = true) (defaultAscii : Program.isAscii here = true)
    (ascii : node.isAscii = true) (product : IsProduct node factors)
    (written : textOf? here node = some text) :
    Program.parse text = .ok (node.compiled here) ∧
    (∀ factor ∈ factors, ∃ factorText, textOf? here factor = some factorText ∧
      Program.parse factorText = .ok (factor.compiled here)) ∧
    (∀ call helpers scope moment, (node.compiled here).eval call helpers scope moment
      = Run.product (factors.map (Node.compiledFactor call helpers here)) scope moment) ∧
    ((∀ factor ∈ factors.tail, factor.bareQuotient? = none) →
      ∀ call helpers scope moment, (node.compiled here).eval call helpers scope moment
        = Run.folded (.binary .multiply)
          (factors.map fun factor => Expr.run call helpers (factor.compiled here))
          scope moment) := by
  have word : IsWord here := ⟨default, defaultAscii⟩
  have spellable := spellable_of_isAscii ascii
  obtain ⟨term, found, -⟩ := Option.map_eq_some_iff.mp written
  obtain ⟨some, terms, all⟩ := product.readAll found
  have part : ∀ factor ∈ factors, factor.Spellable ∧ ∃ term, read here factor = .some term := by
    intro factor member
    exact ⟨spellable.within (product.within member), exists_of_forall₂ all member⟩
  have value : ∀ call helpers, Expr.run call helpers (node.compiled here)
      = .product (factors.map (compiledFactor call helpers here)) := by
    intro call helpers
    rw [run_compiled word found spellable, product.evaluate]
    refine congrArg Run.product (map_congr_left fun factor member => ?_)
    obtain ⟨spelled, factorTerm, readFactor⟩ := part factor member
    exact (compiledFactor_eq word readFactor spelled).symm
  refine ⟨parse_text word spellable written, fun factor member => ?_, ?_, ?_⟩
  · obtain ⟨spelled, factorTerm, readFactor⟩ := part factor member
    have writtenFactor : textOf? here factor = .some (piecesText (pieces here factorTerm)) := by
      rw [textOf?, readFactor, Option.map_some]
    exact ⟨_, writtenFactor, parse_text word spelled writtenFactor⟩
  · intro call helpers scope moment
    exact congrFun (congrFun (value call helpers) scope) moment
  · intro plain call helpers scope moment
    refine congrFun (congrFun ((value call helpers).trans ?_) scope) moment
    cases factors with
    | nil => exact absurd rfl some
    | cons first rest =>
      rw [tail_cons] at plain
      obtain ⟨spelled, firstTerm, readFirst⟩ := part first (.head _)
      rw [map_cons, Run.product, first_compiledFactor word readFirst spelled,
        foldl_compiledFactor plain, map_cons, Run.folded]

/-- A quotient in front of a grouped sum, side by side. -/
theorem eval_product_quotient_first :
    let quotient := of .divide [.symbol "x", .symbol "y"]
    let group := of .delimiter [.of .add [.symbol "x", .number 1]]
    let node := of .invisible [quotient, group]
    textOf? "x" node = some "((x) / (y) * (x + 1))" ∧
    ∀ call helpers scope moment, (node.compiled "x").eval call helpers scope moment
      = Run.binary .multiply (Expr.run call helpers (quotient.compiled "x"))
        (Expr.run call helpers (group.compiled "x")) scope moment := by
  intro quotient group node
  have written : textOf? "x" node = some "((x) / (y) * (x + 1))" := by decide +kernel
  have apart : ∀ nodes, nodes <:+ [quotient, group] → takesNext nodes = false := by
    intro nodes suffix
    simp only [suffix_cons_iff, suffix_nil] at suffix
    rcases suffix with rfl | rfl | rfl <;> rfl
  have product := @eval_product "x" _ node [quotient, group] (by decide) (by decide) (by decide)
    (.juxtaposed apart) written
  exact ⟨written, product.2.2.2 (by simp [group, bareQuotient?])⟩

/-- Whether a result is a given double. -/
def isDouble (expected : Float) : Except Fault Value → Bool
  | .ok (.float value) => value == expected
  | _ => false

set_option maxRecDepth 4000 in
/-- A quotient after the first factor is not kept together: a product overflows although the product
of the values of its factors is finite. -/
theorem product_regroups_quotient :
    let quotient := of .divide [.symbol "y", .symbol "z"]
    let node := of .multiply [.symbol "x", quotient]
    let scope : Scope := [("x", .float 1e308), ("y", .float 10), ("z", .float 10)]
    let value := (node.compiled "x").eval apply (engineHelpers defaultIntervals) scope .start
    let ofFactors := Run.folded (.binary .multiply) ([.symbol "x", quotient].map fun factor =>
      Expr.run apply (engineHelpers defaultIntervals) (factor.compiled "x")) scope .start
    IsProduct node [.symbol "x", quotient] ∧
    textOf? "x" node = some "(x * (y) / (z))" ∧
    parse "(x * (y) / (z))" = .ok (node.compiled "x") ∧
    isDouble Double.infinity value = true ∧ isDouble 1e308 ofFactors = true ∧
    value ≠ ofFactors := by
  intro quotient node scope value ofFactors
  have written : textOf? "x" node = some "(x * (y) / (z))" := by decide +kernel
  have infinite : isDouble Double.infinity value = true := by decide +kernel
  have finite : isDouble Double.infinity ofFactors = false := by decide +kernel
  have spellable : node.Spellable := spellable_of_isAscii (by decide)
  refine ⟨.multiply (by decide), written, parse_text ⟨by decide, by decide⟩ spellable written,
    infinite, by decide +kernel, ?_⟩
  intro same
  rw [same, finite] at infinite
  cases infinite

end Grapher
