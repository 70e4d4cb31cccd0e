import Grapher.Proofs.Formula.Edges
import Grapher.Proofs.Program.FirstArgument
import Grapher.Proofs.Program.Writable
import Grapher.Proofs.Reading.Renaming
import Mathlib.Logic.Equiv.Basic

/-!
# Integration variables

The variable of an integral can have any name that its integrand does not use otherwise: the integral
over another variable, with the variable replaced throughout the integrand, has the same value in
every scope (`results_of_renamed_integral`).
-/

set_option autoImplicit false

namespace Grapher

open Reading List Term

/-! ## Programs of renamed readings -/

namespace Program

section Expressions

variable {π : Equiv.Perm String}

theorem rename_leftFold (combine : Expr → Expr → Expr)
    (commutes : ∀ a b, (combine a b).rename π = combine (a.rename π) (b.rename π))
    (es : List Expr) :
    leftFold combine (es.map (Expr.rename π)) = (leftFold combine es).rename π := by
  cases es with
  | nil => rfl
  | cons first more =>
    rw [map_cons, leftFold, leftFold, foldl_map]
    exact foldl_hom (Expr.rename π) fun a b => (commutes a b).symm

theorem rename_timesFactor (left : Expr) (bare : Bool) (factor : Expr) :
    (timesFactor left bare factor).rename π
      = timesFactor (left.rename π) bare (factor.rename π) := by
  cases bare with
  | false => rfl
  | true =>
    cases factor with
    | arithmetic operation a b => cases operation <;> rfl
    | _ => rfl

theorem rename_productExpr (factors : List (Bool × Expr)) :
    productExpr (factors.map fun factor => (factor.1, factor.2.rename π))
      = (productExpr factors).rename π := by
  cases factors with
  | nil => rfl
  | cons first more =>
    rw [map_cons, productExpr, productExpr, foldl_map]
    exact foldl_hom (Expr.rename π) fun left factor =>
      (rename_timesFactor left factor.1 factor.2).symm

theorem rename_chainExpr (terms : List Expr) (relations : List Relation) :
    chainExpr (terms.map (Expr.rename π)) relations = (chainExpr terms relations).rename π := by
  rw [chainExpr, chainExpr, linksOf_map, ← rename_leftFold .and fun _ _ => rfl, map_map, map_map]
  rfl

theorem rename_numberExpr (keeps : KeepsWords π) (value : Float) :
    (numberExpr value).rename π = numberExpr value := by
  have builtin : ∀ word, isBuiltinName word = true → (Expr.name word).rename π = .name word := by
    intro word known
    rw [Expr.rename, keeps.builtin word known]
  have undefined := builtin "NaN" (by decide)
  have infinite := builtin "Infinity" (by decide)
  unfold numberExpr
  split
  · exact undefined
  · split
    · rw [Expr.rename]
      split
      · rw [infinite]
      · rfl
    · split
      · exact infinite
      · rfl

theorem resolveConstant_rename (keeps : KeepsWords π) (name : String) :
    resolveConstant (π name) = π (resolveConstant name) := by
  rcases resolveConstant_cases name with ⟨other, same⟩ | ⟨constant, member⟩
  · rcases resolveConstant_cases (π name) with ⟨-, same'⟩ | ⟨constant, -⟩
    · rw [same, same']
    · rw [keeps.isConstantName, other] at constant
      cases constant
  · have words : ∀ word ∈ constantNames.map (·.2), isBuiltinName word = true := by decide
    rw [keeps.constant name constant, keeps.builtin _ (words _ member)]

end Expressions

end Program

namespace Reading.Term

theorem isBare_rename (π : Equiv.Perm String) : ∀ term : Term, (term.rename π).isBare = term.isBare
  | .connective _ [only] => isBare_rename π only
  | .connective _ [] | .connective _ (_ :: _ :: _) | .number _ | .symbol _ | .joined _ _
  | .product _ | .quotient _ _ | .power _ _ | .negate _ | .elementary _ _ | .chain _ _ | .not _
  | .derivative _ _ | .derivativeHere _ | .call _ _ | .integral _ _ _ _ => rfl

end Reading.Term

namespace Program

/-- A reading that can be renamed before or after its program is made, and whose program does not
have the default variable in it. -/
structure Carries (π : Equiv.Perm String) (there : String) (term : Term) : Prop where
  derives : term.derivesHere = false
  program : expr there (term.rename π) = (expr there term).rename π

section Readings

variable {π : Equiv.Perm String} {there : String}

section Several

variable {terms : List Term} (all : ∀ term ∈ terms, Carries π there term)

include all

theorem derivesHereArgs_of_carries : derivesHereArgs terms = false := by
  induction terms with
  | nil => rfl
  | cons term terms ih =>
    obtain ⟨first, rest⟩ := forall_mem_cons.mp all
    rw [derivesHereArgs, first.derives, ih rest]
    rfl

theorem exprArgs_rename :
    exprArgs there (terms.map (rename π)) = (exprArgs there terms).map (Expr.rename π) := by
  rw [exprArgs_eq_map, exprArgs_eq_map, map_map, map_map]
  exact map_congr_left fun term member => (all term member).program

theorem exprFactors_rename :
    exprFactors there (terms.map (rename π))
      = (exprFactors there terms).map fun factor => (factor.1, factor.2.rename π) := by
  rw [exprFactors_eq_map, exprFactors_eq_map, map_map, map_map]
  refine map_congr_left fun term member => ?_
  simp only [Function.comp_apply, isBare_rename, (all term member).program]

theorem carries_product : Carries π there (.product terms) where
  derives := derivesHereArgs_of_carries all
  program := by
    rw [rename, renameArgs_eq_map, expr, expr, exprFactors_rename all, rename_productExpr]

theorem carries_call (function : String) : Carries π there (.call function terms) where
  derives := derivesHereArgs_of_carries all
  program := by
    rw [rename, renameArgs_eq_map, expr, expr, exprArgs_rename all, Expr.rename,
      Expr.rename, Expr.renameArgs_eq_map]

theorem carries_joined (joiner : Joiner) : Carries π there (.joined joiner terms) where
  derives := derivesHereArgs_of_carries all
  program := by
    rw [rename, renameArgs_eq_map]
    cases joiner with
    | multiply => rw [expr, expr, exprFactors_rename all, rename_productExpr]
    | add => rw [expr, expr, exprArgs_rename all, rename_leftFold (.arithmetic .add) fun _ _ => rfl]
    | subtract =>
      rw [expr, expr, exprArgs_rename all, rename_leftFold (.arithmetic .subtract) fun _ _ => rfl]

end Several

theorem carries_application {head : Node} {args : List Term} {term : Term}
    (plain : head.isOperation .prime = false) (made : Application head args term)
    (all : ∀ term ∈ args, Carries π there term) : Carries π there term := by
  cases made with
  | derivative primed =>
    unfold primedName? at primed
    split at primed
    · cases plain
    · cases primed
  | call => exact carries_call all _

theorem carries_factors {nodes : List Node} {terms : List Term}
    (plain : ∀ node ∈ nodes, node.isOperation .prime = false)
    (factors : Factors (fun _ term => Carries π there term) nodes terms) :
    ∀ term ∈ terms, Carries π there term := by
  induction factors with
  | nil => simp
  | plain _ first _ ih =>
    exact forall_mem_cons.mpr ⟨first, ih fun node member => plain node (.tail _ member)⟩
  | applied _ all made _ ih =>
    refine forall_mem_cons.mpr ⟨?_, ih fun node member => plain node (.tail _ (.tail _ member))⟩
    exact carries_application (plain _ (.head _)) made (forall_right all fun _ _ => id)

/-- Every rule but those of derivatives carries a renaming on. -/
theorem carries_of_rule (keeps : KeepsWords π) {here : String} {node : Node} {term : Term}
    (plain : node.Throughout fun part => part.isOperation .prime = false)
    (rule : Rule here (fun _ term => Carries π there term) node term) : Carries π there term := by
  have listed : ∀ {nodes : List Node} {terms : List Term},
      Forall₂ (fun _ term => Carries π there term) nodes terms →
      ∀ term ∈ terms, Carries π there term := fun all => forall_right all fun _ _ => id
  have factored : ∀ {nodes : List Node} {terms : List Term},
      node = .of .invisible nodes → Factors (fun _ term => Carries π there term) nodes terms →
      ∀ term ∈ terms, Carries π there term := by
    rintro nodes terms rfl factors
    exact carries_factors (fun part member => (plain.within (.arg member)).here) factors
  cases rule with
  | number value =>
    refine ⟨rfl, ?_⟩
    rw [rename, expr, rename_numberExpr keeps]
  | symbol known =>
    refine ⟨rfl, ?_⟩
    rw [rename, expr, expr, resolveConstant_rename keeps, Expr.rename]
  | joined joiner some all => exact carries_joined (listed all) joiner
  | quotient divides first second | power first second =>
    refine ⟨by rw [derivesHere, first.derives, second.derives]; rfl, ?_⟩
    rw [rename, expr, expr, first.program, second.program, Expr.rename]
  | negate only | not only =>
    refine ⟨only.derives, ?_⟩
    rw [rename, expr, expr, only.program, Expr.rename]
  | @elementary function nodes terms takes all =>
    refine ⟨derivesHereArgs_of_carries (listed all), ?_⟩
    rw [all.length_eq] at takes
    obtain ⟨name, found⟩ := Option.isSome_iff_exists.mp takes
    rw [rename, renameArgs_eq_map, expr, expr, exprArgs_rename (listed all),
      length_map, found, Expr.rename, Expr.rename, Expr.renameArgs_eq_map, Option.getD_some,
      keeps.builtin name (isBuiltin_programName found)]
  | chain compares all =>
    refine ⟨derivesHereArgs_of_carries (listed all), ?_⟩
    rw [rename, renameArgs_eq_map, expr, expr, exprArgs_rename (listed all), rename_chainExpr]
  | connective connective some all =>
    refine ⟨derivesHereArgs_of_carries (listed all), ?_⟩
    rw [rename, renameArgs_eq_map, expr, expr, exprArgs_rename (listed all)]
    exact rename_leftFold _ (fun _ _ => by cases connective <;> rfl) _
  | derivativeHere known => cases plain.here
  | wrapped wraps only => exact only
  | single row => exact factored rfl row _ (.head _)
  | product row => exact carries_product (factored rfl row)
  | tuple all made =>
    exact carries_application (plain.within (.arg (.head _))).here made (listed all)
  | call known all => exact carries_call (listed all) _
  | integral integrand limited known inside low high =>
    refine ⟨by rw [derivesHere, inside.derives, low.derives, high.derives]; rfl, ?_⟩
    rw [rename, expr, expr, inside.program, low.program, high.program, Expr.rename,
      Expr.rename, keeps.integral]
    rfl

theorem carries_of_read (keeps : KeepsWords π) {here : String} {node : Node} {term : Term}
    (found : read here node = some term)
    (plain : node.Throughout fun part => part.isOperation .prime = false) :
    Carries π there term :=
  read_of_rules (fun inside plain => plain.within inside) (carries_of_rule keeps) found plain

end Readings

/-! ## Names that can be exchanged -/

/-- A name of ASCII characters without a meaning of its own. -/
structure IsVariable (name : String) : Prop where
  word : IsWord name
  constant : isConstantName name = false
  builtin : isBuiltinName name = false
  integral : name ≠ integralName

theorem IsVariable.ne_empty {name : String} (plainName : IsVariable name) : name ≠ "" := by
  rintro rfl
  exact absurd plainName.word.named (by decide)

/-- Two variables can be exchanged. -/
theorem keepsWords_swap {v w : String} (first : IsVariable v) (second : IsVariable w) :
    KeepsWords (Equiv.swap v w) := by
  have fixed : ∀ word, word ≠ v → word ≠ w → Equiv.swap v w word = word :=
    fun _ => Equiv.swap_apply_of_ne_of_ne
  have other : ∀ {test : String → Bool}, test v = false → test w = false →
      ∀ word, test word = true → Equiv.swap v w word = word := by
    intro test failsFirst failsSecond word holds
    refine fixed word ?_ ?_
    · rintro rfl
      rw [holds] at failsFirst
      cases failsFirst
    · rintro rfl
      rw [holds] at failsSecond
      cases failsSecond
  refine ⟨fun word => ?_, fixed _ first.ne_empty.symm second.ne_empty.symm,
    other first.constant second.constant, other first.builtin second.builtin,
    fixed _ first.integral.symm second.integral.symm⟩
  by_cases isFirst : word = v
  · rw [isFirst, Equiv.swap_apply_left, first.word.named, second.word.named]
  · by_cases isSecond : word = w
    · rw [isSecond, Equiv.swap_apply_right, first.word.named, second.word.named]
    · rw [fixed word isFirst isSecond]

end Program

/-! ## Integrands -/

namespace Node

/-- A symbol that occurs freely in a tree stands in it. -/
theorem sub_of_mem_freeOccurrences {word : String} {node : Node} {bound : List String}
    (occurs : word ∈ node.freeOccurrences bound) : Sub (.symbol word) node := by
  cases node with
  | number value => cases occurs
  | symbol name =>
    rw [freeOccurrences] at occurs
    split at occurs
    · cases occurs
    · rw [mem_singleton.mp occurs]
      exact .refl _
  | op head args =>
    have inside : ∀ arg ∈ args, ∀ bound, word ∈ arg.freeOccurrences bound →
        Sub (.symbol word) (.op head args) := by
      intro arg member bound occurs
      exact .inr ((sub_of_mem_freeOccurrences occurs).within member)
    by_cases integral : head = .operator .integrate
    · subst integral
      cases args with
      | nil => simp [freeOccurrences] at occurs
      | cons integrand limits =>
        simp only [freeOccurrences, beq_self_eq_true, if_true, mem_append,
          mem_freeOccurrencesArgs] at occurs
        rcases occurs with within | ⟨arg, member, within⟩
        · exact inside integrand (.head _) _ within
        · exact inside arg (.tail _ member) _ within
    · rw [freeOccurrences_op integral, mem_freeOccurrencesArgs] at occurs
      obtain ⟨arg, member, within⟩ := occurs
      exact inside arg member bound within
termination_by sizeOf node

end Node

namespace Program

/-- A variable that occurs nowhere in a tree is no name of its program. -/
theorem not_mem_names_of_absent {there w : String} (default : IsWord there) (other : w ≠ there)
    (plainName : IsVariable w) {node : Node} {term : Term} (found : read there node = some term)
    (spellable : node.Spellable)
    (plain : node.Throughout fun part => part.isOperation .prime = false)
    (absent : node.Throughout fun part => part.word? ≠ some w) :
    w ∉ (expr there term).namesOutside [] := by
  intro member
  have identifier : Text.isIdentifier there = true := by
    have named := default.named
    rw [isName, Bool.and_eq_true] at named
    exact named.1
  have written : textOf? there node = some (textOf there node) := by
    rw [textOf, textOf?, found]
    rfl
  have parsed := (compiled_of_read default found spellable).1
  cases mentioned_of_parse identifier written parsed w member with
  | builtin known =>
    rw [plainName.builtin] at known
    cases known
  | integral => exact plainName.integral rfl
  | here => exact other rfl
  | free occurs => exact absent _ (Node.sub_of_mem_freeOccurrences occurs) rfl
  | head part => exact absent _ part rfl
  | derivative part => cases plain _ part

/-- The integrand of an integral over a variable leads the call that integrates it. -/
theorem leads_integrand {here there : String} (default : IsWord there) {name : String}
    (word : IsWord name) {node : Node} {term : Term} (found : read there node = some term)
    (spellable : node.Spellable)
    (plain : node.Throughout fun part => part.isOperation .prime = false) :
    Leads integralName (namePiece name :: .blank :: markPiece .arrow :: .blank :: pieces here term)
      (.binder name (expr there term)) := by
  have identifiers : ∀ {name : String}, IsWord name → Text.isIdentifier name = true := by
    intro name word
    have named := word.named
    rw [isName, Bool.and_eq_true] at named
    exact named.1
  have derives := (@carries_of_read _ there keepsWords_refl _ _ _ found plain).derives
  have done := written default (writable_of_read default found spellable)
  have row := (row_of_read (identifiers default) found).spaced (stops_comma []) (.mark rfl .nil)
  rw [pieces_congr here there derives]
  refine ⟨⟨by decide, by decide⟩, ?_, ?_, ?_⟩
  · exact @Legible.consBlank (.name name) _ ⟨word.named, word.ascii⟩
      (@Legible.consBlank (.mark .arrow) _ trivial done.legible)
  · refine .name (identifiers word) (stops_blank _) (.blank ?_)
    refine .mark rfl (.blankOf ?_ row)
    simp
  · exact .binder name (done.phrase.loosen (by decide))

/-- The row of an integral, cut after its integrand. -/
theorem pieces_integral (here name : String) (b l u : Term) :
    pieces here (.integral name b l u) = callRow integralName
      (namePiece name :: .blank :: markPiece .arrow :: .blank :: pieces here b)
      (.blank :: (pieces here l ++ markPiece .comma :: .blank :: pieces here u)) := by
  simp [pieces, callPieces, enclosed, callRow, intercalate]

/-- An integrand in which one variable can take the place of another: it has no derivatives, its
integrals name their variables, its names are of ASCII characters, and the new name stands nowhere in
it. -/
structure Exchanges (v w : String) (body : Node) : Prop where
  first : IsVariable v
  second : IsVariable w
  spellable : body.Spellable
  plain : body.Throughout fun part => part.isOperation .prime = false
  named : body.Throughout fun part => part.namesVariable = true
  heads : body.Throughout fun part => part.headName? ≠ some v
  absent : body.Throughout fun part => part.word? ≠ some w

namespace Exchanges

variable {v w : String} {body : Node} (exchanges : Exchanges v w body)

include exchanges

theorem renamable : body.Renamable (Equiv.swap v w) := by
  intro part sub
  refine ⟨fun name head => Equiv.swap_apply_of_ne_of_ne ?_ ?_, exchanges.named part sub⟩
  · rintro rfl
    exact exchanges.heads part sub head
  · rintro rfl
    refine exchanges.absent part sub ?_
    cases part with
    | op operation args => exact head
    | _ => cases head

/-- Replacing one name and exchanging the two come to the same. -/
theorem mapSymbols_replace :
    (body.mapSymbols fun name => if name = v then w else name)
      = body.mapSymbols (Equiv.swap v w) := by
  refine Node.mapSymbols_congr fun part sub name symbol => ?_
  have differs : name ≠ w := by
    rintro rfl
    exact exchanges.absent part sub (by rw [symbol]; rfl)
  by_cases same : name = v
  · rw [if_pos same, same, Equiv.swap_apply_left]
  · rw [if_neg same, Equiv.swap_apply_of_ne_of_ne same differs]

theorem spellable_mapSymbols : (body.mapSymbols (Equiv.swap v w)).Spellable := by
  refine Node.throughout_mapSymbols fun part sub word found isWord => ?_
  cases part with
  | number value => cases found
  | op head args => exact exchanges.spellable _ sub word found isWord
  | symbol name =>
    cases found
    by_cases isFirst : name = v
    · rw [isFirst, Equiv.swap_apply_left]
      exact exchanges.second.word.ascii
    · have differs : name ≠ w := by
        rintro rfl
        exact exchanges.absent _ sub rfl
      rw [Equiv.swap_apply_of_ne_of_ne isFirst differs] at isWord ⊢
      exact exchanges.spellable _ sub name rfl isWord

/-- The calls that integrate the integrand over the one and the other variable. -/
theorem parallel_parse {here : String} {b : Term} (found : read here body = some b)
    (back : List Piece) :
    Parallel Expr.Interchangeable
      (parse (piecesText (callRow integralName
        (namePiece v :: .blank :: markPiece .arrow :: .blank :: pieces here b) back)))
      (parse (piecesText (callRow integralName
        (namePiece w :: .blank :: markPiece .arrow :: .blank ::
          pieces here (b.rename (Equiv.swap v w))) back))) := by
  -- the default variable plays no part, so a word can stand for it that is not the new name
  obtain ⟨there, default, other⟩ : ∃ there, IsWord there ∧ w ≠ there := by
    by_cases same : w = "x"
    · exact ⟨"y", ⟨by decide, by decide⟩, by rw [same]; decide⟩
    · exact ⟨"x", ⟨by decide, by decide⟩, same⟩
  have keeps := keepsWords_swap exchanges.first exchanges.second
  have foundThere := read_of_named there found exchanges.named
  have moved := read_mapSymbols keeps there found exchanges.renamable
  have leads := @leads_integrand here _ default _ exchanges.first.word _ _ foundThere
    exchanges.spellable exchanges.plain
  have plain : (body.mapSymbols (Equiv.swap v w)).Throughout
      fun part => part.isOperation .prime = false := by
    refine Node.throughout_mapSymbols fun part sub => ?_
    exact (Node.isOperation_mapSymbols _ part).trans (exchanges.plain part sub)
  have leads' := @leads_integrand here _ default _ exchanges.second.word _ _ moved
    exchanges.spellable_mapSymbols plain
  refine Program.parallel_parse leads leads' ?_ back
  have absent := not_mem_names_of_absent default other exchanges.second foundThere
    exchanges.spellable exchanges.plain exchanges.absent
  have program := (@carries_of_read _ there keeps _ _ _ foundThere exchanges.plain).program
  have same := @Expr.Interchangeable.binder (Equiv.swap v w) v (expr there b) ?_
  · rwa [Equiv.swap_apply_left, ← program] at same
  · intro name member
    obtain ⟨outside, among⟩ := Expr.mem_namesOutside.mp member
    refine Equiv.swap_apply_of_ne_of_ne (by simpa using outside) ?_
    rintro rfl
    exact absent among

end Exchanges

end Program

namespace Formula

open Program Markup

/-- The reading of an integral over a named variable, from the readings of its parts. -/
theorem read_integralTree_iff {here name : String} (named : isName name = true) (some : name ≠ "")
    {body lower upper : Node} {term : Term} :
    read here (integralTree body name lower upper) = .some term ↔
      ∃ b l u, read here body = .some b ∧ read here lower = .some l ∧ read here upper = .some u ∧
        term = .integral name b l u := by
  rw [read_integralTree, if_neg (by simpa using some), integralReading, if_pos named]
  simp only [Option.bind_eq_bind, Option.bind_eq_some_iff, Option.some.injEq]
  constructor
  · rintro ⟨b, inside, l, low, u, high, rfl⟩
    exact ⟨b, l, u, inside, low, high, rfl⟩
  · rintro ⟨b, l, u, inside, low, high, rfl⟩
    exact ⟨b, inside, l, low, u, high, rfl⟩

theorem ofNode?_integralTree (body lower upper : Node) (name : String) :
    Native.ofNode? (integralTree body name lower upper) = none := by
  rw [Native.ofNode?, read_integralTree]
  generalize (if name == "" then Native.anyVariable else name) = chosen
  rw [integralReading]
  split
  · cases read Native.anyVariable body with
    | none => rfl
    | some b =>
      cases read Native.anyVariable lower with
      | none => rfl
      | some l => cases read Native.anyVariable upper <;> rfl
  · rfl

theorem routine?_of_textOf? {compiling : Settings} {tree : Node} {text : String}
    (written : textOf? compiling.defaultVariable tree = some text)
    (native : Native.ofNode? tree = none) (raw : String) :
    (ofTree compiling tree raw).routine?
      = (Program.parse text).toOption.map fun program => ⟨program, none⟩ := by
  simp only [ofTree, routine?, Build.ofTree, written, native, ite_self]
  cases Program.parse text <;> rfl

/-- Trees without native code and with texts that are parsed in parallel have the same results. -/
theorem results_of_parallel {compiling : Settings} {tree tree' : Node} {text text' : String}
    (written : textOf? compiling.defaultVariable tree = some text)
    (written' : textOf? compiling.defaultVariable tree' = some text')
    (native : Native.ofNode? tree = none) (native' : Native.ofNode? tree' = none)
    (parallel : Parallel Expr.Interchangeable (Program.parse text) (Program.parse text'))
    (raw raw' : String) (evaluating : Settings) (scope : Scope) :
    let formula := ofTree compiling tree raw
    let formula' := ofTree compiling tree' raw'
    formula'.isValid = formula.isValid ∧
      formula'.evaluate evaluating scope = formula.evaluate evaluating scope ∧
      formula'.evaluateNative evaluating scope = formula.evaluateNative evaluating scope ∧
      formula'.condition evaluating scope = formula.condition evaluating scope := by
  intro formula formula'
  have routine : formula.routine? = _ := routine?_of_textOf? written native raw
  have routine' : formula'.routine? = _ := routine?_of_textOf? written' native' raw'
  generalize Program.parse text = parsed at parallel routine
  generalize Program.parse text' = parsed' at parallel routine'
  cases parallel with
  | error =>
    have same : formula'.evaluateNative evaluating scope = formula.evaluateNative evaluating scope := by
      rw [evaluateNative, evaluateNative, routine, routine']
      rfl
    refine ⟨by rw [isValid, isValid, routine, routine']; rfl, ?_, same, by rw [condition, condition, same]⟩
    rw [evaluate, evaluate, routine, routine']
    rfl
  | @ok program program' related =>
    have byProgram : Routine.evaluate apply evaluating.simpsonIntervals scope .start ⟨program', none⟩
        = Routine.evaluate apply evaluating.simpsonIntervals scope .start ⟨program, none⟩ :=
      (Routine.evaluate_of_interchangeable related _ scope .start).symm
    have same : formula'.evaluateNative evaluating scope = formula.evaluateNative evaluating scope := by
      rw [evaluateNative, evaluateNative, routine, routine']
      exact byProgram
    refine ⟨by rw [isValid, isValid, routine, routine']; rfl, ?_, same, by rw [condition, condition, same]⟩
    rw [evaluate, evaluate, routine, routine']
    exact byProgram

theorem results_of_renamed_integral (compiling evaluating : Settings) (body lower upper : Node)
    (v w raw raw' : String) (scope : Scope) (first : IsVariable v) (second : IsVariable w)
    (ascii : body.isAscii = true)
    (plain : body.all (fun part => !part.isOperation .prime) = true)
    (named : body.all Node.namesVariable = true)
    (heads : body.all (fun part => part.headName? != some v) = true)
    (fresh : body.all (fun part => part.word? != some w) = true)
    (written : textOf compiling.defaultVariable (integralTree body v lower upper) ≠ "") :
    let renamed := body.mapSymbols fun name => if name = v then w else name
    let formula := ofTree compiling (integralTree body v lower upper) raw
    let formula' := ofTree compiling (integralTree renamed w lower upper) raw'
    formula'.isValid = formula.isValid ∧
      formula'.evaluate evaluating scope = formula.evaluate evaluating scope ∧
      formula'.evaluateNative evaluating scope = formula.evaluateNative evaluating scope ∧
      formula'.condition evaluating scope = formula.condition evaluating scope := by
  intro renamed formula formula'
  have throughout : ∀ {test : Node → Bool}, body.all test = true →
      body.Throughout fun part => test part = true := Node.throughout_of_all
  have exchanges : Exchanges v w body := by
    refine ⟨first, second, Node.spellable_of_isAscii ascii, ?_, throughout named, ?_, ?_⟩
    · intro part sub
      simpa using throughout plain part sub
    · intro part sub
      simpa using throughout heads part sub
    · intro part sub
      simpa using throughout fresh part sub
  obtain ⟨term, found⟩ : ∃ term,
      read compiling.defaultVariable (integralTree body v lower upper) = some term := by
    rw [textOf, textOf?] at written
    cases found : read compiling.defaultVariable (integralTree body v lower upper) with
    | some term => exact ⟨term, rfl⟩
    | none =>
      rw [found] at written
      exact absurd rfl written
  obtain ⟨b, l, u, inside, low, high, rfl⟩ :=
    (read_integralTree_iff first.word.named first.ne_empty).mp found
  have moved : read compiling.defaultVariable renamed = some (b.rename (Equiv.swap v w)) := by
    have swapped : renamed = _ := exchanges.mapSymbols_replace
    rw [swapped]
    exact read_mapSymbols (keepsWords_swap first second) _ inside exchanges.renamable
  have found' := (read_integralTree_iff second.word.named second.ne_empty).mpr
    ⟨_, l, u, moved, low, high, rfl⟩
  have parallel := exchanges.parallel_parse inside
    (.blank :: (pieces compiling.defaultVariable l ++ markPiece .comma :: .blank ::
      pieces compiling.defaultVariable u))
  rw [← pieces_integral, ← pieces_integral] at parallel
  exact results_of_parallel (by rw [textOf?, found]; rfl) (by rw [textOf?, found']; rfl)
    (ofNode?_integralTree _ _ _ _) (ofNode?_integralTree _ _ _ _) parallel raw raw' evaluating scope

/-- An integrand with an integral over the same variable inside. The variable is replaced in both, but
not where it stands in the upper limit, since that is outside. -/
theorem results_of_renamed_integral_nested :
    let inner := integralTree (.of .multiply [.symbol "t", .symbol "a"]) "t" (.number 0) (.symbol "t")
    let body := Node.of .add [.of .invisible [.symbol "f", .of .delimiter [.symbol "t"]], inner]
    let renamed := body.mapSymbols fun name => if name = "t" then "s" else name
    let formula := ofTree .standard (integralTree body "t" (.number 0) (.symbol "t")) ""
    let formula' := ofTree .standard (integralTree renamed "s" (.number 0) (.symbol "t")) ""
    let settings : Settings := { Settings.standard with integralIntervals := 2 }
    let scope : Scope := [("f", .function (.primitive .abs)), ("a", .int 3), ("t", .int 2)]
    formula.isValid = true ∧ (formula.evaluate settings scope).isNaN = false ∧
      formula'.isValid = formula.isValid ∧
      formula'.evaluate settings scope = formula.evaluate settings scope ∧
      formula'.evaluateNative settings scope = formula.evaluateNative settings scope ∧
      formula'.condition settings scope = formula.condition settings scope := by
  intro inner body renamed formula formula' settings scope
  have isVariable : ∀ name ∈ ["t", "s"], IsVariable name := by
    intro name member
    refine ⟨⟨?_, ?_⟩, ?_, ?_, ?_⟩ <;> revert name <;> decide +kernel
  refine ⟨by decide +kernel, by decide +kernel, ?_⟩
  exact results_of_renamed_integral .standard settings body (.number 0) (.symbol "t") "t" "s" "" ""
    scope (isVariable _ (by decide)) (isVariable _ (by decide)) (by decide +kernel)
    (by decide +kernel) (by decide +kernel) (by decide +kernel) (by decide +kernel)
    (by decide +kernel)

/-- A variable that is no word of a program has a text all the same, but no program comes of it. Over
another variable the same integral has a value. -/
theorem evaluate_of_renamed_letter :
    let body := Node.symbol "θ"
    let renamed := body.mapSymbols fun name => if name = "θ" then "u" else name
    let tree := integralTree body "θ" (.number 0) (.number 1)
    let formula := ofTree .standard tree ""
    let formula' := ofTree .standard (integralTree renamed "u" (.number 0) (.number 1)) ""
    isName "θ" = true ∧ textOf Settings.standard.defaultVariable tree ≠ "" ∧
      formula.isValid = false ∧ (formula.evaluate .standard []).isNaN = true ∧
      formula'.isValid = true ∧ (formula'.evaluate .standard []).relates .equal (.float 0.5) = true := by
  refine ⟨by decide +kernel, by decide +kernel, by decide +kernel, by decide +kernel,
    by decide +kernel, by decide +kernel⟩

end Formula

end Grapher
