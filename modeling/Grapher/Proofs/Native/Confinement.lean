import Grapher.Native.OfTree
import Grapher.Proofs.Native.Host
import Grapher.Proofs.Program.Writing
import Grapher.Proofs.Reading.Rules

/-!
# Native code is confined

The source text of native code is an expression of a fixed grammar of the host language. Whatever
strings a tree has for its names, they reach the source only as quoted keys that are safe names, or
as builtin names that the prelude binds.
-/

set_option autoImplicit false

namespace Grapher.Native

open Host List Double Code Text
open Program (Stops linksOf_map linksOf_ne_nil)
open Reading (Joiner Connective Term Rule Factors Application read read_of_rules forall_right)

variable {code : Code} {value : Float} {literal : Float → Prop} {target : Reference} {name : String}

/-! ## The rows of native code -/

/-- A member of the mathematical library. -/
def memberRow (member : String) : List Lexeme := [.word "_m", .mark ".", .word member]

/-- The row of a reference. -/
def Reference.row : Reference → List Lexeme
  | .scope name => [.word "scope", .mark "[", .string name, .mark "]"]
  | .builtin name => [.word name]

/-- The row of a direct function. -/
def Helper.row : Helper → List Lexeme
  | .divide => [.word "_div"]
  | .power => [.word "_pow"]
  | .abs => [.word "abs"]
  | .sqrt => memberRow "sqrt"
  | .sin => memberRow "sin"
  | .cos => memberRow "cos"
  | .tan => memberRow "tan"
  | .exp => memberRow "exp"
  | .log => memberRow "log"
  | .log10 => memberRow "log10"

/-- The numeral of a number without its sign. -/
def numeralOf (value : Float) : String :=
  String.ofList (Decimal.magnitudeText (Double.magnitudeBits value))

/-- The row of a number; the negative zero is the only one with a bare sign. -/
def numberRow (value : Float) : List Lexeme :=
  if value.isNaN then memberRow "nan"
  else if Double.isInfinite value then
    if value < 0 then enclosed (.mark "-" :: memberRow "inf") else memberRow "inf"
  else if value < 0 then enclosed [.mark "-", .numeral (numeralOf value)]
  else if Double.isNegative value then [.mark "-", .numeral (numeralOf value)]
  else [.numeral (numeralOf value)]

/-- The operator of a joiner. -/
def joinerLexeme : Joiner → Lexeme
  | .add => .mark "+"
  | .subtract => .mark "-"
  | .multiply => .mark "*"

/-- The operator of a connective. -/
def connectiveLexeme : Connective → Lexeme
  | .and => .word "and"
  | .or => .word "or"

/-- The row of a link. -/
def linkRow (link : Link (List Lexeme) Relation) : List Lexeme :=
  enclosed (separated (.mark link.head.symbol) [link.left, link.right])

/-- The row of a chain. -/
def chainRow (terms : List (List Lexeme)) (relations : List Relation) : List Lexeme :=
  match (Chain.linksOf relations terms).map linkRow with
  | [link] => link
  | links => enclosed (separated (.word "and") links)

/-- The row of a call. -/
def callRow (callee : List Lexeme) (args : List (List Lexeme)) : List Lexeme :=
  callee ++ enclosed (separated (.mark ",") args)

namespace Code

mutual

/-- The row of native code. -/
def row : Code → List Lexeme
  | .number value => numberRow value
  | .reference target => target.row
  | .joined joiner parts => enclosed (separated (joinerLexeme joiner) (rows parts))
  | .helper function args => callRow function.row (rows args)
  | .negate operand => enclosed (.mark "-" :: row operand)
  | .not operand => enclosed (.word "not" :: row operand)
  | .connective joint parts =>
    enclosed (separated (connectiveLexeme joint)
      ((rows parts).map fun part => callRow [.word "bool"] [part]))
  | .chain terms relations => chainRow (rows terms) relations
  | .call function args => callRow function.row (rows args)

/-- The rows of several parts. -/
def rows : List Code → List (List Lexeme)
  | [] => []
  | code :: codes => row code :: rows codes

end

theorem rows_eq_map (codes : List Code) : rows codes = codes.map row := by
  induction codes with
  | nil => rfl
  | cons code codes ih => rw [rows, ih, map_cons]

theorem texts_eq_map (codes : List Code) : texts codes = codes.map text := by
  induction codes with
  | nil => rfl
  | cons code codes ih => rw [texts, ih, map_cons]

theorem mem_builtinsArgs {codes : List Code} :
    name ∈ builtinsArgs codes ↔ ∃ code ∈ codes, name ∈ code.builtins := by
  induction codes with
  | nil => simp [builtinsArgs]
  | cons code codes ih => simp [builtinsArgs, ih]

theorem mem_boundNames : name ∈ code.boundNames ↔ name ∈ code.builtins := by
  rw [boundNames, mem_mergeSort, mem_eraseDups]

end Code

/-! ## Code of a tree -/

/-- A reference to a name that native code may refer to. -/
def Reference.IsSafe : Reference → Prop
  | .scope name => isLocalName name = true ∧ isBuiltinName name = false
  | .builtin name => isLocalName name = true ∧ isBuiltinName name = true

/-- The native code that trees have; `literal` says which numbers occur in it. -/
inductive Emitted (literal : Float → Prop) : Code → Prop where
  | number {value : Float} (known : literal value) : Emitted literal (.number value)
  | reference {target : Reference} (safe : target.IsSafe) : Emitted literal (.reference target)
  | joined (joiner : Joiner) {parts : List Code} (some : parts ≠ [])
      (all : ∀ part ∈ parts, Emitted literal part) : Emitted literal (.joined joiner parts)
  | helper (function : Helper) {args : List Code} (all : ∀ arg ∈ args, Emitted literal arg) :
      Emitted literal (.helper function args)
  | negate {operand : Code} (only : Emitted literal operand) : Emitted literal (.negate operand)
  | not {operand : Code} (only : Emitted literal operand) : Emitted literal (.not operand)
  | connective (joint : Connective) {parts : List Code} (some : parts ≠ [])
      (all : ∀ part ∈ parts, Emitted literal part) : Emitted literal (.connective joint parts)
  | chain {terms : List Code} {relations : List Relation}
      (linked : Chain.linksOf relations terms ≠ []) (all : ∀ term ∈ terms, Emitted literal term) :
      Emitted literal (.chain terms relations)
  | call {function : Reference} (safe : function.IsSafe) {args : List Code}
      (all : ∀ arg ∈ args, Emitted literal arg) : Emitted literal (.call function args)

theorem isSafe_of_reference? (found : reference? name = some target) : target.IsSafe := by
  unfold reference? at found
  dsimp only at found
  split at found <;> cases found
  rename_i isLocal
  split
  · next builtin => exact ⟨isLocal, builtin⟩
  · next other => exact ⟨isLocal, Bool.eq_false_iff.mpr other⟩

section Trees

variable {literal : Float → Prop}

/-- The native code of a reading, if it has any, is code that trees have. -/
abbrev Emits (literal : Float → Prop) (term : Term) : Prop :=
  ∀ code, ofTerm? term = some code → Emitted literal code

theorem emitted_parts {terms : List Term} (all : ∀ term ∈ terms, Emits literal term)
    {codes : List Code} (found : ofTerms? terms = some codes) :
    codes.length = terms.length ∧ ∀ code ∈ codes, Emitted literal code := by
  induction terms generalizing codes with
  | nil =>
    cases found
    exact ⟨rfl, fun _ member => nomatch member⟩
  | cons term terms ih =>
    obtain ⟨first, rest⟩ := forall_mem_cons.mp all
    obtain ⟨code, one, more, others, rfl⟩ := some_of_bind found
    obtain ⟨count, each⟩ := ih rest others
    exact ⟨congrArg (· + 1) count, forall_mem_cons.mpr ⟨first code one, each⟩⟩

theorem ne_nil_of_length {α β : Type} {xs : List α} {ys : List β} (count : xs.length = ys.length)
    (some : ys ≠ []) : xs ≠ [] := by
  rintro rfl
  exact some (length_eq_zero_iff.mp count.symm)

theorem emits_application {head : Node} {args : List Term} {term : Term}
    (all : ∀ arg ∈ args, Emits literal arg) (made : Application head args term) :
    Emits literal term := by
  cases made with
  | derivative primed => exact fun _ found => nomatch found
  | call callee =>
    intro code found
    obtain ⟨target, refers, codes, each, rfl⟩ := some_of_bind found
    exact .call (isSafe_of_reference? refers) (emitted_parts all each).2

theorem emits_factors {nodes : List Node} {terms : List Term}
    (factors : Factors (fun _ => Emits literal) nodes terms) : ∀ term ∈ terms, Emits literal term := by
  induction factors with
  | nil => exact fun _ member => nomatch member
  | plain _ first _ ih => exact forall_mem_cons.mpr ⟨first, ih⟩
  | applied _ all made _ ih =>
    exact forall_mem_cons.mpr ⟨emits_application (forall_right all fun _ _ => id) made, ih⟩

/-- A rule makes native code of the native code of the parts. -/
theorem emits_of_rule {here : String} {node : Node} {term : Term}
    (known : ∀ value, node = .number value → literal value)
    (rule : Rule here (fun _ => Emits literal) node term) : Emits literal term := by
  have parts : ∀ {nodes : List Node} {terms : List Term},
      Forall₂ (fun _ => Emits literal) nodes terms → ∀ {codes}, ofTerms? terms = some codes →
        codes.length = nodes.length ∧ ∀ code ∈ codes, Emitted literal code := by
    intro nodes terms all codes each
    rw [all.length_eq]
    exact emitted_parts (forall_right all fun _ _ => id) each
  intro code coded
  cases rule with
  | number value =>
    cases coded
    exact .number (known value rfl)
  | symbol named =>
    obtain ⟨target, refers, rfl⟩ := Option.map_eq_some_iff.mp coded
    exact .reference (isSafe_of_reference? refers)
  | joined joiner some all =>
    obtain ⟨codes, each, rfl⟩ := Option.map_eq_some_iff.mp coded
    obtain ⟨count, each⟩ := parts all each
    exact .joined joiner (ne_nil_of_length count some) each
  | quotient divides first second | power first second =>
    obtain ⟨left, one, right, two, rfl⟩ := some_of_bind coded
    exact .helper _ (forall_mem_cons.mpr
      ⟨first left one, forall_mem_singleton.mpr (second right two)⟩)
  | negate only =>
    obtain ⟨operand, one, rfl⟩ := Option.map_eq_some_iff.mp coded
    exact .negate (only operand one)
  | elementary takes all =>
    obtain ⟨helper, -, codes, each, rfl⟩ := some_of_bind coded
    exact .helper helper (parts all each).2
  | @chain relation nodes terms compares all =>
    obtain ⟨codes, each, rfl⟩ := Option.map_eq_some_iff.mp coded
    obtain ⟨count, each⟩ := parts all each
    refine .chain (linksOf_ne_nil compares (count ▸ Node.length_flattened id relation nodes ?_)) each
    rintro rfl
    exact compares rfl
  | connective joint some all =>
    obtain ⟨codes, each, rfl⟩ := Option.map_eq_some_iff.mp coded
    obtain ⟨count, each⟩ := parts all each
    exact .connective joint (ne_nil_of_length count some) each
  | not only =>
    obtain ⟨operand, one, rfl⟩ := Option.map_eq_some_iff.mp coded
    exact .not (only operand one)
  | derivativeHere named | integral integrand limited named inside low high => cases coded
  | wrapped wraps only => exact only code coded
  | single factors => exact emits_factors factors _ (.head _) code coded
  | product factors =>
    obtain ⟨codes, each, rfl⟩ := Option.map_eq_some_iff.mp coded
    obtain ⟨count, each⟩ := emitted_parts (emits_factors factors) each
    exact .joined .multiply (ne_nil_of_length count (cons_ne_nil _ _)) each
  | tuple all made => exact emits_application (forall_right all fun _ _ => id) made code coded
  | call named all =>
    obtain ⟨target, refers, codes, each, rfl⟩ := some_of_bind coded
    exact .call (isSafe_of_reference? refers) (parts all each).2

/-- The native code of a tree has only numbers of the tree in it. -/
theorem emits_of_read {here : String} {node : Node} {term : Term}
    (found : read here node = some term) : Emits (fun value => Node.Sub (.number value) node) term :=
  read_of_rules (H := fun part => part.Sub node) (fun inside sub => .inr (inside.of_sub sub))
    (fun sub => emits_of_rule fun _ same => same ▸ sub) found (.refl node)

end Trees

/-! ## The text of each part -/

/-- An identifier in quotes is the identifier between two single quotes. -/
theorem toList_quoted (identifier : isIdentifier name = true) :
    (quoted name).toList = '\'' :: (name.toList ++ ['\'']) := by
  have rest := isIdentifierRest_of_isIdentifier identifier
  have other : ∀ c ∈ name.toList, c ≠ '\'' ∧ c ≠ '\\' ∧ c ≠ '\n' ∧ c ≠ '\r' ∧ c ≠ '\t' := by
    intro c member
    have inside := rest c member
    refine ⟨?_, ?_, ?_, ?_, ?_⟩
    all_goals
      rintro rfl
      revert inside
      decide
  have quote : quoteFor name.toList = '\'' := by
    have free : name.toList.contains '\'' = false :=
      Bool.eq_false_iff.mpr fun found => (other _ (contains_iff_mem.mp found)).1 rfl
    rw [quoteFor, free, Bool.false_and, if_neg Bool.false_ne_true]
  have escaped : name.toList.flatMap (escaped '\'') = name.toList := by
    have single : ∀ c ∈ name.toList, escaped '\'' c = [c] := by
      intro c member
      obtain ⟨quote, slash, line, carriage, tab⟩ := other c member
      simp [escaped, quote, slash, line, carriage, tab,
        isPrintable_of_isIdentifierRest (rest c member)]
    rw [flatMap_congr single, flatMap_singleton']
  rw [quoted, String.toList_ofList, quotedChars, quote, escaped]
  rfl

theorem isIdentifier_of_isLocalName (isLocal : isLocalName name = true) :
    isIdentifier name = true := by
  simp only [isLocalName, Bool.and_eq_true] at isLocal
  exact isLocal.1.1.1

theorem spells_stops_word {word : String} (identifier : isIdentifier word = true) :
    Spells Stops word.toList [.word word] :=
  (spells_word identifier).mono fun _ => endsWord_of_stops

theorem spells_member {member : String} (known : member ∈ attributes) :
    Spells Stops ("_m." ++ member).toList (memberRow member) := by
  have identifiers : ∀ member ∈ attributes, isIdentifier member = true := by decide
  have library := @spells_word_mark "_m" (by decide) '.' (by decide)
  rw [String.toList_append]
  exact library.cons (spells_stops_word (identifiers member known))

theorem spells_reference (safe : target.IsSafe) : Spells Stops target.text.toList target.row := by
  cases target with
  | scope name =>
    have identifier := isIdentifier_of_isLocalName safe.1
    have plain : ∀ c ∈ name.toList, isPlain c = true := by
      intro c member
      have inside := isIdentifierRest_of_isIdentifier identifier c member
      simp only [isPlain, Bool.and_eq_true, bne_iff_ne]
      refine ⟨⟨?_, ?_⟩, ?_⟩
      all_goals
        rintro rfl
        revert inside
        decide
    have opening := @spells_word_mark "scope" (by decide) '[' (by decide)
    have closing : Spells Anything [']'] [.mark "]"] := spells_mark (by decide)
    have key := (spells_string plain).cons closing
    simp only [Reference.text, String.toList_append, toList_quoted identifier]
    exact (opening.cons key).of_anything
  | builtin name => exact spells_stops_word (isIdentifier_of_isLocalName safe.1)

theorem spells_helper (function : Helper) : Spells Stops function.text.toList function.row := by
  cases function with
  | divide | power | abs => exact spells_stops_word (by decide)
  | sqrt => exact @spells_member "sqrt" (by decide)
  | sin => exact @spells_member "sin" (by decide)
  | cos => exact @spells_member "cos" (by decide)
  | tan => exact @spells_member "tan" (by decide)
  | exp => exact @spells_member "exp" (by decide)
  | log => exact @spells_member "log" (by decide)
  | log10 => exact @spells_member "log10" (by decide)

/-! ## Numbers -/

theorem toList_doubleText (finite : magnitudeBits value < infinityBits) :
    (Decimal.doubleText value).toList
      = (if isNegative value then ['-'] else [])
        ++ Decimal.magnitudeText (magnitudeBits value) := by
  have defined : ¬ infinityBits < magnitudeBits value := by omega
  have other : ¬ magnitudeBits value = infinityBits := by omega
  simp only [Decimal.doubleText, if_neg defined, if_neg other, String.toList_append,
    String.toList_ofList]
  split <;> rfl

theorem spells_digits (finite : magnitudeBits value < infinityBits) :
    Spells Stops (Decimal.magnitudeText (magnitudeBits value))
      [.numeral (numeralOf value)] :=
  (spells_numeral finite).mono fun _ => endsNumeral_of_stops

theorem spells_number (value : Float) : Spells Stops (numberText value).toList (numberRow value) := by
  have minus : Spells Anything ['-'] [.mark "-"] := spells_mark (by decide)
  unfold numberText numberRow
  split
  · exact @spells_member "nan" (by decide)
  · next defined =>
    have bound := mt (isNaN_iff value).mpr defined
    split
    · split
      · exact (spells_enclosed (minus.cons (@spells_member "inf" (by decide)))).of_anything
      · exact @spells_member "inf" (by decide)
    · next finite =>
      have other : ¬ magnitudeBits value = infinityBits :=
        fun same => finite (beq_iff_eq.mpr same)
      have finite : magnitudeBits value < infinityBits := by omega
      have digits := spells_digits finite
      split
      · next negative =>
        have sign := ((lt_zero_iff value).mp negative).1
        have text : ("(" ++ Decimal.doubleText value ++ ")").toList
            = '(' :: (['-'] ++ Decimal.magnitudeText (magnitudeBits value) ++ [')']) := by
          simp [toList_doubleText finite, sign]
        rw [text]
        exact (spells_enclosed (minus.cons digits)).of_anything
      · rw [toList_doubleText finite]
        split
        · exact minus.cons digits
        · exact digits

theorem expression_number {vocabulary : Vocabulary} (known : vocabulary.numeral (numeralOf value)) :
    Expression vocabulary (numberRow value) := by
  have minus : Lexeme.mark "-" ∈ signs := by decide
  unfold numberRow
  split
  · exact .name (.member (by decide))
  · split
    · split
      · exact .signed minus (.name (.member (by decide)))
      · exact .name (.member (by decide))
    · split
      · exact .signed minus (.numeral known)
      · split
        · exact .negative known
        · exact .numeral known

/-! ## The text of native code -/

theorem forall₂_map {α β γ : Type} {R : β → γ → Prop} {f : α → β} {g : α → γ} {items : List α}
    (all : ∀ item ∈ items, R (f item) (g item)) : Forall₂ R (items.map f) (items.map g) := by
  rw [forall₂_map_left_iff, forall₂_map_right_iff, forall₂_same]
  exact all

theorem spells_joiner (joiner : Joiner) :
    Spells Anything (joinerText joiner).toList [joinerLexeme joiner] := by
  cases joiner <;> exact fun _ _ => rfl

theorem spells_connective (joint : Connective) :
    Spells Anything (connectiveText joint).toList [connectiveLexeme joint] := by
  cases joint <;> exact fun _ _ => rfl

theorem spells_relation (relation : Relation) :
    Spells Anything (" " ++ relation.symbol ++ " ").toList [.mark relation.symbol] := by
  cases relation <;> exact fun _ _ => rfl

theorem stops_joiner (joiner : Joiner) (rest : List Char) :
    Stops ((joinerText joiner).toList ++ rest) := by
  cases joiner <;> exact .cons (by decide)

theorem stops_connective (joint : Connective) (rest : List Char) :
    Stops ((connectiveText joint).toList ++ rest) := by
  cases joint <;> exact .cons (by decide)

theorem toList_group (inner : String) :
    ("(" ++ inner ++ ")").toList = '(' :: (inner.toList ++ [')']) := by
  simp

theorem toList_call (callee : String) (args : List String) :
    (callee ++ "(" ++ ", ".intercalate args ++ ")").toList
      = callee.toList ++ '(' :: ([',', ' '].intercalate (args.map String.toList) ++ [')']) := by
  simp [String.toList_intercalate]

theorem spells_texts {parts : List Code}
    (all : ∀ part ∈ parts, Spells Stops part.text.toList part.row) :
    Forall₂ (Spells Stops) ((texts parts).map String.toList) (rows parts) := by
  rw [texts_eq_map, rows_eq_map, map_map]
  exact forall₂_map all

theorem spells_condition {text : String} {row : List Lexeme} (spells : Spells Stops text.toList row) :
    Spells Stops ("bool(" ++ text ++ ")").toList (callRow [.word "bool"] [row]) := by
  have called := spells_call (@spells_stops_word "bool" (by decide))
    (.cons spells .nil : Forall₂ (Spells Stops) [text.toList] [row])
  have same : ("bool(" ++ text ++ ")").toList
      = "bool".toList ++ '(' :: ([',', ' '].intercalate [text.toList] ++ [')']) := by
    simp
  rw [same]
  exact called.of_anything

theorem spells_link {relation : Relation} {left right : String} {first second : List Lexeme}
    (one : Spells Stops left.toList first) (two : Spells Stops right.toList second) :
    Spells Stops ("(" ++ left ++ " " ++ relation.symbol ++ " " ++ right ++ ")").toList
      (linkRow ⟨relation, first, second⟩) := by
  have stops : ∀ rest, Stops ((" " ++ relation.symbol ++ " ").toList ++ rest) := by
    intro rest
    rw [String.toList_append, String.toList_append]
    exact .cons (by decide)
  have inside := spells_separated (spells_relation relation) stops
    (.cons one (.cons two .nil) : Forall₂ (Spells Stops) [left.toList, right.toList] _)
  have same : ("(" ++ left ++ " " ++ relation.symbol ++ " " ++ right ++ ")").toList
      = '(' :: ((" " ++ relation.symbol ++ " ").toList.intercalate [left.toList, right.toList]
        ++ [')']) := by
    simp [intercalate_cons_cons]
  rw [same]
  exact (spells_enclosed inside).of_anything

theorem spells_links {texts : List String} {rows : List (List Lexeme)} :
    Forall₂ (fun text row => Spells Stops text.toList row) texts rows →
    Spells Stops
      (match texts with
        | [link] => link
        | links => "(" ++ " and ".intercalate links ++ ")").toList
      (match rows with
        | [link] => link
        | links => enclosed (separated (.word "and") links)) := by
  intro all
  have several : Spells Stops ("(" ++ " and ".intercalate texts ++ ")").toList
      (enclosed (separated (.word "and") rows)) := by
    have rest := forall₂_map_left_iff.mpr all
    rw [toList_group, String.toList_intercalate]
    exact (spells_enclosed (spells_separated (spells_connective .and) (stops_connective .and)
      rest)).of_anything
  match all, several with
  | .nil, several => exact several
  | .cons first .nil, _ => exact first
  | .cons _ (.cons _ _), several => exact several

theorem spells_chain {terms : List Code} {relations : List Relation}
    (all : ∀ term ∈ terms, Spells Stops term.text.toList term.row) :
    Spells Stops (chainText (texts terms) relations).toList
      (chainRow (rows terms) relations) := by
  unfold chainText chainRow
  rw [texts_eq_map, rows_eq_map, linksOf_map, linksOf_map, map_map, map_map]
  refine spells_links (forall₂_map fun link member => ?_)
  obtain ⟨left, right⟩ := Program.mem_linksOf member
  exact spells_link (all _ left) (all _ right)

/-- The text of native code splits into its row. -/
theorem spells_code (emitted : Emitted literal code) : Spells Stops code.text.toList code.row := by
  have minus : Spells Anything ['-'] [.mark "-"] := spells_mark (by decide)
  induction emitted with
  | number known => exact spells_number _
  | reference safe => exact spells_reference safe
  | joined joiner _ _ ih =>
    rw [text, row, toList_group, String.toList_intercalate]
    exact (spells_enclosed (spells_separated (spells_joiner joiner) (stops_joiner joiner)
      (spells_texts ih))).of_anything
  | helper function _ ih =>
    rw [text, row, toList_call]
    exact (spells_call (spells_helper function) (spells_texts ih)).of_anything
  | @negate operand _ ih =>
    have text : ("(-" ++ operand.text ++ ")").toList
        = '(' :: (['-'] ++ operand.text.toList ++ [')']) := by
      simp
    rw [Code.text, Code.row, text]
    exact (spells_enclosed (minus.cons ih)).of_anything
  | @not operand _ ih =>
    have text : ("(not " ++ operand.text ++ ")").toList
        = '(' :: (['n', 'o', 't', ' '] ++ operand.text.toList ++ [')']) := by
      simp
    have denial : Spells Anything ['n', 'o', 't', ' '] [.word "not"] := fun _ _ => rfl
    rw [Code.text, Code.row, text]
    exact (spells_enclosed (denial.cons ih)).of_anything
  | @connective joint parts _ _ ih =>
    have conditions : Forall₂ (Spells Stops)
        (((texts parts).map fun part => "bool(" ++ part ++ ")").map String.toList)
        ((rows parts).map fun part => callRow [.word "bool"] [part]) := by
      rw [texts_eq_map, rows_eq_map, map_map, map_map, map_map]
      exact forall₂_map fun part member => spells_condition (ih part member)
    rw [text, row, toList_group, String.toList_intercalate]
    exact (spells_enclosed (spells_separated (spells_connective joint) (stops_connective joint)
      conditions)).of_anything
  | chain _ _ ih => exact spells_chain ih
  | call safe _ ih =>
    rw [text, row, toList_call]
    exact (spells_call (spells_reference safe) (spells_texts ih)).of_anything

/-! ## The grammar of native code -/

theorem builtin_of_mem_builtinOf (safe : target.IsSafe) (member : name ∈ builtinOf target) :
    isBuiltinName name = true := by
  cases target with
  | scope key => cases member
  | builtin word =>
    cases mem_singleton.mp member
    exact safe.2

/-- What the prelude binds are builtin names. -/
theorem builtin_of_mem_builtins (emitted : Emitted literal code) :
    ∀ name ∈ code.builtins, isBuiltinName name = true := by
  have among : ∀ {codes : List Code},
      (∀ code ∈ codes, ∀ name ∈ code.builtins, isBuiltinName name = true) →
      ∀ name ∈ builtinsArgs codes, isBuiltinName name = true := by
    intro codes all name member
    obtain ⟨code, inside, occurs⟩ := mem_builtinsArgs.mp member
    exact all code inside name occurs
  induction emitted with
  | number known => exact fun _ member => nomatch member
  | reference safe => exact fun _ member => builtin_of_mem_builtinOf safe member
  | joined _ _ _ ih | helper _ _ ih | connective _ _ _ ih | chain _ _ ih => exact among ih
  | negate _ ih | not _ ih => exact ih
  | call safe _ ih =>
    intro name member
    rcases mem_append.mp member with callee | args
    · exact builtin_of_mem_builtinOf safe callee
    · exact among ih name args

section Grammar

variable {vocabulary : Vocabulary}
  (keys : ∀ name, isLocalName name = true → isBuiltinName name = false → vocabulary.key name)

include keys

theorem name_reference (safe : target.IsSafe)
    (bound : ∀ name ∈ builtinOf target, vocabulary.bound name) :
    Name vocabulary target.row := by
  cases target with
  | scope name => exact .entry (keys name safe.1 safe.2)
  | builtin name => exact .builtin (bound name (.head _))

omit keys in
theorem callee_helper (function : Helper) : Callee vocabulary function.row := by
  cases function with
  | divide | power | abs => exact .function (by decide)
  | _ => exact .name (.member (by decide))

omit keys in
theorem expression_chain {rows : List (List Lexeme)} {relations : List Relation}
    (linked : Chain.linksOf relations rows ≠ []) (all : ∀ row ∈ rows, Expression vocabulary row) :
    Expression vocabulary (chainRow rows relations) := by
  have compares : ∀ relation : Relation, Lexeme.mark relation.symbol ∈ operators := by
    intro relation
    cases relation <;> decide
  have links : ∀ row ∈ (Chain.linksOf relations rows).map linkRow, Expression vocabulary row := by
    intro row member
    obtain ⟨link, among, rfl⟩ := mem_map.mp member
    obtain ⟨left, right⟩ := Program.mem_linksOf among
    exact .operation (compares link.head) (cons_ne_nil _ _) (forall_mem_cons.mpr
      ⟨all _ left, forall_mem_singleton.mpr (all _ right)⟩)
  have some : (Chain.linksOf relations rows).map linkRow ≠ [] := by simpa using linked
  unfold chainRow
  split
  · next link only => exact links link (by rw [only]; exact .head _)
  · exact .operation (by decide) some links

/-- The row of native code is a confined expression. -/
theorem expression_code (numerals : ∀ value, literal value → vocabulary.numeral (numeralOf value))
    (emitted : Emitted literal code) (bound : ∀ name ∈ code.builtins, vocabulary.bound name) :
    Expression vocabulary code.row := by
  have rows : ∀ {codes : List Code},
      (∀ code ∈ codes, (∀ name ∈ code.builtins, vocabulary.bound name) →
        Expression vocabulary code.row) →
      (∀ name ∈ builtinsArgs codes, vocabulary.bound name) →
      ∀ row ∈ rows codes, Expression vocabulary row := by
    intro codes all bound row member
    rw [rows_eq_map] at member
    obtain ⟨code, inside, rfl⟩ := mem_map.mp member
    exact all code inside fun name occurs =>
      bound name (mem_builtinsArgs.mpr ⟨code, inside, occurs⟩)
  have nonempty : ∀ {codes : List Code}, codes ≠ [] → Code.rows codes ≠ [] := by
    intro codes some
    simpa [rows_eq_map] using some
  induction emitted with
  | number known => exact expression_number (numerals _ known)
  | reference safe => exact .name (name_reference keys safe bound)
  | joined joiner some _ ih =>
    exact .operation (by cases joiner <;> decide) (nonempty some) (rows ih bound)
  | helper function _ ih => exact .call (callee_helper function) (rows ih bound)
  | negate _ ih | not _ ih => exact .signed (by decide) (ih bound)
  | connective joint some _ ih =>
    refine .operation (by cases joint <;> decide) (by simpa using nonempty some) ?_
    intro row member
    obtain ⟨part, inside, rfl⟩ := mem_map.mp member
    exact .call (.function (by decide)) (forall_mem_singleton.mpr (rows ih bound part inside))
  | chain linked _ ih =>
    refine expression_chain ?_ (rows ih bound)
    rw [rows_eq_map, linksOf_map]
    simpa using linked
  | call safe _ ih =>
    have callee := name_reference keys safe fun name member =>
      bound name (mem_append_left _ member)
    exact .call (.name callee) (rows ih fun name member => bound name (mem_append_right _ member))

end Grammar

/-- What may stand in the native source of a tree: the numerals of its numbers, safe names as keys of
the scope, and the builtin names that the prelude binds. -/
def vocabulary (node : Node) (code : Code) : Vocabulary where
  numeral text := ∃ value, Node.Sub (.number value) node ∧ text = numeralOf value
  key name := Text.isIdentifier name = true ∧ name ∉ hostKeywords ∧
    name.toList.head? ≠ some '_' ∧ name ∉ reservedNames ∧ isBuiltinName name = false
  bound name := name ∈ code.boundNames ∧ isBuiltinName name = true

theorem key_of_isLocalName {node : Node} (isLocal : isLocalName name = true)
    (other : isBuiltinName name = false) : (vocabulary node code).key name := by
  simp only [isLocalName, Bool.and_eq_true, Bool.not_eq_true', beq_eq_false_iff_ne] at isLocal
  obtain ⟨⟨⟨identifier, keyword⟩, start⟩, reserved⟩ := isLocal
  refine ⟨identifier, ?_, start, ?_, other⟩
  · exact fun member => absurd (contains_iff_mem.mpr member) (Bool.eq_false_iff.mp keyword)
  · exact fun member => absurd (contains_iff_mem.mpr member) (Bool.eq_false_iff.mp reserved)

theorem isIdentifier_of_isBuiltinName (builtin : isBuiltinName name = true) :
    isIdentifier name = true := by
  rw [isBuiltinName, Bool.or_eq_true, Option.isSome_iff_exists, Option.isSome_iff_exists] at builtin
  rcases builtin with ⟨constant, found⟩ | ⟨primitive, found⟩
  · unfold Constant.ofName? at found
    have same := find?_some found
    rw [← beq_iff_eq.mp same]
    cases constant <;> decide
  · unfold Primitive.ofName? at found
    have same := find?_some found
    rw [← beq_iff_eq.mp same]
    cases primitive <;> decide

theorem indented_bindingLine (builtin : isBuiltinName name = true) :
    "    " ++ bindingLine name ++ "\n"
      = "    " ++ name ++ " = scope.get('" ++ name ++ "', _builtins['" ++ name ++ "'])\n" := by
  have quoted : quoted name = "'" ++ name ++ "'" := by
    apply String.toList_injective
    rw [toList_quoted (isIdentifier_of_isBuiltinName builtin)]
    simp
  apply String.toList_injective
  simp [bindingLine, quoted]

theorem source_eq (builtin : ∀ name ∈ code.boundNames, isBuiltinName name = true) :
    code.source = "def _native(scope):\n"
      ++ String.join (code.boundNames.map fun name =>
        "    " ++ name ++ " = scope.get('" ++ name ++ "', _builtins['" ++ name ++ "'])\n")
      ++ "    return " ++ code.text ++ "\n" := by
  have lines : code.boundNames.map (fun name => "    " ++ bindingLine name ++ "\n")
      = code.boundNames.map fun name =>
        "    " ++ name ++ " = scope.get('" ++ name ++ "', _builtins['" ++ name ++ "'])\n" :=
    map_congr_left fun name member => indented_bindingLine (builtin name member)
  have last : String.join (["return " ++ code.text].map fun line => "    " ++ line ++ "\n")
      = "    return " ++ code.text ++ "\n" := by
    rw [map_singleton, String.join_cons, String.join_nil, String.append_empty,
      ← String.append_assoc]
    rfl
  unfold source
  dsimp only
  rw [map_append, map_map, String.join_append, last, ← lines]
  simp only [Function.comp_def, String.append_assoc]

/-- Native source is confined, whatever strings are the names of the tree. Its expression splits into
lexemes of the host language that derive in the fixed grammar, with matching brackets, and each
lexeme is fixed or stems from the vocabulary of the tree. Before it the prelude binds the builtin
names in use, and nothing else. -/
theorem source_confined {node : Node} {code : Code} (native : ofNode? node = some code) :
    (∃ row, lexemes code.text = some row ∧ Expression (vocabulary node code) row ∧
      balanced [] row = true ∧ ∀ lexeme ∈ row, Allowed (vocabulary node code) lexeme) ∧
    code.source = "def _native(scope):\n"
      ++ String.join (code.boundNames.map fun name =>
        "    " ++ name ++ " = scope.get('" ++ name ++ "', _builtins['" ++ name ++ "'])\n")
      ++ "    return " ++ code.text ++ "\n" := by
  obtain ⟨term, meaning, coded⟩ := Option.bind_eq_some_iff.mp native
  have emitted := emits_of_read meaning code coded
  have builtin : ∀ name ∈ code.boundNames, isBuiltinName name = true :=
    fun name member => builtin_of_mem_builtins emitted name (mem_boundNames.mp member)
  refine ⟨⟨code.row, lexemes_of_spells (spells_code emitted), ?_⟩, ?_⟩
  · have expression : Expression (vocabulary node code) code.row := by
      refine expression_code (fun _ => key_of_isLocalName) (fun value sub => ⟨value, sub, rfl⟩)
        emitted fun name member => ?_
      exact ⟨mem_boundNames.mpr member, builtin_of_mem_builtins emitted name member⟩
    have closed := closes_expression expression [] []
    rw [append_nil] at closed
    exact ⟨expression, closed, allowed_expression expression⟩
  · exact source_eq builtin

/-- A name beyond ASCII, a constant that the prelude binds, and a negative number. -/
theorem source_confined_constant :
    let node := Node.of .add
      [.symbol "größe", .of (.elementary .sin) [.symbol "Pi"], .number (-2.5)]
    let code := joined .add
      [.reference (.scope "größe"), .helper .sin [.reference (.builtin "pi")], .number (-2.5)]
    ofNode? node = some code ∧ code.text = "(scope['größe'] + _m.sin(pi) + (-2.5))" ∧
    ∃ row, lexemes code.text = some row ∧ Expression (vocabulary node code) row ∧
      balanced [] row = true := by
  intro node code
  have native : ofNode? node = some code := rfl
  obtain ⟨⟨row, split, expression, closed, -⟩, -⟩ := source_confined native
  exact ⟨native, by decide +kernel, row, split, expression, closed⟩

end Grapher.Native
