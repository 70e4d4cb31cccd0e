import Grapher.Native.Code
import Grapher.Proofs.Program.Scanning
import Mathlib.Data.List.Forall2

/-!
# The host language of native code

A fixed part of the host language: its lexemes, and a grammar of expressions in which the only free
names are those that a caller allows. `lexemes` splits a text as the host does, the longest lexeme
first; a quote that does not end makes it fail.
-/

set_option autoImplicit false

namespace Grapher.Host

open List

/-! ## Lexemes -/

/-- A lexeme of the host language. -/
inductive Lexeme where
  /-- A keyword or a name. -/
  | word (text : String)
  | numeral (text : String)
  /-- A text between single quotes, without escapes. -/
  | string (content : String)
  | mark (text : String)
  deriving DecidableEq, Repr

variable {c : Char} {texts : List (List Char)} {rest : List Char} {row : List Lexeme}
  {lexeme separator : Lexeme} {rows : List (List Lexeme)}

/-- The marks of expressions, the longer ones first. -/
def marks : List String := [
  "**", "//", "<<", ">>", "==", "!=", "<=", ">=",
  "+", "-", "*", "/", "%", "@", "&", "|", "^", "~", "<", ">", "(", ")", "[", "]", ",", ":", "."]

/-- Whether a character can stand in a string as itself. -/
def isPlain (c : Char) : Bool := c != '\'' && c != '\\' && c != '\n'

/-- The lexeme at the start of a text, with its length. -/
def lexeme? : List Char → Option (Lexeme × Nat)
  | [] => none
  | '\'' :: rest =>
    let content := rest.takeWhile isPlain
    if (rest.drop content.length).head? == some '\'' then
      some (.string (String.ofList content), content.length + 2)
    else none
  | c :: rest =>
    if c.isDigit then
      (Decimal.scanScaled? (c :: rest)).map fun (_, after) =>
        let length := (c :: rest).length - after.length
        (.numeral (String.ofList ((c :: rest).take length)), length)
    else if Text.isIdentifierStart c then
      let word := c :: rest.takeWhile Text.isIdentifierRest
      some (.word (String.ofList word), word.length)
    else
      (marks.find? (·.toList.isPrefixOf (c :: rest))).map fun sign =>
        (.mark sign, sign.toList.length)

/-- The lexemes of a text; `skip` characters belong to the lexeme before. -/
def lex (skip : Nat) : List Char → Option (List Lexeme)
  | [] => some []
  | c :: rest =>
    match skip with
    | skip + 1 => lex skip rest
    | 0 =>
      if c == ' ' then lex 0 rest
      else
        match lexeme? (c :: rest) with
        | some (found, length) => (lex (length - 1) rest).map (found :: ·)
        | none => none

/-- The lexemes of a text, if it consists of lexemes. -/
def lexemes (text : String) : Option (List Lexeme) := lex 0 text.toList

/-! ## Expressions -/

/-- Lexemes in parentheses. -/
def enclosed (inner : List Lexeme) : List Lexeme := .mark "(" :: inner ++ [.mark ")"]

/-- Rows of lexemes with a lexeme between them. -/
def separated (separator : Lexeme) (parts : List (List Lexeme)) : List Lexeme :=
  [separator].intercalate parts

/-- The members of the mathematical library that an expression may use. -/
def attributes : List String :=
  ["nan", "inf", "sin", "cos", "tan", "sqrt", "exp", "log", "log10"]

/-- The functions that an expression may call by a bare name. -/
def functions : List String := ["abs", "bool", "_div", "_pow"]

/-- The operators between the operands of an expression. -/
def operators : List Lexeme :=
  ["+", "-", "*", "==", "!=", "<", "<=", ">", ">="].map .mark ++ [.word "and", .word "or"]

/-- The operators in front of an operand. -/
def signs : List Lexeme := [.mark "-", .word "not"]

/-- What an expression may hold beyond its fixed words and marks. -/
structure Vocabulary where
  /-- The numerals. -/
  numeral : String → Prop
  /-- The keys under which entries of the scope are taken. -/
  key : String → Prop
  /-- The names that are bound before the expression. -/
  bound : String → Prop

/-- What a name can be: a member of the mathematical library, an entry of the scope under a quoted
key, or a bound name. -/
inductive Name (vocabulary : Vocabulary) : List Lexeme → Prop where
  | member {member : String} (known : member ∈ attributes) :
      Name vocabulary [.word "_m", .mark ".", .word member]
  | entry {name : String} (safe : vocabulary.key name) :
      Name vocabulary [.word "scope", .mark "[", .string name, .mark "]"]
  | builtin {name : String} (known : vocabulary.bound name) : Name vocabulary [.word name]

/-- What can be called. -/
inductive Callee (vocabulary : Vocabulary) : List Lexeme → Prop where
  | function {name : String} (known : name ∈ functions) : Callee vocabulary [.word name]
  | name {row : List Lexeme} (named : Name vocabulary row) : Callee vocabulary row

/-- The grammar of confined expressions. -/
inductive Expression (vocabulary : Vocabulary) : List Lexeme → Prop where
  | numeral {text : String} (known : vocabulary.numeral text) : Expression vocabulary [.numeral text]
  | negative {text : String} (known : vocabulary.numeral text) :
      Expression vocabulary [.mark "-", .numeral text]
  | name {row : List Lexeme} (named : Name vocabulary row) : Expression vocabulary row
  | signed {sign : Lexeme} (known : sign ∈ signs) {operand : List Lexeme}
      (inside : Expression vocabulary operand) : Expression vocabulary (enclosed (sign :: operand))
  | operation {operator : Lexeme} (known : operator ∈ operators) {parts : List (List Lexeme)}
      (some : parts ≠ []) (all : ∀ part ∈ parts, Expression vocabulary part) :
      Expression vocabulary (enclosed (separated operator parts))
  | call {callee : List Lexeme} (called : Callee vocabulary callee) {args : List (List Lexeme)}
      (all : ∀ arg ∈ args, Expression vocabulary arg) :
      Expression vocabulary (callee ++ enclosed (separated (.mark ",") args))

/-- The words that an expression may use whatever its vocabulary is. -/
def fixedWords : List String := ["scope", "_m"] ++ attributes ++ functions ++ ["and", "or", "not"]

/-- A lexeme that stems from the vocabulary, or is fixed. -/
def Allowed (vocabulary : Vocabulary) : Lexeme → Prop
  | .word text => text ∈ fixedWords ∨ vocabulary.bound text
  | .numeral text => vocabulary.numeral text
  | .string content => vocabulary.key content
  | .mark text => text ∈ marks

/-! ## Brackets -/

/-- Whether brackets match, after some that are still open. -/
def balanced (opened : List String) : List Lexeme → Bool
  | [] => opened.isEmpty
  | .mark text :: rest =>
    if text == "(" || text == "[" then balanced (text :: opened) rest
    else if text == ")" then opened.head? == some "(" && balanced opened.tail rest
    else if text == "]" then opened.head? == some "[" && balanced opened.tail rest
    else balanced opened rest
  | _ :: rest => balanced opened rest

/-- Whether a lexeme is a bracket. -/
def isBracket : Lexeme → Bool
  | .mark text => ["(", ")", "[", "]"].contains text
  | _ => false

/-- A row of lexemes that leaves open what was open before. -/
def Closes (row : List Lexeme) : Prop :=
  ∀ opened rest, balanced opened (row ++ rest) = balanced opened rest

namespace Closes

theorem nil : Closes [] := fun _ _ => rfl

theorem single (other : isBracket lexeme = false) : Closes [lexeme] := by
  intro opened rest
  cases lexeme with
  | mark text =>
    simp only [isBracket, contains_cons, contains_nil, Bool.or_false, Bool.or_eq_false_iff] at other
    obtain ⟨opening, closing, left, right⟩ := other
    simp only [cons_append, nil_append, balanced, opening, closing, left, right,
      Bool.or_self, Bool.false_eq_true, if_false]
  | _ => rfl

theorem append {first second : List Lexeme} (left : Closes first) (right : Closes second) :
    Closes (first ++ second) := by
  intro opened rest
  rw [append_assoc, left, right]

theorem enclosed {inner : List Lexeme} (inside : Closes inner) : Closes (enclosed inner) := by
  intro opened rest
  simp only [Host.enclosed, cons_append, append_assoc, nil_append, balanced]
  exact inside _ _

theorem separated (between : Closes [separator]) {parts : List (List Lexeme)}
    (all : ∀ part ∈ parts, Closes part) : Closes (separated separator parts) := by
  unfold Host.separated
  induction parts with
  | nil => exact nil
  | cons first parts ih =>
    obtain ⟨head, tail⟩ := forall_mem_cons.mp all
    cases parts with
    | nil => simpa using head
    | cons second parts =>
      rw [intercalate_cons_cons]
      exact (head.append between).append (ih tail)

end Closes

theorem closes_name {vocabulary : Vocabulary} (named : Name vocabulary row) : Closes row := by
  cases named with
  | member known | entry safe | builtin known => exact fun _ _ => rfl

theorem closes_callee {vocabulary : Vocabulary} (called : Callee vocabulary row) : Closes row := by
  cases called with
  | function known => exact fun _ _ => rfl
  | name named => exact closes_name named

/-- The brackets of an expression match. -/
theorem closes_expression {vocabulary : Vocabulary} (expression : Expression vocabulary row) :
    Closes row := by
  have operator_other : ∀ operator ∈ operators, isBracket operator = false := by decide
  have sign_other : ∀ sign ∈ signs, isBracket sign = false := by decide
  induction expression with
  | numeral known | negative known => exact fun _ _ => rfl
  | name named => exact closes_name named
  | @signed sign known operand _ ih =>
    exact ((Closes.single (sign_other sign known)).append ih).enclosed
  | operation known some _ ih =>
    exact (Closes.separated (.single (operator_other _ known)) ih).enclosed
  | call called _ ih =>
    exact (closes_callee called).append (Closes.separated (.single rfl) ih).enclosed

/-! ## The lexemes of an expression -/

section Allowed

variable {vocabulary : Vocabulary}

/-- Whether a lexeme is allowed whatever the vocabulary is. -/
def isFixed : Lexeme → Bool
  | .word text => fixedWords.contains text
  | .mark text => marks.contains text
  | _ => false

theorem allowed_of_isFixed (fixed : isFixed lexeme = true) : Allowed vocabulary lexeme := by
  cases lexeme with
  | word text => exact .inl (contains_iff_mem.mp fixed)
  | mark text => exact contains_iff_mem.mp fixed
  | numeral text | string content => cases fixed

theorem allowed_enclosed {inner : List Lexeme}
    (inside : ∀ lexeme ∈ inner, Allowed vocabulary lexeme) :
    ∀ lexeme ∈ enclosed inner, Allowed vocabulary lexeme := by
  intro lexeme member
  simp only [enclosed, cons_append, mem_cons, mem_append, not_mem_nil, or_false] at member
  rcases member with rfl | among | rfl
  · exact allowed_of_isFixed (by decide)
  · exact inside lexeme among
  · exact allowed_of_isFixed (by decide)

theorem allowed_separated (between : Allowed vocabulary separator) {parts : List (List Lexeme)}
    (all : ∀ part ∈ parts, ∀ lexeme ∈ part, Allowed vocabulary lexeme) :
    ∀ lexeme ∈ separated separator parts, Allowed vocabulary lexeme := by
  unfold separated
  induction parts with
  | nil => exact fun _ member => nomatch member
  | cons first parts ih =>
    obtain ⟨head, tail⟩ := forall_mem_cons.mp all
    cases parts with
    | nil => simpa using head
    | cons second parts =>
      intro lexeme member
      rw [intercalate_cons_cons, mem_append, mem_append, mem_singleton] at member
      rcases member with (among | rfl) | later
      · exact head lexeme among
      · exact between
      · exact ih tail lexeme later

theorem allowed_name (named : Name vocabulary row) : ∀ lexeme ∈ row, Allowed vocabulary lexeme := by
  cases named with
  | member known =>
    intro lexeme member
    simp only [mem_cons, not_mem_nil, or_false] at member
    rcases member with rfl | rfl | rfl
    · exact allowed_of_isFixed (by decide)
    · exact allowed_of_isFixed (by decide)
    · exact .inl (mem_append_left _ (mem_append_left _ (mem_append_right _ known)))
  | entry safe =>
    intro lexeme member
    simp only [mem_cons, not_mem_nil, or_false] at member
    rcases member with rfl | rfl | rfl | rfl
    · exact allowed_of_isFixed (by decide)
    · exact allowed_of_isFixed (by decide)
    · exact safe
    · exact allowed_of_isFixed (by decide)
  | builtin known =>
    intro lexeme member
    cases mem_singleton.mp member
    exact .inr known

theorem allowed_callee (called : Callee vocabulary row) :
    ∀ lexeme ∈ row, Allowed vocabulary lexeme := by
  cases called with
  | function known =>
    intro lexeme member
    cases mem_singleton.mp member
    exact .inl (mem_append_left _ (mem_append_right _ known))
  | name named => exact allowed_name named

/-- Each lexeme of an expression is fixed or stems from the vocabulary. -/
theorem allowed_expression (expression : Expression vocabulary row) :
    ∀ lexeme ∈ row, Allowed vocabulary lexeme := by
  have operator_fixed : ∀ operator ∈ operators, isFixed operator = true := by decide
  have sign_fixed : ∀ sign ∈ signs, isFixed sign = true := by decide
  induction expression with
  | numeral known => exact forall_mem_singleton.mpr known
  | negative known =>
    exact forall_mem_cons.mpr
      ⟨allowed_of_isFixed (by decide), forall_mem_singleton.mpr known⟩
  | name named => exact allowed_name named
  | signed known _ ih =>
    exact allowed_enclosed (forall_mem_cons.mpr ⟨allowed_of_isFixed (sign_fixed _ known), ih⟩)
  | operation known _ _ ih =>
    exact allowed_enclosed (allowed_separated (allowed_of_isFixed (operator_fixed _ known)) ih)
  | call called _ ih =>
    intro lexeme member
    rcases mem_append.mp member with among | later
    · exact allowed_callee called lexeme among
    · exact allowed_enclosed (allowed_separated (allowed_of_isFixed (by decide)) ih) lexeme later

end Allowed

/-! ## Texts of rows -/

open Program (Stops)

/-- A text that has the lexemes of a row, if what follows it meets a condition. -/
def Spells (follows : List Char → Prop) (text : List Char) (row : List Lexeme) : Prop :=
  ∀ rest, follows rest → lex 0 (text ++ rest) = (lex 0 rest).map (row ++ ·)

/-- No condition on what follows. -/
abbrev Anything : List Char → Prop := fun _ => True

/-- What follows does not continue a word. -/
def EndsWord (rest : List Char) : Prop := ∀ c ∈ rest.head?, Text.isIdentifierRest c = false

namespace Spells

variable {follows after : List Char → Prop} {first second : List Char} {left right : List Lexeme}

theorem mono (stronger : ∀ rest, after rest → follows rest) (spells : Spells follows first left) :
    Spells after first left :=
  fun rest holds => spells rest (stronger rest holds)

theorem of_anything (spells : Spells Anything first left) : Spells after first left :=
  spells.mono fun _ _ => trivial

theorem append (one : Spells follows first left) (two : Spells after second right)
    (meets : ∀ rest, after rest → follows (second ++ rest)) :
    Spells after (first ++ second) (left ++ right) := by
  intro rest holds
  rw [append_assoc, one _ (meets rest holds), two rest holds, Option.map_map]
  congr 1
  funext found
  exact (append_assoc left right found).symm

theorem cons (one : Spells Anything first left) (two : Spells after second right) :
    Spells after (first ++ second) (left ++ right) :=
  one.append two fun _ _ => trivial

end Spells

theorem lex_passes (passed rest : List Char) : lex passed.length (passed ++ rest) = lex 0 rest := by
  induction passed with
  | nil => rfl
  | cons c passed ih => exact ih

/-- A text that is recognised as a lexeme spells it. -/
theorem lex_of_lexeme? {more : List Char} (visible : c ≠ ' ')
    (recognised : lexeme? (c :: more ++ rest) = some (lexeme, (c :: more).length)) :
    lex 0 (c :: more ++ rest) = (lex 0 rest).map ([lexeme] ++ ·) := by
  have blank : (c == ' ') = false := beq_eq_false_iff_ne.mpr visible
  rw [cons_append] at recognised ⊢
  rw [lex, blank, recognised]
  simp only [Bool.false_eq_true, if_false, length_cons, Nat.add_sub_cancel, lex_passes]
  rfl

theorem isIdentifierStart_other (start : Text.isIdentifierStart c = true) :
    c ≠ ' ' ∧ c ≠ '\'' ∧ c.isDigit = false := by
  by_cases small : c.toNat < 128
  · exact @Text.forall_ascii (fun c => Text.isIdentifierStart c = true →
      c ≠ ' ' ∧ c ≠ '\'' ∧ c.isDigit = false) (by decide) c small start
  · refine ⟨?_, ?_, Bool.eq_false_iff.mpr fun digit => small (Text.small_of_isDigit digit)⟩
    all_goals
      rintro rfl
      exact small (by decide)

theorem takeWhile_append_stop {test : Char → Bool} {inside : List Char}
    (all : ∀ c ∈ inside, test c = true) (stop : ∀ c ∈ rest.head?, test c = false) :
    (inside ++ rest).takeWhile test = inside := by
  rw [takeWhile_append_of_pos all]
  cases rest with
  | nil => exact append_nil _
  | cons c rest => rw [takeWhile_cons, stop c rfl]; exact append_nil _

theorem spells_word {word : String} (identifier : Text.isIdentifier word = true) :
    Spells EndsWord word.toList [.word word] := by
  intro rest ends
  unfold Text.isIdentifier at identifier
  split at identifier
  · cases identifier
  · next first more chars =>
    rw [Bool.and_eq_true, all_eq_true] at identifier
    obtain ⟨start, inside⟩ := identifier
    obtain ⟨visible, quote, digit⟩ := isIdentifierStart_other start
    have same : String.ofList (first :: more) = word := by rw [← chars, String.ofList_toList]
    rw [chars]
    refine lex_of_lexeme? visible ?_
    rw [cons_append]
    unfold lexeme?
    split
    · next impossible => cases impossible
    · next impossible => exact absurd (cons.inj impossible).1 quote
    · next c tail shape =>
      obtain ⟨rfl, rfl⟩ := cons.inj shape
      simp only [digit, Bool.false_eq_true, if_false, start, if_true,
        takeWhile_append_stop inside ends, same]

theorem spells_numeral {bits : Nat} (finite : bits < Double.infinityBits) :
    Spells Decimal.EndsNumeral (Decimal.magnitudeText bits)
      [.numeral (String.ofList (Decimal.magnitudeText bits))] := by
  intro rest ends
  obtain ⟨read, numeral, -⟩ := Decimal.numeral_magnitudeText finite
  have scanned := Decimal.scanScaled?_numeral numeral ends
  obtain ⟨c, more, text, digit⟩ := Decimal.startsDigit_magnitudeText bits
  have small := Text.small_of_isDigit digit
  have other : c ≠ ' ' ∧ c ≠ '\'' :=
    @Text.forall_ascii (fun c => c.isDigit = true → c ≠ ' ' ∧ c ≠ '\'') (by decide) c small digit
  rw [text] at scanned ⊢
  refine lex_of_lexeme? other.1 ?_
  have length : (c :: more ++ rest).length - rest.length = (c :: more).length := by
    rw [length_append, Nat.add_sub_cancel]
  have taken : (c :: more ++ rest).take (c :: more).length = c :: more := take_left
  rw [cons_append] at scanned length taken ⊢
  unfold lexeme?
  split
  · next impossible => cases impossible
  · next impossible => exact absurd (cons.inj impossible).1 other.2
  · next first tail shape =>
    obtain ⟨rfl, rfl⟩ := cons.inj shape
    simp only [digit, if_true, scanned, Option.map_some, length, taken]

theorem spells_string {name : String} (plain : ∀ c ∈ name.toList, isPlain c = true) :
    Spells Anything ('\'' :: (name.toList ++ ['\''])) [.string name] := by
  intro rest _
  refine lex_of_lexeme? (by decide) ?_
  have content : (name.toList ++ '\'' :: rest).takeWhile isPlain = name.toList :=
    takeWhile_append_stop plain fun c member => by cases member; rfl
  rw [cons_append, append_assoc, cons_append, nil_append, lexeme?]
  simp [content]

/-- A mark that no longer mark starts with. -/
theorem spells_mark (among : c ∈ ['(', ')', '[', ']', ',', '.', '-']) :
    Spells Anything [c] [.mark (String.singleton c)] := by
  intro rest _
  simp only [mem_cons, not_mem_nil, or_false] at among
  rcases among with rfl | rfl | rfl | rfl | rfl | rfl | rfl <;> rfl

/-- A word with such a mark right after it. -/
theorem spells_word_mark {word : String} (identifier : Text.isIdentifier word = true) {c : Char}
    (among : c ∈ ['(', ')', '[', ']', ',', '.', '-']) :
    Spells Anything (word.toList ++ [c]) [.word word, .mark (String.singleton c)] := by
  have facts : ∀ c ∈ ['(', ')', '[', ']', ',', '.', '-'], Text.isIdentifierRest c = false := by
    decide
  refine (spells_word identifier).append (spells_mark among) fun rest _ d member => ?_
  cases member
  exact facts c among

/-- A row in parentheses. -/
theorem spells_enclosed {text : List Char} (inside : Spells Stops text row) :
    Spells Anything ('(' :: (text ++ [')'])) (enclosed row) := by
  have closing : Spells Anything [')'] [.mark ")"] := spells_mark (by decide)
  have opening : Spells Anything ['('] [.mark "("] := spells_mark (by decide)
  exact opening.cons (inside.append closing fun _ _ => .cons (by decide))

/-- Rows with a lexeme between them. -/
theorem spells_separated {between : List Char} (bridge : Spells Anything between [separator])
    (stops : ∀ rest, Stops (between ++ rest)) (all : Forall₂ (Spells Stops) texts rows) :
    Spells Stops (between.intercalate texts) (separated separator rows) := by
  unfold separated
  induction all with
  | nil =>
    intro rest _
    simp
  | cons first rest ih =>
    cases rest with
    | nil => simpa using first
    | cons second rest =>
      rw [intercalate_cons_cons, intercalate_cons_cons]
      have joined := first.append bridge fun rest _ => stops rest
      exact joined.cons ih

/-- The arguments of a call. -/
theorem spells_arguments (all : Forall₂ (Spells Stops) texts rows) :
    Spells Anything ('(' :: ([',', ' '].intercalate texts ++ [')']))
      (enclosed (separated (.mark ",") rows)) := by
  refine spells_enclosed (spells_separated ?_ (fun _ => .cons (by decide)) all)
  exact fun _ _ => rfl

/-- A call of a function whose text can stand in front of a parenthesis. -/
theorem spells_call {callee : List Char} (called : Spells Stops callee row)
    (all : Forall₂ (Spells Stops) texts rows) :
    Spells Anything (callee ++ '(' :: ([',', ' '].intercalate texts ++ [')']))
      (row ++ enclosed (separated (.mark ",") rows)) :=
  called.append (spells_arguments all) fun _ _ => .cons (by decide)

theorem endsWord_of_stops (stops : Stops rest) : EndsWord rest := by
  have facts : ∀ c ∈ [' ', '(', ')', ','], Text.isIdentifierRest c = false := by decide
  exact fun c member => facts c (stops c member)

theorem endsNumeral_of_stops (stops : Stops rest) : Decimal.EndsNumeral rest :=
  stops.endsAt (.number 0)

/-- The text of an expression splits into its row. -/
theorem lexemes_of_spells {text : String} (spells : Spells Stops text.toList row) :
    lexemes text = some row := by
  have whole := spells [] .nil
  rw [append_nil] at whole
  exact whole.trans (by simp [lex])

end Grapher.Host
