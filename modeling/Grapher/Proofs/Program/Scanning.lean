import Grapher.Program.Parser
import Grapher.Program.Writer
import Grapher.Proofs.Decimal.Written
import Grapher.Proofs.Text.Classes

/-!
# Scanning what is written

The tokens of a written program are found again in its text. A token is recognised where its
spelling ends: a numeral where no digit, point or power follows, a word where no letter, digit or
underscore does, a mark where no longer mark begins. `Scanned` collects what the scanner finds, one
token or blank at a time, and `Legible` says of a row of pieces that its text is read as its tokens
in front of anything that starts with a blank, a parenthesis or a comma.
-/

set_option autoImplicit false

namespace Grapher.Program

open List Text Decimal

open Reading (isName)

variable {c : Char} {text rest : List Char} {pieces : List Piece}

/-- The characters of pieces in a row. -/
def pieceChars (pieces : List Piece) : List Char :=
  pieces.flatMap fun piece => piece.text.toList

theorem toList_piecesText (pieces : List Piece) :
    (piecesText pieces).toList = pieceChars pieces := by
  unfold piecesText pieceChars
  induction pieces with
  | nil => rfl
  | cons piece pieces ih => rw [map_cons, String.join_cons, String.toList_append, ih, flatMap_cons]

@[simp] theorem pieceChars_nil : pieceChars [] = [] := rfl

@[simp] theorem pieceChars_cons (piece : Piece) (pieces : List Piece) :
    pieceChars (piece :: pieces) = piece.text.toList ++ pieceChars pieces := rfl

@[simp] theorem pieceChars_append (first second : List Piece) :
    pieceChars (first ++ second) = pieceChars first ++ pieceChars second := by
  simp [pieceChars]

@[simp] theorem piecesTokens_nil : piecesTokens [] = [] := rfl

@[simp] theorem piecesTokens_token (token : Token) (pieces : List Piece) :
    piecesTokens (.token token :: pieces) = token :: piecesTokens pieces := rfl

@[simp] theorem piecesTokens_blank (pieces : List Piece) :
    piecesTokens (.blank :: pieces) = piecesTokens pieces := rfl

@[simp] theorem piecesTokens_append (first second : List Piece) :
    piecesTokens (first ++ second) = piecesTokens first ++ piecesTokens second := by
  simp [piecesTokens]

/-! ## Lexemes -/

/-- Whether a text is of ASCII characters only. -/
def isAscii (word : String) : Bool :=
  word.toList.all (·.toNat < 128)

/-- A token that the scanner can find: a nonnegative finite number, a name of ASCII characters, or
any word or mark. -/
def Token.IsSpelled : Token → Prop
  | .number value => Double.isNegative value = false ∧ Double.isFinite value = true
  | .name word => isName word = true ∧ isAscii word = true
  | .keyword _ => True
  | .mark _ => True

/-- The texts that spell a token: a numeral spells the number that it is read as, and names of ASCII
characters, words and marks spell themselves. -/
inductive Spells : List Char → Token → Prop where
  | number {text : List Char} {d : Decimal} {value : Float} (numeral : Numeral text d)
    (reads : doubleOfText (String.ofList text) = .ok value) : Spells text (.number value)
  | name {word : String} (named : isName word = true) (ascii : isAscii word = true) :
    Spells word.toList (.name word)
  | keyword (word : Keyword) : Spells word.text.toList (.keyword word)
  | mark (sign : Mark) : Spells sign.text.toList (.mark sign)

theorem Token.IsSpelled.spells {token : Token} (spelled : token.IsSpelled) :
    Spells token.text.toList token := by
  cases token with
  | number value =>
    obtain ⟨d, numeral, same⟩ := numeral_numberText spelled.1 spelled.2
    exact .number numeral ((doubleOfText_numeral numeral).trans (congrArg _ same))
  | name word => exact .name spelled.1 spelled.2
  | keyword word => exact .keyword word
  | mark sign => exact .mark sign

/-- The character that makes a longer mark of a mark. -/
def Mark.growth? : Mark → Option Char
  | .minus => some '>'
  | .relation .less => some '='
  | .relation .greater => some '='
  | _ => none

/-- A text that does not continue a token. -/
def Token.EndsAt : Token → List Char → Prop
  | .number _, rest => Decimal.EndsNumeral rest
  | .name _, rest => ∀ c ∈ rest.head?, isWordRest c = false
  | .keyword _, rest => ∀ c ∈ rest.head?, isWordRest c = false
  | .mark sign, rest => ∀ c ∈ rest.head?, sign.growth? ≠ some c

theorem isDecimal_of_ascii (small : c.toNat < 128) : isDecimal c = c.isDigit := by
  unfold isDecimal decimalValue?
  cases digit : c.isDigit with
  | true => rfl
  | false =>
    have none : (zerosBeyondAscii.find? fun first => first ≤ c.toNat && c.toNat < first + 10)
        = none := by
      rw [find?_eq_none]
      intro first member
      have large : ∀ first ∈ zerosBeyondAscii, 128 ≤ first := by decide
      have := large first member
      simp only [Bool.and_eq_true, decide_eq_true_eq]
      omega
    simp [none]

/-- No numeral starts with a character that is neither a digit nor the point. -/
theorem scanScaled?_of_other (digit : isDecimal c = false) (point : c ≠ '.') :
    Decimal.scanScaled? (c :: rest) = none := by
  have plain : scanPlain? (c :: rest) = none := by
    unfold scanPlain? scanDigits
    simp [digit, point]
  simp [scanScaled?, plain]

/-- The characters of an ASCII name. -/
theorem name_chars {word : String} (named : isName word = true) (ascii : isAscii word = true) :
    ∃ first rest, word.toList = first :: rest ∧ isWordStart first = true ∧
      (∀ c ∈ rest, isWordRest c = true) ∧ ∀ c ∈ first :: rest, c.toNat < 128 := by
  simp only [isName, Bool.and_eq_true, isIdentifier] at named
  obtain ⟨identifier, -⟩ := named
  cases chars : word.toList with
  | nil => simp [chars] at identifier
  | cons first rest =>
    have small : ∀ c ∈ first :: rest, c.toNat < 128 := by
      simpa [isAscii, chars] using ascii
    simp only [chars, Bool.and_eq_true, all_eq_true] at identifier
    refine ⟨first, rest, rfl, ?_, ?_, small⟩
    · have start := identifier.1
      simpa [isIdentifierStart, small first (.head _), isWordStart] using start
    · intro c member
      have inside := identifier.2 c member
      have ascii := small c (mem_cons_of_mem _ member)
      simp only [isIdentifierRest, isIdentifierStart, ascii, if_true,
        inClass_ascii ascii, Bool.or_eq_true] at inside
      simp only [isWordRest, Char.isAlphanum, Bool.or_eq_true]
      rcases inside with (letter | line) | digit
      · exact .inl (.inl letter)
      · exact .inr line
      · exact .inl (.inr digit)

/-- A character that starts a word starts no numeral. -/
theorem wordStart_other (small : c.toNat < 128) (start : isWordStart c = true) :
    isDecimal c = false ∧ c ≠ '.' := by
  rw [isDecimal_of_ascii small]
  exact @forall_ascii (fun c => isWordStart c = true → c.isDigit = false ∧ c ≠ '.')
    (by decide) c small start

/-- A word is taken to its end. -/
theorem lexeme?_word {first : Char} {more rest : List Char} (small : first.toNat < 128)
    (start : isWordStart first = true) (inside : ∀ c ∈ more, isWordRest c = true)
    (ends : ∀ c ∈ rest.head?, isWordRest c = false) :
    lexeme? (first :: more ++ rest)
      = some (wordToken (String.ofList (first :: more)), (first :: more).length) := by
  have taken : (more ++ rest).takeWhile isWordRest = more := by
    rw [takeWhile_append_of_pos inside]
    cases rest with
    | nil => simp
    | cons c rest => simp [ends c rfl]
  have other := wordStart_other small start
  unfold lexeme?
  simp only [cons_append, scanScaled?_of_other other.1 other.2, start, if_true, taken]

theorem wordToken_name {word : String} (named : isName word = true) :
    wordToken word = .name word := by
  have free : Reading.connectiveWords.contains word = false := by
    simp only [isName, Bool.and_eq_true, Bool.not_eq_true'] at named
    exact named.2
  have none : Keyword.ofText? word = none := by
    simp only [Reading.connectiveWords, contains_cons, contains_nil, Bool.or_false,
      Bool.or_eq_false_iff, beq_eq_false_iff_ne] at free
    simp [Keyword.ofText?, Keyword.all, Keyword.text, free.1.symm, free.2.1.symm, free.2.2.symm]
  simp [wordToken, none]

/-- The second character of the longer marks that start with a character. -/
theorem lookup_doubleMarks {d : Char} {sign : Mark} (found : doubleMarks.lookup (c, d) = some sign) :
    (c = '-' ∧ d = '>') ∨ (c ∈ ['=', '!', '<', '>'] ∧ d = '=') := by
  have member := Text.mem_of_lookup found
  simp only [doubleMarks, mem_cons, Prod.mk.injEq, not_mem_nil, or_false] at member
  rcases member with ⟨⟨rfl, rfl⟩, -⟩ | ⟨⟨rfl, rfl⟩, -⟩ | ⟨⟨rfl, rfl⟩, -⟩ | ⟨⟨rfl, rfl⟩, -⟩ |
    ⟨⟨rfl, rfl⟩, -⟩ <;> decide

/-- A mark is taken to its end. -/
theorem lexeme?_mark (sign : Mark) (ends : ∀ c ∈ rest.head?, sign.growth? ≠ some c) :
    lexeme? (sign.text.toList ++ rest) = some (.mark sign, sign.text.toList.length) := by
  have start : ∀ {c : Char} {more : List Char}, c ∈ "-=!<>+*/^(),".toList →
      lexeme? (c :: more) = markLexeme? c more := by
    intro c more member
    have other : isDecimal c = false ∧ c ≠ '.' ∧ isWordStart c = false := by
      revert c
      decide
    unfold lexeme?
    simp [scanScaled?_of_other other.1 other.2.1, other.2.2]
  have single : ∀ {c : Char}, c ∈ "-=!<>+*/^(),".toList → singleMarks.lookup c = some sign →
      (c = '-' → sign.growth? = some '>') →
      (c ∈ ['=', '!', '<', '>'] → sign.growth? = some '=') →
      lexeme? ([c] ++ rest) = some (.mark sign, 1) := by
    intro c member found minus equals
    have alone : (rest.head?.bind fun next => doubleMarks.lookup (c, next)) = none := by
      rw [Option.bind_eq_none_iff]
      intro d next
      cases long : doubleMarks.lookup (c, d) with
      | none => rfl
      | some other =>
        rcases lookup_doubleMarks long with ⟨rfl, rfl⟩ | ⟨among, rfl⟩
        · exact absurd (minus rfl) (ends _ next)
        · exact absurd (equals among) (ends _ next)
    rw [singleton_append, start member]
    unfold markLexeme?
    simp [alone, found]
  cases sign with
  | arrow => exact start (by decide)
  | relation relation =>
    cases relation with
    | equal | notEqual | lessEqual | greaterEqual => exact start (by decide)
    | less | greater => exact single (by decide) rfl (by decide) (by decide)
  | minus => exact single (by decide) rfl (by decide) (by decide)
  | plus => exact single (by decide) rfl (by decide) (by decide)
  | times => exact single (by decide) rfl (by decide) (by decide)
  | divide => exact single (by decide) rfl (by decide) (by decide)
  | power | opening | closing | comma => exact single (by decide) rfl (by decide) (by decide)

/-- A token is recognised where its spelling ends. -/
theorem lexeme?_spelling {token : Token} (spells : Spells text token) (ends : token.EndsAt rest) :
    lexeme? (text ++ rest) = some (token, text.length) := by
  cases spells with
  | number numeral reads =>
    cases (doubleOfText_numeral numeral).symm.trans reads
    simp only [lexeme?, scanScaled?_numeral numeral ends, length_append, Nat.add_sub_cancel]
  | @name word named ascii =>
    obtain ⟨first, more, chars, start, inside, small⟩ := name_chars named ascii
    have same : String.ofList (first :: more) = word := by rw [← chars, String.ofList_toList]
    rw [chars, lexeme?_word (small first (.head _)) start inside ends, same, wordToken_name named]
  | keyword word =>
    cases word with
    | and => exact @lexeme?_word 'a' ['n', 'd'] rest (by decide) (by decide) (by decide) ends
    | or => exact @lexeme?_word 'o' ['r'] rest (by decide) (by decide) (by decide) ends
    | not => exact @lexeme?_word 'n' ['o', 't'] rest (by decide) (by decide) (by decide) ends
  | mark sign => exact lexeme?_mark sign ends

/-- A spelling has characters, and none of them is a blank. -/
theorem visible_spelling {token : Token} (spells : Spells text token) :
    text ≠ [] ∧ ∀ c ∈ text, isBlank c = false := by
  cases spells with
  | number numeral _ =>
    obtain ⟨some, numeric⟩ := chars_of_numeral numeral
    exact ⟨some, fun c member => isBlank_of_isNumeric (numeric c member)⟩
  | name named ascii =>
    obtain ⟨first, more, chars, -⟩ := name_chars named ascii
    rw [isName, Bool.and_eq_true] at named
    refine ⟨by rw [chars]; exact cons_ne_nil _ _, fun c member => ?_⟩
    exact isBlank_of_isIdentifierRest (isIdentifierRest_of_isIdentifier named.1 c member)
  | keyword word => cases word <;> decide
  | mark sign =>
    cases sign with
    | relation relation => cases relation <;> decide
    | _ => decide

theorem Token.IsSpelled.first {token : Token} (spelled : token.IsSpelled) :
    ∃ c more, token.text.toList = c :: more ∧ isBlank c = false := by
  obtain ⟨some, visible⟩ := visible_spelling spelled.spells
  obtain ⟨c, more, text⟩ := exists_cons_of_ne_nil some
  exact ⟨c, more, text, visible c (by rw [text]; exact .head _)⟩

/-! ## Scanning token by token -/

/-- The scanner finds exactly the given tokens in a text, wherever the text stands. -/
def Scanned (text : List Char) (found : List Token) : Prop :=
  ∀ position, scan 0 position text = .ok found

theorem scan_passes (passed rest : List Char) (position : Nat) :
    scan passed.length position (passed ++ rest) = scan 0 (position + passed.length) rest := by
  induction passed generalizing position with
  | nil => rfl
  | cons c passed ih =>
    simp only [length_cons, cons_append, scan]
    rw [ih, Nat.add_right_comm, Nat.add_assoc]

theorem Scanned.nil : Scanned [] [] := fun _ => rfl

theorem Scanned.spelling {token : Token} {found : List Token} (spells : Spells text token)
    (ends : token.EndsAt rest) (scanned : Scanned rest found) :
    Scanned (text ++ rest) (token :: found) := by
  intro position
  have recognised := lexeme?_spelling spells ends
  obtain ⟨some, visible⟩ := visible_spelling spells
  obtain ⟨c, more, rfl⟩ := exists_cons_of_ne_nil some
  have undropped : dropBlanks (c :: more ++ rest) = c :: more ++ rest := by
    simp [dropBlanks, visible]
  rw [cons_append] at undropped recognised ⊢
  unfold scan
  simp only [undropped, recognised, visible c (.head _), Bool.false_eq_true, if_false, length_cons,
    Nat.add_sub_cancel]
  rw [scan_passes, scanned]
  rfl

theorem Scanned.token {token : Token} {found : List Token} (spelled : token.IsSpelled)
    (ends : token.EndsAt rest) (scanned : Scanned rest found) :
    Scanned (token.text.toList ++ rest) (token :: found) :=
  .spelling spelled.spells ends scanned

/-- A blank before a token is passed over. -/
theorem Scanned.blank {found : List Token} (blank : isBlank c = true) (some : found ≠ [])
    (scanned : Scanned rest found) : Scanned (c :: rest) found := by
  intro position
  have visible : (lexeme? (dropBlanks rest)).isSome = true := by
    have here := scanned 0
    cases rest with
    | nil => cases here; exact absurd rfl some
    | cons c rest =>
      unfold scan at here
      cases recognised : lexeme? (dropBlanks (c :: rest)) with
      | none => simp [recognised] at here
      | some lexeme => rfl
  obtain ⟨lexeme, recognised⟩ := Option.isSome_iff_exists.mp visible
  have dropped : dropBlanks (c :: rest) = dropBlanks rest := dropWhile_cons_of_pos blank
  unfold scan
  simp only [dropped, recognised, blank, if_true]
  exact scanned _

/-! ## Legible rows of pieces -/

/-- A text that ends every token before it. -/
def Stops (rest : List Char) : Prop :=
  ∀ c ∈ rest.head?, c ∈ [' ', '(', ')', ',']

theorem Stops.nil : Stops [] := by
  intro c member
  cases member

theorem Stops.cons {c : Char} {rest : List Char} (among : c ∈ [' ', '(', ')', ',']) :
    Stops (c :: rest) := by
  intro d member
  cases member
  exact among

/-- No token goes on with a blank, a parenthesis or a comma. -/
theorem endsAt_of_parts (token : Token)
    (parts : ∀ c ∈ rest.head?, isBlank c = true ∨ c ∈ ['(', ')', ',']) : token.EndsAt rest := by
  have facts : ∀ c ∈ rest.head?, isWordRest c = false ∧ isDecimal c = false ∧
      c ∉ ['.', 'e', 'E', '>', '='] := by
    intro c first
    rcases parts c first with blank | mark
    · refine ⟨Bool.eq_false_iff.mpr fun word => ?_, Bool.eq_false_iff.mpr fun digit => ?_, ?_⟩
      · have small : c.toNat < 128 := by
          rcases Bool.or_eq_true _ _ ▸ word with letter | line
          · exact small_of_isAlphanum letter
          · rw [beq_iff_eq.mp line]
            decide
        have visible := @forall_ascii (fun c => isWordRest c = true → isBlank c = false)
          (by decide) c small word
        cases visible.symm.trans blank
      · cases (isBlank_of_isDecimal digit).symm.trans blank
      · intro mark
        have visible : ∀ d ∈ ['.', 'e', 'E', '>', '='], isBlank d = false := by decide
        cases (visible c mark).symm.trans blank
    · clear first
      revert c
      decide
  have other : ∀ d ∈ ['.', 'e', 'E', '>', '='], rest.head? ≠ some d :=
    fun d member found => (facts d found).2.2 member
  cases token with
  | number value =>
    exact ⟨fun c member => (facts c member).2.1, other _ (by decide), other _ (by decide),
      other _ (by decide)⟩
  | name word | keyword word => exact fun c member => (facts c member).1
  | mark sign =>
    intro c member grows
    unfold Mark.growth? at grows
    split at grows
    · cases grows; exact other _ (by decide) member
    · cases grows; exact other _ (by decide) member
    · cases grows; exact other _ (by decide) member
    · cases grows

theorem Stops.endsAt (stops : Stops rest) (token : Token) : token.EndsAt rest := by
  refine endsAt_of_parts token fun c member => ?_
  rcases mem_cons.mp (stops c member) with rfl | mark
  · exact .inl rfl
  · exact .inr mark

/-- A mark that cannot grow is found whatever follows it. -/
theorem Scanned.mark (sign : Mark) {rest : List Char} {found : List Token}
    (closed : sign.growth? = none) (scanned : Scanned rest found) :
    Scanned (sign.text.toList ++ rest) (.mark sign :: found) := by
  refine .spelling (.mark sign) ?_ scanned
  intro c _ grows
  rw [closed] at grows
  cases grows

/-- Pieces whose text is read as their tokens in front of any text that ends a token. -/
structure Legible (pieces : List Piece) : Prop where
  first : ∃ c more, pieceChars pieces = c :: more ∧ Text.isBlank c = false
  last : ∃ more c, pieceChars pieces = more ++ [c] ∧ Text.isBlank c = false
  some : piecesTokens pieces ≠ []
  scanned : ∀ {rest : List Char} {found : List Token}, Stops rest → Scanned rest found →
    Scanned (pieceChars pieces ++ rest) (piecesTokens pieces ++ found)

/-- Pieces that can stand between legible ones. -/
structure Bridge (between : List Piece) : Prop where
  stops : ∀ rest, Stops (pieceChars between ++ rest)
  scanned : ∀ {rest : List Char} {found : List Token}, found ≠ [] → Scanned rest found →
    Scanned (pieceChars between ++ rest) (piecesTokens between ++ found)

theorem Legible.token {token : Token} (spelled : token.IsSpelled) : Legible [.token token] := by
  have chars : pieceChars [.token token] = token.text.toList := by simp [Piece.text]
  refine ⟨?_, ?_, cons_ne_nil _ _, ?_⟩
  · obtain ⟨c, more, text, visible⟩ := spelled.first
    exact ⟨c, more, chars.trans text, visible⟩
  · obtain ⟨some, visible⟩ := visible_spelling spelled.spells
    have text := dropLast_concat_getLast some
    exact ⟨_, _, chars.trans text.symm, visible _ (getLast_mem _)⟩
  · intro rest found stops scanned
    rw [chars]
    exact .token spelled (stops.endsAt token) scanned

/-- A token directly before legible pieces that do not continue it. -/
theorem Legible.cons {token : Token} {pieces : List Piece} (spelled : token.IsSpelled)
    (ends : ∀ rest, token.EndsAt (pieceChars pieces ++ rest)) (legible : Legible pieces) :
    Legible (.token token :: pieces) := by
  refine ⟨?_, ?_, cons_ne_nil _ _, ?_⟩
  · obtain ⟨c, more, text, visible⟩ := spelled.first
    exact ⟨c, more ++ pieceChars pieces, by simp [Piece.text, text], visible⟩
  · obtain ⟨more, c, text, visible⟩ := legible.last
    exact ⟨token.text.toList ++ more, c, by simp [Piece.text, text], visible⟩
  · intro rest found stops scanned
    simp only [pieceChars_cons, Piece.text, append_assoc, piecesTokens_token, cons_append]
    exact .token spelled (ends rest) (legible.scanned stops scanned)

/-- Legible pieces on both sides of a bridge. -/
theorem Legible.join {first second between : List Piece} (left : Legible first)
    (bridge : Bridge between) (right : Legible second) :
    Legible (first ++ (between ++ second)) := by
  refine ⟨?_, ?_, by simp [left.some], ?_⟩
  · obtain ⟨c, more, text, visible⟩ := left.first
    exact ⟨c, more ++ pieceChars (between ++ second), by simp [text], visible⟩
  · obtain ⟨more, c, text, visible⟩ := right.last
    exact ⟨pieceChars first ++ (pieceChars between ++ more), c, by simp [text], visible⟩
  · intro rest found stops scanned
    have after := bridge.scanned (by simp [right.some]) (right.scanned stops scanned)
    have whole := left.scanned (bridge.stops _) after
    simpa using whole

theorem Bridge.blank : Bridge [.blank] :=
  ⟨fun _ => .cons (by decide), fun some scanned => .blank rfl some scanned⟩

/-- A token with a blank after it before legible pieces. -/
theorem Legible.consBlank {token : Token} {pieces : List Piece} (spelled : token.IsSpelled)
    (legible : Legible pieces) : Legible (.token token :: .blank :: pieces) :=
  (Legible.token spelled).join .blank legible

/-- Legible rows with the same bridge between each two neighbours. -/
theorem Legible.intercalate {between : List Piece} (bridge : Bridge between) :
    ∀ {parts : List (List Piece)}, parts ≠ [] → (∀ part ∈ parts, Legible part) →
      Legible (between.intercalate parts)
  | [], some, _ => absurd rfl some
  | [only], _, all => by simpa using all only (.head _)
  | first :: second :: parts, _, all => by
    rw [intercalate_cons_cons, append_assoc]
    exact (all first (.head _)).join bridge
      (Legible.intercalate bridge (cons_ne_nil second parts)
        fun part member => all part (mem_cons_of_mem _ member))

/-- Parentheses around legible pieces, or around nothing. -/
theorem Legible.enclosed {pieces : List Piece} (inside : pieces = [] ∨ Legible pieces) :
    Legible (enclosed pieces) := by
  refine ⟨⟨'(', _, rfl, rfl⟩, ⟨'(' :: pieceChars pieces, ')', ?_, rfl⟩, cons_ne_nil _ _, ?_⟩
  · simp [Program.enclosed, markPiece, Piece.text, Token.text, Mark.text]
  · intro rest found _ scanned
    have closing : Scanned (')' :: rest) (.mark .closing :: found) :=
      .mark .closing rfl scanned
    have after : Scanned (pieceChars pieces ++ ')' :: rest)
        (piecesTokens pieces ++ .mark .closing :: found) := by
      rcases inside with rfl | legible
      · exact closing
      · exact legible.scanned (.cons (by decide)) closing
    have whole : Scanned ('(' :: (pieceChars pieces ++ ')' :: rest))
        (.mark .opening :: (piecesTokens pieces ++ .mark .closing :: found)) :=
      .mark .opening rfl after
    simpa [Program.enclosed, markPiece, Piece.text, Token.text, Mark.text] using whole

/-- A token between blanks. -/
theorem Bridge.spaced {token : Token} (spelled : token.IsSpelled) :
    Bridge [.blank, .token token, .blank] := by
  refine ⟨fun rest => .cons (by decide), ?_⟩
  intro rest found some scanned
  have after : Scanned (' ' :: rest) found := .blank rfl some scanned
  have whole := @Scanned.blank ' ' _ _ rfl (cons_ne_nil _ _)
    (Scanned.token spelled ((Stops.cons (by decide)).endsAt token) after)
  simpa [Piece.text] using whole

/-- A comma and a blank. -/
theorem Bridge.comma : Bridge [markPiece .comma, .blank] := by
  refine ⟨fun rest => .cons (by decide), ?_⟩
  intro rest found some scanned
  have after : Scanned (' ' :: rest) found := .blank rfl some scanned
  exact .mark .comma rfl after

theorem Legible.separated {separator : Token} {parts : List (List Piece)}
    (spelled : separator.IsSpelled) (some : parts ≠ []) (all : ∀ part ∈ parts, Legible part) :
    Legible (separated separator parts) :=
  .intercalate (.spaced spelled) some all

theorem Legible.callPieces {name : String} {args : List (List Piece)}
    (named : isName name = true) (ascii : isAscii name = true)
    (all : ∀ arg ∈ args, Legible arg) : Legible (callPieces name args) := by
  refine @Legible.cons (.name name) _ ⟨named, ascii⟩
    (fun rest => (Stops.cons (by decide)).endsAt _) (.enclosed ?_)
  cases args with
  | nil => exact .inl rfl
  | cons arg args => exact .inr (.intercalate .comma (cons_ne_nil _ _) all)

/-! ## Whole texts -/

theorem dropBlanks_of_visible {more : List Char} (visible : isBlank c = false) :
    dropBlanks (c :: more) = c :: more := by
  simp [dropBlanks, visible]

theorem dropBlanksRight_of_visible {more : List Char} (visible : isBlank c = false) :
    dropBlanksRight (more ++ [c]) = more ++ [c] := by
  simp [dropBlanksRight, visible]

/-- The tokens of a legible row are found in its text. -/
theorem tokens_piecesText (legible : Legible pieces) :
    tokens (piecesText pieces) = .ok (piecesTokens pieces) := by
  obtain ⟨more, c, text, visible⟩ := legible.last
  unfold tokens
  rw [toList_piecesText, text, dropBlanksRight_of_visible visible, ← text]
  simpa using legible.scanned .nil .nil 0

/-- The text of a legible row is not blank. -/
theorem trim_piecesText (legible : Legible pieces) :
    (trim (piecesText pieces).toList).isEmpty = false := by
  obtain ⟨first, more, text, visible⟩ := legible.first
  obtain ⟨before, last, text', visible'⟩ := legible.last
  unfold trim
  rw [toList_piecesText, text, dropBlanks_of_visible visible, ← text, text',
    dropBlanksRight_of_visible visible']
  simp

/-- The program of a legible row is the program of its tokens. -/
theorem parse_piecesText (legible : Legible pieces) :
    parse (piecesText pieces) = parseTokens (piecesTokens pieces) := by
  unfold parse
  rw [trim_piecesText legible, tokens_piecesText legible]
  rfl

end Grapher.Program
