import Grapher.Decimal.Numeral
import Grapher.Markup.Error
import Grapher.Markup.Vocabulary
import Grapher.Text.Blank
import Grapher.Text.Letter

/-!
# From text to markup tokens

The scanner walks the text once, character by character. Where a lexeme starts, it is recognised
together with its length, and the walk passes over the characters that belong to it; so every step
consumes a character, and the position of a token is the place of the walk.

A run of letters is one token when it is a word of the vocabulary or carries a subscript name of
several characters. Otherwise it is split from left to right, the longest vocabulary word first,
into function words, the circle constant and single letters; a subscript joins the last letter.
-/

set_option autoImplicit false

namespace Grapher.Markup

/-- The tokens of one lexeme and the number of characters it spans. -/
abbrev Lexeme := List Located × Nat

/-- Whether a character can stand in a name. -/
def isNameChar (c : Char) : Bool := c.isAlphanum || c == '_'

/-- The text without the given characters at both ends. -/
def stripChars (chars : List Char) (text : List Char) : List Char :=
  ((text.dropWhile chars.contains).reverse.dropWhile chars.contains).reverse

/-! ## Subscripts -/

/-- A subscript of a letter: one letter or digit, or letters and digits in braces with blanks
around them. The result is the text after the underscore that belongs to it. -/
def letterSubscript? (text : List Char) : Option (List Char) :=
  match text with
  | '_' :: '\x7b' :: rest =>
    let afterBlanks := Text.dropBlanks rest
    let afterWord := afterBlanks.dropWhile Char.isAlphanum
    let afterAll := Text.dropBlanks afterWord
    if afterWord.length < afterBlanks.length && afterAll.head? == some '\x7d' then
      some ('\x7b' :: rest.take (rest.length - afterAll.length) ++ ['\x7d'])
    else none
  | '_' :: c :: _ => if c.isAlphanum then some [c] else none
  | _ => none

/-- A subscript of a run of letters: name characters, bare or in braces. -/
def runSubscript? (text : List Char) : Option (List Char) :=
  match text with
  | '_' :: '\x7b' :: rest =>
    let word := rest.takeWhile isNameChar
    if !word.isEmpty && (rest.drop word.length).head? == some '\x7d' then
      some ('\x7b' :: word ++ ['\x7d'])
    else none
  | '_' :: rest =>
    let word := rest.takeWhile isNameChar
    if word.isEmpty then none else some word
  | _ => none

/-- A name together with the subscript that follows it, and the length of that subscript. -/
def withSubscript (name : String) (rest : List Char) : String × Nat :=
  match letterSubscript? rest with
  | some script =>
    (name ++ "_" ++ String.ofList (stripChars ['\x7b', '\x7d', ' '] script), script.length + 1)
  | none => (name, 0)

/-! ## Runs of letters -/

/-- The longest vocabulary word at the start of a run of letters. -/
def leadingWord? (run : List Char) : Option String :=
  splitWords.find? fun word => word.toList.isPrefixOf run

/-- The token of a word recognised inside a run of letters. -/
def splitToken (word : String) : Token :=
  match functionWord? word with
  | some function => .function word function
  | none => .name circleConstant

/-- The tokens of a run of letters, the longest vocabulary word taken at every place; `skip`
letters belong to the word before. -/
def splitRun (skip position : Nat) : List Char → List Located
  | [] => []
  | c :: rest =>
    match skip with
    | skip + 1 => splitRun skip (position + 1) rest
    | 0 =>
      match leadingWord? (c :: rest) with
      | some word => ⟨splitToken word, position⟩ :: splitRun (word.length - 1) (position + 1) rest
      | none => ⟨.name (String.singleton c), position⟩ :: splitRun 0 (position + 1) rest

/-- Joins a subscript to the last token when that is a name; with the length of the subscript. -/
def joinSubscript (rest : List Char) : List Located → List Located × Nat
  | [] => ([], 0)
  | [⟨.name name, position⟩] =>
    let (name, used) := withSubscript name rest
    ([⟨.name name, position⟩], used)
  | [other] => ([other], 0)
  | first :: more =>
    let (more, used) := joinSubscript rest more
    (first :: more, used)

/-- The lexeme of a run of letters with the text that follows it. -/
def lettersLexeme (position : Nat) (run rest : List Char) : Lexeme :=
  match wholeWord? (String.ofList run) with
  | some token => ([⟨token, position⟩], run.length)
  | none =>
    let whole := if 1 < run.length then runSubscript? rest else none
    match whole with
    | some script =>
      let name := run ++ '_' :: stripChars ['\x7b', '\x7d'] script
      ([⟨.name (String.ofList name), position⟩], run.length + 1 + script.length)
    | none =>
      let (tokens, used) := joinSubscript rest (splitRun 0 position run)
      (tokens, run.length + used)

/-! ## Commands -/

/-- The content of a group in braces after optional blanks, and the length of all that. -/
def group? (text : List Char) : Option (List Char × Nat) :=
  match Text.dropBlanks text with
  | '\x7b' :: rest =>
    let content := rest.takeWhile fun c => c != '\x7b' && c != '\x7d'
    if (rest.drop content.length).head? == some '\x7d' then
      some (content, text.length - rest.length + content.length + 1)
    else none
  | _ => none

/-- A name set by a command: the name characters of the group after it. -/
def nameLexeme (position used : Nat) (rest : List Char) : Except ParseError Lexeme :=
  match group? rest with
  | none => .error (.missingGroup position)
  | some (content, groupLength) =>
    let used := used + groupLength
    let word := String.ofList (content.filter isNameChar)
    if word == "" then .ok ([], used)
    else
      match functionWord? word, logicWords.lookup word with
      | some function, _ => .ok ([⟨.function word function, position⟩], used)
      | none, some sign => .ok ([⟨.sign sign, position⟩], used)
      | none, none =>
        if word == circleWord then .ok ([⟨.name circleConstant, position⟩], used)
        else
          let (name, scriptLength) := withSubscript word (rest.drop groupLength)
          .ok ([⟨.name name, position⟩], used + scriptLength)

/-- A command of letters, with the text after it. -/
def wordCommand (position : Nat) (name : String) (rest : List Char) : Except ParseError Lexeme :=
  let used := name.length + 1
  if ignoredCommands.contains name then
    let point := if sizingCommands.contains name && rest.head? == some '.' then 1 else 0
    .ok ([], used + point)
  else if nameCommands.contains name then nameLexeme position used rest
  else
    match commandTokens.lookup name with
    | some token => .ok ([⟨token, position⟩], used)
    | none =>
      match functionWord? name with
      | some function => .ok ([⟨.function name function, position⟩], used)
      | none =>
        if greekNames.contains name then
          let (name, scriptLength) := withSubscript name rest
          .ok ([⟨.name name, position⟩], used + scriptLength)
        else .error (.unknownCommand name position)

/-- The characters that a backslash turns into a space of some width. -/
def spacingChars : List Char := [',', ';', ':', '!', ' ']

/-- The lexeme that a backslash starts, given the text after it. -/
def commandLexeme (position : Nat) (rest : List Char) : Except ParseError Lexeme :=
  let name := rest.takeWhile Char.isAlpha
  if name.isEmpty then
    match rest with
    | [] => .ok ([], 2)
    | c :: _ =>
      if spacingChars.contains c then .ok ([], 2)
      else if c == '\x7b' then .ok ([⟨.opening .curly, position⟩], 2)
      else if c == '\x7d' then .ok ([⟨.closing .curly, position⟩], 2)
      else if c == '|' then .ok ([⟨.bar true, position⟩], 2)
      else .error (.unknownCommand (String.singleton c) position)
  else wordCommand position (String.ofList name) (rest.drop name.length)

/-! ## The walk -/

/-- A sign of one or two characters. -/
def signLexeme (position : Nat) (c : Char) (rest : List Char) : Except ParseError Lexeme :=
  let double := rest.head?.bind fun next => doubleSigns.lookup (c, next)
  match double with
  | some sign => .ok ([⟨.sign sign, position⟩], 2)
  | none =>
    match singleTokens.lookup c with
    | some token => .ok ([⟨token, position⟩], 1)
    | none => .error (.unknownCharacter c position)

/-- A number, if decimal digits stand where a numeral seems to start. -/
def numberLexeme (position : Nat) (text : List Char) : Except ParseError Lexeme :=
  match Decimal.scanPlain? text with
  | some (d, rest) => .ok ([⟨.number (d.toDouble false), position⟩], text.length - rest.length)
  | none => .error .foreignSign

/-- Whether a numeral seems to start: a digit sign, or a point before one. -/
def startsNumeral (c : Char) (rest : List Char) : Bool :=
  Text.isDigitSign c || (c == '.' && (rest.head?.map Text.isDigitSign).getD false)

/-- The lexeme at the start of a text. -/
def lexeme (position : Nat) (c : Char) (rest : List Char) : Except ParseError Lexeme :=
  if Text.isBlank c || c == '$' || c == '~' then .ok ([], 1)
  else if c == '\\' then commandLexeme position rest
  else if startsNumeral c rest then numberLexeme position (c :: rest)
  else if Text.isLetter c then
    if c.isAlpha then
      let run := (c :: rest).takeWhile Char.isAlpha
      .ok (lettersLexeme position run ((c :: rest).drop run.length))
    else .error .foreignSign
  else if c == '\'' then
    let count := ((c :: rest).takeWhile (· == '\'')).length
    .ok ([⟨.prime count, position⟩], count)
  else signLexeme position c rest

/-- The tokens of a text from a position on; `skip` characters belong to the lexeme before. -/
def scan (skip position : Nat) : List Char → Except ParseError (List Located)
  | [] => .ok []
  | c :: rest =>
    match skip with
    | skip + 1 => scan skip (position + 1) rest
    | 0 => do
      let (tokens, used) ← lexeme position c rest
      let more ← scan (used - 1) (position + 1) rest
      .ok (tokens ++ more)

/-- The tokens of a text. -/
def tokens (text : String) : Except ParseError (List Located) :=
  scan 0 0 text.toList

end Grapher.Markup
