import Grapher.Markup.Token
import Grapher.Tree.Constant

/-!
# The vocabulary of formula markup

The words with a meaning of their own: function words, logic words, commands, and the names of
constants. Everything here is a table; the scanner and the parser say how the words are used.
-/

set_option autoImplicit false

namespace Grapher

namespace Markup

/-- Words that stand for an elementary function. -/
def functionWords : List (String × Elementary) := [
  ("sin", .sin), ("cos", .cos), ("tan", .tan),
  ("sec", .sec), ("csc", .csc), ("cot", .cot),
  ("arcsin", .arcsin), ("arccos", .arccos), ("arctan", .arctan),
  ("asin", .arcsin), ("acos", .arccos), ("atan", .arctan),
  ("sinh", .sinh), ("cosh", .cosh), ("tanh", .tanh),
  ("sqrt", .sqrt), ("abs", .abs), ("exp", .exp),
  ("ln", .ln), ("log", .log),
  ("floor", .floor), ("ceil", .ceil), ("sign", .sign)]

/-- The elementary function of a word. -/
def functionWord? (word : String) : Option Elementary :=
  functionWords.lookup word

/-- Words for the connectives. -/
def logicWords : List (String × Sign) := [("and", .and), ("or", .or), ("not", .not)]

/-- The word for the circle constant. -/
def circleWord : String := "pi"

/-- The token of a whole word of the vocabulary. -/
def wholeWord? (word : String) : Option Token :=
  match logicWords.lookup word with
  | some sign => some (.sign sign)
  | none =>
    match functionWord? word with
    | some function => some (.function word function)
    | none => if word == circleWord then some (.name circleConstant) else none

/-- Words that are recognised inside a run of letters, longer ones first. -/
def splitWords : List String := [
  "arcsin", "arccos", "arctan", "floor",
  "asin", "acos", "atan", "sinh", "cosh", "tanh", "sqrt", "ceil", "sign",
  "sin", "cos", "tan", "sec", "csc", "cot", "abs", "exp", "log",
  "ln", "pi"]

/-- Greek letters that are names. -/
def greekNames : List String := [
  "alpha", "beta", "gamma", "delta", "epsilon", "varepsilon", "zeta", "eta",
  "theta", "vartheta", "iota", "kappa", "lambda", "mu", "nu", "xi", "rho",
  "sigma", "tau", "upsilon", "phi", "varphi", "chi", "psi", "omega",
  "Gamma", "Delta", "Theta", "Lambda", "Xi", "Sigma", "Phi", "Psi", "Omega"]

/-- Commands that stand for one token. -/
def commandTokens : List (String × Token) := [
  ("cdot", .sign .times), ("times", .sign .times), ("ast", .sign .times),
  ("div", .sign .divide),
  ("le", .sign (.relation .lessEqual)), ("leq", .sign (.relation .lessEqual)),
  ("leqslant", .sign (.relation .lessEqual)),
  ("ge", .sign (.relation .greaterEqual)), ("geq", .sign (.relation .greaterEqual)),
  ("geqslant", .sign (.relation .greaterEqual)),
  ("lt", .sign (.relation .less)), ("gt", .sign (.relation .greater)),
  ("ne", .sign (.relation .notEqual)), ("neq", .sign (.relation .notEqual)),
  ("land", .sign .and), ("wedge", .sign .and),
  ("lor", .sign .or), ("vee", .sign .or),
  ("lnot", .sign .not), ("neg", .sign .not),
  ("prime", .prime 1),
  ("pi", .name circleConstant),
  ("infty", .name infinityConstant),
  ("exponentialE", .name naturalBase),
  ("differentialD", .name "d"),
  ("frac", .fraction), ("dfrac", .fraction), ("tfrac", .fraction),
  ("int", .integral),
  ("vert", .bar false), ("lvert", .bar false), ("rvert", .bar false), ("mid", .bar false)]

/-- Commands of layout that stand for nothing. -/
def ignoredCommands : List String := [
  "left", "right", "displaystyle", "textstyle", "limits", "nolimits",
  "quad", "qquad", "big", "Big", "bigl", "bigr", "Bigl", "Bigr"]

/-- Commands that a point can follow as an invisible bracket. -/
def sizingCommands : List String := ["left", "right"]

/-- Commands that set a name of several letters. -/
def nameCommands : List String := ["mathrm", "operatorname", "text", "mathit", "textrm"]

/-- Signs of two characters. -/
def doubleSigns : List ((Char × Char) × Sign) := [
  (('<', '='), .relation .lessEqual), (('>', '='), .relation .greaterEqual),
  (('!', '='), .relation .notEqual), (('=', '='), .relation .equal),
  (('&', '&'), .and), (('|', '|'), .or), (('*', '*'), .power)]

/-- Tokens of one character. -/
def singleTokens : List (Char × Token) := [
  ('+', .sign .plus), ('-', .sign .minus), ('*', .sign .times), ('/', .sign .divide),
  ('^', .sign .power), ('_', .sign .subscript),
  ('<', .sign (.relation .less)), ('>', .sign (.relation .greater)),
  ('=', .sign (.relation .equal)), ('!', .sign .not),
  ('(', .opening .round), ('[', .opening .square),
  (')', .closing .round), (']', .closing .square),
  ('\x7b', .braceOpen), ('\x7d', .braceClose),
  ('|', .bar true), (',', .comma)]

/-- The inverse that the exponent -1 makes of a function. -/
def inverse? : Elementary → Option Elementary
  | .sin => some .arcsin
  | .cos => some .arccos
  | .tan => some .arctan
  | _ => none

end Markup

end Grapher
