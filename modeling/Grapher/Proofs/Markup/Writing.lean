import Grapher.Proofs.Decimal.Rounding
import Grapher.Proofs.Decimal.Written
import Grapher.Proofs.Markup.Formed

/-!
# Writing trees as markup

`Writes node text` relates a tree to the texts that write it with every part between braces of its
own. A sign or a command may be spelled in any way that the vocabulary knows, and a number with any
of its numerals; otherwise the text is fixed by the tree. `exists_writes` shows that every tree
whose numbers are decimals and whose names are plain can be written so.
-/

set_option autoImplicit false

namespace Grapher.Markup

open Decimal

/-! ## Numerals and names -/

/-- Numerals without a sign or a power of ten: digits, with a point before, among or after them. -/
inductive Numeral : List Char → Decimal → Prop where
  | whole {run : List Char} (some : run ≠ []) (all : ∀ c ∈ run, c.isDigit = true) :
      Numeral run ⟨Decimal.valueOf run, 0⟩
  | point {whole fraction : List Char} (some : whole ++ fraction ≠ [])
      (all : ∀ c ∈ whole ++ fraction, c.isDigit = true) :
      Numeral (whole ++ '.' :: fraction)
        ⟨Decimal.valueOf (whole ++ fraction), -fraction.length⟩

/-- A name of letters, digits and underscores that is not a word with a meaning of its own. -/
structure IsPlainName (name : String) : Prop where
  some : name ≠ ""
  letters : name.toList.all isNameChar = true
  notFunction : functionWord? name = none
  notLogic : logicWords.lookup name = none
  notCircle : name ≠ circleWord
  notBase : name ≠ "e"

/-- Numbers that are decimals without a sign, and plain names. -/
def writtenKinds : Kinds where
  literal value := ∃ decimal : Decimal, value = decimal.toDouble false
  word := IsPlainName

/-! ## Texts -/

/-- A text between braces. -/
def braced (text : List Char) : List Char := '\x7b' :: (text ++ ['\x7d'])

/-- A command. -/
def command (name : String) : List Char := '\\' :: name.toList

/-- A name of several letters. -/
def nameText (name : String) : List Char := command "mathrm" ++ braced name.toList

/-- The ways to write a token of the vocabulary: by a command or by its own character. -/
inductive Spelling (token : Token) : List Char → Prop where
  | command {name : String} (known : commandTokens.lookup name = some token) :
      Spelling token (command name)
  | single {c : Char} (known : singleTokens.lookup c = some token) : Spelling token [c]

/-- The sign between the operands of an operator that takes many. -/
def joint? : Operator → Option Sign
  | .or => some .or
  | .and => some .and
  | .relation relation => some (.relation relation)
  | .add => some .plus
  | .multiply => some .times
  | _ => none

/-- The sign between the operands of an operator that takes two. -/
def between? : Operator → Option Sign
  | .subtract => some .minus
  | .divide => some .divide
  | .power => some .power
  | _ => none

/-- The sign before the operand of an operator that takes one. -/
def before? : Operator → Option Sign
  | .not => some .not
  | .negate => some .minus
  | _ => none

/-- What stands between the operands of an operator that takes many; operands that multiply each
other can stand next to each other. -/
inductive Joint : Operator → List Char → Prop where
  | sign {operator : Operator} {sign : Sign} {mark : List Char} (joins : joint? operator = some sign)
      (spelled : Spelling (.sign sign) mark) : Joint operator mark
  | nothing : Joint .invisible []

/-- A tree with a text for it. -/
abbrev Part := Node × List Char

/-- Parts in braces, each after a mark. -/
def followers (mark : List Char) (parts : List Part) : List Char :=
  parts.flatMap fun part => mark ++ braced part.2

/-- Parts in braces with a mark between them. -/
def separated (mark : List Char) : List Part → List Char
  | [] => []
  | first :: more => braced first.2 ++ followers mark more

/-- Parts in braces between round brackets. -/
def listed (parts : List Part) : List Char := '(' :: (separated [','] parts ++ [')'])

/-- The trees of parts. -/
def trees (parts : List Part) : List Node := parts.map Prod.fst

/-- The texts that write a tree with every part of it in braces. -/
inductive Writes : Node → List Char → Prop where
  | number {text : List Char} {decimal : Decimal} (numeral : Numeral text decimal) :
      Writes (.number (decimal.toDouble false)) text
  | symbol {name : String} (plain : IsPlainName name) : Writes (.symbol name) (nameText name)
  | constant {name : String} {mark : List Char} (spelled : Spelling (.name name) mark) :
      Writes (.symbol name) mark
  | many {operator : Operator} {mark : List Char} {parts : List Part} (joint : Joint operator mark)
      (count : 2 ≤ parts.length) (all : ∀ part ∈ parts, Writes part.1 part.2) :
      Writes (.of operator (trees parts)) (separated mark parts)
  | two {operator : Operator} {sign : Sign} {mark s t : List Char} {a b : Node}
      (joins : between? operator = some sign) (spelled : Spelling (.sign sign) mark)
      (first : Writes a s) (second : Writes b t) :
      Writes (.of operator [a, b]) (braced s ++ (mark ++ braced t))
  | fraction {mark s t : List Char} {a b : Node} (spelled : Spelling .fraction mark)
      (above : Writes a s) (below : Writes b t) :
      Writes (.of .divide [a, b]) (mark ++ (braced s ++ braced t))
  | one {operator : Operator} {sign : Sign} {mark s : List Char} {a : Node}
      (leads : before? operator = some sign) (spelled : Spelling (.sign sign) mark)
      (only : Writes a s) : Writes (.of operator [a]) (mark ++ braced s)
  | prime {s : List Char} {a : Node} (only : Writes a s) :
      Writes (.of .prime [a]) (braced s ++ ['\''])
  | call {word : String} {function : Elementary} {parts : List Part}
      (known : functionWord? word = some function) (all : ∀ part ∈ parts, Writes part.1 part.2) :
      Writes (.of (.elementary function) (trees parts)) (command word ++ listed parts)
  | root {word : String} {parts : List Part} {s : List Char} {index : Node}
      (known : functionWord? word = some .sqrt) (all : ∀ part ∈ parts, Writes part.1 part.2)
      (indexed : Writes index s) :
      Writes (.of (.elementary .root) (trees parts ++ [index]))
        (command word ++ ('[' :: (braced s ++ ']' :: listed parts)))
  | log {word : String} {parts : List Part} {s : List Char} {base : Node}
      (known : functionWord? word = some .log) (all : ∀ part ∈ parts, Writes part.1 part.2)
      (based : Writes base s) :
      Writes (.of (.elementary .log) (trees parts ++ [base]))
        (command word ++ ('_' :: (braced s ++ listed parts)))
  | group {parts : List Part} (all : ∀ part ∈ parts, Writes part.1 part.2) :
      Writes (groupTree (trees parts)) (listed parts)
  | integral {mark s t u : List Char} {body lower upper : Node} {name : String}
      (spelled : Spelling .integral mark) (low : Writes lower s) (high : Writes upper t)
      (inside : Writes body u) (plain : IsPlainName name) :
      Writes (integralTree body name lower upper)
        (mark ++ ('_' :: (braced s ++ '^' :: (braced t ++ (braced u ++
          (nameText "d" ++ nameText name))))))

/-! ## Every tree can be written -/

theorem isDigit_of_mem_digits {n : Nat} {c : Char} (member : c ∈ Decimal.digits n) :
    c.isDigit = true :=
  Nat.isDigit_of_mem_toDigits (by decide) (by decide) member

/-- Every decimal has the value of a numeral: zeros are written out on either side. -/
theorem exists_numeral (decimal : Decimal) :
    ∃ text same, Numeral text same ∧ same.bits = decimal.bits := by
  obtain ⟨coefficient, exponent⟩ := decimal
  obtain ⟨size, rfl | rfl⟩ := exponent.eq_nat_or_neg
  · refine ⟨digits (coefficient * 10 ^ size), _,
      .whole Nat.toDigits_ne_nil fun c => isDigit_of_mem_digits, ?_⟩
    rw [valueOf_digits, bits_mul_pow, Int.zero_add]
  · let run := List.replicate size '0' ++ digits coefficient
    have value : valueOf run = coefficient := by
      rw [valueOf_append, valueOf_zeros, valueOf_digits, Nat.zero_mul, Nat.zero_add]
    have long : size ≤ run.length := by simp [run]
    have whole : run.take (run.length - size) ++ run.drop (run.length - size) = run :=
      List.take_append_drop _ _
    have digit : ∀ c ∈ run, c.isDigit = true := by
      intro c member
      rcases List.mem_append.mp member with zero | other
      · rw [List.eq_of_mem_replicate zero]
        decide
      · exact isDigit_of_mem_digits other
    have some : run ≠ [] := List.append_ne_nil_of_right_ne_nil _ Nat.toDigits_ne_nil
    refine ⟨_, _, .point (whole.symm ▸ some) (whole.symm ▸ digit), ?_⟩
    rw [whole, value, List.length_drop, Nat.sub_sub_self long]

theorem exists_parts {nodes : List Node} (all : ∀ node ∈ nodes, ∃ text, Writes node text) :
    ∃ parts, trees parts = nodes ∧ ∀ part ∈ parts, Writes part.1 part.2 := by
  induction nodes with
  | nil => exact ⟨[], rfl, nofun⟩
  | cons node nodes ih =>
    obtain ⟨text, writes⟩ := all node (.head _)
    obtain ⟨parts, rfl, rest⟩ := ih fun other member => all other (.tail _ member)
    exact ⟨(node, text) :: parts, rfl, List.forall_mem_cons.mpr ⟨writes, rest⟩⟩

/-- Every operator that takes many operands has something to stand between them. -/
theorem exists_joint {operator : Operator} (takes : takesMany operator = true) :
    ∃ mark, Joint operator mark := by
  cases operator with
  | or => exact ⟨_, .sign rfl (@Spelling.command _ "lor" rfl)⟩
  | and => exact ⟨_, .sign rfl (@Spelling.command _ "land" rfl)⟩
  | add => exact ⟨_, .sign rfl (@Spelling.single _ '+' rfl)⟩
  | multiply => exact ⟨_, .sign rfl (@Spelling.command _ "cdot" rfl)⟩
  | invisible => exact ⟨_, .nothing⟩
  | relation relation =>
    cases relation with
    | equal => exact ⟨_, .sign rfl (@Spelling.single _ '=' rfl)⟩
    | notEqual => exact ⟨_, .sign rfl (@Spelling.command _ "ne" rfl)⟩
    | less => exact ⟨_, .sign rfl (@Spelling.single _ '<' rfl)⟩
    | lessEqual => exact ⟨_, .sign rfl (@Spelling.command _ "le" rfl)⟩
    | greater => exact ⟨_, .sign rfl (@Spelling.single _ '>' rfl)⟩
    | greaterEqual => exact ⟨_, .sign rfl (@Spelling.command _ "ge" rfl)⟩
  | _ => cases takes

/-- Every function but the root has a word. -/
theorem exists_word {function : Elementary} (notRoot : function ≠ .root) :
    ∃ word, functionWord? word = some function := by
  have all : functionWords.any (·.2 == function) = true := by
    cases function with
    | root => exact absurd rfl notRoot
    | _ => decide
  obtain ⟨⟨word, other⟩, member, same⟩ := List.any_eq_true.mp all
  have found : ∀ entry ∈ functionWords, functionWord? entry.1 = some entry.2 := by decide
  exact ⟨word, by rw [found _ member, eq_of_beq same]⟩

/-- Every tree of decimals and plain names can be written. -/
theorem exists_writes {node : Node} (formed : Formed writtenKinds node) :
    ∃ text, Writes node text := by
  induction formed with
  | number literal =>
    obtain ⟨decimal, rfl⟩ := literal
    obtain ⟨text, same, numeral, bits⟩ := exists_numeral decimal
    have value : same.toDouble false = decimal.toDouble false := by
      unfold toDouble
      rw [bits]
    exact ⟨text, value ▸ .number numeral⟩
  | symbol word => exact ⟨_, .symbol word⟩
  | many takes count _ ih =>
    obtain ⟨mark, joint⟩ := exists_joint takes
    obtain ⟨parts, rfl, all⟩ := exists_parts ih
    exact ⟨_, .many joint (by simpa [trees] using count) all⟩
  | @two operator _ _ takes _ _ first second =>
    obtain ⟨s, first⟩ := first
    obtain ⟨t, second⟩ := second
    cases operator with
    | subtract => exact ⟨_, .two rfl (@Spelling.single _ '-' rfl) first second⟩
    | divide => exact ⟨_, .fraction (@Spelling.command _ "frac" rfl) first second⟩
    | power => exact ⟨_, .two rfl (@Spelling.single _ '^' rfl) first second⟩
    | _ => cases takes
  | @one operator _ takes _ only =>
    obtain ⟨s, only⟩ := only
    cases operator with
    | not => exact ⟨_, .one rfl (@Spelling.command _ "lnot" rfl) only⟩
    | negate => exact ⟨_, .one rfl (@Spelling.single _ '-' rfl) only⟩
    | prime => exact ⟨_, .prime only⟩
    | _ => cases takes
  | @function function args root _ ih =>
    by_cases isRoot : function = .root
    · -- The last argument of a root is its index.
      subst isRoot
      obtain ⟨others, index, rfl⟩ : ∃ others index, args = others ++ [index] :=
        ⟨_, _, (List.dropLast_concat_getLast (root rfl)).symm⟩
      obtain ⟨s, indexed⟩ := ih index (by simp)
      obtain ⟨parts, rfl, all⟩ := exists_parts fun arg member =>
        ih arg (List.mem_append_left _ member)
      exact ⟨_, .root (rfl : functionWord? "sqrt" = some .sqrt) all indexed⟩
    · obtain ⟨word, known⟩ := exists_word isRoot
      obtain ⟨parts, rfl, all⟩ := exists_parts ih
      exact ⟨_, .call known all⟩
  | noItem => exact ⟨_, @Writes.group [] nofun⟩
  | item _ only =>
    obtain ⟨s, only⟩ := only
    exact ⟨_, @Writes.group [(_, s)] (List.forall_mem_singleton.mpr only)⟩
  | items count _ ih =>
    obtain ⟨parts, rfl, all⟩ := exists_parts ih
    match parts, count, all with
    | _ :: _ :: _, _, all => exact ⟨_, .group all⟩
  | integral word _ _ _ inside low high =>
    obtain ⟨u, inside⟩ := inside
    obtain ⟨s, low⟩ := low
    obtain ⟨t, high⟩ := high
    exact ⟨_, .integral (@Spelling.command _ "int" rfl) low high inside word⟩

end Grapher.Markup
