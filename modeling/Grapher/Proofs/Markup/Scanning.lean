import Grapher.Proofs.Markup.Production
import Grapher.Proofs.Markup.Tokens
import Grapher.Proofs.Text.Classes

/-!
# Scanning written markup

A lexeme is recognised where its spelling ends, that is, in front of a character that would not
make it longer. `Scans text grows good` says that a text is scanned so: in front of every rest that
no growing character starts, at every position, its tokens are a row with a given property. Such
texts can be put one after the other (`Scans.append`), which is how the tokens of a written tree
are found piece by piece.

A text must also survive the preparation before the scan: it is `clean` when it has no blanks and
no dollar signs, and a letter follows each of its backslashes.
-/

set_option autoImplicit false

namespace Grapher.Markup

open List Text Decimal

variable {c : Char} {decimal : Decimal} {rest text : List Char} {name : String} {token : Token}

/-! ## Clean texts -/

/-- A text without blanks and dollar signs, each backslash in front of a letter. -/
def clean : List Char → Bool
  | [] => true
  | c :: rest =>
    !Text.isBlank c && c != '$' && (c != '\\' || (rest.head?.map Char.isAlpha).getD false)
      && clean rest

theorem clean_cons : clean (c :: rest) = true ↔
    (isBlank c = false ∧ c ≠ '$' ∧
      (c ≠ '\\' ∨ ∃ d more, rest = d :: more ∧ d.isAlpha = true)) ∧ clean rest = true := by
  cases rest <;> simp [clean, and_assoc]

theorem clean_append {first second : List Char} (left : clean first = true)
    (right : clean second = true) : clean (first ++ second) = true := by
  induction first with
  | nil => exact right
  | cons c first ih =>
    obtain ⟨⟨visible, noDollar, escaped⟩, rest⟩ := clean_cons.mp left
    refine clean_cons.mpr ⟨⟨visible, noDollar, ?_⟩, ih rest⟩
    rcases escaped with other | ⟨d, more, rfl, letter⟩
    · exact .inl other
    · exact .inr ⟨d, more ++ second, rfl, letter⟩

theorem clean_of_all (all : ∀ c ∈ text, isBlank c = false ∧ c ≠ '$' ∧ c ≠ '\\') :
    clean text = true := by
  induction text with
  | nil => rfl
  | cons c text ih =>
    obtain ⟨visible, noDollar, other⟩ := all c (.head _)
    exact clean_cons.mpr
      ⟨⟨visible, noDollar, .inl other⟩, ih fun d member => all d (.tail _ member)⟩

theorem visible_of_clean (isClean : clean text = true) :
    ∀ c ∈ text, isBlank c = false ∧ c ≠ '$' := by
  induction text with
  | nil => exact nofun
  | cons c text ih =>
    obtain ⟨⟨visible, noDollar, -⟩, rest⟩ := clean_cons.mp isClean
    exact forall_mem_cons.mpr ⟨⟨visible, noDollar⟩, ih rest⟩

/-- A spacing command has no letter after its backslash. -/
theorem replacePair_of_clean {sign : Char} (other : sign.isAlpha = false) (replacement : List Char)
    (isClean : clean text = true) : replacePair '\\' sign replacement text = text := by
  induction text with
  | nil => rfl
  | cons c text ih =>
    obtain ⟨⟨-, -, escaped⟩, rest⟩ := clean_cons.mp isClean
    cases text with
    | nil => rfl
    | cons d more =>
      have apart : (c == '\\' && d == sign) = false := by
        rw [Bool.and_eq_false_iff, beq_eq_false_iff_ne, beq_eq_false_iff_ne]
        rcases escaped with noSlash | ⟨letter, others, shape, isLetter⟩
        · exact .inl noSlash
        · cases shape
          exact .inr fun same => by simp [same, other] at isLetter
      rw [replacePair, apart, ih rest]
      rfl

theorem trim_of_clean (isClean : clean text = true) : trim text = text := by
  have visible := visible_of_clean isClean
  have stays : ∀ run : List Char, (∀ c ∈ run, c ∈ text) → run.dropWhile isBlank = run := by
    intro run inside
    cases run with
    | nil => rfl
    | cons c run => simp [(visible c (inside c (.head _))).1]
  rw [trim, dropBlanks, dropBlanksRight, stays text fun _ => id,
    stays text.reverse fun _ => mem_reverse.mp, reverse_reverse]

/-- Preparation leaves a clean text as it is. -/
theorem prepared_of_clean (isClean : clean text = true) : prepared text = text := by
  have noDollar : text.filter (· != '$') = text :=
    filter_eq_self.mpr fun c member => by simp [(visible_of_clean isClean c member).2]
  have resolved : ∀ sign replacement, sign.isAlpha = false →
      replacePair '\\' sign replacement text = text :=
    fun sign replacement other => replacePair_of_clean other replacement isClean
  unfold prepared
  simp only [noDollar, resolved '!' [] rfl, resolved ',' [' '] rfl, resolved ';' [' '] rfl,
    resolved ':' [' '] rfl, trim_of_clean isClean]

/-! ## Scanning piece by piece -/

/-- A row of two parts, each with a property. -/
def Then (left right : List Located → Prop) (row : List Located) : Prop :=
  ∃ a b, left a ∧ right b ∧ row = a ++ b

/-- A clean text whose tokens have a property, in front of everything that does not make its last
lexeme longer. -/
structure Scans (text : List Char) (grows : Char → Bool) (good : List Located → Prop) : Prop where
  isClean : clean text = true
  finds : ∀ position rest, Free grows rest → ∃ row, good row ∧
    ∀ more, scan 0 (position + text.length) rest = .ok more →
      scan 0 position (text ++ rest) = .ok (row ++ more)

namespace Scans

variable {text s t : List Char} {grows less : Char → Bool} {good left right : List Located → Prop}

theorem weaken (scans : Scans text less left) (fewer : ∀ c, less c = true → grows c = true)
    (better : ∀ row, left row → good row) : Scans text grows good where
  isClean := scans.isClean
  finds position rest free := by
    obtain ⟨row, holds, found⟩ := scans.finds position rest (free.mono fewer)
    exact ⟨row, better row holds, found⟩

theorem empty (grows : Char → Bool) (holds : good []) : Scans [] grows good where
  isClean := rfl
  finds _ _ _ := ⟨[], holds, fun _ => id⟩

/-- Two texts are scanned one after the other when the second one does not go on with the last
lexeme of the first. -/
theorem append (first : Scans s less left) (second : Scans t grows right)
    (meets : ∀ rest, Free grows rest → Free less (t ++ rest)) :
    Scans (s ++ t) grows (Then left right) where
  isClean := clean_append first.isClean second.isClean
  finds position rest free := by
    obtain ⟨a, holdsLeft, foundLeft⟩ := first.finds position (t ++ rest) (meets rest free)
    obtain ⟨b, holdsRight, foundRight⟩ := second.finds (position + s.length) rest free
    refine ⟨a ++ b, ⟨a, b, holdsLeft, holdsRight, rfl⟩, fun more scanned => ?_⟩
    rw [length_append, ← Nat.add_assoc] at scanned
    rw [append_assoc, append_assoc]
    exact foundLeft _ (foundRight more scanned)

end Scans

/-- The walk passes over the characters of a lexeme. -/
theorem scan_length (passed rest : List Char) (position : Nat) :
    scan passed.length position (passed ++ rest) = scan 0 (position + passed.length) rest := by
  induction passed generalizing position with
  | nil => rfl
  | cons c passed ih =>
    simp only [length_cons, cons_append, scan]
    rw [ih, Nat.add_right_comm, Nat.add_assoc]

/-- A text that is one lexeme of one token. -/
theorem scans_lexeme {c : Char} {text : List Char} {grows : Char → Bool} {token : Token}
    (isClean : clean (c :: text) = true)
    (found : ∀ position rest, Free grows rest →
      lexeme position c (text ++ rest) = .ok ([⟨token, position⟩], text.length + 1)) :
    Scans (c :: text) grows (Is token) where
  isClean := isClean
  finds position rest free := by
    refine ⟨[⟨token, position⟩], ⟨position, rfl⟩, fun more scanned => ?_⟩
    have passes := scan_length text rest (position + 1)
    rw [length_cons, Nat.add_comm text.length, ← Nat.add_assoc] at scanned
    rw [cons_append, scan, found position rest free]
    simp only [bind, Except.bind, Nat.add_sub_cancel, passes, scanned]

/-! ## Lexemes of the vocabulary -/

/-- Whether two characters make one sign. -/
def doubles (c next : Char) : Bool := (doubleSigns.lookup (c, next)).isSome

theorem scans_single (known : singleTokens.lookup c = some token) :
    Scans [c] (doubles c) (Is token) := by
  have member : c ∈ singleTokens.map Prod.fst := mem_map_of_mem (mem_of_lookup known)
  have other : clean [c] = true ∧ (isBlank c || c == '$' || c == '~') = false ∧
      (c == '\\') = false ∧ isDigitSign c = false ∧ (c == '.') = false ∧
      isLetter c = false ∧ (c == '\'') = false := by
    clear known
    revert c
    decide
  obtain ⟨isClean, visible, slash, digit, point, letter, prime⟩ := other
  refine scans_lexeme isClean fun position rest free => ?_
  have alone : (rest.head?.bind fun next => doubleSigns.lookup (c, next)) = none := by
    rw [Option.bind_eq_none_iff]
    intro next first
    exact Option.isNone_iff_eq_none.mp (Option.isSome_eq_false_iff.mp (free next first))
  simp only [lexeme, visible, slash, startsNumeral, digit, point, letter, prime, nil_append,
    Bool.false_and, Bool.or_false, Bool.false_eq_true, if_false, signLexeme, alone, known]
  rfl

/-- A command of letters, up to something that is no letter. -/
theorem lexeme_command (letters : name.toList.all Char.isAlpha = true) (some : name ≠ "")
    (position : Nat) (free : Free Char.isAlpha rest) :
    lexeme position '\\' (name.toList ++ rest) = wordCommand position name rest := by
  have taken : (name.toList ++ rest).takeWhile Char.isAlpha = name.toList :=
    takeWhile_append_free (all_eq_true.mp letters) free
  have nonempty : name.toList.isEmpty = false := by simpa using some
  have slash : lexeme position '\\' (name.toList ++ rest)
      = commandLexeme position (name.toList ++ rest) := rfl
  rw [slash]
  unfold commandLexeme
  simp only [taken, nonempty, Bool.false_eq_true, if_false, drop_left, String.ofList_toList]

/-- Letters, digits and underscores are clean. -/
theorem clean_of_isNameChar (all : text.all isNameChar = true) : clean text = true := by
  refine clean_of_all fun c member => ?_
  have inName := all_eq_true.mp all c member
  exact @forall_ascii
    (fun c => isNameChar c = true → isBlank c = false ∧ c ≠ '$' ∧ c ≠ '\\') (by decide) c
    (small_of_isNameChar inName) inName

theorem clean_command (letters : name.toList.all Char.isAlpha = true) (some : name ≠ "") :
    clean (command name) = true := by
  have all : name.toList.all isNameChar = true := by
    simp only [all_eq_true] at letters ⊢
    exact fun c member => isNameChar_of_isAlpha (letters c member)
  obtain ⟨c, more, shape⟩ := exists_cons_of_ne_nil (mt String.toList_eq_nil_iff.mp some)
  refine clean_cons.mpr ⟨⟨by decide, by decide, .inr ⟨c, more, shape, ?_⟩⟩, clean_of_isNameChar all⟩
  exact all_eq_true.mp letters c (by simp [shape])

/-- A command that stands for one token. -/
theorem scans_command (letters : name.toList.all Char.isAlpha = true) (some : name ≠ "")
    (stands : ∀ position rest,
      wordCommand position name rest = .ok ([⟨token, position⟩], name.length + 1)) :
    Scans (command name) Char.isAlpha (Is token) := by
  refine scans_lexeme (clean_command letters some) fun position rest free => ?_
  rw [lexeme_command letters some position free, stands, String.length_toList]

/-- Words with a place in the tables of commands stand for nothing else. -/
def isWordCommand (name : String) : Bool :=
  name.toList.all Char.isAlpha && name != "" && !ignoredCommands.contains name
    && !nameCommands.contains name

theorem scans_commandToken (known : commandTokens.lookup name = some token) :
    Scans (command name) Char.isAlpha (Is token) := by
  have tabled : isWordCommand name = true := by
    have all : ∀ entry ∈ commandTokens, isWordCommand entry.1 = true := by decide
    exact all (name, token) (mem_of_lookup known)
  simp only [isWordCommand, Bool.and_eq_true, Bool.not_eq_true', bne_iff_ne] at tabled
  obtain ⟨⟨⟨letters, some⟩, kept⟩, noName⟩ := tabled
  refine scans_command letters some fun position rest => ?_
  simp only [wordCommand, kept, noName, Bool.false_eq_true, if_false, known]

theorem scans_functionWord {word : String} {function : Elementary}
    (known : functionWord? word = some function) :
    Scans (command word) Char.isAlpha (Is (.function word function)) := by
  have tabled : isWordCommand word = true ∧ commandTokens.lookup word = none := by
    have all : ∀ entry ∈ functionWords,
        isWordCommand entry.1 = true ∧ (commandTokens.lookup entry.1).isNone = true := by decide
    have entry := all _ (mem_of_lookup known)
    exact ⟨entry.1, Option.isNone_iff_eq_none.mp entry.2⟩
  obtain ⟨tabled, noToken⟩ := tabled
  simp only [isWordCommand, Bool.and_eq_true, Bool.not_eq_true', bne_iff_ne] at tabled
  obtain ⟨⟨⟨letters, some⟩, kept⟩, noName⟩ := tabled
  refine scans_command letters some fun position rest => ?_
  simp only [wordCommand, kept, noName, noToken, Bool.false_eq_true, if_false, known]

/-- The characters that make a sign or a command longer. -/
def growsMark (c : Char) : Bool := ['=', '&', '|', '*'].contains c || c.isAlpha

theorem growsMark_of_doubles {next : Char} (double : doubles c next = true) :
    growsMark next = true := by
  obtain ⟨sign, found⟩ := Option.isSome_iff_exists.mp double
  have all : ∀ entry ∈ doubleSigns, growsMark entry.1.2 = true := by decide
  exact all _ (mem_of_lookup found)

theorem scans_spelling {mark : List Char} (spelled : Spelling token mark) :
    Scans mark growsMark (Is token) := by
  cases spelled with
  | command known =>
    exact (scans_commandToken known).weaken (fun c grows => by simp [growsMark, grows]) fun _ => id
  | single known => exact (scans_single known).weaken (fun _ => growsMark_of_doubles) fun _ => id

/-! ## Names, numerals and primes -/

/-- The characters of a group. -/
def inGroup (c : Char) : Bool := c != '\x7b' && c != '\x7d'

theorem group?_braced {blanks content : List Char} (before : ∀ c ∈ blanks, isBlank c = true)
    (inner : ∀ c ∈ content, inGroup c = true) (rest : List Char) :
    group? (blanks ++ '\x7b' :: (content ++ '\x7d' :: rest))
      = some (content, blanks.length + content.length + 2) := by
  have opens : dropBlanks (blanks ++ '\x7b' :: (content ++ '\x7d' :: rest))
      = '\x7b' :: (content ++ '\x7d' :: rest) := dropWhile_append_free before (.cons rfl _)
  have run : (content ++ '\x7d' :: rest).takeWhile (fun c => c != '\x7b' && c != '\x7d')
      = content := takeWhile_append_free inner (.cons rfl _)
  simp only [group?, opens, run, drop_left, head?_cons, beq_self_eq_true, if_true, length_append,
    length_cons, Option.some.injEq, Prod.mk.injEq, true_and]
  omega

/-- A name in braces, up to something that is no subscript. -/
theorem nameLexeme_braced (plain : IsPlainName name) (position used : Nat)
    (free : Free (· == '_') rest) :
    nameLexeme position used (braced name.toList ++ rest)
      = .ok ([⟨.name name, position⟩], used + (name.toList.length + 2)) := by
  have all := all_eq_true.mp plain.letters
  have inside : ∀ c ∈ name.toList, inGroup c = true := fun c member =>
    @forall_ascii (fun c => isNameChar c = true → inGroup c = true) (by decide) c
      (small_of_isNameChar (all c member)) (all c member)
  have grouped : group? (braced name.toList ++ rest)
      = some (name.toList, name.toList.length + 2) := by
    have same := @group?_braced [] name.toList (by simp) inside rest
    simpa [braced] using same
  have word : String.ofList (name.toList.filter isNameChar) = name := by
    rw [filter_eq_self.mpr all, String.ofList_toList]
  have after : (braced name.toList ++ rest).drop (name.toList.length + 2) = rest := by
    have long : (braced name.toList).length = name.toList.length + 2 := by simp [braced]
    rw [← long, drop_left]
  have noScript : letterSubscript? rest = none := by
    unfold letterSubscript?
    split
    · exact absurd (free _ rfl) (by decide)
    · exact absurd (free _ rfl) (by decide)
    · rfl
  have noCircle : (name == circleWord) = false := beq_eq_false_iff_ne.mpr plain.notCircle
  have nonempty : (name == "") = false := beq_eq_false_iff_ne.mpr plain.some
  simp only [nameLexeme, grouped, word, nonempty, plain.notFunction, plain.notLogic, noCircle,
    Bool.false_eq_true, if_false, withSubscript, after, noScript, Nat.add_zero]

theorem scans_nameText {name : String} (plain : IsPlainName name) :
    Scans (nameText name) (· == '_') (Is (.name name)) := by
  have isClean : clean (nameText name) = true :=
    clean_append (by decide) (@clean_append ['\x7b'] _ (by decide)
      (clean_append (clean_of_isNameChar plain.letters) (by decide)))
  refine @scans_lexeme '\\' ("mathrm".toList ++ braced name.toList) _ _ isClean
    fun position rest free => ?_
  have named : wordCommand position "mathrm" (braced name.toList ++ rest)
      = nameLexeme position 7 (braced name.toList ++ rest) := rfl
  have stops : Free Char.isAlpha (braced name.toList ++ rest) := .cons rfl _
  rw [append_assoc, lexeme_command (by decide) (by decide) position stops, named,
    nameLexeme_braced plain position 7 free]
  have long : ("mathrm".toList ++ braced name.toList).length + 1 = 7 + (name.toList.length + 2) := by
    simp [braced]
    omega
  rw [long]

/-- The characters that make a numeral longer. -/
def growsNumeral (c : Char) : Bool := Text.isDecimal c || c == '.'

theorem scanPlain?_numeral (numeral : Numeral text decimal) (free : Free growsNumeral rest) :
    Decimal.scanPlain? (text ++ rest) = some (decimal, rest) := by
  refine scanPlain?_plain ?_ (free.mono fun c digit => by rw [growsNumeral, digit, Bool.true_or])
    fun first => absurd (free _ first) (by decide)
  cases numeral with
  | whole some all => exact .whole some fun c member => isDecimal_of_isDigit (all c member)
  | point some all => exact .point some fun c member => isDecimal_of_isDigit (all c member)

/-- A numeral starts with a digit, or with a point in front of one. -/
theorem startsNumeral_numeral (numeral : Numeral (c :: text) decimal) (rest : List Char) :
    startsNumeral c (text ++ rest) = true := by
  have sign : ∀ d : Char, d.isDigit = true → isDigitSign d = true := by
    intro d digit
    rw [isDigitSign, isDecimal_of_isDigit digit, Bool.true_or]
  generalize shape : c :: text = whole at numeral
  cases numeral with
  | whole some all =>
    subst shape
    rw [startsNumeral, sign c (all c (.head _)), Bool.true_or]
  | @point whole fraction some all =>
    cases whole with
    | nil =>
      cases shape
      obtain ⟨d, more, rfl⟩ := exists_cons_of_ne_nil some
      have next := sign d (all d (.head _))
      simp [startsNumeral, next]
    | cons d whole =>
      cases shape
      rw [startsNumeral, sign c (all c (.head _)), Bool.true_or]

theorem chars_of_numeral (numeral : Numeral text decimal) :
    text ≠ [] ∧ ∀ c ∈ text, c.isDigit = true ∨ c = '.' := by
  cases numeral with
  | whole some all => exact ⟨some, fun c member => .inl (all c member)⟩
  | @point whole fraction some all =>
    refine ⟨by simp, fun c member => ?_⟩
    rw [mem_append, mem_cons] at member
    rcases member with first | rfl | second
    · exact .inl (all c (mem_append_left _ first))
    · exact .inr rfl
    · exact .inl (all c (mem_append_right _ second))

theorem scans_numeral (numeral : Numeral text decimal) :
    Scans text growsNumeral (Is (.number (decimal.toDouble false))) := by
  obtain ⟨some, chars⟩ := chars_of_numeral numeral
  have other : ∀ c ∈ text, (isBlank c || c == '$' || c == '~') = false ∧ c ≠ '\\' := by
    intro c member
    have small : c.toNat < 128 := by
      rcases chars c member with digit | rfl
      · exact small_of_isNameChar (isNameChar_of_isAlphanum (by simp [Char.isAlphanum, digit]))
      · decide
    exact @forall_ascii (fun c => (c.isDigit = true ∨ c = '.') →
      (isBlank c || c == '$' || c == '~') = false ∧ c ≠ '\\') (by decide) c small
      (chars c member)
  have isClean : clean text = true := by
    refine clean_of_all fun c member => ?_
    have seen := other c member
    simp only [Bool.or_eq_false_iff, beq_eq_false_iff_ne] at seen
    exact ⟨seen.1.1.1, seen.1.1.2, seen.2⟩
  obtain ⟨c, more, rfl⟩ := exists_cons_of_ne_nil some
  refine scans_lexeme isClean fun position rest free => ?_
  obtain ⟨visible, noSlash⟩ := other c (.head _)
  have scanned := scanPlain?_numeral numeral free
  rw [cons_append] at scanned
  have slash : (c == '\\') = false := beq_eq_false_iff_ne.mpr noSlash
  simp only [lexeme, visible, slash, startsNumeral_numeral numeral rest, Bool.false_eq_true,
    if_false, if_true, numberLexeme, scanned, length_cons, length_append]
  congr 2
  omega

theorem scans_prime : Scans ['\''] (· == '\'') (Is (.prime 1)) := by
  refine scans_lexeme rfl fun position rest free => ?_
  have one : ('\'' :: rest).takeWhile (· == '\'') = ['\''] :=
    @takeWhile_append_free (· == '\'') ['\''] rest (by decide) free
  have mark : lexeme position '\'' ([] ++ rest) = .ok ([⟨.prime (('\'' :: rest).takeWhile
      (· == '\'')).length, position⟩], (('\'' :: rest).takeWhile (· == '\'')).length) := rfl
  rw [mark, one]
  rfl

end Grapher.Markup
