import Grapher.Proofs.Markup.Locality
import Grapher.Proofs.Markup.Refusal
import Grapher.Proofs.Markup.Repetition

/-!
# Spacing commands

Before a text is scanned, its spacing commands are resolved: the one of an exclamation mark leaves
nothing, the others leave a blank. So they are interchangeable exactly as far as a blank makes no
difference to the tokens (`tokens?_blank`). It makes none where a text keeps apart from what follows
it: no lexeme goes on across its end, or only a run of letters that is split there in any case
(`KeepsApart`). Positions do not matter: a text further on has the same tokens (`scan_shift`), and
the same tokens have the same tree (`parseTokens_of_tokens`).

The condition cannot be left out: behind the name of a command, a letter needs a blank
(`spacing_joins_command`).
-/

set_option autoImplicit false

namespace Grapher.Markup

open List Text

variable {c : Char} {rest text : List Char}

/-! ## Tokens at other positions -/

theorem lexeme_shift (position n : Nat) (c : Char) (rest : List Char) :
    (lexeme (position + n) c rest).toOption
      = (lexeme position c rest).toOption.map (shiftLexeme n) := by
  have lexes := @lexes_lexeme c rest True position n fun _ => trivial
  generalize lexeme position c rest = outcome, lexeme (position + n) c rest = moved at lexes ⊢
  cases lexes with
  | ok | error => rfl

theorem toOption_scan (position : Nat) (c : Char) (rest : List Char) :
    (scan 0 position (c :: rest)).toOption =
      (lexeme position c rest).toOption.bind fun found =>
        (scan (found.2 - 1) (position + 1) rest).toOption.map (found.1 ++ ·) := by
  rw [scan]
  cases lexeme position c rest with
  | error reason => rfl
  | ok found =>
    cases later : scan (found.2 - 1) (position + 1) rest <;>
      simp only [bind, Except.bind, later, Except.toOption, Option.bind_some, Option.map]

theorem scan_shift (position n skip : Nat) (text : List Char) :
    (scan skip (position + n) text).toOption
      = (scan skip position text).toOption.map (map (·.shift n)) := by
  induction text generalizing skip position with
  | nil => rfl
  | cons c rest ih =>
    cases skip with
    | succ skip =>
      rw [scan, scan, Nat.add_right_comm]
      exact ih _ _
    | zero =>
      rw [toOption_scan, toOption_scan, lexeme_shift, Nat.add_right_comm]
      cases (lexeme position c rest).toOption with
      | none => rfl
      | some found =>
        simp only [Option.map_some, Option.bind_some, ih, Option.map_map]
        congr 1
        funext more
        exact map_append.symm

/-- The tokens of a text, without their positions. -/
def tokens? (text : List Char) : Option (List Token) :=
  (scan 0 0 text).toOption.map (List.map (·.token))

/-- The tokens of a text wherever it stands. -/
theorem tokens?_eq (position : Nat) (text : List Char) :
    (scan 0 position text).toOption.map (map (·.token)) = tokens? text := by
  have moved := scan_shift 0 position 0 text
  rw [Nat.zero_add] at moved
  rw [moved, tokens?, Option.map_map]
  congr 1
  funext row
  exact map_map

/-- The tokens of a text are those of its first lexeme and those of what follows. -/
theorem tokens?_cons (c : Char) (rest : List Char) :
    tokens? (c :: rest) = (lexeme 0 c rest).toOption.bind fun found =>
      (tokens? ((c :: rest).drop found.2)).map (found.1.map (·.token) ++ ·) := by
  rw [tokens?, scan_step]
  cases same : lexeme 0 c rest with
  | error reason => rfl
  | ok found =>
    simp only [Except.toOption, Option.bind_some, ← tokens?_eq (0 + found.2)]
    cases later : scan 0 (0 + found.2) ((c :: rest).drop found.2) with
    | error reason => simp only [bind, Except.bind, later, Option.map]
    | ok more => simp only [bind, Except.bind, later, Option.map, map_append]

theorem tokens?_of_lexeme {found : Lexeme} (same : (lexeme 0 c rest).toOption = some found)
    (behind : (c :: rest).drop found.2 = text) :
    tokens? (c :: rest) = (tokens? text).map (found.1.map (·.token) ++ ·) := by
  rw [tokens?_cons, same, ← behind]
  rfl

theorem tokens?_blank_cons (rest : List Char) : tokens? (' ' :: rest) = tokens? rest := by
  have blank : lexeme 0 ' ' rest = .ok ([], 1) := rfl
  rw [tokens?_cons, blank]
  exact Option.map_id'

/-! ## Texts that keep apart -/

/-- A run of letters has the tokens that it has in two parts. -/
def Splits (run rest : List Char) : Prop :=
  let right := rest.takeWhile Char.isAlpha
  let behind := lettersLexeme run.length right (rest.dropWhile Char.isAlpha)
  right ≠ [] ∧ lettersLexeme 0 (run ++ right) (rest.dropWhile Char.isAlpha)
    = ((lettersLexeme 0 run []).1 ++ behind.1, run.length + behind.2)

/-- A text keeps apart from the rest behind it: no lexeme goes on across the end of the text. A run
of letters may do so if it is split there in any case. Where the text is refused, this must not
be for the name of a command that goes on. -/
inductive KeepsApart (rest : List Char) : List Char → Prop where
  | done : KeepsApart rest []
  | step {c : Char} {text : List Char} {found : Lexeme}
      (same : lexeme 0 c (text ++ rest) = .ok found) (inside : found.2 ≤ text.length + 1)
      (later : KeepsApart rest ((c :: text).drop found.2)) : KeepsApart rest (c :: text)
  | split {c : Char} {run : List Char} (letters : ∀ d ∈ c :: run, d.isAlpha = true)
      (splits : Splits (c :: run) rest) : KeepsApart rest (c :: run)
  | stop {c : Char} {text : List Char} {reason : ParseError}
      (same : lexeme 0 c (text ++ rest) = .error reason)
      (named : c = '\\' → Named text rest) : KeepsApart rest (c :: text)

/-- Letters up to something that is no letter. -/
theorem lexeme_letters {run : List Char} (letters : ∀ d ∈ c :: run, d.isAlpha = true)
    (position : Nat) (free : Free Char.isAlpha rest) :
    lexeme position c (run ++ rest) = .ok (lettersLexeme position (c :: run) rest) := by
  have letter := letters c (.head _)
  have other : (isBlank c || c == '$' || c == '~') = false ∧ (c == '\\') = false ∧
      isDigitSign c = false ∧ (c == '.') = false ∧ isLetter c = true :=
    @forall_ascii (fun c => c.isAlpha = true →
      (isBlank c || c == '$' || c == '~') = false ∧ (c == '\\') = false ∧
        isDigitSign c = false ∧ (c == '.') = false ∧ isLetter c = true) (by decide) c
      (small_of_isNameChar (isNameChar_of_isAlpha letter)) letter
  obtain ⟨visible, slash, digit, point, isLetter⟩ := other
  have taken : (c :: (run ++ rest)).takeWhile Char.isAlpha = c :: run :=
    takeWhile_append_free letters free
  have behind : (c :: (run ++ rest)).drop (c :: run).length = rest := drop_left
  simp only [lexeme, visible, slash, startsNumeral, digit, point, isLetter, letter, taken, behind,
    Bool.false_and, Bool.or_false, Bool.false_eq_true, if_false, if_true]

theorem joinSubscript_none (none : letterSubscript? rest = none) (tokens : List Located) :
    joinSubscript rest tokens = (tokens, 0) := by
  induction tokens with
  | nil => rfl
  | cons first more ih =>
    obtain ⟨token, position⟩ := first
    cases more with
    | nil =>
      cases token with
      | name name => simp only [joinSubscript, withSubscript, none]
      | _ => rfl
    | cons second more => rw [joinSubscript_cons, ih]

/-- Letters in front of a blank carry no subscript. -/
theorem lettersLexeme_blank_cons (run rest : List Char) :
    lettersLexeme 0 run (' ' :: rest) = ((lettersLexeme 0 run []).1, run.length) := by
  have bare : ∀ text, letterSubscript? text = none → runSubscript? text = none →
      lettersLexeme 0 run text = ((wholeWord? (String.ofList run)).elim (splitRun 0 0 run)
        (fun token => [⟨token, 0⟩]), run.length) := by
    intro text noLetter noRun
    unfold lettersLexeme
    rw [joinSubscript_none noLetter, noRun]
    cases wholeWord? (String.ofList run) with
    | some token => rfl
    | none => simp only [ite_self]; rfl
  rw [bare (' ' :: rest) rfl rfl, bare [] rfl rfl]

/-- A blank in a run of letters that is split there makes no difference to the tokens. -/
theorem tokens?_split {run : List Char} (letters : ∀ d ∈ c :: run, d.isAlpha = true)
    (splits : Splits (c :: run) rest) :
    tokens? (c :: run ++ ' ' :: rest) = tokens? (c :: run ++ rest) := by
  obtain ⟨nonempty, joined⟩ := splits
  have parts := @takeWhile_append_dropWhile _ Char.isAlpha rest
  have free := free_dropWhile Char.isAlpha rest
  have rightLetters : ∀ d ∈ rest.takeWhile Char.isAlpha, d.isAlpha = true :=
    all_eq_true.mp all_takeWhile
  generalize rest.takeWhile Char.isAlpha = right at *
  generalize rest.dropWhile Char.isAlpha = after at *
  subst parts
  obtain ⟨d, more, rfl⟩ := exists_cons_of_ne_nil nonempty
  have moved := lettersLexeme_shift (c :: run).length 0 (d :: more) after
  rw [Nat.zero_add] at moved
  rw [moved] at joined
  -- The walk takes two lexemes with the blank between them, and one without it.
  have left : lexeme 0 c (run ++ ' ' :: (d :: more ++ after))
      = .ok ((lettersLexeme 0 (c :: run) []).1, (c :: run).length) := by
    rw [lexeme_letters letters 0 (.cons rfl _), lettersLexeme_blank_cons]
  have right : lexeme 0 d (more ++ after) = .ok (lettersLexeme 0 (d :: more) after) :=
    lexeme_letters rightLetters 0 free
  have whole : lexeme 0 c (run ++ (d :: more ++ after))
      = .ok (lettersLexeme 0 (c :: run ++ d :: more) after) := by
    rw [← append_assoc]
    exact lexeme_letters (forall_mem_append.mpr ⟨letters, rightLetters⟩) 0 free
  generalize lettersLexeme 0 (d :: more) after = behind at *
  generalize (lettersLexeme 0 (c :: run) []).1 = front at *
  rw [joined] at whole
  have ends : (c :: (run ++ (d :: more ++ after))).drop ((c :: run).length + behind.2)
      = (d :: (more ++ after)).drop behind.2 := by
    rw [← drop_drop]
    exact congrArg (drop behind.2) drop_left
  calc tokens? (c :: (run ++ ' ' :: (d :: more ++ after)))
      = (tokens? (' ' :: (d :: more ++ after))).map (front.map (·.token) ++ ·) :=
        tokens?_of_lexeme (congrArg Except.toOption left) (@drop_left _ (c :: run) _)
    _ = (tokens? (d :: (more ++ after))).map (front.map (·.token) ++ ·) := by
        rw [tokens?_blank_cons, cons_append]
    _ = ((tokens? ((d :: (more ++ after)).drop behind.2)).map (behind.1.map (·.token) ++ ·)).map
          (front.map (·.token) ++ ·) := by
        rw [tokens?_of_lexeme (congrArg Except.toOption right) rfl]
    _ = tokens? (c :: (run ++ (d :: more ++ after))) := by
        rw [tokens?_of_lexeme (congrArg Except.toOption whole) ends, Option.map_map]
        congr 1
        funext row
        simp [shiftLexeme, Located.shift]

/-- A blank behind a text that keeps apart makes no difference to the tokens. -/
theorem tokens?_blank (apart : KeepsApart rest text) :
    tokens? (text ++ ' ' :: rest) = tokens? (text ++ rest) := by
  -- The lexemes are taken off one by one; a run that is split or a refusal ends the walk at once.
  induction apart with
  | done => exact tokens?_blank_cons rest
  | @step c text found same inside later ih =>
    have blank : (lexeme 0 c (text ++ ' ' :: rest)).toOption = some found := by
      rw [lexeme_blank, same]
      · rfl
      · intro other found'
        cases same.symm.trans found'
        exact inside
      · rintro rfl
        exact named_of_commandLexeme same inside
    have dropped : ∀ rest', (c :: text ++ rest').drop found.2 = (c :: text).drop found.2 ++ rest' :=
      fun rest' => drop_append_of_le_length inside
    rw [cons_append, cons_append, tokens?_of_lexeme blank (dropped _),
      tokens?_of_lexeme (congrArg Except.toOption same) (dropped _), ih]
  | @split c run letters splits => exact tokens?_split letters splits
  | @stop c text reason same named =>
    have blank : (lexeme 0 c (text ++ ' ' :: rest)).toOption = none := by
      rw [lexeme_blank _ named, same]
      · rfl
      · intro found found'
        cases same.symm.trans found'
    rw [cons_append, cons_append, tokens?_cons, tokens?_cons, blank, same]
    rfl

/-! ## Spacing commands resolved -/

section Pairs

variable {first second : Char} {replacement : List Char}

theorem replacePair_cons_other (other : c ≠ first) (rest : List Char) :
    replacePair first second replacement (c :: rest)
      = c :: replacePair first second replacement rest := by
  cases rest with
  | nil => rfl
  | cons d rest => simp [replacePair, other]

theorem replacePair_pair (rest : List Char) :
    replacePair first second replacement (first :: second :: rest)
      = replacement ++ replacePair first second replacement rest := by
  simp [replacePair]

/-- Pairs are replaced in each of two texts, if there is none across them. -/
theorem replacePair_append (across : text.getLast? = some first → rest.head? ≠ some second) :
    replacePair first second replacement (text ++ rest)
      = replacePair first second replacement text
        ++ replacePair first second replacement rest := by
  fun_induction replacePair first second replacement text with
  | case1 a b text pair ih =>
    rw [Bool.and_eq_true, beq_iff_eq, beq_iff_eq] at pair
    obtain ⟨rfl, rfl⟩ := pair
    rw [cons_append, cons_append, replacePair_pair, ih, append_assoc]
    intro last
    exact across (by rw [getLast?_cons, getLast?_cons, last]; rfl)
  | case2 a b text pair ih =>
    rw [cons_append, cons_append, replacePair, if_neg pair, ← cons_append, ih]
    · rfl
    · intro last
      exact across (by rw [getLast?_cons_cons, last])
  | case3 text short =>
    rcases text with _ | ⟨a, _ | ⟨b, text⟩⟩
    · rfl
    · by_cases mark : a = first
      · subst mark
        rcases rest with _ | ⟨d, rest⟩
        · rfl
        · have apart : ¬ (a == a && d == second) = true := by simpa using across
          rw [cons_append, nil_append, replacePair, if_neg apart]
          rfl
      · exact replacePair_cons_other mark rest
    · exact absurd rfl (short a b text)

theorem replacePair_append_of_ne (other : c ≠ second) (text rest : List Char) :
    replacePair first second replacement (text ++ c :: rest)
      = replacePair first second replacement text
        ++ replacePair first second replacement (c :: rest) :=
  replacePair_append fun _ same => other (Option.some.inj same)

/-- Between two texts, a character that is in no pair stays. -/
theorem replacePair_append_cons (notFirst : c ≠ first) (notSecond : c ≠ second)
    (text rest : List Char) :
    replacePair first second replacement (text ++ c :: rest)
      = replacePair first second replacement text
        ++ c :: replacePair first second replacement rest := by
  rw [replacePair_append_of_ne notSecond, replacePair_cons_other notFirst]

/-- Between two texts, a pair is replaced. -/
theorem replacePair_append_pair (differ : first ≠ second) (text rest : List Char) :
    replacePair first second replacement (text ++ first :: second :: rest)
      = replacePair first second replacement text
        ++ (replacement ++ replacePair first second replacement rest) := by
  rw [replacePair_append_of_ne differ, replacePair_pair]

/-- Between two texts, another pair with the same first character stays. -/
theorem replacePair_append_other (differ : first ≠ second) {sign : Char} (notFirst : sign ≠ first)
    (notSecond : sign ≠ second) (text rest : List Char) :
    replacePair first second replacement (text ++ first :: sign :: rest)
      = replacePair first second replacement text
        ++ first :: sign :: replacePair first second replacement rest := by
  have apart : ¬ (first == first && sign == second) = true := by simpa using notSecond
  rw [replacePair_append_of_ne differ, replacePair, if_neg apart, replacePair_cons_other notFirst]

/-- The first character of a pair stays at the end of a text. -/
theorem getLast?_replacePair (differ : first ≠ second) (last : text.getLast? = some first) :
    (replacePair first second replacement text).getLast? = some first := by
  obtain ⟨front, rfl⟩ := getLast?_eq_some_iff.mp last
  rw [replacePair_append_of_ne differ]
  exact getLast?_concat

/-- Any other character stays at the start of a text. -/
theorem head?_replacePair (other : c ≠ first) (starts : text.head? = some c) :
    (replacePair first second replacement text).head? = some c := by
  obtain ⟨more, rfl⟩ := head?_eq_some_iff.mp starts
  rw [replacePair_cons_other other]
  rfl

end Pairs

/-- The text without dollar signs, spacing commands resolved. -/
def resolved (text : List Char) : List Char :=
  replacePair '\\' ':' [' '] (replacePair '\\' ';' [' ']
    (replacePair '\\' ',' [' '] (replacePair '\\' '!' [] (text.filter (· != '$')))))

theorem prepared_eq_trim (text : List Char) : prepared text = trim (resolved text) := rfl

theorem filter_append_command (sign : Char) (visible : sign ≠ '$') (a b : List Char) :
    (a ++ '\\' :: sign :: b).filter (· != '$')
      = a.filter (· != '$') ++ '\\' :: sign :: b.filter (· != '$') := by
  rw [filter_append, filter_cons_of_pos (by decide), filter_cons_of_pos (by simpa using visible)]

/-- The spacing command of a comma leaves a blank between what its two sides leave. -/
theorem resolved_comma (a b : List Char) :
    resolved (a ++ '\\' :: ',' :: b) = resolved a ++ ' ' :: resolved b := by
  unfold resolved
  rw [filter_append_command ',' (by decide),
    replacePair_append_other (by decide) (by decide) (by decide),
    replacePair_append_pair (by decide), singleton_append,
    replacePair_append_cons (by decide) (by decide),
    replacePair_append_cons (by decide) (by decide)]

/-- The spacing command of an exclamation mark leaves nothing between what its two sides leave,
unless a backslash in front of it comes to stand in front of another sign of a spacing command. -/
theorem resolved_exclamation {a b : List Char}
    (apart : (resolved a).getLast? = some '\\' →
      ∀ sign ∈ [',', ';', ':'], (resolved b).head? ≠ some sign) :
    resolved (a ++ '\\' :: '!' :: b) = resolved a ++ resolved b := by
  have last : ∀ {sign : Char} {text : List Char}, sign ∈ [',', ';', ':'] →
      text.getLast? = some '\\' →
      (replacePair '\\' sign [' '] text).getLast? = some '\\' := by
    intro sign text member
    exact getLast?_replacePair fun same => by simp [← same] at member
  have starts : ∀ {second sign : Char} {text : List Char}, sign ∈ [',', ';', ':'] →
      text.head? = some sign → (replacePair '\\' second [' '] text).head? = some sign := by
    intro second sign text member
    exact head?_replacePair fun same => by simp [same] at member
  have comma : ',' ∈ [',', ';', ':'] := by decide
  have semicolon : ';' ∈ [',', ';', ':'] := by decide
  have colon : ':' ∈ [',', ';', ':'] := by decide
  unfold resolved at apart ⊢
  rw [filter_append_command '!' (by decide), replacePair_append_pair (by decide), nil_append,
    replacePair_append, replacePair_append, replacePair_append]
  · intro ends begins
    exact apart (last colon ends) ':' colon (starts colon begins)
  · intro ends begins
    exact apart (last colon (last semicolon ends)) ';' semicolon
      (starts semicolon (starts semicolon begins))
  · intro ends begins
    exact apart (last colon (last semicolon (last comma ends))) ',' comma
      (starts comma (starts comma (starts comma begins)))

/-! ## Blanks at the ends -/

section Ends

variable {text rest : List Char}

theorem isBlank_of_dropBlanks (nothing : dropBlanks text = []) :
    ∀ c ∈ text, isBlank c = true := by
  have parts := @takeWhile_append_dropWhile _ isBlank text
  rw [← dropBlanks, nothing, append_nil] at parts
  rw [← parts]
  exact all_eq_true.mp all_takeWhile

theorem isBlank_of_dropBlanksRight (nothing : dropBlanksRight text = []) :
    ∀ c ∈ text, isBlank c = true := by
  intro c member
  exact isBlank_of_dropBlanks (reverse_eq_nil_iff.mp nothing) c (mem_reverse.mpr member)

theorem dropBlanks_append_of_nil (nothing : dropBlanks text = []) :
    dropBlanks (text ++ rest) = dropBlanks rest := by
  rw [dropBlanks, dropWhile_append, ← dropBlanks, nothing]
  rfl

theorem dropBlanks_append_of_ne_nil (some : dropBlanks text ≠ []) :
    dropBlanks (text ++ rest) = dropBlanks text ++ rest := by
  rw [dropBlanks, List.dropWhile_append, ← dropBlanks, if_neg (mt List.isEmpty_iff.mp some)]

theorem dropBlanksRight_append_of_nil (nothing : dropBlanksRight rest = []) :
    dropBlanksRight (text ++ rest) = dropBlanksRight text := by
  have blanks : dropBlanks rest.reverse = [] := reverse_eq_nil_iff.mp nothing
  rw [dropBlanksRight, reverse_append]
  exact congrArg reverse (dropBlanks_append_of_nil blanks)

theorem dropBlanksRight_append_of_ne_nil (some : dropBlanksRight rest ≠ []) :
    dropBlanksRight (text ++ rest) = text ++ dropBlanksRight rest := by
  have visible : dropBlanks rest.reverse ≠ [] := mt reverse_eq_nil_iff.mpr some
  rw [dropBlanksRight, reverse_append]
  refine (congrArg reverse (dropBlanks_append_of_ne_nil visible)).trans ?_
  rw [reverse_append, reverse_reverse]
  rfl

/-- A blank beside nothing but blanks is dropped with them. -/
theorem trim_blank (nothing : dropBlanks text = [] ∨ dropBlanksRight rest = []) :
    trim (text ++ ' ' :: rest) = trim (text ++ rest) := by
  unfold trim
  by_cases blanks : dropBlanks text = []
  · rw [dropBlanks_append_of_nil blanks, dropBlanks_append_of_nil blanks]
    rfl
  · have last := nothing.resolve_left blanks
    have last' : dropBlanksRight (' ' :: rest) = [] :=
      @dropBlanksRight_append_of_nil [' '] rest last
    rw [dropBlanks_append_of_ne_nil blanks, dropBlanks_append_of_ne_nil blanks,
      dropBlanksRight_append_of_nil last, dropBlanksRight_append_of_nil last']

/-- What stands between two texts that are not blank stays. -/
theorem trim_append (some : dropBlanks text ≠ []) (some' : dropBlanksRight rest ≠ [])
    (between : List Char) :
    trim (text ++ (between ++ rest))
      = dropBlanks text ++ (between ++ dropBlanksRight rest) := by
  rw [trim, dropBlanks_append_of_ne_nil some, ← append_assoc,
    dropBlanksRight_append_of_ne_nil some', append_assoc]

end Ends

/-! ## Parsing -/

/-- The tree of a row does not depend on the positions of its tokens. -/
theorem parseTokens_of_tokens {row row' : List Located} {node : Node}
    (same : row.map (·.token) = row'.map (·.token)) (parsed : parseTokens row = .ok node) :
    parseTokens row' = .ok node := by
  obtain ⟨some, found⟩ := parseTokens_eq_ok_iff.mp parsed
  have length : row.length = row'.length := by
    rw [← length_map (·.token), same, length_map]
  have echo := echo_of_tokens (Subset.refl row') same
  have again := repeats (budgetFor row.length) .or (.same .plain) echo
  obtain ⟨later, found', ended⟩ :=
    (again.found node [] found).resolve_right fun broken => broken.1 rfl
  cases ended
  refine parseTokens_eq_ok_iff.mpr ⟨?_, length ▸ found'⟩
  rintro rfl
  exact some (length_eq_zero_iff.mp length)

/-- Texts with the same tokens have the same tree, or none. -/
theorem parse_of_tokens? {text text' : String} {node : Node}
    (same : tokens? (prepared text.toList) = tokens? (prepared text'.toList))
    (parsed : parse text = .ok node) : parse text' = .ok node := by
  obtain ⟨row, scanned, found⟩ := parse_eq_ok_iff.mp parsed
  rw [tokens?, scanned] at same
  cases scanned' : scan 0 0 (prepared text'.toList) with
  | error reason => rw [tokens?, scanned'] at same; cases same
  | ok row' =>
    rw [tokens?, scanned'] at same
    exact parse_eq_ok_iff.mpr ⟨row', scanned', parseTokens_of_tokens (Option.some.inj same) found⟩

theorem toOption_parse_eq {text text' : String}
    (same : tokens? (prepared text.toList) = tokens? (prepared text'.toList)) :
    (parse text).toOption = (parse text').toOption := by
  cases parsed : parse text with
  | ok node => rw [parse_of_tokens? same parsed]
  | error reason =>
    cases parsed' : parse text' with
    | ok node => cases parsed.symm.trans (parse_of_tokens? same.symm parsed')
    | error reason' => rfl

/-- The sides of a spacing command keep apart also where nothing stands between them: one of them
is blank, or no lexeme goes on from the first to the second one. -/
def Separate (a b : List Char) : Prop :=
  Text.dropBlanks (resolved a) = [] ∨ Text.dropBlanksRight (resolved b) = [] ∨
    (resolved a).getLast? ≠ some '\\' ∧
      KeepsApart (Text.dropBlanksRight (resolved b)) (Text.dropBlanks (resolved a))

/-- Without and with a blank between its two sides, a text has the same tokens. -/
theorem tokens?_separate {a b : List Char} (separate : Separate a b) :
    tokens? (prepared (a ++ '\\' :: '!' :: b)) = tokens? (prepared (a ++ '\\' :: ',' :: b)) := by
  have slash : (resolved a).getLast? = some '\\' →
      ∀ sign ∈ [',', ';', ':'], (resolved b).head? ≠ some sign := by
    intro last sign member starts
    rcases separate with blank | blank | ⟨other, -⟩
    · exact absurd (isBlank_of_dropBlanks blank _ (mem_of_getLast? last)) (by decide)
    · have visible : ∀ sign ∈ [',', ';', ':'], isBlank sign = false := by decide
      have blank := isBlank_of_dropBlanksRight blank sign (mem_of_head? starts)
      rw [visible sign member] at blank
      cases blank
    · exact other last
  rw [prepared_eq_trim, prepared_eq_trim, resolved_exclamation slash, resolved_comma]
  by_cases blank : dropBlanks (resolved a) = [] ∨ dropBlanksRight (resolved b) = []
  · rw [trim_blank blank]
  · rw [not_or] at blank
    have apart := (separate.resolve_left blank.1).resolve_left blank.2
    have joined := trim_append blank.1 blank.2 []
    have parted := trim_append blank.1 blank.2 [' ']
    rw [nil_append, nil_append] at joined
    rw [singleton_append, singleton_append] at parted
    rw [joined, parted, tokens?_blank apart.2]

/-- A spacing command that leaves nothing and one that leaves a blank are interchangeable, if the
sides of the command keep apart also without it. -/
theorem parse_spacing {a b : String} (separate : Separate a.toList b.toList) :
    (parse (a ++ "\\!" ++ b)).toOption = (parse (a ++ "\\," ++ b)).toOption := by
  refine toOption_parse_eq ?_
  have texts : ∀ sign : Char, (a ++ String.ofList ['\\', sign] ++ b).toList
      = a.toList ++ '\\' :: sign :: b.toList := by
    intro sign
    simp [String.toList_append]
  have same := tokens?_separate separate
  rw [← texts, ← texts] at same
  exact same

/-- A product of letters in the argument of a sine, cut by the spacing command. -/
theorem parse_spacing_product :
    Separate "\\sin x".toList "y + z".toList ∧
      parse ("\\sin x" ++ "\\," ++ "y + z") = .ok (.of .add [
        .of (.elementary .sin) [.of .invisible [.symbol "x", .symbol "y"]], .symbol "z"]) ∧
      (parse ("\\sin x" ++ "\\!" ++ "y + z")).toOption
        = (parse ("\\sin x" ++ "\\," ++ "y + z")).toOption := by
  have command : lexeme 0 '\\' (['s', 'i', 'n', ' ', 'x'] ++ ['y', ' ', '+', ' ', 'z'])
      = .ok ([⟨.function "sin" .sin, 0⟩], 4) := rfl
  have blank : lexeme 0 ' ' (['x'] ++ ['y', ' ', '+', ' ', 'z']) = .ok ([], 1) := rfl
  have apart : KeepsApart ['y', ' ', '+', ' ', 'z'] ['\\', 's', 'i', 'n', ' ', 'x'] :=
    .step command (by decide) (.step blank (by decide) (.split (by decide) ⟨by decide, rfl⟩))
  have separate : Separate "\\sin x".toList "y + z".toList := .inr (.inr ⟨by decide, apart⟩)
  have scanned : scan 0 0 (prepared ("\\sin x" ++ "\\," ++ "y + z").toList) = .ok
      [⟨.function "sin" .sin, 0⟩, ⟨.name "x", 5⟩, ⟨.name "y", 7⟩, ⟨.sign .plus, 9⟩,
        ⟨.name "z", 11⟩] := rfl
  exact ⟨separate, parse_eq_ok_iff.mpr ⟨_, scanned, rfl⟩, parse_spacing separate⟩

/-- Where nothing stands between the name of a command and a letter, they are one name. -/
theorem spacing_joins_command :
    tokens "\\sin" = .ok [⟨.function "sin" .sin, 0⟩] ∧ tokens "x" = .ok [⟨.name "x", 0⟩] ∧
      parse ("\\sin" ++ "\\!" ++ "x") = .error (.unknownCommand "sinx" 0) ∧
      parse ("\\sin" ++ "\\," ++ "x") = .ok (.of (.elementary .sin) [.symbol "x"]) := by
  have scanned : scan 0 0 (prepared ("\\sin" ++ "\\," ++ "x").toList) = .ok
      [⟨.function "sin" .sin, 0⟩, ⟨.name "x", 5⟩] := rfl
  exact ⟨rfl, rfl, rfl, parse_eq_ok_iff.mpr ⟨_, scanned, rfl⟩⟩

end Grapher.Markup
