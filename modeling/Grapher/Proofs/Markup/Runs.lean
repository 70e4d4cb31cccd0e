import Grapher.Proofs.Markup.Spacing

/-!
# Letters of a text and their tokens

The walk over a text loses no letter and takes none twice (`tokens_keep_letters`). A run of letters
is a word of the vocabulary, or a name together with its subscript, or it is split into parts: the
longest vocabulary word at every place, or else a single letter, each with a token at its own place.
Of the other pieces of a text, only those that a backslash starts hold letters.

The names among the tokens are of letters, digits and underscores (`tokens_plain_names`), unless
blanks other than spaces stand beside a subscript in braces.
-/

set_option autoImplicit false

namespace Grapher.Markup

open List Text

variable {c : Char} {text rest run : List Char} {position : Nat} {located : List Located}

/-! ## Parts of a run -/

/-- The words that are recognised inside a run of letters. -/
def IsPart (word : String) : Prop :=
  word = circleWord ∨ (functionWord? word).isSome = true

/-- The letters that a function word, the circle constant or a name stands for. -/
def Token.letters : Token → List Char
  | .function word _ => word.toList
  | .name text => if text == circleConstant then circleWord.toList else text.toList
  | _ => []

/-- The parts of a run of letters from left to right, the longest vocabulary word at every place or
else a single letter, and their tokens with their places. -/
inductive PartTokens : Nat → List Char → List Located → Prop where
  | done {position : Nat} : PartTokens position [] []
  | word {position : Nat} {word : String} {token : Token} {rest : List Char} {row : List Located}
      (known : IsPart word) (spells : token.letters = word.toList)
      (longest : ∀ other, IsPart other → other.toList <+: word.toList ++ rest →
        other.length ≤ word.length)
      (later : PartTokens (position + word.length) rest row) :
      PartTokens position (word.toList ++ rest) (⟨token, position⟩ :: row)
  | letter {position : Nat} {c : Char} {rest : List Char} {row : List Located}
      (unknown : ∀ word, IsPart word → ¬ word.toList <+: c :: rest)
      (later : PartTokens (position + 1) rest row) :
      PartTokens position (c :: rest) (⟨.name (String.singleton c), position⟩ :: row)

theorem letters_splitToken {word : String} (part : IsPart word) :
    (splitToken word).letters = word.toList := by
  unfold splitToken
  split
  · rfl
  · next unknown =>
    rcases part with rfl | known
    · rfl
    · rw [unknown] at known
      cases known

theorem mem_splitWords {word : String} (part : IsPart word) : word ∈ splitWords := by
  rcases part with rfl | known
  · decide
  · obtain ⟨function, found⟩ := Option.isSome_iff_exists.mp known
    have all : ∀ entry ∈ functionWords, entry.1 ∈ splitWords := by decide
    exact all _ (mem_of_lookup found)

/-- The words inside of runs are listed with the longer ones first. -/
theorem length_le_of_leadingWord {word other : String} (found : leadingWord? run = some word)
    (part : IsPart other) (starts : other.toList <+: run) : other.length ≤ word.length := by
  have sorted : splitWords.Pairwise fun word other => other.length ≤ word.length := by decide
  obtain ⟨-, front, back, shape, before⟩ := find?_eq_some_iff_append.mp found
  have member := mem_splitWords part
  rw [shape] at sorted member
  rcases mem_append.mp member with early | late
  · have absent := before other early
    rw [ isPrefixOf_iff_prefix.mpr starts] at absent
    cases absent
  · rcases mem_cons.mp late with rfl | later
    · exact Nat.le_refl _
    · exact rel_of_pairwise_cons (pairwise_append.mp sorted).2.1 later

/-- What is left of a run behind the word before is split into parts. -/
theorem partTokens_splitRun (skip position : Nat) (run : List Char) :
    PartTokens (position + skip) (run.drop skip) (splitRun skip position run) := by
  induction run generalizing skip position with
  | nil =>
    rw [drop_nil]
    exact .done
  | cons c rest ih =>
    cases skip with
    | succ skip =>
      have later := ih skip (position + 1)
      rwa [Nat.add_right_comm] at later
    | zero =>
      rw [splitRun, drop_zero, Nat.add_zero]
      split
      · next word found =>
        have known := functionWord_of_leadingWord found
        have starts := (find?_eq_some_iff_append.mp found).1
        obtain ⟨more, shape⟩ := isPrefixOf_iff_prefix.mp starts
        have some : word.length ≠ 0 := by
          have all : ∀ word ∈ splitWords, word.length ≠ 0 := by decide
          exact all word (mem_of_find?_eq_some found)
        obtain ⟨less, long⟩ := Nat.exists_eq_add_one_of_ne_zero some
        have later := ih (word.length - 1) (position + 1)
        have behind : rest.drop (word.length - 1) = more := by
          have dropped := congrArg (drop word.length) shape
          rw [← String.length_toList, drop_left, String.length_toList, long] at dropped
          rw [long]
          exact dropped.symm
        rw [behind, Nat.add_assoc, show 1 + (word.length - 1) = word.length by omega] at later
        have longest := fun other part starts => @length_le_of_leadingWord _ _ other found part starts
        rw [← shape] at longest ⊢
        exact .word known (letters_splitToken known) longest later
      · next none =>
        refine .letter (fun word part starts => ?_) (ih 0 (position + 1))
        have absent := find?_eq_none.mp none word (mem_splitWords part)
        exact absent ( isPrefixOf_iff_prefix.mpr starts)

/-! ## Runs and texts -/

/-- The tokens of a run of letters in front of a rest, and how far they reach. -/
inductive RunTokens (position : Nat) (run rest : List Char) : List Located → Nat → Prop where
  | word {token : Token} (known : wholeWord? (String.ofList run) = some token) :
      RunTokens position run rest [⟨token, position⟩] run.length
  | name {script : List Char} (several : 1 < run.length) (found : runSubscript? rest = some script) :
      RunTokens position run rest
        [⟨.name (String.ofList (run ++ '_' :: stripChars ['\x7b', '\x7d'] script)), position⟩]
        (run.length + 1 + script.length)
  | split {row : List Located} (parts : PartTokens position run row) :
      RunTokens position run rest row run.length
  | splitName {front : List Located} {name : String} {place : Nat}
      (parts : PartTokens position run (front ++ [⟨.name name, place⟩])) :
      RunTokens position run rest (front ++ [⟨.name (withSubscript name rest).1, place⟩])
        (run.length + (withSubscript name rest).2)

/-- The tokens of a text from a position on, piece by piece: of whole runs of letters, and of other
pieces, which hold no letters unless a backslash starts them. -/
inductive TextTokens : Nat → List Char → List Located → Prop where
  | done {position : Nat} : TextTokens position [] []
  | letters {position used : Nat} {run rest : List Char} {row more : List Located}
      (some : run ≠ []) (letters : ∀ c ∈ run, c.isAlpha = true) (ends : Free Char.isAlpha rest)
      (tokens : RunTokens position run rest row used)
      (later : TextTokens (position + used) ((run ++ rest).drop used) more) :
      TextTokens position (run ++ rest) (row ++ more)
  | other {position used : Nat} {c : Char} {rest : List Char} {row more : List Located}
      (tokens : lexeme position c rest = .ok (row, used))
      (bare : c = '\\' ∨ ∀ d ∈ (c :: rest).take used, d.isAlpha = false)
      (later : TextTokens (position + used) ((c :: rest).drop used) more) :
      TextTokens position (c :: rest) (row ++ more)

theorem runTokens_lettersLexeme (position : Nat) (run rest : List Char) :
    RunTokens position run rest (lettersLexeme position run rest).1
      (lettersLexeme position run rest).2 := by
  unfold lettersLexeme
  split
  · next known => exact .word known
  · dsimp only
    split
    · next script found =>
      split at found
      · next several => exact .name several found
      · cases found
    · have parts := partTokens_splitRun 0 position run
      rcases joinSubscript_cases rest (splitRun 0 position run) with same | ⟨front, name, place, shape, same⟩
      · rw [same]
        exact .split parts
      · rw [same]
        exact .splitName (shape ▸ parts)

theorem isAlpha_of_isDecimal (digit : isDecimal c = true) : c.isAlpha = false := by
  refine Bool.eq_false_iff.mpr fun letter => ?_
  have other : isDecimal c = false := @forall_ascii (fun c => c.isAlpha = true → isDecimal c = false)
    (by decide) c (small_of_isNameChar (isNameChar_of_isAlpha letter)) letter
  rw [other] at digit
  cases digit

/-- Beside runs of letters, only a piece that a backslash starts holds letters. -/
theorem bare_of_lexeme {found : Lexeme} (other : c.isAlpha = false)
    (same : lexeme position c rest = .ok found) :
    c = '\\' ∨ ∀ d ∈ (c :: rest).take found.2, d.isAlpha = false := by
  have alone : ∀ d ∈ (c :: rest).take 1, d.isAlpha = false := forall_mem_singleton.mpr other
  unfold lexeme at same
  split at same
  · cases same
    exact .inr alone
  · split at same
    · next slash => exact .inl (beq_iff_eq.mp slash)
    · refine .inr ?_
      split at same
      · unfold numberLexeme at same
        split at same <;> cases same
        rename_i decimal after scanned
        obtain ⟨taken, shape, shows, -⟩ := Decimal.plain_of_scanPlain? scanned
        rw [shape, length_append, Nat.add_sub_cancel, take_left]
        intro d member
        rcases shows.chars.2 d member with digit | rfl
        · exact isAlpha_of_isDecimal digit
        · rfl
      · split at same
        · rw [if_neg (Bool.eq_false_iff.mp other)] at same
          cases same
        · split at same
          · cases same
            rw [← prefix_iff_eq_take.mp ( takeWhile_prefix _)]
            intro d member
            have mark := all_eq_true.mp all_takeWhile d member
            rw [beq_iff_eq.mp mark]
            rfl
          · unfold signLexeme at same
            dsimp only at same
            split at same
            · next sign double =>
              cases same
              obtain ⟨next, first, double⟩ := Option.bind_eq_some_iff.mp double
              obtain ⟨more, rfl⟩ := head?_eq_some_iff.mp first
              have all : ∀ entry ∈ doubleSigns, entry.1.2.isAlpha = false := by decide
              exact forall_mem_cons.mpr ⟨other, forall_mem_singleton.mpr
                (all _ (mem_of_lookup double))⟩
            · split at same <;> cases same
              exact alone

/-- What is left of a text behind the lexeme before is read piece by piece. -/
theorem textTokens_scan {skip : Nat} (found : scan skip position text = .ok located) :
    TextTokens (position + skip) (text.drop skip) located := by
  induction text generalizing skip position located with
  | nil =>
    cases found
    rw [drop_nil]
    exact .done
  | cons c rest ih =>
    cases skip with
    | succ skip =>
      have later := ih found
      rwa [Nat.add_right_comm] at later
    | zero =>
      obtain ⟨⟨row, used⟩, same, found⟩ := ok_of_bind found
      obtain ⟨more, scanned, found⟩ := ok_of_bind found
      cases found
      obtain ⟨less, rfl⟩ := Nat.exists_eq_add_one_of_ne_zero (Nat.ne_of_gt (lexeme_length same))
      have later := ih scanned
      rw [Nat.add_sub_cancel, Nat.add_assoc, Nat.add_comm 1] at later
      by_cases letter : c.isAlpha = true
      · have letters : ∀ d ∈ c :: rest.takeWhile Char.isAlpha, d.isAlpha = true :=
          forall_mem_cons.mpr ⟨letter, all_eq_true.mp all_takeWhile⟩
        have free := free_dropWhile Char.isAlpha rest
        have whole := lexeme_letters letters position free
        have tokens := runTokens_lettersLexeme position (c :: rest.takeWhile Char.isAlpha)
          (rest.dropWhile Char.isAlpha)
        have parts := @takeWhile_append_dropWhile _ Char.isAlpha rest
        rw [parts, same] at whole
        rw [← Except.ok.inj whole] at tokens
        rw [← parts] at later ⊢
        exact .letters (cons_ne_nil _ _) letters free tokens later
      · exact .other same (bare_of_lexeme (Bool.eq_false_iff.mpr letter) same) later

/-! ## The tokens of a text -/

/-- The tokens of a text stand one behind the other inside of it, and are those of its pieces: of
every run of letters, with a subscript behind it, and of what lies between the runs, where letters
stand only behind a backslash. -/
theorem tokens_keep_letters {text : String} (found : tokens text = .ok located) :
    (located.map (·.position)).Pairwise (· < ·) ∧
      (∀ entry ∈ located, entry.position < text.length) ∧ TextTokens 0 text.toList located := by
  rcases @scan_cases text.toList True (fun _ => trivial) 0 0 with ⟨row, same, -, order⟩ | ⟨_, same, -⟩
  · cases same.symm.trans found
    refine ⟨order.increasing, fun entry member => ?_, textTokens_scan found⟩
    have inside := (order.inside _ (mem_map_of_mem member)).2
    rwa [Nat.zero_add, String.length_toList] at inside
  · cases same.symm.trans found

/-- A run of letters in which one vocabulary word goes on as another, with a subscript at its end. -/
theorem tokens_keep_letters_sinh :
    let text := "arcsinhpix_\x7b 1\x7d"
    let located : List Located :=
      [⟨.function "arcsin" .arcsin, 0⟩, ⟨.name "h", 6⟩, ⟨.name "Pi", 7⟩, ⟨.name "x_1", 9⟩]
    tokens text = .ok located ∧ TextTokens 0 text.toList located :=
  ⟨rfl, (tokens_keep_letters rfl).2.2⟩

/-- The name in a token is not empty and of letters, digits and underscores. Blanks can get into it
too, but only where a subscript in braces has other blanks than spaces in it. -/
theorem tokens_plain_names {text : String} (found : tokens text = .ok located) {entry : Located}
    (member : entry ∈ located) {name : String} (named : entry.token = .name name) :
    name ≠ "" ∧ (∀ c ∈ name.toList, isNameChar c = true ∨ isBlank c = true) ∧
      (¬ HasStray text.toList → ∀ c ∈ name.toList, isNameChar c = true) := by
  have word := (allScanned_scan found (@id (HasStray text.toList)) entry member).isOf
  rw [named] at word
  obtain ⟨some, chars⟩ := word
  refine ⟨some, fun c inside => (chars c inside).imp_right And.right, fun clean c inside => ?_⟩
  exact (chars c inside).resolve_right fun blank => clean blank.1

/-- Spaces in the braces of a subscript are dropped. -/
theorem tokens_plain_names_spaces :
    let text := "x_\x7b 10 \x7d+\\alpha_2"
    tokens text = .ok [⟨.name "x_10", 0⟩, ⟨.sign .plus, 8⟩, ⟨.name "alpha_2", 9⟩] ∧
      ∀ c ∈ "x_10".toList, isNameChar c = true := by
  have clean : ¬ HasStray "x_\x7b 10 \x7d+\\alpha_2".toList := by
    rintro ⟨before, script, after, shape, -, c, member, blank, other⟩
    have spaces : ∀ c ∈ "x_\x7b 10 \x7d+\\alpha_2".toList, isBlank c = true → c = ' ' := by decide
    refine other (spaces c ?_ blank)
    simp [shape, member]
  exact ⟨rfl, (tokens_plain_names rfl (.head _) rfl).2.2 clean⟩

/-- A tab in the braces of a subscript stays in the name. -/
theorem tokens_plain_names_tab :
    tokens "x_\x7b\t1\x7d" = .ok [⟨.name "x_\t1", 0⟩] ∧ isNameChar '\t' = false :=
  ⟨rfl, rfl⟩

end Grapher.Markup
