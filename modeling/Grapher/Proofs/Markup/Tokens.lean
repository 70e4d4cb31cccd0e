import Grapher.Proofs.Markup.Formed
import Grapher.Proofs.Text.Classes

/-!
# What scanned tokens hold

A number token holds the double of a decimal without a sign. The name in a name token is not empty
and made of letters, digits and underscores. Only a subscript in braces can bring in something else:
the spaces around it are dropped, but other blanks are not (`HasStray`). The word of a function token
is in the vocabulary, and a prime token stands for at least one mark. These are facts about the tables
of the scanner and about its subscripts.
-/

set_option autoImplicit false

namespace Grapher.Markup

open List Text

variable {c : Char} {rest : List Char} {position : Nat} {name : String} {token : Token} {stray : Prop}

/-- A subscript in braces has another blank than the space beside its letters and digits. -/
def HasStray (text : List Char) : Prop :=
  ∃ before script after, text = before ++ '_' :: '\x7b' :: (script ++ '\x7d' :: after) ∧
    (∀ c ∈ script, c.isAlphanum = true ∨ isBlank c = true) ∧
    ∃ c ∈ script, isBlank c = true ∧ c ≠ ' '

theorem HasStray.append (has : HasStray rest) (front : List Char) : HasStray (front ++ rest) := by
  obtain ⟨before, script, after, rfl, some⟩ := has
  exact ⟨front ++ before, script, after, (append_assoc _ _ _).symm, some⟩

/-- The kinds of numbers and names that the scanner makes, of a text with stray blanks or without. -/
def kindsOf (stray : Prop) : Kinds where
  literal value := ∃ decimal : Decimal, value = decimal.toDouble false
  word name := name ≠ "" ∧ ∀ c ∈ name.toList, isNameChar c = true ∨ stray ∧ isBlank c = true

/-- The kinds of numbers and names that the scanner makes of any text. -/
abbrev scannedKinds : Kinds := kindsOf True

/-- Whether the word of a function token is in the vocabulary, and a prime token stands for a mark. -/
def Token.isBacked : Token → Bool
  | .function word elementary => functionWord? word == some elementary
  | .prime count => 0 < count
  | _ => true

variable (stray) in
/-- The tokens that the scanner makes. -/
structure Token.Scanned (token : Token) : Prop where
  isOf : token.IsOf (kindsOf stray)
  isBacked : token.isBacked = true

/-! ## Tables -/

theorem functionWord_ne_root {word : String} {function : Elementary}
    (found : functionWord? word = some function) : function ≠ .root := by
  have all : ∀ entry ∈ functionWords, entry.2 ≠ .root := by decide
  exact all _ (mem_of_lookup found)

theorem scanned_function {word : String} {function : Elementary}
    (found : functionWord? word = some function) : (Token.function word function).Scanned stray :=
  ⟨functionWord_ne_root found, by rw [Token.isBacked, found, beq_self_eq_true]⟩

/-- Whether a token of a table is one that the scanner makes. -/
def Token.isTabled : Token → Bool
  | .number _ => false
  | .name text => text != "" && text.toList.all isNameChar
  | token => token.isBacked

theorem word_of_all (some : name ≠ "") (all : name.toList.all isNameChar = true) :
    (kindsOf stray).word name :=
  ⟨some, fun c member => .inl (all_eq_true.mp all c member)⟩

theorem scanned_of_isTabled (tabled : token.isTabled = true) : token.Scanned stray := by
  cases token with
  | number value => cases tabled
  | name text =>
    simp only [Token.isTabled, Bool.and_eq_true, bne_iff_ne] at tabled
    exact ⟨word_of_all tabled.1 tabled.2, rfl⟩
  | function word function => exact scanned_function (beq_iff_eq.mp tabled)
  | _ => exact ⟨trivial, tabled⟩

theorem scanned_wholeWord {word : String} (found : wholeWord? word = some token) :
    token.Scanned stray := by
  unfold wholeWord? at found
  split at found
  · cases found
    exact scanned_of_isTabled rfl
  · split at found
    · next function =>
      cases found
      exact scanned_function function
    · split at found <;> cases found
      exact scanned_of_isTabled (by decide)

theorem scanned_splitToken (word : String) : (splitToken word).Scanned stray := by
  unfold splitToken
  split
  · next found => exact scanned_function found
  · exact scanned_of_isTabled (by decide)

/-- The tokens of a table are scanned, if a look at them says so. -/
theorem scanned_lookup {α : Type} [BEq α] [LawfulBEq α] {table : List (α × Token)}
    (all : ∀ entry ∈ table, entry.2.isTabled = true) {key : α}
    (found : table.lookup key = some token) : token.Scanned stray :=
  scanned_of_isTabled (all _ (mem_of_lookup found))

/-! ## Subscripts -/

theorem mem_of_mem_stripChars {chars text : List Char} (member : c ∈ stripChars chars text) :
    c ∈ text := by
  have inner := (dropWhile_suffix _).subset (mem_reverse.mp member)
  exact (dropWhile_suffix _).subset (mem_reverse.mp inner)

/-- Of a text in braces, stripping leaves characters inside of the braces. -/
theorem mem_of_mem_stripChars_braced {chars content : List Char} (opening : '\x7b' ∈ chars)
    (closing : '\x7d' ∈ chars) (member : c ∈ stripChars chars ('\x7b' :: content ++ ['\x7d'])) :
    c ∈ content := by
  have opened : chars.contains '\x7b' = true := contains_iff_mem.mpr opening
  have closed : chars.contains '\x7d' = true := contains_iff_mem.mpr closing
  rw [stripChars, cons_append, dropWhile_cons_of_pos opened, dropWhile_append]
    at member
  split at member
  · rw [dropWhile_cons_of_pos closed] at member
    cases member
  · rw [reverse_append, reverse_singleton, singleton_append, dropWhile_cons_of_pos closed] at member
    have inner := (dropWhile_suffix _).subset (mem_reverse.mp member)
    exact (dropWhile_suffix _).subset (mem_reverse.mp inner)

theorem isNameChar_of_isAlphanum (isOf : c.isAlphanum = true) : isNameChar c = true := by
  rw [isNameChar, isOf, Bool.true_or]

theorem small_of_isNameChar (letter : isNameChar c = true) : c.toNat < 128 := by
  rw [isNameChar, Bool.or_eq_true, beq_iff_eq] at letter
  rcases letter with letter | rfl
  · exact small_of_isAlphanum letter
  · decide

theorem letterSubscript?_letter (letter : c.isAlphanum = true) (rest : List Char) :
    letterSubscript? ('_' :: c :: rest) = some [c] := by
  have other : c ≠ '\x7b' := by
    rintro rfl
    cases letter
  rw [letterSubscript?]
  · exact if_pos letter
  · exact other

/-- A subscript in braces is a word between blanks. -/
theorem letterSubscript?_spans {left word right rest : List Char}
    (before : ∀ c ∈ left, isBlank c = true) (letters : ∀ c ∈ word, c.isAlphanum = true)
    (behind : ∀ c ∈ right, isBlank c = true) (first : Free isBlank (word ++ (right ++ rest)))
    (second : Free Char.isAlphanum (right ++ rest)) (third : Free isBlank rest) :
    letterSubscript? ('_' :: '\x7b' :: (left ++ (word ++ (right ++ rest)))) =
      if word ≠ [] ∧ rest.head? = some '\x7d' then
        some ('\x7b' :: (left ++ (word ++ right)) ++ ['\x7d'])
      else none := by
  simp only [letterSubscript?, dropBlanks, dropWhile_append_free before first,
    dropWhile_append_free letters second, dropWhile_append_free behind third]
  have shape : left ++ (word ++ (right ++ rest)) = left ++ (word ++ right) ++ rest := by simp
  have longer : (right ++ rest).length < (word ++ (right ++ rest)).length ↔ word ≠ [] := by
    rw [@length_append _ word, Nat.lt_add_left_iff_pos, length_pos_iff]
  simp only [longer, Bool.and_eq_true, decide_eq_true_eq, beq_iff_eq]
  rw [shape, length_append, Nat.add_sub_cancel, take_left]

/-- A subscript of a letter is a letter or digit, or a word between blanks in braces. -/
theorem letterSubscript?_cases {text script : List Char} (found : letterSubscript? text = some script) :
    (∃ c rest, c.isAlphanum = true ∧ script = [c] ∧ text = '_' :: c :: rest) ∨
    ∃ left word right rest, script = '\x7b' :: (left ++ (word ++ right)) ++ ['\x7d'] ∧
      text = '_' :: '\x7b' :: (left ++ (word ++ (right ++ '\x7d' :: rest))) ∧ word ≠ [] ∧
      (∀ c ∈ word, c.isAlphanum = true) ∧ (∀ c ∈ left, isBlank c = true) ∧
      ∀ c ∈ right, isBlank c = true := by
  unfold letterSubscript? at found
  split at found
  · next inner =>
    obtain ⟨left, middle, rfl, before, first⟩ := exists_run isBlank inner
    obtain ⟨word, tail, rfl, letters, second⟩ := exists_run Char.isAlphanum middle
    obtain ⟨right, rest, rfl, behind, third⟩ := exists_run isBlank tail
    have same := (letterSubscript?_spans before letters behind first second third).symm.trans found
    split at same
    · next closed =>
      obtain ⟨after, rfl⟩ := head?_eq_some_iff.mp closed.2
      exact .inr ⟨left, word, right, after, (Option.some.inj same).symm, rfl, closed.1, letters,
        before, behind⟩
    · cases same
  · split at found <;> cases found
    rename_i letter
    exact .inl ⟨_, _, letter, rfl, rfl⟩
  · cases found

/-- Stripping takes what it should from both ends, and stops at what is left. -/
theorem stripChars_between {chars left word right : List Char}
    (first : ∀ c ∈ left, c ∈ chars) (second : ∀ c ∈ right, c ∈ chars) (some : word ≠ [])
    (stays : ∀ c ∈ word, c ∉ chars) : stripChars chars (left ++ (word ++ right)) = word := by
  have stops : ∀ {word rest : List Char}, word ≠ [] → (∀ c ∈ word, c ∉ chars) →
      (word ++ rest).dropWhile chars.contains = word ++ rest := by
    intro word rest some stays
    obtain ⟨c, more, rfl⟩ := exists_cons_of_ne_nil some
    exact dropWhile_cons_of_neg (mt contains_iff_mem.mp (stays c (.head _)))
  rw [stripChars, dropWhile_append_of_pos fun c member => contains_iff_mem.mpr (first c member),
    stops some stays, reverse_append, dropWhile_append_of_pos fun c member =>
      contains_iff_mem.mpr (second c (mem_reverse.mp member))]
  have reversed := @stops word.reverse [] (mt reverse_eq_nil_iff.mp some)
    fun c member => stays c (mem_reverse.mp member)
  rw [append_nil] at reversed
  rw [reversed, reverse_reverse]

theorem word_withSubscript (word : (kindsOf stray).word name) {rest : List Char}
    (strays : HasStray rest → stray) : (kindsOf stray).word (withSubscript name rest).1 := by
  obtain ⟨some, all⟩ := word
  have joined : ∀ script : List Char,
      (∀ c ∈ script, isNameChar c = true ∨ stray ∧ isBlank c = true) →
      (kindsOf stray).word (name ++ "_" ++ String.ofList script) := by
    intro script inside
    refine ⟨?_, ?_⟩
    · intro empty
      have chars := congrArg String.toList empty
      simp at chars
    · intro c member
      simp only [String.toList_append, String.toList_ofList, mem_append] at member
      rcases member with (early | mark) | late
      · exact all c early
      · exact .inl (by rw [mem_singleton.mp mark]; rfl)
      · exact inside c late
  unfold withSubscript
  split
  · next script found =>
    refine joined _ ?_
    rcases letterSubscript?_cases found with ⟨c, rest, letter, rfl, -⟩ |
      ⟨left, word, right, after, rfl, shape, nonempty, letters, before, behind⟩
    · intro d member
      have same := mem_singleton.mp (mem_of_mem_stripChars member)
      exact .inl (isNameChar_of_isAlphanum (same ▸ letter))
    · have others : ∀ c ∈ ['\x7b', '\x7d', ' '], c.isAlphanum ≠ true := by decide
      by_cases spaces : ∀ c ∈ left ++ right, c = ' '
      · -- braces and spaces are stripped, and the word is left
        have among : ∀ c ∈ left ++ right, c ∈ ['\x7b', '\x7d', ' '] := by
          intro c member
          rw [spaces c member]
          decide
        rw [forall_mem_append] at among
        have opening : ∀ c ∈ '\x7b' :: left, c ∈ ['\x7b', '\x7d', ' '] :=
          forall_mem_cons.mpr ⟨by decide, among.1⟩
        have closing : ∀ c ∈ right ++ ['\x7d'], c ∈ ['\x7b', '\x7d', ' '] :=
          forall_mem_append.mpr ⟨among.2, by decide⟩
        have script : '\x7b' :: (left ++ (word ++ right)) ++ ['\x7d']
            = '\x7b' :: left ++ (word ++ (right ++ ['\x7d'])) := by simp
        rw [script, stripChars_between opening closing nonempty
          fun c member mark => others c mark (letters c member)]
        exact fun c member => .inl (isNameChar_of_isAlphanum (letters c member))
      · have inside : ∀ c ∈ left ++ (word ++ right), c.isAlphanum = true ∨ isBlank c = true :=
          forall_mem_append.mpr ⟨fun c member => .inr (before c member), forall_mem_append.mpr
            ⟨fun c member => .inl (letters c member), fun c member => .inr (behind c member)⟩⟩
        have here : stray := by
          push Not at spaces
          obtain ⟨c, member, other⟩ := spaces
          refine strays ⟨[], left ++ (word ++ right), after, by simp [shape], inside, c, ?_, ?_, other⟩
          · rw [mem_append] at member
            exact member.elim (mem_append_left _) fun last =>
              mem_append_right _ (mem_append_right _ last)
          · exact (mem_append.mp member).elim (before c) (behind c)
        intro c member
        have content := mem_of_mem_stripChars_braced (by decide) (by decide) member
        exact (inside c content).imp isNameChar_of_isAlphanum fun blank => ⟨here, blank⟩
  · exact ⟨some, all⟩

/-- A subscript of a run of letters is a word of name characters, in braces or up to the first
character that is none. -/
theorem runSubscript?_cases {text script : List Char} (found : runSubscript? text = some script) :
    ∃ word rest, word ≠ [] ∧ (∀ c ∈ word, isNameChar c = true) ∧
      (script = '\x7b' :: word ++ ['\x7d'] ∧ text = '_' :: '\x7b' :: (word ++ '\x7d' :: rest) ∨
        script = word ∧ text = '_' :: (word ++ rest) ∧ Free isNameChar rest) := by
  unfold runSubscript? at found
  split at found
  · next inner =>
    obtain ⟨word, rest, rfl, letters, free⟩ := exists_run isNameChar inner
    simp only [takeWhile_append_free letters free, drop_left] at found
    split at found <;> cases found
    rename_i closed
    rw [Bool.and_eq_true, Bool.not_eq_true', isEmpty_eq_false_iff, beq_iff_eq] at closed
    obtain ⟨after, rfl⟩ := head?_eq_some_iff.mp closed.2
    exact ⟨word, after, closed.1, letters, .inl ⟨rfl, rfl⟩⟩
  · next inner _ =>
    obtain ⟨word, rest, rfl, letters, free⟩ := exists_run isNameChar inner
    simp only [takeWhile_append_free letters free] at found
    split at found <;> cases found
    rename_i some
    exact ⟨_, rest, mt isEmpty_iff.mpr some, letters, .inr ⟨rfl, rfl, free⟩⟩
  · cases found

theorem isNameChar_of_runSubscript {script : List Char} (found : runSubscript? rest = some script) :
    ∀ c ∈ stripChars ['\x7b', '\x7d'] script, isNameChar c = true := by
  intro c member
  obtain ⟨word, after, -, letters, ⟨rfl, -⟩ | ⟨rfl, -⟩⟩ := runSubscript?_cases found
  · exact letters c (mem_of_mem_stripChars_braced (by decide) (by decide) member)
  · exact letters c (mem_of_mem_stripChars member)

theorem isNameChar_of_isAlpha (isOf : c.isAlpha = true) : isNameChar c = true := by
  rw [isNameChar, Char.isAlphanum, isOf, Bool.true_or, Bool.true_or]

theorem word_greek (greek : greekNames.contains name = true) : (kindsOf stray).word name := by
  have all : ∀ name ∈ greekNames, name ≠ "" ∧ name.toList.all isNameChar = true := by decide
  obtain ⟨some, letters⟩ := all name (contains_iff_mem.mp greek)
  exact word_of_all some letters

end Grapher.Markup
