import Grapher.Proofs.Decimal.Extent
import Grapher.Proofs.Program.Binding
import Grapher.Proofs.Program.Scanning

/-!
# Names beyond ASCII in the text of a program

A name may have letters and digits of all scripts, but a word of a program is of ASCII characters.
The scanner takes such a name apart: into words, and into numbers where there are digits of other
scripts. Where a program comes of it all the same, the fragments hold no names, since a word among
them has a number beside it. So the tokens that are found in the text of a row of pieces are those
of the row, with some names replaced by numbers and connective words (`Garbled`), and the walk over
them finds no other names than the walk over the row.
-/

set_option autoImplicit false

namespace Grapher

open List Text

namespace Program

open Reading (isName)

variable {rest text : List Char} {row : List Piece}

/-! ## What the scanner found -/

/-- The scanner finds the given tokens in a text that stands somewhere. -/
def Finds (text : List Char) (found : List Token) : Prop :=
  ∃ position, scan 0 position text = .ok found

theorem scan_skip (skip position : Nat) (text : List Char) :
    ∃ position', scan skip position text = scan 0 position' (text.drop skip) := by
  induction text generalizing skip position with
  | nil => exact ⟨0, by cases skip <;> rfl⟩
  | cons c rest ih =>
    cases skip with
    | zero => exact ⟨position, rfl⟩
    | succ skip => exact ih skip (position + 1)

namespace Finds

variable {c : Char} {rest : List Char} {found : List Token}

theorem nil (finds : Finds [] found) : found = [] := by
  obtain ⟨position, scanned⟩ := finds
  cases scanned
  rfl

theorem blank (finds : Finds (' ' :: rest) found) : Finds rest found := by
  obtain ⟨position, scanned⟩ := finds
  unfold scan at scanned
  cases recognised : lexeme? (dropBlanks (' ' :: rest)) with
  | none => simp [recognised] at scanned
  | some entry =>
    simp only [recognised, isBlank] at scanned
    exact ⟨_, scanned⟩

/-- Where a text starts with no blank it starts with a lexeme. -/
theorem lexeme (finds : Finds (c :: rest) found) (visible : isBlank c = false) :
    ∃ token length more, lexeme? (c :: rest) = some (token, length) ∧ found = token :: more ∧
      Finds (rest.drop (length - 1)) more := by
  obtain ⟨position, scanned⟩ := finds
  unfold scan at scanned
  rw [dropBlanks_of_visible visible] at scanned
  cases recognised : lexeme? (c :: rest) with
  | none => simp [recognised] at scanned
  | some entry =>
    obtain ⟨token, length⟩ := entry
    simp only [recognised, visible, Bool.false_eq_true, if_false] at scanned
    obtain ⟨position', skipped⟩ := scan_skip (length - 1) (position + 1) rest
    rw [skipped] at scanned
    obtain ⟨more, later, scanned⟩ := ok_of_bind scanned
    cases scanned
    exact ⟨token, length, more, rfl, rfl, position', later⟩

theorem token {token : Token} (spelled : token.IsSpelled) (ends : token.EndsAt rest)
    (finds : Finds (token.text.toList ++ rest) found) :
    ∃ more, found = token :: more ∧ Finds rest more := by
  have recognised := lexeme?_spelling spelled.spells ends
  obtain ⟨c, tail, text, visible⟩ := spelled.first
  rw [text, cons_append] at finds recognised
  obtain ⟨token', length, more, same, rfl, later⟩ := finds.lexeme visible
  rw [recognised] at same
  cases same
  simp only [length_cons, Nat.add_sub_cancel, drop_left] at later
  exact ⟨more, rfl, later⟩

end Finds

/-! ## Fragments of a name -/

/-- Words and numbers that follow one another without anything between them. A word goes as far as
the characters of words do. -/
inductive Fragments : List Char → List Token → Prop where
  | nil : Fragments [] []
  | word {first : Char} {more rest : List Char} {found : List Token}
      (start : isWordStart first = true) (ends : ∀ c ∈ rest.head?, isWordRest c = false)
      (later : Fragments rest found) :
      Fragments (first :: more ++ rest) (wordToken (String.ofList (first :: more)) :: found)
  | number {digits rest : List Char} {found : List Token} (value : Float) (some : digits ≠ [])
      (later : Fragments rest found) : Fragments (digits ++ rest) (.number value :: found)

/-- No mark is a character of a name. -/
theorem markLexeme?_of_identifier {c : Char} (inside : isIdentifierRest c = true) :
    markLexeme? c rest = none := by
  have others : ∀ d ∈ "-=!<>+*/^(),".toList, isIdentifierRest d = false := by decide
  have outside : c ∉ "-=!<>+*/^(),".toList := by
    intro member
    rw [others c member] at inside
    cases inside
  have double : (rest.head?.bind fun next => doubleMarks.lookup (c, next)) = none := by
    rw [Option.bind_eq_none_iff]
    intro next _
    cases found : doubleMarks.lookup (c, next) with
    | none => rfl
    | some sign =>
      rcases lookup_doubleMarks found with ⟨rfl, -⟩ | ⟨member, -⟩
      · exact absurd (by decide) outside
      · have among : ∀ d ∈ ['=', '!', '<', '>'], d ∈ "-=!<>+*/^(),".toList := by decide
        exact absurd (among c member) outside
  have single : singleMarks.lookup c = none := by
    rw [lookup_eq_none_iff]
    have among : ∀ entry ∈ singleMarks, entry.1 ∈ "-=!<>+*/^(),".toList := by decide
    intro entry member
    rw [bne_iff_ne]
    rintro rfl
    exact outside (among entry member)
  unfold markLexeme?
  rw [double, single]
  rfl

/-- A numeral at the start of a name ends inside of the name. -/
theorem numeral_inside {text rest after : List Char} (stops : Stops rest)
    (takes : Decimal.Takes (text ++ rest) after) :
    ∃ digits more, digits ≠ [] ∧ text = digits ++ more ∧ after = more ++ rest := by
  obtain ⟨taken, some, shape, all⟩ := takes
  have numerals : ∀ c ∈ [' ', '(', ')', ','], ¬ Decimal.IsNumeric c := by
    unfold Decimal.IsNumeric
    decide
  rcases append_eq_append_iff.mp shape with ⟨beyond, rfl, rfl⟩ | ⟨more, rfl, rfl⟩
  · cases beyond with
    | nil => exact ⟨text, [], by simpa using some, by simp, by simp⟩
    | cons c beyond => exact absurd (all c (by simp)) (numerals c (stops c rfl))
  · exact ⟨taken, more, some, rfl, rfl⟩

/-- A lexeme that starts with a character of a name is a number or a word. -/
theorem lexeme?_identifier {c : Char} {token : Token} {length : Nat}
    (inside : isIdentifierRest c = true)
    (recognised : lexeme? (c :: rest) = some (token, length)) :
    (∃ d after, Decimal.scanScaled? (c :: rest) = some (d, after) ∧
      token = .number (d.toDouble false) ∧ length = (c :: rest).length - after.length) ∨
    (isWordStart c = true ∧ token = wordToken (String.ofList (c :: rest.takeWhile isWordRest)) ∧
      length = (c :: rest.takeWhile isWordRest).length) := by
  unfold lexeme? at recognised
  split at recognised
  · next d after scanned =>
    cases recognised
    exact .inl ⟨d, after, scanned, rfl, rfl⟩
  · dsimp only at recognised
    split at recognised
    · next start =>
      cases recognised
      exact .inr ⟨start, rfl, rfl⟩
    · rw [markLexeme?_of_identifier inside] at recognised
      cases recognised

/-- A word goes on to the first character that is not of words, and not beyond its name. -/
theorem takeWhile_name {tail : List Char} (stops : Stops rest) :
    (tail ++ rest).takeWhile isWordRest = tail.takeWhile isWordRest := by
  induction tail with
  | nil =>
    cases rest with
    | nil => rfl
    | cons c rest =>
      have others : ∀ d ∈ [' ', '(', ')', ','], isWordRest d = false := by decide
      simp [others c (stops c rfl)]
  | cons c tail ih => rw [cons_append, takeWhile_cons, takeWhile_cons, ih]

/-- The rest of a word, and what comes after it. -/
theorem exists_word (tail : List Char) :
    ∃ more after, tail = more ++ after ∧ tail.takeWhile isWordRest = more ∧
      ∀ c ∈ after.head?, isWordRest c = false := by
  refine ⟨tail.takeWhile isWordRest, tail.dropWhile isWordRest,
    takeWhile_append_dropWhile.symm, rfl, fun c first => ?_⟩
  have other := head?_dropWhile_not isWordRest tail
  rw [Option.mem_def.mp first] at other
  exact other

/-- The scanner takes a name apart, and goes on after it. -/
theorem fragments_of_finds {found : List Token}
    (inside : ∀ c ∈ text, isIdentifierRest c = true) (stops : Stops rest)
    (finds : Finds (text ++ rest) found) :
    ∃ parts more, Fragments text parts ∧ found = parts ++ more ∧ Finds rest more := by
  -- each lexeme takes a part of the name that is not empty
  induction size : text.length using Nat.strong_induction_on generalizing text found with
  | _ size ih =>
    subst size
    cases text with
    | nil => exact ⟨[], found, .nil, rfl, finds⟩
    | cons c tail =>
      obtain ⟨first, others⟩ := forall_mem_cons.mp inside
      rw [cons_append] at finds
      obtain ⟨token, length, later, recognised, rfl, following⟩ :=
        finds.lexeme (isBlank_of_isIdentifierRest first)
      rcases lexeme?_identifier first recognised with
        ⟨d, after, scanned, rfl, rfl⟩ | ⟨start, rfl, rfl⟩
      · obtain ⟨digits, more, some, shape, rfl⟩ :=
          @numeral_inside (c :: tail) _ _ stops (Decimal.takes_of_scanScaled? scanned)
        obtain ⟨digit, digits, rfl⟩ := exists_cons_of_ne_nil some
        rw [cons_append, cons.injEq] at shape
        obtain ⟨rfl, rfl⟩ := shape
        have skipped : (c :: (digits ++ more ++ rest)).length - (more ++ rest).length - 1
            = digits.length := by
          simp only [length_cons, length_append]
          omega
        rw [skipped, append_assoc, drop_left] at following
        have shorter : more.length < (c :: (digits ++ more)).length := by
          rw [length_cons, length_append]
          omega
        obtain ⟨parts, last, fragments, rfl, ending⟩ := ih more.length shorter
          (fun c member => others c (mem_append_right _ member)) following rfl
        exact ⟨_ :: parts, last, .number _ some fragments, rfl, ending⟩
      · obtain ⟨more, after, rfl, taken, ends⟩ := exists_word tail
        rw [takeWhile_name stops, taken] at following ⊢
        rw [length_cons, Nat.add_sub_cancel, append_assoc, drop_left] at following
        have shorter : after.length < (c :: (more ++ after)).length := by
          rw [length_cons, length_append]
          omega
        obtain ⟨parts, last, fragments, rfl, ending⟩ := ih after.length shorter
          (fun c member => others c (mem_append_right _ member)) following rfl
        exact ⟨_ :: parts, last, .word start ends fragments, rfl, ending⟩

/-! ## Names among the fragments -/

theorem wordToken_of_isWord {word : String} (named : (wordToken word).isWord = true) :
    wordToken word = .name word := by
  unfold wordToken at named ⊢
  split at named
  · cases named
  · rfl

namespace Fragments

variable {text : List Char} {parts : List Token}

theorem eq_nil (fragments : Fragments text []) : text = [] := by
  cases fragments
  rfl

/-- Where no character of a word starts, a number does. -/
theorem number_first {token : Token} (fragments : Fragments text (token :: parts))
    (other : ∀ c ∈ text.head?, isWordRest c = false) : ∃ value, token = .number value := by
  cases fragments with
  | word start _ _ =>
    have rest : ∀ c, isWordStart c = true → isWordRest c = true := by
      intro c start
      rw [isWordStart, Bool.or_eq_true] at start
      rw [isWordRest, Char.isAlphanum, Bool.or_eq_true, Bool.or_eq_true]
      exact start.imp .inl id
    have inside := other _ rfl
    rw [rest _ start] at inside
    cases inside
  | number value _ _ => exact ⟨value, rfl⟩

/-- Fragments are words and numbers. -/
theorem ordinary (fragments : Fragments text parts) :
    ∀ token ∈ parts, token.isWord = false → token.isPassive = true ∧ token ≠ .mark .arrow := by
  induction fragments with
  | nil => exact fun _ member => nomatch member
  | word _ _ _ ih =>
    refine forall_mem_cons.mpr ⟨fun other => ?_, ih⟩
    unfold wordToken at other ⊢
    split at other
    · exact ⟨rfl, nofun⟩
    · cases other
  | number value _ _ ih => exact forall_mem_cons.mpr ⟨fun _ => ⟨rfl, nofun⟩, ih⟩

/-- A name stands alone: a word with more around it has a number beside it. -/
theorem name_alone (fragments : Fragments text parts) (chain : parts.IsChain Neighbours)
    {token : Token} (member : token ∈ parts) (word : token.isWord = true) :
    parts = [.name (String.ofList text)] := by
  induction fragments with
  | nil => cases member
  | @word first more rest found start ends later ih =>
    obtain ⟨beside, chain'⟩ := isChain_cons.mp chain
    rcases mem_cons.mp member with rfl | among
    · rw [wordToken_of_isWord word] at beside ⊢
      cases found with
      | nil => rw [later.eq_nil, append_nil]
      | cons next found =>
        obtain ⟨value, rfl⟩ := later.number_first ends
        have apart := (beside _ rfl).1 rfl
        cases apart
    · have alone := ih chain' among
      subst alone
      obtain ⟨value, same⟩ := later.number_first ends
      cases same
  | @number digits rest found value some later ih =>
    obtain ⟨beside, chain'⟩ := isChain_cons.mp chain
    rcases mem_cons.mp member with rfl | among
    · cases word
    · have alone := ih chain' among
      subst alone
      have apart := (beside _ rfl).1 rfl
      cases apart

end Fragments

/-! ## Rows of pieces -/

/-- A row of pieces in which every token ends where its spelling does. Names may have characters
beyond ASCII, and blanks stand in front of something. -/
inductive Spaced : List Piece → Prop where
  | nil : Spaced []
  | blank {piece : Piece} {row : List Piece} (later : Spaced (piece :: row)) :
      Spaced (.blank :: piece :: row)
  | token {token : Token} {row : List Piece} (spelled : token.IsSpelled)
      (ends : token.EndsAt (pieceChars row)) (later : Spaced row) : Spaced (.token token :: row)
  | name {word : String} {row : List Piece} (identifier : Text.isIdentifier word = true)
      (stops : Stops (pieceChars row)) (later : Spaced row) : Spaced (namePiece word :: row)

/-- Tokens with some of the names replaced by numbers and connective words. -/
inductive Garbled : List Token → List Token → Prop where
  | nil : Garbled [] []
  | same (token : Token) {row found : List Token} (later : Garbled row found) :
      Garbled (token :: row) (token :: found)
  | broken (word : String) {parts row found : List Token} (some : parts ≠ [])
      (ordinary : ∀ token ∈ parts, token.isPassive = true ∧ token ≠ .mark .arrow)
      (arrowless : Arrowless row) (later : Garbled row found) :
      Garbled (.name word :: row) (parts ++ found)

namespace Garbled

variable {row found : List Token}

theorem arrowless_iff (garbled : Garbled row found) : Arrowless row ↔ Arrowless found := by
  cases garbled with
  | nil | same => exact Iff.rfl
  | @broken _ parts _ _ some ordinary =>
    obtain ⟨first, parts, rfl⟩ := exists_cons_of_ne_nil some
    exact iff_of_true (arrowless_cons nofun) (arrowless_cons (ordinary first (.head _)).2)

theorem exists_arrow (arrow : ¬ Arrowless row) : ∃ rest, row = .mark .arrow :: rest := by
  unfold Arrowless at arrow
  match row with
  | [] => exact absurd nofun arrow
  | first :: rest =>
    rw [not_not, head?_cons, Option.some.injEq] at arrow
    exact ⟨rest, by rw [arrow]⟩

theorem unbound_other {token : Token} (other : token.isWord = false)
    (frames : List (Option String)) :
    ∃ frames', ∀ rest, unbound frames (token :: rest) = unbound frames' rest := by
  cases token with
  | name word => cases other
  | number value | keyword word => exact ⟨frames, fun _ => rfl⟩
  | mark sign => cases sign <;> exact ⟨_, fun _ => rfl⟩

theorem unbound_passives {frames : List (Option String)} {parts rest : List Token}
    (passive : ∀ token ∈ parts, token.isPassive = true) :
    unbound frames (parts ++ rest) = unbound frames rest := by
  induction parts with
  | nil => rfl
  | cons token parts ih =>
    rw [forall_mem_cons] at passive
    rw [cons_append, unbound_passive passive.1, ih passive.2]

/-- The walk over garbled tokens finds no other names. -/
theorem unbound_subset (garbled : Garbled row found) (frames : List (Option String)) :
    unbound frames found ⊆ unbound frames row := by
  induction garbled generalizing frames with
  | nil => exact fun _ => id
  | @same token row found later ih =>
    by_cases named : token.isWord = true
    · obtain ⟨word, rfl⟩ : ∃ word, token = .name word := by
        cases token with
        | name word => exact ⟨word, rfl⟩
        | _ => cases named
      by_cases arrowless : Arrowless row
      · rw [unbound_name word arrowless, unbound_name word (later.arrowless_iff.mp arrowless)]
        exact append_subset.mpr ⟨subset_append_left _ _,
          subset_append_of_subset_right _ (ih frames)⟩
      · obtain ⟨row, rfl⟩ := exists_arrow arrowless
        obtain ⟨found, rfl⟩ := exists_arrow (mt later.arrowless_iff.mpr arrowless)
        -- the arrow itself is passed over, so the statement about what starts with it applies
        exact ih (some word :: frames.tail)
    · obtain ⟨frames', moves⟩ := unbound_other (Bool.eq_false_iff.mpr named) frames
      rw [moves, moves]
      exact ih frames'
  | @broken word parts row found some ordinary arrowless later ih =>
    rw [unbound_passives fun token member => (ordinary token member).1, unbound_name word arrowless]
    exact subset_append_of_subset_right _ (ih frames)

end Garbled

/-- The tokens found in the text of a row are its own, up to names that were taken apart. -/
theorem garbled_of_finds (spaced : Spaced row) {found : List Token}
    (finds : Finds (pieceChars row) found) (chain : found.IsChain Neighbours) :
    Garbled (piecesTokens row) found := by
  induction spaced generalizing found with
  | nil =>
    cases finds.nil
    exact .nil
  | blank _ ih => exact ih (Finds.blank finds) chain
  | @token token row spelled ends later ih =>
    obtain ⟨more, rfl, following⟩ := Finds.token spelled ends finds
    exact .same token (ih following chain.tail)
  | @name word row identifier stops later ih =>
    obtain ⟨parts, more, fragments, rfl, following⟩ :=
      fragments_of_finds (isIdentifierRest_of_isIdentifier identifier) stops finds
    obtain ⟨first, second, beside⟩ := isChain_append.mp chain
    have garbled := ih following second
    rw [namePiece, piecesTokens_token]
    by_cases named : ∃ token ∈ parts, token.isWord = true
    · obtain ⟨token, member, isWord⟩ := named
      rw [fragments.name_alone first member isWord, String.ofList_toList]
      exact .same (.name word) garbled
    · have unnamed : ∀ token ∈ parts, token.isWord = false := fun token member =>
        Bool.eq_false_iff.mpr fun isWord => named ⟨token, member, isWord⟩
      have some : parts ≠ [] := by
        rintro rfl
        unfold isIdentifier at identifier
        rw [fragments.eq_nil] at identifier
        cases identifier
      refine .broken word some (fun token member =>
        fragments.ordinary token member (unnamed token member)) ?_ garbled
      -- an arrow after the fragments would have a name before it
      rw [garbled.arrowless_iff]
      intro arrow
      have last := getLast?_eq_some_getLast some
      have before := (beside _ last _ arrow).2 rfl
      rw [unnamed _ (getLast_mem some)] at before
      cases before

/-! ## Whole texts -/

theorem Spaced.nonempty {piece : Piece} (spaced : Spaced (piece :: row)) :
    pieceChars (piece :: row) ≠ [] := by
  cases spaced with
  | blank => exact cons_ne_nil _ _
  | token spelled => exact append_ne_nil_of_left_ne_nil (visible_spelling spelled.spells).1 _
  | @name word _ identifier =>
    refine append_ne_nil_of_left_ne_nil (fun none => ?_) _
    simp only [Piece.text, namePiece, Token.text] at none
    unfold isIdentifier at identifier
    rw [none] at identifier
    cases identifier

theorem visible_last (inside : ∀ c ∈ text, isBlank c = false)
    (after : ∀ c ∈ rest.getLast?, isBlank c = false) :
    ∀ c ∈ (text ++ rest).getLast?, isBlank c = false := by
  intro c last
  cases rest with
  | nil =>
    rw [append_nil] at last
    exact inside c (mem_of_getLast? last)
  | cons next rest =>
    rw [getLast?_append_of_ne_nil _ (cons_ne_nil next rest)] at last
    exact after c last

/-- The text of a row does not end with a blank. -/
theorem Spaced.last {row : List Piece} (spaced : Spaced row) :
    ∀ c ∈ (pieceChars row).getLast?, isBlank c = false := by
  induction spaced with
  | nil => exact nofun
  | blank later ih =>
    intro c last
    refine ih c ?_
    rw [pieceChars_cons, getLast?_append_of_ne_nil _ later.nonempty] at last
    exact last
  | token spelled _ _ ih => exact visible_last (visible_spelling spelled.spells).2 ih
  | name identifier _ _ ih =>
    refine visible_last (fun c member => ?_) ih
    exact isBlank_of_isIdentifierRest (isIdentifierRest_of_isIdentifier identifier c member)

theorem dropBlanksRight_of_last (last : ∀ c ∈ text.getLast?, isBlank c = false) :
    dropBlanksRight text = text := by
  rcases eq_nil_or_concat text with rfl | ⟨more, c, rfl⟩
  · rfl
  · rw [concat_eq_append] at last ⊢
    exact dropBlanksRight_of_visible (last c (by simp))

/-- A program that is parsed from the text of a row is parsed from its tokens, up to names that were
taken apart. -/
theorem garbled_of_parse (spaced : Spaced row) {program : Expr}
    (parsed : parse (piecesText row) = .ok program) :
    ∃ found, parseTokens found = .ok program ∧ Garbled (piecesTokens row) found := by
  unfold parse at parsed
  split at parsed
  · cases parsed
  · obtain ⟨found, scanned, parsed⟩ := ok_of_bind parsed
    obtain ⟨tidy, -⟩ := walk_of_parseTokens parsed
    unfold tokens at scanned
    rw [toList_piecesText, dropBlanksRight_of_last spaced.last] at scanned
    exact ⟨found, parsed, garbled_of_finds spaced ⟨0, scanned⟩ tidy.chain⟩

/-- A program that is parsed from the text of a row looks up no other names than those that the walk
over the row finds. -/
theorem names_of_parse (spaced : Spaced row) {program : Expr}
    (parsed : parse (piecesText row) = .ok program) :
    program.namesOutside [] ⊆ unbound [] (piecesTokens row) := by
  obtain ⟨found, parsed, garbled⟩ := garbled_of_parse spaced parsed
  rw [← (walk_of_parseTokens parsed).2]
  exact garbled.unbound_subset []

end Program

end Grapher
