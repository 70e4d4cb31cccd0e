import Grapher.Proofs.Decimal.Extent
import Grapher.Proofs.Markup.Tokens
import Grapher.Proofs.Text.Classes

/-!
# The lexemes of markup

What the scanner makes of a text is followed route by route once (`lexes_lexeme`): single letters and
runs of letters, names set by a command, Greek letters, signs and numerals. Each lexeme spans at least
one character, so the walk over a text takes one lexeme off its front after the other (`scan_step`),
and its tokens hold what they should. Where no lexeme is recognised, the scanner names the character,
the command or the missing group. Only a digit sign or a letter beyond ASCII stops it in another way.
-/

set_option autoImplicit false

namespace Grapher.Markup

open List

variable {c : Char} {text rest tail run : List Char} {position least used n first last : Nat}
  {token : Token} {found : Lexeme} {reason : ParseError} {located : List Located} {stray : Prop}

/-- A refusal, or the report of a sign that is not an ASCII character of the text. -/
def IsReported (text : List Char) (reason : ParseError) : Prop :=
  reason.isRefusal = true ∨ reason = .foreignSign ∧ ∃ c ∈ text, 128 ≤ c.toNat

theorem IsReported.mono {longer : List Char} (reported : IsReported text reason)
    (inside : ∀ c ∈ text, 128 ≤ c.toNat → c ∈ longer) : IsReported longer reason := by
  rcases reported with refusal | ⟨foreign, c, member, large⟩
  · exact .inl refusal
  · exact .inr ⟨foreign, c, inside c member large, large⟩

variable (stray) in
/-- All tokens of a row are such as the scanner makes them. -/
abbrev AllScanned (tokens : List Located) : Prop :=
  ∀ located ∈ tokens, located.token.Scanned stray

/-- Places one behind the other, from a place on and before another. -/
structure Ascends (first last : Nat) (places : List Nat) : Prop where
  increasing : places.Pairwise (· < ·)
  inside : ∀ place ∈ places, first ≤ place ∧ place < last

namespace Ascends

theorem nil : Ascends first last [] :=
  ⟨.nil, forall_mem_nil _⟩

theorem singleton (less : first < last) : Ascends first last [first] :=
  ⟨pairwise_singleton _ _, forall_mem_singleton.mpr ⟨Nat.le_refl _, less⟩⟩

theorem append {middle lower : Nat} {places more : List Nat} (front : Ascends first middle places)
    (back : Ascends lower last more) (above : first ≤ lower) (apart : middle ≤ lower)
    (below : middle ≤ last) : Ascends first last (places ++ more) where
  increasing := pairwise_append.mpr ⟨front.increasing, back.increasing, fun place early other late =>
    (front.inside place early).2.trans_le (apart.trans (back.inside other late).1)⟩
  inside := forall_mem_append.mpr
    ⟨fun place early => (front.inside place early).imp_right fun less => less.trans_le below,
      fun place late => (back.inside place late).imp_left above.trans⟩

theorem mono {further : Nat} {places : List Nat} (order : Ascends first last places)
    (less : last ≤ further) : Ascends first further places :=
  ⟨order.increasing, fun place member => (order.inside place member).imp_right less.trans_lt'⟩

end Ascends

/-- A token further on in the text. -/
def Located.shift (n : Nat) (located : Located) : Located :=
  ⟨located.token, located.position + n⟩

/-- The tokens of a lexeme further on in the text. -/
def shiftLexeme (n : Nat) (found : Lexeme) : Lexeme :=
  (found.1.map (·.shift n), found.2)

/-- What the scanner makes of the start of a text, and of the same text further on: a lexeme of more
than some length with tokens in their order, or a report. -/
inductive Lexes (stray : Prop) (text : List Char) (least position n : Nat) :
    Except ParseError Lexeme → Except ParseError Lexeme → Prop where
  | ok {found : Lexeme} (scanned : AllScanned stray found.1) (long : least < found.2)
      (placed : Ascends position (position + min found.2 text.length) (found.1.map (·.position))) :
      Lexes stray text least position n (.ok found) (.ok (shiftLexeme n found))
  | error {reason moved : ParseError} (reported : IsReported text reason) :
      Lexes stray text least position n (.error reason) (.error moved)

namespace Lexes

theorem none (long : least < used) :
    Lexes stray text least position n (.ok ([], used)) (.ok ([], used)) :=
  @ok _ _ _ _ _ ([], used) (forall_mem_nil _) long .nil

theorem one (scanned : token.Scanned stray) (long : least < used) :
    Lexes stray (c :: tail) least position n (.ok ([⟨token, position⟩], used))
      (.ok ([⟨token, position + n⟩], used)) := by
  refine @ok _ _ _ _ _ ([_], used) (forall_mem_singleton.mpr scanned) long (.singleton ?_)
  exact Nat.lt_add_of_pos_right (Nat.lt_min.mpr ⟨Nat.zero_lt_of_lt long, Nat.succ_pos _⟩)

theorem refused {moved : ParseError} (refusal : reason.isRefusal = true) :
    Lexes stray text least position n (.error reason) (.error moved) :=
  .error (.inl refusal)

theorem mono {shorter : Nat} {outcome moved : Except ParseError Lexeme}
    (lexes : Lexes stray text least position n outcome moved) (less : shorter ≤ least) :
    Lexes stray text shorter position n outcome moved := by
  cases lexes with
  | ok scanned long placed => exact .ok scanned (less.trans_lt long) placed
  | error reported => exact .error reported

theorem length {moved : Except ParseError Lexeme}
    (lexes : Lexes stray text least position n (.ok found) moved) : least < found.2 := by
  cases lexes with
  | ok scanned long placed => exact long

end Lexes

/-! ## Runs of letters -/

theorem allScanned_splitRun (letters : ∀ c ∈ run, c.isAlpha = true) (skip position : Nat) :
    AllScanned stray (splitRun skip position run) := by
  induction run generalizing skip position with
  | nil => exact forall_mem_nil _
  | cons c rest ih =>
    have later := ih fun other member => letters other (.tail _ member)
    cases skip with
    | succ skip => exact later skip (position + 1)
    | zero =>
      rw [splitRun]
      split
      · exact forall_mem_cons.mpr ⟨scanned_splitToken _, later _ _⟩
      · refine forall_mem_cons.mpr ⟨⟨word_of_all ?_ ?_, rfl⟩, later _ _⟩
        · intro empty
          have chars := congrArg String.toList empty
          simp at chars
        · simpa using isNameChar_of_isAlpha (letters c (.head _))

theorem ascends_splitRun (skip position : Nat) (run : List Char) :
    Ascends (position + skip) (position + run.length)
      ((splitRun skip position run).map (·.position)) := by
  induction run generalizing skip position with
  | nil => exact .nil
  | cons c rest ih =>
    cases skip with
    | succ skip =>
      have later := ih skip (position + 1)
      rwa [Nat.add_right_comm, Nat.add_right_comm _ 1] at later
    | zero =>
      have here : ∀ (token : Token) (skip : Nat), Ascends position (position + (rest.length + 1))
          ((⟨token, position⟩ :: splitRun skip (position + 1) rest).map (·.position)) := by
        intro token skip
        have later := ih skip (position + 1)
        rw [Nat.add_right_comm _ 1 rest.length] at later
        exact (Ascends.singleton (Nat.lt_succ_self position)).append later (by omega) (by omega)
          (by omega)
      rw [splitRun]
      split
      · exact here _ _
      · exact here _ _

theorem splitRun_shift (n skip position : Nat) (run : List Char) :
    splitRun skip (position + n) run = (splitRun skip position run).map (·.shift n) := by
  induction run generalizing skip position with
  | nil => rfl
  | cons c run ih =>
    cases skip with
    | succ skip => rw [splitRun, splitRun, Nat.add_right_comm, ih]
    | zero =>
      rw [splitRun, splitRun]
      split
      · rw [Nat.add_right_comm, ih]
        rfl
      · rw [Nat.add_right_comm, ih]
        rfl

theorem joinSubscript_cons (rest : List Char) (first second : Located) (more : List Located) :
    joinSubscript rest (first :: second :: more)
      = (first :: (joinSubscript rest (second :: more)).1,
        (joinSubscript rest (second :: more)).2) := by
  rw [joinSubscript]
  all_goals simp

theorem joinSubscript_shift (n : Nat) (rest : List Char) (tokens : List Located) :
    joinSubscript rest (tokens.map (·.shift n)) = shiftLexeme n (joinSubscript rest tokens) := by
  induction tokens with
  | nil => rfl
  | cons first more ih =>
    obtain ⟨token, position⟩ := first
    cases more with
    | nil => cases token <;> rfl
    | cons second more =>
      rw [map_cons] at ih
      rw [map_cons, map_cons, joinSubscript_cons, joinSubscript_cons, ih]
      rfl

/-- A row stays as it is, or its last name gets the subscript. -/
theorem joinSubscript_cases (rest : List Char) (row : List Located) :
    joinSubscript rest row = (row, 0) ∨
      ∃ front name position, row = front ++ [⟨.name name, position⟩] ∧ joinSubscript rest row
        = (front ++ [⟨.name (withSubscript name rest).1, position⟩], (withSubscript name rest).2) := by
  induction row with
  | nil => exact .inl rfl
  | cons first more ih =>
    obtain ⟨token, position⟩ := first
    cases more with
    | nil =>
      cases token with
      | name name => exact .inr ⟨[], name, position, rfl, rfl⟩
      | _ => exact .inl rfl
    | cons second more =>
      rw [joinSubscript_cons]
      rcases ih with same | ⟨front, name, place, shape, same⟩
      · exact .inl (by rw [same])
      · exact .inr ⟨_ :: front, name, place, congrArg _ shape, by rw [same]; rfl⟩

theorem lettersLexeme_shift (n position : Nat) (run rest : List Char) :
    lettersLexeme (position + n) run rest = shiftLexeme n (lettersLexeme position run rest) := by
  unfold lettersLexeme
  rw [splitRun_shift, joinSubscript_shift]
  split
  · rfl
  · dsimp only
    split <;> rfl

theorem allScanned_joinSubscript (strays : HasStray rest → stray) {row : List Located}
    (all : AllScanned stray row) : AllScanned stray (joinSubscript rest row).1 := by
  rcases joinSubscript_cases rest row with same | ⟨front, name, place, rfl, same⟩
  · rwa [same]
  · obtain ⟨early, last⟩ := forall_mem_append.mp all
    have word := word_withSubscript (forall_mem_singleton.mp last).isOf strays
    rw [same]
    exact forall_mem_append.mpr ⟨early, forall_mem_singleton.mpr ⟨word, rfl⟩⟩

theorem positions_joinSubscript (rest : List Char) (row : List Located) :
    (joinSubscript rest row).1.map (·.position) = row.map (·.position) := by
  rcases joinSubscript_cases rest row with same | ⟨front, name, place, rfl, same⟩
  · rw [same]
  · rw [same, map_append, map_append]
    rfl

theorem length_lettersLexeme (position : Nat) (run rest : List Char) :
    run.length ≤ (lettersLexeme position run rest).2 := by
  unfold lettersLexeme
  split
  · exact Nat.le_refl _
  · dsimp only
    split
    · exact Nat.le_add_right_of_le (Nat.le_add_right _ _)
    · exact Nat.le_add_right _ _

theorem lexes_lettersLexeme (letters : ∀ d ∈ c :: run, d.isAlpha = true) (position n : Nat)
    (strays : HasStray rest → stray) :
    Lexes stray (c :: (run ++ rest)) run.length position n
      (.ok (lettersLexeme position (c :: run) rest))
      (.ok (lettersLexeme (position + n) (c :: run) rest)) := by
  rw [lettersLexeme_shift]
  unfold lettersLexeme
  split
  · next found => exact .one (scanned_wholeWord found) (Nat.lt_succ_self _)
  · dsimp only
    split
    · next script found =>
      refine .one ⟨word_of_all ?_ ?_, rfl⟩ (Nat.lt_add_right _ (Nat.lt_add_right _ (Nat.lt_succ_self _)))
      · intro empty
        have chars := congrArg String.toList empty
        simp at chars
      · split at found
        · rw [String.toList_ofList, all_eq_true]
          exact forall_mem_append.mpr ⟨fun d member => isNameChar_of_isAlpha (letters d member),
            forall_mem_cons.mpr ⟨rfl, isNameChar_of_runSubscript found⟩⟩
        · cases found
    · refine .ok (allScanned_joinSubscript strays (allScanned_splitRun letters 0 position)) ?_ ?_
      · exact Nat.lt_add_right _ (Nat.lt_succ_self _)
      · rw [positions_joinSubscript]
        refine (ascends_splitRun 0 position (c :: run)).mono ?_
        simp only [length_cons, length_append]
        omega

/-! ## Commands and signs -/

theorem lexes_nameLexeme (position n : Nat) (long : least < used)
    (strays : HasStray rest → stray) :
    Lexes stray (c :: tail) least position n (nameLexeme position used rest)
      (nameLexeme (position + n) used rest) := by
  unfold nameLexeme
  split
  · exact .refused rfl
  · next content groupLength _ =>
    have longer : least < used + groupLength := Nat.lt_add_right _ long
    dsimp only
    split
    · exact .none longer
    · next some =>
      split
      · next function => exact .one (scanned_function function) longer
      · exact .one (scanned_of_isTabled rfl) longer
      · split
        · exact .one (scanned_of_isTabled (by decide)) longer
        · refine .one ⟨word_withSubscript (word_of_all ?_ ?_) fun has => strays ?_, rfl⟩
            (Nat.lt_add_right _ longer)
          · exact fun empty => some (beq_iff_eq.mpr empty)
          · simp
          · exact take_append_drop groupLength rest ▸ has.append _

theorem lexes_wordCommand (position n : Nat) (name : String) (strays : HasStray rest → stray) :
    Lexes stray (c :: tail) name.length position n (wordCommand position name rest)
      (wordCommand (position + n) name rest) := by
  have long := Nat.lt_succ_self name.length
  unfold wordCommand
  split
  · exact .none (Nat.lt_add_right _ long)
  · split
    · exact lexes_nameLexeme position n long strays
    · split
      · next token => exact .one (scanned_lookup (by decide) token) long
      · split
        · next function => exact .one (scanned_function function) long
        · split
          · next greek =>
            exact .one ⟨word_withSubscript (word_greek greek) strays, rfl⟩ (Nat.lt_add_right _ long)
          · exact .refused rfl

theorem lexes_commandLexeme (position n : Nat) (strays : HasStray rest → stray) :
    Lexes stray (c :: tail) 0 position n (commandLexeme position rest)
      (commandLexeme (position + n) rest) := by
  have bracket : ∀ token : Token, token.isTabled = true →
      Lexes stray (c :: tail) 0 position n (.ok ([⟨token, position⟩], 2))
        (.ok ([⟨token, position + n⟩], 2)) :=
    fun token tabled => .one (scanned_of_isTabled tabled) (Nat.succ_pos 1)
  unfold commandLexeme
  dsimp only
  split
  · split
    · exact .none (Nat.succ_pos 1)
    · split
      · exact .none (Nat.succ_pos 1)
      · split
        · exact bracket _ rfl
        · split
          · exact bracket _ rfl
          · split
            · exact bracket _ rfl
            · exact .refused rfl
  · refine (lexes_wordCommand position n _ fun has => strays ?_).mono (Nat.zero_le _)
    exact take_append_drop _ rest ▸ has.append _

theorem lexes_signLexeme (position n : Nat) (c : Char) (rest : List Char) :
    Lexes stray (c :: rest) 0 position n (signLexeme position c rest)
      (signLexeme (position + n) c rest) := by
  unfold signLexeme
  dsimp only
  split
  · exact .one (scanned_of_isTabled rfl) (Nat.succ_pos 1)
  · split
    · next token => exact .one (scanned_lookup (by decide) token) (Nat.succ_pos 0)
    · exact .refused rfl

/-! ## Numerals and letters -/

theorem isDecimal_of_isDigitSign (small : c.toNat < 128) (sign : Text.isDigitSign c = true) :
    Text.isDecimal c = true :=
  @Text.forall_ascii (fun c => Text.isDigitSign c = true → Text.isDecimal c = true) (by decide) c
    small sign

theorem isAlpha_of_isLetter (small : c.toNat < 128) (letter : Text.isLetter c = true) :
    c.isAlpha = true :=
  @Text.forall_ascii (fun c => Text.isLetter c = true → c.isAlpha = true) (by decide) c small letter

/-- Where a numeral seems to start one does, unless a digit sign is not of ASCII. -/
theorem lexes_numberLexeme (position n : Nat) (starts : startsNumeral c rest = true) :
    Lexes stray (c :: rest) 0 position n (numberLexeme position (c :: rest))
      (numberLexeme (position + n) (c :: rest)) := by
  unfold numberLexeme
  split
  · next decimal after scanned =>
    obtain ⟨taken, shape, shows, -⟩ := Decimal.plain_of_scanPlain? scanned
    refine .one ⟨⟨decimal, rfl⟩, rfl⟩ ?_
    have positive := length_pos_iff.mpr shows.chars.1
    simp only [shape, length_append]
    omega
  · next missing =>
    refine .error (.inr ⟨rfl, ?_⟩)
    have nowhere : ¬(Decimal.scanPlain? (c :: rest)).isSome = true := by
      rw [missing]
      exact Bool.false_ne_true
    simp only [startsNumeral, Bool.or_eq_true, Bool.and_eq_true, beq_iff_eq] at starts
    rcases starts with digit | ⟨rfl, digit⟩
    · refine ⟨c, .head _, Nat.le_of_not_lt fun small => nowhere ?_⟩
      exact Decimal.isSome_scanPlain?_digit (isDecimal_of_isDigitSign small digit)
    · cases rest with
      | nil => cases digit
      | cons d rest =>
        refine ⟨d, .tail _ (.head _), Nat.le_of_not_lt fun small => nowhere ?_⟩
        exact Decimal.isSome_scanPlain?_point (isDecimal_of_isDigitSign small digit)

/-! ## The walk -/

/-- A lexeme spans at least one character. -/
theorem lexes_lexeme (position n : Nat) (strays : HasStray (c :: rest) → stray) :
    Lexes stray (c :: rest) 0 position n (lexeme position c rest) (lexeme (position + n) c rest) := by
  unfold lexeme
  split
  · exact .none (Nat.succ_pos 0)
  · split
    · exact lexes_commandLexeme position n fun has => strays (has.append [c])
    · split
      · next starts => exact lexes_numberLexeme position n starts
      · split
        · next letter =>
          split
          · next alpha =>
            have letters : ∀ d ∈ c :: rest.takeWhile Char.isAlpha, d.isAlpha = true :=
              forall_mem_cons.mpr ⟨alpha, all_eq_true.mp all_takeWhile⟩
            have parts := prefix_iff_eq_append.mp (rest.takeWhile_prefix Char.isAlpha)
            have lexes := lexes_lettersLexeme letters position n fun has =>
              strays (congrArg (cons c) parts ▸ has.append (c :: _))
            rw [parts] at lexes
            rw [takeWhile_cons_of_pos alpha]
            exact lexes.mono (Nat.zero_le _)
          · next other =>
            refine .error (.inr ⟨rfl, c, .head _, Nat.le_of_not_lt fun small => other ?_⟩)
            exact isAlpha_of_isLetter small letter
        · split
          · next mark =>
            have some : 0 < ((c :: rest).takeWhile (· == '\'')).length := by
              simp only [takeWhile_cons, mark, if_true, length_cons]
              exact Nat.succ_pos _
            -- the count of a prime token is the length of its lexeme
            exact .one ⟨trivial, decide_eq_true some⟩ some
          · exact lexes_signLexeme position n c rest

theorem lexeme_length (same : lexeme position c rest = .ok found) : 0 < found.2 :=
  (same ▸ @lexes_lexeme c rest True position 0 fun _ => trivial).length

theorem scan_drop (skip position : Nat) (text : List Char) :
    scan skip position text = scan 0 (position + skip) (text.drop skip) := by
  induction text generalizing skip position with
  | nil => rw [drop_nil, scan, scan]
  | cons c rest ih =>
    cases skip with
    | zero => rfl
    | succ skip => rw [scan, ih, drop_succ_cons, Nat.add_right_comm, Nat.add_assoc]

/-- The walk takes one lexeme off the front of a text, and goes on behind it. -/
theorem scan_step (position : Nat) (c : Char) (rest : List Char) :
    scan 0 position (c :: rest) = (do
      let (found, used) ← lexeme position c rest
      let more ← scan 0 (position + used) ((c :: rest).drop used)
      .ok (found ++ more)) := by
  rw [scan]
  cases same : lexeme position c rest with
  | error reason => rfl
  | ok lexeme =>
    obtain ⟨found, used⟩ := lexeme
    obtain ⟨less, rfl⟩ : ∃ less, used = less + 1 := ⟨used - 1, by have := lexeme_length same; omega⟩
    dsimp only [bind, Except.bind]
    rw [Nat.add_sub_cancel, scan_drop, drop_succ_cons, Nat.add_assoc, Nat.add_comm 1]

/-- The scanner makes a row of tokens of a text, in their order, or a report about it. -/
theorem scan_cases (strays : HasStray text → stray) (skip position : Nat) :
    (∃ located, scan skip position text = .ok located ∧ AllScanned stray located ∧
      Ascends (position + skip) (position + text.length) (located.map (·.position))) ∨
      ∃ reason, scan skip position text = .error reason ∧ IsReported text reason := by
  induction text generalizing skip position with
  | nil => exact .inl ⟨[], rfl, forall_mem_nil _, .nil⟩
  | cons c rest ih =>
    have inside : ∀ d ∈ rest, 128 ≤ d.toNat → d ∈ c :: rest := fun d member _ => .tail _ member
    have later := ih fun has => strays (has.append [c])
    cases skip with
    | succ skip =>
      have moved := later skip (position + 1)
      rw [Nat.add_right_comm, Nat.add_right_comm _ 1] at moved
      exact moved.imp_right fun ⟨reason, same, reported⟩ => ⟨reason, same, reported.mono inside⟩
    | zero =>
      have lexes := lexes_lexeme position 1 strays
      rw [scan]
      generalize lexeme position c rest = outcome, lexeme (position + 1) c rest = moved at lexes ⊢
      cases lexes with
      | error reported => exact .inr ⟨_, rfl, reported⟩
      | @ok found tokens long placed =>
        rcases later (found.2 - 1) (position + 1) with ⟨more, same, all, order⟩ |
          ⟨reason, same, reported⟩
        · refine .inl ⟨found.1 ++ more, ?_, forall_mem_append.mpr ⟨tokens, all⟩, ?_⟩
          · simp only [bind, Except.bind, same]
          · rw [Nat.add_right_comm _ 1 rest.length] at order
            rw [map_append]
            exact placed.append order (by omega) (by omega) (by rw [length_cons]; omega)
        · refine .inr ⟨reason, ?_, reported.mono inside⟩
          simp only [bind, Except.bind, same]

theorem allScanned_scan {skip : Nat} (found : scan skip position text = .ok located)
    (strays : HasStray text → stray) : AllScanned stray located := by
  rcases scan_cases strays skip position with ⟨row, same, all, -⟩ | ⟨reason, same, -⟩
  · cases same.symm.trans found
    exact all
  · cases same.symm.trans found

/-- All tokens of a text are of the kinds that the scanner makes. -/
theorem admitted_scan {skip : Nat} (found : scan skip position text = .ok located) :
    Admitted scannedKinds located :=
  fun entry member => (allScanned_scan found (fun _ => trivial) entry member).isOf

theorem supplied_scannedKinds : Supplied scannedKinds where
  one := ⟨⟨1, 0⟩, by decide +kernel⟩
  letter := word_of_all (by decide) (by decide)
  base := word_of_all (by decide) (by decide)

/-- The tree of a text is formed, of the numbers and names that the scanner makes. -/
theorem formed_of_parse {text : String} {node : Node} (parsed : parse text = .ok node) :
    Formed scannedKinds node := by
  obtain ⟨located, scanned, parsed⟩ := parse_eq_ok_iff.mp parsed
  exact formed_of_parseTokens supplied_scannedKinds (admitted_scan scanned) parsed

end Grapher.Markup
