import Grapher.Proofs.Markup.Scanning

/-!
# Written markup is parsed back

The tokens of a text that writes a tree are a phrase for that tree: the induction on how the tree is
written takes the tokens of each part from the scanner and hands them to the production of the
grammar. A part is shielded by its braces on both sides, from the lexemes around it and from the
context of the parser, so no part has to know where it stands. Since a whole text of tokens is
parsed to its end, every written text is parsed to the tree that it writes.
-/

set_option autoImplicit false

namespace Grapher.Markup

variable {mark : List Char} {parts : List Part} {node : Node}

/-- No character makes the last lexeme longer. -/
def nothing (_ : Char) : Bool := false

/-- Any character but a closing brace. -/
def inside (c : Char) : Bool := c != '\x7d'

namespace Scans

variable {s t : List Char} {grows : Char → Bool} {good left right : List Located → Prop}

/-- A text with an end of its own stands in front of anything. -/
theorem next (first : Scans s nothing left) (second : Scans t grows right) :
    Scans (s ++ t) grows (Then left right) :=
  first.append second fun _ _ _ _ => rfl

/-- A text stands in front of one that starts with a character that ends it. -/
theorem before {c : Char} {less : Char → Bool} (first : Scans s less left)
    (second : Scans (c :: t) grows right) (stops : less c = false) :
    Scans (s ++ c :: t) grows (Then left right) :=
  first.append second fun rest _ => .cons stops (t ++ rest)

theorem imp (scans : Scans s grows left) (better : ∀ row, left row → good row) :
    Scans s grows good :=
  scans.weaken (fun _ => id) better

/-- A text can end at a closing brace. -/
theorem closing (scans : Scans s grows left) (stops : grows '\x7d' = false)
    (better : ∀ row, left row → good row) : Scans s inside good := by
  refine scans.weaken (fun c grown => ?_) better
  rw [inside, bne_iff_ne]
  rintro rfl
  rw [stops] at grown
  cases grown

/-- A sign of one character that no second one joins. -/
theorem sign {c : Char} {token : Token} (known : singleTokens.lookup c = some token)
    (alone : ∀ d, doubles c d = false) : Scans [c] nothing (Is token) := by
  refine (scans_single known).weaken (fun d double => ?_) fun _ => id
  rw [alone d] at double
  cases double

end Scans

/-! ## Parts in braces -/

theorem scans_braced {text : List Char} (scans : Scans text inside (Phrase .or node)) :
    Scans (braced text) nothing (Braced node) := by
  have opens : Scans ['\x7b'] nothing (Is .braceOpen) := .sign rfl fun _ => rfl
  have closes : Scans ['\x7d'] nothing (Is .braceClose) := .sign rfl fun _ => rfl
  refine (opens.next (scans.before closes rfl)).imp ?_
  rintro _ ⟨_, _, ⟨opened, rfl⟩, ⟨row, _, phrase, ⟨closed, rfl⟩, rfl⟩, rfl⟩
  exact .intro phrase opened closed

/-- Parts that are scanned to their trees. -/
abbrev AllScan (parts : List Part) : Prop :=
  ∀ part ∈ parts, Scans part.2 inside (Phrase .or part.1)

theorem scans_followers {lead : List Located → Prop} (leads : Scans mark growsMark lead)
    (all : AllScan parts) : Scans (followers mark parts) nothing (Tail lead (trees parts)) := by
  induction parts with
  | nil => exact .empty nothing .nil
  | cons part parts ih =>
    have others := ih fun other member => all other (.tail _ member)
    have first := leads.before (scans_braced (all part (.head _))) rfl
    refine (first.next others).imp ?_
    rintro _ ⟨_, more, ⟨mark, row, lead, operand, rfl⟩, tail, rfl⟩
    rw [List.append_assoc]
    exact .cons lead operand tail

theorem scans_items (all : AllScan parts) :
    Scans (separated [','] parts) nothing (Items (trees parts)) := by
  have comma : Scans [','] growsMark (Is .comma) :=
    (Scans.sign rfl fun _ => rfl).weaken (fun _ => nofun) fun _ => id
  cases parts with
  | nil => exact .empty nothing .none
  | cons part parts =>
    have others := scans_followers comma fun other member => all other (.tail _ member)
    refine ((scans_braced (all part (.head _))).next others).imp ?_
    rintro _ ⟨row, more, start, tail, rfl⟩
    exact .some start tail

/-- Items between round brackets. -/
def Listed (nodes : List Node) (row : List Located) : Prop :=
  ∃ items opened closed, Items nodes items ∧ row = argumentRow items opened closed

theorem scans_listed (all : AllScan parts) :
    Scans (listed parts) nothing (Listed (trees parts)) := by
  have opens : Scans ['('] nothing (Is (.opening .round)) := .sign rfl fun _ => rfl
  have closes : Scans [')'] nothing (Is (.closing .round)) := .sign rfl fun _ => rfl
  refine (opens.next ((scans_items all).next closes)).imp ?_
  rintro _ ⟨_, _, ⟨opened, rfl⟩, ⟨items, _, list, ⟨closed, rfl⟩, rfl⟩, rfl⟩
  exact ⟨items, opened, closed, list, rfl⟩

/-! ## Written trees -/

theorem takesMany_of_joint {operator : Operator} (joint : Joint operator mark) :
    takesMany operator = true := by
  cases joint with
  | nothing => rfl
  | sign joins spelled => cases operator <;> first | rfl | cases joins

theorem scans_joint {operator : Operator} (joint : Joint operator mark) :
    Scans mark growsMark (JointRow operator) := by
  cases joint with
  | nothing => exact .empty growsMark .nothing
  | sign joins spelled =>
    refine (scans_spelling spelled).imp ?_
    rintro _ ⟨position, rfl⟩
    exact .sign joins position

/-- Whether a token is the letter for the natural base. -/
def Token.isBase : Token → Bool
  | .name text => text == "e"
  | _ => false

theorem ne_base_of_spelling {name : String} (spelled : Spelling (.name name) mark) :
    name ≠ "e" := by
  have commands : ∀ entry ∈ commandTokens, entry.2.isBase = false := by decide
  have singles : ∀ entry ∈ singleTokens, entry.2.isBase = false := by decide
  have other : Token.isBase (.name name) = false := by
    cases spelled with
    | command known => exact commands _ (Text.mem_of_lookup known)
    | single known => exact singles _ (Text.mem_of_lookup known)
  exact beq_eq_false_iff_ne.mp other

/-- The tokens of a written tree are a phrase for it. -/
theorem scans_writes {text : List Char} (writes : Writes node text) :
    Scans text inside (Phrase .or node) := by
  induction writes with
  | number numeral =>
    refine (scans_numeral numeral).closing rfl ?_
    rintro _ ⟨position, rfl⟩
    exact (phrase_number _ position).whole
  | symbol plain =>
    refine (scans_nameText plain).closing rfl ?_
    rintro _ ⟨position, rfl⟩
    exact (phrase_name plain.notBase position).whole
  | constant spelled =>
    refine (scans_spelling spelled).closing rfl ?_
    rintro _ ⟨position, rfl⟩
    exact (phrase_name (ne_base_of_spelling spelled) position).whole
  | @many operator mark parts joint count all ih =>
    match parts, count, ih with
    | part :: next :: parts, _, ih =>
      have others := scans_followers (scans_joint joint) fun other member => ih other (.tail _ member)
      refine ((scans_braced (ih part (.head _))).next others).closing rfl ?_
      rintro _ ⟨row, more, start, tail, rfl⟩
      exact phrase_many (takesMany_of_joint joint) start tail (List.cons_ne_nil _ _)
  | two joins spelled _ _ first second =>
    have later := (scans_spelling spelled).before (scans_braced second) rfl
    refine ((scans_braced first).next later).closing rfl ?_
    rintro _ ⟨row, _, left, ⟨_, more, ⟨position, rfl⟩, right, rfl⟩, rfl⟩
    exact phrase_two joins left position right
  | fraction spelled _ _ above below =>
    have both := (scans_braced above).next (scans_braced below)
    refine ((scans_spelling spelled).before both rfl).closing rfl ?_
    rintro _ ⟨_, _, ⟨position, rfl⟩, ⟨row, more, first, second, rfl⟩, rfl⟩
    exact (phrase_fraction position first second).whole
  | one leads spelled _ only =>
    refine ((scans_spelling spelled).before (scans_braced only) rfl).closing rfl ?_
    rintro _ ⟨_, row, ⟨position, rfl⟩, operand, rfl⟩
    exact phrase_one leads position operand
  | prime _ only =>
    refine ((scans_braced only).next scans_prime).closing rfl ?_
    rintro _ ⟨row, _, operand, ⟨position, rfl⟩, rfl⟩
    exact (phrase_prime operand position).whole
  | @call word function parts known _ ih =>
    refine ((scans_functionWord known).before (scans_listed ih) rfl).closing rfl ?_
    rintro _ ⟨_, _, ⟨position, rfl⟩, ⟨items, opened, closed, list, rfl⟩, rfl⟩
    exact (phrase_call word position opened closed list function).whole
  | @root word parts s index known _ _ ih indexed =>
    have opens : Scans ['['] nothing (Is (.opening .square)) := .sign rfl fun _ => rfl
    have closes : Scans [']'] nothing (Is (.closing .square)) := .sign rfl fun _ => rfl
    have bracket := opens.next ((scans_braced indexed).next (closes.next (scans_listed ih)))
    refine ((scans_functionWord known).before bracket rfl).closing rfl ?_
    rintro _ ⟨_, _, ⟨position, rfl⟩, ⟨_, _, ⟨opens, rfl⟩, ⟨inside, _, operand,
      ⟨_, _, ⟨closes, rfl⟩, ⟨items, opened, closed, list, rfl⟩, rfl⟩, rfl⟩, rfl⟩, rfl⟩
    have phrase := phrase_root word position opened closed operand list opens closes
    rw [List.cons_append, List.append_assoc] at phrase
    exact phrase.whole
  | @log word parts s base known _ _ ih based =>
    have lowers : Scans ['_'] nothing (Is (.sign .subscript)) := .sign rfl fun _ => rfl
    have script := lowers.next ((scans_braced based).next (scans_listed ih))
    refine ((scans_functionWord known).before script rfl).closing rfl ?_
    rintro _ ⟨_, _, ⟨position, rfl⟩, ⟨_, _, ⟨mark, rfl⟩, ⟨inside, _, operand,
      ⟨items, opened, closed, list, rfl⟩, rfl⟩, rfl⟩, rfl⟩
    exact (phrase_log word position opened closed operand list mark).whole
  | group _ ih =>
    refine (scans_listed ih).closing rfl ?_
    rintro _ ⟨items, opened, closed, list, rfl⟩
    exact (phrase_group list opened closed).whole
  | @integral mark s t u body lower upper name spelled _ _ _ plain low high middle =>
    have lowers : Scans ['_'] nothing (Is (.sign .subscript)) := .sign rfl fun _ => rfl
    have raises : Scans ['^'] nothing (Is (.sign .power)) := .sign rfl fun _ => rfl
    have differential := (@scans_nameText "d" (by constructor <;> decide)).before
      (scans_nameText plain) rfl
    have limits := lowers.next ((scans_braced low).next (raises.next ((scans_braced high).next
      ((scans_braced middle).next differential))))
    refine ((scans_spelling spelled).before limits rfl).closing rfl ?_
    rintro _ ⟨_, _, ⟨position, rfl⟩, ⟨_, _, ⟨below, rfl⟩, ⟨lowRow, _, first, ⟨_, _, ⟨above, rfl⟩,
      ⟨highRow, _, second, ⟨bodyRow, _, integrand, ⟨_, _, ⟨letter, rfl⟩, ⟨named, rfl⟩, rfl⟩, rfl⟩,
      rfl⟩, rfl⟩, rfl⟩, rfl⟩, rfl⟩
    exact (phrase_integral first second integrand name position below above letter named).whole

/-! ## Whole texts -/

theorem parseTokens_phrase {row : List Located} (phrase : Phrase .or node row) :
    parseTokens row = .ok node := by
  have some : row.isEmpty = false := by
    obtain ⟨first, more, rfl, -⟩ := phrase.starts
    rfl
  have ends : Ends .or .plain [] := .of_none rfl .or
  have enough : need .or row ≤ budgetFor row.length := by
    simp only [need, Level.index, budgetFor]
    omega
  have parsed := phrase.parses enough ends
  simp only [Level.parse, List.append_nil] at parsed
  simp only [parseTokens, some, Bool.false_eq_true, if_false, parsed, bind, Except.bind]

theorem parse_of_writes {node : Node} {text : String} (writes : Writes node text.toList) :
    parse text = .ok node := by
  have scans := scans_writes writes
  obtain ⟨row, phrase, found⟩ := scans.finds 0 [] .nil
  have scanned := found [] rfl
  rw [List.append_nil, List.append_nil] at scanned
  refine parse_eq_ok_iff.mpr ⟨row, ?_, parseTokens_phrase phrase⟩
  rw [prepared_of_clean scans.isClean]
  exact scanned

/-- The parser is complete: every tree of decimals and plain names that has the shape of a formula
can be written with its parts in braces, and every text that writes it so is parsed to it. -/
theorem parse_written {node : Node} (formed : Formed writtenKinds node) :
    (∃ text : String, Writes node text.toList) ∧
      ∀ text : String, Writes node text.toList → parse text = .ok node := by
  obtain ⟨text, writes⟩ := exists_writes formed
  exact ⟨⟨String.ofList text, by rwa [String.toList_ofList]⟩, fun _ => parse_of_writes⟩

/-- An integral times the prime of an empty group. -/
theorem parse_written_integral_prime :
    parse ("\x7b\\int_\x7b0\x7d^\x7b.5\x7d\x7b\\mathrm\x7bx\x7d\x7d\\mathrm\x7bd\x7d\\mathrm\x7bx\x7d\x7d" ++
      "\\cdot\x7b\x7b()\x7d'\x7d")
      = .ok (.of .multiply [integralTree (.symbol "x") "x" (.number (Decimal.toDouble false ⟨0, 0⟩))
          (.number (Decimal.toDouble false ⟨5, -1⟩)), .of .prime [.of .delimiter []]]) := by
  have plain : IsPlainName "x" := by constructor <;> decide
  have low : Numeral ['0'] ⟨0, 0⟩ := @Numeral.whole ['0'] (by decide) (by decide)
  have high : Numeral ['.', '5'] ⟨5, -1⟩ := @Numeral.point [] ['5'] (by decide) (by decide)
  have integral := Writes.integral (@Spelling.command .integral "int" rfl) (.number low)
    (.number high) (.symbol plain) plain
  have prime := Writes.prime (@Writes.group [] nofun)
  have product := @Writes.many .multiply _ [(_, _), (_, _)]
    (.sign rfl (@Spelling.command (.sign .times) "cdot" rfl)) (by decide)
    (forall_mem_pair integral prime)
  have factors : ∀ factor ∈ [integralTree (.symbol "x") "x"
      (.number (Decimal.toDouble false ⟨0, 0⟩)) (.number (Decimal.toDouble false ⟨5, -1⟩)),
      .of .prime [.of .delimiter []]], Formed writtenKinds factor :=
    forall_mem_pair (.integral plain (.symbol plain) (.number ⟨_, rfl⟩) (.number ⟨_, rfl⟩))
      (.one rfl .noItem)
  exact (parse_written (.many rfl (by decide) factors)).2 _ product

end Grapher.Markup
