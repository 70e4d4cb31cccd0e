import Grapher.Proofs.Markup.Refusal
import Grapher.Proofs.Markup.Tracking

/-!
# Derivatives at a group

A name with one prime in front of a group in brackets stands for the derivative of a function at the
items of the group. The program of a formula calls the derivative there, and writes its name nowhere
else on account of this prime (`text_of_marker`), unless the formula pulls the name and its group
apart: with an exponent at the group, or as the end of the bare argument of a function word, or in
a script that the tree does not keep (`text_of_split_marker`).
-/

set_option autoImplicit false

namespace Grapher

/-! ## Texts of calls -/

namespace Program

/-- The text of a call of a derivative. -/
def derivativeCall (function : String) (args : List String) : String :=
  derivativeName function ++ "(" ++ ", ".intercalate args ++ ")"

/-- A text with copies of another one in it: something in front, and behind each copy something
more. -/
def withCopies (front : String) (behind : List String) (copy : String) : String :=
  front ++ String.join (behind.map (copy ++ ·))

theorem piecesText_intercalate (separator : List Piece) (rows : List (List Piece)) :
    piecesText (separator.intercalate rows)
      = (piecesText separator).intercalate (rows.map piecesText) := by
  induction rows with
  | nil => rfl
  | cons row rows ih =>
    cases rows with
    | nil => simp
    | cons next rows =>
      rw [List.intercalate_cons_cons, piecesText_append, piecesText_append, ih, List.map_cons,
        List.map_cons, List.map_cons, String.intercalate_cons_cons]

/-- The text of a call. -/
def callText (name : String) (args : List String) : String :=
  name ++ "(" ++ ", ".intercalate args ++ ")"

theorem piecesText_call (name : String) (args : List (List Piece)) :
    piecesText (callPieces name args) = callText name (args.map piecesText) := by
  have row : callPieces name args = [namePiece name] ++ [markPiece .opening]
      ++ [markPiece .comma, .blank].intercalate args ++ [markPiece .closing] := rfl
  have word : piecesText [namePiece name] = name := by
    simp [piecesText, namePiece, Piece.text, Token.text]
  have opening : piecesText [markPiece .opening] = "(" := by decide
  have separator : piecesText [markPiece .comma, .blank] = ", " := by decide
  have closing : piecesText [markPiece .closing] = ")" := by decide
  rw [row, piecesText_append, piecesText_append, piecesText_append, piecesText_intercalate, word,
    opening, separator, closing, callText]

theorem piecesText_derivative (here function : String) (args : List Reading.Term) :
    piecesText (pieces here (.derivative function args))
      = derivativeCall function (args.map fun term => piecesText (pieces here term)) := by
  rw [pieces, piecesText_call, piecesArgs_eq_map, List.map_map]
  rfl

end Program

namespace Markup

open Reading Program

variable {m : Marker} {before : Rest} {name : String}

/-! ## Whole formulas -/

/-- A formula with a marker in it has trees for all names, if it has one for some name. -/
theorem grown_of_parseTokens (unraised : m.Unraised) (counted : Counted m.rest)
    (unattached : ¬ m.Attached before name) {tree : Node}
    (parsed : parseTokens (before ++ m.tokens name) = .ok tree) :
    ∃ found, Grown m.IsGroup found ∧ ∀ z, parseTokens (before ++ m.tokens z) = .ok (found z) := by
  obtain ⟨some, whole⟩ := parseTokens_eq_ok_iff.mp parsed
  rcases tracks unraised counted unattached (budgetFor (before ++ m.tokens name).length) .or .plain
    List.suffix_rfl with all | ⟨found, shorter, all⟩ | ⟨found, later, place, all⟩
  · obtain ⟨reason, refused⟩ := all name
    cases whole.symm.trans refused
  · have same := whole.symm.trans (all name)
    simp [Marker.tokens] at same
  · have same := whole.symm.trans (all name)
    injection same with same
    injection same with _ last
    subst last
    refine ⟨found, ?_, fun z => parseTokens_eq_ok_iff.mpr ⟨by simp [Marker.tokens], ?_⟩⟩
    · generalize none : ([] : Rest) = rest at place
      cases place with
      | prime holds => cases none
      | group holds => exact holds.elim
      | beyond shorter grown => exact grown
    · have length : (before ++ m.tokens z).length = (before ++ m.tokens name).length := by
        rw [List.length_append, List.length_append]
        rfl
      rw [length]
      exact all z

theorem Formed.sequence {kinds : Kinds} {node : Node} (formed : Formed kinds node) :
    node.isOperation .sequence = false := by
  cases formed with
  | many takes | two takes | one takes =>
    refine beq_eq_false_iff_ne.mpr ?_
    rintro rfl
    cases takes
  | _ => rfl

/-- The items of a group are what its brackets hold. -/
theorem items?_groupTree {kinds : Kinds} {items : List Node} (formed : AllFormed kinds items) :
    (groupTree items).items? = some items := by
  rcases items with _ | ⟨first, _ | ⟨second, items⟩⟩
  · rfl
  · exact items?_item (formed first (.head _)).sequence
  · rfl

theorem parseTokens_of_parse {text : String} {located : List Located} {tree : Node}
    (scanned : scan 0 0 (prepared text.toList) = .ok located) (parsed : parse text = .ok tree) :
    parseTokens located = .ok tree := by
  obtain ⟨other, same, parsed⟩ := parse_eq_ok_iff.mp parsed
  rw [scanned] at same
  cases same
  exact parsed

/-! ## The program of a formula -/

theorem texts_of_readAll {here : String} {items : List Node} {args : List Term}
    (read : ReadAll here items args) :
    List.Forall₂ (fun item text => textOf? here item = some text) items
      (args.map fun term => piecesText (pieces here term)) := by
  induction read with
  | nil => exact .nil
  | cons first _ ih => exact .cons (by rw [textOf?, first, Option.map_some]) ih

/-- The text of a family of trees that bears a name, if one of them has a text. -/
theorem Bears.texts {isGroup : List Node → Prop}
    (grouped : ∀ items, isGroup items → (groupTree items).items? = some items)
    {found : String → Node} (bears : Bears isGroup found) {here name : String}
    (written : textOf here (found name) ≠ "") :
    (programName? name).isSome = true ∧
    ∃ items args front behind, isGroup items ∧
      List.Forall₂ (fun item arg => textOf? here item = some arg) items args ∧ behind ≠ [] ∧
      ∀ other function, programName? other = some function →
        textOf here (found other) = withCopies front behind (derivativeCall function args) := by
  obtain ⟨term, read⟩ : ∃ term, read here (found name) = some term := by
    cases reading : read here (found name) with
    | none => exact absurd (by rw [textOf, textOf?, reading]; rfl) written
    | some term => exact ⟨term, rfl⟩
  obtain ⟨group, wrap, ⟨around, inserts, same⟩, all⟩ :=
    (bears.behaves grouped).reading name term read
  obtain ⟨front, behind, some, texts⟩ := inserts.text
  refine ⟨?_, group.items, _, front, behind, group.isGroup, texts_of_readAll group.read, some,
    fun other function named => ?_⟩
  · obtain ⟨function, named, -⟩ := Option.map_eq_some_iff.mp ((all name).symm.trans read)
    rw [named]
    rfl
  · have reading : Reading.read here (found other) = _ := all other
    rw [textOf, textOf?, reading, named, Option.map_some, Option.map_some, Option.getD_some, same,
      texts, piecesText_derivative]
    rfl

theorem Marker.unraised_of_mem {m : Marker}
    (unpowered : ∀ located ∈ m.rest, located.token ≠ .sign .power) : m.Unraised := by
  rintro budget mode items _ group position later rfl
  have shorter := suffix_parse (.items m.bracket) group
  exact unpowered _ (shorter.subset (.head _)) rfl

theorem Marker.unattached_of_mem {m : Marker} {before : Rest} {name : String}
    (wordless : ∀ located ∈ before, ∀ word function, located.token ≠ .function word function) :
    ¬ m.Attached before name := by
  rintro ⟨word, function, position, between, -, -, -, within, -⟩
  exact wordless _ (within.subset (.head _)) word function rfl

/-- Where a formula has a name with one prime in front of a group, its program calls the derivative
of the name on the items of the group, at one or more places (a middle term of a chain stands in two
links). This is all that comes of the prime: with another name in its place, the formula has the
same program with the derivative of that name in these calls. The group must not be raised to a
power, the bare argument of a function word must not end between the name and the group, and the
tree must keep the name. -/
theorem text_of_marker (m : Marker) (before : Rest) (name : String) {text here : String}
    {tree : Node}
    (scanned : scan 0 0 (prepared text.toList) = .ok (before ++ m.tokens name))
    (parsed : parse text = .ok tree) (written : textOf here tree ≠ "")
    (unraised : m.Unraised) (unattached : ¬ m.Attached before name)
    (kept : ∃ other,
      parseTokens (before ++ m.tokens other) ≠ parseTokens (before ++ m.tokens name)) :
    ∃ items args front behind, m.IsGroup items ∧
      List.Forall₂ (fun item arg => textOf? here item = some arg) items args ∧ behind ≠ [] ∧
      (∃ function, programName? name = some function ∧
        textOf here tree = withCopies front behind (derivativeCall function args)) ∧
      ∀ other function, programName? other = some function →
        ∃ tree', parseTokens (before ++ m.tokens other) = .ok tree' ∧
          textOf here tree' = withCopies front behind (derivativeCall function args) := by
  have suffix : m.rest <:+ before ++ m.tokens name := ⟨before ++ [_, _, _], by simp; rfl⟩
  have counted : Counted m.rest := by
    intro located member same
    have backed :=
      (allScanned_scan scanned (fun _ => trivial) located (suffix.subset member)).isBacked
    rw [same] at backed
    cases backed
  have grouped : ∀ items, m.IsGroup items → (groupTree items).items? = some items := by
    rintro items ⟨budget, mode, after, group⟩
    have admitted : Admitted scannedKinds m.rest :=
      fun located member => admitted_scan scanned located (suffix.subset member)
    obtain ⟨row, split, taken⟩ := takes_parse budget (.items m.bracket) mode m.rest items after group
    rw [split] at admitted
    refine items?_groupTree (formed_of_takes supplied_scannedKinds (taken 0) ?_)
    exact List.forall_mem_cons.mpr ⟨trivial, admitted.left⟩
  have whole := parseTokens_of_parse scanned parsed
  obtain ⟨found, grown, all⟩ := grown_of_parseTokens unraised counted unattached whole
  have bears : Bears m.IsGroup found := by
    rcases grown with bears | ⟨node, same⟩
    · exact bears
    · obtain ⟨other, differs⟩ := kept
      exact absurd (by rw [all, all, same, same]) differs
  obtain rfl : found name = tree := by
    have same := (all name).symm.trans whole
    injection same
  obtain ⟨named, items, args, front, behind, group, read, some, texts⟩ :=
    bears.texts grouped written
  obtain ⟨function, stands⟩ := Option.isSome_iff_exists.mp named
  exact ⟨items, args, front, behind, group, read, some, ⟨function, stands, texts _ _ stands⟩,
    fun other function named => ⟨found other, all other, texts other function named⟩⟩

/-- A call in the middle of a chain, next to a power. -/
theorem text_of_marker_chain :
    let m : Marker := ⟨4, 5, 6, .round, [⟨.name "x", 7⟩, ⟨.comma, 8⟩, ⟨.name "y", 9⟩,
      ⟨.closing .round, 10⟩, ⟨.sign (.relation .less), 11⟩, ⟨.name "z", 12⟩]⟩
    ∃ tree, parse "x^k<f'(x,y)<z" = .ok tree ∧
      textOf "x" tree = "(((x) ^ (k) < derivative_f(x, y)) and (derivative_f(x, y) < z))" ∧
      ∃ items args front behind, m.IsGroup items ∧
        List.Forall₂ (fun item arg => textOf? "x" item = some arg) items args ∧ behind ≠ [] ∧
        ∃ function, programName? "f" = some function ∧
          textOf "x" tree = withCopies front behind (derivativeCall function args) := by
  intro m
  let before : Rest :=
    [⟨.name "x", 0⟩, ⟨.sign .power, 1⟩, ⟨.name "k", 2⟩, ⟨.sign (.relation .less), 3⟩]
  have text : (parse "x^k<f'(x,y)<z").toOption.map (textOf "x")
      = some "(((x) ^ (k) < derivative_f(x, y)) and (derivative_f(x, y) < z))" := by decide +kernel
  have differ : (parseTokens (before ++ m.tokens "g")).toOption.map (textOf "x")
      ≠ (parseTokens (before ++ m.tokens "f")).toOption.map (textOf "x") := by decide +kernel
  cases parsed : parse "x^k<f'(x,y)<z" with
  | error reason =>
    rw [parsed] at text
    cases text
  | ok tree =>
    rw [parsed] at text
    have written : textOf "x" tree
        = "(((x) ^ (k) < derivative_f(x, y)) and (derivative_f(x, y) < z))" := Option.some.inj text
    obtain ⟨items, args, front, behind, group, read, some, called, -⟩ :=
      text_of_marker m before "f" rfl parsed (by rw [written]; decide)
        (Marker.unraised_of_mem (by simp [m])) (Marker.unattached_of_mem (by simp [before]))
        ⟨"g", fun same => differ (by rw [same])⟩
    exact ⟨tree, rfl, written, items, args, front, behind, group, read, some, called⟩

/-- What the three conditions leave out. With an exponent at the group, and with a function word in
front that takes the primed name for its bare argument, the derivative is taken at the default
variable and the group is a factor of its own. A script that the tree drops takes its call along. -/
theorem text_of_split_marker :
    let raised : Marker := ⟨0, 1, 2, .round, [⟨.name "X", 3⟩, ⟨.closing .round, 4⟩,
      ⟨.sign .power, 5⟩, ⟨.braceOpen, 6⟩, ⟨.name "k", 7⟩, ⟨.braceClose, 8⟩]⟩
    let attached : Marker := ⟨5, 6, 7, .round, [⟨.name "X", 8⟩, ⟨.closing .round, 9⟩]⟩
    let dropped : Marker := ⟨6, 7, 8, .round, [⟨.name "X", 9⟩, ⟨.closing .round, 10⟩,
      ⟨.braceClose, 11⟩, ⟨.name "x", 13⟩]⟩
    scan 0 0 (prepared "f'(X)^\x7bk\x7d".toList) = .ok (raised.tokens "f") ∧
    (parse "f'(X)^\x7bk\x7d").toOption.map (textOf "x") = some "(derivative_f(x) * (X) ^ (k))" ∧
    scan 0 0 (prepared "\\sin f'(X)".toList)
      = .ok (⟨.function "sin" .sin, 0⟩ :: attached.tokens "f") ∧
    (parse "\\sin f'(X)").toOption.map (textOf "x") = some "(sin(derivative_f(x)) * X)" ∧
    scan 0 0 (prepared "\\sin_\x7bf'(X)\x7d x".toList)
      = .ok ([⟨.function "sin" .sin, 0⟩, ⟨.sign .subscript, 4⟩, ⟨.braceOpen, 5⟩]
        ++ dropped.tokens "f") ∧
    (parse "\\sin_\x7bf'(X)\x7d x").toOption.map (textOf "x") = some "sin(x)" :=
  ⟨rfl, by decide +kernel, rfl, by decide +kernel, rfl, by decide +kernel⟩

end Markup

end Grapher
