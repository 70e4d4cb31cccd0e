import Grapher.Proofs.Program.Scanning
import Mathlib.Data.List.Chain

/-!
# Spelled tokens are found again

A row of tokens can be written in many ways: each token by any of its spellings, with any blanks
before it and behind the last one. The tokens are found again exactly (`tokens_spelled`), as long as
there is a blank between two neighbours or one of them is a parenthesis or a comma. Nothing else has
to be kept apart: no spelling goes on across a blank, and a parenthesis or a comma is never part of a
longer token.
-/

set_option autoImplicit false

namespace Grapher.Program

open List Text Decimal

/-- The tokens that need no blank beside them: parentheses and commas. -/
def Token.isSeparator : Token → Bool
  | .mark .opening => true
  | .mark .closing => true
  | .mark .comma => true
  | _ => false

/-- A parenthesis or a comma is spelled by one character. -/
theorem spelling_of_separator {spelling : List Char} {token : Token} (spells : Spells spelling token)
    (separates : token.isSeparator = true) : ∃ c ∈ ['(', ')', ','], spelling = [c] := by
  cases spells with
  | mark sign =>
    cases sign with
    | opening => exact ⟨'(', by decide, rfl⟩
    | closing => exact ⟨')', by decide, rfl⟩
    | comma => exact ⟨',', by decide, rfl⟩
    | _ => cases separates
  | _ => cases separates

/-- A token as it stands in a text: blanks and a spelling of the token. -/
structure Spelled where
  blanks : List Char
  spelling : List Char
  token : Token
  isBlank : ∀ c ∈ blanks, isBlank c = true
  spells : Spells spelling token

namespace Spelled

/-- The characters of a token with the blanks before it. -/
def chars (entry : Spelled) : List Char := entry.blanks ++ entry.spelling

/-- Neighbours with a blank between them, or with a parenthesis or a comma among them. -/
def Apart (first second : Spelled) : Prop :=
  second.blanks ≠ [] ∨ first.token.isSeparator = true ∨ second.token.isSeparator = true

variable {first second : Spelled} {row : List Spelled} {rest : List Char}

/-- A token ends in front of a neighbour that it is apart from. -/
theorem Apart.endsAt (apart : Apart first second) :
    first.token.EndsAt (second.chars ++ rest) := by
  have behind : second.blanks ≠ [] ∨ second.token.isSeparator = true →
      first.token.EndsAt (second.chars ++ rest) := by
    intro parts
    refine endsAt_of_parts first.token fun c head => ?_
    rw [chars] at head
    cases before : second.blanks with
    | cons d blanks =>
      rw [before] at head
      cases head
      exact .inl (second.isBlank c (by rw [before]; exact .head _))
    | nil =>
      obtain ⟨d, mark, spelling⟩ :=
        spelling_of_separator second.spells (parts.resolve_left (not_not_intro before))
      rw [before, spelling] at head
      cases head
      exact .inr mark
  rcases apart with blank | separates | separates
  · exact behind (.inl blank)
  · -- no longer mark starts with a parenthesis or a comma
    cases token : first.token with
    | mark sign =>
      rw [token] at separates
      intro c _ grows
      cases sign <;> cases separates <;> cases grows
    | _ =>
      rw [token] at separates
      cases separates
  · exact behind (.inr separates)

theorem scanned_blanks {blanks : List Char} {found : List Token} (some : found ≠ [])
    (scanned : Scanned rest found) (all : ∀ c ∈ blanks, Text.isBlank c = true) :
    Scanned (blanks ++ rest) found := by
  induction blanks with
  | nil => exact scanned
  | cons c blanks ih =>
    exact .blank (all c (.head _)) some (ih fun d member => all d (.tail _ member))

/-- The tokens of a row are found one after the other. -/
theorem scanned_row (apart : row.IsChain Apart) :
    Scanned (row.flatMap chars) (row.map token) := by
  induction row with
  | nil => exact .nil
  | cons first row ih =>
    have ends : first.token.EndsAt (row.flatMap chars) := by
      cases row with
      | nil => exact endsAt_of_parts _ (by rintro c ⟨⟩)
      | cons second more => exact (isChain_cons_cons.mp apart).1.endsAt
    have spelled := Scanned.spelling first.spells ends (ih apart.tail)
    rw [flatMap_cons, map_cons, chars, append_assoc]
    exact scanned_blanks (cons_ne_nil _ _) spelled first.isBlank

/-- A row does not end with a blank. -/
theorem getLast_row : ∀ c ∈ (row.flatMap chars).getLast?, Text.isBlank c = false := by
  induction row with
  | nil => rintro c ⟨⟩
  | cons first row ih =>
    obtain ⟨some, visible⟩ := visible_spelling first.spells
    intro c last
    rw [flatMap_cons] at last
    by_cases empty : row.flatMap chars = []
    · rw [empty, append_nil, chars, getLast?_append_of_ne_nil _ some] at last
      exact visible c (mem_of_getLast? last)
    · rw [getLast?_append_of_ne_nil _ empty] at last
      exact ih c last

theorem dropBlanksRight_row {after : List Char} (blank : ∀ c ∈ after, Text.isBlank c = true) :
    dropBlanksRight (row.flatMap chars ++ after) = row.flatMap chars := by
  have last := @getLast_row row
  generalize row.flatMap chars = text at last ⊢
  rw [dropBlanksRight, reverse_append,
    dropWhile_append_of_pos fun c member => blank c (mem_reverse.mp member)]
  cases reversed : text.reverse with
  | nil => rw [← reverse_reverse text, reversed]; rfl
  | cons c more =>
    have visible := last c (by rw [getLast?_eq_head?_reverse, reversed]; rfl)
    rw [dropWhile_cons_of_neg (by rw [visible]; exact Bool.false_ne_true), ← reversed,
      reverse_reverse]

end Spelled

/-- The tokens of a row are found again in every text that spells them, with any blanks at both ends,
and between all neighbours that are no parentheses or commas. -/
theorem tokens_spelled (row : List Spelled) (after : List Char)
    (apart : row.IsChain Spelled.Apart) (blank : ∀ c ∈ after, isBlank c = true) :
    tokens (String.ofList (row.flatMap Spelled.chars ++ after)) = .ok (row.map Spelled.token) := by
  rw [tokens, String.toList_ofList, Spelled.dropBlanksRight_row blank]
  exact Spelled.scanned_row apart 0

/-- A comparison in a call, with a power of ten, blanks of several kinds, and an arrow. -/
theorem tokens_spelled_call :
    let value := Decimal.toDouble false ⟨2, -1⟩
    ∃ (row : List Spelled) (after : List Char), row.IsChain Spelled.Apart ∧
      (∀ c ∈ after, isBlank c = true) ∧
      String.ofList (row.flatMap Spelled.chars ++ after) = "\tf(2.e-1 <=\n y)-> " ∧
      tokens "\tf(2.e-1 <=\n y)-> " = .ok [.name "f", .mark .opening, .number value,
        .mark (.relation .lessEqual), .name "y", .mark .closing, .mark .arrow] := by
  intro value
  have numeral : Numeral ['2', '.', 'e', '-', '1'] ⟨2, -1⟩ :=
    @Numeral.scaled ['2', '.'] ['1'] ⟨2, 0⟩ 'e' (['-'], true)
      (@Plain.point ['2'] [] (by decide) (by decide)) (by decide) (by decide) (by decide) (by decide)
  let row : List Spelled := [
    ⟨['\t'], ['f'], .name "f", by decide, @Spells.name "f" (by decide) (by decide)⟩,
    ⟨[], ['('], .mark .opening, by decide, .mark .opening⟩,
    ⟨[], _, .number value, by decide, .number numeral (doubleOfText_numeral numeral)⟩,
    ⟨[' '], ['<', '='], .mark (.relation .lessEqual), by decide, .mark (.relation .lessEqual)⟩,
    ⟨['\n', ' '], ['y'], .name "y", by decide, @Spells.name "y" (by decide) (by decide)⟩,
    ⟨[], [')'], .mark .closing, by decide, .mark .closing⟩,
    ⟨[], ['-', '>'], .mark .arrow, by decide, .mark .arrow⟩]
  have blank : ∀ c ∈ [' '], isBlank c = true := by decide
  have apart : row.IsChain Spelled.Apart := by
    simp [row, Spelled.Apart, Token.isSeparator]
  exact ⟨row, [' '], apart, blank, rfl, tokens_spelled row [' '] apart blank⟩

end Grapher.Program
