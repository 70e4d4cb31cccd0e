import Grapher.Proofs.Markup.Descent
import Grapher.Proofs.Markup.Lexemes

/-!
# How markup is refused

A text is refused with a report about a place in it: a character or a command that is not known,
a group or a limit that is missing, a token out of place, or nothing at all. The parser ends by itself
and so never reports a used up budget, and the scanner only stumbles over a digit sign or a letter
beyond ASCII (`foreign_of_parse`). A text of ASCII characters thus has a tree or a refusal.

What the scanner and the parser look up is always there: the words of function tokens are those of
the vocabulary, a run of letters has a last token, and a prime token stands for at least one mark.
-/

set_option autoImplicit false

namespace Grapher.Markup

variable {c : Char} {text : List Char} {reason : ParseError}

/-! ## What the parser reports -/

theorem mem_replacePair {first second : Char} {replacement : List Char}
    (member : c ∈ replacePair first second replacement text) : c ∈ text ∨ c ∈ replacement := by
  fun_induction replacePair first second replacement text with
  | case1 a b rest _ ih =>
    rcases List.mem_append.mp member with new | later
    · exact .inr new
    · exact (ih later).imp_left fun inside => .tail _ (.tail _ inside)
  | case2 a b rest _ ih =>
    rcases List.mem_cons.mp member with rfl | later
    · exact .inl (.head _)
    · exact (ih later).imp_left fun inside => .tail _ inside
  | case3 rest _ => exact .inl member

theorem mem_of_mem_trim (member : c ∈ Text.trim text) : c ∈ text := by
  have inner := (List.dropWhile_suffix _).subset (List.mem_reverse.mp member)
  exact (List.dropWhile_suffix _).subset (List.mem_reverse.mp inner)

/-- Preparation adds no characters beyond ASCII. -/
theorem mem_of_mem_prepared (member : c ∈ prepared text) (large : 128 ≤ c.toNat) : c ∈ text := by
  have kept : ∀ {sign : Char} {replacement text : List Char},
      (∀ d ∈ replacement, d.toNat < 128) → c ∈ replacePair '\\' sign replacement text → c ∈ text := by
    intro sign replacement text small inside
    rcases mem_replacePair inside with old | new
    · exact old
    · exact absurd large (Nat.not_le_of_lt (small c new))
  have none : ∀ d ∈ ([] : List Char), d.toNat < 128 := by decide
  have blank : ∀ d ∈ [' '], d.toNat < 128 := by decide
  have untrimmed := mem_of_mem_trim member
  exact List.mem_of_mem_filter (kept none (kept blank (kept blank (kept blank untrimmed))))

theorem isRefusal_parseTokens {located : List Located} (same : parseTokens located = .error reason) :
    reason.isRefusal = true := by
  have enough := need_le_budgetFor located
  unfold parseTokens at same
  split at same
  · cases same
    rfl
  · cases found : parseOr (budgetFor located.length) .plain located with
    | error reason' =>
      rw [found] at same
      cases same
      exact (descent_steps.settled enough enough).2 reason found
    | ok result =>
      obtain ⟨node, rest⟩ := result
      rw [found] at same
      cases rest with
      | nil => cases same
      | cons token rest =>
        cases same
        rfl

/-- A text without a tree is refused, or has a digit sign or a letter beyond ASCII. -/
theorem isReported_parse {text : String} (same : parse text = .error reason) :
    IsReported text.toList reason := by
  unfold parse at same
  dsimp only at same
  split at same
  · cases same
    exact .inl rfl
  · rcases @scan_cases (prepared text.toList) True (fun _ => trivial) 0 0 with
      ⟨located, found, -⟩ | ⟨reason', found, reported⟩
    · rw [found] at same
      exact .inl (isRefusal_parseTokens same)
    · rw [found] at same
      cases same
      exact reported.mono fun c => mem_of_mem_prepared

/-! ## What is looked up -/

/-- Words inside a run of letters are function words, but for the word of the circle constant. -/
theorem functionWord_of_leadingWord {run : List Char} {word : String}
    (found : leadingWord? run = some word) :
    word = circleWord ∨ (functionWord? word).isSome = true := by
  have all : ∀ word ∈ splitWords, word = circleWord ∨ (functionWord? word).isSome = true := by decide
  exact all word (List.mem_of_find?_eq_some found)

end Grapher.Markup
