import Grapher.Proofs.Markup.Refusal
import Grapher.Proofs.Program.Descent

/-!
# Scanning and parsing end

Both scanners take a lexeme of at least one character off the front of the text at each step, a
program scanner with the blanks before it. Both descents end by themselves, and a formula or a program
is accepted exactly when its descent ends with no token left (`scanning_and_parsing_end`).
-/

set_option autoImplicit false

namespace Grapher

open List Text

namespace Program

/-! ## The lexemes of programs -/

theorem scan_drop (skip position : Nat) (text : List Char) :
    scan skip position text = scan 0 (position + skip) (text.drop skip) := by
  induction text generalizing skip position with
  | nil => rw [drop_nil, scan, scan]
  | cons c rest ih =>
    cases skip with
    | zero => rfl
    | succ skip => rw [scan, ih, drop_succ_cons, Nat.add_right_comm, Nat.add_assoc]

/-- A lexeme spans at least one character. -/
theorem lexeme?_length {text : List Char} {token : Token} {length : Nat}
    (found : lexeme? text = some (token, length)) : text ≠ [] ∧ 0 < length := by
  unfold lexeme? at found
  split at found
  · next rest numeral =>
    obtain ⟨taken, some, rfl, -⟩ := Decimal.takes_of_scanScaled? numeral
    have positive := length_pos_iff.mpr some
    cases found
    refine ⟨append_ne_nil_of_left_ne_nil some _, ?_⟩
    rw [length_append, Nat.add_sub_cancel]
    exact positive
  · split at found
    · cases found
    · refine ⟨cons_ne_nil _ _, ?_⟩
      split at found
      · cases found
        exact Nat.succ_pos _
      · unfold markLexeme? at found
        split at found
        · cases found
          exact Nat.two_pos
        · obtain ⟨sign, -, same⟩ := Option.map_eq_some_iff.mp found
          cases same
          exact Nat.one_pos

theorem step_visible {position : Nat} {c : Char} {rest : List Char} {entry : Token × Nat}
    (visible : isBlank c = false)
    (recognised : lexeme? (dropBlanks (c :: rest)) = some entry) :
    (if false = true then scan 0 (position + 1) rest
      else do
        let more ← scan (entry.2 - 1) (position + 1) rest
        .ok (entry.1 :: more))
      = (do
        let more ← scan 0 (position + ((c :: rest).takeWhile isBlank).length + entry.2)
          ((dropBlanks (c :: rest)).drop entry.2)
        .ok (entry.1 :: more)) := by
  obtain ⟨token, length⟩ := entry
  have dropped : dropBlanks (c :: rest) = c :: rest :=
    dropWhile_cons_of_neg (by rw [visible]; exact Bool.false_ne_true)
  have none : (c :: rest).takeWhile isBlank = [] :=
    takeWhile_cons_of_neg (by rw [visible]; exact Bool.false_ne_true)
  obtain ⟨less, rfl⟩ : ∃ less, length = less + 1 :=
    Nat.exists_eq_succ_of_ne_zero (Nat.ne_of_gt (lexeme?_length recognised).2)
  rw [if_neg Bool.false_ne_true, dropped, none, Nat.add_sub_cancel, scan_drop, drop_succ_cons,
    length_nil, Nat.add_assoc position 1, Nat.add_comm 1]
  rfl

/-- The walk takes blanks and one lexeme off the front of a text, and goes on behind them. -/
theorem scan_step (position : Nat) (c : Char) (rest : List Char) :
    scan 0 position (c :: rest)
      = (match lexeme? (dropBlanks (c :: rest)) with
        | none => .error (.unknownCharacter c position)
        | some (token, length) => do
          let more ← scan 0 (position + ((c :: rest).takeWhile isBlank).length + length)
            ((dropBlanks (c :: rest)).drop length)
          .ok (token :: more)) := by
  -- On the blanks before the lexeme: the same lexeme is ahead of each of them.
  induction rest generalizing position c with
  | nil =>
    rw [scan]
    cases recognised : lexeme? (dropBlanks [c]) with
    | none => rfl
    | some entry =>
      cases blank : isBlank c with
      | true =>
        rw [dropBlanks, dropWhile_cons_of_pos blank] at recognised
        cases recognised
      | false => exact step_visible blank recognised
  | cons d rest ih =>
    rw [scan]
    cases recognised : lexeme? (dropBlanks (c :: d :: rest)) with
    | none => rfl
    | some entry =>
      cases blank : isBlank c with
      | true =>
        have dropped : dropBlanks (c :: d :: rest) = dropBlanks (d :: rest) :=
          dropWhile_cons_of_pos blank
        rw [dropped] at recognised
        dsimp only
        rw [if_pos rfl, ih, dropped, recognised, takeWhile_cons_of_pos blank, length_cons]
        rw [Nat.add_right_comm position 1, Nat.add_assoc position]
      | false => exact step_visible blank recognised

theorem scan_ne_exhausted (skip position : Nat) (text : List Char) :
    scan skip position text ≠ .error .exhausted := by
  induction text generalizing skip position with
  | nil => rintro ⟨⟩
  | cons c rest ih =>
    cases skip with
    | succ skip => exact ih skip (position + 1)
    | zero =>
      rw [scan]
      split
      · rintro ⟨⟩
      · split
        · exact ih 0 (position + 1)
        · next length _ _ =>
          intro same
          cases later : scan (length - 1) (position + 1) rest with
          | error reason =>
            rw [later] at same
            cases same
            exact ih _ _ later
          | ok more =>
            rw [later] at same
            cases same

/-! ## Accepted programs -/

theorem parseTokens_ok_iff {tokens : List Token} {program : Expr} :
    parseTokens tokens = .ok program ↔ ∀ budget, descent.need .or tokens ≤ budget →
      parseOr budget tokens = .ok (program, []) := by
  have enough := need_le_budgetFor tokens
  constructor
  · intro accepted budget more
    have same : parseOr budget tokens = parseOr (budgetFor tokens.length) tokens :=
      (descent_steps.settled more enough).1
    rw [same]
    exact parseOr_of_parseTokens accepted
  · intro ends
    rw [parseTokens, ends _ enough]
    rfl

theorem parseTokens_ne_exhausted (tokens : List Token) : parseTokens tokens ≠ .error .exhausted := by
  have enough := need_le_budgetFor tokens
  unfold parseTokens
  intro same
  cases found : parseOr (budgetFor tokens.length) tokens with
  | error reason =>
    rw [found] at same
    cases same
    exact (descent_steps.settled enough enough).2 _ found rfl
  | ok result =>
    obtain ⟨expr, rest⟩ := result
    rw [found] at same
    cases rest with
    | nil | cons token rest => cases same

theorem parse_ne_exhausted (text : String) : parse text ≠ .error .exhausted := by
  unfold parse
  split
  · rintro ⟨⟩
  · intro same
    cases found : tokens text with
    | error reason =>
      rw [found] at same
      cases same
      exact scan_ne_exhausted _ _ _ found
    | ok tokens =>
      rw [found] at same
      exact parseTokens_ne_exhausted tokens same

end Program

namespace Markup

/-! ## Accepted formulas -/

theorem parseTokens_ok_iff {located : List Located} {tree : Node} :
    parseTokens located = .ok tree ↔ ∀ budget, descent.need (.or, .plain) located ≤ budget →
      parseOr budget .plain located = .ok (tree, []) := by
  have enough := need_le_budgetFor located
  constructor
  · intro accepted budget more
    have same : parseOr budget .plain located = parseOr (budgetFor located.length) .plain located :=
      (descent_steps.settled more enough).1
    rw [same]
    exact (parseTokens_eq_ok_iff.mp accepted).2
  · intro ends
    have found := ends _ enough
    have taken := (descent_steps.advances (budgetFor located.length) (.or, .plain) located).leaves
      tree [] found
    have some : located.isEmpty = false := by
      cases located with
      | nil => cases taken.2
      | cons first rest => rfl
    rw [parseTokens, some, if_neg Bool.false_ne_true, found]
    rfl

end Markup

/-- Scanning and parsing end on every text and on all tokens. A scanner goes on behind the lexeme that
it took off the front of the text. The functions of both descents take a token on every round of
calls and have an outcome that no budget decides. What is accepted has no token left. -/
theorem scanning_and_parsing_end :
    (∀ position c rest,
      Markup.scan 0 position (c :: rest) = (do
        let (found, used) ← Markup.lexeme position c rest
        let more ← Markup.scan 0 (position + used) ((c :: rest).drop used)
        .ok (found ++ more)) ∧
      ∀ found used, Markup.lexeme position c rest = .ok (found, used) →
        ((c :: rest).drop used).length < (c :: rest).length) ∧
    (∀ position c rest,
      Program.scan 0 position (c :: rest)
        = (match Program.lexeme? (Text.dropBlanks (c :: rest)) with
          | none => .error (.unknownCharacter c position)
          | some (token, length) => do
            let more ← Program.scan 0
              (position + ((c :: rest).takeWhile Text.isBlank).length + length)
              ((Text.dropBlanks (c :: rest)).drop length)
            .ok (token :: more)) ∧
      ∀ token length, Program.lexeme? (Text.dropBlanks (c :: rest)) = some (token, length) →
        ((Text.dropBlanks (c :: rest)).drop length).length < (c :: rest).length) ∧
    Markup.descent.Terminates ∧ Program.descent.Terminates ∧
    (∀ located tree, Markup.parseTokens located = .ok tree ↔
      ∀ budget, Markup.descent.need (.or, .plain) located ≤ budget →
        Markup.parseOr budget .plain located = .ok (tree, [])) ∧
    (∀ tokens program, Program.parseTokens tokens = .ok program ↔
      ∀ budget, Program.descent.need .or tokens ≤ budget →
        Program.parseOr budget tokens = .ok (program, [])) ∧
    ∀ text, Markup.parse text ≠ .error .exhausted ∧ Program.parse text ≠ .error .exhausted := by
  refine ⟨fun position c rest => ⟨Markup.scan_step position c rest, ?_⟩,
    fun position c rest => ⟨Program.scan_step position c rest, ?_⟩,
    Markup.descent_steps.terminates, Program.descent_steps.terminates,
    fun located tree => Markup.parseTokens_ok_iff, fun tokens program => Program.parseTokens_ok_iff,
    fun text => ⟨?_, Program.parse_ne_exhausted text⟩⟩
  · intro found used same
    have positive : 0 < used := Markup.lexeme_length same
    rw [length_drop, length_cons]
    omega
  · intro token length same
    obtain ⟨some, positive⟩ := Program.lexeme?_length same
    have shorter : (dropBlanks (c :: rest)).length ≤ (c :: rest).length :=
      (dropWhile_suffix _).length_le
    have nonempty := length_pos_iff.mpr some
    rw [length_drop]
    omega
  · intro same
    rcases Markup.isReported_parse same with refusal | ⟨other, -⟩
    · cases refusal
    · cases other

end Grapher
