import Grapher.Text.Blank
import Grapher.Text.Digit
import Grapher.Text.Identifier
import Grapher.Text.Printable

/-!
# Classes of characters

A property of ASCII characters is checked on all of them. Beyond ASCII, `covers` walks along the
changes of two sets of code points in step and compares the sets between the changes, so that one
pass decides an inclusion (`contains_of_isSubset`). The passes over the tables show that the
characters of identifiers are printable and that blanks are not.
-/

set_option autoImplicit false

namespace Grapher.Text

/-- An entry that is found in a table is there. -/
theorem mem_of_lookup {α β : Type} [BEq α] [LawfulBEq α] {table : List (α × β)} {key : α} {value : β}
    (found : table.lookup key = some value) : (key, value) ∈ table := by
  obtain ⟨before, after, rfl, -⟩ := List.lookup_eq_some_iff.mp found
  exact List.mem_append_right _ (.head _)

/-! ## Runs of characters -/

section Runs

variable {test less : Char → Bool} {run rest : List Char}

/-- A text that no character of a class starts. -/
def Free (test : Char → Bool) (rest : List Char) : Prop :=
  ∀ c ∈ rest.head?, test c = false

theorem Free.nil : Free test [] := by
  rintro c ⟨⟩

theorem Free.cons {c : Char} (stops : test c = false) (rest : List Char) :
    Free test (c :: rest) := by
  rintro d ⟨⟩
  exact stops

theorem Free.mono (fewer : ∀ c, less c = true → test c = true) (free : Free test rest) :
    Free less rest := by
  intro c first
  have stops := free c first
  cases found : less c with
  | false => rfl
  | true => rw [fewer c found] at stops; cases stops

theorem takeWhile_append_free (all : ∀ c ∈ run, test c = true) (free : Free test rest) :
    (run ++ rest).takeWhile test = run := by
  rw [List.takeWhile_append_of_pos all]
  cases rest with
  | nil => simp
  | cons c rest => simp [free c rfl]

theorem dropWhile_append_free (all : ∀ c ∈ run, test c = true) (free : Free test rest) :
    (run ++ rest).dropWhile test = rest := by
  rw [List.dropWhile_append_of_pos all]
  cases rest with
  | nil => rfl
  | cons c rest => simp [free c rfl]

theorem free_dropWhile (test : Char → Bool) (text : List Char) :
    Free test (text.dropWhile test) := by
  intro c first
  have stops := List.head?_dropWhile_not test text
  rw [Option.mem_def.mp first] at stops
  exact stops

/-- A text starts with a run of characters of a class, up to one that is not in it. -/
theorem exists_run (test : Char → Bool) (text : List Char) :
    ∃ run rest, text = run ++ rest ∧ (∀ c ∈ run, test c = true) ∧ Free test rest :=
  ⟨_, _, List.takeWhile_append_dropWhile.symm, List.all_eq_true.mp List.all_takeWhile,
    free_dropWhile test text⟩

end Runs

/-! ## Sets of code points -/

namespace CodeSet

theorem contains_cons_of_le {change point : Nat} (changes : List Nat) (passed : change ≤ point) :
    contains ⟨change :: changes⟩ point = !contains ⟨changes⟩ point := by
  simp only [contains, List.takeWhile_cons, decide_eq_true passed, if_true, List.length_cons]
  rcases Nat.mod_two_eq_zero_or_one (changes.takeWhile (· ≤ point)).length with even | odd
  · simp [Nat.add_mod, even]
  · simp [Nat.add_mod, odd]

/-- Whether a point ahead is in a set, from whether the place reached is and the changes ahead. -/
def holds (inside : Bool) (ahead : List Nat) (point : Nat) : Bool :=
  inside ^^ contains ⟨ahead⟩ point

theorem holds_nil (inside : Bool) (point : Nat) : holds inside [] point = inside := by
  simp [holds, contains]

theorem holds_of_lt {change point : Nat} (inside : Bool) (ahead : List Nat) (below : point < change) :
    holds inside (change :: ahead) point = inside := by
  rw [holds, contains_of_lt_head below, Bool.xor_false]

theorem holds_of_le {change point : Nat} (inside : Bool) (ahead : List Nat)
    (passed : change ≤ point) :
    holds inside (change :: ahead) point = holds (!inside) ahead point := by
  rw [holds, holds, contains_cons_of_le ahead passed]
  simp

/-- Whether, in so many steps, the walk along two sets finds the first inside of the second: at the
place reached, and between all changes ahead. -/
def covers : Nat → Bool → List Nat → Bool → List Nat → Bool
  | 0, _, _, _, _ => false
  | steps + 1, inFirst, first, inSecond, second =>
    (!inFirst || inSecond) &&
      match first, second with
      | [], [] => true
      | _ :: first, [] => covers steps (!inFirst) first inSecond []
      | [], _ :: second => covers steps inFirst [] (!inSecond) second
      | a :: first, b :: second =>
        if a < b then covers steps (!inFirst) first inSecond (b :: second)
        else if b < a then covers steps inFirst (a :: first) (!inSecond) second
        else covers steps (!inFirst) first (!inSecond) second

/-- A walk that succeeds has every point of the first set in the second. -/
theorem holds_of_covers {steps : Nat} {inFirst inSecond : Bool} {first second : List Nat}
    (covered : covers steps inFirst first inSecond second = true) (point : Nat)
    (member : holds inFirst first point = true) : holds inSecond second point = true := by
  induction steps generalizing inFirst inSecond first second with
  | zero => cases covered
  | succ steps ih =>
    simp only [covers, Bool.and_eq_true, Bool.or_eq_true, Bool.not_eq_true'] at covered
    obtain ⟨here, later⟩ := covered
    -- a point before the next change of both sets is as the place reached
    have same : holds inFirst first point = inFirst → holds inSecond second point = inSecond →
        holds inSecond second point = true := by
      intro before beyond
      rw [beyond]
      rw [before] at member
      exact here.resolve_left (by simp [member])
    match first, second with
    | [], [] => exact same (holds_nil _ _) (holds_nil _ _)
    | a :: first, [] =>
      by_cases passed : a ≤ point
      · rw [holds_of_le _ _ passed] at member
        exact ih later member
      · exact same (holds_of_lt _ _ (Nat.lt_of_not_le passed)) (holds_nil _ _)
    | [], b :: second =>
      by_cases passed : b ≤ point
      · rw [holds_of_le _ _ passed]
        exact ih later member
      · exact same (holds_nil _ _) (holds_of_lt _ _ (Nat.lt_of_not_le passed))
    | a :: first, b :: second =>
      simp only at later
      split at later
      · next order =>
        by_cases passed : a ≤ point
        · rw [holds_of_le _ _ passed] at member
          exact ih later member
        · exact same (holds_of_lt _ _ (by omega)) (holds_of_lt _ _ (by omega))
      · split at later
        · by_cases passed : b ≤ point
          · rw [holds_of_le _ _ passed]
            exact ih later member
          · exact same (holds_of_lt _ _ (by omega)) (holds_of_lt _ _ (by omega))
        · by_cases passed : a ≤ point
          · rw [holds_of_le _ _ passed] at member
            rw [holds_of_le _ _ (by omega)]
            exact ih later member
          · exact same (holds_of_lt _ _ (by omega)) (holds_of_lt _ _ (by omega))

/-- Whether one set is inside of another one. -/
def isSubset (first second : CodeSet) : Bool :=
  covers (first.changes.length + second.changes.length + 1) false first.changes false second.changes

theorem contains_of_isSubset {first second : CodeSet} (subset : isSubset first second = true)
    {point : Nat} (member : first.contains point = true) : second.contains point = true := by
  have inside := holds_of_covers subset point
  simp only [holds, Bool.false_xor] at inside
  exact inside member

/-- The points outside of a set. -/
def complement (set : CodeSet) : CodeSet := ⟨0 :: set.changes⟩

theorem contains_complement (set : CodeSet) (point : Nat) :
    (complement set).contains point = !set.contains point :=
  contains_cons_of_le set.changes (Nat.zero_le point)

end CodeSet

/-! ## Characters of identifiers -/

open CodeSet

/-- A property of the characters of a text is decided on the text. Without a priority an instance for
all characters comes first where there is one. -/
instance (priority := 2000) decidableForallMem (property : Char → Prop) [DecidablePred property]
    (chars : List Char) : Decidable (∀ c ∈ chars, property c) :=
  List.decidableBAll property chars

/-- A property of ASCII characters can be checked on all of them. -/
theorem forall_ascii {property : Char → Prop} (all : ∀ n : Fin 128, property (Char.ofNat n))
    {c : Char} (small : c.toNat < 128) : property c := by
  have checked := all ⟨c.toNat, small⟩
  rwa [Char.ofNat_toNat] at checked

theorem small_of_isAlphanum {c : Char} (letter : c.isAlphanum = true) : c.toNat < 128 := by
  delta Char.isAlphanum Char.isAlpha Char.isUpper Char.isLower Char.isDigit at letter
  simp only [Bool.or_eq_true, Bool.and_eq_true, decide_eq_true_eq] at letter
  rcases letter with (⟨-, upper⟩ | ⟨-, upper⟩) | ⟨-, upper⟩
  all_goals
    have bound := UInt32.le_iff_toNat_le.mp upper
    exact Nat.lt_of_le_of_lt bound (by decide)

theorem small_of_isDigit {c : Char} (digit : c.isDigit = true) : c.toNat < 128 :=
  small_of_isAlphanum (by rw [Char.isAlphanum, digit, Bool.or_true])

/-- No digit of any script is a blank. -/
theorem isBlank_of_isDecimal {c : Char} (digit : isDecimal c = true) : isBlank c = false := by
  have visible : ∀ first ∈ zerosBeyondAscii, ∀ value < 10,
      blanksBeyondAscii.contains (first + value) = false := by decide +kernel
  by_cases small : c.toNat < 128
  · exact @forall_ascii (fun c => isDecimal c = true → isBlank c = false) (by decide) c small digit
  · unfold isDecimal decimalValue? at digit
    rw [if_neg fun ascii => small (small_of_isDigit ascii), Option.isSome_map] at digit
    obtain ⟨first, found⟩ := Option.isSome_iff_exists.mp digit
    have within := List.find?_some found
    simp only [Bool.and_eq_true, decide_eq_true_eq] at within
    have outside := visible first (List.mem_of_find?_eq_some found) (c.toNat - first) (by omega)
    rw [Nat.add_sub_cancel' within.1] at outside
    rw [isBlank, inClass, if_neg small, outside]

theorem letters_printable : isSubset lettersBeyondAscii printableBeyondAscii = true := by
  decide +kernel

theorem exceptions_printable : isSubset identifierExceptions printableBeyondAscii = true := by
  decide +kernel

theorem extenders_printable : isSubset identifierExtenders printableBeyondAscii = true := by
  decide +kernel

theorem blanks_not_printable :
    isSubset blanksBeyondAscii (complement printableBeyondAscii) = true := by
  decide +kernel

theorem isPrintable_of_isIdentifierRest {c : Char} (inside : isIdentifierRest c = true) :
    isPrintable c = true := by
  by_cases small : c.toNat < 128
  · exact @forall_ascii (fun c => isIdentifierRest c = true → isPrintable c = true) (by decide) c
      small inside
  · rw [isPrintable, inClass, if_neg small]
    simp only [isIdentifierRest, isIdentifierStart, inClass, if_neg small, Bool.or_eq_true,
      bne_iff_ne] at inside
    rcases inside with start | extender
    · cases letter : lettersBeyondAscii.contains c.toNat with
      | true => exact contains_of_isSubset letters_printable letter
      | false =>
        cases exception : identifierExceptions.contains c.toNat with
        | true => exact contains_of_isSubset exceptions_printable exception
        | false => exact absurd (letter.trans exception.symm) start
    · exact contains_of_isSubset extenders_printable extender

theorem isBlank_of_isIdentifierRest {c : Char} (inside : isIdentifierRest c = true) :
    isBlank c = false := by
  by_cases small : c.toNat < 128
  · exact @forall_ascii (fun c => isIdentifierRest c = true → isBlank c = false) (by decide) c
      small inside
  · have printable := isPrintable_of_isIdentifierRest inside
    rw [isPrintable, inClass, if_neg small] at printable
    rw [isBlank, inClass, if_neg small]
    cases blank : blanksBeyondAscii.contains c.toNat with
    | false => rfl
    | true =>
      have outside := contains_of_isSubset blanks_not_printable blank
      rw [contains_complement, printable] at outside
      cases outside

theorem isIdentifierRest_of_isIdentifier {name : String} (identifier : isIdentifier name = true) :
    ∀ c ∈ name.toList, isIdentifierRest c = true := by
  intro c member
  unfold isIdentifier at identifier
  split at identifier
  · cases identifier
  · next first more chars =>
    rw [chars] at member
    rw [Bool.and_eq_true, List.all_eq_true] at identifier
    rcases List.mem_cons.mp member with rfl | later
    · rw [isIdentifierRest, identifier.1, Bool.true_or]
    · exact identifier.2 c later

end Grapher.Text
