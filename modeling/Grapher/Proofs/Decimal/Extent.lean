import Grapher.Decimal.Numeral
import Grapher.Proofs.Text.Classes

/-!
# What a numeral spans

A scanned numeral is a part of its text that is not empty and made of characters of numerals: decimal
digits, a point, and for a power of ten a letter and a sign.
-/

set_option autoImplicit false

namespace Grapher.Decimal

open List Text

variable {c : Char} {d : Decimal} {rest text run : List Char}

/-! ## Digits and points -/

theorem scanDigits_append (all : ∀ c ∈ run, isDecimal c = true) (ends : Free isDecimal rest) :
    scanDigits (run ++ rest) = (run, rest) := by
  rw [scanDigits, takeWhile_append_free all ends, dropWhile_append_free all ends]

theorem scanDigits_parts {digits : List Char} (found : scanDigits text = (digits, rest)) :
    text = digits ++ rest ∧ (∀ c ∈ digits, isDecimal c = true) ∧ Free isDecimal rest := by
  obtain ⟨rfl, rfl⟩ := found
  exact ⟨takeWhile_append_dropWhile.symm, all_eq_true.mp all_takeWhile, free_dropWhile _ _⟩

/-- Digits with a point or without one, and the decimal that they show. -/
inductive Plain : List Char → Decimal → Prop where
  | whole {run : List Char} (some : run ≠ []) (all : ∀ c ∈ run, isDecimal c = true) :
    Plain run ⟨valueOf run, 0⟩
  | point {whole fraction : List Char} (some : whole ++ fraction ≠ [])
    (all : ∀ c ∈ whole ++ fraction, isDecimal c = true) :
    Plain (whole ++ '.' :: fraction) ⟨valueOf (whole ++ fraction), -fraction.length⟩

theorem scanPlain?_plain (shows : Plain run d) (ends : Free isDecimal rest)
    (pointed : rest.head? = some '.' → '.' ∈ run) : scanPlain? (run ++ rest) = some (d, rest) := by
  cases shows with
  | whole some all =>
    unfold scanPlain?
    rw [scanDigits_append all ends]
    split
    · next equal => cases equal; exact absurd rfl some
    · next equal => cases equal; exact absurd rfl some
    · next equal => cases equal; exact absurd (all _ (pointed rfl)) (by decide)
    · next equal => cases equal; rfl
  | @point whole fraction some all =>
    have first := @scanDigits_append ('.' :: (fraction ++ rest)) whole
      (fun c member => all c (mem_append_left _ member)) (.cons (by decide) _)
    have second := @scanDigits_append rest fraction
      (fun c member => all c (mem_append_right _ member)) ends
    rw [append_assoc, cons_append, scanPlain?, first]
    cases whole with
    | nil =>
      obtain ⟨c, more, rfl⟩ := exists_cons_of_ne_nil some
      simp only [second]
      rfl
    | cons c whole => simp only [second]

/-- What is scanned shows the decimal, and is followed by nothing that would continue it. -/
theorem plain_of_scanPlain? (found : scanPlain? text = some (d, rest)) :
    ∃ taken, text = taken ++ rest ∧ Plain taken d ∧ Free isDecimal rest ∧
      (rest.head? = some '.' → '.' ∈ taken) := by
  unfold scanPlain? at found
  split at found
  · next afterPoint digits =>
    obtain ⟨rfl, -⟩ := scanDigits_parts digits
    split at found
    · cases found
    · next fraction rest' some more =>
      obtain ⟨rfl, all, ends⟩ := scanDigits_parts more
      cases found
      exact ⟨'.' :: fraction, rfl, @Plain.point [] fraction some all, ends, fun _ => .head _⟩
  · cases found
  · next whole afterPoint some digits =>
    obtain ⟨rfl, all, -⟩ := scanDigits_parts digits
    cases more : scanDigits afterPoint with
    | mk fraction rest' =>
      obtain ⟨rfl, all', ends⟩ := scanDigits_parts more
      simp only [more] at found
      cases found
      exact ⟨whole ++ '.' :: fraction, by simp, .point (append_ne_nil_of_left_ne_nil some _)
        (forall_mem_append.mpr ⟨all, all'⟩), ends, fun _ => by simp⟩
  · next some noPoint digits =>
    obtain ⟨rfl, all, ends⟩ := scanDigits_parts digits
    cases found
    refine ⟨_, rfl, .whole some all, ends, fun point => ?_⟩
    obtain ⟨after, rfl⟩ := head?_eq_some_iff.mp point
    exact absurd rfl (noPoint after)

theorem Plain.chars (shows : Plain run d) :
    run ≠ [] ∧ ∀ c ∈ run, isDecimal c = true ∨ c = '.' := by
  cases shows with
  | whole some all => exact ⟨some, fun c member => .inl (all c member)⟩
  | point some all =>
    obtain ⟨left, right⟩ := forall_mem_append.mp all
    exact ⟨by simp, forall_mem_append.mpr ⟨fun c member => .inl (left c member),
      forall_mem_cons.mpr ⟨.inr rfl, fun c member => .inl (right c member)⟩⟩⟩

/-! ## Powers of ten -/

/-- The characters of numerals. -/
def IsNumeric (c : Char) : Prop :=
  isDecimal c = true ∨ c ∈ ['.', 'e', 'E', '+', '-']

/-- A text that starts with characters of a numeral, at least one, and goes on with a given rest. -/
def Takes (text rest : List Char) : Prop :=
  ∃ taken, taken ≠ [] ∧ text = taken ++ rest ∧ ∀ c ∈ taken, IsNumeric c

theorem takes_of_scanPower? {power : Int} (found : scanPower? text = some (power, rest)) :
    Takes text rest := by
  unfold scanPower? at found
  split at found
  · next mark after =>
    split at found
    · next letter =>
      have start : IsNumeric mark := by
        rw [Bool.or_eq_true, beq_iff_eq, beq_iff_eq] at letter
        rcases letter with rfl | rfl <;> exact .inr (by decide)
      have minus : IsNumeric '-' := .inr (by decide)
      have plus : IsNumeric '+' := .inr (by decide)
      split at found
      next negative unsigned signed =>
      have sign : Takes (mark :: after) unsigned := by
        split at signed <;> cases signed
        · exact ⟨[mark, '-'], cons_ne_nil _ _, rfl, by simp [start, minus]⟩
        · exact ⟨[mark, '+'], cons_ne_nil _ _, rfl, by simp [start, plus]⟩
        · exact ⟨[mark], cons_ne_nil _ _, rfl, by simp [start]⟩
      obtain ⟨taken, some, shape, all⟩ := sign
      split at found
      · cases found
      · next digits rest' _ scanned =>
        obtain ⟨rfl, all', -⟩ := scanDigits_parts scanned
        cases found
        exact ⟨taken ++ digits, by simp [some], by rw [shape, append_assoc],
          forall_mem_append.mpr ⟨all, fun c member => .inl (all' c member)⟩⟩
    · cases found
  · cases found

/-- A numeral is of characters of numerals. -/
theorem takes_of_scanScaled? (found : scanScaled? text = some (d, rest)) :
    Takes text rest := by
  unfold scanScaled? at found
  simp only [Option.bind_eq_bind, Option.bind_eq_some_iff] at found
  obtain ⟨⟨plain, middle⟩, first, found⟩ := found
  obtain ⟨taken, rfl, shows, -⟩ := plain_of_scanPlain? first
  obtain ⟨some, chars⟩ := shows.chars
  have all : ∀ c ∈ taken, IsNumeric c := fun c member =>
    (chars c member).imp_right fun point => by rw [point]; exact .head _
  split at found
  · next power rest' second =>
    obtain ⟨more, -, rfl, all'⟩ := takes_of_scanPower? second
    cases found
    exact ⟨taken ++ more, by simp [some], by rw [append_assoc],
      forall_mem_append.mpr ⟨all, all'⟩⟩
  · cases found
    exact ⟨taken, some, rfl, all⟩

/-! ## Where a numeral starts -/

theorem scanDigits_cons (digit : isDecimal c = true) :
    scanDigits (c :: rest)
      = (c :: rest.takeWhile isDecimal, rest.dropWhile isDecimal) := by
  rw [scanDigits, takeWhile_cons_of_pos digit, dropWhile_cons_of_pos digit]

/-- A digit starts a numeral. -/
theorem isSome_scanPlain?_digit (digit : isDecimal c = true) :
    (scanPlain? (c :: rest)).isSome = true := by
  unfold scanPlain?
  rw [scanDigits_cons digit]
  split
  · next same => cases same
  · next same => cases same
  · rfl
  · rfl

/-- A point before a digit starts a numeral. -/
theorem isSome_scanPlain?_point (digit : isDecimal c = true) :
    (scanPlain? ('.' :: c :: rest)).isSome = true := by
  have none : scanDigits ('.' :: c :: rest) = ([], '.' :: c :: rest) := rfl
  unfold scanPlain?
  rw [none]
  simp only [scanDigits_cons digit]
  rfl

/-- A numeral starts every text that it is the start of. -/
theorem isSome_scanPlain?_plain (shows : Plain run d) (rest : List Char) :
    (scanPlain? (run ++ rest)).isSome = true := by
  cases shows with
  | whole some all =>
    obtain ⟨c, run, rfl⟩ := exists_cons_of_ne_nil some
    exact isSome_scanPlain?_digit (all c (.head _))
  | @point whole fraction some all =>
    cases whole with
    | nil =>
      obtain ⟨c, fraction, rfl⟩ := exists_cons_of_ne_nil some
      exact isSome_scanPlain?_point (all c (.head _))
    | cons c whole => exact isSome_scanPlain?_digit (all c (.head _))

end Grapher.Decimal
