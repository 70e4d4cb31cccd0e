import Grapher.Proofs.Markup.Marker

/-!
# Primes and exponents

An operand may have prime marks and an exponent behind it, and the exponent may be made of prime
marks as well. Which marks are taken depends on the tokens up to the next name only
(`applyPrimes_append`, `primesRaised_append`). Behind the group of a marker, further marks leave a
tree without a reading; with no exponent, the group itself is what follows the primed name
(`follower_of_parsePower`).
-/

set_option autoImplicit false

namespace Grapher.Markup

variable {m : Marker} {node : Node} {budget : Nat}

/-- Tokens that go on with a name, or not at all. -/
def Unmarked (tail : Rest) : Prop :=
  tail = [] ∨ ∃ name position rest, tail = ⟨.name name, position⟩ :: rest

theorem Marker.unmarked_tokens (m : Marker) (z : String) : Unmarked (m.tokens z) :=
  .inr ⟨z, m.namePosition, m.primed, rfl⟩

/-! ## Prime marks -/

/-- Prime marks that stand next mark the tree and leave the other tokens. -/
theorem applyPrimes_append (front : Rest) :
    ∃ count later, later <:+ front ∧ ∀ node tail, Unmarked tail →
      applyPrimes node (front ++ tail) = (primed count node, later ++ tail) := by
  induction front with
  | nil =>
    refine ⟨0, [], List.suffix_rfl, ?_⟩
    rintro node _ (rfl | ⟨name, position, rest, rfl⟩) <;> rfl
  | cons located front ih =>
    obtain ⟨token, position⟩ := located
    cases token with
    | prime marks =>
      obtain ⟨count, later, shorter, same⟩ := ih
      refine ⟨marks + count, later, shorter.trans (List.suffix_cons _ _),
        fun node tail unmarked => ?_⟩
      rw [List.cons_append, applyPrimes, same _ _ unmarked, primed_add]
    | _ => exact ⟨0, _, List.suffix_rfl, fun node tail unmarked => rfl⟩

theorem applyPrimes_eq (rest : Rest) :
    ∃ count later, later <:+ rest ∧ ∀ node, applyPrimes node rest = (primed count node, later) := by
  obtain ⟨count, later, shorter, same⟩ := applyPrimes_append rest
  exact ⟨count, later, shorter, fun node => by simpa using same node [] (.inl rfl)⟩

/-! ## Exponents -/

/-- The prime marks of an exponent that is made of them, behind the sign of a power. -/
def primesRaised (base : Node) : Rest → Option (Parsed Node)
  | ⟨.prime count, position⟩ :: rest => some (applyPrimes base (⟨.prime count, position⟩ :: rest))
  | ⟨.braceOpen, _⟩ :: ⟨.prime count, _⟩ :: ⟨.braceClose, _⟩ :: rest =>
    some (primed count base, rest)
  | _ => none

/-- An operand with its primes, together with its exponent. -/
def raised (budget : Nat) (mode : Mode) (base : Node) (rest : Rest) :
    Except ParseError (Parsed Node) :=
  match rest with
  | ⟨.sign .power, _⟩ :: ⟨.prime count, position⟩ :: rest =>
    .ok (applyPrimes base (⟨.prime count, position⟩ :: rest))
  | ⟨.sign .power, _⟩ :: ⟨.braceOpen, _⟩ :: ⟨.prime count, _⟩ :: ⟨.braceClose, _⟩ :: rest =>
    .ok (primed count base, rest)
  | ⟨.sign .power, _⟩ :: rest => do
    let (exponent, rest) ← parseScript budget mode rest
    .ok (.of .power [base, exponent], rest)
  | ⟨.sign .subscript, position⟩ :: rest =>
    .error (misplaced .noSubscript (⟨.sign .subscript, position⟩ :: rest))
  | rest => .ok (base, rest)

theorem parsePower_succ (budget : Nat) (mode : Mode) (rest : Rest) :
    parsePower (budget + 1) mode rest
      = parseOperand budget mode rest >>= fun (base, rest) =>
        raised budget mode (applyPrimes base rest).1 (applyPrimes base rest).2 := rfl

/-- An exponent is made of prime marks or is a script. -/
theorem raised_power (budget : Nat) (mode : Mode) (base : Node) (position : Nat) (rest : Rest) :
    raised budget mode base (⟨.sign .power, position⟩ :: rest)
      = match primesRaised base rest with
        | some found => .ok found
        | none => parseScript budget mode rest >>= fun (exponent, rest) =>
          .ok (.of .power [base, exponent], rest) := by
  rcases rest with _ | ⟨⟨token, place⟩, rest⟩
  · rfl
  · cases token with
    | braceOpen =>
      rcases rest with _ | ⟨⟨inside, place⟩, _ | ⟨⟨closing, place⟩, rest⟩⟩
      · rfl
      · cases inside <;> rfl
      · cases inside with
        | prime count => cases closing <;> rfl
        | _ => rfl
    | _ => rfl

theorem primesRaised_append (front : Rest) :
    (∀ base tail, Unmarked tail → primesRaised base (front ++ tail) = none) ∨
      ∃ count later, later <:+ front ∧ ∀ base tail, Unmarked tail →
        primesRaised base (front ++ tail) = some (primed count base, later ++ tail) := by
  rcases front with _ | ⟨⟨token, position⟩, front⟩
  · refine .inl ?_
    rintro base _ (rfl | ⟨name, position, rest, rfl⟩) <;> rfl
  · cases token with
    | prime marks =>
      obtain ⟨count, later, shorter, same⟩ := applyPrimes_append (⟨.prime marks, position⟩ :: front)
      exact .inr ⟨count, later, shorter,
        fun base tail unmarked => congrArg some (same base tail unmarked)⟩
    | braceOpen =>
      rcases front with _ | ⟨⟨inside, place⟩, _ | ⟨⟨closing, place⟩, front⟩⟩
      · refine .inl ?_
        rintro base _ (rfl | ⟨name, position, rest, rfl⟩) <;> rfl
      · refine .inl ?_
        rintro base _ (rfl | ⟨name, position, rest, rfl⟩) <;> cases inside <;> rfl
      · cases inside with
        | prime count =>
          cases closing with
          | braceClose => exact .inr ⟨count, front, ⟨[_, _, _], rfl⟩, fun _ _ _ => rfl⟩
          | _ => exact .inl fun _ _ _ => rfl
        | _ => exact .inl fun _ _ _ => rfl
    | _ => exact .inl fun _ _ _ => rfl

theorem primesRaised_eq (rest : Rest) :
    (∀ base, primesRaised base rest = none) ∨
      ∃ count later, later <:+ rest ∧
        ∀ base, primesRaised base rest = some (primed count base, later) := by
  rcases primesRaised_append rest with none | ⟨count, later, shorter, same⟩
  · exact .inl fun base => by simpa using none base [] (.inl rfl)
  · exact .inr ⟨count, later, shorter, fun base => by simpa using same base [] (.inl rfl)⟩

/-! ## The group behind the prime -/

/-- Trees that are no group and have no reading. -/
def Unread (node : Node) : Prop := node.items? = none ∧ ∀ here, Reading.read here node = none

theorem unread_prime {head : Head} {args : List Node} : Unread (.of .prime [.op head args]) := by
  refine ⟨rfl, fun here => ?_⟩
  rw [Reading.read_op]
  rfl

theorem primed_succ (count : Nat) (node : Node) :
    primed (count + 1) node = .of .prime [primed count node] := by
  rw [primed_add count 1, primed, primed]

theorem unread_primed (operation : ∃ head args, node = .op head args) (count : Nat) :
    Unread (primed (count + 1) node) := by
  obtain ⟨head, args, rfl⟩ := operation
  rw [primed_succ]
  cases count with
  | zero => exact unread_prime
  | succ count =>
    rw [primed_succ]
    exact unread_prime

theorem Unread.power {base : Node} (unread : Unread base) (exponent : Node) :
    Unread (.of .power [base, exponent]) := by
  refine ⟨rfl, fun here => ?_⟩
  rw [Reading.read_op]
  simp [Reading.readOperation, Reading.readOperator, Reading.pair?, unread.2 here]

/-- A tree without a reading has none with an exponent. -/
theorem Unread.raised {base : Node} (unread : Unread base)
    (operation : ∃ head args, base = .op head args) {mode : Mode} {rest later : Rest}
    (found : raised budget mode base rest = .ok (node, later)) : Unread node := by
  rcases rest with _ | ⟨⟨token, position⟩, rest⟩
  · cases found
    exact unread
  · cases token with
    | sign sign =>
      cases sign with
      | power =>
        rw [raised_power] at found
        rcases primesRaised_eq rest with script | ⟨count, after, -, same⟩
        · rw [script] at found
          obtain ⟨⟨exponent, _⟩, -, found⟩ := ok_of_bind found
          cases found
          exact unread.power exponent
        · rw [same] at found
          cases found
          cases count with
          | zero => exact unread
          | succ count => exact unread_primed operation count
      | subscript => cases found
      | _ =>
        cases found
        exact unread
    | _ =>
      cases found
      exact unread

theorem groupTree_operation (items : List Node) :
    ∃ head args, groupTree items = .op head args := by
  rcases items with _ | ⟨first, _ | ⟨second, items⟩⟩ <;> exact ⟨_, _, rfl⟩

/-- The marks of each prime are counted. -/
def Counted (rest : Rest) : Prop := ∀ located ∈ rest, located.token ≠ .prime 0

/-- What comes behind the group does not take it away from the name, unless it is a power. -/
theorem follower_of_raised (unraised : m.Unraised) (counted : Counted m.rest) {mode : Mode}
    {items : List Node} {after : Rest}
    (group : parseItems budget mode m.bracket m.rest = .ok (items, after)) {budget' : Nat}
    {later : Rest} (found : raised budget' mode (applyPrimes (groupTree items) after).1
      (applyPrimes (groupTree items) after).2 = .ok (node, later)) : m.Follower node := by
  have isGroup : m.IsGroup items := ⟨budget, mode, after, group⟩
  rcases after with _ | ⟨⟨token, position⟩, after⟩
  · cases found
    exact .inl ⟨items, isGroup, rfl⟩
  · cases token with
    | prime marks =>
      cases marks with
      | zero =>
        have member := (suffix_parse (.items m.bracket) group).subset (.head _)
        exact absurd rfl (counted _ member)
      | succ marks =>
        obtain ⟨count, rest, -, same⟩ := applyPrimes_eq after
        rw [applyPrimes, same, ← primed_add, Nat.add_right_comm] at found
        have unread := unread_primed (groupTree_operation items) (marks + count)
        exact .inr (unread.raised ⟨_, _, primed_succ _ _⟩ found)
    | sign sign =>
      cases sign with
      | power => exact absurd rfl (unraised budget mode items _ group position after)
      | subscript => cases found
      | _ =>
        cases found
        exact .inl ⟨items, isGroup, rfl⟩
    | _ =>
      cases found
      exact .inl ⟨items, isGroup, rfl⟩

/-- What is read from the bracket of a marker on is its group, or has no reading. -/
theorem follower_of_parsePower (unraised : m.Unraised) (counted : Counted m.rest) {mode : Mode}
    {later : Rest} (found : parsePower budget mode m.group = .ok (node, later)) :
    m.Follower node ∧ later <:+ m.rest := by
  have consumes := descent_steps.terminates.consumes budget (.power, mode) m.group node later found
  have behind : later <:+ m.rest := by
    rcases List.suffix_cons_iff.mp consumes.1 with same | less
    · have taken : 1 + later.length ≤ m.group.length := consumes.2
      rw [same, Marker.group] at taken
      omega
    · exact less
  refine ⟨?_, behind⟩
  rcases budget with _ | _ | budget
  · cases found
  · cases found
  · obtain ⟨⟨group, after⟩, bracketed, found⟩ := ok_of_bind found
    obtain ⟨⟨items, rest⟩, outcome, bracketed⟩ := ok_of_bind bracketed
    cases bracketed
    exact follower_of_raised unraised counted outcome found

end Grapher.Markup
