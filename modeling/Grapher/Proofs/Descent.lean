import Mathlib.Data.List.Infix

/-!
# Recursive descent with a budget

A recursive descent is a family of parsing functions that call each other, each with a budget that
is one smaller. A budget by itself says nothing about termination: it could be what stops the
functions. It is not, if every call that a function makes has fewer tokens before it, or as many and
goes to a function of a lower rank. Between two tokens, calls can then only go down the ranks, and
no round of calls comes back to a function before a token was taken.

`Descent.Steps` says this of one step of each function, without a list of its calls: whatever relates
the outcomes of the smaller calls under two budgets relates the outcomes of the step. Equality for
the relation gives that the outcome depends on smaller calls alone, and so, by induction, that it is
the same for all budgets from `Descent.need` on; the absence of other errors than refusals gives that
the budget is never what stops a function.
-/

set_option autoImplicit false

namespace Grapher

/-- From an outcome with a value to the outcome that comes before it. -/
theorem ok_of_bind {ε α β : Type} {outcome : Except ε α} {next : α → Except ε β} {result : β}
    (found : outcome >>= next = .ok result) :
    ∃ value, outcome = .ok value ∧ next value = .ok result := by
  cases outcome with
  | error reason => cases found
  | ok value => exact ⟨value, rfl, found⟩

/-- Parsing functions that call each other, with a budget for how deep the calls nest. -/
structure Descent (ε τ : Type) where
  /-- The functions, each with its arguments other than the budget and the tokens. -/
  Goal : Type
  /-- What a function finds. -/
  Found : Goal → Type
  /-- A function with a budget on the tokens still to be read. -/
  parse : (goal : Goal) → Nat → List τ → Except ε (Found goal × List τ)
  /-- The report of a function whose budget is used up. -/
  exhausted : ε
  /-- The errors that a function reports by itself, at the tokens before it. -/
  refuses : ε → Prop
  /-- The place of a function in the order in which they call each other before taking a token. -/
  rank : Goal → Nat
  /-- A number of tokens that are taken at least for what is found. -/
  size : (goal : Goal) → Found goal → Nat

/-- A relation between two outcomes that results and refusals have to themselves, and that goes on
from one part of a computation to the next. -/
structure Congruence {ε : Type} (refuses : ε → Prop)
    (Rel : (α : Type) → Except ε α → Except ε α → Prop) : Prop where
  refl : ∀ {α : Type} (outcome : Except ε α), (∀ reason, outcome = .error reason → refuses reason) →
    Rel α outcome outcome
  bind : ∀ {α β : Type} {outcome outcome' : Except ε α} {next next' : α → Except ε β},
    Rel α outcome outcome' → (∀ found, outcome = .ok found → Rel β (next found) (next' found)) →
      Rel β (outcome >>= next) (outcome' >>= next')

/-- Two outcomes at the same tokens are related, and what the first one leaves is a suffix of them,
shorter by the size of what it found. -/
structure Advances {ε τ α : Type} (Rel : (α : Type) → Except ε α → Except ε α → Prop)
    (rest : List τ) (size : α → Nat) (outcome outcome' : Except ε (α × List τ)) : Prop where
  related : Rel _ outcome outcome'
  leaves : ∀ found later, outcome = .ok (found, later) →
    later <:+ rest ∧ size found + later.length ≤ rest.length

section Advances

variable {ε τ α β : Type} {refuses : ε → Prop} {Rel : (α : Type) → Except ε α → Except ε α → Prop}
  {rest middle : List τ} {size : α → Nat} {more : β → Nat}

theorem Advances.mono {outcome outcome' : Except ε (α × List τ)} {less : α → Nat}
    (advances : Advances Rel middle size outcome outcome') (suffix : middle <:+ rest)
    (fewer : ∀ found, less found + middle.length ≤ rest.length + size found) :
    Advances Rel rest less outcome outcome' where
  related := advances.related
  leaves found later result := by
    obtain ⟨inner, taken⟩ := advances.leaves found later result
    have enough := fewer found
    exact ⟨inner.trans suffix, by omega⟩

/-- A token in front counts for one more. -/
theorem Advances.token {first : τ} {outcome outcome' : Except ε (α × List τ)} {less : α → Nat}
    (advances : Advances Rel rest size outcome outcome') (fewer : ∀ found, less found ≤ size found + 1) :
    Advances Rel (first :: rest) less outcome outcome' := by
  refine advances.mono (List.suffix_cons _ _) fun found => ?_
  have enough := fewer found
  rw [List.length_cons]
  omega

namespace Congruence

variable (congruence : Congruence refuses Rel)

include congruence

theorem ok {found : α} {later : List τ}
    (suffix : later <:+ rest) (taken : size found + later.length ≤ rest.length) :
    Advances Rel rest size (.ok (found, later)) (.ok (found, later)) where
  related := congruence.refl _ (by rintro _ ⟨⟩)
  leaves := by
    rintro _ _ ⟨⟩
    exact ⟨suffix, taken⟩

theorem okWithin {found : α} {later : List τ}
    (inner : later <:+ middle) (suffix : middle <:+ rest)
    (taken : size found + middle.length ≤ rest.length) :
    Advances Rel rest size (.ok (found, later)) (.ok (found, later)) := by
  have shorter := inner.length_le
  exact congruence.ok (inner.trans suffix) (by omega)

theorem error {reason : ε} (refusal : refuses reason) :
    Advances Rel rest size (.error reason) (.error reason) where
  related := congruence.refl _ (by rintro _ ⟨⟩; exact refusal)
  leaves := by rintro _ _ ⟨⟩

/-- A call at some of the tokens, and what is done with what it finds. -/
theorem call {outcome outcome' : Except ε (α × List τ)}
    (advances : Advances Rel middle size outcome outcome')
    {next next' : α × List τ → Except ε (β × List τ)}
    (goesOn : ∀ found later, later <:+ middle → size found + later.length ≤ middle.length →
      Advances Rel rest more (next (found, later)) (next' (found, later))) :
    Advances Rel rest more (outcome >>= next) (outcome' >>= next') where
  related := by
    refine congruence.bind advances.related ?_
    rintro ⟨found, later⟩ result
    obtain ⟨suffix, taken⟩ := advances.leaves found later result
    exact (goesOn found later suffix taken).related
  leaves := by
    cases result : outcome with
    | error reason => rintro _ _ ⟨⟩
    | ok result' =>
      obtain ⟨found, later⟩ := result'
      obtain ⟨suffix, taken⟩ := advances.leaves found later result
      exact (goesOn found later suffix taken).leaves

/-- A check that takes tokens away. -/
theorem check {outcome : Except ε (List τ)}
    (decided : ∀ reason, outcome = .error reason → refuses reason)
    (shorter : ∀ later, outcome = .ok later → later <:+ middle)
    {next next' : List τ → Except ε (β × List τ)}
    (goesOn : ∀ later, later <:+ middle → Advances Rel rest more (next later) (next' later)) :
    Advances Rel rest more (outcome >>= next) (outcome >>= next') where
  related := by
    refine congruence.bind (congruence.refl outcome decided) ?_
    intro later result
    exact (goesOn later (shorter later result)).related
  leaves := by
    cases result : outcome with
    | error reason => rintro _ _ ⟨⟩
    | ok later => exact (goesOn later (shorter later result)).leaves

/-- One thing, made into another. -/
theorem map (change : α → β)
    {first first' : Except ε (α × List τ)} (start : Advances Rel rest size first first')
    (fits : ∀ found, more (change found) ≤ size found) :
    Advances Rel rest more
      (do
        let (found, rest) ← first
        .ok (change found, rest))
      (do
        let (found, rest) ← first'
        .ok (change found, rest)) := by
  refine congruence.call start fun found later suffix taken => ?_
  have enough := fits found
  exact congruence.ok suffix (by omega)

/-- A first part, and then the further ones. -/
theorem row {γ : Type}
    {first first' : Except ε (α × List τ)} {tail tail' : List τ → Except ε (β × List τ)}
    (build : α → β → γ) (start : Advances Rel rest (fun _ => 1) first first')
    (others : ∀ later, later.length < rest.length →
      Advances Rel later more (tail later) (tail' later)) :
    Advances Rel rest (fun _ => 1)
      (do
        let (first, rest) ← first
        let (more, rest) ← tail rest
        .ok (build first more, rest))
      (do
        let (first, rest) ← first'
        let (more, rest) ← tail' rest
        .ok (build first more, rest)) := by
  refine congruence.call start fun found later suffix taken => ?_
  refine congruence.call (others later (by omega)) fun more last suffix' taken' => ?_
  exact congruence.ok (suffix'.trans suffix) (by omega)

/-- One more entry of a row at some of the tokens, and then the others. -/
theorem entry (entry : α → β) (suffix : middle <:+ rest)
    {next next' : Except ε (α × List τ)} {tail tail' : List τ → Except ε (List β × List τ)}
    (start : Advances Rel middle (fun _ => 1) next next')
    (others : ∀ last, last.length < rest.length →
      Advances Rel last List.length (tail last) (tail' last)) :
    Advances Rel rest List.length
      (do
        let (next, rest) ← next
        let (more, rest) ← tail rest
        .ok (entry next :: more, rest))
      (do
        let (next, rest) ← next'
        let (more, rest) ← tail' rest
        .ok (entry next :: more, rest)) := by
  have shorter := suffix.length_le
  refine congruence.call start fun found middle suffix' taken => ?_
  refine congruence.call (others middle (by omega)) fun more last suffix'' taken' => ?_
  refine congruence.ok (suffix''.trans (suffix'.trans suffix)) ?_
  rw [List.length_cons]
  omega

/-- The end of a row. -/
theorem noEntry :
    Advances Rel rest (fun row : List α => row.length) (.ok ([], rest)) (.ok ([], rest)) :=
  congruence.ok List.suffix_rfl (by rw [List.length_nil]; omega)

end Congruence

end Advances

/-! ## The relations in use -/

section Relations

variable {ε : Type} (refuses : ε → Prop)

theorem congruence_true : Congruence refuses fun _ _ _ => True :=
  ⟨fun _ _ => trivial, fun _ _ => trivial⟩

theorem congruence_eq : Congruence refuses fun _ outcome outcome' => outcome = outcome' where
  refl _ _ := rfl
  bind := by
    rintro _ _ outcome _ next next' rfl same
    cases outcome with
    | error reason => rfl
    | ok found => exact same found rfl

theorem congruence_refuses :
    Congruence refuses fun _ outcome _ => ∀ reason, outcome = .error reason → refuses reason where
  refl _ decided := decided
  bind := by
    intro _ _ outcome _ next next' decided later
    cases outcome with
    | error reason =>
      rintro _ ⟨⟩
      exact decided reason rfl
    | ok found => exact later found rfl

end Relations

namespace Descent

variable {ε τ : Type} (descent : Descent ε τ)

/-- The budget that a function needs at a number of tokens. The ranks are below sixteen, so it is
smaller for fewer tokens, and at the same tokens for a lower rank. -/
def need (goal : descent.Goal) (rest : List τ) : Nat := 16 * rest.length + descent.rank goal

/-- One step of each function: it calls only functions that need less, and hands on what relates
their outcomes under two budgets. -/
structure Steps : Prop where
  rank_pos : ∀ goal, 0 < descent.rank goal
  rank_lt : ∀ goal, descent.rank goal < 16
  zero : ∀ goal rest, descent.parse goal 0 rest = .error descent.exhausted
  succ : ∀ {Rel : (α : Type) → Except ε α → Except ε α → Prop},
    Congruence descent.refuses Rel → ∀ budget budget' goal rest,
      (∀ other later, descent.need other later < descent.need goal rest →
        Advances Rel later (descent.size other) (descent.parse other budget later)
          (descent.parse other budget' later)) →
      Advances Rel rest (descent.size goal) (descent.parse goal (budget + 1) rest)
        (descent.parse goal (budget' + 1) rest)

/-- The functions of a descent end by themselves, with tokens taken on every round of calls. -/
structure Terminates : Prop where
  /-- No function comes round to itself before a token is taken: the ranks bound the calls between
  two tokens, and an outcome depends on calls only that have fewer tokens before them, or as many
  and a lower rank. -/
  descends : (∀ goal, descent.rank goal < 16) ∧ ∀ budget budget' goal rest,
    (∀ other later, later.length < rest.length ∨
        later.length = rest.length ∧ descent.rank other < descent.rank goal →
      descent.parse other budget later = descent.parse other budget' later) →
    descent.parse goal (budget + 1) rest = descent.parse goal (budget' + 1) rest
  /-- What a function leaves is a suffix of its tokens, without as many as its result took. -/
  consumes : ∀ budget goal rest found later,
    descent.parse goal budget rest = .ok (found, later) →
      later <:+ rest ∧ descent.size goal found + later.length ≤ rest.length
  /-- Every function ends with one outcome, a result or a refusal, which it has with all budgets from
  one on that is linear in the number of tokens. -/
  settles : ∀ goal rest, ∃ outcome, (∀ reason, outcome = .error reason → descent.refuses reason) ∧
    ∀ budget, descent.need goal rest ≤ budget → descent.parse goal budget rest = outcome

variable {descent} (steps : descent.Steps)

namespace Steps

include steps

theorem need_lt_iff {goal other : descent.Goal} {rest later : List τ} :
    descent.need other later < descent.need goal rest ↔ later.length < rest.length ∨
      later.length = rest.length ∧ descent.rank other < descent.rank goal := by
  have first := steps.rank_lt goal
  have second := steps.rank_lt other
  unfold need
  omega

/-- With every budget, what is found has taken its tokens. -/
theorem advances (budget : Nat) (goal : descent.Goal) (rest : List τ) :
    Advances (fun _ _ _ => True) rest (descent.size goal) (descent.parse goal budget rest)
      (descent.parse goal budget rest) := by
  induction budget generalizing goal rest with
  | zero =>
    rw [steps.zero]
    exact ⟨trivial, by rintro _ _ ⟨⟩⟩
  | succ budget ih =>
    exact steps.succ (congruence_true _) budget budget goal rest fun other later _ => ih other later

/-- With budgets as large as needed, the outcome is the same, and no error but a refusal. -/
theorem settled {goal : descent.Goal} {rest : List τ} {budget budget' : Nat}
    (enough : descent.need goal rest ≤ budget) (enough' : descent.need goal rest ≤ budget') :
    descent.parse goal budget rest = descent.parse goal budget' rest ∧
      ∀ reason, descent.parse goal budget rest = .error reason → descent.refuses reason := by
  -- On the budget; the calls of a step need less than the step, so that one less is enough.
  induction budget generalizing goal rest budget' with
  | zero =>
    have positive := steps.rank_pos goal
    unfold need at enough
    omega
  | succ budget ih =>
    obtain ⟨budget', rfl⟩ : ∃ less, budget' = less + 1 := by
      have positive := steps.rank_pos goal
      unfold need at enough'
      exact ⟨budget' - 1, by omega⟩
    constructor
    · refine (steps.succ (congruence_eq _) budget budget' goal rest ?_).related
      intro other later less
      exact ⟨(ih (by omega) (by omega)).1, (steps.advances budget other later).leaves⟩
    · refine (steps.succ (congruence_refuses _) budget budget' goal rest ?_).related
      intro other later less
      have enough'' : descent.need other later ≤ budget := by omega
      exact ⟨(ih enough'' enough'').2, (steps.advances budget other later).leaves⟩

theorem terminates : descent.Terminates where
  descends := by
    refine ⟨steps.rank_lt, fun budget budget' goal rest same => ?_⟩
    refine (steps.succ (congruence_eq _) budget budget' goal rest ?_).related
    intro other later less
    exact ⟨same other later (steps.need_lt_iff.mp less), (steps.advances budget other later).leaves⟩
  consumes budget goal rest := (steps.advances budget goal rest).leaves
  settles goal rest := by
    have enough := Nat.le_refl (descent.need goal rest)
    exact ⟨_, (steps.settled enough enough).2, fun budget more => (steps.settled more enough).1⟩

end Steps

end Descent

end Grapher
