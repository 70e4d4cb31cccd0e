import Grapher.Proofs.Markup.Descent
import Grapher.Proofs.Markup.Growth

/-!
# A marker on its way through the parser

A marker is a name with one prime in front of a bracket. This module follows the parsing functions
over tokens in which one marker stands, for all names at once: the functions do the same for every
name, and once the name is taken, the tokens that are left are the same as well.

`Tracked` says what can come of a function at tokens with a marker in them. It refuses them, or it
ends in front of the marker with the same result for all names, or it ends behind the name, in front
of the prime, in front of the bracket, or further on. The result is then a family of trees, and
`Goal.Passes` says what is known of it at each of the three places. What ends further on bears the
name, or does not depend on it.
-/

set_option autoImplicit false

namespace Grapher.Markup

variable {mode : Mode} {budget : Nat} {later : Rest} {α β : Type}

/-- A name with one prime in front of a bracket, with what comes behind the bracket. The name itself
is left open. -/
structure Marker where
  namePosition : Nat
  primePosition : Nat
  bracketPosition : Nat
  bracket : Bracket
  rest : Rest

namespace Marker

/-- The tokens from the bracket on. -/
def group (m : Marker) : Rest := ⟨.opening m.bracket, m.bracketPosition⟩ :: m.rest

/-- The tokens from the prime on. -/
def primed (m : Marker) : Rest := ⟨.prime 1, m.primePosition⟩ :: m.group

/-- The tokens from the name on. -/
def tokens (m : Marker) (name : String) : Rest := ⟨.name name, m.namePosition⟩ :: m.primed

/-- The items that the bracket opens. -/
def IsGroup (m : Marker) (items : List Node) : Prop :=
  ∃ budget mode after, parseItems budget mode m.bracket m.rest = .ok (items, after)

/-- The group of a marker is not raised to a power. -/
def Unraised (m : Marker) : Prop :=
  ∀ budget mode items after, parseItems budget mode m.bracket m.rest = .ok (items, after) →
    ∀ position later, after ≠ ⟨.sign .power, position⟩ :: later

/-- The bare argument of a function word ends between a marker and its group. -/
def Attached (m : Marker) (before : Rest) (name : String) : Prop :=
  ∃ word function position between budget mode node,
    ⟨.function word function, position⟩ :: between <:+ before ∧
      parseFunction budget mode word function (between ++ m.tokens name) = .ok (node, m.group)

end Marker

/-! ## Places behind the name -/

/-- Where a function ends that has taken the name of a marker, with what is known of the results at
each place. -/
inductive Passed (m : Marker) {α : Type} (prime group beyond : (String → α) → Prop)
    (found : String → α) : Rest → Prop where
  | prime (holds : prime found) : Passed m prime group beyond found m.primed
  | group (holds : group found) : Passed m prime group beyond found m.group
  | beyond {later : Rest} (shorter : later <:+ m.rest) (holds : beyond found) :
    Passed m prime group beyond found later

/-- Functions that never end in front of the bracket, and of whose results nothing is known in front
of the prime. -/
abbrev Marker.Along (m : Marker) {α : Type} (beyond : (String → α) → Prop) :
    (String → α) → Rest → Prop :=
  Passed m (fun _ => True) (fun _ => False) beyond

theorem Passed.ofAlong {m : Marker} {prime group beyond : (String → α) → Prop} {found : String → α}
    (any : ∀ found, prime found) (place : m.Along beyond found later) :
    Passed m prime group beyond found later := by
  cases place with
  | prime holds => exact .prime (any found)
  | group holds => exact holds.elim
  | beyond shorter holds => exact .beyond shorter holds

/-- What can come of a function at tokens that end with a marker, for all names at once. -/
inductive Tracked (m : Marker) (front : Rest) {α : Type} (passes : (String → α) → Rest → Prop)
    (outcome : String → Except ParseError (Parsed α)) : Prop where
  | refused (all : ∀ z, ∃ reason, outcome z = .error reason)
  | early (found : α) {later : Rest} (shorter : later <:+ front)
    (all : ∀ z, outcome z = .ok (found, later ++ m.tokens z))
  | passed (found : String → α) (later : Rest) (holds : passes found later)
    (all : ∀ z, outcome z = .ok (found z, later))

namespace Tracked

variable {m : Marker} {front : Rest} {α β γ : Type} {passes : (String → α) → Rest → Prop}
  {passes' : (String → β) → Rest → Prop} {outcome : String → Except ParseError (Parsed α)}

theorem longer {rest : Rest} (shorter : front <:+ rest) (tracked : Tracked m front passes outcome) :
    Tracked m rest passes outcome := by
  rcases tracked with all | ⟨found, less, all⟩ | ⟨found, later, holds, all⟩
  · exact .refused all
  · exact .early found (less.trans shorter) all
  · exact .passed found later holds all

theorem cons {located : Located} (tracked : Tracked m front passes outcome) :
    Tracked m (located :: front) passes outcome :=
  tracked.longer (List.suffix_cons _ _)

theorem kept (found : α) : Tracked m front passes fun z => .ok (found, front ++ m.tokens z) :=
  .early found List.suffix_rfl fun _ => rfl

theorem passing {prime group beyond : (String → α) → Prop} {found : String → α}
    (shorter : later <:+ m.rest) (holds : beyond found) :
    Tracked m front (Passed m prime group beyond) fun z => .ok (found z, later) :=
  .passed found later (.beyond shorter holds) fun _ => rfl

/-- A choice that does not depend on the name. -/
theorem choice {test : String → Bool} (same : ∀ z z', test z = test z')
    {first second : String → Except ParseError (Parsed α)} (yes : Tracked m front passes first)
    (no : Tracked m front passes second) :
    Tracked m front passes fun z => if test z then first z else second z := by
  simp only [same _ ""]
  cases test "" with
  | true => exact yes
  | false => exact no

theorem weaken {weaker : (String → α) → Rest → Prop}
    (implied : ∀ {found later}, passes found later → weaker found later)
    (tracked : Tracked m front passes outcome) : Tracked m front weaker outcome := by
  rcases tracked with all | ⟨found, less, all⟩ | ⟨found, later, holds, all⟩
  · exact .refused all
  · exact .early found less all
  · exact .passed found later (implied holds) all

/-- One function after another. -/
theorem bind (first : Tracked m front passes outcome)
    {next : Parsed α → Except ParseError (Parsed β)}
    (early : ∀ found later, later <:+ front →
      Tracked m later passes' fun z => next (found, later ++ m.tokens z))
    (late : ∀ found later, passes found later →
      Tracked m front passes' fun z => next (found z, later)) :
    Tracked m front passes' fun z => outcome z >>= next := by
  rcases first with all | ⟨found, shorter, all⟩ | ⟨found, later, holds, all⟩
  · refine .refused fun z => ?_
    obtain ⟨reason, same⟩ := all z
    exact ⟨reason, by rw [same]; rfl⟩
  · simp only [all]
    exact (early found _ shorter).longer shorter
  · simp only [all]
    exact late found _ holds

/-- One function after another, where the first one never ends in front of the bracket. -/
theorem bindAlong {beyond : (String → α) → Prop} (first : Tracked m front (m.Along beyond) outcome)
    {next : Parsed α → Except ParseError (Parsed β)}
    (early : ∀ found later, later <:+ front →
      Tracked m later passes' fun z => next (found, later ++ m.tokens z))
    (atPrime : ∀ found : String → α, Tracked m front passes' fun z => next (found z, m.primed))
    (late : ∀ found later, later <:+ m.rest → beyond found →
      Tracked m front passes' fun z => next (found z, later)) :
    Tracked m front passes' fun z => outcome z >>= next := by
  refine first.bind early fun found later place => ?_
  cases place with
  | prime holds => exact atPrime found
  | group holds => exact holds.elim
  | beyond shorter holds => exact late found later shorter holds

/-- A function at tokens behind the marker, where it does the same for all names. -/
theorem fixed (outcome : Except ParseError γ) {next : String → γ → Except ParseError (Parsed β)}
    (more : ∀ found, outcome = .ok found → Tracked m front passes' fun z => next z found) :
    Tracked m front passes' fun z => outcome >>= next z := by
  cases outcome with
  | error reason => exact .refused fun z => ⟨reason, rfl⟩
  | ok found => exact more found rfl

/-- A function that refuses the tokens behind the marker. -/
theorem stopped {outcome : Except ParseError γ} (refused : ∃ reason, outcome = .error reason)
    {next : String → γ → Except ParseError (Parsed β)} :
    Tracked m front passes' fun z => outcome >>= next z := by
  obtain ⟨reason, rfl⟩ := refused
  exact .refused fun _ => ⟨reason, rfl⟩

/-- A function of what is found, with what it keeps at each place. -/
theorem mapAt {prime group beyond : (String → α) → Prop} {prime' group' grown : (String → β) → Prop}
    (first : Tracked m front (Passed m prime group beyond) outcome) (build : α → β)
    (atPrime : ∀ {found}, prime found → prime' fun z => build (found z))
    (atGroup : ∀ {found}, group found → group' fun z => build (found z))
    (builds : ∀ {found}, beyond found → grown fun z => build (found z)) :
    Tracked m front (Passed m prime' group' grown) fun z =>
      outcome z >>= fun (found, rest) => .ok (build found, rest) := by
  refine first.bind (fun found later _ => .kept (build found))
    fun found later place => .passed (fun z => build (found z)) later ?_ fun _ => rfl
  cases place with
  | prime holds => exact .prime (atPrime holds)
  | group holds => exact .group (atGroup holds)
  | beyond shorter holds => exact .beyond shorter (builds holds)

theorem map {beyond : (String → α) → Prop} {grown : (String → β) → Prop}
    (first : Tracked m front (m.Along beyond) outcome) (build : α → β)
    (builds : ∀ {found}, beyond found → grown fun z => build (found z)) :
    Tracked m front (m.Along grown) fun z =>
      outcome z >>= fun (found, rest) => .ok (build found, rest) :=
  first.mapAt build (fun _ => trivial) id builds

/-- An operation around a tree. -/
theorem grow {outcome : String → Except ParseError (Parsed Node)} (build : Node → Node)
    (bears : ∀ {tree}, Bears m.IsGroup tree → Bears m.IsGroup fun z => build (tree z))
    (first : Tracked m front (m.Along (Grown m.IsGroup)) outcome) :
    Tracked m front (m.Along (Grown m.IsGroup)) fun z =>
      outcome z >>= fun (found, rest) => .ok (build found, rest) :=
  first.map build fun grown => grown.map build bears

end Tracked

theorem suffix_parse (goal : Goal) {rest : Rest} {found : goal.Found}
    (same : goal.parse budget mode rest = .ok (found, later)) : later <:+ rest :=
  (descent_steps.terminates.consumes budget (goal, mode) rest found later same).1

/-- A call behind the marker, which finds the same for all names. -/
theorem Tracked.behind {m : Marker} {front : Rest} {prime group grown : (String → β) → Prop}
    (goal : Goal) (shorter : later <:+ m.rest) {build : String → goal.Found → β}
    (builds : ∀ more, grown fun z => build z more) :
    Tracked m front (Passed m prime group grown) fun z =>
      goal.parse budget mode later >>= fun (more, rest) => .ok (build z more, rest) := by
  refine .fixed _ fun (more, rest) same => ?_
  exact .passing ((suffix_parse goal same).trans shorter) (builds more)

/-! ## Rows -/

/-- A function that goes on with a row, if it finds more of it. -/
structure RowTail (m : Marker) (before : Rest) {α : Type} (beyond : (String → α) → Prop)
    (tail : Rest → Except ParseError (Parsed α)) : Prop where
  early : ∀ front, front <:+ before →
    Tracked m front (m.Along beyond) fun z => tail (front ++ m.tokens z)
  stops : ∀ found later, tail m.primed = .ok (found, later) → later = m.primed
  shorter : ∀ rest found later, tail rest = .ok (found, later) → later <:+ rest

section Rows

variable {m : Marker} {before front : Rest} {γ : Type} {bears : (String → γ) → Prop}
  {outcome : String → Except ParseError (Parsed Node)}
  {tail : Rest → Except ParseError (Parsed (List γ))}

/-- What a tail makes of the tokens behind the marker is the same for all names. -/
theorem RowTail.behind {beyond : (String → α) → Prop} {grown : (String → β) → Prop}
    {tail : Rest → Except ParseError (Parsed (List γ))} {tailBeyond : (String → List γ) → Prop}
    (more : RowTail m before tailBeyond tail) {found : String → α}
    (place : m.Along beyond found later) (build : α → List γ → β)
    (builds : ∀ entries, beyond found → grown fun z => build (found z) entries) :
    Tracked m front (m.Along grown) fun z =>
      tail later >>= fun (entries, rest) => .ok (build (found z) entries, rest) := by
  refine .fixed (tail later) fun (entries, last) same => ?_
  refine .passed (fun z => build (found z) entries) last ?_ fun _ => rfl
  cases place with
  | prime holds =>
    rw [more.stops entries last same]
    exact .prime trivial
  | group holds => exact holds.elim
  | beyond shorter holds =>
    exact .beyond ((more.shorter _ entries last same).trans shorter) (builds entries holds)

/-- A first operand with the row that goes on from it. -/
theorem Tracked.row (within : front <:+ before) {build : Node → List γ → Node}
    (builds : Builds m.IsGroup bears build)
    (first : Tracked m front (m.Along (Grown m.IsGroup)) outcome)
    (more : RowTail m before (GrownRow bears) tail) :
    Tracked m front (m.Along (Grown m.IsGroup)) fun z =>
      outcome z >>= fun (first, rest) => tail rest >>= fun (more, rest) =>
        .ok (build first more, rest) := by
  refine first.bind (fun first later shorter => ?_) fun found later place => ?_
  · exact (more.early later (shorter.trans within)).map (build first)
      fun grown => grown.map (build first) (builds.entry first)
  · exact more.behind place build fun entries grown => grown.map (build · entries)
      (builds.first entries)

/-- An entry of a row with the row that goes on from it. -/
theorem Tracked.entry (within : front <:+ before) (make : Node → γ)
    (bearing : ∀ {tree}, Bears m.IsGroup tree → bears fun z => make (tree z))
    (first : Tracked m front (m.Along (Grown m.IsGroup)) outcome)
    (more : RowTail m before (GrownRow bears) tail) :
    Tracked m front (m.Along (GrownRow bears)) fun z =>
      outcome z >>= fun (next, rest) => tail rest >>= fun (more, rest) =>
        .ok (make next :: more, rest) := by
  refine first.bind (fun next later shorter => ?_) fun found later place => ?_
  · exact (more.early later (shorter.trans within)).map (make next :: ·)
      (GrownRow.cons (make next))
  · exact more.behind place (make · :: ·) fun entries grown =>
      grown.row make bearing entries

/-- The tail of a row, which goes on with its signs only. -/
theorem Tracked.rowTail {τ : Type} {entry : Sign → Option τ} {make : τ → Node → γ}
    {operand : Nat → Mode → Rest → Except ParseError (Parsed Node)}
    {tail : Nat → Mode → Rest → Except ParseError (Parsed (List γ))}
    (isTail : IsTail entry make operand tail) (within : front <:+ before)
    (bearing : ∀ tag {tree}, Bears m.IsGroup tree → bears fun z => make tag (tree z))
    (first : ∀ ⦃front : Rest⦄, front <:+ before →
      Tracked m front (m.Along (Grown m.IsGroup)) fun z => operand budget mode (front ++ m.tokens z))
    (more : RowTail m before (GrownRow bears) (tail budget mode)) :
    Tracked m front (m.Along (GrownRow bears)) fun z =>
      tail (budget + 1) mode (front ++ m.tokens z) := by
  rcases front with _ | ⟨⟨token, position⟩, front⟩
  · exact .early [] List.suffix_rfl fun z => isTail.cons budget mode (.name z) _ _
  · have inner : front <:+ before := (List.suffix_cons _ _).trans within
    simp only [List.cons_append, isTail.cons]
    cases token.bySign entry with
    | none => exact .kept []
    | some tag => exact (Tracked.entry inner (make tag) (bearing tag) (first inner) more).cons

end Rows

/-! ## Closing tokens -/

/-- What stands between brackets, braces or bars ends in front of the marker or further on. -/
theorem Tracked.closed {m : Marker} {front : Rest} {beyond : (String → α) → Prop}
    {prime group grown : (String → β) → Prop} {outcome : String → Except ParseError (Parsed α)}
    (inside : Tracked m front (m.Along beyond) outcome) {check : Rest → Except ParseError Rest}
    {opening : Token} (checks : Checks check opening) (build : α → β)
    (builds : ∀ {found}, beyond found → grown fun z => build (found z)) :
    Tracked m front (Passed m prime group grown) fun z =>
      outcome z >>= fun (found, rest) => check rest >>= fun rest => .ok (build found, rest) := by
  refine inside.bindAlong (fun found later _ => ?_) (fun found => ?_) fun found later shorter holds => ?_
  · cases later with
    | nil =>
      refine .refused fun z => ?_
      obtain ⟨expectation, same⟩ := checks.refused (.name z) (by rintro ⟨⟩)
      exact ⟨_, by simp only [List.nil_append, Marker.tokens, same]; rfl⟩
    | cons located later =>
      rcases checks.cons located.token with ⟨-, taken⟩ | ⟨expectation, refused⟩
      · simp only [List.cons_append, taken]
        exact .early (build found) (List.suffix_cons _ _) fun _ => rfl
      · exact .refused fun z => ⟨_, by simp only [List.cons_append, refused]; rfl⟩
  · obtain ⟨expectation, refused⟩ := checks.refused (.prime 1) (by rintro ⟨⟩)
    exact .refused fun z => ⟨_, by simp only [Marker.primed, refused]; rfl⟩
  · refine .fixed (check later) fun rest same => ?_
    exact .passing ((checks.suffix same).trans shorter) (builds holds)

/-! ## What the functions find -/

/-- What a prime can stand behind: the name itself, or an operation, which no prime should mark. -/
def Markable (tree : String → Node) : Prop :=
  (∀ z, tree z = nameTree z) ∨ ∀ z, ∃ head args, tree z = .op head args

namespace Marker

variable (m : Marker)

/-- What can stand in front of the bracket: the prime of the name, or a prime that marks something
else. -/
def Marked (tree : String → Node) : Prop :=
  (∀ z, tree z = primedTree z) ∨ Bears m.IsGroup tree

/-- What comes behind a primed name: its group, or something without a reading. -/
def Follower (node : Node) : Prop :=
  (∃ items, m.IsGroup items ∧ node = groupTree items) ∨
    node.items? = none ∧ ∀ here, Reading.read here node = none

/-- The factors of a juxtaposition. They may hold the primed name and its group next to each other,
and bear the name then as a whole. -/
def GrownFactors (row : String → List Node) : Prop :=
  GrownRow (Bears m.IsGroup) row ∨ ∃ left right node,
    (∀ z, row z = left ++ primedTree z :: node :: right) ∧ m.Follower node

end Marker

variable {m : Marker}

theorem Markable.marked {tree : String → Node} (markable : Markable tree) :
    m.Marked fun z => .of .prime [tree z] := by
  rcases markable with name | operation
  · exact .inl fun z => congrArg (fun node => Node.of .prime [node]) (name z)
  · exact .inr (.misplaced operation)

theorem Marker.Follower.bears {node : Node} (follower : m.Follower node) (left right : List Node) :
    Bears m.IsGroup fun z => .of .invisible (left ++ primedTree z :: node :: right) := by
  rcases follower with ⟨items, group, rfl⟩ | ⟨noGroup, unread⟩
  · exact .applied left right group
  · exact .unread left right noGroup unread

/-- The tree of the factors of a juxtaposition. -/
def factorsTree : List Node → Node
  | [] => .of .invisible []
  | first :: more => joined .invisible first more

theorem Marker.GrownFactors.tree {row : String → List Node} (grown : m.GrownFactors row) :
    Grown m.IsGroup fun z => factorsTree (row z) := by
  rcases grown with single | ⟨left, right, node, same, follower⟩
  · refine single.map factorsTree fun left right entry inner => ?_
    cases left with
    | nil => exact (builds_joined rfl).first right inner
    | cons first left => exact (builds_joined rfl).entry first left right inner
  · have several : ∀ z, factorsTree (row z)
        = .of .invisible (left ++ primedTree z :: node :: right) := by
      intro z
      rw [same z]
      rcases left with _ | ⟨first, _ | ⟨second, left⟩⟩ <;> rfl
    simp only [several]
    exact .inl (follower.bears left right)

variable (m) in
/-- What is known of the results of a function that has taken the name of the marker. -/
def Goal.Passes : (goal : Goal) → (String → goal.Found) → Rest → Prop
  | .or | .and | .not | .relation | .sum | .product | .signed | .juxtaposed | .script =>
    m.Along (Grown m.IsGroup)
  | .power => Passed m (fun _ => True) m.Marked (Grown m.IsGroup)
  | .operand | .integral => Passed m Markable (fun _ => False) (Grown m.IsGroup)
  | .function _ _ => Passed m Markable (fun _ => True) (Grown m.IsGroup)
  | .orTail | .andTail | .itemList => m.Along (GrownRow (Bears m.IsGroup))
  | .items _ => Passed m (fun _ => False) (fun _ => False) (GrownRow (Bears m.IsGroup))
  | .argumentTail | .arguments _ =>
    Passed m (fun _ => True) (fun _ => True) (GrownRow (Bears m.IsGroup))
  | .juxtaposedTail => m.Along m.GrownFactors
  | .relationTail => m.Along (GrownRow (BearsTagged m.IsGroup))
  | .sumTail | .productTail => m.Along (GrownRow (BearsTagged m.IsGroup))
  | .scripts _ => m.Along (GrownScripts m.IsGroup)
  | .index _ => m.Along (GrownIndex m.IsGroup)
  | .limit _ => m.Along (GrownLimits m.IsGroup)

variable (m) in
/-- With some budget, a function is tracked at all tokens in front of the marker. -/
def Goal.Tracks (before : Rest) (budget : Nat) (goal : Goal) : Prop :=
  ∀ (mode : Mode) ⦃front : Rest⦄, front <:+ before →
    Tracked m front (goal.Passes m) fun z => goal.parse budget mode (front ++ m.tokens z)

variable (m) in
/-- With some budget, all functions are tracked. -/
def Tracks (before : Rest) (budget : Nat) : Prop := ∀ goal : Goal, goal.Tracks m before budget

theorem tracks_zero (before : Rest) : Tracks m before 0 := by
  intro goal mode _ _
  refine .refused fun z => ?_
  cases goal <;> exact ⟨_, rfl⟩

/-- The functions that may take nothing. -/
def Goal.isOptional : Goal → Bool
  | .orTail | .andTail | .relationTail | .sumTail | .productTail | .juxtaposedTail
  | .argumentTail | .scripts _ | .index _ | .limit _ => true
  | _ => false

theorem startsOperand_primed (mode : Mode) : startsOperand mode m.primed = false := by
  simp [startsOperand, Marker.primed]

theorem continuesArgument_primed (mode : Mode) : continuesArgument mode m.primed = false := by
  simp [continuesArgument, Marker.primed]

/-- Nothing goes on with a prime. -/
theorem stops_primed {goal : Goal} (optional : goal.isOptional = true) {budget : Nat} {mode : Mode}
    {found : goal.Found} {later : Rest}
    (same : goal.parse budget mode m.primed = .ok (found, later)) : later = m.primed := by
  cases budget with
  | zero => cases goal <;> cases same
  | succ budget =>
    cases goal with
    | orTail | andTail | relationTail | sumTail | productTail | scripts | limit =>
      cases same
      rfl
    | index elementary =>
      cases elementary <;>
      · cases same
        rfl
    | juxtaposedTail =>
      rw [Goal.parse, parseJuxtaposedTail, startsOperand_primed] at same
      cases same
      rfl
    | argumentTail =>
      rw [Goal.parse, parseArgumentTail, continuesArgument_primed] at same
      cases same
      rfl
    | _ => cases optional

theorem Tracks.tail {before : Rest} (tracks : Tracks m before budget) (goal : Goal)
    (optional : goal.isOptional = true) {beyond : (String → goal.Found) → Prop}
    (along : goal.Passes m = m.Along beyond) (mode : Mode) :
    RowTail m before beyond fun rest => goal.parse budget mode rest where
  early _ within := along ▸ tracks goal mode within
  stops _ _ same := stops_primed optional same
  shorter _ _ _ same := suffix_parse goal same

end Grapher.Markup
