import Grapher.Proofs.Markup.Ledger

/-!
# Marks of what rows take

What is found in a row of tokens shows what is in a ledger of that row (`Accounted`), and trees show
the marks of the parts that they are built from. `Constituent.Keeps` says for each constituent which
ledger that is: the scripts of a function word are followed one by one, since later scripts take the
place of earlier ones.
-/

set_option autoImplicit false

namespace Grapher.Markup

open Node

/-! ## Marks of the trees that are built -/

theorem marks_joined {operator : Operator} (quiet : (Head.operator operator).marks = 0)
    (first : Node) (more : List Node) :
    (joined operator first more).marks = first.marks + marksArgs more := by
  cases more with
  | nil => simp [joined]
  | cons second more => simp [joined, quiet]

theorem marks_nestRight (first : Node) (more : List (Relation × Node)) :
    (nestRight first more).marks = first.marks + marksArgs (more.map (·.2)) := by
  induction more generalizing first with
  | nil => simp [nestRight]
  | cons entry more ih =>
    rw [nestRight, marks_op, marksArgs_cons, marksArgs_cons, ih]
    simp [Head.marks]

theorem marks_relationTree (first : Node) (more : List (Relation × Node)) :
    (relationTree first more).marks = first.marks + marksArgs (more.map (·.2)) := by
  unfold relationTree
  split
  · simp
  · split
    · simp [Head.marks]
    · exact marks_nestRight first _

/-- The marks of a run of operands, with a mark of the second operator where it stands. -/
def runMarks (binary : Operator) : List (Bool × Node) → Multiset TreeMark
  | [] => 0
  | (true, node) :: more => node.marks + runMarks binary more
  | (false, node) :: more => (Head.operator binary).marks + node.marks + runMarks binary more

/-- A fold of a run keeps the marks of its operands: the operands collected so far are those of the
tree on the left. -/
theorem marks_foldRun {collecting binary : Operator}
    (quiet : (Head.operator collecting).marks = 0) {left : Node} {run : List Node}
    (collected : run = [] ∨ left = .of collecting run) (more : List (Bool × Node)) :
    (foldRun collecting binary left run more).marks = left.marks + runMarks binary more := by
  induction more generalizing left run with
  | nil => simp [foldRun, runMarks]
  | cons entry more ih =>
    obtain ⟨isCollected, right⟩ := entry
    cases isCollected with
    | false =>
      rw [foldRun, ih (.inl rfl)]
      simp only [runMarks, marks_op, marksArgs_cons, marksArgs_nil, add_zero]
      ac_rfl
    | true =>
      rw [foldRun, ih (.inr rfl), marks_op, quiet, zero_add, runMarks, ← add_assoc]
      congr 1
      cases run with
      | nil => simp
      | cons first rest =>
        obtain rfl := collected.resolve_left (List.cons_ne_nil _ _)
        rw [marks_op, quiet]
        simp [add_assoc]

theorem runMarks_divide (more : List (Bool × Node)) :
    runMarks .divide more = marksArgs (more.map (·.2)) := by
  induction more with
  | nil => rfl
  | cons entry more ih => obtain ⟨_ | _, node⟩ := entry <;> simp [runMarks, ih, Head.marks]

theorem marks_primed (count : Nat) (node : Node) : (primed count node).marks = node.marks := by
  induction count generalizing node with
  | zero => rfl
  | succ count ih =>
    rw [primed, ih]
    simp [Head.marks]

theorem marks_groupTree (items : List Node) : (groupTree items).marks = marksArgs items := by
  rcases items with _ | ⟨item, _ | ⟨second, items⟩⟩ <;> simp [groupTree, Head.marks]

theorem marks_integralTree (body lower upper : Node) (name : String) :
    (integralTree body name lower upper).marks
      = lower.marks + upper.marks + (body.marks + ({.symbol name} + {.symbol name})) := by
  simp only [integralTree, marks_op, marksArgs_cons, marksArgs_nil, marks_symbol, Head.marks,
    zero_add, add_zero]
  ac_rfl

/-! ### Function words -/

/-- The marks of what is written at a function word and counts at one word only: the base at a
logarithm, the index at a root. -/
def slotMarks (owner function : Elementary) (slot : Option Node) : Multiset TreeMark :=
  if function = owner then marksArgs slot.toList else 0

/-- The marks of the exponent of a function word, which counts unless it makes the inverse. -/
def powerMarks (function : Elementary) (power : Option Node) : Multiset TreeMark :=
  marksArgs (inverted function power).2.toList

theorem slotMarks_eq_zero {owner function : Elementary} {slot : Option Node}
    (unused : ∀ node, function = owner → slot ≠ some node) : slotMarks owner function slot = 0 := by
  unfold slotMarks
  split
  · next isOwner =>
    cases slot with
    | none => rfl
    | some node => exact absurd rfl (unused node isOwner)
  · rfl

theorem marks_wordTree (function : Elementary) (index base : Option Node) (args : List Node) :
    (wordTree function index base args).marks
      = slotMarks .log function base + slotMarks .sqrt function index + marksArgs args := by
  unfold wordTree
  split
  · simp [slotMarks, Head.marks, add_comm]
  · simp [slotMarks, Head.marks, add_comm]
  · next noIndex noBase =>
    rw [slotMarks_eq_zero noIndex, slotMarks_eq_zero noBase]
    simp [Head.marks]

theorem inverted_eq_iff {function special : Elementary} (plain : special = .sqrt ∨ special = .log)
    (power : Option Node) : (inverted function power).1 = special ↔ function = special := by
  unfold inverted
  split
  · next found =>
    split
    · rcases plain with rfl | rfl <;> cases function <;> cases found <;> simp
    · rfl
  · rfl

theorem marks_functionTree (function : Elementary) (scripts : Scripts) (index : Option Node)
    (args : List Node) :
    (functionTree function scripts index args).marks
      = slotMarks .log function scripts.base + powerMarks function scripts.power
        + slotMarks .sqrt function index + marksArgs args := by
  have word := marks_wordTree (inverted function scripts.power).1 index scripts.base args
  simp only [slotMarks, inverted_eq_iff (.inl rfl), inverted_eq_iff (.inr rfl)] at word
  unfold functionTree powerMarks slotMarks
  cases found : (inverted function scripts.power).2 with
  | none => simp only [found, word, Option.toList_none, marksArgs_nil, add_zero]
  | some exponent =>
    simp only [found, marks_op, marksArgs_cons, marksArgs_nil, word, Option.toList_some, Head.marks]
    ac_rfl

/-! ## Rows with ledgers -/

/-- A row with a ledger that shows the marks of what was found. -/
def Accounted {α : Type} (portion : Portion) (marks : α → Multiset TreeMark) (row : List Located)
    (found : α) : Prop :=
  ∃ ledger, Account portion row ledger ∧ ledger.marks = marks found

namespace Accounted

variable {α β γ : Type} {portion portion' portion'' : Portion} {marks : α → Multiset TreeMark}
  {marks' : β → Multiset TreeMark} {marks'' : γ → Multiset TreeMark}
  {row row' row'' : List Located} {a : α} {b : β} {c : γ}

/-- A ledger that goes on to another row, for something with the same marks. -/
theorem keep (first : Accounted portion marks row a)
    (goesOn : ∀ ledger, Account portion row ledger → Account portion' row' ledger)
    (same : marks' b = marks a) : Accounted portion' marks' row' b := by
  obtain ⟨ledger, account, sum⟩ := first
  exact ⟨ledger, goesOn ledger account, sum.trans same.symm⟩

/-- Two ledgers together. -/
theorem combine (first : Accounted portion marks row a) (second : Accounted portion' marks' row' b)
    (together : ∀ ledger ledger', Account portion row ledger → Account portion' row' ledger' →
      Account portion'' row'' (ledger + ledger'))
    (sum : marks'' c = marks a + marks' b) : Accounted portion'' marks'' row'' c := by
  obtain ⟨ledger, account, same⟩ := first
  obtain ⟨ledger', account', same'⟩ := second
  exact ⟨ledger + ledger', together _ _ account account', by rw [Ledger.marks_add, same, same', sum]⟩

/-- A row after a row. -/
theorem append (first : Accounted .row marks row a) (second : Accounted .row marks' row' b)
    (sum : marks'' c = marks a + marks' b) : Accounted .row marks'' (row ++ row') c :=
  first.combine second (fun _ _ => .append) sum

/-- A factor before other factors. -/
theorem factor (first : Accounted .power marks row a) (more : Accounted .factors marks' row' b)
    (sum : marks'' c = marks a + marks' b) : Accounted .factors marks'' (row ++ row') c :=
  first.combine more (fun _ _ => .factor) sum

theorem minus {position : Nat} (more : Accounted portion marks row a)
    (goesOn : ∀ ledger, Account portion row ledger →
      Account portion (⟨.sign .minus, position⟩ :: row) (.minus position + ledger))
    (sum : marks' b = {.minus} + marks a) :
    Accounted portion marks' (⟨.sign .minus, position⟩ :: row) b := by
  obtain ⟨ledger, account, same⟩ := more
  refine ⟨.minus position + ledger, goesOn ledger account, ?_⟩
  rw [Ledger.marks_add, Ledger.marks_minus, same, sum]

end Accounted

/-! ## What each constituent keeps -/

/-- The scripts of a function word that stand in a row of scripts, over those before it. -/
structure Tally (function : Elementary) (before found : Scripts) (signs : List Sign)
    (ledger : Ledger) : Prop where
  base : .subscript ∉ signs → found.base = before.base
  power : .power ∉ signs → found.power = before.power
  marks : ledger.marks = (if .subscript ∈ signs then slotMarks .log function found.base else 0)
    + (if .power ∈ signs then powerMarks function found.power else 0)

/-- What is found in a constituent shows what is in the ledger of its row. -/
def Constituent.Keeps : (part : Constituent) → List Located → part.Found → Prop
  | .tree => Accounted .row Node.marks
  | .trees => Accounted .row marksArgs
  | .terms => Accounted .row (runMarks .subtract)
  | .factors | .arguments => Accounted .factors marksArgs
  | .power => Accounted .power Node.marks
  | .script => Accounted .script Node.marks
  | .operand => Accounted .operand Node.marks
  | .group => Accounted .operand marksArgs
  | .scripts before => fun row found => ∀ elementary, ∃ signs ledger,
    Account (.scripts elementary signs) row ledger ∧ Tally elementary before found signs ledger
  | .index elementary => Accounted (.index elementary) (slotMarks .sqrt elementary)
  | .limits => Accounted .limits fun (lower, upper) => lower.marks + upper.marks
  | .integrand =>
    Accounted .integrand fun (body, name) => body.marks + ({.symbol name} + {.symbol name})

/-! ### Scripts of function words -/

section Tallies

variable {function : Elementary} {before found : Scripts} {signs : List Sign} {position : Nat}
  {row row' : List Located} {ledger ledger' : Ledger} {node : Node}

/-- One more subscript in front: it counts if no subscript follows and the word is a logarithm. -/
theorem Tally.subscript (script : Account .script row ledger) (shows : ledger.marks = node.marks)
    (more : Account (.scripts function signs) row' ledger')
    (tally : Tally function { before with base := some node } found signs ledger') :
    ∃ total, Account (.scripts function (.subscript :: signs))
        (⟨.sign .subscript, position⟩ :: (row ++ row')) total
      ∧ Tally function before found (.subscript :: signs) total := by
  have base : .subscript ∉ Sign.subscript :: signs → found.base = before.base :=
    fun none => absurd (.head _) none
  have power : .power ∉ Sign.subscript :: signs → found.power = before.power :=
    fun none => tally.power fun member => none (.tail _ member)
  by_cases again : .subscript ∈ signs
  · refine ⟨_, .lost (.inr rfl) (fun counts => counts.1 again) script more, base, power, ?_⟩
    simp [tally.marks, again]
  · have last : found.base = some node := tally.base again
    by_cases isLog : function = .log
    · refine ⟨_, .kept ⟨again, .inr ⟨rfl, isLog⟩⟩ script more, base, power, ?_⟩
      simp [tally.marks, again, last, isLog, shows, slotMarks]
    · have idle : ¬ Counts function .subscript signs := by
        rintro ⟨-, isPower | ⟨-, same⟩⟩
        · cases isPower
        · exact isLog same
      refine ⟨_, .lost (.inr rfl) idle script more, base, power, ?_⟩
      simp [tally.marks, again, isLog, slotMarks]

/-- An exponent shows all its marks, or it is the exponent -1 of an inverse and shows none. -/
theorem powerMarks_some (function : Elementary) (node : Node) :
    powerMarks function (some node) = node.marks ∨
      powerMarks function (some node) = 0 ∧ (inverse? function).isSome = true ∧
        ∃ value, (value == 1.0) = true ∧ node.marks = {.minus} + {.number value} := by
  unfold powerMarks inverted
  cases inverse? function with
  | none => exact .inl (add_zero _)
  | some inverse =>
    dsimp only
    by_cases isMinusOne : isMinusOne node = true
    · rw [if_pos isMinusOne]
      refine .inr ⟨rfl, rfl, ?_⟩
      unfold Markup.isMinusOne at isMinusOne
      split at isMinusOne
      · next value => exact ⟨value, isMinusOne, rfl⟩
      · cases isMinusOne
    · rw [if_neg isMinusOne]
      exact .inl (add_zero _)

/-- One more exponent in front: it counts if none follows, and makes an inverse or is shown. -/
theorem Tally.raised (script : Account .script row ledger) (shows : ledger.marks = node.marks)
    (more : Account (.scripts function signs) row' ledger')
    (tally : Tally function { before with power := some node } found signs ledger') :
    ∃ total, Account (.scripts function (.power :: signs))
        (⟨.sign .power, position⟩ :: (row ++ row')) total
      ∧ Tally function before found (.power :: signs) total := by
  have base : .subscript ∉ Sign.power :: signs → found.base = before.base :=
    fun none => tally.base fun member => none (.tail _ member)
  have power : .power ∉ Sign.power :: signs → found.power = before.power :=
    fun none => absurd (.head _) none
  by_cases again : .power ∈ signs
  · refine ⟨_, .lost (.inl rfl) (fun counts => counts.1 again) script more, base, power, ?_⟩
    simp [tally.marks, again]
  · have last : found.power = some node := tally.power again
    have counts : Counts function .power signs := ⟨again, .inl rfl⟩
    rcases powerMarks_some function node with all | ⟨none, invertible, value, one, minusOne⟩
    · refine ⟨_, .kept counts script more, base, power, ?_⟩
      simp [tally.marks, again, last, shows, all, add_comm]
    · have shown := shows.trans minusOne
      refine ⟨_, .inverse counts invertible one shown script more, base, power, ?_⟩
      simp [tally.marks, again, last, none]

theorem Tally.marks_of_none (tally : Tally function ⟨none, none⟩ found signs ledger) :
    ledger.marks = slotMarks .log function found.base + powerMarks function found.power := by
  rw [tally.marks]
  congr 1
  · split
    · rfl
    · next none =>
      rw [tally.base none]
      simp [slotMarks]
  · split
    · rfl
    · next none =>
      rw [tally.power none]
      rfl

end Tallies

end Grapher.Markup
