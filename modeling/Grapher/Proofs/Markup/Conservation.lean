import Grapher.Proofs.Markup.Consumption

/-!
# What parsing keeps

Every parsing function takes a row of tokens off the front and finds something that shows what is in
the row's ledger (`keeps_of_takes`). The tree of a formula then shows all numbers, names and minus
signs of the formula, up to what the three places of `Account` drop (`exists_account_of_parse`).
-/

set_option autoImplicit false

namespace Grapher.Markup

open Node

/-! ## Constituents -/

/-- What a row takes shows what is in a ledger of the row. -/
theorem keeps_of_takes {part : Constituent} {row : List Located} {found : part.Found}
    (taken : Takes part row found) : part.Keeps row found := by
  induction taken with
  | connected connects _ _ start others =>
    refine Accounted.append start others (marks_joined ?_ _ _)
    rcases connects with rfl | rfl <;> rfl
  | related _ _ start others => exact Accounted.append start others (marks_relationTree _ _)
  | sum _ _ start others => exact Accounted.append start others (marks_foldRun rfl (.inl rfl) _)
  | product _ _ start others =>
    refine Accounted.append start others ((marks_foldRun rfl (.inl rfl) _).trans ?_)
    rw [runMarks_divide]
  | juxtaposed _ _ start others =>
    exact (start.factor others (marks_joined rfl _ _)).keep (fun _ => .factors_row) rfl
  | denied _ inside => exact inside.keep (fun _ => .separator rfl) (by simp [Head.marks])
  | negated _ inside => exact inside.minus (fun _ => .minus) (by simp [Head.marks])
  | plus _ inside => exact inside.keep (fun _ => .separator rfl) rfl
  | separator separates _ others => exact others.keep (fun _ => .separator separates) rfl
  | next _ _ start others => exact Accounted.append start others rfl
  | added _ _ start others =>
    exact (Accounted.append start others rfl).keep (fun _ => .separator rfl) rfl
  | subtracted _ _ start others =>
    exact (Accounted.append start others rfl).minus (fun _ => .minus) (add_assoc _ _ _)
  | noTree | noTerm => exact ⟨0, .nothing, rfl⟩
  | noFactor => exact ⟨0, .noFactor, rfl⟩
  | factor _ _ start others => exact start.factor others rfl
  | bare _ _ start others => exact start.factor others ((add_zero _).trans (marks_joined rfl _ _))
  | unraised _ inside => exact inside.keep (fun _ => .unraised) rfl
  | primed _ inside => exact inside.keep (fun _ => .primed) (marks_primed _ _)
  | raisedPrime _ inside => exact inside.keep (fun _ => .raisedPrime) (marks_primed _ _)
  | bracedPrime _ inside => exact inside.keep (fun _ => .bracedPrime) (marks_primed _ _)
  | raised _ _ inside script =>
    exact inside.combine script (fun _ _ => .raised) (by simp [Head.marks])
  | plain _ inside => exact inside.keep (fun _ => .plain) rfl
  | negative _ inside => exact inside.minus (fun _ => .negative) (by simp [Head.marks])
  | number => exact ⟨_, .number, rfl⟩
  | name => exact ⟨_, .name, Ledger.marks_name _ _⟩
  | bracketed _ inside => exact inside.keep (fun _ => id) (marks_groupTree _)
  | braced encloses _ inside | group encloses _ inside =>
    exact inside.keep (fun _ => .enclosed encloses) rfl
  | barred encloses _ inside =>
    exact inside.keep (fun _ => .enclosed encloses) (by simp [Head.marks])
  | function _ _ _ scripts index arguments =>
    obtain ⟨signs, ledger, account, tally⟩ := scripts _
    obtain ⟨ledger', account', same'⟩ := index
    obtain ⟨ledger'', account'', same''⟩ := arguments
    refine ⟨ledger + ledger' + ledger'', ?_, ?_⟩
    · rw [← List.append_assoc]
      exact .function account account' account''
    · rw [Ledger.marks_add, Ledger.marks_add, tally.marks_of_none, same', same'', marks_functionTree]
  | fraction _ _ above under =>
    exact above.combine under (fun _ _ => .fraction) (by simp [Head.marks])
  | integral _ _ limits integrand =>
    exact limits.combine integrand (fun _ _ => .integral) (marks_integralTree _ _ _ _)
  | listed _ inside => exact inside.keep (fun _ operand => operand.unraised.power_factors) rfl
  | single _ inside =>
    exact inside.keep (fun _ operand => operand.unraised.power_factors) (add_zero _)
  | noScript => exact fun function => ⟨[], 0, .noScript, fun _ => rfl, fun _ => rfl, rfl⟩
  | subscript _ _ script others =>
    obtain ⟨ledger, account, same⟩ := script
    intro function
    obtain ⟨signs, ledger', account', tally⟩ := others function
    exact ⟨_, tally.subscript account same account'⟩
  | superscript _ _ script others =>
    obtain ⟨ledger, account, same⟩ := script
    intro function
    obtain ⟨signs, ledger', account', tally⟩ := others function
    exact ⟨_, tally.raised account same account'⟩
  | noIndex => exact ⟨0, .noIndex, by simp [slotMarks]⟩
  | root _ inside => exact inside.keep (fun _ => .root) (add_zero _)
  | lowerFirst _ _ first second =>
    exact first.combine second (fun _ _ => .limits (.inl ⟨rfl, rfl⟩)) rfl
  | upperFirst _ _ first second =>
    exact first.combine second (fun _ _ => .limits (.inr ⟨rfl, rfl⟩)) (add_comm _ _)
  | whole _ inside =>
    obtain ⟨ledger, account, same⟩ := inside
    exact ⟨_, account.whole, by rw [Ledger.marks_add, same, Ledger.marks_noDifferential]⟩
  | ended _ inside =>
    obtain ⟨ledger, account, same⟩ := inside
    exact ⟨_, account.ended, by rw [Ledger.marks_add, same, Ledger.marks_differential]⟩
  | alone => exact ⟨_, .alone, rfl⟩

/-! ## Whole formulas -/

/-- The tree of a formula shows the marks of a ledger that accounts for all tokens of the formula:
every number, every name and every minus sign has an entry of its own, which the tree shows or which
`Account` drops. -/
theorem exists_account_of_parse {text : String} {node : Node} (parsed : parse text = .ok node) :
    ∃ located ledger, scan 0 0 (prepared text.toList) = .ok located ∧
      Account .row located ledger ∧ ledger.tokens = marked located ∧ ledger.marks = node.marks := by
  obtain ⟨located, scanned, parsed⟩ := parse_eq_ok_iff.mp parsed
  obtain ⟨row, split, taken⟩ := takes_parse (budgetFor located.length) .or .plain located node []
    (parseTokens_eq_ok_iff.mp parsed).2
  obtain ⟨ledger, account, same⟩ := keeps_of_takes taken
  rw [List.append_nil] at split
  subst split
  exact ⟨located, ledger, scanned, account, account.tokens_eq, same⟩

/-- A logarithm with a base, less an integral with a differential. -/
theorem exists_account_of_parse_difference :
    let node := of .subtract [.of (.elementary .log) [.symbol "x", .symbol "b"],
      integralTree (.symbol "t") "t" (.symbol "a") (.symbol "b")]
    parse "\\log_b x-\\int_a^b tdt" = .ok node ∧
      ∃ located ledger, scan 0 0 (prepared "\\log_b x-\\int_a^b tdt".toList) = .ok located ∧
        Account .row located ledger ∧ ledger.tokens = marked located ∧
        ledger.marks = node.marks := by
  intro node
  have scanned : scan 0 0 (prepared "\\log_b x-\\int_a^b tdt".toList) = .ok [
      ⟨.function "log" .log, 0⟩, ⟨.sign .subscript, 4⟩, ⟨.name "b", 5⟩, ⟨.name "x", 7⟩,
      ⟨.sign .minus, 8⟩, ⟨.integral, 9⟩, ⟨.sign .subscript, 13⟩, ⟨.name "a", 14⟩,
      ⟨.sign .power, 15⟩, ⟨.name "b", 16⟩, ⟨.name "t", 18⟩, ⟨.name "d", 19⟩, ⟨.name "t", 20⟩] := rfl
  have parsed : parse "\\log_b x-\\int_a^b tdt" = .ok node :=
    parse_eq_ok_iff.mpr ⟨_, scanned, rfl⟩
  exact ⟨parsed, exists_account_of_parse parsed⟩

/-- The subscript of a sine is a name that the tree does not show. -/
theorem subscript_of_sine_dropped :
    let located : List Located := [⟨.function "sin" .sin, 0⟩, ⟨.sign .subscript, 4⟩,
      ⟨.braceOpen, 5⟩, ⟨.name "a", 6⟩, ⟨.braceClose, 7⟩, ⟨.name "x", 9⟩]
    let node := of (.elementary .sin) [.symbol "x"]
    scan 0 0 (prepared "\\sin_\x7ba\x7d x".toList) = .ok located ∧
      parse "\\sin_\x7ba\x7d x" = .ok node ∧
      marked located = {⟨.name "a", 6⟩, ⟨.name "x", 9⟩} ∧ node.marks = {.symbol "x"} := by
  intro located node
  have scanned : scan 0 0 (prepared "\\sin_\x7ba\x7d x".toList) = .ok located := rfl
  exact ⟨scanned, parse_eq_ok_iff.mpr ⟨located, scanned, rfl⟩, rfl, rfl⟩

end Grapher.Markup
