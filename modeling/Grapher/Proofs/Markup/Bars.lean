import Grapher.Proofs.Markup.Repetition

/-!
# Braces between bars

A row of tokens that is a formula by itself may stand in braces between bars. The braces do not
shield it: directly inside of them a bar still closes, whereas round brackets reset this. So the
row means the same there exactly if it is read to its end where bars close
(`parseTokens_braced_in_bars`); a row in which a bar opens a further factor or a bare argument is
refused at such a bar.
-/

set_option autoImplicit false

namespace Grapher.Markup

/-! ## Operands that stand alone -/

section Alone

variable {budget : Nat} {mode : Mode} {row : Rest} {outcome : Except ParseError (Parsed Node)}

/-- What is found is followed by nothing that continues it. -/
def Finished (mode : Mode) (outcome : Except ParseError (Parsed Node)) : Prop :=
  ∀ node later, outcome = .ok (node, later) → continued? mode later = none

/-- A row of one operand. -/
theorem ReadsRow.alone_eq {α : Type} {level : Level}
    {tail : Nat → Mode → Rest → Except ParseError (Parsed (List α))} {build : Node → List α → Node}
    (reads : ReadsRow level tail build) (inner : level.inner.parse (budget + 1) mode row = outcome)
    (finished : Finished mode outcome) : level.parse (budget + 2) mode row = outcome := by
  rw [reads.opens, inner]
  cases outcome with
  | error reason => rfl
  | ok result =>
    obtain ⟨node, later⟩ := result
    have stops := reads.stops budget mode later (.of_none (finished node later rfl) level)
    simp only [bind, Except.bind, stops, reads.alone]

theorem parsePower_alone (operand : parseOperand (budget + 1) mode row = outcome)
    (finished : Finished mode outcome) : parsePower (budget + 2) mode row = outcome := by
  rw [parsePower_succ, operand]
  cases outcome with
  | error reason => rfl
  | ok result =>
    obtain ⟨node, later⟩ := result
    have none := finished node later rfl
    simp only [bind, Except.bind, applyPrimes_of_ends (.of_none none .power)]
    unfold raised
    split
    · cases none
    · cases none
    · cases none
    · cases none
    · rfl

/-- An operand that starts with no sign and that nothing continues is all that any level finds. -/
theorem parseOr_alone {token : Token} {position : Nat} (unsigned : ∀ sign, token ≠ .sign sign)
    (operand : parseOperand (budget + 1) mode (⟨token, position⟩ :: row) = outcome)
    (finished : Finished mode outcome) :
    parseOr (budget + 10) mode (⟨token, position⟩ :: row) = outcome := by
  have power := parsePower_alone operand finished
  have juxtaposed := readsRow_juxtaposed.alone_eq power finished
  have signed : parseSigned (budget + 4) mode (⟨token, position⟩ :: row) = outcome := by
    cases token with
    | sign sign => exact absurd rfl (unsigned sign)
    | _ => exact juxtaposed
  have product := readsRow_product.alone_eq signed finished
  have sum := readsRow_sum.alone_eq product finished
  have relation := readsRow_relation.alone_eq sum finished
  have not : parseNot (budget + 8) mode (⟨token, position⟩ :: row) = outcome := by
    cases token with
    | sign sign => exact absurd rfl (unsigned sign)
    | _ => exact relation
  exact readsRow_or.alone_eq (readsRow_and.alone_eq not finished) finished

end Alone

/-! ## Rows where bars close -/

/-- Directly inside of bars. -/
def Mode.barred : Mode := ⟨true, false⟩

/-- A row that is read to its end also where a bar closes instead of opening. -/
def ReadableInBars (row : List Located) : Prop :=
  ∃ node, parseOr (budgetFor row.length) .barred row = .ok (node, [])

section Readable

variable {row : List Located} {node : Node}

/-- With enough of it, the budget does not matter. -/
theorem parseOr_budget (mode : Mode) (row : List Located) {budget : Nat}
    (enough : budgetFor row.length ≤ budget) :
    parseOr budget mode row = parseOr (budgetFor row.length) mode row := by
  have least : descent.need (.or, mode) row ≤ budgetFor row.length := by
    dsimp only [Descent.need, descent, Goal.rank, budgetFor]
    omega
  exact (descent_steps.settled (Nat.le_trans least enough) least).1

/-- Where bars close, a formula is read to its end with the same tree, or its bars break it. -/
theorem readableInBars_or_breaks (free : ∀ located ∈ row, located.token ≠ .integral)
    (accepted : parseTokens row = .ok node) :
    parseOr (budgetFor row.length) .barred row = .ok (node, []) ∨
      ¬ ReadableInBars row ∧
        Breaks row true (parseOr (budgetFor row.length) .barred row) := by
  have echo := echo_append .nil (List.Subset.refl row)
  rw [List.append_nil] at echo
  have again := repeats (budgetFor row.length) .or (.bars false free) echo
  rcases again.found node [] (parseTokens_eq_ok_iff.mp accepted).2 with
    ⟨later, found, nothing⟩ | ⟨-, breaks⟩
  · cases nothing
    exact .inl found
  · refine .inr ⟨?_, breaks⟩
    rintro ⟨other, found⟩
    rcases breaks with ⟨expectation, written, position, -, refused⟩ |
      ⟨-, stopped, written, position, more, -, stop⟩
    · cases found.symm.trans refused
    · cases found.symm.trans stop

/-- A formula without bars is read to its end also where bars close. -/
theorem readableInBars_of_no_bar (free : ∀ located ∈ row, located.token ≠ .integral)
    (accepted : parseTokens row = .ok node)
    (barless : ∀ located ∈ row, ∀ written, located.token ≠ .bar written) : ReadableInBars row := by
  rcases readableInBars_or_breaks free accepted with found | ⟨-, breaks⟩
  · exact ⟨node, found⟩
  · rcases breaks with ⟨-, written, position, member, -⟩ |
      ⟨-, -, written, position, -, member, -⟩
    · exact absurd rfl (barless _ member written)
    · exact absurd rfl (barless _ member written)

/-- A row in braces where bars close. -/
theorem braced_in_bars (free : ∀ located ∈ row, located.token ≠ .integral)
    (accepted : parseTokens row = .ok node) (closed : Nat) (behind : Rest) {budget : Nat}
    (enough : budgetFor row.length ≤ budget) :
    let outcome := do
      let (inner, rest) ← parseOr budget .barred (row ++ ⟨.braceClose, closed⟩ :: behind)
      let rest ← afterBrace rest
      Except.ok (inner, rest)
    (ReadableInBars row → outcome = .ok (node, behind)) ∧
      (¬ ReadableInBars row → RefusedAt row outcome) := by
  intro outcome
  have echo := echo_append (@Echo.closed row closed behind) (List.Subset.refl row)
  have again := repeats budget .or (.same .barred) echo
  have settled := parseOr_budget .barred row enough
  have unchanged : ¬ Mode.barred ≠ Mode.barred := not_not_intro rfl
  rcases readableInBars_or_breaks free accepted with found | ⟨unreadable, breaks⟩
  · refine ⟨fun _ => ?_, fun unreadable => absurd ⟨node, found⟩ unreadable⟩
    obtain ⟨later, found', ended⟩ :=
      (again.found node [] (settled.trans found)).resolve_right fun broken => unchanged broken.1
    cases ended
    simp only [Goal.parse] at found'
    simp only [outcome, found', bind, Except.bind, afterBrace]
  · refine ⟨fun readable => absurd readable unreadable, fun _ => ?_⟩
    rcases breaks with refused | ⟨-, other, written, position, more, -, stopped⟩
    · obtain ⟨expectation, written, position, -, refused⟩ := refused
      have refused' := (again.refused _ (settled.trans refused) rfl).resolve_left unchanged
      exact refused'.bind _
    · obtain ⟨later, found', ended⟩ :=
        (again.found other _ (settled.trans stopped)).resolve_right fun broken => unchanged broken.1
      cases ended with
      | @cons _ _ _ position' _ rest' member _ =>
        simp only [Goal.parse] at found'
        refine ⟨.closingBrace, written, position', member, ?_⟩
        simp only [outcome, found', bind, Except.bind, afterBrace, misplaced, List.head?_cons]

end Readable

/-- What stands between bars, when it is one operand in braces. -/
theorem parseOr_bars {budget : Nat} {row : Rest} {outcome : Except ParseError (Parsed Node)}
    (at₁ at₂ : Nat) (written : Bool)
    (braced : parseOperand (budget + 1) .barred (⟨.braceOpen, at₂⟩ :: row) = outcome)
    (ends : ∀ node later, outcome = .ok (node, later) →
      ∃ written' at₄, later = [⟨.bar written', at₄⟩]) :
    parseOr (budget + 20) .plain (⟨.bar written, at₁⟩ :: ⟨.braceOpen, at₂⟩ :: row)
      = outcome >>= fun inner => .ok (.of (.elementary .abs) [inner.1], []) := by
  have finished : Finished .barred outcome := by
    intro node later found
    obtain ⟨written', at₄, rfl⟩ := ends node later found
    rfl
  have inside := parseOr_alone (by rintro _ ⟨⟩) braced finished
  refine parseOr_alone (by rintro _ ⟨⟩) ?_ ?_
  · change (parseOr (budget + 10) .barred _ >>= fun inner => afterBar inner.2 >>= fun rest =>
      Except.ok (Node.of (.elementary .abs) [inner.1], rest)) = _
    rw [inside]
    cases outcome with
    | error reason => rfl
    | ok result =>
      obtain ⟨node, later⟩ := result
      obtain ⟨written', at₄, rfl⟩ := ends node later rfl
      rfl
  · intro node later found
    obtain ⟨inner, -, found⟩ := ok_of_bind found
    cases found
    rfl

/-- A formula in braces between bars. It stands for the absolute value of the formula if it is also
read to its end where bars close, as every formula without bars is; else it is refused at one of the
bars of the formula. -/
theorem parseTokens_braced_in_bars {row : List Located} {node : Node}
    (free : ∀ located ∈ row, located.token ≠ .integral) (accepted : parseTokens row = .ok node)
    (at₁ at₂ at₃ at₄ : Nat) (written written' : Bool) :
    let barred := ⟨.bar written, at₁⟩ :: ⟨.braceOpen, at₂⟩ ::
      (row ++ [⟨.braceClose, at₃⟩, ⟨.bar written', at₄⟩])
    (ReadableInBars row → parseTokens barred = .ok (.of (.elementary .abs) [node])) ∧
      (¬ ReadableInBars row → RefusedAt row (parseTokens barred)) ∧
      ((∀ located ∈ row, ∀ written, located.token ≠ .bar written) → ReadableInBars row) := by
  intro barred
  have enough : budgetFor row.length ≤ 16 * row.length + 60 := by
    unfold budgetFor
    omega
  have total : budgetFor barred.length = 16 * row.length + 60 + 20 := by
    simp only [barred, budgetFor, List.length_cons, List.length_append, List.length_nil]
    omega
  obtain ⟨whole, refused⟩ := braced_in_bars free accepted at₃ [⟨.bar written', at₄⟩] enough
  refine ⟨?_, ?_, readableInBars_of_no_bar free accepted⟩
  · intro readable
    have found := parseOr_bars at₁ at₂ written (whole readable) fun _ _ same => by
      cases same
      exact ⟨_, _, rfl⟩
    refine parseTokens_eq_ok_iff.mpr ⟨List.cons_ne_nil _ _, ?_⟩
    rw [total]
    exact found
  · intro unreadable
    obtain ⟨expectation, asSign, position, member, same⟩ := refused unreadable
    have found := parseOr_bars at₁ at₂ written same (by rintro _ _ ⟨⟩)
    refine ⟨expectation, asSign, position, member, ?_⟩
    unfold parseTokens
    rw [total, found]
    rfl

/-- A quotient whose numerator has bars of its own in round brackets, and whose denominator starts
with bars. -/
theorem parseTokens_braced_in_bars_quotient :
    let row : List Located := [⟨.fraction, 0⟩, ⟨.braceOpen, 5⟩, ⟨.opening .round, 6⟩, ⟨.name "a", 7⟩,
      ⟨.bar true, 8⟩, ⟨.name "b", 9⟩, ⟨.bar true, 10⟩, ⟨.closing .round, 11⟩, ⟨.braceClose, 12⟩,
      ⟨.braceOpen, 13⟩, ⟨.bar true, 14⟩, ⟨.name "c", 15⟩, ⟨.bar true, 16⟩, ⟨.sign .plus, 17⟩,
      ⟨.name "d", 18⟩, ⟨.braceClose, 19⟩]
    let node := Node.of .divide [
      .of .delimiter [.of .invisible [.symbol "a", .of (.elementary .abs) [.symbol "b"]]],
      .of .add [.of (.elementary .abs) [.symbol "c"], .symbol "d"]]
    (∀ located ∈ row, located.token ≠ .integral) ∧ parseTokens row = .ok node ∧
      ReadableInBars row ∧
      parseTokens (⟨.bar true, 0⟩ :: ⟨.braceOpen, 1⟩ ::
        (row ++ [⟨.braceClose, 22⟩, ⟨.bar true, 23⟩])) = .ok (.of (.elementary .abs) [node]) := by
  intro row node
  have free : ∀ located ∈ row, located.token ≠ .integral := by simp [row]
  have accepted : parseTokens row = .ok node := rfl
  have readable : ReadableInBars row := ⟨node, rfl⟩
  exact ⟨free, accepted, readable,
    (parseTokens_braced_in_bars free accepted 0 1 22 23 true true).1 readable⟩

/-- A name times an absolute value: in braces between bars, the first of its own bars is refused,
where the closing brace should stand. -/
theorem braces_not_shielding_bars :
    let row : List Located := [⟨.name "a", 2⟩, ⟨.bar true, 3⟩, ⟨.name "b", 4⟩, ⟨.bar true, 5⟩]
    scan 0 0 (prepared "|\x7ba|b|\x7d|".toList) = .ok (⟨.bar true, 0⟩ :: ⟨.braceOpen, 1⟩ ::
      (row ++ [⟨.braceClose, 6⟩, ⟨.bar true, 7⟩])) ∧
    parseTokens row = .ok (.of .invisible [.symbol "a", .of (.elementary .abs) [.symbol "b"]]) ∧
    parseTokens (⟨.bar true, 0⟩ :: ⟨.braceOpen, 1⟩ ::
      (row ++ [⟨.braceClose, 6⟩, ⟨.bar true, 7⟩]))
        = .error (.misplaced .closingBrace (some ⟨.bar true, 3⟩)) :=
  ⟨rfl, rfl, rfl⟩

end Grapher.Markup
