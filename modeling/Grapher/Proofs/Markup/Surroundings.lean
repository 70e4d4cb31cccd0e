import Grapher.Proofs.Markup.Exponent

/-!
# The same tokens in other surroundings

Two runs of a parsing function are compared. The second one has the same tokens at other positions,
and may have a closing brace and more behind them (`Echo`); and it may stand inside of bars where
the first one does not (`Into`). What the first run finds, the second run finds as well, unless the
bars make a difference: then a bar that opens an operand in the first run closes one in the second,
so that the second run stops at this bar or is refused there (`Repeats`). Without a difference in
the bars, the second run is also refused where the first one is refused at a bar.

Repeating goes through what a parsing function does with its calls: one after the other, a row up
to its end, something up to the token that closes it.
-/

set_option autoImplicit false

namespace Grapher.Markup

/-! ## Tokens and surroundings -/

/-- The same tokens at other positions, which are those of some row, and an ending behind them that
no operand goes on with: nothing, or a closing brace. -/
inductive Echo (whole : Rest) : Rest → Rest → Rest → Prop where
  | nil : Echo whole [] [] []
  | closed {position : Nat} {more : Rest} :
      Echo whole (⟨.braceClose, position⟩ :: more) [] (⟨.braceClose, position⟩ :: more)
  | cons {ending : Rest} {token : Token} {position position' : Nat} {rest rest' : Rest}
      (member : ⟨token, position'⟩ ∈ whole) (more : Echo whole ending rest rest') :
      Echo whole ending (⟨token, position⟩ :: rest) (⟨token, position'⟩ :: rest')

/-- The mode of the second run: that of the first one, or the same inside of bars, for rows without
integrals. -/
inductive Into (whole : Rest) : Mode → Mode → Prop where
  | same (mode : Mode) : Into whole mode mode
  | bars (inIntegral : Bool) (free : ∀ located ∈ whole, located.token ≠ .integral) :
      Into whole ⟨false, inIntegral⟩ ⟨true, inIntegral⟩

section Lookahead

variable {whole ending : Rest} {mode mode' : Mode} {rest rest' : Rest}

theorem Into.inIntegral_eq (into : Into whole mode mode') :
    mode'.inIntegral = mode.inIntegral := by
  cases into <;> rfl

theorem Into.integrand (into : Into whole mode mode') :
    Into whole { mode with inIntegral := true } { mode' with inIntegral := true } := by
  cases into with
  | same => exact .same _
  | bars inIntegral free => exact .bars true free

/-- Inside of a group or of further bars it does not matter whether there are bars around. -/
theorem Into.within (into : Into whole mode mode') (inBars : Bool) :
    ({ mode' with inBars } : Mode) = { mode with inBars } := by
  cases into <;> rfl

theorem echo_append (ends : Echo whole ending [] ending) (inside : rest ⊆ whole) :
    Echo whole ending rest (rest ++ ending) := by
  induction rest with
  | nil => exact ends
  | cons located rest ih =>
    exact .cons (inside (.head _)) (ih fun _ member => inside (.tail _ member))

/-- Rows with the same tokens. -/
theorem echo_of_tokens {whole : Rest} (inside : rest' ⊆ whole)
    (same : rest.map (·.token) = rest'.map (·.token)) : Echo whole [] rest rest' := by
  induction rest generalizing rest' with
  | nil =>
    cases List.map_eq_nil_iff.mp same.symm
    exact .nil
  | cons located rest ih =>
    cases rest' with
    | nil => cases same
    | cons located' rest' =>
      obtain ⟨token', position'⟩ := located'
      obtain ⟨rfl, later⟩ := List.cons.inj same
      exact .cons (inside (.head _)) (ih (fun _ member => inside (.tail _ member)) later)

theorem atDifferential_echo (into : Into whole mode mode') (echo : Echo whole ending rest rest') :
    atDifferential mode' rest' = atDifferential mode rest := by
  unfold atDifferential
  rw [into.inIntegral_eq]
  congr 1
  cases echo with
  | nil | closed => rfl
  | @cons _ token _ _ _ _ _ more =>
    cases token with
    | name letter =>
      cases more with
      | nil | closed => rfl
      | @cons _ second => cases second <;> rfl
    | _ => rfl

theorem continuesArgument_echo (into : Into whole mode mode')
    (echo : Echo whole ending rest rest') :
    continuesArgument mode' rest' = continuesArgument mode rest := by
  unfold continuesArgument
  rw [atDifferential_echo into echo]
  congr 1
  cases echo with
  | nil | closed => rfl
  | @cons _ token => cases token <;> rfl

/-- Whether an operand stands next, unless it is one between bars and the bars make a difference. -/
theorem startsOperand_echo (into : Into whole mode mode') (echo : Echo whole ending rest rest') :
    startsOperand mode' rest' = startsOperand mode rest ∨
      mode ≠ mode' ∧ startsOperand mode' rest' = false ∧
        ∃ written position more, rest' = ⟨.bar written, position⟩ :: more ∧
          ⟨.bar written, position⟩ ∈ whole := by
  have same := atDifferential_echo into echo
  unfold startsOperand
  rw [same]
  cases echo with
  | nil | closed => exact .inl rfl
  | @cons _ token position position' rest rest' member more =>
    cases token with
    | bar written =>
      cases into with
      | same => exact .inl rfl
      | bars inIntegral free =>
        refine .inr ⟨by simp, Bool.and_false _, written, position', rest', rfl, member⟩
    | _ => exact .inl rfl

theorem differential_echo (into : Into whole mode mode') (echo : Echo whole ending rest rest') :
    ∃ name later later', differential mode rest = (name, later) ∧
      differential mode' rest' = (name, later') ∧ Echo whole ending later later' := by
  have same := atDifferential_echo into echo
  unfold differential
  rw [same]
  cases present : atDifferential mode rest with
  | false => exact ⟨"x", rest, rest', rfl, rfl, echo⟩
  | true =>
    have shape := (Bool.and_eq_true_iff.mp present).2
    split at shape
    · next letter position text at₁ later =>
      cases echo with
      | cons _ more =>
        cases more with
        | cons _ more => exact ⟨text, later, _, rfl, rfl, more⟩
    · cases shape

theorem applyPrimes_echo (echo : Echo whole ending rest rest') :
    ∃ count later later', Echo whole ending later later' ∧
      ∀ node, applyPrimes node rest = (primed count node, later) ∧
        applyPrimes node rest' = (primed count node, later') := by
  induction echo with
  | nil => exact ⟨0, _, _, .nil, fun node => ⟨rfl, rfl⟩⟩
  | closed => exact ⟨0, _, _, .closed, fun node => ⟨rfl, rfl⟩⟩
  | @cons _ token position position' rest rest' member more ih =>
    cases token with
    | prime marks =>
      obtain ⟨count, later, later', echo, same⟩ := ih
      refine ⟨marks + count, later, later', echo, fun node => ?_⟩
      rw [applyPrimes, applyPrimes, primed_add]
      exact same (primed marks node)
    | _ => exact ⟨0, _, _, .cons member more, fun node => ⟨rfl, rfl⟩⟩

/-- Exponents that are made of primes; a brace with a prime at the end of the tokens is none, but may
become one in front of a closing brace. -/
theorem primesRaised_echo (echo : Echo whole ending rest rest') :
    (∀ base, primesRaised base rest = none ∧ primesRaised base rest' = none) ∨
    (∃ count later later', Echo whole ending later later' ∧
      ∀ base, primesRaised base rest = some (primed count base, later) ∧
        primesRaised base rest' = some (primed count base, later')) ∨
    ∃ count at₁ at₂, rest = [⟨.braceOpen, at₁⟩, ⟨.prime count, at₂⟩] := by
  cases echo with
  | nil | closed => exact .inl fun base => ⟨rfl, rfl⟩
  | @cons _ token position position' rest rest' member more =>
    cases token with
    | prime marks =>
      have primed : Echo whole ending (⟨.prime marks, position⟩ :: rest) _ := .cons member more
      obtain ⟨count, later, later', echo, same⟩ := applyPrimes_echo primed
      exact .inr (.inl ⟨count, later, later', echo, fun base =>
        ⟨congrArg some (same base).1, congrArg some (same base).2⟩⟩)
    | braceOpen =>
      cases more with
      | nil | closed => exact .inl fun base => ⟨rfl, rfl⟩
      | @cons _ inside _ _ _ _ _ more =>
        cases inside with
        | prime count =>
          cases more with
          | nil | closed => exact .inr (.inr ⟨count, _, _, rfl⟩)
          | @cons _ closing _ _ _ _ _ more =>
            cases closing with
            | braceClose => exact .inr (.inl ⟨count, _, _, more, fun base => ⟨rfl, rfl⟩⟩)
            | _ => exact .inl fun base => ⟨rfl, rfl⟩
        | _ => exact .inl fun base => ⟨rfl, rfl⟩
    | _ => exact .inl fun base => ⟨rfl, rfl⟩

end Lookahead

/-! ## Outcomes -/

/-- Refusals at a bar. -/
def ParseError.atBar : ParseError → Bool
  | .misplaced _ (some ⟨.bar _, _⟩) => true
  | _ => false

/-- A refusal at a bar of a row. -/
def RefusedAt {α : Type} (whole : Rest) (outcome : Except ParseError α) : Prop :=
  ∃ expectation written position, ⟨.bar written, position⟩ ∈ whole ∧
    outcome = .error (.misplaced expectation (some ⟨.bar written, position⟩))

/-- Something is found, up to a bar of a row. -/
def StoppedAt {α : Type} (whole : Rest) (outcome : Except ParseError (Parsed α)) : Prop :=
  ∃ found written position more, ⟨.bar written, position⟩ ∈ whole ∧
    outcome = .ok (found, ⟨.bar written, position⟩ :: more)

/-- A run that comes to an end at a bar, by a refusal or, for functions that can stop there, without
one. -/
def Breaks {α : Type} (whole : Rest) (stops : Bool) (outcome : Except ParseError (Parsed α)) :
    Prop :=
  RefusedAt whole outcome ∨ stops = true ∧ StoppedAt whole outcome

/-- The second outcome repeats the first one, unless there is a difference in the bars. -/
structure Repeats {α : Type} (whole ending : Rest) (changed : Prop) (stops : Bool)
    (outcome outcome' : Except ParseError (Parsed α)) : Prop where
  found : ∀ found later, outcome = .ok (found, later) →
    (∃ later', outcome' = .ok (found, later') ∧ Echo whole ending later later') ∨
      changed ∧ Breaks whole stops outcome'
  refused : ∀ reason, outcome = .error reason → reason.atBar = true →
    changed ∨ RefusedAt whole outcome'

theorem RefusedAt.bind {α β : Type} {whole : Rest} {outcome : Except ParseError α}
    (refused : RefusedAt whole outcome) (next : α → Except ParseError β) :
    RefusedAt whole (outcome >>= next) := by
  obtain ⟨expectation, written, position, member, rfl⟩ := refused
  exact ⟨expectation, written, position, member, rfl⟩

namespace Repeats

variable {α β γ : Type} {whole ending : Rest} {changed : Prop} {stops stops' : Bool}
  {outcome outcome' : Except ParseError (Parsed α)} {rest rest' : Rest}

theorem ok (value : α) (echo : Echo whole ending rest rest') :
    Repeats whole ending changed stops (.ok (value, rest)) (.ok (value, rest')) where
  found other later same := by
    cases same
    exact .inl ⟨rest', rfl, echo⟩
  refused _ same := by cases same

/-- A first run that fails, but not at a bar. -/
theorem idle {reason : ParseError} (elsewhere : reason.atBar = false) :
    Repeats whole ending changed stops (.error reason) outcome' where
  found _ _ same := by cases same
  refused other same atBar := by
    cases same
    rw [elsewhere] at atBar
    cases atBar

/-- Both runs are refused at the same token. -/
theorem misplaced (expectation : Expectation) (echo : Echo whole ending rest rest') :
    @Repeats α whole ending changed stops (.error (Markup.misplaced expectation rest))
      (.error (Markup.misplaced expectation rest')) := by
  cases echo with
  | nil | closed => exact idle rfl
  | @cons _ token position position' rest rest' member more =>
    cases token with
    | bar written =>
      exact ⟨by rintro _ _ ⟨⟩, fun _ _ _ => .inr ⟨expectation, written, position', member, rfl⟩⟩
    | _ => exact idle rfl

theorem mono {changed' : Prop} (repeats : Repeats whole ending changed stops outcome outcome')
    (more : changed → changed') (wide : stops = true → stops' = true) :
    Repeats whole ending changed' stops' outcome outcome' where
  found value later same := by
    refine (repeats.found value later same).imp_right ?_
    rintro ⟨differs, refused | ⟨stop, stopped⟩⟩
    · exact ⟨more differs, .inl refused⟩
    · exact ⟨more differs, .inr ⟨wide stop, stopped⟩⟩
  refused reason same atBar := (repeats.refused reason same atBar).imp_left more

/-- In the same surroundings nothing breaks. -/
theorem unchanged {changed' : Prop} (repeats : Repeats whole ending changed stops outcome outcome')
    (same : ¬ changed) : Repeats whole ending changed' stops' outcome outcome' where
  found value later found :=
    .inl ((repeats.found value later found).resolve_right fun broken => same broken.1)
  refused reason found atBar := .inr ((repeats.refused reason found atBar).resolve_left same)

/-- One run after another. A first one that stops at a bar leaves it to the next one. -/
theorem bind (first : Repeats whole ending changed stops outcome outcome')
    {next next' : Parsed α → Except ParseError (Parsed β)}
    (kept : ∀ found later later', outcome = .ok (found, later) → Echo whole ending later later' →
      Repeats whole ending changed stops' (next (found, later)) (next' (found, later')))
    (stopped : changed → stops = true → ∀ result result', outcome = .ok result →
      next result = .ok result' → ∀ found written position more, ⟨.bar written, position⟩ ∈ whole →
        Breaks whole stops' (next' (found, ⟨.bar written, position⟩ :: more))) :
    Repeats whole ending changed stops' (outcome >>= next) (outcome' >>= next') where
  found value last same := by
    obtain ⟨⟨found, later⟩, start, after⟩ := ok_of_bind same
    rcases first.found found later start with ⟨later', start', echo⟩ | ⟨differs, refused | stops⟩
    · rw [start']
      exact (kept found later later' start echo).found value last after
    · exact .inr ⟨differs, .inl (refused.bind next')⟩
    · obtain ⟨isStop, other, written, position, more, member, start'⟩ := stops
      rw [start']
      exact .inr ⟨differs, stopped differs isStop _ _ start after other written position more member⟩
  refused reason same atBar := by
    cases start : outcome with
    | error _ =>
      rw [start] at same
      cases same
      exact (first.refused reason start atBar).imp_right fun refused => refused.bind next'
    | ok result =>
      obtain ⟨found, later⟩ := result
      rw [start] at same
      rcases first.found found later start with ⟨later', start', echo⟩ | ⟨differs, -⟩
      · rw [start']
        exact (kept found later later' start echo).refused reason same atBar
      · exact .inl differs

/-- One thing, made into another. -/
theorem map (change : α → β) (first : Repeats whole ending changed stops outcome outcome') :
    Repeats whole ending changed stops
      (do let (a, rest) ← outcome; .ok (change a, rest))
      (do let (a, rest) ← outcome'; .ok (change a, rest)) := by
  refine first.bind (fun found later later' _ echo => .ok (change found) echo) ?_
  intro _ isStop _ _ _ _ found written position more member
  exact .inr ⟨isStop, change found, written, position, more, member, rfl⟩

/-- Two things, one after the other. What comes second finds nothing at a bar that stops the
first. -/
theorem pair (combine : α → β → γ) {stops'' : Bool}
    {tail tail' : Rest → Except ParseError (Parsed β)}
    (first : Repeats whole ending changed stops outcome outcome')
    (others : ∀ ⦃later later' : Rest⦄, Echo whole ending later later' →
      Repeats whole ending changed stops' (tail later) (tail' later'))
    (wide : stops' = true → stops'' = true)
    (ends : stops = true → stops'' = true ∧ ∀ later result, tail later = .ok result →
      ∀ written position more, ∃ found, tail' (⟨.bar written, position⟩ :: more)
        = .ok (found, ⟨.bar written, position⟩ :: more)) :
    Repeats whole ending changed stops''
      (do let (a, rest) ← outcome; let (b, rest) ← tail rest; .ok (combine a b, rest))
      (do let (a, rest) ← outcome'; let (b, rest) ← tail' rest; .ok (combine a b, rest)) := by
  refine first.bind (fun found later later' _ echo => ?_) ?_
  · exact ((others echo).map (combine found)).mono id wide
  · rintro - isStop ⟨a, later⟩ result' _ after found written position more member
    obtain ⟨stop, finds⟩ := ends isStop
    obtain ⟨result, tail, -⟩ := ok_of_bind after
    obtain ⟨b, tail'⟩ := finds later result tail written position more
    refine .inr ⟨stop, combine found b, written, position, more, member, ?_⟩
    dsimp only
    rw [tail']
    rfl

end Repeats

/-! ## Closing tokens -/

/-- Something up to the token that closes it. A bar closes it only where both runs are in the same
surroundings. -/
theorem Repeats.closed {α β : Type} {whole ending : Rest} {changed : Prop} {stops : Bool}
    (wrap : α → β) {inside inside' : Except ParseError (Parsed α)}
    {check : Rest → Except ParseError Rest} {opening : Token} (checks : Checks check opening)
    (start : Repeats whole ending changed stops inside inside')
    (bar : changed → ∀ written, ∃ expectation, ∀ position rest,
      check (⟨.bar written, position⟩ :: rest)
        = .error (Markup.misplaced expectation (⟨.bar written, position⟩ :: rest))) :
    Repeats whole ending changed false
      (do let (inner, rest) ← inside; let rest ← check rest; .ok (wrap inner, rest))
      (do let (inner, rest) ← inside'; let rest ← check rest; .ok (wrap inner, rest)) := by
  refine start.bind (fun inner later later' _ echo => ?_) ?_
  · dsimp only
    cases echo with
    | nil | closed =>
      obtain ⟨expectation, refused⟩ := checks.nil
      rw [refused]
      exact .idle rfl
    | @cons _ token position position' rest rest' member more =>
      rcases checks.cons token with ⟨-, taken⟩ | ⟨expectation, refused⟩
      · rw [taken, taken]
        exact .ok (wrap inner) more
      · rw [refused, refused]
        exact .misplaced expectation (.cons member more)
  · intro differs _ _ _ _ _ inner written position more member
    obtain ⟨expectation, refused⟩ := bar differs written
    refine .inl ⟨expectation, written, position, member, ?_⟩
    dsimp only
    rw [refused]
    rfl

end Grapher.Markup
