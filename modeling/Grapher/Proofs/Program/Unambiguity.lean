import Grapher.Proofs.Program.Derivation

/-!
# Each row of tokens has one derivation

The parser takes the tokens of a derivation whole, so two derivations of a level that begin the
same row, each in front of something that cannot continue it, take the same tokens of it. With
this, a row is cut in one way only into the parts of a production, and the parts are equal by
induction. A phrase that is extended on its right is cut into its first operand and its suffixes.
-/

set_option autoImplicit false

namespace Grapher.Program

open List

variable {level : Level} {later rest : Rest}

/-! ## One way to cut a row -/

/-- Two phrases of a level that begin one row take the same tokens of it. -/
theorem Phrase.split {level : Level} {tokens tokens' : List Token} {expr expr' : Expr}
    (phrase : Phrase level tokens expr) (phrase' : Phrase level tokens' expr') {rest rest' : Rest}
    (ends : Ends level rest) (ends' : Ends level rest')
    (same : tokens ++ rest = tokens' ++ rest') : tokens = tokens' ∧ rest = rest' := by
  have parsed := phrase.parses (Nat.le_max_left (need level tokens) (need level tokens')) ends
  have parsed' := phrase'.parses (Nat.le_max_right (need level tokens) (need level tokens')) ends'
  rw [same, parsed'] at parsed
  obtain rfl : rest' = rest := congrArg Prod.snd (Except.ok.inj parsed)
  exact ⟨append_cancel_right same, rfl⟩

/-- Two derivations of a level that begin one row take the same tokens of it. -/
theorem Derivation.split {level : Level} (derivation other : Derivation level) {rest later : Rest}
    (ends : Ends level rest) (ends' : Ends level later)
    (same : derivation.tokens ++ rest = other.tokens ++ later) :
    derivation.tokens = other.tokens ∧ rest = later :=
  derivation.phrase.split other.phrase ends ends' same

/-- A derivation of a level does not begin with a token that starts looser levels only. -/
theorem Derivation.not_starts (derivation : Derivation level) {token : Token} {tightest : Nat}
    (can : token.start? = some tightest) (loose : tightest < level.index) :
    derivation.tokens ≠ token :: rest := by
  intro shape
  obtain ⟨first, more, shape', tightest', can', low⟩ := derivation.phrase.starts
  rw [shape] at shape'
  cases shape'
  rw [can] at can'
  cases can'
  omega

namespace Passed

theorem taken_self (arg : Passed) : Argument arg.tokens arg.expr :=
  arg.taken arg.phrase.phrase

/-- Two arguments that begin one row, each in front of a comma or a closing mark, take the same
tokens of it. -/
theorem split (arg other : Passed) {rest later : Rest}
    (ends : ∃ more, rest = .mark .comma :: more ∨ rest = .mark .closing :: more)
    (ends' : ∃ more, later = .mark .comma :: more ∨ later = .mark .closing :: more)
    (same : arg.tokens ++ rest = other.tokens ++ later) :
    arg.tokens = other.tokens ∧ rest = later := by
  have parsed := arg.taken_self.parses (Nat.le_max_left (16 * arg.tokens.length + 10)
    (16 * other.tokens.length + 10)) ends
  have parsed' := other.taken_self.parses (Nat.le_max_right (16 * arg.tokens.length + 10)
    (16 * other.tokens.length + 10)) ends'
  rw [same, parsed'] at parsed
  obtain rfl : later = rest := congrArg Prod.snd (Except.ok.inj parsed)
  exact ⟨append_cancel_right same, rfl⟩

/-- No argument begins with a closing mark. -/
theorem ne_closing (arg : Passed) : arg.tokens ++ rest ≠ .mark .closing :: later := by
  intro same
  obtain ⟨token, more, shape, can⟩ := arg.taken_self.starts
  rw [shape] at same
  cases same
  exact can rfl

end Passed

/-- A row that consists of parts which are cut off in one way has one such list of parts. -/
theorem map_eq_of_flatMap_eq {α : Type} {tokens : α → List Token}
    (split : ∀ {part other : α} {rest later : Rest}, Ends level rest → Ends level later →
      tokens part ++ rest = tokens other ++ later → tokens part = tokens other ∧ rest = later)
    (ends : ∀ (part : α) (rest : Rest), Ends level (tokens part ++ rest))
    (some : ∀ part : α, tokens part ≠ []) {more others : List α}
    (same : more.flatMap tokens = others.flatMap tokens) : more.map tokens = others.map tokens := by
  have last : ∀ parts : List α, Ends level (parts.flatMap tokens) := by
    intro parts
    cases parts with
    | nil => exact .nil level
    | cons part parts => exact ends part _
  induction more generalizing others with
  | nil =>
    cases others with
    | nil => rfl
    | cons part others => simp [some part] at same
  | cons part more ih =>
    cases others with
    | nil => simp [some part] at same
    | cons other others =>
      obtain ⟨first, rest⟩ := split (last more) (last others) same
      rw [map_cons, map_cons, first, ih rest]

/-- Parts with the same tokens, one by one, are the same parts. -/
theorem eq_of_map_eq {α : Type} {tokens : α → List Token} {more others : List α}
    (injective : ∀ part ∈ more, ∀ other, tokens part = tokens other → part = other)
    (same : more.map tokens = others.map tokens) : more = others := by
  induction more generalizing others with
  | nil =>
    cases others with
    | nil => rfl
    | cons other others => cases same
  | cons part more ih =>
    cases others with
    | nil => cases same
    | cons other others =>
      obtain ⟨first, rest⟩ := cons.inj same
      obtain ⟨here, later⟩ := forall_mem_cons.mp injective
      rw [here other first, ih later rest]

/-- The tokens that follow the first argument of a call, up to the closing mark and beyond. -/
def followingTokens (args : List Passed) (rest : Rest) : Rest :=
  match args with
  | [] => .mark .closing :: rest
  | arg :: args => .mark .comma :: (arg.tokens ++ followingTokens args rest)

theorem intercalate_closing (arg : Passed) (args : List Passed) (rest : Rest) :
    [Token.mark .comma].intercalate ((arg :: args).map Passed.tokens) ++ .mark .closing :: rest
      = arg.tokens ++ followingTokens args rest := by
  induction args generalizing arg with
  | nil => simp [followingTokens]
  | cons second args ih =>
    have later := ih second
    rw [map_cons] at later
    simp only [map_cons, intercalate_cons_cons, append_assoc, cons_append,
      nil_append, later, followingTokens]

theorem following_delimiter (args : List Passed) (rest : Rest) :
    ∃ more, followingTokens args rest = .mark .comma :: more ∨
      followingTokens args rest = .mark .closing :: more := by
  cases args with
  | nil => exact ⟨rest, .inr rfl⟩
  | cons arg args => exact ⟨_, .inl rfl⟩

theorem following_split {args others : List Passed}
    (same : followingTokens args rest = followingTokens others later) :
    args.map Passed.tokens = others.map Passed.tokens ∧ rest = later := by
  induction args generalizing others with
  | nil =>
    cases others with
    | nil => exact ⟨rfl, (cons.inj same).2⟩
    | cons other others => cases same
  | cons arg args ih =>
    cases others with
    | nil => cases same
    | cons other others =>
      obtain ⟨first, after⟩ := arg.split other (following_delimiter args rest)
        (following_delimiter others later) (cons.inj same).2
      obtain ⟨more, equal⟩ := ih after
      exact ⟨by rw [map_cons, map_cons, first, more], equal⟩

/-- The arguments of a call and the closing mark after them are cut off in one way. -/
theorem arguments_split {args others : List Passed}
    (same : [Token.mark .comma].intercalate (args.map Passed.tokens) ++ .mark .closing :: rest
      = [Token.mark .comma].intercalate (others.map Passed.tokens) ++ .mark .closing :: later) :
    args.map Passed.tokens = others.map Passed.tokens ∧ rest = later := by
  cases args with
  | nil =>
    cases others with
    | nil => exact ⟨rfl, by simpa using same⟩
    | cons other others =>
      rw [intercalate_closing] at same
      exact absurd same.symm other.ne_closing
  | cons arg args =>
    rw [intercalate_closing] at same
    cases others with
    | nil => exact absurd same arg.ne_closing
    | cons other others =>
      rw [intercalate_closing] at same
      obtain ⟨first, after⟩ := arg.split other (following_delimiter args rest)
        (following_delimiter others later) same
      obtain ⟨more, equal⟩ := following_split after
      exact ⟨by rw [map_cons, map_cons, first, more], equal⟩

namespace Suffix

variable {level : Level}

theorem extension (suffix : Suffix level) : Extends level suffix.tokens suffix.extend := by
  cases suffix with
  | joined sign right => exact .joined sign.joint right.phrase
  | arguments args => exact extends_arguments fun arg _ => arg.taken_self

theorem split {suffix other : Suffix level} {rest later : Rest} (ends : Ends level.inner rest)
    (ends' : Ends level.inner later) (same : suffix.tokens ++ rest = other.tokens ++ later) :
    suffix.tokens = other.tokens ∧ rest = later := by
  cases suffix with
  | joined sign right =>
    cases other with
    | joined sign' right' =>
      rw [tokens, tokens] at same ⊢
      obtain ⟨token, others⟩ := cons.inj same
      obtain ⟨first, equal⟩ := right.split right' ends ends' others
      exact ⟨by rw [token, first], equal⟩
    | arguments args => cases sign
  | arguments args =>
    cases other with
    | joined sign' right' => cases sign'
    | arguments args' =>
      rw [tokens, tokens, delimited, delimited, argumentTokens_eq, argumentTokens_eq] at same ⊢
      simp only [cons_append, append_assoc, nil_append] at same
      obtain ⟨first, equal⟩ := arguments_split (cons.inj same).2
      exact ⟨by rw [first], equal⟩

end Suffix

/-! ## Phrases with suffixes -/

/-- The tokens of a row are those of an operand of the next tighter level with suffixes after
it. -/
def IsRow (level : Level) (row : List Token) : Prop :=
  ∃ (first : Derivation level.inner) (more : List (Suffix level)),
    row = first.tokens ++ more.flatMap Suffix.tokens

theorem IsRow.extended {level : Level} {row : List Token} (isRow : IsRow level row)
    (suffix : Suffix level) : IsRow level (row ++ suffix.tokens) := by
  obtain ⟨first, more, rfl⟩ := isRow
  refine ⟨first, more ++ [suffix], ?_⟩
  rw [flatMap_append, flatMap_singleton, append_assoc]

/-- At a level with suffixes every derivation spells such a row. -/
theorem Derivation.isRow (derivation : Derivation level) :
    Suffix level → IsRow level derivation.tokens := by
  induction derivation using Derivation.induction with
  | inward proper inner =>
    intro _
    refine ⟨inner, [], ?_⟩
    rw [tokens, flatMap_nil, append_nil]
  | joined left sign right first | called callee args first =>
    intro suffix
    exact (first suffix).extended _
  | _ =>
    intro suffix
    exact absurd suffix.level_mem (by decide)

theorem ends_flatMap (more : List (Suffix level)) :
    Ends level.inner (more.flatMap Suffix.tokens) := by
  cases more with
  | nil => exact .nil _
  | cons suffix more => exact suffix.extension.ends _

/-- A phrase that is extended is not a phrase of the next tighter level as well. -/
theorem extended_ne_inner (left : Derivation level) (suffix : Suffix level)
    (inner : Derivation level.inner) : left.tokens ++ suffix.tokens ≠ inner.tokens := by
  intro same
  obtain ⟨first, more, shape⟩ := left.isRow suffix
  rw [shape, append_assoc, ← flatMap_singleton Suffix.tokens suffix,
    ← flatMap_append, ← append_nil inner.tokens] at same
  obtain ⟨-, nothing⟩ := first.split inner (ends_flatMap _) (.nil _) same
  rw [flatMap_append, flatMap_singleton] at nothing
  exact suffix.extension.ne_nil (append_eq_nil_iff.mp nothing).2

/-- The last suffix of a phrase is cut off in one way. -/
theorem extended_split {left left' : Derivation level} {suffix suffix' : Suffix level}
    (same : left.tokens ++ suffix.tokens = left'.tokens ++ suffix'.tokens) :
    left.tokens = left'.tokens ∧ suffix.tokens = suffix'.tokens := by
  obtain ⟨first, more, shape⟩ := left.isRow suffix
  obtain ⟨first', more', shape'⟩ := left'.isRow suffix
  rw [shape, shape', append_assoc, append_assoc, ← flatMap_singleton Suffix.tokens suffix,
    ← flatMap_singleton Suffix.tokens suffix', ← flatMap_append, ← flatMap_append] at same
  obtain ⟨starts, rows⟩ := first.split first' (ends_flatMap _) (ends_flatMap _) same
  have parts := map_eq_of_flatMap_eq Suffix.split (Suffix.extension · |>.ends)
    (Suffix.extension · |>.ne_nil) rows
  rw [map_append, map_append] at parts
  obtain ⟨before, last⟩ := append_inj' parts rfl
  refine ⟨?_, (cons.inj last).1⟩
  rw [shape, shape', starts, flatMap_def, flatMap_def, before]

/-! ## Further terms of a chain -/

namespace Compared

theorem tokens_eq (next : Compared) :
    next.tokens = .mark (.relation next.relation) :: next.term.tokens := by
  obtain ⟨relation, term⟩ := next
  rw [tokens, Compared.relation, Compared.term]

theorem ends (next : Compared) (rest : Rest) : Ends .sum (next.tokens ++ rest) := by
  rw [tokens_eq]
  exact .cons fun _ reaches => by cases reaches; decide

theorem split {next other : Compared} {rest later : Rest} (ends : Ends .sum rest)
    (ends' : Ends .sum later) (same : next.tokens ++ rest = other.tokens ++ later) :
    next.tokens = other.tokens ∧ rest = later := by
  rw [tokens_eq, tokens_eq] at same ⊢
  obtain ⟨mark, others⟩ := cons.inj same
  obtain ⟨first, equal⟩ := next.term.split other.term ends ends' others
  exact ⟨by rw [mark, first], equal⟩

/-- A further term is known by its tokens if the sum in it is. -/
theorem eq_of_tokens_eq {next other : Compared}
    (known : ∀ term : Derivation .sum, next.term.tokens = term.tokens → next.term = term)
    (same : next.tokens = other.tokens) : next = other := by
  obtain ⟨relation, term⟩ := next
  obtain ⟨relation', term'⟩ := other
  obtain ⟨mark, others⟩ := cons.inj same
  cases mark
  rw [show term = term' from known term' others]

end Compared

theorem chainTokens_eq (more : List Compared) : chainTokens more = more.flatMap Compared.tokens := by
  induction more with
  | nil => rw [chainTokens, flatMap_nil]
  | cons next more ih => rw [chainTokens, flatMap_cons, ih]

theorem ends_chain {second : Compared} {more : List Compared} :
    Ends .sum (second.tokens ++ chainTokens more) :=
  second.ends _

/-! ## Derivations are known by their tokens -/

/-- An argument is known by its tokens if the phrase in it is. -/
theorem Passed.eq_of_tokens_eq {arg other : Passed}
    (known : ∀ phrase : Derivation .or, arg.phrase.tokens = phrase.tokens → arg.phrase = phrase)
    (same : arg.tokens = other.tokens) : arg = other := by
  -- a name before an arrow is a whole phrase, so that the arrow would be left over
  have mixed : ∀ (phrase : Derivation .or) (parameter : String) (body : Derivation .or),
      phrase.tokens ≠ .name parameter :: .mark .arrow :: body.tokens := by
    intro phrase parameter body shape
    have named := (Phrase.name parameter).loosen (show Level.index .or ≤ 9 by decide)
    rw [← append_nil phrase.tokens] at shape
    cases (phrase.phrase.split named (.nil _)
      (@Ends.cons .or (.mark .arrow) body.tokens (by decide)) shape).2
  cases arg with
  | plain phrase =>
    cases other with
    | plain phrase' => rw [show phrase = phrase' from known phrase' same]
    | binder parameter body => exact absurd same (mixed phrase parameter body)
  | binder parameter body =>
    cases other with
    | plain phrase => exact absurd same.symm (mixed phrase parameter body)
    | binder parameter' body' =>
      injection same with first others
      cases first
      rw [show body = body' from known body' (cons.inj others).2]

namespace Derivation

/-- What has the tokens of a phrase of the next tighter level is nothing more than such a phrase. -/
theorem exists_inward {derivation : Derivation level} {proper : level ≠ .operand}
    {inner : Derivation level.inner} (same : derivation.tokens = (inward proper inner).tokens) :
    ∃ phrase, derivation = .inward proper phrase := by
  replace same : derivation.tokens = inner.tokens := same.trans (by rw [tokens])
  cases derivation with
  | inward _ phrase => exact ⟨phrase, rfl⟩
  | extended left suffix => exact absurd same (extended_ne_inner left suffix inner)
  | not operand | negative operand | positive operand =>
    exact absurd same.symm (inner.not_starts rfl (by decide))
  | chain first second more =>
    rw [tokens, ← append_nil inner.tokens] at same
    have nothing := (first.split inner ends_chain (.nil _) same).2
    simp [Compared.tokens_eq] at nothing
  | power base exponent =>
    rw [tokens, ← append_nil inner.tokens] at same
    cases (base.split inner (.cons (by decide)) (.nil _) same).2
  | number value | name word | group inside => exact absurd rfl proper

/-- Two derivations of a level with the same tokens are equal. -/
theorem eq_of_tokens_eq (derivation : Derivation level) :
    ∀ other : Derivation level, derivation.tokens = other.tokens → derivation = other := by
  induction derivation using Derivation.induction with
  | inward proper inner ih =>
    intro other same
    obtain ⟨inner', rfl⟩ := exists_inward same.symm
    rw [ih inner' same]
  | joined left sign right first second =>
    intro other same
    cases other with
    | inward proper inner => obtain ⟨_, ⟨⟩⟩ := exists_inward same
    | extended left' suffix' =>
      obtain ⟨before, last⟩ := extended_split same
      rw [first left' before]
      cases suffix' with
      | joined sign' right' =>
        obtain ⟨token, operand⟩ := cons.inj last
        rw [Sign.token_injective token, second right' operand]
      | arguments args => cases sign
    | _ => cases sign
  | called callee args first all =>
    intro other same
    cases other with
    | inward proper inner => obtain ⟨_, ⟨⟩⟩ := exists_inward same
    | extended callee' suffix' =>
      obtain ⟨before, last⟩ := extended_split same
      rw [first callee' before]
      cases suffix' with
      | joined sign right => cases sign
      | arguments args' =>
        rw [Suffix.tokens, Suffix.tokens, delimited, delimited, argumentTokens_eq,
          argumentTokens_eq] at last
        have parts := (arguments_split (cons.inj last).2).1
        rw [eq_of_map_eq (fun arg member other => arg.eq_of_tokens_eq (all arg member)) parts]
  | not operand ih =>
    intro other same
    cases other with
    | inward proper inner => obtain ⟨_, ⟨⟩⟩ := exists_inward same
    | extended left suffix => exact absurd suffix.level_mem (by decide)
    | not operand' => rw [ih operand' (cons.inj same).2]
  | chain first second more start others =>
    intro other same
    cases other with
    | inward proper inner => obtain ⟨_, ⟨⟩⟩ := exists_inward same
    | extended left suffix => exact absurd suffix.level_mem (by decide)
    | chain first' second' more' =>
      obtain ⟨starts, rows⟩ := first.split first' ends_chain ends_chain same
      rw [← chainTokens, ← chainTokens, chainTokens_eq, chainTokens_eq] at rows
      have parts := map_eq_of_flatMap_eq Compared.split Compared.ends
        (fun next => by rw [next.tokens_eq]; exact cons_ne_nil _ _) rows
      have equal := eq_of_map_eq
        (fun next member other => Compared.eq_of_tokens_eq (others next member)) parts
      obtain ⟨second, more⟩ := cons.inj equal
      rw [start first' starts, second, more]
  | negative operand ih | positive operand ih =>
    intro other same
    cases other with
    | inward proper inner => obtain ⟨_, ⟨⟩⟩ := exists_inward same
    | extended left suffix => exact absurd suffix.level_mem (by decide)
    | negative operand' | positive operand' =>
      cases (cons.inj same).1 <;> rw [ih operand' (cons.inj same).2]
  | power base exponent first second =>
    intro other same
    cases other with
    | inward proper inner => obtain ⟨_, ⟨⟩⟩ := exists_inward same
    | extended left suffix => exact absurd suffix.level_mem (by decide)
    | power base' exponent' =>
      obtain ⟨bases, rest⟩ := base.split base' (.cons (by decide)) (.cons (by decide)) same
      rw [first base' bases, second exponent' (cons.inj rest).2]
  | number value | name word =>
    intro other same
    cases other with
    | inward proper inner => exact absurd rfl proper
    | extended left suffix => exact absurd suffix.level_mem (by decide)
    | number value | name word | group inside =>
      cases (cons.inj same).1 <;> rfl
  | group inside ih =>
    intro other same
    cases other with
    | inward proper inner => exact absurd rfl proper
    | extended left suffix => exact absurd suffix.level_mem (by decide)
    | number value | name word =>
      cases (cons.inj same).1
    | group inside' =>
      have inner := append_cancel_right (cons.inj same).2
      rw [ih inside' inner]

end Derivation

end Grapher.Program
