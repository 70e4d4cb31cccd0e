import Grapher.Proofs.Markup.Exponent

/-!
# The parsing functions over a marker

Function by function, what `Tracked` says of its calls goes on to the function itself, so all of
them are tracked with every budget (`tracks`). Three things can come between a primed name and its
group, and two of them are excluded here: an exponent at the group, which takes it away from the
name, and a function word whose bare argument ends with the prime. The third one, further primes at
the group, leaves trees without a reading.
-/

set_option autoImplicit false

namespace Grapher.Markup

open List

variable {later rest : Rest} {name : String}

variable {m : Marker}

/-! ## Lookahead -/

/-- Whether a differential stands next does not depend on the name of the marker, which is no
differential itself. -/
theorem atDifferential_tokens (mode : Mode) (front : Rest) (z z' : String) :
    atDifferential mode (front ++ m.tokens z) = atDifferential mode (front ++ m.tokens z') := by
  rcases front with _ | ⟨⟨token, position⟩, _ | ⟨⟨second, next⟩, front⟩⟩
  · rfl
  · cases token <;> rfl
  · cases token with
    | name letter => cases second <;> rfl
    | _ => rfl

theorem startsOperand_tokens (mode : Mode) (front : Rest) (z z' : String) :
    startsOperand mode (front ++ m.tokens z) = startsOperand mode (front ++ m.tokens z') := by
  unfold startsOperand
  rw [atDifferential_tokens mode front z z']
  rcases front with _ | ⟨⟨token, position⟩, front⟩
  · rfl
  · cases token <;> rfl

theorem continuesArgument_tokens (mode : Mode) (front : Rest) (z z' : String) :
    continuesArgument mode (front ++ m.tokens z)
      = continuesArgument mode (front ++ m.tokens z') := by
  unfold continuesArgument
  rw [atDifferential_tokens mode front z z']
  rcases front with _ | ⟨⟨token, position⟩, front⟩
  · rfl
  · cases token <;> rfl

variable {before front : Rest} {budget : Nat} {mode : Mode}

/-! ## Behind the name -/

/-- An exponent behind the marker. -/
theorem tracked_raised_behind {base : String → Node} (grown : Grown m.IsGroup base)
    (behind : rest <:+ m.rest) :
    Tracked m front (Goal.power.Passes m) fun z => raised budget mode (base z) rest := by
  rcases rest with _ | ⟨⟨token, position⟩, rest⟩
  · exact .passing behind grown
  · have inner : rest <:+ m.rest := (suffix_cons _ _).trans behind
    cases token with
    | sign sign =>
      cases sign with
      | power =>
        simp only [raised_power]
        rcases primesRaised_eq rest with script | ⟨count, later, shorter, same⟩
        · simp only [script]
          exact .behind .script inner fun exponent =>
            grown.map (fun base => .of .power [base, exponent]) (.operand rfl [] [exponent])
        · simp only [same]
          exact .passing (shorter.trans inner) (grown.map (primed count) (bears_primed count))
      | subscript => exact .refused fun z => ⟨_, rfl⟩
      | _ => exact .passing behind grown
    | _ => exact .passing behind grown

/-- Neither a script nor an operand starts with a prime. -/
theorem parseScript_primed : ∃ reason, parseScript budget mode m.primed = .error reason := by
  rcases budget with _ | _ | budget <;> exact ⟨_, rfl⟩

theorem parseArguments_primed (word : String) :
    ∃ reason, parseArguments budget mode word m.primed = .error reason := by
  cases budget with
  | zero => exact ⟨_, rfl⟩
  | succ budget =>
    have ends : startsOperand mode m.primed ≠ true :=
      ne_of_eq_of_ne (startsOperand_primed mode) Bool.false_ne_true
    exact ⟨misplaced (.argument word) m.primed, if_neg ends⟩

/-- Scripts behind the marker keep what was found at it, or replace it. -/
theorem tracked_scripts_behind {scripts : String → Scripts} (grown : GrownScripts m.IsGroup scripts)
    (behind : rest <:+ m.rest) :
    Tracked m front (m.Along (GrownScripts m.IsGroup)) fun z =>
      parseScripts budget mode (scripts z) rest := by
  induction budget generalizing scripts rest with
  | zero => exact .refused fun z => ⟨_, rfl⟩
  | succ budget ih =>
    rcases rest with _ | ⟨⟨token, position⟩, rest⟩
    · exact .passing behind grown
    · have inner : rest <:+ m.rest := (suffix_cons _ _).trans behind
      cases token with
      | sign sign =>
        cases sign with
        | subscript =>
          refine .fixed (parseScript budget mode rest) fun (base, later) same => ?_
          exact ih (grown.withFirst (fun scripts => { scripts with base := some base }) fun _ _ => rfl)
            ((suffix_parse .script same).trans inner)
        | power =>
          refine .fixed (parseScript budget mode rest) fun (power, later) same => ?_
          exact ih (grown.withSecond (fun scripts => { scripts with power := some power })
            fun _ _ => rfl) ((suffix_parse .script same).trans inner)
        | _ => exact .passing behind grown
      | _ => exact .passing behind grown

theorem tracked_limit_behind {limits : String → Limits} (grown : GrownLimits m.IsGroup limits)
    (behind : rest <:+ m.rest) :
    Tracked m front (m.Along (GrownLimits m.IsGroup)) fun z =>
      parseLimit budget mode (limits z) rest := by
  cases budget with
  | zero => exact .refused fun z => ⟨_, rfl⟩
  | succ budget =>
    rcases rest with _ | ⟨⟨token, position⟩, rest⟩
    · exact .passing behind grown
    · have inner : rest <:+ m.rest := (suffix_cons _ _).trans behind
      cases token with
      | sign sign =>
        cases sign with
        | subscript =>
          exact .behind .script inner fun lower =>
            grown.withFirst (fun limits => { limits with lower := some lower }) fun _ _ => rfl
        | power =>
          exact .behind .script inner fun upper =>
            grown.withSecond (fun limits => { limits with upper := some upper }) fun _ _ => rfl
        | _ => exact .passing behind grown
      | _ => exact .passing behind grown

/-- The integrand of an integral, up to its differential. -/
def parseBody (budget : Nat) (mode : Mode) (rest : Rest) : Except ParseError (Parsed Node) :=
  if atDifferential mode rest then .ok (Node.one, rest) else parseSum budget mode rest

/-- An integral behind its limits. -/
def parseIntegrand (budget : Nat) (mode : Mode) (limits : Limits) (rest : Rest) :
    Except ParseError (Parsed Node) :=
  match limits with
  | ⟨some lower, some upper⟩ => do
    let inner := { mode with inIntegral := true }
    let (body, rest) ← parseBody budget inner rest
    let (name, rest) := differential inner rest
    .ok (integralTree body name lower upper, rest)
  | _ => .error .indefiniteIntegral

theorem parseIntegral_succ (rest : Rest) :
    parseIntegral (budget + 1) mode rest
      = parseLimit budget mode ⟨none, none⟩ rest >>= fun (limits, rest) =>
        parseLimit budget mode limits rest >>= fun (limits, rest) =>
          parseIntegrand budget mode limits rest := by
  refine congrArg (_ >>= ·) (funext fun (limits, rest) => ?_)
  refine congrArg (_ >>= ·) (funext fun (limits, rest) => ?_)
  obtain ⟨_ | lower, _ | upper⟩ := limits
  · rfl
  · rfl
  · rfl
  · simp only [parseIntegrand, parseBody]
    split <;> rfl

theorem suffix_parseBody {body : Node} (same : parseBody budget mode rest = .ok (body, later)) :
    later <:+ rest := by
  unfold parseBody at same
  split at same
  · cases same
    exact suffix_rfl
  · exact suffix_parse .sum same

/-- No sum starts with a prime. -/
theorem parseBody_primed : ∃ reason, parseBody budget mode m.primed = .error reason := by
  have next : atDifferential mode m.primed = false := by simp [atDifferential, Marker.primed]
  simp only [parseBody, next]
  rcases budget with _ | _ | _ | _ | _ | _ | budget <;> exact ⟨_, rfl⟩

theorem parseIntegrand_primed (limits : Limits) :
    ∃ reason, parseIntegrand budget mode limits m.primed = .error reason := by
  obtain ⟨_ | lower, _ | upper⟩ := limits
  · exact ⟨_, rfl⟩
  · exact ⟨_, rfl⟩
  · exact ⟨_, rfl⟩
  · obtain ⟨reason, refused⟩ := @parseBody_primed m budget { mode with inIntegral := true }
    exact ⟨reason, by simp only [parseIntegrand, refused]; rfl⟩

/-- An integral whose limits bear the names, or do not depend on them. -/
theorem tracked_integrand_behind {limits : String → Limits} (grown : GrownLimits m.IsGroup limits)
    (behind : rest <:+ m.rest) :
    Tracked m front (Goal.integral.Passes m) fun z =>
      parseIntegrand budget mode (limits z) rest := by
  -- with both limits there, everything behind them is the same for all names
  have both {lower upper : String → Node}
      (grows : ∀ body name, Grown m.IsGroup fun z => integralTree body name (lower z) (upper z)) :
      Tracked m front (Goal.integral.Passes m) fun z =>
        parseIntegrand budget mode ⟨some (lower z), some (upper z)⟩ rest := by
    refine .fixed (parseBody budget { mode with inIntegral := true } rest)
      fun (body, later) same => ?_
    exact .passing ((suffix_differential _ later).trans ((suffix_parseBody same).trans behind))
      (grows body _)
  cases grown with
  | @first upper part inner =>
    cases upper with
    | none => exact .refused fun z => ⟨_, rfl⟩
    | some upper => exact both fun body name => .inl (.lower name body upper inner)
  | @second lower part inner =>
    cases lower with
    | none => exact .refused fun z => ⟨_, rfl⟩
    | some lower => exact both fun body name => .inl (.upper name body lower inner)
  | fixed limits =>
    obtain ⟨_ | lower, _ | upper⟩ := limits
    · exact .refused fun z => ⟨_, rfl⟩
    · exact .refused fun z => ⟨_, rfl⟩
    · exact .refused fun z => ⟨_, rfl⟩
    · exact both fun body name => .inr ⟨_, fun z => rfl⟩

/-- A differential in front of the marker, or one that takes its name. -/
theorem tracked_differential (body lower upper : Node) :
    Tracked m front (Goal.integral.Passes m) fun z =>
      .ok (integralTree body (differential mode (front ++ m.tokens z)).1 lower upper,
        (differential mode (front ++ m.tokens z)).2) := by
  cases found : atDifferential mode (front ++ m.tokens "") with
  | false =>
    have none : ∀ z, differential mode (front ++ m.tokens z) = ("x", front ++ m.tokens z) := by
      intro z
      unfold differential
      rw [atDifferential_tokens mode front z "", found]
    simp only [none]
    exact .kept _
  | true =>
    have next : ∀ z, atDifferential mode (front ++ m.tokens z) = true :=
      fun z => (atDifferential_tokens mode front z "").trans found
    rcases front with _ | ⟨⟨token, position⟩, _ | ⟨⟨second, place⟩, front⟩⟩
    · simp [atDifferential, Marker.tokens, Marker.primed] at found
    · have taken : ∀ z, differential mode ([⟨token, position⟩] ++ m.tokens z) = (z, m.primed) := by
        intro z
        unfold differential
        rw [next z]
        rfl
      simp only [taken]
      exact .passed _ m.primed (.prime (.inr fun z => ⟨_, _, rfl⟩)) fun z => rfl
    · cases second with
      | name name =>
        have taken : ∀ z, differential mode (⟨token, position⟩ :: ⟨.name name, place⟩ :: front
            ++ m.tokens z) = (name, front ++ m.tokens z) := by
          intro z
          unfold differential
          rw [next z]
          rfl
        simp only [taken]
        exact .early _ ⟨[_, _], rfl⟩ fun z => rfl
      | _ => cases token <;> simp [atDifferential] at found

/-- A bracket starts a factor, so a juxtaposition takes the group behind a primed name. -/
theorem follower_of_juxtaposedTail (unraised : m.Unraised) (counted : Counted m.rest)
    {row : List Node} (found : parseJuxtaposedTail budget mode m.group = .ok (row, later)) :
    ∃ node more, row = node :: more ∧ m.Follower node ∧ later <:+ m.rest := by
  cases budget with
  | zero => cases found
  | succ budget =>
    have starts : startsOperand mode m.group = true := by
      simp [startsOperand, atDifferential, Marker.group]
    rw [parseJuxtaposedTail, if_pos starts] at found
    obtain ⟨⟨node, rest⟩, first, found⟩ := ok_of_bind found
    obtain ⟨⟨more, last⟩, tail, found⟩ := ok_of_bind found
    cases found
    obtain ⟨follower, behind⟩ := follower_of_parsePower unraised counted first
    exact ⟨node, more, rfl, follower, (suffix_parse .juxtaposedTail tail).trans behind⟩

/-- A bare argument does not go on with a bracket. -/
theorem stops_group {row : List Node}
    (same : parseArgumentTail budget mode m.group = .ok (row, later)) : later = m.group := by
  cases budget with
  | zero => cases same
  | succ budget =>
    have ends : continuesArgument mode m.group = false := by
      simp [continuesArgument, Marker.group]
    rw [parseArgumentTail, ends] at same
    cases same
    rfl

/-! ## Rows of factors -/

/-- A factor and the factors behind it. -/
def parseFactors (budget : Nat) (mode : Mode) (rest : Rest) :
    Except ParseError (Parsed (List Node)) := do
  let (next, rest) ← parsePower budget mode rest
  let (more, rest) ← parseJuxtaposedTail budget mode rest
  .ok (next :: more, rest)

theorem parseJuxtaposed_succ (rest : Rest) :
    parseJuxtaposed (budget + 1) mode rest
      = parseFactors budget mode rest >>= fun (row, rest) => .ok (factorsTree row, rest) := by
  unfold parseJuxtaposed parseFactors
  cases parsePower budget mode rest with
  | error reason => rfl
  | ok result =>
    obtain ⟨next, rest⟩ := result
    change (parseJuxtaposedTail budget mode rest >>= _)
      = (parseJuxtaposedTail budget mode rest >>= _) >>= _
    cases parseJuxtaposedTail budget mode rest <;> rfl

/-- The operands of a bare argument. -/
def parseBare (budget : Nat) (mode : Mode) (rest : Rest) :
    Except ParseError (Parsed (List Node)) := do
  let (first, rest) ← parsePower budget mode rest
  let (more, rest) ← parseArgumentTail budget mode rest
  .ok (first :: more, rest)

/-- The argument of a function word without brackets. -/
def parseBareArgument (budget : Nat) (mode : Mode) (word : String) (rest : Rest) :
    Except ParseError (Parsed (List Node)) :=
  if startsOperand mode rest then do
    let (first, rest) ← parsePower budget mode rest
    let (more, rest) ← parseArgumentTail budget mode rest
    .ok ([joined .invisible first more], rest)
  else .error (misplaced (.argument word) rest)

theorem parseBareArgument_eq (word : String) (rest : Rest) :
    parseBareArgument budget mode word rest
      = if startsOperand mode rest then
          parseBare budget mode rest >>= fun (row, rest) => .ok ([factorsTree row], rest)
        else .error (misplaced (.argument word) rest) := by
  unfold parseBareArgument parseBare
  split
  · cases parsePower budget mode rest with
    | error reason => rfl
    | ok result =>
      obtain ⟨first, rest⟩ := result
      change (parseArgumentTail budget mode rest >>= _)
        = (parseArgumentTail budget mode rest >>= _) >>= _
      cases parseArgumentTail budget mode rest <;> rfl
  · rfl

section Steps

variable (tracks : Tracks m before budget)

include tracks

/-! ## Powers -/

/-- An exponent in front of the marker, or one that takes it. -/
theorem tracked_raised (within : front <:+ before) (base : Node) :
    Tracked m front (Goal.power.Passes m) fun z =>
      raised budget mode base (front ++ m.tokens z) := by
  rcases front with _ | ⟨⟨token, position⟩, front⟩
  · exact .kept base
  · have inner : front <:+ before := (suffix_cons _ _).trans within
    cases token with
    | sign sign =>
      cases sign with
      | power =>
        simp only [cons_append, raised_power]
        rcases primesRaised_append front with script | ⟨count, later, shorter, same⟩
        · simp only [script _ _ (m.unmarked_tokens _)]
          have exponent := Tracked.grow (fun exponent => .of .power [base, exponent])
            (.operand rfl [base] []) (tracks .script mode inner)
          exact (exponent.weaken (.ofAlong fun _ => trivial)).cons
        · simp only [same _ _ (m.unmarked_tokens _)]
          exact .early (primed count base) (shorter.trans (suffix_cons _ _)) fun z => rfl
      | subscript => exact .refused fun z => ⟨_, rfl⟩
      | _ => exact .kept base
    | _ => exact .kept base

theorem tracked_power : Goal.power.Tracks m before (budget + 1) := by
  intro mode front within
  refine (tracks .operand mode within).bind (fun base later shorter => ?_) fun base later place => ?_
  · obtain ⟨count, rest, less, same⟩ := applyPrimes_append later
    simp only [same _ _ (m.unmarked_tokens _)]
    exact (tracked_raised tracks ((less.trans shorter).trans within) _).longer less
  · cases place with
    | prime markable =>
      -- the prime of the marker is taken, and the bracket stands next
      exact .passed _ m.group (.group markable.marked) fun z => rfl
    | group holds => exact holds.elim
    | beyond shorter grown =>
      obtain ⟨count, rest, less, same⟩ := applyPrimes_eq later
      simp only [same]
      exact tracked_raised_behind (grown.map (primed count) (bears_primed count))
        (less.trans shorter)

/-! ## Signs in front of an operand -/

theorem tracked_not : Goal.not.Tracks m before (budget + 1) := by
  intro mode front within
  have plain := tracks .relation mode within
  rcases front with _ | ⟨⟨token, position⟩, front⟩
  · exact plain
  · have inner : front <:+ before := (suffix_cons _ _).trans within
    cases token with
    | sign sign =>
      cases sign with
      | not =>
        have negated := Tracked.grow (fun inner => .of .not [inner]) (.operand rfl [] [])
          (tracks .not mode inner)
        exact negated.cons
      | _ => exact plain
    | _ => exact plain

theorem tracked_signed : Goal.signed.Tracks m before (budget + 1) := by
  intro mode front within
  have plain := tracks .juxtaposed mode within
  rcases front with _ | ⟨⟨token, position⟩, front⟩
  · exact plain
  · have operand := tracks .signed mode ((suffix_cons _ _).trans within)
    cases token with
    | sign sign =>
      cases sign with
      | minus => exact (operand.grow (fun inner => .of .negate [inner]) (.operand rfl [] [])).cons
      | not => exact (operand.grow (fun inner => .of .not [inner]) (.operand rfl [] [])).cons
      | plus => exact operand.cons
      | _ => exact plain
    | _ => exact plain

/-! ## Juxtaposition -/

theorem tracked_factors (unraised : m.Unraised) (counted : Counted m.rest)
    (within : front <:+ before) :
    Tracked m front (m.Along m.GrownFactors) fun z =>
      parseFactors budget mode (front ++ m.tokens z) := by
  have tail := tracks.tail .juxtaposedTail rfl rfl mode
  refine (tracks .power mode within).bind (fun next later shorter => ?_) fun found later place => ?_
  · refine (tail.early later (shorter.trans within)).map (next :: ·) fun grown => ?_
    rcases grown with single | ⟨left, right, node, same, follower⟩
    · exact .inl (single.cons next)
    · exact .inr ⟨next :: left, right, node, fun z => congrArg (next :: ·) (same z), follower⟩
  · refine .fixed (parseJuxtaposedTail budget mode later) fun (row, last) same => ?_
    refine .passed (fun z => found z :: row) last ?_ fun z => rfl
    cases place with
    | prime holds =>
      rw [tail.stops row last same]
      exact .prime trivial
    | group marked =>
      obtain ⟨node, more, rfl, follower, behind⟩ :=
        follower_of_juxtaposedTail unraised counted same
      refine .beyond behind ?_
      rcases marked with name | bears
      · exact .inr ⟨[], more, node, fun z => congrArg (· :: node :: more) (name z), follower⟩
      · exact .inl (.inl ⟨[], node :: more, found, fun z => rfl, bears⟩)
    | beyond shorter grown =>
      refine .beyond ((suffix_parse .juxtaposedTail same).trans shorter) ?_
      exact .inl (grown.row (fun node => node) id row)

theorem tracked_juxtaposed (unraised : m.Unraised) (counted : Counted m.rest) :
    Goal.juxtaposed.Tracks m before (budget + 1) := by
  intro mode front within
  simp only [Goal.parse, parseJuxtaposed_succ]
  exact (tracked_factors tracks unraised counted within).map factorsTree Marker.GrownFactors.tree

theorem tracked_juxtaposedTail (unraised : m.Unraised) (counted : Counted m.rest) :
    Goal.juxtaposedTail.Tracks m before (budget + 1) := by
  intro mode front within
  exact .choice (startsOperand_tokens mode front) (tracked_factors tracks unraised counted within)
    (.kept [])

/-! ## Operands -/

theorem tracked_script : Goal.script.Tracks m before (budget + 1) := by
  intro mode front within
  have plain : Tracked m front (Goal.script.Passes m) fun z =>
      parseOperand budget mode (front ++ m.tokens z) := by
    refine (tracks .operand mode within).weaken fun {found later} place => ?_
    cases place with
    | prime holds => exact .prime trivial
    | group holds => exact holds.elim
    | beyond shorter grown => exact .beyond shorter grown
  rcases front with _ | ⟨⟨token, position⟩, front⟩
  · exact plain
  · have inner : front <:+ before := (suffix_cons _ _).trans within
    cases token with
    | braceOpen =>
      refine .cons ?_
      exact (tracks .or mode inner).closed checks_afterBrace (fun node => node) id
    | sign sign =>
      cases sign with
      | minus =>
        have negated := Tracked.grow (fun inner => .of .negate [inner]) (.operand rfl [] [])
          (tracks .script mode inner)
        exact negated.cons
      | _ => exact plain
    | _ => exact plain

/-- The items behind a bracket are closed by it. -/
theorem tracked_items (bracket : Bracket) : (Goal.items bracket).Tracks m before (budget + 1) := by
  intro mode front within
  have list : Tracked m front ((Goal.items bracket).Passes m) fun z =>
      parseItemList budget { mode with inBars := false } (front ++ m.tokens z) >>=
        fun (items, rest) => afterBracket bracket rest >>= fun rest => .ok (items, rest) :=
    (tracks .itemList { mode with inBars := false } within).closed
      (checks_afterBracket bracket) (fun items => items) id
  rcases front with _ | ⟨⟨token, position⟩, front⟩
  · exact list
  · cases token with
    | closing other =>
      by_cases same : other = bracket
      · exact .early [] (suffix_cons _ _) fun z => by
          simp [Goal.parse, parseItems, afterBracket?, same]
      · have none : ∀ rest, afterBracket? bracket (⟨.closing other, position⟩ :: rest) = none :=
          fun rest => if_neg same
        simp only [Goal.parse, parseItems, cons_append, none]
        exact list
    | _ => exact list

theorem tracked_itemList : Goal.itemList.Tracks m before (budget + 1) := by
  intro mode front within
  refine (tracks .or mode within).bindAlong (fun item later shorter => ?_) (fun found => ?_)
    fun found later behind grown => ?_
  · rcases later with _ | ⟨⟨token, position⟩, later⟩
    · exact .kept [item]
    · have inner : later <:+ front := (suffix_cons _ _).trans shorter
      cases token with
      | comma =>
        have items := Tracked.map (tracks .itemList mode (inner.trans within)) (item :: ·)
          (GrownRow.cons item)
        exact items.cons
      | _ => exact .kept [item]
  · exact .passed (fun z => [found z]) m.primed (.prime trivial) fun z => rfl
  · have row := grown.row (fun node => node) id
    rcases later with _ | ⟨⟨token, position⟩, later⟩
    · exact .passing behind (row [])
    · cases token with
      | comma => exact .behind .itemList ((suffix_cons _ _).trans behind) row
      | _ => exact .passing behind (row [])

theorem tracked_fraction (within : front <:+ before) :
    Tracked m front (Goal.operand.Passes m) fun z =>
      parseScript budget mode (front ++ m.tokens z) >>= fun (numerator, rest) =>
        parseScript budget mode rest >>= fun (denominator, rest) =>
          .ok (.of .divide [numerator, denominator], rest) := by
  refine (tracks .script mode within).bindAlong (fun numerator later shorter => ?_)
    (fun _ => .stopped parseScript_primed) fun found later behind grown => ?_
  · refine (tracks .script mode (shorter.trans within)).mapAt
      (fun denominator => Node.of .divide [numerator, denominator]) (fun _ => ?_) id fun grown => ?_
    · exact .inr fun z => ⟨_, _, rfl⟩
    · exact grown.map (fun denominator => .of .divide [numerator, denominator])
        (.operand rfl [numerator] [])
  · exact .behind .script behind fun denominator =>
      grown.map (fun numerator => .of .divide [numerator, denominator])
        (.operand rfl [] [denominator])

/-- Function words keep their bare arguments, so that none of them ends at the bracket. -/
theorem tracked_function_operand (unattached : ¬ m.Attached before name) {word : String}
    {elementary : Elementary} {position : Nat}
    (within : ⟨.function word elementary, position⟩ :: front <:+ before) :
    Tracked m front (Goal.operand.Passes m) fun z =>
      parseFunction budget mode word elementary (front ++ m.tokens z) := by
  rcases tracks (.function word elementary) mode ((suffix_cons _ _).trans within) with
    all | ⟨found, shorter, all⟩ | ⟨found, later, place, all⟩
  · exact .refused all
  · exact .early found shorter all
  · refine .passed found later ?_ all
    cases place with
    | prime markable => exact .prime markable
    | group _ =>
      exact absurd ⟨word, elementary, position, front, budget, mode, found name, within, all name⟩
        unattached
    | beyond shorter grown => exact .beyond shorter grown

theorem tracked_operand (unattached : ¬ m.Attached before name) :
    Goal.operand.Tracks m before (budget + 1) := by
  intro mode front within
  rcases front with _ | ⟨⟨token, position⟩, front⟩
  · exact .passed nameTree m.primed (.prime (.inl fun _ => rfl)) fun z => rfl
  · have inner : front <:+ before := (suffix_cons _ _).trans within
    cases token with
    | number value | name name => exact .early _ (suffix_cons _ _) fun z => rfl
    | opening bracket =>
      refine .cons ?_
      exact (tracks (.items bracket) mode inner).mapAt groupTree False.elim id
        fun grown => grown.map groupTree bears_groupTree
    | braceOpen =>
      refine .cons ?_
      exact (tracks .or mode inner).closed checks_afterBrace (fun node => node) id
    | bar closing =>
      refine .cons ?_
      refine (tracks .or { mode with inBars := true } inner).closed (checks_afterBar closing)
        (fun inner => Node.of (.elementary .abs) [inner]) fun grown => ?_
      exact grown.map (fun inner => .of (.elementary .abs) [inner]) (.operand rfl [] [])
    | function word elementary => exact (tracked_function_operand tracks unattached within).cons
    | fraction => exact (tracked_fraction tracks inner).cons
    | integral => exact (tracks .integral mode inner).cons
    | _ => exact .refused fun z => ⟨_, rfl⟩

/-! ## Function words -/

/-- A script at the marker and the scripts behind it. -/
theorem tracked_scripts_further (within : front <:+ before) (attach : Node → Scripts)
    (grows : ∀ {tree}, Grown m.IsGroup tree → GrownScripts m.IsGroup fun z => attach (tree z)) :
    Tracked m front (m.Along (GrownScripts m.IsGroup)) fun z =>
      parseScript budget mode (front ++ m.tokens z) >>= fun (script, rest) =>
        parseScripts budget mode (attach script) rest := by
  refine (tracks .script mode within).bindAlong (fun script later shorter => ?_) (fun found => ?_)
    fun found later behind grown => tracked_scripts_behind (grows grown) behind
  · exact tracks (.scripts (attach script)) mode (shorter.trans within)
  · cases budget with
    | zero => exact .refused fun z => ⟨_, rfl⟩
    | succ budget =>
      exact .passed (fun z => attach (found z)) m.primed (.prime trivial) fun z => rfl

theorem tracked_scripts (scripts : Scripts) :
    (Goal.scripts scripts).Tracks m before (budget + 1) := by
  intro mode front within
  rcases front with _ | ⟨⟨token, position⟩, front⟩
  · exact .kept scripts
  · have inner : front <:+ before := (suffix_cons _ _).trans within
    cases token with
    | sign sign =>
      cases sign with
      | subscript =>
        exact (tracked_scripts_further tracks inner (fun base => { scripts with base := some base })
          fun grown => grown.first scripts.power).cons
      | power =>
        exact (tracked_scripts_further tracks inner (fun power => { scripts with power := some power })
          fun grown => grown.second scripts.base).cons
      | _ => exact .kept scripts
    | _ => exact .kept scripts

theorem tracked_index (elementary : Elementary) :
    (Goal.index elementary).Tracks m before (budget + 1) := by
  intro mode front within
  cases elementary with
  | sqrt =>
    rcases front with _ | ⟨⟨token, position⟩, front⟩
    · exact .kept none
    · cases token with
      | opening bracket =>
        cases bracket with
        | square =>
          refine .cons ?_
          exact (tracks .or mode ((suffix_cons _ _).trans within)).closed
            (checks_afterBracket .square) some Grown.index
        | _ => exact .kept none
      | _ => exact .kept none
  | _ => exact .kept none

theorem tracked_bare (within : front <:+ before) :
    Tracked m front (Goal.argumentTail.Passes m) fun z =>
      parseBare budget mode (front ++ m.tokens z) := by
  refine (tracks .power mode within).bind (fun next later shorter => ?_) fun found later place => ?_
  · exact (tracks .argumentTail mode (shorter.trans within)).mapAt (next :: ·)
      (fun _ => trivial) (fun _ => trivial) (GrownRow.cons next)
  · refine .fixed (parseArgumentTail budget mode later) fun (row, last) same => ?_
    refine .passed (fun z => found z :: row) last ?_ fun z => rfl
    cases place with
    | prime holds =>
      rw [@stops_primed m .argumentTail rfl _ _ _ _ same]
      exact .prime trivial
    | group marked =>
      rw [stops_group same]
      exact .group trivial
    | beyond shorter grown =>
      exact .beyond ((suffix_parse .argumentTail same).trans shorter)
        (grown.row (fun node => node) id row)

theorem tracked_argumentTail : Goal.argumentTail.Tracks m before (budget + 1) := by
  intro mode front within
  exact .choice (continuesArgument_tokens mode front) (tracked_bare tracks within) (.kept [])

theorem tracked_bareArgument (within : front <:+ before) (word : String) :
    Tracked m front ((Goal.arguments word).Passes m) fun z =>
      parseBareArgument budget mode word (front ++ m.tokens z) := by
  simp only [parseBareArgument_eq]
  refine .choice (startsOperand_tokens mode front) ?_ (.refused fun z => ⟨_, rfl⟩)
  refine (tracked_bare tracks within).mapAt (fun row => [factorsTree row]) id id fun grown => ?_
  exact (Marker.GrownFactors.tree (.inl grown)).row (fun node => node) id []

theorem tracked_arguments (word : String) :
    (Goal.arguments word).Tracks m before (budget + 1) := by
  intro mode front within
  have bare := @tracked_bareArgument m before front budget mode tracks within word
  rcases front with _ | ⟨⟨token, position⟩, front⟩
  · exact bare
  · cases token with
    | opening bracket =>
      cases bracket with
      | round =>
        have items := tracks (.items .round) mode ((suffix_cons _ _).trans within)
        refine .cons (items.weaken fun {found later} place => ?_)
        cases place with
        | prime holds | group holds => exact holds.elim
        | beyond shorter grown => exact .beyond shorter grown
      | _ => exact bare
    | braceOpen =>
      exact (tracks .script mode within).mapAt (fun arg => [arg]) (fun _ => trivial) False.elim
        fun grown => grown.row (fun node => node) id []
    | _ => exact bare

theorem tracked_function (word : String) (elementary : Elementary) :
    (Goal.function word elementary).Tracks m before (budget + 1) := by
  intro mode front within
  refine (tracks (.scripts ⟨none, none⟩) mode within).bindAlong (fun scripts later shorter => ?_)
    (fun scripts => ?_) fun scripts later behind grown => ?_
  · dsimp only
    refine (tracks (.index elementary) mode (shorter.trans within)).bindAlong
      (fun index rest less => ?_) (fun _ => .stopped (parseArguments_primed word))
      fun index rest behind grown => ?_
    · refine (tracks (.arguments word) mode ((less.trans shorter).trans within)).mapAt
        (functionTree elementary scripts index) (fun _ => ?_) (fun _ => trivial)
        (GrownRow.functionTree elementary scripts index)
      exact .inr fun z => functionTree_operation elementary scripts index _
    · refine .behind (.arguments word) behind fun args => ?_
      cases grown with
      | index inner => exact grown_functionTree_index elementary scripts args inner
      | fixed index => exact .inr ⟨_, fun z => rfl⟩
  · refine .fixed (parseIndex budget mode elementary m.primed) ?_
    rintro ⟨index, rest⟩ same
    rw [@stops_primed m (.index elementary) rfl _ _ _ _ same]
    exact .stopped (parseArguments_primed word)
  · refine .fixed (parseIndex budget mode elementary later) ?_
    rintro ⟨index, rest⟩ same
    exact .behind (.arguments word) ((suffix_parse (.index elementary) same).trans behind)
      (grown.functionTree elementary index)

/-! ## Integrals -/

theorem tracked_limit (limits : Limits) : (Goal.limit limits).Tracks m before (budget + 1) := by
  intro mode front within
  rcases front with _ | ⟨⟨token, position⟩, front⟩
  · exact .kept limits
  · have limit := tracks .script mode ((suffix_cons _ _).trans within)
    cases token with
    | sign sign =>
      cases sign with
      | subscript =>
        refine .cons ?_
        exact limit.map (fun lower => { limits with lower := some lower })
          fun grown => grown.first limits.upper
      | power =>
        refine .cons ?_
        exact limit.map (fun upper => { limits with upper := some upper })
          fun grown => grown.second limits.lower
      | _ => exact .kept limits
    | _ => exact .kept limits

theorem tracked_integrand (within : front <:+ before) (limits : Limits) :
    Tracked m front (Goal.integral.Passes m) fun z =>
      parseIntegrand budget mode limits (front ++ m.tokens z) := by
  obtain ⟨_ | lower, _ | upper⟩ := limits
  · exact .refused fun z => ⟨_, rfl⟩
  · exact .refused fun z => ⟨_, rfl⟩
  · exact .refused fun z => ⟨_, rfl⟩
  · simp only [parseIntegrand, parseBody]
    cases found : atDifferential { mode with inIntegral := true } (front ++ m.tokens "") with
    | true =>
      simp only [atDifferential_tokens _ front _ "", found, if_true]
      exact tracked_differential Node.one lower upper
    | false =>
      simp only [atDifferential_tokens _ front _ "", found]
      refine (tracks .sum { mode with inIntegral := true } within).bindAlong
        (fun body later shorter => tracked_differential body lower upper) (fun body => ?_)
        fun body later behind grown => ?_
      · exact .passed _ m.primed (.prime (.inr fun z => ⟨_, _, rfl⟩)) fun z => rfl
      · dsimp only
        exact .passing ((suffix_differential _ later).trans behind)
          (grown.map (integralTree · _ lower upper) (.body _ lower upper))

theorem tracked_integral : Goal.integral.Tracks m before (budget + 1) := by
  intro mode front within
  simp only [Goal.parse, parseIntegral_succ]
  have integrand {front : Rest} (within : front <:+ before)
      {outcome : String → Except ParseError (Parsed Limits)}
      (limits : Tracked m front (m.Along (GrownLimits m.IsGroup)) outcome) :
      Tracked m front (Goal.integral.Passes m) fun z =>
        outcome z >>= fun (limits, rest) => parseIntegrand budget mode limits rest :=
    limits.bindAlong (fun limits _ less => tracked_integrand tracks (less.trans within) limits)
      (fun limits => .refused fun z => parseIntegrand_primed (limits z))
      fun limits _ behind grown => tracked_integrand_behind grown behind
  refine (tracks (.limit ⟨none, none⟩) mode within).bindAlong (fun limits later shorter => ?_)
    (fun limits => ?_) fun limits later behind grown => ?_
  · have inner : later <:+ before := shorter.trans within
    exact integrand inner (tracks (.limit limits) mode inner)
  · cases budget with
    | zero => exact .refused fun z => ⟨_, rfl⟩
    | succ budget => exact .refused fun z => parseIntegrand_primed (limits z)
  · exact integrand within (tracked_limit_behind grown behind)

/-! ## The descent -/

/-- One step of each function. -/
theorem tracks_succ (unraised : m.Unraised) (counted : Counted m.rest)
    (unattached : ¬ m.Attached before name) : Tracks m before (budget + 1) := by
  intro goal
  cases goal with
  | or =>
    exact fun mode _ within => .row within (builds_joined rfl) (tracks .and mode within)
      (tracks.tail .orTail rfl rfl mode)
  | orTail =>
    exact fun mode _ within => .rowTail isTail_or within (fun _ => id) (tracks .and mode)
      (tracks.tail .orTail rfl rfl mode)
  | and =>
    exact fun mode _ within => .row within (builds_joined rfl) (tracks .not mode within)
      (tracks.tail .andTail rfl rfl mode)
  | andTail =>
    exact fun mode _ within => .rowTail isTail_and within (fun _ => id) (tracks .not mode)
      (tracks.tail .andTail rfl rfl mode)
  | not => exact tracked_not tracks
  | relation =>
    exact fun mode _ within => .row within builds_relationTree (tracks .sum mode within)
      (tracks.tail .relationTail rfl rfl mode)
  | relationTail =>
    exact fun mode _ within => .rowTail isTail_relation within bearsTagged (tracks .sum mode)
      (tracks.tail .relationTail rfl rfl mode)
  | sum =>
    exact fun mode _ within => .row within (builds_foldRun rfl rfl) (tracks .product mode within)
      (tracks.tail .sumTail rfl rfl mode)
  | sumTail =>
    exact fun mode _ within => .rowTail isTail_sum within bearsTagged (tracks .product mode)
      (tracks.tail .sumTail rfl rfl mode)
  | product =>
    exact fun mode _ within => .row within (builds_foldRun rfl rfl) (tracks .signed mode within)
      (tracks.tail .productTail rfl rfl mode)
  | productTail =>
    exact fun mode _ within => .rowTail isTail_product within bearsTagged (tracks .signed mode)
      (tracks.tail .productTail rfl rfl mode)
  | signed => exact tracked_signed tracks
  | juxtaposed => exact tracked_juxtaposed tracks unraised counted
  | juxtaposedTail => exact tracked_juxtaposedTail tracks unraised counted
  | power => exact tracked_power tracks
  | script => exact tracked_script tracks
  | operand => exact tracked_operand tracks unattached
  | itemList => exact tracked_itemList tracks
  | argumentTail => exact tracked_argumentTail tracks
  | integral => exact tracked_integral tracks
  | items bracket => exact tracked_items tracks bracket
  | function word elementary => exact tracked_function tracks word elementary
  | scripts found => exact tracked_scripts tracks found
  | index elementary => exact tracked_index tracks elementary
  | arguments word => exact tracked_arguments tracks word
  | limit found => exact tracked_limit tracks found

end Steps

theorem tracks (unraised : m.Unraised) (counted : Counted m.rest)
    (unattached : ¬ m.Attached before name) (budget : Nat) : Tracks m before budget := by
  induction budget with
  | zero => exact tracks_zero before
  | succ budget ih => exact tracks_succ ih unraised counted unattached

end Grapher.Markup
