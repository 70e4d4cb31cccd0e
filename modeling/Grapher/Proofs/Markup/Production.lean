import Grapher.Proofs.Markup.Phrase
import Grapher.Proofs.Markup.Writing

/-!
# Productions of the markup grammar

One lemma for each way to write a tree: when the parts are operands in braces, the tokens of the
whole are a phrase. Rows of operands come first, then the operators with one operand or two, then
groups, function words and integrals.
-/

set_option autoImplicit false

namespace Grapher.Markup

open List

variable {inside : List Located} {more : List Node} {budget : Nat} {first node : Node}

/-- A row of one token. -/
def Is (token : Token) (row : List Located) : Prop := ∃ position, row = [⟨token, position⟩]

/-- What stands between the operands of an operator that takes many. -/
inductive JointRow : Operator → List Located → Prop where
  | sign {operator : Operator} {sign : Sign} (joins : joint? operator = some sign)
      (position : Nat) : JointRow operator [⟨.sign sign, position⟩]
  | nothing : JointRow .invisible []

/-- Operands in braces, each after a mark. -/
inductive Tail (lead : List Located → Prop) : List Node → List Located → Prop where
  | nil : Tail lead [] []
  | cons {node : Node} {nodes : List Node} {mark row more : List Located} (leads : lead mark)
      (operand : Braced node row) (others : Tail lead nodes more) :
      Tail lead (node :: nodes) (mark ++ (row ++ more))

theorem Tail.length_pos {lead : List Located → Prop} {nodes : List Node} {row : List Located}
    (all : Tail lead nodes row) (some : nodes ≠ []) : 0 < row.length := by
  cases all with
  | nil => exact absurd rfl some
  | cons leads operand others =>
    have long := operand.length_pos
    simp only [length_append]
    omega

/-! ## Rows of operands -/

section Rows

variable {α : Type} {level : Level} {tail : Nat → Mode → Rest → Except ParseError (Parsed (List α))}
  {build : Node → List α → Node} {lead : List Located → Prop} {entry : Node → α}

/-- What follows an operand of a row ends that operand. -/
theorem Tail.ends (brings : ∀ mark, lead mark → Brings level tail mark entry) {mode : Mode}
    {rest : Rest} (ends : Ends level.inner mode rest) {nodes : List Node} {row : List Located}
    (all : Tail lead nodes row) : Ends level.inner mode (row ++ rest) := by
  cases all with
  | nil => exact ends
  | cons leads operand others =>
    rw [append_assoc, append_assoc]
    exact (brings _ leads).leaves mode _ (operand.atBrace _)

/-- The tail of a row is read entry by entry. -/
theorem Tail.parses (reads : ReadsRow level tail build)
    (brings : ∀ mark, lead mark → Brings level tail mark entry) {mode : Mode} {rest : Rest}
    (ends : Ends level mode rest) {nodes : List Node} {row : List Located}
    (all : Tail lead nodes row) {budget : Nat} (enough : 16 * row.length + 10 ≤ budget) :
    tail budget mode (row ++ rest) = .ok (nodes.map entry, rest) := by
  induction all generalizing budget with
  | nil =>
    rcases budget with _ | budget
    · omega
    exact reads.stops budget mode rest ends
  | @cons node nodes mark row more leads operand others ih =>
    simp only [length_append] at enough
    have long := operand.length_pos
    rcases budget with _ | budget
    · omega
    have inner : Ends level.inner mode rest := ends.mono (by rw [reads.place]; exact Nat.le_succ _)
    have room : 16 * row.length + 9 ≤ budget := by omega
    have later : 16 * more.length + 10 ≤ budget := by omega
    have first := operand.parses level.inner room (others.ends brings inner)
    have second := ih later
    rw [append_assoc, append_assoc,
      (brings mark leads).enters budget mode _ (operand.atBrace _), first]
    simp only [bind, Except.bind, second, map_cons]

/-- A row of two or more operands in braces. -/
theorem ReadsRow.joined (reads : ReadsRow level tail build)
    (brings : ∀ mark, lead mark → Brings level tail mark entry) {node : Node} {nodes : List Node}
    {first more : List Located} (start : Braced node first) (others : Tail lead nodes more)
    (some : nodes ≠ []) : Phrase level (build node (nodes.map entry)) (first ++ more) := by
  have least : level.index ≤ Level.operand.index := by cases level <;> decide
  refine .of_step ((start.phrase.starts.mono least).append more) ?_
  intro budget mode rest enough ends
  have short := start.length_pos
  have long := others.length_pos some
  have inner : Ends level.inner mode rest := ends.mono (by rw [reads.place]; exact Nat.le_succ _)
  simp only [need, length_append] at enough
  have room : 16 * first.length + 9 ≤ budget := by omega
  have later : 16 * more.length + 10 ≤ budget := by omega
  have head := start.parses level.inner room (others.ends brings inner)
  have last := others.parses reads brings ends later
  rw [append_assoc, reads.opens, head]
  simp only [bind, Except.bind, last]

end Rows

/-! ## The trees of rows -/

theorem joined_of_some {operator : Operator} (some : more ≠ []) :
    joined operator first more = .of operator (first :: more) := by
  cases more with
  | nil => exact absurd rfl some
  | cons second others => rfl

theorem relationTree_same {relation : Relation} (some : more ≠ []) :
    relationTree first (more.map (relation, ·)) = .of (.relation relation) (first :: more) := by
  cases more with
  | nil => exact absurd rfl some
  | cons second others =>
    have same : ((second :: others).map (relation, ·)).all (·.1 == relation) = true := by
      simp
    have nodes : ((second :: others).map (relation, ·)).map Prod.snd = second :: others := by
      rw [map_map]
      exact map_id _
    exact (if_pos same).trans (by rw [nodes])

/-- Operands that are all collected end up in one operation. -/
theorem foldRun_collected {collecting binary : Operator} {run : List Node} (some : run ≠ []) :
    foldRun collecting binary (.of collecting run) run (more.map (true, ·))
      = .of collecting (run ++ more) := by
  induction more generalizing run with
  | nil => simp [foldRun]
  | cons next more ih =>
    have nonempty : run.isEmpty = false := by simpa using some
    simp only [map_cons, foldRun, nonempty, Bool.false_eq_true, if_false]
    rw [ih (by simp), append_assoc, singleton_append]

theorem foldRun_all {collecting binary : Operator} (some : more ≠ []) :
    foldRun collecting binary first [] (more.map (true, ·)) = .of collecting (first :: more) := by
  cases more with
  | nil => exact absurd rfl some
  | cons second others => exact foldRun_collected (cons_ne_nil first [second])

/-! ## Operators with many operands, two and one -/

/-- A phrase of any level is a whole formula. -/
theorem Phrase.whole {level : Level} {node : Node} {row : List Located}
    (phrase : Phrase level node row) : Phrase .or node row :=
  phrase.loosen (Nat.zero_le _)

section Operators

variable {operator : Operator} {sign : Sign} {a b : Node} {first second : List Located}

theorem phrase_many (takes : takesMany operator = true) {nodes : List Node} {more : List Located}
    (start : Braced node first) (others : Tail (JointRow operator) nodes more) (some : nodes ≠ []) :
    Phrase .or (.of operator (node :: nodes)) (first ++ more) := by
  have listed : joined operator node (nodes.map id) = .of operator (node :: nodes) := by
    rw [map_id, joined_of_some some]
  cases operator with
  | or =>
    refine listed ▸ readsRow_or.joined ?_ start others some
    rintro mark (⟨⟨⟩, position⟩ | _)
    exact .sign position
  | and =>
    refine (listed ▸ readsRow_and.joined ?_ start others some : Phrase .and _ _).whole
    rintro mark (⟨⟨⟩, position⟩ | _)
    exact .sign position
  | relation relation =>
    refine (relationTree_same some ▸ readsRow_relation.joined ?_ start others some :
      Phrase .relation _ _).whole
    rintro mark (⟨⟨⟩, position⟩ | _)
    exact .sign position
  | add =>
    refine (foldRun_all some ▸ readsRow_sum.joined ?_ start others some :
      Phrase .sum _ _).whole
    rintro mark (⟨⟨⟩, position⟩ | _)
    exact .sign position
  | multiply =>
    refine (foldRun_all some ▸ readsRow_product.joined ?_ start others some :
      Phrase .product _ _).whole
    rintro mark (⟨⟨⟩, position⟩ | _)
    exact .sign position
  | invisible =>
    refine (listed ▸ readsRow_juxtaposed.joined ?_ start others some :
      Phrase .juxtaposed _ _).whole
    rintro mark (⟨⟨⟩, position⟩ | _)
    exact brings_nothing
  | _ => cases takes

/-- One further operand after a sign. -/
theorem Tail.one {token : Token} (position : Nat) (operand : Braced b second) :
    Tail (Is token) [b] (⟨token, position⟩ :: second) := by
  have tail := Tail.cons ⟨position, rfl⟩ operand (.nil : Tail (Is token) [] [])
  rwa [append_nil] at tail

/-- An exponent in braces is a script, never a row of primes. -/
theorem phrase_power (base : Braced a first) (position : Nat) (exponent : Braced b second) :
    Phrase .power (.of .power [a, b]) (first ++ ⟨.sign .power, position⟩ :: second) := by
  refine .of_step ((base.phrase.starts.mono (by decide)).append _) ?_
  intro budget mode rest enough _
  simp only [need, length_append, length_cons] at enough
  have operand := base.parses .operand (by omega : 16 * first.length + 9 ≤ budget)
    (.operand mode (⟨.sign .power, position⟩ :: (second ++ rest)))
  have script := exponent.script (by omega : 16 * second.length ≤ budget) mode rest
  cases exponent with
  | intro phrase opened closed =>
    obtain ⟨token, more, rfl, tightest, can, -⟩ := phrase.starts
    simp only [Level.parse, append_assoc, cons_append] at operand script ⊢
    unfold parsePower
    simp only [operand, bind, Except.bind, applyPrimes]
    split
    · next shape => cases shape
    · next shape =>
      obtain ⟨-, -, same, -⟩ := by simpa only [cons.injEq] using shape
      rw [same] at can
      cases can
    · next shape =>
      cases shape
      simp only [script]
    · next shape => cases shape
    · next other _ => exact (other _ _ rfl).elim

theorem phrase_two (joins : between? operator = some sign) (left : Braced a first) (position : Nat)
    (right : Braced b second) :
    Phrase .or (.of operator [a, b]) (first ++ ⟨.sign sign, position⟩ :: second) := by
  have others := @Tail.one b second (.sign sign) position right
  cases operator with
  | subtract =>
    cases joins
    have brings : ∀ mark, Is (.sign .minus) mark → Brings .sum parseSumTail mark (false, ·) := by
      rintro mark ⟨position, rfl⟩
      exact .sign position
    exact (readsRow_sum.joined brings left others (cons_ne_nil _ _)).whole
  | divide =>
    cases joins
    have brings : ∀ mark, Is (.sign .divide) mark →
        Brings .product parseProductTail mark (false, ·) := by
      rintro mark ⟨position, rfl⟩
      exact .sign position
    exact (readsRow_product.joined brings left others (cons_ne_nil _ _)).whole
  | power =>
    cases joins
    exact (phrase_power left position right).whole
  | _ => cases joins

/-- A sign in front of an operand of the same level. -/
theorem phrase_led (level : Level) {position : Nat} (can : (Token.sign sign).start? = some level.index)
    (leads : ∀ budget mode row, level.parse (budget + 1) mode (⟨.sign sign, position⟩ :: row) = (do
      let (inner, rest) ← level.parse budget mode row
      .ok (.of operator [inner], rest)))
    (only : Braced a first) : Phrase .or (.of operator [a]) (⟨.sign sign, position⟩ :: first) := by
  refine @Phrase.whole level _ _ (.of_step ⟨_, _, rfl, _, can, Nat.le_refl _⟩ ?_)
  intro budget mode rest enough ends
  simp only [need, length_cons] at enough
  rw [cons_append, leads, only.parses level (by omega : 16 * first.length + 9 ≤ budget) ends]
  rfl

theorem phrase_one (leads : before? operator = some sign) (position : Nat)
    (only : Braced a first) : Phrase .or (.of operator [a]) (⟨.sign sign, position⟩ :: first) := by
  cases operator with
  | not =>
    cases leads
    exact phrase_led .not rfl (fun _ _ _ => rfl) only
  | negate =>
    cases leads
    exact phrase_led .signed rfl (fun _ _ _ => rfl) only
  | _ => cases leads

/-- A prime mark after an operand. -/
theorem phrase_prime (only : Braced a first) (position : Nat) :
    Phrase .power (.of .prime [a]) (first ++ [⟨.prime 1, position⟩]) := by
  refine .of_step ((only.phrase.starts.mono (by decide)).append _) ?_
  intro budget mode rest enough ends
  simp only [need, length_append, length_cons] at enough
  have operand := only.parses .operand (by omega : 16 * first.length + 9 ≤ budget)
    (.operand mode (⟨.prime 1, position⟩ :: rest))
  rw [append_assoc]
  exact parsePower_of_operand operand (applyPrimes_of_ends ends _) ends

end Operators

/-! ## Operands -/

/-- An operand that starts with a token of its own and is read after it. -/
theorem Phrase.of_operand {token : Token} {position : Nat} {row : List Located}
    (start : token.start? = some 9)
    (step : ∀ (budget : Nat) (mode : Mode) (rest : Rest), 16 * row.length + 15 ≤ budget →
      parseOperand (budget + 1) mode (⟨token, position⟩ :: (row ++ rest)) = .ok (node, rest)) :
    Phrase .operand node (⟨token, position⟩ :: row) := by
  refine .of_step ⟨_, _, rfl, 9, start, Nat.le_refl 9⟩ ?_
  intro budget mode rest enough _
  simp only [need, Level.index, length_cons] at enough
  exact step budget mode rest (by omega)

theorem phrase_number (value : Float) (position : Nat) :
    Phrase .operand (.number value) [⟨.number value, position⟩] :=
  .of_operand rfl fun _ _ _ _ => rfl

theorem phrase_name {name : String} (notBase : name ≠ "e") (position : Nat) :
    Phrase .operand (.symbol name) [⟨.name name, position⟩] := by
  refine .of_operand rfl fun budget mode rest _ => ?_
  have plain : nameTree name = .symbol name := if_neg (by simpa using notBase)
  rw [← plain]
  rfl

theorem phrase_fraction {a b : Node} {first second : List Located} (position : Nat)
    (above : Braced a first) (below : Braced b second) :
    Phrase .operand (.of .divide [a, b]) (⟨.fraction, position⟩ :: (first ++ second)) := by
  refine .of_operand rfl fun budget mode rest enough => ?_
  simp only [length_append] at enough
  have numerator := above.script (by omega : 16 * first.length ≤ budget) mode (second ++ rest)
  have denominator := below.script (by omega : 16 * second.length ≤ budget) mode rest
  rw [parseOperand, append_assoc, numerator]
  simp only [bind, Except.bind, denominator]

/-! ## Items between brackets -/

/-- Operands in braces with commas between them. -/
inductive Items : List Node → List Located → Prop where
  | none : Items [] []
  | some {node : Node} {nodes : List Node} {first more : List Located} (start : Braced node first)
      (others : Tail (Is .comma) nodes more) : Items (node :: nodes) (first ++ more)

section Items

variable {nodes : List Node} {row : List Located}

theorem ends_comma (level : Level) (mode : Mode) (position : Nat) (rest : Rest) :
    Ends level mode (⟨.comma, position⟩ :: rest) :=
  .of_none (by simp [continued?, startsOperand]) level

theorem ends_closing (level : Level) (mode : Mode) (bracket : Bracket) (position : Nat)
    (rest : Rest) : Ends level mode (⟨.closing bracket, position⟩ :: rest) :=
  .of_none (by simp [continued?, startsOperand]) level

/-- The items are read one by one, each up to its comma and the last up to the bracket. -/
theorem parseItemList_items {first : List Located} (start : Braced node first)
    (others : Tail (Is .comma) nodes row) (mode : Mode) (bracket : Bracket) (position : Nat)
    (rest : Rest) (enough : 16 * (first.length + row.length) + 10 ≤ budget) :
    parseItemList budget mode (first ++ (row ++ ⟨.closing bracket, position⟩ :: rest))
      = .ok (node :: nodes, ⟨.closing bracket, position⟩ :: rest) := by
  induction others generalizing node first budget with
  | nil =>
    rcases budget with _ | budget
    · omega
    have item := start.parses .or (by omega : 16 * first.length + 9 ≤ budget)
      (ends_closing .or mode bracket position rest)
    simp only [Level.parse] at item
    rw [nil_append, parseItemList, item]
    rfl
  | @cons next nodes mark inner more leads operand others ih =>
    obtain ⟨comma, rfl⟩ := leads
    simp only [length_append, length_singleton] at enough
    rcases budget with _ | budget
    · omega
    have item := start.parses .or (by omega : 16 * first.length + 9 ≤ budget)
      (ends_comma .or mode comma (inner ++ (more ++ ⟨.closing bracket, position⟩ :: rest)))
    have later := ih operand (by omega : 16 * (inner.length + more.length) + 10 ≤ budget)
    simp only [Level.parse] at item
    simp only [cons_append, append_assoc, nil_append]
    rw [parseItemList, item]
    simp only [bind, Except.bind, later]

theorem parseItems_items (items : Items nodes row) (mode : Mode) (bracket : Bracket)
    (position : Nat) (rest : Rest) (enough : 16 * row.length + 11 ≤ budget) :
    parseItems budget mode bracket (row ++ ⟨.closing bracket, position⟩ :: rest)
      = .ok (nodes, rest) := by
  rcases budget with _ | budget
  · omega
  have closes : afterBracket? bracket (⟨.closing bracket, position⟩ :: rest) = some rest :=
    if_pos rfl
  cases items with
  | none => rw [nil_append, parseItems, closes]
  | @some node nodes first more start others =>
    rw [length_append] at enough
    obtain ⟨opened, inside, shape⟩ := start.atBrace (more ++ ⟨.closing bracket, position⟩ :: rest)
    have opens : afterBracket? bracket (first ++ (more ++ ⟨.closing bracket, position⟩ :: rest))
        = none := by
      rw [shape]
      rfl
    have list := parseItemList_items start others { mode with inBars := false } bracket position
      rest (by omega : 16 * (first.length + more.length) + 10 ≤ budget)
    have closed : afterBracket bracket (⟨.closing bracket, position⟩ :: rest) = .ok rest := by
      rw [afterBracket, closes]
    rw [append_assoc, parseItems, opens]
    simp only [list, bind, Except.bind, closed]

theorem phrase_group (items : Items nodes row) (opened closed : Nat) :
    Phrase .operand (groupTree nodes)
      (⟨.opening .round, opened⟩ :: (row ++ [⟨.closing .round, closed⟩])) := by
  refine .of_operand rfl fun budget mode rest enough => ?_
  simp only [length_append, length_singleton] at enough
  have list := parseItems_items items mode .round closed rest
    (by omega : 16 * row.length + 11 ≤ budget)
  rw [parseOperand, append_assoc, singleton_append, list]
  rfl

end Items

/-! ## Function words -/

section Functions

variable {nodes : List Node} {row : List Located} (word : String) (position opened closed : Nat)

/-- The arguments of a function word in round brackets. -/
def argumentRow (row : List Located) (opened closed : Nat) : List Located :=
  ⟨.opening .round, opened⟩ :: (row ++ [⟨.closing .round, closed⟩])

theorem parseArguments_items (items : Items nodes row) (mode : Mode) (rest : Rest)
    (enough : 16 * row.length + 12 ≤ budget) :
    parseArguments budget mode word (argumentRow row opened closed ++ rest)
      = .ok (nodes, rest) := by
  rcases budget with _ | budget
  · omega
  have list := parseItems_items items mode .round closed rest
    (by omega : 16 * row.length + 11 ≤ budget)
  rw [argumentRow, cons_append, append_assoc, singleton_append, parseArguments]
  exact list

/-- A function word, what stands in front of its arguments, and the arguments. -/
theorem phrase_function (items : Items nodes row) {function : Elementary} {scripts : Scripts}
    {index : Option Node} {before between : List Located}
    (scripted : ∀ {budget : Nat} (mode : Mode) (rest : Rest), 16 * before.length ≤ budget →
      parseScripts (budget + 1) mode ⟨none, none⟩
        (before ++ (argumentRow row opened closed ++ rest))
          = .ok (scripts, between ++ (argumentRow row opened closed ++ rest)))
    (indexed : ∀ {budget : Nat} (mode : Mode) (rest : Rest), 16 * before.length ≤ budget →
      parseIndex (budget + 1) mode function (between ++ (argumentRow row opened closed ++ rest))
        = .ok (index, argumentRow row opened closed ++ rest)) :
    Phrase .operand (functionTree function scripts index nodes)
      (⟨.function word function, position⟩ :: (before ++ argumentRow row opened closed)) := by
  refine .of_operand rfl fun budget mode rest enough => ?_
  simp only [argumentRow, length_append, length_cons, length_nil] at enough
  obtain ⟨budget, rfl⟩ : ∃ less, budget = less + 2 := ⟨budget - 2, by omega⟩
  have args := parseArguments_items word opened closed items mode rest
    (by omega : 16 * row.length + 12 ≤ budget + 1)
  have fits : 16 * before.length ≤ budget := by omega
  rw [append_assoc, parseOperand, parseFunction, scripted mode rest fits]
  simp only [bind, Except.bind, indexed mode rest fits, args]

theorem phrase_call (items : Items nodes row) (function : Elementary) :
    Phrase .operand (.of (.elementary function) nodes)
      (⟨.function word function, position⟩ :: argumentRow row opened closed) := by
  have tree : functionTree function ⟨none, none⟩ none nodes = .of (.elementary function) nodes := by
    cases function <;> rfl
  have phrase := @phrase_function nodes row word position opened closed items function ⟨none, none⟩
    none [] [] (fun _ _ _ => rfl) fun _ _ _ => by cases function <;> rfl
  rwa [tree] at phrase

theorem phrase_root {index : Node} (bracketed : Braced index inside) (items : Items nodes row)
    (opens closes : Nat) :
    Phrase .operand (.of (.elementary .root) (nodes ++ [index]))
      (⟨.function word .sqrt, position⟩ :: (⟨.opening .square, opens⟩ ::
        (inside ++ [⟨.closing .square, closes⟩]) ++ argumentRow row opened closed)) := by
  refine @phrase_function _ _ word position opened closed items .sqrt ⟨none, none⟩ (some index)
    _ (⟨.opening .square, opens⟩ :: (inside ++ [⟨.closing .square, closes⟩])) (fun _ _ _ => rfl)
    fun {budget} mode rest enough => ?_
  simp only [length_cons, length_append] at enough
  have read := bracketed.parses .or (by omega : 16 * inside.length + 9 ≤ budget)
    (ends_closing .or mode .square closes (argumentRow row opened closed ++ rest))
  simp only [Level.parse] at read
  simp only [cons_append, append_assoc, nil_append]
  rw [parseIndex, read]
  rfl

theorem phrase_log {base : Node} (based : Braced base inside) (items : Items nodes row) (mark : Nat) :
    Phrase .operand (.of (.elementary .log) (nodes ++ [base]))
      (⟨.function word .log, position⟩ :: (⟨.sign .subscript, mark⟩ :: inside ++
        argumentRow row opened closed)) := by
  refine @phrase_function _ _ word position opened closed items .log ⟨some base, none⟩ none _ []
    (fun {budget} mode rest enough => ?_) fun _ _ _ => rfl
  rw [length_cons] at enough
  obtain ⟨budget, rfl⟩ : ∃ less, budget = less + 1 := ⟨budget - 1, by omega⟩
  rw [cons_append, parseScripts, based.script (by omega)]
  rfl

end Functions

/-! ## Integrals -/

/-- The integrand ends at the differential, which only the integral around it makes one. -/
theorem phrase_integral {lower upper body : Node} {low high : List Located}
    (first : Braced lower low) (second : Braced upper high) (middle : Braced body inside)
    (name : String) (position below above letter named : Nat) :
    Phrase .operand (integralTree body name lower upper)
      (⟨.integral, position⟩ :: ⟨.sign .subscript, below⟩ :: (low ++ ⟨.sign .power, above⟩ ::
        (high ++ (inside ++ [⟨.name "d", letter⟩, ⟨.name name, named⟩])))) := by
  refine .of_operand rfl fun budget mode rest enough => ?_
  simp only [length_append, length_cons, length_nil] at enough
  obtain ⟨budget, rfl⟩ : ∃ less, budget = less + 2 := ⟨budget - 2, by omega⟩
  simp only [cons_append, append_assoc, nil_append]
  let differential : Rest := ⟨.name "d", letter⟩ :: ⟨.name name, named⟩ :: rest
  have limit : parseLimit (budget + 1) mode ⟨none, none⟩ (⟨.sign .subscript, below⟩ ::
      (low ++ ⟨.sign .power, above⟩ :: (high ++ (inside ++ differential))))
        = .ok (⟨some lower, none⟩, ⟨.sign .power, above⟩ :: (high ++ (inside ++ differential))) := by
    rw [parseLimit, first.script (by omega) mode _]
    rfl
  have other : parseLimit (budget + 1) mode ⟨some lower, none⟩ (⟨.sign .power, above⟩ ::
      (high ++ (inside ++ differential)))
        = .ok (⟨some lower, some upper⟩, inside ++ differential) := by
    rw [parseLimit, second.script (by omega) mode _]
    rfl
  have ends : Ends .sum { mode with inIntegral := true } differential :=
    .of_none (by simp [differential, continued?, startsOperand, atDifferential]) .sum
  have sum := middle.parses .sum (by omega : 16 * inside.length + 9 ≤ budget + 1) ends
  have shut : atDifferential { mode with inIntegral := true } (inside ++ differential) = false := by
    obtain ⟨opened, more, shape⟩ := middle.atBrace differential
    rw [shape]
    simp [atDifferential]
  simp only [Level.parse] at sum
  rw [parseOperand, parseIntegral, limit]
  simp only [bind, Except.bind, other, shut, Bool.false_eq_true, if_false, sum]
  rfl

end Grapher.Markup
