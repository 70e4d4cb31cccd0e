import Grapher.Proofs.Markup.Lexemes
import Grapher.Proofs.Markup.Scanning

/-!
# A lexeme does not look behind itself

A lexeme is as long as its text allows, so what follows can make it longer. Where it does not, what
follows is of no further interest: a lexeme that ends inside the first part of a text is the same
when a blank is put behind that part (`lexeme_blank`). This is shown for each kind of lexeme, with
its length as the only bound.
-/

set_option autoImplicit false

namespace Grapher.Markup

open List Text Decimal

variable {text rest : List Char} {position : Nat} {c : Char}

/-! ## Runs in front of a blank -/

/-- A run that ends inside the first part ends there too in front of a blank. -/
theorem takeWhile_blank {test : Char → Bool} (stops : test ' ' = false)
    (inside : ((text ++ rest).takeWhile test).length ≤ text.length) :
    (text ++ ' ' :: rest).takeWhile test = (text ++ rest).takeWhile test := by
  rw [takeWhile_append, takeWhile_append, takeWhile_cons, stops]
  rw [takeWhile_append] at inside
  split
  · next all =>
    rw [if_pos all, length_append] at inside
    have none : rest.takeWhile test = [] := length_eq_zero_iff.mp (by omega)
    rw [none]
    rfl
  · rfl

/-! ## Recognisers in front of a blank -/

/-- A text is another one without one of its spaces. -/
inductive Erases : List Char → List Char → Prop where
  | here {text : List Char} : Erases (' ' :: text) text
  | cons {c : Char} {text shorter : List Char} (later : Erases text shorter) :
      Erases (c :: text) (c :: shorter)

namespace Erases

variable {first second shorter : List Char}

theorem between (text rest : List Char) : Erases (text ++ ' ' :: rest) (text ++ rest) := by
  induction text with
  | nil => exact .here
  | cons c text ih => exact .cons ih

theorem sublist (erases : Erases text shorter) : shorter <+ text := by
  induction erases with
  | here => exact sublist_cons_self _ _
  | cons later ih => exact ih.cons_cons _

theorem mem (erases : Erases text shorter) : ' ' ∈ text := by
  induction erases with
  | here => exact .head _
  | cons later ih => exact .tail _ ih

/-- The space is in the first part of a text or in the second one. -/
theorem append_cases (erases : Erases (first ++ second) shorter) :
    (∃ less, Erases first less ∧ shorter = less ++ second) ∨
      ∃ less, Erases second less ∧ shorter = first ++ less := by
  induction first generalizing shorter with
  | nil => exact .inr ⟨shorter, erases, rfl⟩
  | cons c first ih =>
    cases erases with
    | here => exact .inl ⟨first, .here, rfl⟩
    | cons later =>
      rcases ih later with ⟨less, inside, rfl⟩ | ⟨less, behind, rfl⟩
      · exact .inl ⟨c :: less, .cons inside, rfl⟩
      · exact .inr ⟨less, behind, rfl⟩

theorem behind (erases : Erases (first ++ second) shorter) (none : ' ' ∉ first) :
    ∃ less, Erases second less ∧ shorter = first ++ less :=
  erases.append_cases.resolve_left fun ⟨_, inside, _⟩ => none inside.mem

end Erases

/-- What a function finds starts the text. Of what follows, only the first character matters, and
a blank does no harm there. -/
def IsLocal {β : Type} (find : List Char → Option β) (size : β → Nat) : Prop :=
  ∀ ⦃text found⦄, find text = some found → ∃ taken after, text = taken ++ after ∧
    taken.length = size found ∧ ∀ other, other.head? = some ' ' ∨ other.head? = after.head? →
      find (taken ++ other) = some found

/-- What is found in the first part is found there too in front of a blank, if no blank hides it. -/
theorem IsLocal.blank {β : Type} {find : List Char → Option β} {size : β → Nat}
    (isLocal : IsLocal find size)
    (erased : ∀ {text shorter found}, Erases text shorter → find text = some found →
      (find shorter).isSome = true)
    (inside : ∀ found, find (text ++ rest) = some found → size found ≤ text.length) :
    find (text ++ ' ' :: rest) = find (text ++ rest) := by
  cases same : find (text ++ rest) with
  | none =>
    refine Option.eq_none_iff_forall_ne_some.mpr fun found other => ?_
    have some := erased (.between text rest) other
    rw [same] at some
    cases some
  | some found =>
    obtain ⟨taken, after, shape, length, keeps⟩ := isLocal same
    obtain ⟨more, rfl⟩ : taken <+: text := prefix_of_prefix_length_le ⟨after, shape.symm⟩
      (prefix_append _ _) (length ▸ inside found same)
    rw [append_assoc] at shape ⊢
    obtain rfl := append_cancel_left shape
    refine keeps _ ?_
    cases more with
    | nil => exact .inl rfl
    | cons d more => exact .inr rfl

/-! ## Subscripts -/

theorem letterSubscript?_word {left word right : List Char} (some : word ≠ [])
    (letters : ∀ c ∈ word, c.isAlphanum = true) (before : ∀ c ∈ left, isBlank c = true)
    (behind : ∀ c ∈ right, isBlank c = true) (rest : List Char) :
    letterSubscript? ('_' :: '\x7b' :: (left ++ (word ++ (right ++ '\x7d' :: rest))))
      = .some ('\x7b' :: (left ++ (word ++ right)) ++ ['\x7d']) := by
  have apart : ∀ c : Char, c.isAlphanum = true → isBlank c = false := fun c letter =>
    @forall_ascii (fun c => c.isAlphanum = true → isBlank c = false) (by decide) c
      (small_of_isAlphanum letter) letter
  have second : Free Char.isAlphanum (right ++ '\x7d' :: rest) := by
    cases right with
    | nil => exact .cons rfl _
    | cons c right =>
      refine .cons (Bool.eq_false_iff.mpr fun letter => ?_) _
      have blank := behind c (.head _)
      rw [apart c letter] at blank
      cases blank
  have first : Free isBlank (word ++ (right ++ '\x7d' :: rest)) := by
    obtain ⟨c, word, rfl⟩ := exists_cons_of_ne_nil some
    exact .cons (apart c (letters c (.head _))) _
  rw [letterSubscript?_spans before letters behind first second (.cons rfl _),
    if_pos ⟨some, rfl⟩]

theorem isLocal_letterSubscript? : IsLocal letterSubscript? fun script => script.length + 1 := by
  intro text script found
  rcases letterSubscript?_cases found with ⟨c, rest, letter, rfl, rfl⟩ |
    ⟨left, word, right, rest, rfl, rfl, some, letters, before, behind⟩
  · exact ⟨['_', c], rest, rfl, rfl, fun other _ => letterSubscript?_letter letter other⟩
  · refine ⟨'_' :: '\x7b' :: (left ++ (word ++ right)) ++ ['\x7d'], rest, by simp, by simp,
      fun other _ => ?_⟩
    have same := letterSubscript?_word some letters before behind other
    rw [← same]
    simp

theorem erased_letterSubscript? {shorter script : List Char} (erases : Erases text shorter)
    (found : letterSubscript? text = some script) : (letterSubscript? shorter).isSome = true := by
  rcases letterSubscript?_cases found with ⟨c, rest, letter, rfl, rfl⟩ |
    ⟨left, word, right, rest, rfl, rfl, some, letters, before, behind⟩
  · have visible : ' ' ≠ c := by
      rintro rfl
      cases letter
    obtain ⟨less, -, rfl⟩ := @Erases.behind ['_', c] rest shorter erases (by simp [visible])
    exact Option.isSome_of_eq_some (letterSubscript?_letter letter less)
  · have word' : ' ' ∉ word := fun member => absurd (letters _ member) (by decide)
    obtain ⟨_, later, rfl⟩ := @Erases.behind ['_', '\x7b'] _ _ erases (by decide)
    rcases later.append_cases with ⟨less, inside, rfl⟩ | ⟨_, later', rfl⟩
    · exact Option.isSome_of_eq_some (letterSubscript?_word some letters
        (fun c member => before c (inside.sublist.subset member)) behind rest)
    · obtain ⟨_, closing, rfl⟩ := later'.behind word'
      rcases closing.append_cases with ⟨less, inside, rfl⟩ | ⟨_, closing', rfl⟩
      · exact Option.isSome_of_eq_some (letterSubscript?_word some letters before
          (fun c member => behind c (inside.sublist.subset member)) rest)
      · obtain ⟨less, -, rfl⟩ := @Erases.behind ['\x7d'] _ _ closing' (by decide)
        exact Option.isSome_of_eq_some (letterSubscript?_word some letters before behind less)

theorem runSubscript?_braced {word : List Char} (some : word ≠ [])
    (letters : ∀ c ∈ word, isNameChar c = true) (rest : List Char) :
    runSubscript? ('_' :: '\x7b' :: (word ++ '\x7d' :: rest))
      = .some ('\x7b' :: word ++ ['\x7d']) := by
  have run := @takeWhile_append_free isNameChar word ('\x7d' :: rest) letters (.cons rfl _)
  simp only [runSubscript?, run, drop_left, isEmpty_eq_false_iff.mpr some]
  rfl

theorem runSubscript?_bare {word : List Char} (some : word ≠ [])
    (letters : ∀ c ∈ word, isNameChar c = true) (free : Free isNameChar rest) :
    runSubscript? ('_' :: (word ++ rest)) = .some word := by
  have run := takeWhile_append_free letters free
  obtain ⟨c, word, rfl⟩ := exists_cons_of_ne_nil some
  have other : c ≠ '\x7b' := by
    rintro rfl
    exact absurd (letters _ (.head _)) (by decide)
  rw [runSubscript?, run]
  · rfl
  · rintro inner ⟨⟩
    exact other rfl

theorem isSome_runSubscript? (letter : isNameChar c = true) (rest : List Char) :
    (runSubscript? ('_' :: c :: rest)).isSome = true := by
  rw [runSubscript?, takeWhile_cons, if_pos letter]
  · rfl
  · rintro inner ⟨⟩
    cases letter

theorem isLocal_runSubscript? : IsLocal runSubscript? fun script => script.length + 1 := by
  intro text script found
  obtain ⟨word, rest, some, letters, ⟨rfl, rfl⟩ | ⟨rfl, rfl, free⟩⟩ := runSubscript?_cases found
  · refine ⟨'_' :: '\x7b' :: word ++ ['\x7d'], rest, by simp, by simp, fun other _ => ?_⟩
    have same := runSubscript?_braced some letters other
    rw [← same]
    simp
  · refine ⟨'_' :: script, rest, rfl, by simp, fun other head => ?_⟩
    refine runSubscript?_bare some letters fun c first => ?_
    rcases head with blank | same
    · rw [blank] at first
      cases first
      rfl
    · exact free c (same ▸ first)

theorem erased_runSubscript? {shorter script : List Char} (erases : Erases text shorter)
    (found : runSubscript? text = some script) : (runSubscript? shorter).isSome = true := by
  have absent : ∀ {word : List Char}, (∀ c ∈ word, isNameChar c = true) → ' ' ∉ word :=
    fun letters member => absurd (letters _ member) (by decide)
  obtain ⟨word, rest, some, letters, ⟨rfl, rfl⟩ | ⟨rfl, rfl, -⟩⟩ := runSubscript?_cases found
  · have none : ' ' ∉ '_' :: '\x7b' :: (word ++ ['\x7d']) := by simp [absent letters]
    obtain ⟨less, -, rfl⟩ := @Erases.behind _ rest shorter (by simpa using erases) none
    have same := runSubscript?_braced some letters less
    simp [same]
  · obtain ⟨less, -, rfl⟩ := @Erases.behind ('_' :: script) rest shorter erases
      (by simp [absent letters])
    obtain ⟨c, script, rfl⟩ := exists_cons_of_ne_nil some
    exact isSome_runSubscript? (letters c (.head _)) (script ++ less)

/-- A name keeps its subscript in front of a blank. -/
theorem withSubscript_blank {name : String}
    (inside : (withSubscript name (text ++ rest)).2 ≤ text.length) :
    withSubscript name (text ++ ' ' :: rest) = withSubscript name (text ++ rest) := by
  have same : letterSubscript? (text ++ ' ' :: rest) = letterSubscript? (text ++ rest) := by
    refine isLocal_letterSubscript?.blank erased_letterSubscript? fun script found => ?_
    rw [withSubscript, found] at inside
    exact inside
  rw [withSubscript, withSubscript, same]

/-! ## Runs of letters -/

theorem joinSubscript_blank {tokens : List Located}
    (inside : (joinSubscript (text ++ rest) tokens).2 ≤ text.length) :
    joinSubscript (text ++ ' ' :: rest) tokens = joinSubscript (text ++ rest) tokens := by
  fun_induction joinSubscript (text ++ rest) tokens with
  | case1 => rfl
  | case2 name position name' used same =>
    rw [joinSubscript, withSubscript_blank (by rw [same]; exact inside), same]
  | case3 other unnamed =>
    rw [joinSubscript]
    exact unnamed
  | case4 first more several unnamed more' used same ih =>
    rw [joinSubscript, ih (by rw [same]; exact inside), same]
    · exact several
    · exact unnamed

theorem lettersLexeme_blank {run : List Char}
    (inside : (lettersLexeme position run (text ++ rest)).2 ≤ run.length + text.length) :
    lettersLexeme position run (text ++ ' ' :: rest)
      = lettersLexeme position run (text ++ rest) := by
  cases word : wholeWord? (String.ofList run) with
  | some token => simp only [lettersLexeme, word]
  | none =>
    have whole : (if 1 < run.length then runSubscript? (text ++ ' ' :: rest) else none)
        = if 1 < run.length then runSubscript? (text ++ rest) else none := by
      split
      · next several =>
        refine isLocal_runSubscript?.blank erased_runSubscript? fun script found => ?_
        simp only [lettersLexeme, word, if_pos several, found] at inside
        omega
      · rfl
    cases script : (if 1 < run.length then runSubscript? (text ++ rest) else none) with
    | some script => simp only [lettersLexeme, word, whole, script]
    | none =>
      have joined : joinSubscript (text ++ ' ' :: rest) (splitRun 0 position run)
          = joinSubscript (text ++ rest) (splitRun 0 position run) := by
        refine joinSubscript_blank ?_
        simp only [lettersLexeme, word, script] at inside
        omega
      simp only [lettersLexeme, word, whole, script, joined]

/-- The letters at the start of a text are the same lexeme in front of a blank. -/
theorem letters_blank
    (inside : (lettersLexeme position ((text ++ rest).takeWhile Char.isAlpha)
      ((text ++ rest).drop ((text ++ rest).takeWhile Char.isAlpha).length)).2 ≤ text.length) :
    lettersLexeme position ((text ++ ' ' :: rest).takeWhile Char.isAlpha)
        ((text ++ ' ' :: rest).drop ((text ++ ' ' :: rest).takeWhile Char.isAlpha).length)
      = lettersLexeme position ((text ++ rest).takeWhile Char.isAlpha)
        ((text ++ rest).drop ((text ++ rest).takeWhile Char.isAlpha).length) := by
  have ends := Nat.le_trans (length_lettersLexeme position _ _) inside
  rw [drop_append_of_le_length ends] at inside
  rw [takeWhile_blank rfl ends, drop_append_of_le_length ends,
    drop_append_of_le_length ends, lettersLexeme_blank]
  rw [length_drop]
  omega

/-! ## Commands -/

theorem group?_cases {content : List Char} {length : Nat}
    (found : group? text = some (content, length)) :
    ∃ blanks after, text = blanks ++ '\x7b' :: (content ++ '\x7d' :: after) ∧
      (∀ c ∈ blanks, isBlank c = true) ∧ (∀ c ∈ content, inGroup c = true) ∧
      blanks.length + content.length + 2 = length := by
  obtain ⟨blanks, opened, rfl, before, free⟩ := exists_run isBlank text
  rw [group?, dropBlanks, dropWhile_append_free before free] at found
  split at found
  · next inner =>
    obtain ⟨run, closed, rfl, inside, free'⟩ := exists_run inGroup inner
    have same := takeWhile_append_free inside free'
    unfold inGroup at same
    simp only [same, drop_left] at found
    split at found
    · next closes =>
      obtain ⟨after, rfl⟩ := head?_eq_some_iff.mp (beq_iff_eq.mp closes)
      cases found
      refine ⟨blanks, after, rfl, before, inside, ?_⟩
      simp only [length_append, length_cons]
      omega
    · cases found
  · cases found

theorem isLocal_group? : IsLocal group? Prod.snd := by
  rintro text ⟨content, length⟩ found
  obtain ⟨blanks, after, rfl, before, inside, spans⟩ := group?_cases found
  refine ⟨blanks ++ '\x7b' :: content ++ ['\x7d'], after, by simp, ?_, fun other _ => ?_⟩
  · simp only [length_append, length_cons, length_nil]
    omega
  · have same := group?_braced before inside other
    rw [← spans, ← same]
    simp

theorem erased_group? {shorter : List Char} {found : List Char × Nat} (erases : Erases text shorter)
    (same : group? text = some found) : (group? shorter).isSome = true := by
  obtain ⟨blanks, after, rfl, before, inside, -⟩ := group?_cases same
  rcases erases.append_cases with ⟨less, outside, rfl⟩ | ⟨_, later, rfl⟩
  · exact Option.isSome_of_eq_some (group?_braced
      (fun c member => before c (outside.sublist.subset member)) inside after)
  · obtain ⟨_, opened, rfl⟩ := @Erases.behind ['\x7b'] _ _ later (by decide)
    rcases opened.append_cases with ⟨less, within, rfl⟩ | ⟨_, opened', rfl⟩
    · exact Option.isSome_of_eq_some (group?_braced before
        (fun c member => inside c (within.sublist.subset member)) after)
    · obtain ⟨less, -, rfl⟩ := @Erases.behind ['\x7d'] _ _ opened' (by decide)
      exact Option.isSome_of_eq_some (group?_braced before inside less)

/-- A name that a command sets spans at least its group. -/
theorem nameLexeme_of_group {used : Nat} {found : List Char × Nat}
    (group : group? rest = some found) :
    ∃ lexeme, nameLexeme position used rest = .ok lexeme ∧ used + found.2 ≤ lexeme.2 := by
  unfold nameLexeme
  simp only [group]
  split
  · exact ⟨_, rfl, Nat.le_refl _⟩
  · split
    · exact ⟨_, rfl, Nat.le_refl _⟩
    · exact ⟨_, rfl, Nat.le_refl _⟩
    · split
      · exact ⟨_, rfl, Nat.le_refl _⟩
      · exact ⟨_, rfl, Nat.le_add_right _ _⟩

theorem nameLexeme_blank {used : Nat}
    (inside : ∀ found, nameLexeme position used (text ++ rest) = .ok found →
      found.2 ≤ used + text.length) :
    nameLexeme position used (text ++ ' ' :: rest) = nameLexeme position used (text ++ rest) := by
  have short : ∀ found, group? (text ++ rest) = some found → found.2 ≤ text.length := by
    intro found group
    obtain ⟨lexeme, same, spans⟩ := nameLexeme_of_group group
    have := inside lexeme same
    omega
  have grouped := isLocal_group?.blank erased_group? short
  cases group : group? (text ++ rest) with
  | none => simp only [nameLexeme, grouped, group]
  | some found =>
    obtain ⟨content, length⟩ := found
    have behind : ∀ rest, (text ++ rest).drop length = text.drop length ++ rest :=
      fun rest => drop_append_of_le_length (short _ group)
    simp only [nameLexeme, grouped, group, behind]
    simp only [nameLexeme, group, behind] at inside
    split
    · rfl
    · next some =>
      rw [if_neg some] at inside
      split
      · rfl
      · rfl
      · next unknown plain =>
        simp only [unknown, plain] at inside
        split
        · rfl
        · next other =>
          rw [if_neg other] at inside
          have fits := inside _ rfl
          rw [withSubscript_blank]
          rw [length_drop]
          omega

theorem wordCommand_blank {name : String}
    (inside : ∀ found, wordCommand position name (text ++ rest) = .ok found →
      found.2 ≤ name.length + 1 + text.length) :
    wordCommand position name (text ++ ' ' :: rest) = wordCommand position name (text ++ rest) := by
  unfold wordCommand
  unfold wordCommand at inside
  split
  · next ignored =>
    rw [if_pos ignored] at inside
    have short := inside _ rfl
    rcases text with _ | ⟨d, text⟩
    · have unsized : ¬ (sizingCommands.contains name && rest.head? == some '.') = true := by
        intro sized
        rw [nil_append, if_pos sized] at short
        exact Nat.not_succ_le_self _ short
      rw [nil_append, nil_append, if_neg unsized, if_neg]
      rw [Bool.and_eq_true, not_and]
      exact fun _ point => absurd (Option.some.inj (beq_iff_eq.mp point)) (by decide)
    · rfl
  · next spoken =>
    rw [if_neg spoken] at inside
    split
    · next naming =>
      rw [if_pos naming] at inside
      exact nameLexeme_blank inside
    · next other =>
      rw [if_neg other] at inside
      split
      · rfl
      · next unknown =>
        simp only [unknown] at inside
        split
        · rfl
        · next plain =>
          simp only [plain] at inside
          split
          · next greek =>
            rw [if_pos greek] at inside
            have short := inside _ rfl
            rw [withSubscript_blank (by dsimp only at short; omega)]
          · rfl

/-- Whether the name of a command, or the sign that stands for it, ends inside a text. -/
def Named (text rest : List Char) : Prop :=
  text ≠ [] ∧ ((text ++ rest).takeWhile Char.isAlpha).length ≤ text.length

/-- A command that ends inside a text has its name there. -/
theorem named_of_commandLexeme {found : Lexeme}
    (same : commandLexeme position (text ++ rest) = .ok found)
    (inside : found.2 ≤ text.length + 1) : Named text rest := by
  unfold commandLexeme at same
  dsimp only at same
  split at same
  · next unnamed =>
    refine ⟨?_, ?_⟩
    · rintro rfl
      have long : found.2 = 2 := by
        split at same
        · cases same
          rfl
        · repeat' split at same
          all_goals cases same <;> rfl
      rw [long] at inside
      exact absurd inside (by decide)
    · rw [isEmpty_iff.mp unnamed]
      exact Nat.zero_le _
  · next some =>
    have long := (same ▸ @lexes_wordCommand '\\' _ [] True position 0 _ fun _ => trivial).length
    rw [String.length_ofList] at long
    have positive := length_pos_iff.mpr (mt isEmpty_iff.mpr some)
    exact ⟨length_pos_iff.mp (by omega), by omega⟩

theorem commandLexeme_blank (named : Named text rest)
    (inside : ∀ found, commandLexeme position (text ++ rest) = .ok found →
      found.2 ≤ text.length + 1) :
    commandLexeme position (text ++ ' ' :: rest) = commandLexeme position (text ++ rest) := by
  obtain ⟨some, short⟩ := named
  have name := takeWhile_blank rfl short
  unfold commandLexeme
  unfold commandLexeme at inside
  dsimp only at inside ⊢
  rw [name]
  split
  · obtain ⟨d, text, rfl⟩ := exists_cons_of_ne_nil some
    rfl
  · next letters =>
    rw [if_neg letters] at inside
    rw [drop_append_of_le_length short, drop_append_of_le_length short]
    rw [drop_append_of_le_length short] at inside
    refine wordCommand_blank fun found same => ?_
    have := inside found same
    rw [String.length_ofList, length_drop]
    omega

/-! ## Signs and numbers -/

/-- No sign of two characters ends with a blank. -/
theorem lookup_doubleSigns_blank (c : Char) : doubleSigns.lookup (c, ' ') = none := by
  have visible : ∀ entry ∈ doubleSigns, entry.1.2 ≠ ' ' := by decide
  refine lookup_eq_none_iff.mpr fun entry member => ?_
  rw [bne_iff_ne]
  intro same
  exact visible entry member (by rw [← same])

theorem signLexeme_blank
    (inside : ∀ found, signLexeme position c (text ++ rest) = .ok found →
      found.2 ≤ text.length + 1) :
    signLexeme position c (text ++ ' ' :: rest) = signLexeme position c (text ++ rest) := by
  rcases text with _ | ⟨d, text⟩
  · have single : (rest.head?.bind fun next => doubleSigns.lookup (c, next)) = none := by
      refine Option.eq_none_iff_forall_ne_some.mpr fun sign double => ?_
      have spans : signLexeme position c ([] ++ rest) = .ok ([⟨.sign sign, position⟩], 2) := by
        simp only [signLexeme, nil_append, double]
      exact Nat.not_succ_le_self 1 (inside _ spans)
    simp only [signLexeme, nil_append, head?_cons, Option.bind_some,
      lookup_doubleSigns_blank, single]
  · rfl

theorem numberLexeme_plain {run : List Char} {d : Decimal} (shows : Plain run d)
    (ends : Free isDecimal rest) (pointed : rest.head? = some '.' → '.' ∈ run) :
    numberLexeme position (run ++ rest)
      = .ok ([⟨.number (d.toDouble false), position⟩], run.length) := by
  simp only [numberLexeme, scanPlain?_plain shows ends pointed, length_append, Nat.add_sub_cancel]

theorem numberLexeme_cases {found : Lexeme}
    (same : (numberLexeme position text).toOption = some found) :
    ∃ run d after, text = run ++ after ∧ Plain run d ∧ Free isDecimal after ∧
      (after.head? = some '.' → '.' ∈ run) := by
  unfold numberLexeme at same
  split at same
  · next scanned =>
    obtain ⟨run, parts⟩ := plain_of_scanPlain? scanned
    exact ⟨run, _, _, parts⟩
  · cases same

theorem isLocal_numberLexeme :
    IsLocal (fun text => (numberLexeme position text).toOption) Prod.snd := by
  intro text found same
  obtain ⟨run, d, after, rfl, shows, ends, pointed⟩ := numberLexeme_cases same
  dsimp only at same
  rw [numberLexeme_plain shows ends pointed] at same
  cases same
  refine ⟨run, after, rfl, rfl, fun other head => congrArg _ (numberLexeme_plain shows ?_ ?_)⟩
  · intro c first
    rcases head with blank | same
    · rw [blank] at first
      cases first
      decide
    · exact ends c (same ▸ first)
  · intro point
    rcases head with blank | same
    · rw [blank] at point
      cases point
    · exact pointed (same ▸ point)

theorem erased_numberLexeme {shorter : List Char} {found : Lexeme} (erases : Erases text shorter)
    (same : (numberLexeme position text).toOption = some found) :
    (numberLexeme position shorter).toOption.isSome = true := by
  obtain ⟨run, d, after, rfl, shows, -⟩ := numberLexeme_cases same
  have none : ' ' ∉ run := fun member => absurd (shows.chars.2 _ member) (by decide)
  obtain ⟨less, -, rfl⟩ := erases.behind none
  obtain ⟨scanned, starts⟩ := Option.isSome_iff_exists.mp (isSome_scanPlain?_plain shows less)
  rw [numberLexeme, starts]
  rfl

theorem numberLexeme_blank
    (inside : ∀ found, numberLexeme position (text ++ rest) = .ok found → found.2 ≤ text.length) :
    (numberLexeme position (text ++ ' ' :: rest)).toOption
      = (numberLexeme position (text ++ rest)).toOption := by
  refine isLocal_numberLexeme.blank erased_numberLexeme fun found same => inside found ?_
  cases scanned : numberLexeme position (text ++ rest) with
  | error _ => rw [scanned] at same; cases same
  | ok _ => rw [scanned] at same; cases same; rfl

/-! ## Every lexeme -/

/-- A point without digits behind it is no lexeme. -/
theorem lexeme_point_blank
    (inside : ∀ found, lexeme position '.' rest = .ok found → found.2 ≤ 1) :
    (lexeme position '.' (' ' :: rest)).toOption = (lexeme position '.' rest).toOption := by
  have alone : (lexeme position '.' (' ' :: rest)).toOption = none := rfl
  have cases_point : lexeme position '.' rest =
      if startsNumeral '.' rest then numberLexeme position ('.' :: rest)
      else signLexeme position '.' rest := rfl
  rw [alone, cases_point]
  rw [cases_point] at inside
  split
  · next digit =>
    rw [if_pos digit] at inside
    exact @numberLexeme_blank ['.'] rest position inside
  · have single : (rest.head?.bind fun next => doubleSigns.lookup ('.', next)) = none := by
      have others : ∀ entry ∈ doubleSigns, entry.1.1 ≠ '.' := by decide
      refine Option.bind_eq_none_iff.mpr fun next _ => ?_
      refine lookup_eq_none_iff.mpr fun entry member => ?_
      rw [bne_iff_ne]
      intro same
      exact others entry member (by rw [← same])
    simp only [signLexeme, single]
    rfl

/-- A lexeme that ends inside the first part of a text is the same in front of a blank, and so is
the failure to find one, unless it comes from the name of a command that ends behind. -/
theorem lexeme_blank
    (inside : ∀ found, lexeme position c (text ++ rest) = .ok found → found.2 ≤ text.length + 1)
    (named : c = '\\' → Named text rest) :
    (lexeme position c (text ++ ' ' :: rest)).toOption
      = (lexeme position c (text ++ rest)).toOption := by
  -- A point at the end of the text starts a numeral only with what follows.
  by_cases point : c = '.' ∧ text = []
  · obtain ⟨rfl, rfl⟩ := point
    exact lexeme_point_blank inside
  have numeral : startsNumeral c (text ++ ' ' :: rest) = startsNumeral c (text ++ rest) := by
    rcases text with _ | ⟨d, text⟩
    · have other : (c == '.') = false := by simpa using point
      rw [startsNumeral, startsNumeral, other]
      rfl
    · rfl
  unfold lexeme
  unfold lexeme at inside
  rw [numeral]
  split
  · rfl
  · next visible =>
    rw [if_neg visible] at inside
    split
    · next slash =>
      rw [if_pos slash] at inside
      rw [commandLexeme_blank (named (beq_iff_eq.mp slash)) inside]
    · next slash =>
      rw [if_neg slash] at inside
      split
      · next digit =>
        rw [if_pos digit] at inside
        exact @numberLexeme_blank (c :: text) rest position inside
      · next digit =>
        rw [if_neg digit] at inside
        split
        · next letter =>
          rw [if_pos letter] at inside
          split
          · next alpha =>
            rw [if_pos alpha] at inside
            have same := @letters_blank (c :: text) rest position (inside _ rfl)
            exact congrArg (fun found => Except.toOption (.ok found)) same
          · rfl
        · next letter =>
          rw [if_neg letter] at inside
          split
          · next mark =>
            rw [if_pos mark] at inside
            have marks := @takeWhile_blank (c :: text) rest (· == '\'') rfl (inside _ rfl)
            rw [cons_append, cons_append] at marks
            rw [marks]
          · next mark =>
            rw [if_neg mark] at inside
            rw [signLexeme_blank inside]

end Grapher.Markup
