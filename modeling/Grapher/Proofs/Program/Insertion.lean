import Grapher.Proofs.Program.Writing
import Mathlib.Data.List.Forall2

/-!
# Readings that stand inside other readings

What the program of a reading looks like around the program of one of its parts. The part is
written out at one or more places (a middle term of a chain stands in two links), and the rest of
the program does not depend on it: `Inserts` says so of rows of pieces, `Places` of readings. Every
way in which a reading takes up another one places it.
-/

set_option autoImplicit false

namespace Grapher.Program

open Reading List

variable {rows : List Piece → List (List Piece)} {relations : List Relation}

/-! ## Rows of pieces around a row -/

/-- Rows of pieces that hold a given row at one or more places and do not depend on it
otherwise. -/
inductive Inserts : (List Piece → List Piece) → Prop where
  | whole : Inserts fun row => row
  | after (front : List Piece) {around : List Piece → List Piece} (inner : Inserts around) :
    Inserts fun row => front ++ around row
  | before (back : List Piece) {around : List Piece → List Piece} (inner : Inserts around) :
    Inserts fun row => around row ++ back
  | twice {around beside : List Piece → List Piece} (first : Inserts around)
    (second : Inserts beside) : Inserts fun row => around row ++ beside row

namespace Inserts

variable {around beside : List Piece → List Piece}

theorem comp (outer : Inserts around) (inner : Inserts beside) :
    Inserts fun row => around (beside row) := by
  induction outer with
  | whole => exact inner
  | after front _ ih => exact .after front ih
  | before back _ ih => exact .before back ih
  | twice _ _ first second => exact .twice first second

theorem cons (piece : Piece) (inner : Inserts around) : Inserts fun row => piece :: around row :=
  .after [piece] inner

theorem enclosed (inner : Inserts around) : Inserts fun row => enclosed (around row) :=
  .cons (markPiece .opening) (.before [markPiece .closing] inner)

/-- Rows with a separator between them hold each of the rows. -/
theorem intercalate (separator : List Piece) (left right : List (List Piece))
    (inner : Inserts around) :
    Inserts fun row => separator.intercalate (left ++ around row :: right) := by
  induction left with
  | nil =>
    cases right with
    | nil => simpa only [nil_append, intercalate_singleton] using inner
    | cons next right => exact .before _ inner
  | cons first left ih =>
    -- something always follows the first row, be it the inserted one
    have follows : ∀ row, separator.intercalate (first :: left ++ around row :: right)
        = first ++ separator ++ separator.intercalate (left ++ around row :: right) := by
      intro row
      cases left <;> exact intercalate_cons_cons
    simp only [follows]
    exact .after _ ih

theorem call (name : String) (left right : List (List Piece)) :
    Inserts fun row => callPieces name (left ++ row :: right) :=
  .cons _ (.enclosed (.intercalate _ left right .whole))

end Inserts

theorem piecesText_append (first second : List Piece) :
    piecesText (first ++ second) = piecesText first ++ piecesText second := by
  simp only [piecesText, map_append, String.join_append]

/-- The text around an inserted row: something in front, and behind each copy something more. -/
theorem Inserts.text {around : List Piece → List Piece} (inserts : Inserts around) :
    ∃ (front : String) (behind : List String), behind ≠ [] ∧
      ∀ row, piecesText (around row)
        = front ++ String.join (behind.map (piecesText row ++ ·)) := by
  induction inserts with
  | whole => exact ⟨"", [""], cons_ne_nil _ _, fun row => by simp⟩
  | after lead _ ih =>
    obtain ⟨front, behind, some, same⟩ := ih
    refine ⟨piecesText lead ++ front, behind, some, fun row => ?_⟩
    rw [piecesText_append, same, String.append_assoc]
  | before back _ ih =>
    obtain ⟨front, behind, some, same⟩ := ih
    obtain ⟨early, last, rfl⟩ := eq_nil_or_concat behind |>.resolve_left some
    refine ⟨front, early ++ [last ++ piecesText back], by simp, fun row => ?_⟩
    rw [piecesText_append, same]
    simp [String.append_assoc]
  | twice _ _ ih ih' =>
    obtain ⟨front, behind, some, same⟩ := ih
    obtain ⟨front', behind', some', same'⟩ := ih'
    obtain ⟨early, last, rfl⟩ := eq_nil_or_concat behind |>.resolve_left some
    refine ⟨front, early ++ (last ++ front') :: behind', by simp, fun row => ?_⟩
    rw [piecesText_append, same, same']
    simp [String.append_assoc]

/-! ## The links of a chain -/

/-- Lists of rows that hold a given row in one row, or in two neighbouring ones. -/
inductive InsertsIn : (List Piece → List (List Piece)) → Prop where
  | one {around : List Piece → List Piece} (inner : Inserts around) (right : List (List Piece)) :
    InsertsIn fun row => around row :: right
  | two {around beside : List Piece → List Piece} (first : Inserts around)
    (second : Inserts beside) (right : List (List Piece)) :
    InsertsIn fun row => around row :: beside row :: right
  | later (first : List Piece) {rows : List Piece → List (List Piece)} (inner : InsertsIn rows) :
    InsertsIn fun row => first :: rows row

theorem InsertsIn.ne_nil (inserts : InsertsIn rows) (row : List Piece) : rows row ≠ [] := by
  cases inserts <;> exact cons_ne_nil _ _

theorem InsertsIn.intercalate (separator : List Piece) (inserts : InsertsIn rows) :
    Inserts fun row => separator.intercalate (rows row) := by
  induction inserts with
  | one inner right => exact .intercalate separator [] right inner
  | two first second right =>
    simp only [intercalate_cons_cons]
    exact .twice (.before separator first) (.intercalate separator [] right second)
  | @later first rows inner ih =>
    have follows : ∀ row, separator.intercalate (first :: rows row)
        = first ++ separator ++ separator.intercalate (rows row) := by
      intro row
      obtain ⟨next, more, same⟩ := exists_cons_of_ne_nil (inner.ne_nil row)
      rw [same, intercalate_cons_cons]
    simp only [follows]
    exact .after _ ih

/-- A single row stands for itself; more than one are joined by `and`. -/
theorem InsertsIn.connective (connective : Connective) (inserts : InsertsIn rows) :
    Inserts fun row => connectivePieces connective (rows row) := by
  have several : Inserts fun row =>
      enclosed (separated (.keyword (connectiveKeyword connective)) (rows row)) :=
    .enclosed (inserts.intercalate _)
  cases inserts with
  | one inner right =>
    cases right with
    | nil => exact inner
    | cons next right => exact several
  | two first second right => exact several
  | @later first rows inner =>
    have same : ∀ row, connectivePieces connective (first :: rows row)
        = enclosed (separated (.keyword (connectiveKeyword connective)) (first :: rows row)) := by
      intro row
      obtain ⟨next, more, same⟩ := exists_cons_of_ne_nil (inner.ne_nil row)
      rw [same, connectivePieces]
      exact fun only shape => cons_ne_nil _ _ (cons.inj shape).2
    simpa only [same] using several

/-- One link of a chain. -/
def linkRow (link : Link (List Piece) Relation) : List Piece :=
  enclosed (separated (.mark (.relation link.head)) [link.left, link.right])

theorem inserts_linkRow_left (relation : Relation) (right : List Piece) :
    Inserts fun row => linkRow ⟨relation, row, right⟩ :=
  .enclosed (Inserts.intercalate [.blank, .token (.mark (.relation relation)), .blank] [] [right]
    .whole)

theorem inserts_linkRow_right (relation : Relation) (left : List Piece) :
    Inserts fun row => linkRow ⟨relation, left, row⟩ :=
  .enclosed (Inserts.intercalate [.blank, .token (.mark (.relation relation)), .blank] [left] []
    .whole)

/-- A term of a chain stands in the link before it and in the link behind it. -/
theorem insertsIn_links {left right : List (List Piece)} (some : relations ≠ [])
    (count : left.length + right.length = relations.length) :
    InsertsIn fun row => (Chain.linksOf relations (left ++ row :: right)).map linkRow := by
  induction left generalizing relations with
  | nil =>
    obtain ⟨relation, relations, rfl⟩ := exists_cons_of_ne_nil some
    cases right with
    | nil => simp at count
    | cons next right => exact .one (inserts_linkRow_left relation next) _
  | cons first left ih =>
    cases relations with
    | nil => simp at count
    | cons relation relations =>
      cases left with
      | nil =>
        simp only [cons_append, nil_append, Chain.linksOf, map_cons]
        cases relations with
        | nil => simpa only [Chain.linksOf] using .one (inserts_linkRow_right relation first) []
        | cons further relations =>
          cases right with
          | nil => simp at count
          | cons next right =>
            exact .two (inserts_linkRow_right relation first)
              (inserts_linkRow_left further next) _
      | cons second left =>
        simp only [length_cons] at count
        have positive : 0 < relations.length := by omega
        exact .later _ (ih (ne_nil_of_length_pos positive)
          (by simp only [length_cons]; omega))

/-- A chain joins its links as a connective joins conditions. -/
theorem chainPieces_eq_connectivePieces (terms : List (List Piece)) (relations : List Relation) :
    chainPieces terms relations
      = connectivePieces .and ((Chain.linksOf relations terms).map linkRow) := rfl

theorem inserts_chainPieces {left right : List (List Piece)} (some : relations ≠ [])
    (count : left.length + right.length = relations.length) :
    Inserts fun row => chainPieces (left ++ row :: right) relations := by
  exact (insertsIn_links some count).connective .and

/-! ## Readings around a reading -/

/-- Ways to take up a reading in another one: its program is written at one or more places, and the
rest does not depend on it. -/
def Places (here : String) (wrap : Term → Term) : Prop :=
  ∃ around, Inserts around ∧ ∀ term, pieces here (wrap term) = around (pieces here term)

namespace Places

variable {here : String} {wrap : Term → Term}

theorem whole : Places here fun term => term :=
  ⟨_, .whole, fun _ => rfl⟩

theorem comp {outer : Term → Term} (around : Places here outer) (inner : Places here wrap) :
    Places here fun term => outer (wrap term) := by
  obtain ⟨rows, inserts, same⟩ := around
  obtain ⟨rows', inserts', same'⟩ := inner
  exact ⟨_, inserts.comp inserts', fun term => by rw [same, same']⟩

theorem piecesArgs_append_cons (left right : List Term) (term : Term) :
    piecesArgs here (left ++ term :: right)
      = piecesArgs here left ++ pieces here term :: piecesArgs here right := by
  simp only [piecesArgs_eq_map, map_append, map_cons]

theorem joined (joiner : Joiner) (left right : List Term) :
    Places here fun term => .joined joiner (left ++ term :: right) :=
  ⟨_, .enclosed (.intercalate _ (piecesArgs here left) (piecesArgs here right) .whole),
    fun term => by rw [pieces, piecesArgs_append_cons, separated]⟩

theorem product (left right : List Term) :
    Places here fun term => .product (left ++ term :: right) :=
  ⟨_, .enclosed (.intercalate _ (piecesArgs here left) (piecesArgs here right) .whole),
    fun term => by rw [pieces, piecesArgs_append_cons, separated]⟩

theorem numerator (denominator : Term) : Places here fun term => .quotient term denominator :=
  ⟨_, .intercalate _ [] [enclosed (pieces here denominator)] (.enclosed .whole),
    fun term => by rw [pieces, separated, nil_append]⟩

theorem denominator (numerator : Term) : Places here fun term => .quotient numerator term :=
  ⟨_, .intercalate _ [enclosed (pieces here numerator)] [] (.enclosed .whole),
    fun term => by rw [pieces, separated, singleton_append]⟩

theorem base (exponent : Term) : Places here fun term => .power term exponent :=
  ⟨_, .intercalate _ [] [enclosed (pieces here exponent)] (.enclosed .whole),
    fun term => by rw [pieces, separated, nil_append]⟩

theorem exponent (base : Term) : Places here fun term => .power base term :=
  ⟨_, .intercalate _ [enclosed (pieces here base)] [] (.enclosed .whole),
    fun term => by rw [pieces, separated, singleton_append]⟩

theorem negate : Places here .negate :=
  ⟨_, .cons (markPiece .minus) (.enclosed .whole), fun term => by rw [pieces]⟩

theorem not : Places here .not :=
  ⟨_, .enclosed (.after [.token (.keyword .not), .blank] .whole), fun term => by rw [pieces]; rfl⟩

theorem elementary (function : Elementary) (left right : List Term) :
    Places here fun term => .elementary function (left ++ term :: right) := by
  refine ⟨_, .call ((function.programName? (left.length + (right.length + 1))).getD "")
    (piecesArgs here left) (piecesArgs here right), fun term => ?_⟩
  rw [pieces, piecesArgs_append_cons, length_append, length_cons]

theorem call (name : String) (left right : List Term) :
    Places here fun term => .call name (left ++ term :: right) :=
  ⟨_, .call name (piecesArgs here left) (piecesArgs here right),
    fun term => by rw [pieces, piecesArgs_append_cons]⟩

theorem derivative (function : String) (left right : List Term) :
    Places here fun term => .derivative function (left ++ term :: right) :=
  ⟨_, .call (derivativeName function) (piecesArgs here left) (piecesArgs here right),
    fun term => by rw [pieces, piecesArgs_append_cons]⟩

theorem connective (connective : Connective) (left right : List Term) :
    Places here fun term => .connective connective (left ++ term :: right) := by
  have rows : ∀ left : List (List Piece),
      InsertsIn fun row => left ++ row :: piecesArgs here right := by
    intro left
    induction left with
    | nil => exact .one .whole _
    | cons first left ih => exact .later first ih
  exact ⟨_, (rows (piecesArgs here left)).connective connective,
    fun term => by rw [pieces, piecesArgs_append_cons]⟩

theorem chain {left right : List Term} (some : relations ≠ [])
    (count : left.length + right.length = relations.length) :
    Places here fun term => .chain (left ++ term :: right) relations := by
  have rows : (piecesArgs here left).length + (piecesArgs here right).length
      = relations.length := by
    simpa only [piecesArgs_eq_map, length_map] using count
  exact ⟨_, inserts_chainPieces some rows, fun term => by rw [pieces, piecesArgs_append_cons]⟩

theorem body (name : String) (lower upper : Term) :
    Places here fun term => .integral name term lower upper :=
  ⟨_, .comp (.call integralName [] [pieces here lower, pieces here upper])
      (.after [namePiece name, .blank, markPiece .arrow, .blank] .whole),
    fun term => by rw [pieces]; rfl⟩

theorem lower (name : String) (body upper : Term) :
    Places here fun term => .integral name body term upper :=
  ⟨_, .call integralName [_] [pieces here upper], fun term => by rw [pieces]; rfl⟩

theorem upper (name : String) (body lower : Term) :
    Places here fun term => .integral name body lower term :=
  ⟨_, .call integralName [_, pieces here lower] [], fun term => by rw [pieces]; rfl⟩

end Places

end Grapher.Program
