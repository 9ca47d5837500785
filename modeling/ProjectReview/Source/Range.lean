set_option autoImplicit false

/-! # Positions and ranges in a source

A `Position` is a row and a column, both counted from one, ordered by row and then by column. A
`Range` is half open: its `stop` is the position right after the last character it covers. Ranges
are ordered by their start and then by their stop, which is the order in which findings are listed
and the order that fixes are applied against.

Rows and columns are integers without bounds: a finding may carry any numbers, and it is for the fix
batch to refuse those that address nothing. -/

namespace ProjectReview

/-- A row and a column. -/
structure Position where
  row : Int
  column : Int
deriving DecidableEq, Repr, Inhabited

namespace Position

/-- Strictly before: on an earlier row, or further left on the same row. -/
def before (p q : Position) : Bool :=
  decide (p.row < q.row) || (decide (p.row = q.row) && decide (p.column < q.column))

/-- Before or at the same place. -/
def upTo (p q : Position) : Bool :=
  !(q.before p)

/-- The position as it is shown: row, colon, column. -/
def render (p : Position) : String :=
  toString p.row ++ ":" ++ toString p.column

theorem before_iff (p q : Position) :
    p.before q = true ↔ p.row < q.row ∨ (p.row = q.row ∧ p.column < q.column) := by
  simp [before]

theorem upTo_iff (p q : Position) :
    p.upTo q = true ↔ p.row < q.row ∨ (p.row = q.row ∧ p.column ≤ q.column) := by
  simp only [upTo, before, Bool.not_eq_true', Bool.or_eq_false_iff, Bool.and_eq_false_iff,
    decide_eq_false_iff_not]
  omega

end Position

/-- The half-open span from `start` to `stop`. -/
structure Range where
  start : Position
  stop : Position
deriving DecidableEq, Repr, Inhabited

namespace Range

/-- The range given by its four numbers. -/
def of (startRow startColumn stopRow stopColumn : Int) : Range :=
  ⟨⟨startRow, startColumn⟩, ⟨stopRow, stopColumn⟩⟩

/-- The range that covers nothing and stands at `p`. -/
def emptyAt (p : Position) : Range :=
  ⟨p, p⟩

/-- It covers nothing. -/
def isEmpty (r : Range) : Bool :=
  r.start == r.stop

/-- Each ends strictly after the other starts; ranges that only touch do not overlap. -/
def overlaps (a b : Range) : Bool :=
  b.start.before a.stop && a.start.before b.stop

/-- The position lies at or after the start and strictly before the stop. -/
def contains (r : Range) (p : Position) : Bool :=
  r.start.upTo p && p.before r.stop

/-- Strictly before in the order by start, then stop. -/
def before (a b : Range) : Bool :=
  a.start.before b.start || (a.start == b.start && a.stop.before b.stop)

/-- Before or level in the order by start, then stop. -/
def upTo (a b : Range) : Bool :=
  !(b.before a)

/-- The range as it is shown: start, hyphen, stop. -/
def render (r : Range) : String :=
  r.start.render ++ "-" ++ r.stop.render

/-- Ranges are ordered by their four numbers, the earlier ones first. -/
theorem upTo_iff (a b : Range) :
    a.upTo b = true ↔ a.start.row < b.start.row ∨ (a.start.row = b.start.row ∧
      (a.start.column < b.start.column ∨ (a.start.column = b.start.column ∧
        (a.stop.row < b.stop.row ∨ (a.stop.row = b.stop.row ∧ a.stop.column ≤ b.stop.column))))) := by
  obtain ⟨⟨a1, a2⟩, ⟨a3, a4⟩⟩ := a
  obtain ⟨⟨b1, b2⟩, ⟨b3, b4⟩⟩ := b
  simp only [upTo, before, Position.before, Bool.not_eq_true', Bool.or_eq_false_iff,
    Bool.and_eq_false_iff, decide_eq_false_iff_not, beq_eq_false_iff_ne, ne_eq,
    Position.mk.injEq]
  omega

/-- Overlapping does not depend on which range is named first. -/
theorem overlaps_comm (a b : Range) : a.overlaps b = b.overlaps a := by
  simp [overlaps, Bool.and_comm]

end Range

end ProjectReview
