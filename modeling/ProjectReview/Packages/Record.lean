import ProjectReview.Data.Assoc
import ProjectReview.Data.Shape
import ProjectReview.Fault
import ProjectReview.Text.Blank

set_option autoImplicit false

/-! # Records of installed files

A package's record lists its files, one row for each: the path, the digest and the size, with commas
between them. A column in quotes may hold commas, quotes that are written twice, and the end of a
line, which is dropped. `recordRows` reads the rows and `recordedPath` the path of a row. -/

namespace ProjectReview

/-- Where the reading of a row stands: before a column, inside of one, inside of quotes, or behind a
quote that may be their end. -/
inductive ColumnState where
  | before
  | plain
  | quoted
  | closing
deriving DecidableEq, Repr

/-- Reads a line into the columns of its row. A column whose quotes are open at the end of the line
is given apart. -/
def rowColumns : ColumnState → List Char → List String → List Char →
    List String × Option (List Char)
  | .quoted, column, columns, [] => (columns, some column)
  | _, column, columns, [] => (columns ++ [String.ofList column], none)
  | .quoted, column, columns, c :: rest =>
    if c = '\x22' then rowColumns .closing column columns rest
    else rowColumns .quoted (column ++ [c]) columns rest
  | state, column, columns, c :: rest =>
    if c = ',' then rowColumns .before [] (columns ++ [String.ofList column]) rest
    else if c = '\x22' ∧ state = .before then rowColumns .quoted column columns rest
    else if c = '\x22' ∧ state = .closing then rowColumns .quoted (column ++ [c]) columns rest
    else rowColumns .plain (column ++ [c]) columns rest

/-- The rows of some lines, behind a row that is still open. An empty line is a row without columns.
-/
def rowsFrom : Option (List String × List Char) → List (List Char) → List (List String)
  | none, [] => []
  | some (columns, column), [] => [columns ++ [String.ofList column]]
  | none, [] :: rest => [] :: rowsFrom none rest
  | none, line :: rest =>
    match rowColumns .before [] [] line with
    | (columns, none) => columns :: rowsFrom none rest
    | (columns, some column) => rowsFrom (some (columns, column)) rest
  | some (columns, column), line :: rest =>
    match rowColumns .quoted column columns line with
    | (columns, none) => columns :: rowsFrom none rest
    | (columns, some column) => rowsFrom (some (columns, column)) rest

/-- The rows of a record. -/
def recordRows (record : String) : List (List String) :=
  rowsFrom none ((textLines record).map String.toList)

/-- The path in a row: its first column of at most three. A size that is given must be an integer.
-/
def recordedPath (row : List String) : Except Fault String :=
  match row with
  | [path] | [path, _] => .ok path
  | [path, _, size] =>
    if size = "" then .ok path
    else match readInteger size with
      | .ok _ => .ok path
      | .error fault => .error (.shape (.integer fault))
  | other => .error (.malformedRecord other.length)

end ProjectReview
