import ProjectReview.Fault
import ProjectReview.Review.Basic
import ProjectReview.Text.Search

set_option autoImplicit false

/-! # Reviews that look for a word

A marker review reports every occurrence of a word in the kinds of files it looks at. The review of
unfinished work does the same and offers to put another word in its place. Their knowledge is the
list of places where the word stands. -/

namespace ProjectReview

/-- A place where a word stands. -/
structure Mark where
  path : String
  row : Nat
  column : Nat
deriving DecidableEq, Repr

/-- The places of a word in a text, line by line. -/
def findMarks (path text word : String) : List Mark :=
  (linesOf text).zipIdx.flatMap fun (line, row) =>
    (occurrences word.toList line).map fun column => ⟨path, row + 1, column + 1⟩

/-- The range of a word at a mark. -/
def Mark.range (mark : Mark) (word : String) : Range :=
  Range.of mark.row mark.column mark.row (mark.column + word.length)

/-- What a marker review looks for, and where. -/
structure MarkerSettings where
  name : String := "markers"
  word : String := "bad"
  modules : Bool := true
  extraFiles : Bool := true
  manifest : Bool := true

/-- The inspectors that look for a word. -/
def markInspectors (settings : MarkerSettings) : List (Inspector Fault (List Mark)) :=
  (if settings.manifest then
    [.manifest fun m => .ok (some (findMarks m.path m.source settings.word))] else []) ++
  (if settings.modules then
    [.module fun m => .ok (some (findMarks m.path m.source settings.word))] else []) ++
  (if settings.extraFiles then
    [.extraFile fun f => .ok (some (findMarks f.path f.content settings.word))] else [])

/-- The review that reports every occurrence of a word. -/
def markerReview (settings : MarkerSettings) : Review Fault (List Mark) where
  name := settings.name
  inspectors := markInspectors settings
  merge := fun a b => .ok (a ++ b)
  report := fun marks => .ok (marks.map fun mark =>
    { path := mark.path
      range := mark.range settings.word
      message := "found `" ++ settings.word ++ "`" })

/-- The review that reports unfinished work and offers to mark it as done. -/
def unfinishedReview : Review Fault (List Mark) where
  name := "rewrite"
  inspectors := markInspectors { word := "TODO", manifest := false }
  merge := fun a b => .ok (a ++ b)
  report := fun marks => .ok (marks.map fun mark =>
    { path := mark.path
      range := mark.range "TODO"
      message := "unfinished"
      details := ["Finish it.", "Or drop it."]
      fixes := [⟨mark.range "TODO", "DONE"⟩] })

end ProjectReview
