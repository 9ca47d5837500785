import ProjectReview.Data.Value
import ProjectReview.Source.Fix

set_option autoImplicit false

/-! # Findings

A `Finding` is one problem that a review reports: the file and range it is about, what it says, and
the fixes that would resolve it. Its `review` names the review that reported it; a review may leave
the name blank, and the engine then fills it in. -/

namespace ProjectReview

/-- One reported problem. -/
structure Finding where
  path : String
  range : Range
  message : String
  details : List String := []
  fixes : List Fix := []
  review : String := ""
deriving DecidableEq, Repr, Inhabited

namespace Finding

/-- Some fix is attached. -/
def isFixable (finding : Finding) : Bool :=
  !finding.fixes.isEmpty

/-- The finding with further details. -/
def addDetails (finding : Finding) (details : List String) : Finding :=
  { finding with details := finding.details ++ details }

/-- The finding with these fixes in place of its own. -/
def withFixes (finding : Finding) (fixes : List Fix) : Finding :=
  { finding with fixes := fixes }

/-- The finding under a review's name, unless it names a review itself. -/
def reportedBy (finding : Finding) (review : String) : Finding :=
  if finding.review = "" then { finding with review := review } else finding

/-- A position as data. -/
def positionValue (position : Position) : Value :=
  .table [("row", .int position.row), ("column", .int position.column)]

/-- The finding as data, without the fixes themselves. -/
def toValue (finding : Finding) : Value :=
  .table [
    ("review", .text finding.review),
    ("path", .text finding.path),
    ("range", .table [
      ("start", positionValue finding.range.start),
      ("end", positionValue finding.range.stop)]),
    ("message", .text finding.message),
    ("details", .texts finding.details),
    ("fixable", .bool finding.isFixable)]

/-- Ordered by range. -/
def rangeLe (a b : Finding) : Bool :=
  a.range.upTo b.range

end Finding

end ProjectReview
