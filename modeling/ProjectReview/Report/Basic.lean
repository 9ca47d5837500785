import ProjectReview.Data.Assoc
import ProjectReview.Report.Finding

set_option autoImplicit false

/-! # Reports

A `Report` lists the findings of each file, the files in the order in which they were first
reported. `group` files findings under their paths, `sortGroups` puts the findings of each file in
the order of their ranges, and `merge` combines the reports of several reviews. Findings at the same
range stay in the order in which they were reported. -/

namespace ProjectReview

/-- The findings of each file. -/
abbrev Report := Assoc (List Finding)

namespace Report

/-- The report with further findings at the end of a file's list. -/
def extend (report : Report) (path : String) (findings : List Finding) : Report :=
  report.set path ((report.get? path).getD [] ++ findings)

/-- The findings filed under their paths. -/
def group (findings : List Finding) : Report :=
  findings.foldl (fun report finding => report.extend finding.path [finding]) []

/-- The findings of one file in the order of their ranges. -/
def sortByRange (findings : List Finding) : List Finding :=
  sortBy Finding.rangeLe findings

/-- The findings of every file in the order of their ranges. -/
def sortGroups (report : Report) : Report :=
  report.map fun (path, findings) => (path, sortByRange findings)

/-- The report of several reviews together. -/
def merge (reports : List Report) : Report :=
  sortGroups (reports.flatten.foldl (fun report entry => report.extend entry.1 entry.2) [])

/-- The report without the files that satisfy a predicate. -/
def hide (ignores : String → Bool) (report : Report) : Report :=
  report.filter fun (path, _) => !ignores path

/-- The findings of a file. -/
def findingsOf (report : Report) (path : String) : List Finding :=
  (report.get? path).getD []

/-- The paths in ascending order. -/
def paths (report : Report) : List String :=
  sortTexts report.keys

/-- All findings, file by file in ascending order of paths. -/
def toList (report : Report) : List Finding :=
  report.paths.flatMap report.findingsOf

/-- The findings that have fixes, in the order of `toList`. -/
def fixable (report : Report) : List Finding :=
  report.toList.filter Finding.isFixable

/-- The number of findings. -/
def size (report : Report) : Nat :=
  (report.flatMap (·.2)).length

end Report

/-- The totals of a report. -/
structure Totals where
  findings : Nat
  fixable : Nat
  files : List String
deriving DecidableEq, Repr

/-- The totals of a report; a file without findings does not count. -/
def Report.totals (report : Report) : Totals :=
  let filed : Report := report.filter fun (_, findings) => !findings.isEmpty
  ⟨Report.size filed,
   ((filed.flatMap (·.2)).filter Finding.isFixable).length,
   Assoc.keys filed⟩

end ProjectReview
