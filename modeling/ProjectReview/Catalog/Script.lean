import ProjectReview.Fault
import ProjectReview.Report.Decode
import ProjectReview.Review.Basic
import ProjectReview.Text.Search

set_option autoImplicit false

/-! # Scripted reviews

A scripted review is described by data: what each of its inspectors gives for a part, when it gives
nothing and when it fails, how knowledge is merged, and what is reported. Its knowledge is a
`Value`. -/

namespace ProjectReview

/-- What an inspector gives for a part. -/
inductive ScriptAnswer where
  /-- A text in which the part's path and source are filled in. -/
  | template (text : String)
  /-- The same value for every part. -/
  | constant (value : Value)

/-- An inspector described by data. -/
structure ScriptInspector where
  answer : ScriptAnswer
  skipIf : Option String := none
  failIf : Option String := none

/-- How knowledge is merged. -/
inductive ScriptMerge where
  | bracket
  | comma
  | add
  | first
  | boom

/-- What is reported. -/
inductive ScriptReport where
  /-- One finding that shows the knowledge. -/
  | echo
  /-- One finding for each piece of the knowledge. -/
  | split
  /-- No report, a failure. -/
  | boom
  /-- The same findings whatever is known. -/
  | fixed (findings : List Finding)

namespace ScriptInspector

/-- What an inspector gives for a part with that path and source. -/
def answerFor (inspector : ScriptInspector) (path source : String) : Except Fault (Option Value) :=
  if inspector.failIf.any (holds · source) then .error (.callback ("inspector failed: " ++ path))
  else if inspector.skipIf.any (holds · source) then .ok none
  else match inspector.answer with
    | .constant .null => .ok none
    | .constant value => .ok (some value)
    | .template text =>
      .ok (some (.text (replaceAll "\x7bsource\x7d" source (replaceAll "\x7bpath\x7d" path text))))

/-- The inspector for one kind of part; the dependencies are known by their names. -/
def ofKind (inspector : ScriptInspector) : PartKind → Inspector Fault Value
  | .manifest => .manifest fun m => inspector.answerFor m.path m.source
  | .dependencies => .dependencies fun ds =>
    inspector.answerFor "dependencies" (joinTexts "," (ds.map (·.name)))
  | .extraFile => .extraFile fun f => inspector.answerFor f.path f.content
  | .module => .module fun m => inspector.answerFor m.path m.source

end ScriptInspector

/-- The sum of some values from the left. -/
def addAll (first : Value) (others : List Value) : Except ShapeFault Value :=
  others.foldlM Value.add first

/-- Merges two values. -/
def ScriptMerge.apply (merge : ScriptMerge) (a b : Value) : Except Fault Value :=
  match merge with
  | .bracket => (addAll (.text "(") [a, .text " ", b, .text ")"]).mapError .shape
  | .comma => (addAll a [.text ",", b]).mapError .shape
  | .add => (a.add b).mapError .shape
  | .first => .ok a
  | .boom => .error (.callback "merge failed")

/-- Reports on the knowledge of the whole project. -/
def ScriptReport.apply (report : ScriptReport) (knowledge : Value) : Except Fault (List Finding) :=
  match report with
  | .echo =>
    .ok [{ path := "knowledge", range := Range.of 1 1 1 1, message := knowledge.shown }]
  | .split =>
    match knowledge with
    | .text s => .ok ((piecesAt ',' s).map fun piece =>
        { path := piece, range := Range.of 1 1 1 2, message := "seen" })
    | other => .error (.shape (.noAttribute other.typeName "split"))
  | .boom => .error (.callback "report failed")
  | .fixed findings => .ok findings

/-- The review that a script describes. -/
def scriptReview (name : String) (inspectors : List (PartKind × ScriptInspector))
    (merge : ScriptMerge) (report : ScriptReport) : Review Fault Value where
  name := name
  inspectors := inspectors.map fun (kind, inspector) => inspector.ofKind kind
  merge := merge.apply
  report := report.apply

end ProjectReview
