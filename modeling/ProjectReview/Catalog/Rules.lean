import ProjectReview.Fault
import ProjectReview.Json.Reader
import ProjectReview.Report.Decode
import ProjectReview.Review.Basic
import ProjectReview.Text.Search

set_option autoImplicit false

/-! # Rule files and installed dependencies

The rules review reports the findings that extra files with the ending `.rules` list as data. The
dependency review reports, for each dependency, the modules it provides. -/

namespace ProjectReview

/-- The findings that a rule file lists. -/
def inspectRules (file : ExtraFile) : Except Fault (Option (List Finding)) := do
  if endsWith file.path ".rules" then
    let data ← (Json.read file.content).mapError (Fault.json file.content)
    let findings ← (Finding.listOfValue data).mapError Fault.shape
    pure (some findings)
  else pure none

/-- The review that reports what rule files list. -/
def rulesReview : Review Fault (List Finding) where
  name := "rules"
  inspectors := [.extraFile inspectRules]
  merge := fun a b => .ok (a ++ b)
  report := .ok

/-- A dependency with the modules it provides. -/
def describeDependency (dependency : Dependency) : String :=
  dependency.name ++ ":" ++ joinTexts "|" (dependency.modules.filterMap Value.text?)

/-- The review that reports the modules of each dependency. -/
def dependencyReview : Review Fault (List String) where
  name := "deps"
  inspectors := [
    .manifest fun _ => .ok (some []),
    .dependencies fun ds => .ok (some (ds.map describeDependency))]
  merge := fun a b => .ok (a ++ b)
  report := fun lines => .ok (lines.map fun line =>
    { path := "pyproject.toml", range := Range.of 1 1 1 1, message := line })

end ProjectReview
