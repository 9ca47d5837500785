import ProjectReview.Command.Action
import ProjectReview.Json.Writer

set_option autoImplicit false

/-! # The check command

Runs the reviews once and prints what they report, as lines or as a JSON document. It exits with 1
if anything was reported or a module could not be parsed, and with 0 otherwise. -/

namespace ProjectReview

/-- A module that could not be parsed, as data. -/
def ParseFault.toValue (fault : ParseFault) : Value :=
  .table [("path", .text fault.path),
    ("line", match fault.line with
      | some line => .int line
      | none => .null),
    ("reason", .text fault.reason)]

/-- The result of a check as data. -/
def SessionResult.toValue (result : SessionResult) : Value :=
  .table [("errors", .list (result.report.toList.map Finding.toValue)),
    ("parse_failures", .list (result.failures.map ParseFault.toValue))]

/-- The exit code of a check. -/
def SessionResult.exitCode (result : SessionResult) : ExitCode :=
  if result.report.totals.findings = 0 ∧ result.failures = [] then 0 else 1

/-- Prints a finding, with its details if they are asked for. -/
def printFinding (colors details : Bool) (finding : Finding) : Journaled Fault Unit := do
  Journaled.print (finding.line colors)
  if details then
    finding.details.forM fun detail => Journaled.print (paint colors .dim ("      " ++ detail))

/-- Prints the result of a check. -/
def printCheck (colors json details : Bool) (result : SessionResult) : Journaled Fault Unit := do
  let totals := result.report.totals
  if json then Journaled.print (Json.write result.toValue)
  else
    printFailures colors result.failures
    if totals.findings = 0 then Journaled.print (paint colors .green "  No errors found.")
    else
      result.report.toList.forM (printFinding colors details)
      Journaled.printError (paint colors .bold ("\n  " ++ toString totals.findings ++
        " error(s) in " ++ toString totals.files.length ++ " file(s), " ++
        toString totals.fixable ++ " fixable"))

/-- Checks the files of a session that was opened. -/
def Session.checkFindings {ι : Type} {K : ι → Type} (environment : Environment)
    (json details : Bool) (opened : Session K) : FileAction ExitCode := do
  let (result, _) ← Action.look fun files => opened.refresh (environment.host files)
  Action.lift (printCheck environment.colors json details result)
  pure result.exitCode

/-- Runs the check command. -/
def runCheck (environment : Environment) (config : Config) (path : Option String)
    (reviews : List String) (json details : Bool) : FileAction ExitCode := do
  match ← openSession environment config path reviews with
  | .error code => pure code
  | .ok session => session.checkFindings environment json details

end ProjectReview
