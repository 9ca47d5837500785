import ProjectReview.Command.Action

set_option autoImplicit false

/-! # The fix command

Applies the fixes of reported findings, one finding at a time, and runs the reviews again after each
one. A finding whose fixes cannot be applied is skipped with a warning and not tried again; a dry
run tells what would be fixed and skips every finding. The command ends when no finding is left to
try, or with a warning when it has applied as many fixes as the configuration allows.

`tryFixes` goes through the findings of one result up to the first that is fixed, and `fixPasses`
repeats it on the results of new runs. The number of passes left bounds the repetitions. -/

namespace ProjectReview

/-- What tells findings apart: those with equal keys are tried once. -/
structure FindingKey where
  review : String
  path : String
  range : Range
  message : String
deriving DecidableEq, Repr

/-- The key of a finding. -/
def Finding.key (finding : Finding) : FindingKey :=
  ⟨finding.review, finding.path, finding.range, finding.message⟩

/-- The file that a finding is about, for a project at a directory. -/
def Finding.file (finding : Finding) (root : List String) : Path :=
  (Path.ofParts root).join (Path.ofText finding.path)

/-- The text of the file that a finding is about, after its fixes. -/
def fixedText (files : Node) (root : List String) (finding : Finding) : Journaled Fault String :=
  match files.readTextAt (finding.file root).parts (finding.file root) with
  | .error fault => Journaled.fail fault
  | .ok source =>
    match applyFixes finding.fixes source with
    | .error fault => Journaled.fail (.fix fault)
    | .ok text => ⟨[.fixesApplied finding.fixes.length], .ok text⟩

/-- The fault only keeps a finding from being fixed; any other ends the command. -/
def Fault.isSkipped : Fault → Bool
  | .file _ | .fix _ => true
  | _ => false

/-- How a session of fixes stands: the session, the latest result, the keys of the findings that are
skipped, and the number of fixes applied. -/
structure FixState {ι : Type} (K : ι → Type) where
  session : Session K
  result : SessionResult
  skipped : List FindingKey := []
  applied : Nat := 0

/-- Tries findings one after the other up to the first that is fixed: the keys skipped, and whether
one was fixed. -/
def tryFixes (environment : Environment) (dryRun : Bool) (root : List String) :
    List FindingKey → List Finding → FileAction (List FindingKey × Bool)
  | skipped, [] => pure (skipped, false)
  | skipped, finding :: rest =>
    if skipped.contains finding.key then tryFixes environment dryRun root skipped rest
    else do
      match ← (Action.look fun files => fixedText files root finding).attempt with
      | .error fault =>
        if fault.isSkipped then
          Action.lift (Journaled.warn environment.colors
            ("cannot fix " ++ finding.path ++ ": " ++ fault.message))
          tryFixes environment dryRun root (skipped ++ [finding.key]) rest
        else Action.lift (Journaled.fail fault)
      | .ok text =>
        if dryRun then
          Action.lift (Journaled.print
            (paint environment.colors .yellow "  Would fix" ++ finding.line environment.colors))
          tryFixes environment dryRun root (skipped ++ [finding.key]) rest
        else
          FileAction.write (finding.file root).parts (encodeUtf8 text)
          Action.lift (Journaled.print
            (paint environment.colors .green "  Fixed" ++ finding.line environment.colors))
          pure (skipped, true)

section Passes

variable {ι : Type} {K : ι → Type}

/-- Fixes findings while passes are left; `limit` is the number of passes allowed. -/
def fixPasses (environment : Environment) (dryRun : Bool) (limit : Int) :
    Nat → FixState K → FileAction (FixState K)
  | 0, state => do
    Action.lift (Journaled.warn environment.colors
      ("stopped after " ++ toString limit ++ " fix pass(es)"))
    pure state
  | passes + 1, state => do
    let (skipped, fixed) ← tryFixes environment dryRun state.session.root state.skipped
      state.result.report.fixable
    if fixed then
      let (result, session) ← Action.look fun files =>
        state.session.refresh (environment.host files)
      fixPasses environment dryRun limit passes
        { session, result, skipped, applied := state.applied + 1 }
    else pure { state with skipped }

/-- What is printed last: the fixes applied and the findings that are left. -/
def fixSummary (dryRun : Bool) (applied remaining : Nat) : String :=
  "\n  Applied " ++ toString applied ++ " fix(es). " ++
    (if dryRun then "Would leave" else "Remaining") ++ ": " ++ toString remaining ++ " error(s)."

/-- Fixes the findings of a session that was opened. -/
def Session.fixFindings (environment : Environment) (dryRun : Bool) (limit : Int)
    (opened : Session K) : FileAction ExitCode := do
  let (result, session) ← Action.look fun files => opened.refresh (environment.host files)
  Action.lift (printFailures environment.colors result.failures)
  let state ← fixPasses environment dryRun limit limit.toNat { session, result }
  let remaining := state.result.report.size
  Action.lift (Journaled.note (.fixesEnded state.applied state.session.runs))
  Action.lift (Journaled.print
    (paint environment.colors .bold (fixSummary dryRun state.applied remaining)))
  pure (if remaining = 0 then 0 else 1)

end Passes

/-- Runs the fix command. -/
def runFix (environment : Environment) (config : Config) (path : Option String)
    (reviews : List String) (dryRun : Bool) : FileAction ExitCode := do
  let limit ← Action.lift (Journaled.ofExcept
    ((config.valueAt "max_fix_passes" (.int 100)).toInteger.mapError Fault.shape))
  match ← openSession environment config path reviews with
  | .error code => pure code
  | .ok session => session.fixFindings environment dryRun limit

end ProjectReview
