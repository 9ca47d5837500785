import ProjectReview.Command.Check
import ProjectReview.Command.Configure
import ProjectReview.Command.Fix

set_option autoImplicit false

/-! # Running the program

`runProgram` reads the arguments, loads the configuration and runs the command. Arguments that are
refused are answered with the summary of the command and the reason. -/

namespace ProjectReview

/-- Runs a command with the configuration at a path. -/
def runCommand (environment : Environment) (path : Path) (config : Config) :
    Command → FileAction ExitCode
  | .check target reviews json details =>
    runCheck environment config target (reviews.getD []) json details
  | .fix target reviews dryRun => runFix environment config target (reviews.getD []) dryRun
  | .config action => runConfig environment path config action

/-- Answers an interruption by the user. -/
def onInterrupt (action : FileAction ExitCode) : FileAction ExitCode := do
  match ← action.attempt with
  | .ok code => pure code
  | .error .interrupted =>
    Action.lift (Journaled.print "\nInterrupted.")
    pure 1
  | .error fault => Action.lift (Journaled.fail fault)

/-- Runs the program for arguments that have been read. -/
def runInvocation (environment : Environment) (invocation : Invocation) : FileAction ExitCode := do
  let path := match invocation.config with
    | some text => if text = "" then environment.defaultConfig else Path.ofText text
    | none => environment.defaultConfig
  let config ← Action.look fun files => Config.load files environment.directory path
  onInterrupt (runCommand environment path config invocation.command)

/-- What the program prints and its exit code. -/
structure ProgramResult where
  code : ExitCode
  stdout : String
  stderr : String

/-- Runs the program: the events, the outcome with what was printed, and the files it leaves. -/
def runProgram (environment : Environment) (arguments : List String) (files : Node) :
    List Event × Except Fault ProgramResult × Node :=
  match Invocation.ofArguments arguments with
  | .error .helpAsked => ([], .ok ⟨0, "", ""⟩, files)
  | .error (.refused command usage reason) =>
    ([], .ok ⟨2, "", usage ++ "\n" ++ (ArgumentFault.refused command usage reason).message ++ "\n"⟩,
      files)
  | .ok invocation =>
    let (result, left) := runInvocation environment invocation files
    (result.events, result.outcome.map fun code =>
      ⟨code, printedTo .out invocation.verbose result.events,
        printedTo .err invocation.verbose result.events⟩, left)

end ProjectReview
