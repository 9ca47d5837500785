import ProjectReview.Command.Arguments

set_option autoImplicit false

/-! # The commands

The arguments of the program: options for all commands, then one of the commands `check`, `fix` and
`config`. `Invocation.ofArguments` reads them. -/

namespace ProjectReview

/-- What to do with the configuration. -/
inductive ConfigAction where
  | show (named : Bool)
  | set (key value : String)
  | unset (key : String)
deriving DecidableEq, Repr

/-- A command with its arguments. A path that is not given is the project's root. -/
inductive Command where
  | check (path : Option String) (reviews : Option (List String)) (json details : Bool)
  | fix (path : Option String) (reviews : Option (List String)) (dryRun : Bool)
  | config (action : ConfigAction)
deriving DecidableEq, Repr

/-- A call of the program. -/
structure Invocation where
  config : Option String
  verbose : Bool
  command : Command
deriving DecidableEq, Repr

namespace Invocation

/-- The option that asks for help. -/
def helpOption : OptionSpec := ⟨["-h", "--help"], "help", .help⟩

/-- The program itself. -/
def program : Parser where
  name := "reviewkit"
  usage := "usage: reviewkit [-h] [--config CONFIG] [--verbose] \x7bcheck,fix,config\x7d ..."
  options := [helpOption, ⟨["--config"], "config", .value⟩, ⟨["--verbose"], "verbose", .flag⟩]
  positionals := [.command "command" true ["check", "fix", "config"]]

/-- The command that prints what reviews report. -/
def checkParser : Parser where
  name := "reviewkit check"
  usage := "usage: reviewkit check [-h] [--review SPEC] [--json] [--details] [path]"
  options := [helpOption, ⟨["--review"], "review", .values⟩, ⟨["--json"], "json", .flag⟩,
    ⟨["--details"], "details", .flag⟩]
  positionals := [.optional "path"]

/-- The command that applies fixes. -/
def fixParser : Parser where
  name := "reviewkit fix"
  usage := "usage: reviewkit fix [-h] [--review SPEC] [--dry-run] [path]"
  options := [helpOption, ⟨["--review"], "review", .values⟩, ⟨["--dry-run"], "dry_run", .flag⟩]
  positionals := [.optional "path"]

/-- The command for the configuration. -/
def configParser : Parser where
  name := "reviewkit config"
  usage := "usage: reviewkit config [-h] \x7bshow,set,unset\x7d ..."
  options := [helpOption]
  positionals := [.command "config_action" false ["show", "set", "unset"]]

/-- Shows the configuration. -/
def showParser : Parser where
  name := "reviewkit config show"
  usage := "usage: reviewkit config show [-h]"
  options := [helpOption]
  positionals := []

/-- Sets a setting. -/
def setParser : Parser where
  name := "reviewkit config set"
  usage := "usage: reviewkit config set [-h] config_key config_value"
  options := [helpOption]
  positionals := [.needed "config_key", .needed "config_value"]

/-- Gives a setting its default back. -/
def unsetParser : Parser where
  name := "reviewkit config unset"
  usage := "usage: reviewkit config unset [-h] config_key"
  options := [helpOption]
  positionals := [.needed "config_key"]

/-- The single value of a target. -/
def valueOf (parsed : Parsed) (target : String) : Option String :=
  (parsed.values.get? target).bind List.getLast?

/-- The action on the configuration, and the arguments that nothing took. -/
def configAction (arguments : List String) : Except ArgumentFault (ConfigAction × List String) := do
  let parsed ← configParser.parse arguments
  match parsed.command with
  | some ("set", rest) =>
    let inner ← setParser.parse rest
    pure (.set ((valueOf inner "config_key").getD "") ((valueOf inner "config_value").getD ""),
      parsed.extras ++ inner.extras)
  | some ("unset", rest) =>
    let inner ← unsetParser.parse rest
    pure (.unset ((valueOf inner "config_key").getD ""), parsed.extras ++ inner.extras)
  | some (_, rest) =>
    let inner ← showParser.parse rest
    pure (.show true, parsed.extras ++ inner.extras)
  | none => pure (.show false, parsed.extras)

/-- A command with its arguments, and the arguments that nothing took. -/
def commandOf (name : String) (arguments : List String) :
    Except ArgumentFault (Command × List String) := do
  match name with
  | "check" =>
    let parsed ← checkParser.parse arguments
    pure (.check (valueOf parsed "path") (parsed.values.get? "review")
      (parsed.flags.contains "json") (parsed.flags.contains "details"), parsed.extras)
  | "fix" =>
    let parsed ← fixParser.parse arguments
    pure (.fix (valueOf parsed "path") (parsed.values.get? "review")
      (parsed.flags.contains "dry_run"), parsed.extras)
  | _ =>
    let (action, extras) ← configAction arguments
    pure (.config action, extras)

/-- Reads the arguments of the program. -/
def ofArguments (arguments : List String) : Except ArgumentFault Invocation := do
  let parsed ← program.parse arguments
  let (name, rest) := parsed.command.getD ("config", [])
  let (command, extras) ← commandOf name rest
  match parsed.extras ++ extras with
  | [] => pure ⟨valueOf parsed "config", parsed.flags.contains "verbose", command⟩
  | left => program.refuse ("unrecognized arguments: " ++ joinTexts " " left)

end Invocation

end ProjectReview
