import ProjectReview.Command.Action
import ProjectReview.Command.Grammar
import ProjectReview.Config.Edit
import ProjectReview.Config.File

set_option autoImplicit false

/-! # The config command

Shows the settings of a project, sets one of them, or gives one its default back. A change is saved;
a change that is refused is reported, and the command exits with 2. -/

namespace ProjectReview

/-- The value of a setting as it is shown. -/
def settingText (value : Value) : Except ShapeFault String :=
  match value with
  | .list [] => .ok "(empty)"
  | .list items => Value.joinItems ", " items
  | other => .ok other.shown

/-- The text, with spaces behind it up to a width. -/
def padTo (width : Nat) (text : String) : String :=
  text ++ String.ofList (List.replicate (width - text.length) ' ')

/-- Prints one setting. -/
def printSetting (colors : Bool) (config : Config) (setting : Setting) : Journaled Fault Unit := do
  let value := config.valueAt setting.key setting.default
  let text ← Journaled.ofExcept ((settingText value).mapError Fault.shape)
  let mark := if value == setting.default then paint colors .dim " (default)" else ""
  Journaled.print ("  " ++ padTo 22 setting.key ++ " " ++ text ++ mark)
  Journaled.print (paint colors .dim ("  " ++ padTo 22 "" ++ " " ++ setting.description))

/-- Prints all settings. -/
def printSettings (colors : Bool) (config : Config) : Journaled Fault Unit := do
  Journaled.print (paint colors .bold "\n  reviewkit configuration\n")
  settings.forM (printSetting colors config)
  Journaled.print ""

/-- Saves a changed configuration and tells about it, or complains about a change that is refused.
-/
def saveChange (environment : Environment) (path : Path) (changed : Except Fault Config)
    (report : Config → String) : FileAction ExitCode := do
  match changed with
  | .ok config =>
    FileAction.write (path.fromRoot environment.directory) (encodeUtf8 config.document)
    Action.lift (Journaled.print (paint environment.colors .green (report config)))
    pure 0
  | .error fault =>
    if fault.label = "KeyError" ∨ fault.label = "ValueError" then
      Action.lift (Journaled.complain environment.colors fault.message)
      pure 2
    else Action.lift (Journaled.fail fault)

/-- Runs the config command on the configuration loaded from a path. -/
def runConfig (environment : Environment) (path : Path) (config : Config) (action : ConfigAction) :
    FileAction ExitCode :=
  match action with
  | .show _ => do
    Action.lift (printSettings environment.colors config)
    pure 0
  | .set key value =>
    saveChange environment path (config.assign key value) fun config =>
      "  Set " ++ key ++ " = " ++ (config.valueAt key .null).shown
  | .unset key =>
    saveChange environment path (config.reset key) fun config =>
      "  Reset " ++ key ++ " to default (" ++ (config.valueAt key .null).shown ++ ")"

end ProjectReview
