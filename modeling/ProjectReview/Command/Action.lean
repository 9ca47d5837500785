import ProjectReview.Action
import ProjectReview.Catalog.Exports
import ProjectReview.Files.Write
import ProjectReview.Host.Session

set_option autoImplicit false

/-! # What commands work with

Commands are actions on the file tree. They run in an `Environment`, open a session on the project
there, and print what it finds. -/

namespace ProjectReview

/-- A computation on a file tree. -/
abbrev FileAction (α : Type) : Type := Action Node α

/-- Writes a file safely. -/
def FileAction.write (parts : List String) (content : Bytes) : FileAction Unit := fun files =>
  let (next, outcome) := files.safeWrite {} parts content
  (Journaled.ofExcept (outcome.mapError Fault.file), next)

/-- Where a command runs: the current directory, the project's root, the installed packages, the
modules that hold reviews, and whether output is in color. -/
structure Environment where
  directory : List String
  root : List String
  installed : Installed := []
  modules : Assoc ModuleExports := standardModules
  colors : Bool := false

namespace Environment

/-- What a load looks at. -/
def host (environment : Environment) (files : Node) : Host :=
  ⟨files, environment.installed, environment.colors⟩

/-- The configuration's default place. -/
def defaultConfig (environment : Environment) : Path :=
  Path.ofParts (environment.root ++ [".reviewkit", "config.json"])

end Environment

/-- The end of a command: an exit code, or an exit on the way. -/
abbrev ExitCode := Nat

/-- The specifications of the reviews to run: those of the configuration, then further ones. -/
def reviewSpecs (config : Config) (further : List String) : Except ShapeFault (List Value) := do
  let configured ← (config.valueAt "reviews" (.list [])).items
  pure (further.foldl (fun specs spec =>
    if specs.any fun v => v.text? = some spec then specs else specs ++ [.text spec]) configured)

/-- The fault is one that ends a command with a complaint instead of escaping. -/
def Fault.isComplaint (fault : Fault) : Bool :=
  match fault with
  | .shape found => found.label == "ValueError"
  | .notLoaded _ | .noModule _ | .duplicateNames _ | .emptyPattern | .malformedSpec _ | .refused _
  | .negative .. | .decode _ | .json .. | .parse _ | .fix _ => true
  | _ => false

/-- The session that a command works with, or the exit code with which it gives up. -/
def openSession (environment : Environment) (config : Config) (path : Option String)
    (further : List String) : FileAction (Except ExitCode (Session Knowledge)) :=
  Action.look fun files => do
    let specs ← Journaled.ofExcept ((reviewSpecs config further).mapError Fault.shape)
    if specs.isEmpty then
      Journaled.complain environment.colors
        "no reviews configured (use --review or `reviewkit config set reviews ...`)"
      pure (.error 2)
    else
      let parts := match path with
        | some text => (Path.ofText text).fromRoot environment.directory
        | none => environment.root
      let opened : Journaled Fault (Session Knowledge) := do
        let reviews ← loadReviews environment.modules specs
        let root ← Journaled.ofExcept (files.resolve parts)
        Journaled.ofExcept (Session.start root reviews config)
      match opened.outcome with
      | .ok session => ⟨opened.events, .ok (.ok session)⟩
      | .error fault =>
        if fault.isComplaint then
          let complaint : Journaled Fault Unit :=
            Journaled.complain environment.colors fault.message
          ⟨opened.events ++ complaint.events, .ok (.error 2)⟩
        else ⟨opened.events, .error fault⟩

/-- A finding as a line of text. -/
def Finding.line (colors : Bool) (finding : Finding) : String :=
  "  " ++ paint colors .cyan (finding.path ++ ":" ++ finding.range.start.render) ++ "  " ++
    paint colors .dim ("[" ++ finding.review ++ "]") ++ " " ++ finding.message ++
    (if finding.isFixable then paint colors .green " (fixable)" else "")

/-- Prints the modules that could not be parsed. -/
def printFailures (colors : Bool) (failures : List ParseFault) : Journaled Fault Unit :=
  failures.forM fun failure => Journaled.printError (paint colors .yellow ("  " ++ failure.message))

end ProjectReview
