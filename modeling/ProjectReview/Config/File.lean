import ProjectReview.Config.Schema
import ProjectReview.Files.Write
import ProjectReview.Journal
import ProjectReview.Json.Writer

set_option autoImplicit false

/-! # Configuration files

A configuration is kept in a JSON document. `Config.load` reads it: a setting that is missing or of
the wrong type gets its default, and everything else in the document is kept with its place. A file
that cannot be read, or that is not a JSON object, counts as empty; only an integer with too many
digits is not forgiven. `Config.save` writes the document safely. -/

namespace ProjectReview.Config

/-- The entries of a document with every setting present and of its type. -/
def complete (entries : Config) : Config :=
  settings.foldl (fun config setting =>
    match config.get? setting.key with
    | some value => if setting.type.admits value then config else config.set setting.key setting.default
    | none => config.set setting.key setting.default) entries

/-- The entries of a value that is a table. -/
def entriesOf : Value → Config
  | .table fields => fields
  | _ => []

/-- The entries of a document's text. `path` names the file in the journal. -/
def ofDocument (path : String) (document : String) : Journaled Fault Config :=
  match Json.read document with
  | .ok value => pure (entriesOf value)
  | .error (.number fault) => Journaled.fail (.json document (.number fault))
  | .error fault => do
    Journaled.note (.configSkipped path (Fault.json document fault).summary)
    pure []

/-- Loads the configuration at a path, read in a directory. -/
def load (root : Node) (directory : List String) (path : Path) : Journaled Fault Config := do
  let parts := path.fromRoot directory
  if root.existsAt parts then
    match root.readTextAt parts path with
    | .ok document =>
      let entries ← ofDocument path.text document
      pure (complete entries)
    | .error fault =>
      Journaled.note (.configSkipped path.text fault.summary)
      pure (complete [])
  else pure (complete [])

/-- The document of a configuration. -/
def document (config : Config) : String :=
  Json.write (.table config) ++ "\n"

/-- Saves the configuration at a path, read in a directory. -/
def save (obstacles : Obstacles) (root : Node) (directory : List String) (path : Path)
    (config : Config) : Node × Except FileFault Unit :=
  root.safeWrite obstacles (path.fromRoot directory) (encodeUtf8 config.document)

end ProjectReview.Config
