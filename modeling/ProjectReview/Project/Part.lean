import ProjectReview.Data.Value
import ProjectReview.Source.Range

set_option autoImplicit false

/-! # The parts of a project

Reviews look at a project part by part: its manifest, the dependencies the manifest declares, the
modules and the extra files. A part is data that has been read; a module may carry the bindings that
its text declares and uses (`ModuleOutline`), which is what a parsed module is known by. -/

namespace ProjectReview

/-- A top-level assignment to a single name: the name with its range, and the range of the whole
statement. -/
structure Binding where
  name : String
  nameRange : Range
  statement : Range
deriving DecidableEq, Repr

/-- What a parsed module declares and uses: its top-level single-name assignments in order, and
every name that some expression reads. -/
structure ModuleOutline where
  bindings : List Binding
  used : List String
deriving DecidableEq, Repr

/-- A module: its text and, when it has been parsed, its outline. -/
structure Module where
  path : String
  source : String
  outline : Option ModuleOutline
deriving DecidableEq, Repr

/-- A supplementary text file. -/
structure ExtraFile where
  path : String
  content : String
deriving DecidableEq, Repr

/-- The project descriptor: its text and the data it holds. -/
structure Manifest where
  source : String
  project : Value
  path : String := "pyproject.toml"
deriving Repr

/-- A dependency: its metadata and the modules it provides. -/
structure Dependency where
  name : String
  manifest : Value
  modules : List Value := []
deriving Repr

/-- The kinds of parts a review can look at. -/
inductive PartKind where
  | manifest
  | dependencies
  | extraFile
  | module
deriving DecidableEq, Repr

/-- A part of a project; the dependencies are looked at together. -/
inductive Part where
  | manifest (m : Manifest)
  | dependencies (ds : List Dependency)
  | extraFile (f : ExtraFile)
  | module (m : Module)
deriving Repr

namespace Part

/-- The kind of a part. -/
def kind : Part → PartKind
  | manifest _ => .manifest
  | dependencies _ => .dependencies
  | extraFile _ => .extraFile
  | module _ => .module

/-- The path a part is known by. -/
def path : Part → String
  | manifest m => m.path
  | dependencies _ => "dependencies"
  | extraFile f => f.path
  | module m => m.path

end Part

end ProjectReview
