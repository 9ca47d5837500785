import ProjectReview.Discovery.Exclusion

set_option autoImplicit false

/-! # Paths

A `Path` is absolute or relative, with a list of components; empty components and single dots do not
occur among the components of a path that is read from text, and double dots stay. Joining an
absolute path to another gives the absolute path. -/

namespace ProjectReview

/-- A path by its components. -/
structure Path where
  absolute : Bool
  parts : List String
deriving DecidableEq, Repr

namespace Path

/-- Reads a path from text. -/
def ofText (text : String) : Path :=
  let root := rootOf text.toList
  ⟨!root.isEmpty, (pathParts text).drop root.length⟩

/-- The absolute path with these components. -/
def ofParts (parts : List String) : Path :=
  ⟨true, parts⟩

/-- The components with slashes between them. -/
def slashed (parts : List String) : String :=
  joinTexts "/" parts

/-- The path as text. -/
def text (path : Path) : String :=
  if path.absolute then "/" ++ slashed path.parts
  else if path.parts.isEmpty then "." else slashed path.parts

/-- The path behind another. -/
def join (base path : Path) : Path :=
  if path.absolute then path else ⟨base.absolute, base.parts ++ path.parts⟩

/-- The path without its last component. -/
def parent (path : Path) : Path :=
  { path with parts := path.parts.dropLast }

/-- The components from the root, for a path that is read in a directory. -/
def fromRoot (path : Path) (directory : List String) : List String :=
  if path.absolute then path.parts else directory ++ path.parts

end Path

/-- The components behind a directory that contains them, if it does. -/
def relativeTo? (directory parts : List String) : Option (List String) :=
  if directory.isPrefixOf parts then some (parts.drop directory.length) else none

end ProjectReview
