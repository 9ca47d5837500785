import ProjectReview.Text.Lines

set_option autoImplicit false

/-! # Exclusions

An exclusion names paths to be left out: the path itself, any path with a component of that name,
or, for an exclusion with a slash, everything below that directory. It never matches part of a
component.

A path is cut into components at its slashes; a backslash in a path counts as a slash, and empty
components and single dots do not count. -/

namespace ProjectReview

/-- The path with slashes in place of backslashes. -/
def forwardSlashes (path : String) : String :=
  String.ofList (path.toList.map fun c => if c = '\x5c' then '/' else c)

/-- The text without the slashes at its end. -/
def withoutTrailingSlashes (s : String) : String :=
  String.ofList (s.toList.reverse.dropWhile (· = '/')).reverse

/-- The root that a path starts from: none for a relative path, and two slashes at the front, but
not three, stand for a root of their own. -/
def rootOf : List Char → List String
  | '/' :: '/' :: '/' :: _ => ["/"]
  | ['/', '/'] => ["//"]
  | '/' :: '/' :: _ => ["//"]
  | '/' :: _ => ["/"]
  | _ => []

/-- The components of a path, its root first if it has one. -/
def pathParts (path : String) : List String :=
  rootOf path.toList ++
    ((cutAt '/' path.toList).filter fun piece => decide (piece ≠ [] ∧ piece ≠ ['.'])).map
      String.ofList

/-- The path is left out by an exclusion. -/
def matchesExclusion (path exclusion : String) : Bool :=
  let path := forwardSlashes path
  let bare := withoutTrailingSlashes exclusion
  decide (path = bare) || (pathParts path).contains exclusion ||
    (exclusion.toList.contains '/' && (bare ++ "/").toList.isPrefixOf path.toList)

/-- The directory names that are never searched. -/
def neverSearched : List String :=
  ["node_modules", ".git", "__pycache__", ".venv", "venv", ".env", "dist", "build", ".tox",
   ".mypy_cache", ".pytest_cache", ".ruff_cache", ".eggs", ".svn", ".hg", ".reviewkit"]

/-- The directory of that name at that path is left out of a search. -/
def excludesDirectory (name path : String) (exclusions : List String) : Bool :=
  neverSearched.contains name || ".egg-info".toList.isSuffixOf name.toList ||
    exclusions.any fun exclusion => matchesExclusion path exclusion

end ProjectReview
