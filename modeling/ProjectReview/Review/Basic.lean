import ProjectReview.Discovery.Exclusion
import ProjectReview.Report.Basic
import ProjectReview.Review.Inspector

set_option autoImplicit false

/-! # Reviews

A `Review` is a named analysis: the inspectors that gather knowledge, how knowledge is merged, how
the knowledge of the whole project becomes findings, and which paths it keeps silent about. Its
callbacks may fail with `ε`; its knowledge is of type `K`.

Further paths are ignored by `ignoreWhere` and the combinators built on it; a path that was ignored
stays ignored. -/

namespace ProjectReview

/-- A named analysis. -/
structure Review (ε K : Type) where
  name : String
  inspectors : List (Inspector ε K)
  merge : K → K → Except ε K
  report : K → Except ε (List Finding)
  ignores : String → Bool := fun _ => false

namespace Review

variable {ε K : Type}

/-- The inspectors of a kind, each with its place among them. -/
def inspectorsOf (review : Review ε K) (kind : PartKind) : List (Nat × Inspector ε K) :=
  (review.inspectors.filter fun inspector => inspector.kind = kind).zipIdx.map fun (i, n) => (n, i)

/-- The knowledge a review has of one part. -/
def extract (review : Review ε K) (part : Part) : Journaled ε (Option K) :=
  extractFrom review.name review.merge part none (review.inspectorsOf part.kind)

/-- The review, silent also about paths that satisfy a predicate. -/
def ignoreWhere (review : Review ε K) (predicate : String → Bool) : Review ε K :=
  { review with ignores := fun path => review.ignores path || predicate path }

/-- The review, silent also about everything in some directories. -/
def ignoreDirectories (review : Review ε K) (directories : List String) : Review ε K :=
  review.ignoreWhere fun path =>
    directories.any fun directory => matchesExclusion path (withoutTrailingSlashes directory ++ "/")

/-- The review, silent also about some files. -/
def ignoreFiles (review : Review ε K) (files : List String) : Review ε K :=
  review.ignoreWhere fun path => (files.map forwardSlashes).contains path

/-- The review, silent also about what some patterns exclude. -/
def ignorePatterns (review : Review ε K) (patterns : List String) : Review ε K :=
  if patterns.isEmpty then review
  else review.ignoreWhere fun path => patterns.any fun pattern => matchesExclusion path pattern

/-- The report of a review that has `knowledge` of the whole project: its findings under its name,
filed by path, in the order of their ranges, without the paths it is silent about. -/
def buildReport (review : Review ε K) (knowledge : K) : Journaled ε Report := do
  let findings ← Journaled.ofExcept (review.report knowledge)
  let grouped := Report.sortGroups (Report.group (findings.map (·.reportedBy review.name)))
  let kept := Report.hide review.ignores grouped
  if kept.length ≠ grouped.length then
    Journaled.note (.pathsHidden review.name (grouped.length - kept.length))
  pure kept

end Review

end ProjectReview
