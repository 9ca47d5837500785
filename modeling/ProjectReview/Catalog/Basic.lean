import ProjectReview.Catalog.Marker
import ProjectReview.Catalog.Rules
import ProjectReview.Catalog.Script
import ProjectReview.Catalog.UndocumentedDependency
import ProjectReview.Catalog.UnusedBinding
import ProjectReview.Engine.Suite

set_option autoImplicit false

/-! # The kinds of knowledge

The reviews of the catalog keep knowledge of six kinds. `Knowledge` gives the type of each, so that
reviews of different kinds run in one suite. -/

namespace ProjectReview

/-- The kinds of knowledge that the reviews of the catalog keep. -/
inductive KnowledgeKind where
  | marks
  | bindings
  | documented
  | data
  | findings
  | lines
deriving DecidableEq, Repr

/-- The type of the knowledge of a kind. -/
abbrev Knowledge : KnowledgeKind → Type
  | .marks => List Mark
  | .bindings => Bindings
  | .documented => DocumentedNames
  | .data => Value
  | .findings => List Finding
  | .lines => List String

/-- A review of the catalog. -/
abbrev CatalogReview := AnyReview Fault Knowledge

/-- The review of a kind, as a review of the catalog. -/
def CatalogReview.of (kind : KnowledgeKind) (review : Review Fault (Knowledge kind)) :
    CatalogReview :=
  ⟨kind, review⟩

/-- The name of a review of the catalog. -/
def CatalogReview.name (review : CatalogReview) : String :=
  review.2.name

end ProjectReview
