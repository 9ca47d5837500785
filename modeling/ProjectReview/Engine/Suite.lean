import ProjectReview.Engine.Run

set_option autoImplicit false

/-! # Suites

A `Suite` runs several reviews side by side over the same deltas. The reviews may differ in the type
of their knowledge: `K i` is the type of the knowledge of kind `i`, and each engine of the suite
comes with its kind. Names must be distinct, since reports are told apart by them. -/

namespace ProjectReview

section Suites

variable {ι : Type} (ε : Type) (K : ι → Type)

/-- A review with the kind of its knowledge. -/
abbrev AnyReview := (i : ι) × Review ε (K i)

/-- An engine with the kind of its knowledge. -/
abbrev AnyEngine := (i : ι) × Engine ε (K i)

/-- Engines that run side by side. -/
structure Suite where
  engines : List (AnyEngine ε K)

/-- The reports of a run and the suite for the next one. -/
structure SuiteResult where
  report : Report
  byReview : Assoc Report
  next : Suite ε K

end Suites

namespace Suite

variable {ι ε : Type} {K : ι → Type}

/-- The names of the reviews. -/
def names (suite : Suite ε K) : List String :=
  suite.engines.map fun engine => engine.2.review.name

/-- The names that occur more than once, each once and in ascending order. -/
def duplicates (names : List String) : List String :=
  sortTexts (distinct (names.filter fun name => decide (1 < names.count name)))

/-- The suite of some reviews, or the names that are taken twice. -/
def ofReviews (reviews : List (AnyReview ε K)) (options : RunOptions) :
    Except (List String) (Suite ε K) :=
  let twice := duplicates (reviews.map fun review => review.2.name)
  if twice.isEmpty then .ok ⟨reviews.map fun review => ⟨review.1, Engine.start review.2 options⟩⟩
  else .error twice

/-- Takes a delta in by one engine: the name of its review, the report and the next engine. -/
def runEngine (delta : Delta) (engine : AnyEngine ε K) :
    Journaled ε (String × Report × AnyEngine ε K) := do
  let result ← engine.2.run delta
  pure (engine.2.review.name, result.report, ⟨engine.1, result.next⟩)

/-- Takes a delta in. -/
def run (suite : Suite ε K) (delta : Delta) : Journaled ε (SuiteResult ε K) := do
  let results ← suite.engines.mapM (runEngine delta)
  pure {
    report := Report.merge (results.map fun result => result.2.1)
    byReview := Assoc.ofEntries (results.map fun result => (result.1, result.2.1))
    next := ⟨results.map fun result => result.2.2⟩ }

end Suite

end ProjectReview
