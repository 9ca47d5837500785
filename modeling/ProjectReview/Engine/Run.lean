import ProjectReview.Engine.Cache

set_option autoImplicit false

/-! # Engines

An `Engine` is a review with the cache that its previous run left. `run` takes a delta in and gives
the report together with the engine for the next delta; the engine it is called on does not change,
so an older engine can be run again. When nothing is known of the project any more, the cache is
emptied.

`RunOptions` say when the work of a run is spread over several workers, which never changes a
result. -/

namespace ProjectReview

/-- How the work of a run is spread. -/
structure RunOptions where
  maxWorkers : Int := 0
  parallelThreshold : Int := 8
deriving DecidableEq, Repr

/-- A run with that many changed files is spread over several workers. -/
def RunOptions.wantsPool (options : RunOptions) (changedFiles : Int) : Bool :=
  decide (0 < options.maxWorkers) && decide (max options.parallelThreshold 2 ≤ changedFiles)

/-- A review with the cache of its previous run. -/
structure Engine (ε K : Type) where
  review : Review ε K
  cache : Cache K := {}
  options : RunOptions := {}

/-- The report of a run and the engine for the next one. -/
structure RunResult (ε K : Type) where
  report : Report
  next : Engine ε K

namespace Engine

variable {ε K : Type}

/-- An engine that has not run. -/
def start (review : Review ε K) (options : RunOptions) : Engine ε K :=
  { review, options }

/-- Takes a delta in. -/
def run (engine : Engine ε K) (delta : Delta) : Journaled ε (RunResult ε K) := do
  let changed := delta.modules.length + delta.extraFiles.length
  let cache ← engine.cache.update engine.review (engine.options.wantsPool changed) delta
  match ← Journaled.ofExcept (cache.aggregate engine.review) with
  | none =>
    Journaled.note (.cacheReset engine.review.name)
    pure ⟨[], { engine with cache := .empty }⟩
  | some knowledge =>
    let report ← engine.review.buildReport knowledge
    Journaled.note (.reported engine.review.name report.size report.length)
    pure ⟨report, { engine with cache := cache }⟩

end Engine

/-- The report of a first run over a delta. -/
def Review.runOnce {ε K : Type} (review : Review ε K) (delta : Delta) : Journaled ε Report := do
  let result ← (Engine.start review {}).run delta
  pure result.report

end ProjectReview
