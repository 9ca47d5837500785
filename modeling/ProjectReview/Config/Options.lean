import ProjectReview.Config.Schema
import ProjectReview.Data.Shape
import ProjectReview.Engine.Run

set_option autoImplicit false

/-! # Run options from a configuration -/

namespace ProjectReview

/-- The run options that a configuration asks for. -/
def RunOptions.ofConfig (config : Config) : Except ShapeFault RunOptions := do
  let maxWorkers ← (config.valueAt "max_workers" (.int 0)).toInteger
  let parallelThreshold ← (config.valueAt "parallel_threshold" (.int 8)).toInteger
  pure ⟨maxWorkers, parallelThreshold⟩

end ProjectReview
