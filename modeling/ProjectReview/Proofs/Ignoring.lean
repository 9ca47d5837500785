import Mathlib.Data.List.Induction
import ProjectReview.Host.Session
import ProjectReview.Proofs.Incremental
import ProjectReview.Proofs.Reports

set_option autoImplicit false

/-! # Ignoring paths only filters reports

The combinators that silence a review about further paths differ in the paths they cover alone: each
of them adds its paths to those that the review ignores (`Ignoring.apply_eq`), and so does a list of
them (`ignoring_eq`), whatever their order.

What a review ignores has no part in what it draws from files, in how that is folded or in what is
kept (`Cache.update_ignoring`, `Cache.aggregate_ignoring`). So a run of the silenced review ends
like a run of the review itself, less the paths that are ignored (`Engine.run_ignoring`), and the
engines of the two stay side by side along any sequence of deltas (`Engine.after_ignoring`). The
main result is `ignoring_only_filters`. -/

namespace ProjectReview

variable {ε K : Type}

/-! ## The combinators -/

/-- A way to silence a review about further paths. -/
inductive Ignoring where
  | paths (predicate : String → Bool)
  | directories (directories : List String)
  | files (files : List String)
  | patterns (patterns : List String)

namespace Ignoring

/-- The review, silenced. -/
def apply (review : Review ε K) : Ignoring → Review ε K
  | .paths predicate => review.ignoreWhere predicate
  | .directories names => review.ignoreDirectories names
  | .files names => review.ignoreFiles names
  | .patterns texts => review.ignorePatterns texts

/-- The path is one of those that the review is silenced about. -/
def covers (path : String) : Ignoring → Bool
  | .paths predicate => predicate path
  | .directories names => names.any fun name =>
      matchesExclusion path (withoutTrailingSlashes name ++ "/")
  | .files names => names.any fun name => forwardSlashes name = path
  | .patterns texts => texts.any fun pattern => matchesExclusion path pattern

end Ignoring

namespace Review

/-- The review, silenced by combinators one after the other. -/
def ignoring (review : Review ε K) (ignores : List Ignoring) : Review ε K :=
  ignores.foldl Ignoring.apply review

end Review

/-- A combinator adds the paths that it covers to those that are ignored, and does nothing else. -/
theorem Ignoring.apply_eq (review : Review ε K) (ignoring : Ignoring) :
    ignoring.apply review = review.ignoreWhere fun path => ignoring.covers path := by
  cases ignoring with
  | paths predicate => rfl
  | directories names => rfl
  | files names =>
    simp only [apply, Review.ignoreFiles, covers]
    congr 1
    funext path
    rw [Bool.eq_iff_iff]
    simp
  | patterns texts =>
    simp only [apply, Review.ignorePatterns, covers]
    cases texts with
    | nil => simp [Review.ignoreWhere]
    | cons => rfl

/-- A list of combinators adds the paths that one of them covers. -/
theorem Review.ignoring_eq (review : Review ε K) (ignores : List Ignoring) :
    review.ignoring ignores
      = review.ignoreWhere fun path => ignores.any fun ignoring => ignoring.covers path := by
  induction ignores generalizing review with
  | nil => simp [ignoring, ignoreWhere]
  | cons first rest ih =>
    rw [ignoring, List.foldl_cons, ← ignoring, ih, Ignoring.apply_eq]
    simp [ignoreWhere, Bool.or_assoc]

/-- The patterns of a configuration silence a review like any others, if they are texts. -/
theorem Review.ignoreValues_texts (review : Review Fault K) (patterns : List String) :
    review.ignoreValues (patterns.map .text) = review.ignoring [.patterns patterns] := by
  have htexts : (patterns.map Value.text).filterMap Value.text? = patterns := by
    simp [List.filterMap_map, Function.comp_def, Value.text?]
  rw [ignoreValues, if_pos (by simp [Value.text?]), htexts]
  rfl

/-! ## Runs side by side -/

variable (review : Review ε K) (predicate : String → Bool)

theorem inspectAll_ignoring (parts : List (String × Part)) :
    inspectAll (review.ignoreWhere predicate) parts = inspectAll review parts := by
  induction parts with
  | nil => rfl
  | cons entry rest ih =>
    simp only [inspectAll, ih]
    rfl

theorem inspectPooled_ignoring (parts : List (String × Part)) :
    inspectPooled (review.ignoreWhere predicate) parts = inspectPooled review parts := by
  induction parts with
  | nil => rfl
  | cons entry rest ih =>
    simp only [inspectPooled, ih]
    rfl

theorem updateFiles_ignoring (pooled : Bool) (previous : Assoc K) (changed : List (String × Part))
    (removed : List String) :
    updateFiles (review.ignoreWhere predicate) pooled previous changed removed
      = updateFiles review pooled previous changed removed := by
  simp only [updateFiles, inspectParts, inspectAll_ignoring, inspectPooled_ignoring]

/-- A review draws the same knowledge, whatever it ignores. -/
theorem Cache.update_ignoring (pooled : Bool) (cache : Cache K) (delta : Delta) :
    cache.update (review.ignoreWhere predicate) pooled delta
      = cache.update review pooled delta := by
  simp only [update, updateFiles_ignoring]
  cases delta.manifest <;> rfl

theorem Cache.aggregate_ignoring (cache : Cache K) :
    cache.aggregate (review.ignoreWhere predicate) = cache.aggregate review := rfl

/-- A report of the silenced review is that of the review itself, less what is ignored. -/
theorem Review.reportOn_ignoring (knowledge : Option K) :
    (review.ignoreWhere predicate).reportOn knowledge
      = (review.reportOn knowledge).map
          (List.filter fun entry => !(review.ignoreWhere predicate).ignores entry.1) := by
  cases knowledge with
  | none => rfl
  | some knowledge =>
    simp only [reportOn, outcome_buildReport]
    cases hreport : review.report knowledge with
    | error e => simp [ignoreWhere, hreport, Except.map]
    | ok findings =>
      -- What the review ignores by itself is hidden in both, so hiding it again does nothing.
      simp only [ignoreWhere, hreport, Except.map, Report.hide, List.filter_filter]
      congr 2
      funext entry
      cases review.ignores entry.1 <;> simp

namespace Engine

/-- The engine with its review silenced about further paths. -/
def ignoring (engine : Engine ε K) (predicate : String → Bool) : Engine ε K :=
  { engine with review := engine.review.ignoreWhere predicate }

/-- **A run of a silenced review is a run of the review, less what is ignored.** -/
theorem run_ignoring (engine : Engine ε K) (predicate : String → Bool) (delta : Delta) :
    ((engine.ignoring predicate).run delta).outcome
      = (engine.run delta).outcome.map fun result =>
          ⟨result.report.filter fun entry => !(engine.review.ignoreWhere predicate).ignores entry.1,
            { result.next with review := engine.review.ignoreWhere predicate }⟩ := by
  rw [outcome_run, outcome_run]
  simp only [ignoring, Cache.update_ignoring, Cache.aggregate_ignoring, map_bind,
    Review.reportOn_ignoring, map_map]

theorem after_concat (options : RunOptions) (deltas : List Delta) (delta : Delta) :
    after review options (deltas ++ [delta])
      = advance (fun engine delta => (engine.run delta).outcome) RunResult.next
          (after review options deltas) delta := by
  rw [after, List.foldl_append]
  rfl

/-- The engines of a review and of the silenced one stay side by side. -/
theorem after_ignoring (options : RunOptions) (deltas : List Delta) :
    (after (review.ignoreWhere predicate) options deltas).1
      = (after review options deltas).1.ignoring predicate := by
  induction deltas using List.reverseRecOn with
  | nil => rfl
  | append_singleton deltas delta ih =>
    -- A run that fails leaves both engines where they are; else both go on with the same cache.
    have hreview := (inStep_after review options deltas).ofReview
    rw [after_concat, after_concat, advance, advance, ih, run_ignoring, hreview]
    cases hrun : ((after review options deltas).1.run delta).outcome with
    | error e => exact ih
    | ok result =>
      have hnext := ((inStep_after review options deltas).next hrun).ofReview
      simp only [Except.map, ignoring, hnext]

end Engine

/-- **Ignoring paths only filters reports.** A review that is silenced by a list of combinators
    ignores the paths that it ignored itself and those that one of them covers; a path that is
    ignored stays ignored by further combinators, and their order does not matter. After any deltas,
    its engine has the cache of the review's own engine, and running one more delta on both gives
    the same failure, or the same cache and a report that has the entries of the other, less the
    paths that are ignored. -/
theorem ignoring_only_filters (review : Review ε K) (ignores : List Ignoring)
    (options : RunOptions) (deltas : List Delta) (delta : Delta) :
    let silenced := review.ignoring ignores
    let engine := (Engine.after review options deltas).1
    let quiet := (Engine.after silenced options deltas).1
    (∀ path, silenced.ignores path
      = (review.ignores path || ignores.any fun ignoring => ignoring.covers path)) ∧
    (∀ further path, silenced.ignores path = true →
      (review.ignoring (ignores ++ further)).ignores path = true) ∧
    (∀ reordered : List Ignoring, reordered.Perm ignores → review.ignoring reordered = silenced) ∧
    quiet.cache = engine.cache ∧
    (quiet.run delta).outcome = (engine.run delta).outcome.map fun result =>
      ⟨result.report.filter fun entry => !silenced.ignores entry.1,
        { result.next with review := silenced }⟩ := by
  intro silenced engine quiet
  have hsilenced := review.ignoring_eq ignores
  have hreview := (Engine.inStep_after review options deltas).ofReview
  have hquiet : quiet = engine.ignoring fun path =>
      ignores.any fun ignoring => ignoring.covers path := by
    simp only [quiet, engine, silenced, hsilenced, Engine.after_ignoring]
  refine ⟨fun path => ?_, fun further path hpath => ?_, fun reordered hperm => ?_, ?_, ?_⟩
  · simp only [silenced, hsilenced]
    rfl
  · simp only [silenced, hsilenced, Review.ignoring_eq, Review.ignoreWhere,
      List.any_append] at hpath ⊢
    rw [← Bool.or_assoc, hpath, Bool.true_or]
  · simp only [silenced, Review.ignoring_eq]
    congr 1
    funext path
    exact hperm.any_eq
  · rw [hquiet]
    rfl
  · rw [hquiet, Engine.run_ignoring, hreview]
    simp only [silenced, hsilenced]

end ProjectReview
