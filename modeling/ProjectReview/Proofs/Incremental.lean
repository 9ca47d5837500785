import ProjectReview.Proofs.Caching

set_option autoImplicit false

/-! # Incremental runs report what first runs report

An engine's cache is `UpToDate` with a project when it holds, for every live module and extra file,
what the review draws from it. From such an engine, running a delta ends like a first run over the
project with the delta taken in (`run_agree`): the same failure, or the same report and the same
knowledge, and the engine that goes on is up to date with that project again. Emptying the cache
when nothing is known does no harm, since a cache whose knowledge folds to nothing is empty already
(`eq_empty_of_aggregate`).

Along any sequence of deltas, those that fail passed over, engine and project stay in step, which is
the main result, `run_like_first_run`. -/

namespace ProjectReview

variable {ε K : Type}

/-! ## Caches that are up to date -/

/-- Files as the parts that reviews look at. -/
def partsOf {α : Type} (toPart : α → Part) (files : Assoc α) : Assoc Part :=
  files.map fun entry => (entry.1, toPart entry.2)

theorem get?_partsOf {α : Type} (toPart : α → Part) (files : Assoc α) (path : String) :
    (partsOf toPart files).get? path = (files.get? path).map toPart :=
  Assoc.get?_mapValues toPart files path

/-- One kind of file with a delta taken in ends like a first look at the files that result. -/
theorem takeIn_agree {α : Type} {pathOf : α → String} (toPart : α → Part) {review : Review ε K}
    {files : Assoc α} {known : Assoc K} (hfiled : Project.Filed pathOf files)
    (h : Knows review (partsOf toPart files) known) (changed : List α) (removed : List String)
    (pooled pooled' : Bool) :
    let next := Project.takeIn pathOf files changed removed
    SameOutcome
      (fun warm cold => Knows review (partsOf toPart next) warm.entries ∧
        Knows review (partsOf toPart next) cold.entries)
      (updateFiles review pooled known (changed.map fun a => (pathOf a, toPart a)) removed).outcome
      (updateFiles review pooled' []
        (((Project.sortedEntries next).map (·.2)).map fun a => (pathOf a, toPart a)) []).outcome := by
  intro next
  have hnext : Project.Filed pathOf next := hfiled.takeIn changed removed
  rw [hnext.map_sortedEntries toPart]
  apply updateFiles_agree h
  · rw [partsOf, Assoc.keys_mapValues]
    exact hnext.nodup
  · intro path
    have hchanged : (Assoc.ofEntries (changed.map fun a => (pathOf a, toPart a))).get? path
        = (Project.changedAt pathOf changed path).map toPart := by
      rw [Project.changedAt, ← Assoc.get?_ofEntries_mapValues, List.map_map]
      rfl
    rw [get?_partsOf, get?_partsOf, Project.get?_takeIn, hchanged]
    by_cases hpath : path ∈ removed
    · simp [hpath]
    · cases Project.changedAt pathOf changed path with
      | none => simp [hpath]
      | some a => simp [hpath]

namespace Cache

/-- The cache holds what the review draws from the modules and extra files of the project. -/
structure UpToDate (review : Review ε K) (project : Project) (cache : Cache K) : Prop where
  modules : Knows review (partsOf .module project.modules) cache.modules
  extraFiles : Knows review (partsOf .extraFile project.extraFiles) cache.extraFiles

/-- The caches hold the same knowledge of the manifest, of the dependencies and at every path. -/
structure Same (a b : Cache K) : Prop where
  manifest : a.manifest = b.manifest
  dependencies : a.dependencies = b.dependencies
  modules : ∀ path, a.modules.get? path = b.modules.get? path
  extraFiles : ∀ path, a.extraFiles.get? path = b.extraFiles.get? path

theorem UpToDate.empty (review : Review ε K) : UpToDate review {} .empty :=
  ⟨Knows.empty, Knows.empty⟩

theorem update_agree {review : Review ε K} {project : Project} {cache : Cache K}
    (h : cache.UpToDate review project) (hfiled : project.WellFiled) (delta : Delta)
    (pooled pooled' : Bool) :
    SameOutcome
      (fun warm cold => warm.Same cold ∧ warm.UpToDate review (project.apply delta) ∧
        cold.UpToDate review (project.apply delta))
      (cache.update review pooled delta).outcome
      (Cache.empty.update review pooled' (project.apply delta).toDelta).outcome := by
  have hmodules := takeIn_agree .module hfiled.modules h.modules delta.modules
    delta.removedModules pooled pooled'
  have hextraFiles := takeIn_agree .extraFile hfiled.extraFiles h.extraFiles delta.extraFiles
    delta.removedExtraFiles pooled pooled'
  simp only [update, Journaled.outcome_bind, Journaled.outcome_pure, Journaled.outcome_note]
  refine (SameOutcome.refl _).bind ?_
  rintro manifest _ rfl
  refine (SameOutcome.refl _).bind ?_
  rintro dependencies _ rfl
  refine hmodules.bind ?_
  rintro warmModules coldModules ⟨hwarm, hcold⟩
  refine hextraFiles.bind ?_
  rintro warmFiles coldFiles ⟨hwarmFiles, hcoldFiles⟩
  exact .ok ⟨⟨rfl, rfl, hwarm.get?_eq hcold, hwarmFiles.get?_eq hcoldFiles⟩,
    ⟨hwarm, hwarmFiles⟩, ⟨hcold, hcoldFiles⟩⟩

/-- Caches that are up to date with one project are folded from the same values. -/
theorem Same.values_eq {review : Review ε K} {project : Project} {a b : Cache K} (h : a.Same b)
    (ha : a.UpToDate review project) (hb : b.UpToDate review project) : a.values = b.values := by
  rw [values, values, h.manifest, h.dependencies,
    sortedEntries_congr ha.modules.nodup hb.modules.nodup h.modules,
    sortedEntries_congr ha.extraFiles.nodup hb.extraFiles.nodup h.extraFiles]

/-! ## Emptying a cache -/

theorem foldlM_foldStep_eq_none (merge : K → K → Except ε K) (values : List (Option K))
    (sofar : Option K) (h : values.foldlM (foldStep merge) sofar = .ok none) :
    sofar = none ∧ ∀ value ∈ values, value = none := by
  induction values generalizing sofar with
  | nil => exact ⟨by simpa using Except.ok.inj h, by simp⟩
  | cons value rest ih =>
    rw [List.foldlM_cons] at h
    obtain ⟨next, hnext, h⟩ := bind_eq_ok.1 h
    obtain ⟨rfl, hrest⟩ := ih next h
    cases value with
    | none =>
      have hsofar : sofar = none := by
        cases sofar with
        | none => rfl
        | some a => exact absurd hnext (by simp [foldStep])
      exact ⟨hsofar, by simpa using hrest⟩
    | some v =>
      cases sofar with
      | none => simp [foldStep] at hnext
      | some a =>
        obtain ⟨c, -, hc⟩ := map_eq_ok.1 hnext
        exact absurd hc (by simp)

/-- A cache whose knowledge folds to nothing is empty. -/
theorem eq_empty_of_aggregate {review : Review ε K} {cache : Cache K}
    (h : cache.aggregate review = .ok none) : cache = .empty := by
  have hnone := (foldlM_foldStep_eq_none review.merge cache.values none h).2
  have hfiles : ∀ files : Assoc K,
      (∀ entry ∈ Project.sortedEntries files, some entry.2 ∈ cache.values) → files = [] := by
    intro files hfiles
    apply List.eq_nil_iff_forall_not_mem.2
    intro entry hentry
    exact absurd (hnone _ (hfiles entry ((perm_sortedEntries files).mem_iff.2 hentry))) (by simp)
  have hmanifest : cache.manifest = none := hnone _ (by simp [values])
  have hdependencies : cache.dependencies = none := hnone _ (by simp [values])
  have hmodules : cache.modules = [] :=
    hfiles _ fun entry hentry => by simp [values]; exact Or.inr (Or.inr (Or.inl ⟨_, hentry⟩))
  have hextraFiles : cache.extraFiles = [] :=
    hfiles _ fun entry hentry => by simp [values]; exact Or.inr (Or.inr (Or.inr ⟨_, hentry⟩))
  obtain ⟨manifest, dependencies, modules, extraFiles⟩ := cache
  simp only at hmanifest hdependencies hmodules hextraFiles
  rw [hmanifest, hdependencies, hmodules, hextraFiles]
  rfl

end Cache

/-! ## Engines -/

/-- The report of a review on the knowledge of a whole project, which may be none. -/
def Review.reportOn (review : Review ε K) : Option K → Except ε Report
  | none => .ok []
  | some knowledge => (review.buildReport knowledge).outcome

namespace Engine

/-- A run brings the cache up to date, folds it, reports, and goes on with that cache. -/
theorem outcome_run (engine : Engine ε K) (delta : Delta) :
    let pooled := engine.options.wantsPool ↑(delta.modules.length + delta.extraFiles.length)
    (engine.run delta).outcome
      = (engine.cache.update engine.review pooled delta).outcome.bind fun cache =>
          (cache.aggregate engine.review).bind fun knowledge =>
            (engine.review.reportOn knowledge).map fun report => ⟨report, { engine with cache }⟩ := by
  simp only [run, Journaled.outcome_bind, Journaled.outcome_ofExcept]
  congr 1
  funext cache
  cases haggregate : cache.aggregate engine.review with
  | error e => rfl
  | ok knowledge =>
    cases knowledge with
    | none =>
      -- The cache that is put in place of this one is the same.
      rw [Cache.eq_empty_of_aggregate haggregate]
      rfl
    | some k =>
      simp only [Except.bind, Review.reportOn, Journaled.outcome_bind]
      cases (engine.review.buildReport k).outcome <;> rfl

/-- What a run that succeeds has done, and what it goes on with. -/
theorem run_eq_ok {engine : Engine ε K} {delta : Delta} {result : RunResult ε K}
    (h : (engine.run delta).outcome = .ok result) :
    let pooled := engine.options.wantsPool ↑(delta.modules.length + delta.extraFiles.length)
    (engine.cache.update engine.review pooled delta).outcome = .ok result.next.cache ∧
      (∃ known, result.next.cache.aggregate engine.review = .ok known ∧
        engine.review.reportOn known = .ok result.report) ∧
      result.next.options = engine.options := by
  rw [outcome_run] at h
  obtain ⟨cache, hcache, h⟩ := bind_eq_ok.1 h
  obtain ⟨known, hknown, h⟩ := bind_eq_ok.1 h
  obtain ⟨report, hreport, rfl⟩ := map_eq_ok.1 h
  exact ⟨hcache, ⟨known, hknown, hreport⟩, rfl⟩

theorem outcome_runOnce (review : Review ε K) (delta : Delta) :
    (review.runOnce delta).outcome = ((start review {}).run delta).outcome.map RunResult.report := by
  rw [Review.runOnce, Journaled.outcome_bind]
  cases ((start review {}).run delta).outcome <;> rfl

/-- **A run ends like a first run.** -/
theorem run_agree {engine : Engine ε K} {project : Project}
    (h : engine.cache.UpToDate engine.review project) (hfiled : project.WellFiled) (delta : Delta)
    (options : RunOptions) :
    SameOutcome
      (fun warm cold => warm.report = cold.report ∧ warm.next.cache.Same cold.next.cache ∧
        warm.next.review = engine.review ∧
        warm.next.cache.UpToDate engine.review (project.apply delta))
      (engine.run delta).outcome
      ((start engine.review options).run (project.apply delta).toDelta).outcome := by
  rw [outcome_run, outcome_run]
  refine (Cache.update_agree h hfiled delta _ _).bind ?_
  rintro warm cold ⟨hsame, hwarm, hcold⟩
  -- From here on both runs do the same with the same knowledge.
  have haggregate : warm.aggregate engine.review = cold.aggregate engine.review := by
    rw [Cache.aggregate, Cache.aggregate, hsame.values_eq hwarm hcold]
  simp only [start]
  rw [haggregate]
  refine (SameOutcome.refl _).bind ?_
  rintro knowledge _ rfl
  refine (SameOutcome.refl _).map ?_
  rintro report _ rfl
  exact ⟨rfl, hsame, rfl, hwarm⟩

end Engine

/-! ## Sequences of deltas -/

section Sequences

variable {σ ρ : Type}

/-- Runs a delta on a state and takes it into the project; a delta on which the run fails leaves
    both as they were. -/
def advance (run : σ → Delta → Except ε ρ) (next : ρ → σ) (now : σ × Project) (delta : Delta) :
    σ × Project :=
  match run now.1 delta with
  | .ok result => (next result, now.2.apply delta)
  | .error _ => now

/-- What holds of a state and a project, and is kept by every run that succeeds, holds after any
    sequence of deltas. -/
theorem foldl_advance {run : σ → Delta → Except ε ρ} {next : ρ → σ} {holds : σ → Project → Prop}
    (hstep : ∀ state project delta result, holds state project → run state delta = .ok result →
      holds (next result) (project.apply delta))
    (deltas : List Delta) (now : σ × Project) (hnow : holds now.1 now.2) :
    holds (deltas.foldl (advance run next) now).1 (deltas.foldl (advance run next) now).2 := by
  induction deltas generalizing now with
  | nil => exact hnow
  | cons delta rest ih =>
    rw [List.foldl_cons]
    apply ih
    rw [advance]
    split
    · next result hresult => exact hstep _ _ _ _ hnow hresult
    · exact hnow

end Sequences

namespace Engine

/-- A review's engine after some deltas, each run on the engine that the latest successful run left,
    and the project that the successful ones add up to. -/
def after (review : Review ε K) (options : RunOptions) (deltas : List Delta) :
    Engine ε K × Project :=
  deltas.foldl (advance (fun engine delta => (engine.run delta).outcome) RunResult.next)
    (start review options, {})

/-- An engine for the review, up to date with a project whose files stand under their paths. -/
structure InStep (review : Review ε K) (engine : Engine ε K) (project : Project) : Prop where
  ofReview : engine.review = review
  upToDate : engine.cache.UpToDate review project
  filed : project.WellFiled

theorem InStep.start (review : Review ε K) (options : RunOptions) :
    InStep review (start review options) {} where
  ofReview := rfl
  upToDate := Cache.UpToDate.empty review
  filed := Project.WellFiled.empty

/-- An engine in step ends like a first run, and goes on in step with the project that results. -/
theorem InStep.run_agree {review : Review ε K} {engine : Engine ε K} {project : Project}
    (h : InStep review engine project) (delta : Delta) (options : RunOptions) :
    SameOutcome
      (fun warm cold => warm.report = cold.report ∧ warm.next.cache.Same cold.next.cache ∧
        InStep review warm.next (project.apply delta))
      (engine.run delta).outcome
      ((Engine.start review options).run (project.apply delta).toDelta).outcome := by
  obtain ⟨rfl, hupToDate, hfiled⟩ := h
  refine (Engine.run_agree hupToDate hfiled delta options).imp ?_
  rintro warm cold ⟨hreport, hcache, hreview, hnext⟩
  exact ⟨hreport, hcache, hreview, hnext, hfiled.apply delta⟩

theorem InStep.next {review : Review ε K} {engine : Engine ε K} {project : Project}
    (h : InStep review engine project) {delta : Delta} {result : RunResult ε K}
    (hresult : (engine.run delta).outcome = .ok result) :
    InStep review result.next (project.apply delta) := by
  obtain ⟨_, -, -, -, hnext⟩ := (h.run_agree delta {}).exists_ok hresult
  exact hnext

theorem inStep_after (review : Review ε K) (options : RunOptions) (deltas : List Delta) :
    InStep review (after review options deltas).1 (after review options deltas).2 :=
  foldl_advance (fun _ _ _ _ hnow hresult => hnow.next hresult) deltas _
    (InStep.start review options)

/-- **Incremental runs are first runs.** After any deltas, running one more gives the report, or the
    failure, of a first run over the project with that delta taken in, and leaves the knowledge that
    such a run leaves. -/
theorem run_like_first_run (review : Review ε K) (options : RunOptions) (deltas : List Delta)
    (delta : Delta) :
    let engine := (after review options deltas).1
    let whole := ((after review options deltas).2.apply delta).toDelta
    (engine.run delta).outcome.map RunResult.report = (review.runOnce whole).outcome ∧
      SameOutcome (fun warm cold => warm.report = cold.report ∧ warm.next.cache.Same cold.next.cache)
        (engine.run delta).outcome ((start review {}).run whole).outcome := by
  intro engine whole
  have hagree := (inStep_after review options deltas).run_agree delta {}
  constructor
  · rw [outcome_runOnce]
    exact hagree.map_eq fun _ _ h => h.1
  · exact hagree.imp fun _ _ h => ⟨h.1, h.2.1⟩

end Engine

end ProjectReview
