import ProjectReview.Catalog.Marker
import ProjectReview.Engine.Suite
import ProjectReview.Fault
import ProjectReview.Proofs.Incremental
import ProjectReview.Proofs.Reports

set_option autoImplicit false

/-! # A suite is the sum of its reviews

A suite refuses reviews that share a name and names the names that are taken twice
(`ofReviews_eq_error_iff`). Otherwise its runs are those of its reviews, each on its own: the
engines of a suite stay in step with the project that the deltas add up to, so each of them ends
like a first run of its review over that project, and a run of the suite ends like those first runs
one after the other. `SumOf` says what the suite makes of their reports, and `run_sumOf` that it
makes nothing else. -/

namespace ProjectReview

/-- Whatever an engine reports is proper. -/
theorem Engine.proper_run {ε K : Type} {engine : Engine ε K} {delta : Delta}
    {result : RunResult ε K} (h : (engine.run delta).outcome = .ok result) :
    result.report.Proper := by
  rw [outcome_run] at h
  obtain ⟨cache, -, h⟩ := bind_eq_ok.1 h
  obtain ⟨knowledge, -, h⟩ := bind_eq_ok.1 h
  obtain ⟨report, hreport, rfl⟩ := map_eq_ok.1 h
  cases knowledge with
  | none =>
    rw [← Except.ok.inj hreport]
    exact Report.Proper.empty
  | some k => exact Review.proper_buildReport hreport

namespace Suite

variable {ι ε : Type} {K : ι → Type}

/-! ## Names -/

theorem mem_duplicates (names : List String) (name : String) :
    name ∈ duplicates names ↔ 1 < names.count name := by
  rw [duplicates, mem_sortTexts, mem_distinct, List.mem_filter, decide_eq_true_iff]
  exact ⟨fun h => h.2, fun h => ⟨List.count_pos_iff.1 (by omega), h⟩⟩

theorem pairwise_lt_duplicates (names : List String) : (duplicates names).Pairwise (· < ·) :=
  pairwise_lt_sortTexts _ (nodup_distinct _)

theorem duplicates_eq_nil_iff (names : List String) : duplicates names = [] ↔ names.Nodup := by
  rw [List.eq_nil_iff_forall_not_mem, List.nodup_iff_count_le_one]
  simp only [mem_duplicates, not_lt]

/-- Reviews are refused just for the names that several of them have, each told once and in
    ascending order. -/
theorem ofReviews_eq_error_iff (reviews : List (AnyReview ε K)) (options : RunOptions)
    (names : List String) :
    ofReviews reviews options = .error names ↔ names ≠ [] ∧ names.Pairwise (· < ·) ∧
      ∀ name, name ∈ names ↔ 1 < (reviews.map fun review => review.2.name).count name := by
  have hduplicates : ∀ names, names = duplicates (reviews.map fun review => review.2.name) ↔
      names.Pairwise (· < ·) ∧
        ∀ name, name ∈ names ↔ 1 < (reviews.map fun review => review.2.name).count name := by
    intro names
    constructor
    · rintro rfl
      exact ⟨pairwise_lt_duplicates _, mem_duplicates _⟩
    · rintro ⟨hsorted, hmem⟩
      apply hsorted.eq_of_mem_iff (pairwise_lt_duplicates _)
      intro name
      rw [hmem, mem_duplicates]
  rw [← hduplicates, ofReviews]
  split
  · next hnone =>
    rw [List.isEmpty_iff] at hnone
    simp only [reduceCtorEq, false_iff, not_and]
    rintro hne rfl
    exact hne hnone
  · next hsome =>
    rw [List.isEmpty_iff] at hsome
    rw [Except.error.injEq]
    constructor
    · rintro rfl
      exact ⟨hsome, rfl⟩
    · exact fun h => h.2.symm

theorem ofReviews_eq_ok {reviews : List (AnyReview ε K)} {options : RunOptions}
    {suite : Suite ε K} (h : ofReviews reviews options = .ok suite) :
    (reviews.map fun review => review.2.name).Nodup ∧
      suite = ⟨reviews.map fun review => ⟨review.1, Engine.start review.2 options⟩⟩ := by
  rw [ofReviews] at h
  split at h
  · next hnone =>
    rw [List.isEmpty_iff, duplicates_eq_nil_iff] at hnone
    exact ⟨hnone, (Except.ok.inj h).symm⟩
  · exact absurd h (by simp)

/-! ## Engines side by side -/

/-- The engine is one for the review, in step with the project. -/
inductive EngineInStep (project : Project) : AnyReview ε K → AnyEngine ε K → Prop
  | of {i : ι} {review : Review ε (K i)} {engine : Engine ε (K i)}
      (h : Engine.InStep review engine project) : EngineInStep project ⟨i, review⟩ ⟨i, engine⟩

/-- The suite has an engine for each of the reviews, all of them in step with the project. -/
def InStep (reviews : List (AnyReview ε K)) (suite : Suite ε K) (project : Project) : Prop :=
  List.Forall₂ (EngineInStep project) reviews suite.engines

/-- What a review reports in a first run over a project, under its name. -/
def reportAlone (project : Project) (review : AnyReview ε K) : Except ε (String × Report) :=
  (review.2.runOnce project.toDelta).outcome.map fun report => (review.2.name, report)

/-- A first run sees of a project just the delta that it receives. -/
theorem reportAlone_congr {a b : Project} (h : a.toDelta = b.toDelta) :
    (reportAlone a : AnyReview ε K → Except ε (String × Report)) = reportAlone b := by
  funext review
  rw [reportAlone, reportAlone, h]

theorem outcome_runEngine (delta : Delta) (i : ι) (engine : Engine ε (K i)) :
    (runEngine delta (⟨i, engine⟩ : AnyEngine ε K)).outcome
      = (engine.run delta).outcome.map fun result =>
          (engine.review.name, result.report, ⟨i, result.next⟩) := by
  rw [runEngine, Journaled.outcome_bind]
  cases (engine.run delta).outcome <;> rfl

theorem reportAlone_eq (project : Project) (i : ι) (review : Review ε (K i)) :
    reportAlone project (⟨i, review⟩ : AnyReview ε K)
      = ((Engine.start review {}).run project.toDelta).outcome.map fun result =>
          (review.name, result.report) := by
  rw [reportAlone, Engine.outcome_runOnce]
  cases ((Engine.start review {}).run project.toDelta).outcome <;> rfl

theorem proper_reportAlone {project : Project} {review : AnyReview ε K} {entry : String × Report}
    (h : reportAlone project review = .ok entry) : entry.2.Proper := by
  rw [reportAlone_eq] at h
  obtain ⟨result, hresult, rfl⟩ := map_eq_ok.1 h
  exact Engine.proper_run hresult

theorem keys_reportAlone {project : Project} {reviews : List (AnyReview ε K)}
    {alone : Assoc Report} (h : reviews.mapM (reportAlone project) = .ok alone) :
    reviews.map (fun review => review.2.name) = alone.keys := by
  rw [Assoc.keys, ← List.forall₂_eq_eq_eq, List.forall₂_map_left_iff, List.forall₂_map_right_iff]
  refine (forall₂_of_mapM (List.forall₂_same.2 fun review _ => rfl) h).imp ?_
  rintro review entry ⟨_, rfl, hentry⟩
  obtain ⟨report, -, rfl⟩ := map_eq_ok.1 hentry
  rfl

/-- An engine of a suite ends like a first run of its review, and goes on in step. -/
theorem runEngine_agree {project : Project} {review : AnyReview ε K} {engine : AnyEngine ε K}
    (h : EngineInStep project review engine) (delta : Delta) :
    SameOutcome (fun result alone => (result.1, result.2.1) = alone)
      (runEngine delta engine).outcome (reportAlone (project.apply delta) review) := by
  obtain ⟨h⟩ := h
  rw [outcome_runEngine, reportAlone_eq, h.ofReview]
  refine (h.run_agree delta {}).map ?_
  rintro warm cold ⟨hreport, -, -⟩
  rw [hreport]

theorem EngineInStep.next {project : Project} {review : AnyReview ε K} {engine : AnyEngine ε K}
    (h : EngineInStep project review engine) {delta : Delta}
    {result : String × Report × AnyEngine ε K}
    (hresult : (runEngine delta engine).outcome = .ok result) :
    EngineInStep (project.apply delta) review result.2.2 := by
  obtain ⟨h⟩ := h
  rw [outcome_runEngine] at hresult
  obtain ⟨run, hrun, rfl⟩ := map_eq_ok.1 hresult
  exact .of (h.next hrun)

theorem outcome_run (suite : Suite ε K) (delta : Delta) :
    (suite.run delta).outcome
      = (suite.engines.mapM fun engine => (runEngine delta engine).outcome).map fun results => {
          report := Report.merge (results.map fun result => result.2.1)
          byReview := Assoc.ofEntries (results.map fun result => (result.1, result.2.1))
          next := ⟨results.map fun result => result.2.2⟩ } := by
  rw [run, Journaled.outcome_bind, Journaled.outcome_mapM]
  cases suite.engines.mapM fun engine => (runEngine delta engine).outcome <;> rfl

theorem InStep.start {reviews : List (AnyReview ε K)} {options : RunOptions} {suite : Suite ε K}
    (h : ofReviews reviews options = .ok suite) : InStep reviews suite {} := by
  rw [(ofReviews_eq_ok h).2, InStep, List.forall₂_map_right_iff, List.forall₂_same]
  exact fun review _ => .of (Engine.InStep.start review.2 options)

theorem InStep.next {reviews : List (AnyReview ε K)} {suite : Suite ε K} {project : Project}
    (h : InStep reviews suite project) {delta : Delta} {result : SuiteResult ε K}
    (hresult : (suite.run delta).outcome = .ok result) :
    InStep reviews result.next (project.apply delta) := by
  rw [outcome_run] at hresult
  obtain ⟨results, hresults, rfl⟩ := map_eq_ok.1 hresult
  rw [InStep, List.forall₂_map_right_iff]
  exact (forall₂_of_mapM h hresults).imp fun _ _ ⟨_, hengine, hrun⟩ => hengine.next hrun

/-- **A suite in step ends like first runs of its reviews**, one after the other, and makes its
    report of theirs. -/
theorem InStep.run_agree {reviews : List (AnyReview ε K)} {suite : Suite ε K} {project : Project}
    (h : InStep reviews suite project) (delta : Delta) :
    SameOutcome
      (fun result alone => result.report = Report.merge (alone.map (·.2)) ∧
        result.byReview = Assoc.ofEntries alone)
      (suite.run delta).outcome (reviews.mapM (reportAlone (project.apply delta))) := by
  rw [outcome_run]
  have hruns := SameOutcome.mapM (List.Forall₂.flip h) fun engine review hengine =>
    runEngine_agree hengine delta
  refine hruns.map_left ?_
  intro results alone hall
  -- By names and reports, the results are the first runs themselves.
  have hresults : results.map (fun result => (result.1, result.2.1)) = alone := by
    rw [← List.forall₂_eq_eq_eq, List.forall₂_map_left_iff]
    exact hall
  have hreports : results.map (fun result => result.2.1) = alone.map (·.2) := by
    rw [← hresults, List.map_map]
    rfl
  rw [hresults, hreports]
  exact ⟨rfl, rfl⟩

/-- The report of a suite in step depends on what first runs over the project receive. -/
theorem InStep.outcome_report {reviews : List (AnyReview ε K)} {suite : Suite ε K}
    {project : Project} (h : InStep reviews suite project) (delta : Delta) :
    (suite.run delta).outcome.map SuiteResult.report
      = (reviews.mapM (reportAlone (project.apply delta))).map fun alone =>
          Report.merge (alone.map (·.2)) :=
  (h.run_agree delta).map_eq fun _ _ hresult => hresult.1

/-! ## The sum -/

/-- What the result of a run owes to the reports of the reviews alone: it has them by name, in the
    order of the suite; it names just the files that some review names, each once; and it holds for
    a file at least one finding, of that file, and the findings of the reviews one after the other
    in a stable sort by range. -/
structure SumOf (alone : Assoc Report) (result : SuiteResult ε K) : Prop where
  byReview : result.byReview = alone
  nodup : result.report.keys.Nodup
  reported : ∀ path, path ∈ result.report.keys ↔ ∃ entry ∈ alone, path ∈ entry.2.keys
  findings : ∀ path findings, result.report.get? path = some findings →
    findings ≠ [] ∧ (∀ finding ∈ findings, finding.path = path) ∧
      StableSorted Finding.rangeLe (alone.flatMap fun entry => entry.2.findingsOf path) findings

theorem sumOf_merge {alone : Assoc Report} (hnames : alone.keys.Nodup)
    (hproper : ∀ entry ∈ alone, entry.2.Proper) {result : SuiteResult ε K}
    (hreport : result.report = Report.merge (alone.map (·.2)))
    (hbyReview : result.byReview = Assoc.ofEntries alone) : SumOf alone result := by
  have hreports : ∀ report ∈ alone.map (·.2), report.Proper := by
    intro report hreport
    obtain ⟨entry, hentry, rfl⟩ := List.mem_map.1 hreport
    exact hproper entry hentry
  have hmerge := Report.proper_merge (alone.map (·.2)) hreports
  rw [Assoc.ofEntries_of_nodup alone hnames] at hbyReview
  rw [← hreport] at hmerge
  refine ⟨hbyReview, hmerge.nodup, fun path => ?_, fun path findings hfindings => ?_⟩
  · rw [hreport, Report.mem_keys_merge]
    simp only [List.mem_map, exists_exists_and_eq_and]
  · obtain ⟨hne, hfiled⟩ := hmerge.filed path findings hfindings
    have hpath := (Assoc.mem_keys_iff _ path).2 ⟨findings, hfindings⟩
    rw [hreport] at hpath hfindings
    have hget := Report.get?_merge _ (fun report h => (hreports report h).nodup) hpath
    rw [hget, List.flatMap_map] at hfindings
    rw [← Option.some.inj hfindings] at hne hfiled ⊢
    exact ⟨hne, hfiled, Report.stableSorted_sortByRange _⟩

/-- **A run of a suite in step is the sum of first runs of its reviews.** -/
theorem InStep.run_sumOf {reviews : List (AnyReview ε K)} {suite : Suite ε K} {project : Project}
    (h : InStep reviews suite project)
    (hnames : (reviews.map fun review => review.2.name).Nodup) (delta : Delta) :
    SameOutcome (fun result alone => SumOf alone result) (suite.run delta).outcome
      (reviews.mapM (reportAlone (project.apply delta))) := by
  refine (h.run_agree delta).with_ok.imp ?_
  rintro result alone ⟨-, halone, hreport, hbyReview⟩
  have hproper : ∀ entry ∈ alone, Report.Proper entry.2 :=
    forall_mem_of_mapM (fun _ _ hentry => proper_reportAlone hentry) halone
  exact sumOf_merge (keys_reportAlone halone ▸ hnames) hproper hreport hbyReview

/-- A suite after some deltas, each run on the suite that the latest successful run left, and the
    project that the successful ones add up to. -/
def after (suite : Suite ε K) (deltas : List Delta) : Suite ε K × Project :=
  deltas.foldl (advance (fun suite delta => (suite.run delta).outcome) SuiteResult.next) (suite, {})

theorem inStep_after {reviews : List (AnyReview ε K)} {options : RunOptions} {suite : Suite ε K}
    (h : ofReviews reviews options = .ok suite) (deltas : List Delta) :
    InStep reviews (suite.after deltas).1 (suite.after deltas).2 :=
  foldl_advance (fun _ _ _ _ hnow hresult => hnow.next hresult) deltas (suite, {}) (InStep.start h)

/-- **A suite is the sum of its reviews.** Reviews that share names are refused with those names,
    told once each and in ascending order. Of other reviews, the suite that runs any deltas and then
    one more ends like first runs of its reviews, one after the other, over the project that
    results: with the failure of the first that fails, or with the sum of their reports. -/
theorem suite_sums_up_reviews (reviews : List (AnyReview ε K)) (options : RunOptions) :
    (∀ names, ofReviews reviews options = .error names ↔ names ≠ [] ∧ names.Pairwise (· < ·) ∧
      ∀ name, name ∈ names ↔ 1 < (reviews.map fun review => review.2.name).count name) ∧
    (∀ names, (Fault.duplicateNames names).label = "ValueError" ∧
      (Fault.duplicateNames names).message = "Duplicate review name(s): " ++ joinTexts ", " names) ∧
    ∀ suite, ofReviews reviews options = .ok suite → ∀ deltas delta,
      SameOutcome (fun result alone => SumOf alone result)
        ((suite.after deltas).1.run delta).outcome
        (reviews.mapM (reportAlone ((suite.after deltas).2.apply delta))) := by
  refine ⟨ofReviews_eq_error_iff reviews options, fun names => ⟨rfl, rfl⟩, ?_⟩
  intro suite hsuite deltas delta
  exact (inStep_after hsuite deltas).run_sumOf (ofReviews_eq_ok hsuite).1 delta

/-- A suite of two reviews with a module reported by both and then gone: nothing of it is left, and
    the new file is reported by both. -/
theorem suite_sums_up_two_reviews :
    let reviews : List (AnyReview Fault fun _ : Unit => List Mark) :=
      [⟨(), markerReview {}⟩, ⟨(), unfinishedReview⟩]
    let first : Delta := { modules := [⟨"a.py", "bad TODO", none⟩] }
    let second : Delta :=
      { extraFiles := [⟨"b.md", "TODO bad"⟩], removedModules := ["a.py"] }
    ∃ suite, ofReviews reviews {} = .ok suite ∧
      ((suite.after [first]).1.run second).outcome.map (fun result => result.report.keys)
        = .ok ["b.md"] ∧
      SameOutcome (fun result alone => SumOf alone result)
        ((suite.after [first]).1.run second).outcome
        (reviews.mapM (reportAlone ((suite.after [first]).2.apply second))) :=
  ⟨_, rfl, rfl, (suite_sums_up_reviews _ {}).2.2 _ rfl _ _⟩

end Suite

end ProjectReview
