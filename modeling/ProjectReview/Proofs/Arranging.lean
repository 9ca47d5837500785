import Mathlib.Data.List.Induction
import ProjectReview.Proofs.Incremental
import ProjectReview.Proofs.Reports

set_option autoImplicit false

/-! # How a report arranges what a review finds

A review hands over its findings in one list; the report files them by path. Filing keeps the paths
in the order in which they first occur (`keys_group`, `pairwise_idxOf_distinct`) and the findings of
one path in the order of the list (`findingsOf_group`), and the sort by range that follows is
stable.

Read file by file, in ascending order of paths, a report whose files are sorted so is one stable
sort of all its findings by path and range (`stableSorted_toList`). That it is also a rearrangement
need not be shown apart: a list in which every class of level elements is what it was has lost
nothing (`StableSorted.of_level`).

The main result, `reports_arrange_findings`, says all of this of the report that a review gives on
some knowledge, and of the report of every run. -/

namespace ProjectReview

/-! ## First occurrences -/

section Distinct

variable {α : Type} [BEq α] [LawfulBEq α]

theorem distinct_concat (xs : List α) (x : α) :
    distinct (xs ++ [x]) = if x ∈ xs then distinct xs else distinct xs ++ [x] := by
  have hstep : distinct (xs ++ [x])
      = if (distinct xs).contains x then distinct xs else distinct xs ++ [x] := by
    unfold distinct
    rw [List.foldl_append, List.foldl_cons, List.foldl_nil]
  rw [hstep]
  simp only [List.contains_iff_mem, mem_distinct]

/-- Leaving out repetitions keeps the order in which elements first occur. -/
theorem pairwise_idxOf_distinct (xs : List α) :
    (distinct xs).Pairwise fun a b => xs.idxOf a < xs.idxOf b := by
  induction xs using List.reverseRecOn with
  | nil => exact List.Pairwise.nil
  | append_singleton xs x ih =>
    have hfront : (distinct xs).Pairwise fun a b =>
        (xs ++ [x]).idxOf a < (xs ++ [x]).idxOf b := by
      refine ih.imp_of_mem ?_
      intro a b ha hb hlt
      rw [List.idxOf_append_of_mem ((mem_distinct a xs).1 ha),
        List.idxOf_append_of_mem ((mem_distinct b xs).1 hb)]
      exact hlt
    rw [distinct_concat]
    split_ifs with hx
    · exact hfront
    · -- A new element stands behind all the others, in the list and among the first occurrences.
      rw [List.pairwise_append]
      refine ⟨hfront, List.pairwise_singleton _ _, ?_⟩
      intro a ha b hb
      have hmem : a ∈ xs := (mem_distinct a xs).1 ha
      rw [List.mem_singleton.1 hb, List.idxOf_append_of_mem hmem, List.idxOf_append_of_notMem hx]
      have hlt := List.idxOf_lt_length_of_mem hmem
      omega

end Distinct

/-! ## Sorting by path and range -/

/-- Where elements stand in ascending order and every class of level elements is as given, nothing
    is lost or added. -/
theorem StableSorted.of_level {α : Type} [DecidableEq α] {le : α → α → Bool}
    [Std.Total fun a b => le a b = true] {given sorted : List α}
    (hascending : sorted.Pairwise fun a b => le a b = true)
    (hlevel : ∀ a, sorted.filter (fun b => le a b && le b a)
      = given.filter fun b => le a b && le b a) : StableSorted le given sorted where
  perm := by
    rw [List.perm_iff_count]
    intro a
    -- An element is level with itself, so its occurrences are those in its own class.
    have hself : (le a a && le a a) = true := by
      have hle : le a a = true :=
        (Std.Total.total (r := fun a b => le a b = true) a a).elim id id
      rw [hle, Bool.and_self]
    rw [← List.count_filter (p := fun b => le a b && le b a) (l := sorted) hself, hlevel a,
      List.count_filter (p := fun b => le a b && le b a) hself]
  ascending := hascending
  level := hlevel

namespace Finding

/-- Ordered by path and, in one file, by range. -/
def placeLe (a b : Finding) : Bool :=
  decide (a.path < b.path) || (decide (a.path = b.path) && a.rangeLe b)

theorem placeLe_iff (a b : Finding) :
    a.placeLe b = true ↔ a.path < b.path ∨ (a.path = b.path ∧ a.rangeLe b = true) := by
  simp [placeLe]

/-- Findings are level in that order when they have one path and one range. -/
theorem placeLe_level (a b : Finding) :
    (a.placeLe b && b.placeLe a)
      = (decide (b.path = a.path) && (a.rangeLe b && b.rangeLe a)) := by
  rw [Bool.eq_iff_iff]
  simp only [Bool.and_eq_true, placeLe_iff, decide_eq_true_eq]
  constructor
  · rintro ⟨hlt | ⟨hab, hrange⟩, hlt' | ⟨hba, hrange'⟩⟩
    · exact absurd hlt' hlt.asymm
    · exact absurd hlt (hba ▸ lt_irrefl _)
    · exact absurd hlt' (hab ▸ lt_irrefl _)
    · exact ⟨hba, hrange, hrange'⟩
  · rintro ⟨hpath, hrange, hrange'⟩
    exact ⟨Or.inr ⟨hpath.symm, hrange⟩, Or.inr ⟨hpath, hrange'⟩⟩

instance : Std.Total fun a b => placeLe a b = true where
  total a b := by
    simp only [placeLe_iff]
    rcases lt_trichotomy a.path b.path with hlt | heq | hgt
    · exact Or.inl (Or.inl hlt)
    · rcases Std.Total.total (r := fun a b => rangeLe a b = true) a b with h | h
      · exact Or.inl (Or.inr ⟨heq, h⟩)
      · exact Or.inr (Or.inr ⟨heq.symm, h⟩)
    · exact Or.inr (Or.inl hgt)

theorem path_reportedBy (finding : Finding) (review : String) :
    (finding.reportedBy review).path = finding.path := by
  unfold reportedBy
  split_ifs <;> rfl

end Finding

/-- Of distinct elements of which only one is mapped to something, that one counts. -/
theorem flatMap_of_only {α β : Type} [DecidableEq α] {xs : List α} (hnodup : xs.Nodup)
    {f : α → List β} {x : α} (h : ∀ y ∈ xs, y ≠ x → f y = []) :
    xs.flatMap f = if x ∈ xs then f x else [] := by
  induction xs with
  | nil => rfl
  | cons y ys ih =>
    rw [List.nodup_cons] at hnodup
    have hrest := ih hnodup.2 fun z hz => h z (List.mem_cons_of_mem _ hz)
    rw [List.flatMap_cons, hrest]
    by_cases hy : y = x
    · subst hy
      simp [hnodup.1]
    · rw [h y List.mem_cons_self hy, List.nil_append]
      simp [Ne.symm hy]

namespace Report

/-- **Sorted files make a sorted list.** A report that holds for each path the stable sort by range
    of some findings at that path is, file by file, the stable sort of all of them. -/
theorem stableSorted_toList {report : Report} {given : List Finding} (hnodup : report.keys.Nodup)
    (hkeys : ∀ finding ∈ given, finding.path ∈ report.keys)
    (hfiled : ∀ path ∈ report.keys, StableSorted Finding.rangeLe
      (given.filter fun finding => decide (finding.path = path)) (report.findingsOf path)) :
    StableSorted Finding.placeLe given report.toList := by
  have hpaths : report.paths.Pairwise (· < ·) := pairwise_lt_sortTexts _ hnodup
  have hmem : ∀ path ∈ report.paths, path ∈ report.keys :=
    fun path hpath => (mem_sortTexts path _).1 hpath
  have hpath : ∀ path ∈ report.paths, ∀ finding ∈ report.findingsOf path,
      finding.path = path := by
    intro path hin finding hfinding
    have hgiven := (hfiled path (hmem path hin)).perm.mem_iff.1 hfinding
    simpa using (List.mem_filter.1 hgiven).2
  apply StableSorted.of_level
  · unfold toList
    rw [List.pairwise_flatMap]
    constructor
    · intro path hin
      refine (hfiled path (hmem path hin)).ascending.imp_of_mem ?_
      intro a b ha hb hle
      have hsame : a.path = b.path := (hpath path hin a ha).trans (hpath path hin b hb).symm
      exact (Finding.placeLe_iff a b).2 (Or.inr ⟨hsame, hle⟩)
    · refine hpaths.imp_of_mem ?_
      intro path other hin hother hlt a ha b hb
      rw [← hpath path hin a ha, ← hpath other hother b hb] at hlt
      exact (Finding.placeLe_iff a b).2 (Or.inl hlt)
  · intro a
    simp only [Finding.placeLe_level]
    -- Only the file of `a` holds findings level with it, and there they are in the given order.
    have hother : ∀ path ∈ report.paths, path ≠ a.path → (report.findingsOf path).filter
        (fun b => decide (b.path = a.path) && (a.rangeLe b && b.rangeLe a)) = [] := by
      intro path hin hne
      rw [List.filter_eq_nil_iff]
      intro b hb
      simp [hpath path hin b hb, hne]
    have hnodupPaths : report.paths.Nodup := hpaths.imp fun hlt => ne_of_lt hlt
    unfold toList
    rw [List.filter_flatMap, flatMap_of_only hnodupPaths hother]
    split_ifs with hin
    · have hfile : (report.findingsOf a.path).filter
          (fun b => decide (b.path = a.path) && (a.rangeLe b && b.rangeLe a))
            = (report.findingsOf a.path).filter fun b => a.rangeLe b && b.rangeLe a := by
        apply List.filter_congr
        intro b hb
        simp [hpath a.path hin b hb]
      rw [hfile, (hfiled a.path (hmem _ hin)).level a, List.filter_filter]
      simp only [Bool.and_comm]
    · symm
      rw [List.filter_eq_nil_iff]
      intro b hb
      have hkey : b.path ≠ a.path := by
        intro heq
        exact hin ((mem_sortTexts _ _).2 (heq ▸ hkeys b hb))
      simp [hkey]

/-! ## Filing -/

theorem keys_foldl_extend (entries : List (String × List Finding)) (report : Report) :
    Assoc.keys (entries.foldl (fun report entry => extend report entry.1 entry.2) report)
      = (entries.map (·.1)).foldl
          (fun seen path => if seen.contains path then seen else seen ++ [path]) report.keys := by
  induction entries generalizing report with
  | nil => rfl
  | cons entry rest ih =>
    rw [List.foldl_cons, ih, List.map_cons, List.foldl_cons]
    congr 1
    unfold extend
    rw [Assoc.keys_set]
    simp only [List.contains_iff_mem]

/-- The files of a report stand in the order in which they are first reported. -/
theorem keys_group (findings : List Finding) :
    (group findings).keys = distinct (findings.map Finding.path) := by
  have hfold := keys_foldl_extend (findings.map fun finding => (finding.path, [finding])) []
  rw [List.foldl_map, List.map_map] at hfold
  exact hfold

/-- The findings of a file stand in the order in which they are reported. -/
theorem findingsOf_group (findings : List Finding) (path : String) :
    (group findings).findingsOf path
      = findings.filter fun finding => decide (finding.path = path) := by
  have hfold := findingsOf_foldl_extend (findings.map fun finding => (finding.path, [finding])) []
    path
  rw [List.foldl_map] at hfold
  unfold group
  rw [hfold, List.filter_map, List.flatMap_map]
  simp [findingsOf, Assoc.get?, Function.comp_def]

theorem keys_hide (ignores : String → Bool) (report : Report) :
    (hide ignores report).keys = report.keys.filter fun path => !ignores path := by
  unfold hide Assoc.keys
  rw [List.filter_map]
  rfl

theorem findingsOf_hide (ignores : String → Bool) (report : Report) {path : String}
    (h : ignores path = false) :
    (hide ignores report).findingsOf path = report.findingsOf path := by
  have hget : (hide ignores report).get? path = if !ignores path then report.get? path else none :=
    Assoc.get?_filter (fun path => !ignores path) report path
  unfold findingsOf
  rw [hget, h]
  rfl

theorem findingsOf_sortGroups (report : Report) (path : String) :
    (sortGroups report).findingsOf path = sortByRange (report.findingsOf path) := by
  unfold findingsOf
  rw [get?_sortGroups]
  cases report.get? path <;> rfl

variable {ε K : Type}

/-- The report arranges the findings of a review, those that it is not silent about and each under
    its name: the files in the order in which they first occur, the findings of a file in the order
    of their ranges, and the whole, file by file, in the order of paths and ranges. Findings that
    are level stay in the order in which they were reported. -/
structure Arranges (review : Review ε K) (findings : List Finding) (report : Report) : Prop where
  mem_keys : ∀ path, path ∈ report.keys ↔
    review.ignores path = false ∧ ∃ finding ∈ findings, finding.path = path
  firstSeen : report.keys.Pairwise fun a b =>
    (findings.map Finding.path).idxOf a < (findings.map Finding.path).idxOf b
  filed : ∀ path ∈ report.keys, ∃ found, report.get? path = some found ∧
    StableSorted Finding.rangeLe
      ((findings.filter fun finding => decide (finding.path = path)).map
        (·.reportedBy review.name)) found
  listed : StableSorted Finding.placeLe
    ((findings.filter fun finding => !review.ignores finding.path).map (·.reportedBy review.name))
    report.toList

theorem arranges_hide (review : Review ε K) (findings : List Finding) :
    Arranges review findings (hide review.ignores
      (sortGroups (group (findings.map (·.reportedBy review.name))))) := by
  set report := hide review.ignores (sortGroups (group (findings.map (·.reportedBy review.name))))
    with hreport
  have hnamed : (findings.map (·.reportedBy review.name)).map Finding.path
      = findings.map Finding.path := by
    rw [List.map_map]
    apply List.map_congr_left
    intro finding _
    exact finding.path_reportedBy review.name
  have hkeys : report.keys
      = (distinct (findings.map Finding.path)).filter fun path => !review.ignores path := by
    rw [hreport, keys_hide, keys_sortGroups, keys_group, hnamed]
  have hmem : ∀ path, path ∈ report.keys ↔
      review.ignores path = false ∧ ∃ finding ∈ findings, finding.path = path := by
    intro path
    rw [hkeys, List.mem_filter, mem_distinct, List.mem_map, and_comm, Bool.not_eq_true']
  have hfindings : ∀ path ∈ report.keys, report.findingsOf path = sortByRange
      ((findings.filter fun finding => decide (finding.path = path)).map
        (·.reportedBy review.name)) := by
    intro path hpath
    rw [hreport, findingsOf_hide _ _ ((hmem path).1 hpath).1, findingsOf_sortGroups,
      findingsOf_group, List.filter_map]
    simp only [Function.comp_def, Finding.path_reportedBy]
  have hsorted : ∀ path ∈ report.keys, StableSorted Finding.rangeLe
      ((findings.filter fun finding => decide (finding.path = path)).map
        (·.reportedBy review.name)) (report.findingsOf path) := by
    intro path hpath
    rw [hfindings path hpath]
    exact stableSorted_sortByRange _
  refine ⟨hmem, ?_, ?_, ?_⟩
  · rw [hkeys]
    exact (pairwise_idxOf_distinct _).filter _
  · intro path hpath
    exact ⟨_, get?_eq_some_findingsOf hpath, hsorted path hpath⟩
  · apply stableSorted_toList
    · rw [hkeys]
      exact (nodup_distinct _).filter _
    · intro finding hfinding
      obtain ⟨given, hgiven, rfl⟩ := List.mem_map.1 hfinding
      obtain ⟨hin, hshown⟩ := List.mem_filter.1 hgiven
      rw [Finding.path_reportedBy, hmem]
      exact ⟨by simpa using hshown, given, hin, rfl⟩
    · intro path hpath
      have hsame : (((findings.filter fun finding => !review.ignores finding.path).map
          (·.reportedBy review.name)).filter fun finding => decide (finding.path = path))
            = (findings.filter fun finding => decide (finding.path = path)).map
                (·.reportedBy review.name) := by
        rw [List.filter_map, List.filter_filter]
        congr 1
        apply List.filter_congr
        intro finding _
        simp only [Function.comp_def, Finding.path_reportedBy]
        by_cases heq : finding.path = path
        · simp [heq, ((hmem path).1 hpath).1]
        · simp [heq]
      rw [hsame]
      exact hsorted path hpath

end Report

/-! ## Reviews and runs -/

variable {ε K : Type}

/-- The findings that a review reports of what is known of a project: none if nothing is known. -/
def Review.findings (review : Review ε K) : Option K → Except ε (List Finding)
  | none => .ok []
  | some knowledge => review.report knowledge

/-- The report on what is known arranges the findings. -/
theorem Review.arranges_reportOn {review : Review ε K} {known : Option K} {report : Report}
    (h : review.reportOn known = .ok report) :
    ∃ findings, review.findings known = .ok findings ∧ report.Arranges review findings := by
  cases known with
  | none =>
    obtain rfl : [] = report := Except.ok.inj h
    exact ⟨[], rfl, Report.arranges_hide review []⟩
  | some knowledge =>
    rw [reportOn, outcome_buildReport] at h
    obtain ⟨findings, hfindings, rfl⟩ := map_eq_ok.1 h
    exact ⟨findings, hfindings, Report.arranges_hide review findings⟩

/-- **Reports arrange what reviews find.** If a review reports some findings of what it knows, its
    report arranges just these. The report of a run arranges the findings that the review reports of
    all that is known after the run. -/
theorem reports_arrange_findings (review : Review ε K) :
    (∀ knowledge findings, review.report knowledge = .ok findings →
      ∃ report, (review.buildReport knowledge).outcome = .ok report ∧
        report.Arranges review findings) ∧
    ∀ (engine : Engine ε K) (delta : Delta) (result : RunResult ε K), engine.review = review →
      (engine.run delta).outcome = .ok result →
        ∃ known findings, result.next.cache.aggregate review = .ok known ∧
          review.findings known = .ok findings ∧ result.report.Arranges review findings := by
  constructor
  · intro knowledge findings hfindings
    refine ⟨_, ?_, Report.arranges_hide review findings⟩
    rw [Review.outcome_buildReport, hfindings]
    rfl
  · rintro engine delta result rfl hresult
    obtain ⟨-, ⟨known, hknown, hreport⟩, -⟩ := Engine.run_eq_ok hresult
    obtain ⟨findings, hfindings, harranges⟩ := Review.arranges_reportOn hreport
    exact ⟨known, findings, hknown, hfindings, harranges⟩

/-- Findings at three files in turn, two of them at one range. -/
def scatteredFindings : List Finding :=
  [⟨"b.py", .of 2 1 2 4, "late", [], [], ""⟩, ⟨"a.py", .of 1 1 1 2, "other file", [], [], ""⟩,
    ⟨"gen.py", .of 1 1 1 2, "hidden", [], [], ""⟩, ⟨"b.py", .of 1 5 1 6, "early", [], [], ""⟩,
    ⟨"b.py", .of 2 1 2 4, "late again", [], [], "guest"⟩]

/-- A review that reports them whatever it looks at, and is silent about one file. -/
def scatteringReview : Review Unit Unit where
  name := "scattering"
  inspectors := [.module fun _ => .ok (some ())]
  merge _ _ := .ok ()
  report _ := .ok scatteredFindings
  ignores path := path == "gen.py"

/-- The file that is reported first stands first, its findings in the order of their ranges, and a
    run over a single module reports the same. -/
theorem reports_arrange_findings_scattered :
    ∃ report, (scatteringReview.buildReport ()).outcome = .ok report ∧
      report.Arranges scatteringReview scatteredFindings ∧ report.keys = ["b.py", "a.py"] ∧
      report.toList.map (fun finding => (finding.message, finding.review)) =
        [("other file", "scattering"), ("early", "scattering"), ("late", "scattering"),
          ("late again", "guest")] ∧
      ∃ result, ((Engine.start scatteringReview {}).run
          { modules := [⟨"m.py", "", none⟩] }).outcome = .ok result ∧
        result.report.Arranges scatteringReview scatteredFindings := by
  obtain ⟨hbuilds, hruns⟩ := reports_arrange_findings scatteringReview
  obtain ⟨report, hreport, harranges⟩ := hbuilds () scatteredFindings rfl
  have hbuilt : ((scatteringReview.buildReport ()).outcome.map fun report => (report.keys,
      report.toList.map fun finding => (finding.message, finding.review))).toOption
        = some (["b.py", "a.py"], [("other file", "scattering"), ("early", "scattering"),
            ("late", "scattering"), ("late again", "guest")]) := by decide +kernel
  have hrun : (((Engine.start scatteringReview {}).run
      { modules := [⟨"m.py", "", none⟩] }).outcome.map fun result =>
        (result.next.cache.aggregate scatteringReview).toOption).toOption
          = some (some (some ())) := by decide +kernel
  obtain ⟨shown, hshown, hlists⟩ := map_eq_ok.1 (toOption_eq_some.1 hbuilt)
  obtain rfl : report = shown := Except.ok.inj (hreport.symm.trans hshown)
  obtain ⟨result, hresult, hleft⟩ := map_eq_ok.1 (toOption_eq_some.1 hrun)
  obtain ⟨known, findings, hknown, hfindings, hlisted⟩ := hruns _ _ result rfl hresult
  obtain rfl : some () = known :=
    Except.ok.inj ((toOption_eq_some.1 hleft).symm.trans hknown)
  obtain rfl : scatteredFindings = findings := Except.ok.inj hfindings
  exact ⟨report, hreport, harranges, congrArg Prod.fst hlists, congrArg Prod.snd hlists, result,
    hresult, hlisted⟩

end ProjectReview
