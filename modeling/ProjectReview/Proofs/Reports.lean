import ProjectReview.Proofs.Maps
import ProjectReview.Review.Basic

set_option autoImplicit false

/-! # Reports, file by file

What a report holds for a file, after each of the operations reports are made with. A report is
`Proper` when its files stand once, each with at least one finding, and every finding under its own
path; the reports of reviews are proper (`proper_buildReport`), and so is a merge of proper reports.

`get?_merge` says what a merge holds: for each file that some report names, the findings of all
reports for it, one report after the other, sorted by range; and `stableSorted_sortByRange` says
that this sort keeps findings at the same range in the order in which they came. -/

namespace ProjectReview

/-! ## The order by range -/

instance : Std.Total fun a b => Finding.rangeLe a b = true where
  total a b := by
    simp only [Finding.rangeLe, Range.upTo_iff]
    omega

instance : IsTrans Finding fun a b => Finding.rangeLe a b = true where
  trans a b c := by
    simp only [Finding.rangeLe, Range.upTo_iff]
    omega

namespace Report

theorem stableSorted_sortByRange (findings : List Finding) :
    StableSorted Finding.rangeLe findings (sortByRange findings) :=
  stableSorted_sortBy Finding.rangeLe findings

/-! ## Filing findings -/

theorem findingsOf_extend (report : Report) (path other : String) (findings : List Finding) :
    (report.extend path findings).findingsOf other
      = if path = other then report.findingsOf other ++ findings else report.findingsOf other := by
  rw [findingsOf, extend, Assoc.get?_set]
  by_cases h : path = other
  · simp [h, findingsOf]
  · simp [h, findingsOf]

theorem mem_keys_extend (report : Report) (path other : String) (findings : List Finding) :
    other ∈ (report.extend path findings).keys ↔ other = path ∨ other ∈ report.keys := by
  rw [extend, Assoc.keys_set]
  split
  · next h =>
    constructor
    · exact Or.inr
    · rintro (rfl | hother)
      · exact h
      · exact hother
  · rw [List.mem_append, List.mem_singleton, or_comm]

/-- Lists filed one after the other stand behind what was there, in that order. -/
theorem findingsOf_foldl_extend (entries : List (String × List Finding)) (report : Report)
    (path : String) :
    (entries.foldl (fun report entry => report.extend entry.1 entry.2) report).findingsOf path
      = report.findingsOf path ++
          (entries.filter fun entry => decide (entry.1 = path)).flatMap (·.2) := by
  induction entries generalizing report with
  | nil => simp
  | cons entry rest ih =>
    rw [List.foldl_cons, ih, findingsOf_extend]
    by_cases h : entry.1 = path
    · simp [h]
    · simp [h]

theorem mem_keys_foldl_extend (entries : List (String × List Finding)) (report : Report)
    (path : String) :
    path ∈ (entries.foldl (fun report entry => report.extend entry.1 entry.2) report).keys
      ↔ path ∈ report.keys ∨ path ∈ entries.map (·.1) := by
  induction entries generalizing report with
  | nil => simp
  | cons entry rest ih =>
    rw [List.foldl_cons, ih, mem_keys_extend, List.map_cons, List.mem_cons, or_assoc, or_left_comm]

/-- What a report holds for a file is what its entries for that path hold. -/
theorem flatMap_filter_eq_findingsOf {report : Report} (h : report.keys.Nodup) (path : String) :
    (report.filter fun entry => decide (entry.1 = path)).flatMap (·.2) = report.findingsOf path := by
  induction report with
  | nil => rfl
  | cons entry rest ih =>
    obtain ⟨k, findings⟩ := entry
    simp only [Assoc.keys, List.map_cons, List.nodup_cons] at h
    by_cases hk : k = path
    · subst hk
      have hrest : rest.filter (fun entry => decide (entry.1 = k)) = [] := by
        rw [List.filter_eq_nil_iff]
        intro entry hentry
        simp only [decide_eq_true_eq]
        exact fun heq => h.1 (heq ▸ List.mem_map_of_mem hentry)
      simp [hrest, findingsOf, Assoc.get?]
    · simpa [hk, findingsOf, Assoc.get?] using ih h.2

theorem get?_sortGroups (report : Report) (path : String) :
    (sortGroups report).get? path = (report.get? path).map sortByRange :=
  Assoc.get?_mapValues sortByRange report path

theorem keys_sortGroups (report : Report) : (sortGroups report).keys = report.keys :=
  Assoc.keys_mapValues sortByRange report

/-! ## Proper reports -/

/-- Every file stands once and with some finding, and every finding under its own path. -/
structure Proper (report : Report) : Prop where
  nodup : report.keys.Nodup
  filed : ∀ path findings, report.get? path = some findings →
    findings ≠ [] ∧ ∀ finding ∈ findings, finding.path = path

/-- A file that a report names has the findings that the report holds for it. -/
theorem get?_eq_some_findingsOf {report : Report} {path : String} (h : path ∈ report.keys) :
    report.get? path = some (report.findingsOf path) := by
  obtain ⟨findings, hfindings⟩ := (Assoc.mem_keys_iff report path).1 h
  rw [findingsOf, hfindings, Option.getD_some]

theorem Proper.empty : Proper [] where
  nodup := List.nodup_nil
  filed := by simp [Assoc.get?]

theorem Proper.extend {report : Report} (h : report.Proper) {path : String}
    {findings : List Finding} (hne : findings ≠ [])
    (hpath : ∀ finding ∈ findings, finding.path = path) : Proper (report.extend path findings) where
  nodup := Assoc.nodup_keys_set h.nodup _ _
  filed other found hfound := by
    rw [Report.extend, Assoc.get?_set] at hfound
    split at hfound
    · next hother =>
      subst hother
      rw [← Option.some.inj hfound]
      refine ⟨fun hnil => hne (List.append_eq_nil_iff.1 hnil).2, fun finding hfinding => ?_⟩
      rcases List.mem_append.1 hfinding with hold | hnew
      · cases hreport : report.get? path with
        | none => simp [hreport] at hold
        | some old =>
          rw [hreport, Option.getD_some] at hold
          exact (h.filed path old hreport).2 finding hold
      · exact hpath finding hnew
    · exact h.filed other found hfound

theorem Proper.foldl_extend {report : Report} (h : report.Proper)
    (entries : List (String × List Finding))
    (hentries : ∀ entry ∈ entries, entry.2 ≠ [] ∧ ∀ finding ∈ entry.2, finding.path = entry.1) :
    Proper (entries.foldl (fun report entry => Report.extend report entry.1 entry.2) report) := by
  induction entries generalizing report with
  | nil => exact h
  | cons entry rest ih =>
    obtain ⟨hne, hpath⟩ := hentries entry (List.mem_cons_self ..)
    exact ih (h.extend hne hpath) fun entry hentry => hentries entry (List.mem_cons_of_mem _ hentry)

theorem proper_group (findings : List Finding) : Proper (group findings) := by
  have hgroup := Proper.empty.foldl_extend (findings.map fun finding => (finding.path, [finding]))
    (by simp)
  rwa [List.foldl_map] at hgroup

theorem Proper.sortGroups {report : Report} (h : report.Proper) : Proper (sortGroups report) where
  nodup := by
    rw [keys_sortGroups]
    exact h.nodup
  filed path findings hfindings := by
    rw [get?_sortGroups] at hfindings
    obtain ⟨found, hfound, rfl⟩ := Option.map_eq_some_iff.1 hfindings
    obtain ⟨hne, hfiled⟩ := h.filed path found hfound
    have hperm := (stableSorted_sortByRange found).perm
    refine ⟨fun hnil => ?_, fun finding hfinding => hfiled finding (hperm.mem_iff.1 hfinding)⟩
    rw [hnil] at hperm
    exact hne hperm.symm.eq_nil

theorem Proper.hide {report : Report} (h : report.Proper) (ignores : String → Bool) :
    Proper (hide ignores report) where
  nodup := Assoc.nodup_keys_filter h.nodup _
  filed path findings hfindings := by
    have hget : (Report.hide ignores report).get? path
        = if !ignores path then report.get? path else none :=
      Assoc.get?_filter (fun path => !ignores path) report path
    rw [hget] at hfindings
    split at hfindings
    · exact h.filed path findings hfindings
    · exact absurd hfindings (by simp)

/-! ## Merging -/

theorem proper_merge (reports : List Report) (h : ∀ report ∈ reports, report.Proper) :
    Proper (merge reports) := by
  apply Proper.sortGroups
  apply Proper.empty.foldl_extend
  intro entry hentry
  obtain ⟨report, hreport, hentry⟩ := List.mem_flatten.1 hentry
  exact (h report hreport).filed entry.1 entry.2
    ((Assoc.get?_eq_some_iff (h report hreport).nodup _ _).2 hentry)

theorem mem_keys_merge (reports : List Report) (path : String) :
    path ∈ (merge reports).keys ↔ ∃ report ∈ reports, path ∈ report.keys := by
  rw [merge, keys_sortGroups, mem_keys_foldl_extend]
  simp only [Assoc.keys, List.map_nil, List.not_mem_nil, false_or, List.mem_map, List.mem_flatten]
  constructor
  · rintro ⟨entry, ⟨report, hreport, hentry⟩, rfl⟩
    exact ⟨report, hreport, entry, hentry, rfl⟩
  · rintro ⟨report, hreport, entry, hentry, rfl⟩
    exact ⟨entry, ⟨report, hreport, hentry⟩, rfl⟩

/-- **What a merge holds for a file**: the findings that the reports hold for it, one report after
    the other, sorted by range. -/
theorem get?_merge (reports : List Report) (h : ∀ report ∈ reports, report.keys.Nodup)
    {path : String} (hpath : path ∈ (merge reports).keys) :
    (merge reports).get? path
      = some (sortByRange (reports.flatMap fun report => report.findingsOf path)) := by
  have hconcat : (reports.flatten.filter fun entry => decide (entry.1 = path)).flatMap (·.2)
      = reports.flatMap fun report => report.findingsOf path := by
    rw [List.filter_flatten, List.flatMap_def, List.map_flatten, List.map_map, List.flatten_flatten,
      List.map_map, List.flatMap_def]
    congr 1
    apply List.map_congr_left
    intro report hreport
    exact flatMap_filter_eq_findingsOf (h report hreport) path
  rw [merge, keys_sortGroups] at hpath
  rw [merge, get?_sortGroups, get?_eq_some_findingsOf hpath, findingsOf_foldl_extend, hconcat]
  rfl

end Report

/-! ## What reviews report -/

theorem Review.outcome_buildReport {ε K : Type} (review : Review ε K) (knowledge : K) :
    (review.buildReport knowledge).outcome = (review.report knowledge).map fun findings =>
      Report.hide review.ignores
        (Report.sortGroups (Report.group (findings.map (·.reportedBy review.name)))) := by
  simp only [buildReport, Journaled.outcome_bind, Journaled.outcome_ofExcept]
  cases review.report knowledge with
  | error e => rfl
  | ok findings =>
    simp only [Except.bind]
    split <;> rfl

/-- What a review reports is proper. -/
theorem Review.proper_buildReport {ε K : Type} {review : Review ε K} {knowledge : K}
    {report : Report} (h : (review.buildReport knowledge).outcome = .ok report) :
    report.Proper := by
  rw [outcome_buildReport] at h
  cases hfindings : review.report knowledge with
  | error e => simp [hfindings, Except.map] at h
  | ok findings =>
    rw [hfindings] at h
    rw [← Except.ok.inj h]
    exact (Report.proper_group _).sortGroups.hide _

end ProjectReview
