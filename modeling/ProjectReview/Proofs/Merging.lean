import ProjectReview.Proofs.Arranging

set_option autoImplicit false

/-! # Merging in steps

Reports can be merged all at once, or some of them first and the rest later. A merge files the
entries of its reports under their paths and sorts every file (`filed`), so it is known by the order
in which paths first occur and by the sorted findings of each path (`sortGroups_filed_congr`).
Neither depends on whether some of the reports were merged before: leaving out repetitions early
does not change which occurrence is the first (`distinct_append_distinct`), and sorting a part of a
list early does not change its stable sort (`sortByRange_append`). So a merge inside of a merge can be
undone (`merge_append_merge`), and with it a whole `Bracketing` of merges.

The findings of a list, each as an entry of its own, are a report of this kind as well (`entriesOf`).
What is said of merges therefore holds of groupings: this is the last part of the main result,
`merges_agree`. -/

namespace ProjectReview

/-! ## First occurrences -/

section Distinct

variable {α : Type} [BEq α] [LawfulBEq α]

/-- First occurrences in two lists: those of the first, then those of the second that are new. -/
theorem distinct_append (xs ys : List α) :
    distinct (xs ++ ys) = distinct xs ++ (distinct ys).filter fun y => !xs.contains y := by
  induction ys using List.reverseRecOn with
  | nil => simp [distinct]
  | append_singleton ys y ih =>
    rw [← List.append_assoc, distinct_concat, distinct_concat, ih]
    by_cases hys : y ∈ ys
    · rw [if_pos hys, if_pos (List.mem_append_right xs hys)]
    · by_cases hxs : y ∈ xs
      · rw [if_neg hys, if_pos (List.mem_append_left ys hxs), List.filter_append]
        simp [hxs]
      · rw [if_neg hys, if_neg (by simp [hxs, hys]), List.filter_append, List.append_assoc]
        simp [hxs]

theorem distinct_of_nodup {xs : List α} (h : xs.Nodup) : distinct xs = xs := by
  induction xs using List.reverseRecOn with
  | nil => rfl
  | append_singleton xs x ih =>
    rw [List.nodup_append] at h
    rw [distinct_concat, if_neg fun hx => h.2.2 x hx x (by simp) rfl, ih h.1]

/-- Repetitions within a part of a list may be left out early. -/
theorem distinct_append_distinct (xs ys zs : List α) :
    distinct (xs ++ (distinct ys ++ zs)) = distinct (xs ++ (ys ++ zs)) := by
  have htail : distinct (distinct ys ++ zs) = distinct (ys ++ zs) := by
    rw [distinct_append, distinct_append, distinct_of_nodup (nodup_distinct ys)]
    simp [mem_distinct]
  rw [distinct_append, distinct_append xs, htail]

end Distinct

namespace Report

/-! ## Filing entries -/

/-- The entries filed under their paths, one after the other. -/
def filed (entries : List (String × List Finding)) : Report :=
  entries.foldl (fun report entry => report.extend entry.1 entry.2) []

/-- The findings that entries have for a path, one entry after the other. -/
def findingsAt (entries : List (String × List Finding)) (path : String) : List Finding :=
  (entries.filter fun entry => decide (entry.1 = path)).flatMap (·.2)

theorem merge_eq (reports : List Report) : merge reports = sortGroups (filed reports.flatten) := rfl

theorem keys_filed (entries : List (String × List Finding)) :
    (filed entries).keys = distinct (entries.map (·.1)) :=
  keys_foldl_extend entries []

theorem findingsOf_filed (entries : List (String × List Finding)) (path : String) :
    (filed entries).findingsOf path = findingsAt entries path :=
  findingsOf_foldl_extend entries [] path

theorem findingsAt_append (first second : List (String × List Finding)) (path : String) :
    findingsAt (first ++ second) path = findingsAt first path ++ findingsAt second path := by
  rw [findingsAt, List.filter_append, List.flatMap_append]
  rfl

/-- A report whose files stand once is the list of its files with what it holds for them. -/
theorem eq_map_keys {report : Report} (h : report.keys.Nodup) :
    report = report.keys.map fun path => (path, report.findingsOf path) := by
  induction report with
  | nil => rfl
  | cons entry rest ih =>
    obtain ⟨key, findings⟩ := entry
    obtain ⟨hkey, hrest⟩ := List.nodup_cons.1 h
    have hsame : ∀ path ∈ Assoc.keys rest,
        (path, findingsOf ((key, findings) :: rest) path) = (path, findingsOf rest path) := by
      intro path hpath
      have hne : key ≠ path := fun heq => hkey (heq ▸ hpath)
      rw [findingsOf, findingsOf, Assoc.get?, if_neg hne]
    have hfirst : findingsOf ((key, findings) :: rest) key = findings := by
      rw [findingsOf, Assoc.get?, if_pos rfl, Option.getD_some]
    rw [Assoc.keys, List.map_cons, List.map_cons, hfirst]
    congr 1
    rw [← Assoc.keys, List.map_congr_left hsame]
    exact ih hrest

/-- Reports with the same files in the same order and the same findings for each are the same. -/
theorem eq_of_keys {report other : Report} (h : report.keys.Nodup) (hkeys : report.keys = other.keys)
    (hfindings : ∀ path, report.findingsOf path = other.findingsOf path) : report = other := by
  calc report = report.keys.map fun path => (path, report.findingsOf path) := eq_map_keys h
    _ = other.keys.map fun path => (path, other.findingsOf path) := by simp only [hkeys, hfindings]
    _ = other := (eq_map_keys (hkeys ▸ h)).symm

theorem nodup_keys_filed (entries : List (String × List Finding)) : (filed entries).keys.Nodup := by
  rw [keys_filed]
  exact nodup_distinct _

/-- What is filed and sorted is known by the first occurrences of paths and by the sorted findings of
    each path. -/
theorem sortGroups_filed_congr {entries other : List (String × List Finding)}
    (hpaths : distinct (entries.map (·.1)) = distinct (other.map (·.1)))
    (hfindings : ∀ path, sortByRange (findingsAt entries path)
      = sortByRange (findingsAt other path)) :
    sortGroups (filed entries) = sortGroups (filed other) := by
  apply eq_of_keys
  · rw [keys_sortGroups]
    exact nodup_keys_filed entries
  · rw [keys_sortGroups, keys_sortGroups, keys_filed, keys_filed, hpaths]
  · intro path
    rw [findingsOf_sortGroups, findingsOf_sortGroups, findingsOf_filed, findingsOf_filed, hfindings]

/-! ## Undoing a merge inside of a merge -/

/-- A part of a list may be sorted early. -/
theorem sortByRange_append (first second third : List Finding) :
    sortByRange (first ++ (sortByRange second ++ third))
      = sortByRange (first ++ (second ++ third)) := by
  have hsecond := stableSorted_sortByRange second
  apply sortBy_congr
  · exact (hsecond.perm.append_right third).append_left first
  · intro a
    simp only [List.filter_append, hsecond.level a]

theorem findingsAt_merge (reports : List Report) (path : String) :
    findingsAt (merge reports) path = sortByRange (findingsAt reports.flatten path) := by
  have hnodup : (merge reports).keys.Nodup := by
    rw [merge_eq, keys_sortGroups]
    exact nodup_keys_filed _
  rw [findingsAt, flatMap_filter_eq_findingsOf hnodup, merge_eq, findingsOf_sortGroups,
    findingsOf_filed]

/-- **Some of the reports may be merged before the others.** -/
theorem merge_append_merge (before inner after : List Report) :
    merge (before ++ merge inner :: after) = merge (before ++ (inner ++ after)) := by
  have hpaths : (merge inner).map (·.1) = distinct (inner.flatten.map (·.1)) := by
    rw [← keys_filed, ← keys_sortGroups]
    rfl
  rw [merge_eq (before ++ merge inner :: after), merge_eq (before ++ (inner ++ after))]
  apply sortGroups_filed_congr
  · simp only [List.flatten_append, List.flatten_cons, List.map_append, hpaths,
      distinct_append_distinct]
  · intro path
    simp only [List.flatten_append, List.flatten_cons, findingsAt_append, findingsAt_merge,
      sortByRange_append]

/-- A way to merge reports: each is given as it is, or is itself a merge. -/
inductive Bracketing where
  | single (report : Report)
  | merged (parts : List Bracketing)

namespace Bracketing

mutual

/-- The report that comes out. -/
def value : Bracketing → Report
  | single report => report
  | merged parts => merge (values parts)

/-- The reports that come out of several. -/
def values : List Bracketing → List Report
  | [] => []
  | part :: rest => value part :: values rest

end

mutual

/-- The reports that are given, from left to right. -/
def reports : Bracketing → List Report
  | single report => [report]
  | merged parts => reportsOf parts

/-- The reports that are given to several, from left to right. -/
def reportsOf : List Bracketing → List Report
  | [] => []
  | part :: rest => reports part ++ reportsOf rest

end

mutual

/-- What comes out of a bracketing can be merged in its place, or all of its reports. -/
theorem merge_value (before : List Report) (part : Bracketing) (after : List Report) :
    merge (before ++ part.value :: after) = merge (before ++ (part.reports ++ after)) := by
  cases part with
  | single report => rw [value, reports, List.singleton_append]
  | merged parts => rw [value, merge_append_merge, merge_values before parts after, reports]

theorem merge_values (before : List Report) (parts : List Bracketing) (after : List Report) :
    merge (before ++ (values parts ++ after)) = merge (before ++ (reportsOf parts ++ after)) := by
  cases parts with
  | nil => rfl
  | cons part rest =>
    rw [values, reportsOf, List.cons_append, merge_value before part (values rest ++ after),
      ← List.append_assoc, merge_values (before ++ part.reports) rest after]
    simp only [List.append_assoc]

end

/-- **A merge of merges is the merge of all their reports.** -/
theorem value_merged (parts : List Bracketing) :
    (merged parts).value = merge (merged parts).reports := by
  have hvalues := merge_values [] parts []
  simp only [List.nil_append, List.append_nil] at hvalues
  rw [value, hvalues, reports]

end Bracketing

/-! ## Reports that are sorted, and groupings -/

theorem sortByRange_of_pairwise {findings : List Finding}
    (h : findings.Pairwise fun a b => a.rangeLe b = true) : sortByRange findings = findings := by
  rw [sortByRange, sortBy_eq_insertionSort]
  exact h.insertionSort_eq

/-- A report whose files stand once and are sorted is left as it is. -/
theorem merge_singleton {report : Report} (hnodup : report.keys.Nodup)
    (hsorted : ∀ entry ∈ report, entry.2.Pairwise fun a b => a.rangeLe b = true) :
    merge [report] = report := by
  have hfiled : filed report = report := by
    apply eq_of_keys (nodup_keys_filed report)
    · rw [keys_filed]
      exact distinct_of_nodup hnodup
    · intro path
      rw [findingsOf_filed, findingsAt, flatMap_filter_eq_findingsOf hnodup]
  rw [merge_eq, List.flatten_singleton, hfiled, sortGroups]
  conv_rhs => rw [← List.map_id report]
  apply List.map_congr_left
  rintro ⟨path, findings⟩ hentry
  exact congrArg (Prod.mk path) (sortByRange_of_pairwise (hsorted _ hentry))

/-- Each finding as an entry of its own. -/
def entriesOf (findings : List Finding) : Report :=
  findings.map fun finding => (finding.path, [finding])

/-- A grouping is the merge of a single report. -/
theorem sortGroups_group (findings : List Finding) :
    sortGroups (group findings) = merge [entriesOf findings] := by
  rw [merge_eq, List.flatten_singleton, entriesOf, filed, List.foldl_map]
  rfl

/-- **Groupings merge to the grouping of everything.** -/
theorem merge_groups (lists : List (List Finding)) :
    merge (lists.map fun findings => sortGroups (group findings))
      = sortGroups (group lists.flatten) := by
  have hundone : ∀ before : List Report, merge (before ++ lists.map fun findings =>
      merge [entriesOf findings]) = merge (before ++ lists.map entriesOf) := by
    induction lists with
    | nil => exact fun before => rfl
    | cons findings rest ih =>
      intro before
      rw [List.map_cons, merge_append_merge, ← List.append_assoc, ih, List.append_assoc]
      rfl
  simp only [sortGroups_group]
  calc merge (lists.map fun findings => merge [entriesOf findings])
      = merge (lists.map entriesOf) := hundone []
    _ = merge [entriesOf lists.flatten] := by
        rw [merge_eq, merge_eq, List.flatten_singleton, entriesOf, List.map_flatten]
        rfl

/-- **Merges agree however they are bracketed, and they agree with grouping.** Reports merged in
    whatever brackets give the same files in the same order with the same lists as all of them merged
    at once; in particular some first reports may be merged before the rest. A single report whose
    files stand once and are sorted is left as it is. And the sorted groupings of several lists of
    findings merge to the sorted grouping of these lists one after the other. -/
theorem merges_agree :
    (∀ parts : List Bracketing, (Bracketing.merged parts).value
      = merge (Bracketing.merged parts).reports) ∧
    (∀ first rest : List Report, merge (merge first :: rest) = merge (first ++ rest)) ∧
    (∀ report : Report, report.keys.Nodup →
      (∀ entry ∈ report, entry.2.Pairwise fun a b => a.rangeLe b = true) →
        merge [report] = report) ∧
    ∀ lists : List (List Finding), merge (lists.map fun findings => sortGroups (group findings))
      = sortGroups (group lists.flatten) :=
  ⟨Bracketing.value_merged, fun first rest => merge_append_merge [] first rest,
    fun _ hnodup hsorted => merge_singleton hnodup hsorted, merge_groups⟩

/-- Three reports that tie at one range, one of them unsorted and with an empty list: in all brackets
    the ties stay in the order of the reports, and a merge is left as it is by another one. -/
theorem merges_agree_ties :
    let early : Finding := ⟨"a.py", .of 1 1 1 2, "early", [], [], "x"⟩
    let late (review : String) : Finding := ⟨"a.py", .of 2 1 2 4, "late", [], [], review⟩
    let first : Report := [("b.py", []), ("a.py", [late "x", early])]
    let second : Report := [("a.py", [late "y"]), ("c.py", [early])]
    let third : Report := [("c.py", []), ("a.py", [late "z"])]
    let whole : Report := [("b.py", []), ("a.py", [early, late "x", late "y", late "z"]),
      ("c.py", [early])]
    merge [merge [first, second], third] = whole ∧
      (Bracketing.merged [.merged [], .single first, .merged [.single second, .single third]]).value
        = whole ∧
      whole.keys.Nodup ∧
      (∀ entry ∈ whole, entry.2.Pairwise fun a b => a.rangeLe b = true) ∧ merge [whole] = whole ∧
      merge [sortGroups (group [late "x", early]), sortGroups (group [late "y"])]
        = [("a.py", [early, late "x", late "y"])] := by
  intro early late first second third whole
  obtain ⟨hbracketed, hfirst, hsingle, hgroups⟩ := merges_agree
  have hwhole : merge [first, second, third] = whole := by decide +kernel
  have hnodup : whole.keys.Nodup := by decide
  have hsorted : ∀ entry ∈ whole, entry.2.Pairwise fun a b => a.rangeLe b = true := by
    decide +kernel
  refine ⟨(hfirst [first, second] [third]).trans hwhole, ?_, hnodup, hsorted,
    hsingle whole hnodup hsorted, ?_⟩
  · rw [hbracketed]
    exact hwhole
  · refine (hgroups [[late "x", early], [late "y"]]).trans ?_
    decide +kernel

end Report

end ProjectReview
