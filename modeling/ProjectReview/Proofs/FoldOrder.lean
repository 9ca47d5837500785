import ProjectReview.Catalog.Marker
import ProjectReview.Catalog.UndocumentedDependency
import ProjectReview.Catalog.UnusedBinding
import ProjectReview.Proofs.Arranging
import ProjectReview.Proofs.Folding

set_option autoImplicit false

/-! # Reviews whose knowledge may be folded in any order

The reviews of the catalog merge knowledge by putting lists behind each other, so the order of a
fold can be seen in what comes out. It cannot be seen in the report. What such a review reports is
put together from blocks, one for each part that it has knowledge of (`InBlocks`), and the report
sorts the findings of each file by range. Blocks may therefore change places as long as findings
that tie, at one range of one file, are the same or come from one block (`sortByRange_blocks`,
`reports_agree`).

That ties are harmless has a different reason for each review. Two marks at one place give the same
finding. The bindings of a file come from one module, since a cache knows each path once
(`pairwise_modules`). Only the manifest declares dependencies and has a path to report them at
(`pairwise_declared`). Names that are read or mentioned are looked up in all blocks together, and
there the order does not count.

The main result, `catalog_folds_in_any_order`, is about all three reviews. -/

namespace ProjectReview

/-! ## Blocks that change places -/

section Blocks

variable {α : Type}

theorem append_comm_of_forall_eq {xs ys : List α} (h : ∀ x ∈ xs, ∀ y ∈ ys, x = y) :
    xs ++ ys = ys ++ xs := by
  cases xs with
  | nil => rw [List.nil_append, List.append_nil]
  | cons x xs =>
    cases ys with
    | nil => rw [List.nil_append, List.append_nil]
    | cons y ys =>
      have hxs : x :: xs = List.replicate (xs.length + 1) y :=
        List.eq_replicate_of_mem fun z hz => h z hz y List.mem_cons_self
      have hys : y :: ys = List.replicate (ys.length + 1) y := by
        refine List.eq_replicate_of_mem fun z hz => ?_
        rw [← h x List.mem_cons_self z hz, h x List.mem_cons_self y List.mem_cons_self]
      rw [hxs, hys, List.replicate_append_replicate, List.replicate_append_replicate, Nat.add_comm]

/-- Blocks of which any two may be exchanged may be put in any order. -/
theorem flatten_eq_of_perm {blocks others : List (List α)} (hperm : blocks.Perm others)
    (h : blocks.Pairwise fun a b => a ++ b = b ++ a) : blocks.flatten = others.flatten := by
  induction hperm with
  | nil => rfl
  | cons block _ ih => rw [List.flatten_cons, List.flatten_cons, ih (List.pairwise_cons.1 h).2]
  | swap a b rest =>
    have hswap := (List.pairwise_cons.1 h).1 a List.mem_cons_self
    simp only [List.flatten_cons, ← List.append_assoc, hswap]
  | trans hperm _ ih ih' =>
    rw [ih h, ih' ((hperm.pairwise_iff fun {a b} hcomm => hcomm.symm).1 h)]

end Blocks

/-- Findings at one range of one file, one from each list, are the same. -/
def AgreeAtTies (xs ys : List Finding) : Prop :=
  ∀ x ∈ xs, ∀ y ∈ ys, x.path = y.path → x.range = y.range → x = y

theorem Finding.range_eq_of_level {a b : Finding} (h : (a.rangeLe b && b.rangeLe a) = true) :
    a.range = b.range := by
  obtain ⟨path, ⟨⟨a1, a2⟩, ⟨a3, a4⟩⟩, _⟩ := a
  obtain ⟨path', ⟨⟨b1, b2⟩, ⟨b3, b4⟩⟩, _⟩ := b
  simp only [rangeLe, Bool.and_eq_true, Range.upTo_iff] at h
  simp only [Range.mk.injEq, Position.mk.injEq]
  omega

theorem Finding.range_reportedBy (finding : Finding) (review : String) :
    (finding.reportedBy review).range = finding.range := by
  unfold reportedBy
  split_ifs <;> rfl

namespace Report

/-- **Blocks that agree at ties may change places** without a change to the sorted findings of a
    file. -/
theorem sortByRange_blocks {blocks others : List (List Finding)} (hperm : blocks.Perm others)
    (hties : blocks.Pairwise AgreeAtTies) (path : String) :
    sortByRange (blocks.flatten.filter fun finding => decide (finding.path = path))
      = sortByRange (others.flatten.filter fun finding => decide (finding.path = path)) := by
  apply sortBy_congr
  · exact hperm.flatten.filter _
  · intro a
    -- The findings level with `a` make blocks of their own, and these hold one finding at most.
    rw [List.filter_filter, List.filter_filter, List.filter_flatten, List.filter_flatten]
    apply flatten_eq_of_perm (hperm.map _)
    rw [List.pairwise_map]
    refine hties.imp ?_
    intro block other hagree
    apply append_comm_of_forall_eq
    intro x hx y hy
    obtain ⟨hx, hxa⟩ := List.mem_filter.1 hx
    obtain ⟨hy, hya⟩ := List.mem_filter.1 hy
    rw [Bool.and_eq_true, decide_eq_true_eq] at hxa hya
    have hrange : x.range = y.range :=
      (Finding.range_eq_of_level hxa.1).symm.trans (Finding.range_eq_of_level hya.1)
    exact hagree x hx y hy (hxa.2.trans hya.2.symm) hrange

theorem get?_sortGroups_group (findings : List Finding) (path : String) :
    (sortGroups (group findings)).get? path
      = match findings.filter fun finding => decide (finding.path = path) with
        | [] => none
        | first :: rest => some (sortByRange (first :: rest)) := by
  have hkey : path ∈ (group findings).keys ↔
      findings.filter (fun finding => decide (finding.path = path)) ≠ [] := by
    simp [keys_group, mem_distinct, List.filter_eq_nil_iff]
  rw [get?_sortGroups]
  split
  · next hnone =>
    rw [(Assoc.get?_eq_none_iff _ _).2 fun hmem => hkey.1 hmem hnone]
    rfl
  · next first rest hsome =>
    rw [get?_eq_some_findingsOf (hkey.2 (by simp [hsome])), findingsOf_group, hsome]
    rfl

/-- A report is known, as a map, by the sorted findings of each file. -/
theorem get?_arranged_congr {findings others : List Finding}
    (h : ∀ path, sortByRange (findings.filter fun finding => decide (finding.path = path))
      = sortByRange (others.filter fun finding => decide (finding.path = path)))
    (ignores : String → Bool) (path : String) :
    (hide ignores (sortGroups (group findings))).get? path
      = (hide ignores (sortGroups (group others))).get? path := by
  have hget : ∀ report : Report, (hide ignores report).get? path
      = if !ignores path then report.get? path else none :=
    fun report => Assoc.get?_filter (fun path => !ignores path) report path
  have hsame : (sortGroups (group findings)).get? path = (sortGroups (group others)).get? path := by
    have hlength := congrArg List.length (h path)
    have hpath := h path
    simp only [sortByRange, length_sortBy] at hlength
    rw [get?_sortGroups_group, get?_sortGroups_group]
    generalize findings.filter _ = xs at hlength hpath ⊢
    generalize others.filter _ = ys at hlength hpath ⊢
    cases xs with
    | nil =>
      cases ys with
      | nil => rfl
      | cons y ys => cases hlength
    | cons x xs =>
      cases ys with
      | nil => cases hlength
      | cons y ys => exact congrArg some hpath
  rw [hget, hget, hsame]

end Report

/-! ## Reviews that report in blocks -/

section InBlocks

variable {ε K : Type} {review : Review ε K} {op : K → K → K} {block : List K → K → List Finding}

/-- Merging never fails, and what the review reports of merged values is put together from what each
    of them adds, with all of them known. -/
structure InBlocks (review : Review ε K) (op : K → K → K) (block : List K → K → List Finding) :
    Prop where
  merge : ∀ a b, review.merge a b = .ok (op a b)
  report : ∀ first rest, review.report (rest.foldl op first)
    = .ok ((first :: rest).flatMap (block (first :: rest)))

theorem foldKnowledge_eq_foldFlat (merge : K → K → Except ε K) (values : List (Option K)) :
    foldKnowledge merge values = foldFlat merge values.reduceOption := by
  rw [← foldKnowledge_some]
  exact foldlM_reduceOption values none

theorem InBlocks.foldFlat_cons (h : InBlocks review op block) (first : K) (rest : List K) :
    foldFlat review.merge (first :: rest) = .ok (some (rest.foldl op first)) := by
  have hfold : rest.foldlM review.merge first = .ok (rest.foldl op first) := by
    induction rest generalizing first with
    | nil => rfl
    | cons next rest ih =>
      rw [List.foldlM_cons, h.merge]
      exact ih (op first next)
  rw [foldFlat, hfold]
  rfl

/-- The report on values that are folded from the left. -/
theorem InBlocks.reportOn_fold (h : InBlocks review op block) (known : List K) :
    (foldFlat review.merge known).bind review.reportOn
      = .ok (Report.hide review.ignores (Report.sortGroups (Report.group
          ((known.map fun value =>
            (block known value).map (·.reportedBy review.name)).flatten)))) := by
  cases known with
  | nil => rfl
  | cons first rest =>
    rw [h.foldFlat_cons]
    show (review.buildReport _).outcome = _
    rw [Review.outcome_buildReport, h.report, List.flatMap_def]
    simp only [Except.map, List.map_flatten, List.map_map, Function.comp_def]

/-- **Values may be folded in any order** if what they add to the report does not depend on it and
    agrees at ties. -/
theorem InBlocks.reports_agree (h : InBlocks review op block) {values others : List (Option K)}
    (hperm : others.Perm values)
    (hblock : block others.reduceOption = block values.reduceOption)
    (hties : values.reduceOption.Pairwise fun a b =>
      AgreeAtTies (block values.reduceOption a) (block values.reduceOption b)) :
    ∃ report other, (foldKnowledge review.merge values).bind review.reportOn = .ok report ∧
      (foldKnowledge review.merge others).bind review.reportOn = .ok other ∧
      ∀ path, other.get? path = report.get? path := by
  rw [foldKnowledge_eq_foldFlat, foldKnowledge_eq_foldFlat, h.reportOn_fold, h.reportOn_fold]
  refine ⟨_, _, rfl, rfl, fun path => (Report.get?_arranged_congr ?_ review.ignores path).symm⟩
  rw [hblock]
  apply Report.sortByRange_blocks
  · exact (hperm.symm.filterMap id).map _
  · rw [List.pairwise_map]
    refine hties.imp ?_
    intro a b hagree _ hfirst _ hsecond hpath hrange
    obtain ⟨x, hx, rfl⟩ := List.mem_map.1 hfirst
    obtain ⟨y, hy, rfl⟩ := List.mem_map.1 hsecond
    rw [Finding.path_reportedBy, Finding.path_reportedBy] at hpath
    rw [Finding.range_reportedBy, Finding.range_reportedBy] at hrange
    rw [hagree x hx y hy hpath hrange]

end InBlocks

/-! ## What a first look knows -/

section FirstLook

variable {ε K : Type} {review : Review ε K} {cache : Cache K}

/-- What a first look at a project draws from it. -/
theorem Cache.drawn_of_update {pooled : Bool} {delta : Delta}
    (h : (Cache.empty.update review pooled delta).outcome = .ok cache) :
    (manifestKnowledge review delta.manifest).outcome = .ok cache.manifest ∧
      (review.extract (.dependencies delta.dependencies)).outcome = .ok cache.dependencies ∧
      cache.UpToDate review (({} : Project).apply delta) := by
  have hagree := Cache.update_agree (.empty review) .empty delta pooled false
  obtain ⟨_, -, -, hcurrent, -⟩ := hagree.exists_ok h
  unfold update at h
  simp only [Journaled.outcome_bind, Journaled.outcome_pure, Journaled.outcome_note] at h
  obtain ⟨manifest, hmanifest, h⟩ := bind_eq_ok.1 h
  obtain ⟨dependencies, hdependencies, h⟩ := bind_eq_ok.1 h
  obtain ⟨modules, -, h⟩ := bind_eq_ok.1 h
  obtain ⟨extraFiles, -, h⟩ := bind_eq_ok.1 h
  rw [← Except.ok.inj h] at hcurrent ⊢
  exact ⟨hmanifest, hdependencies, hcurrent⟩

/-- What is known at a path was drawn from a file of that path. -/
theorem Knows.drawn_from {α : Type} {pathOf : α → String} {toPart : α → Part} {files : Assoc α}
    {known : Assoc K} (h : Knows review (partsOf toPart files) known)
    (hfiled : Project.Filed pathOf files) {entry : String × K} (hentry : entry ∈ known) :
    ∃ file, pathOf file = entry.1 ∧
      (review.extract (toPart file)).outcome = .ok (some entry.2) := by
  have hknown : known.get? entry.1 = some entry.2 :=
    (Assoc.get?_eq_some_iff h.nodup _ _).2 hentry
  cases hfile : files.get? entry.1 with
  | none =>
    have hnone := h.gone entry.1 (by rw [get?_partsOf, hfile, Option.map_none])
    rw [hknown] at hnone
    cases hnone
  | some file =>
    have hdrawn := h.drawn entry.1 (toPart file) (by rw [get?_partsOf, hfile, Option.map_some])
    exact ⟨file, hfiled.path _ _ hfile, hdrawn.trans (by rw [hknown])⟩

/-- Nothing is known of files in which nothing is found. -/
theorem Knows.eq_nil {α : Type} {pathOf : α → String} {toPart : α → Part} {files : Assoc α}
    {known : Assoc K} (h : Knows review (partsOf toPart files) known)
    (hfiled : Project.Filed pathOf files)
    (hnone : ∀ file, (review.extract (toPart file)).outcome = .ok none) : known = [] := by
  refine List.eq_nil_iff_forall_not_mem.2 fun entry hentry => ?_
  obtain ⟨file, -, hfile⟩ := h.drawn_from hfiled hentry
  rw [hnone file] at hfile
  cases hfile

theorem outcome_extract_of_none {part : Part}
    (h : (review.inspectors.filter fun inspector => inspector.kind = part.kind) = []) :
    (review.extract part).outcome = .ok none := by
  rw [Review.extract, Review.inspectorsOf, h]
  rfl

/-- A single inspector finds what is known of a part. -/
theorem outcome_extract_of_single {part : Part} (inspector : Inspector ε K)
    (h : (review.inspectors.filter fun inspector => inspector.kind = part.kind) = [inspector]) :
    (review.extract part).outcome = inspector.inspect part := by
  rw [Review.extract, Review.inspectorsOf, h]
  show (extractFrom _ _ _ _ [(0, inspector)]).outcome = _
  simp only [extractFrom, Journaled.outcome_bind, Journaled.outcome_note,
    Journaled.outcome_ofExcept, Journaled.outcome_pure]
  cases inspector.inspect part with
  | error fault => rfl
  | ok value => cases value <;> rfl

end FirstLook

/-! ## The reviews of the catalog -/

/-- The review's merge is associative, and what it knows of the parts of a project at a first look
    may be folded in any order: the report finds the same at every path. -/
def FoldsInAnyOrder {ε K : Type} (review : Review ε K) : Prop :=
  AssociativeMerge review.merge ∧
    ∀ (pooled : Bool) (delta : Delta) (cache : Cache K),
      (Cache.empty.update review pooled delta).outcome = .ok cache →
        ∀ values, values.Perm cache.values →
          ∃ report other, (cache.aggregate review).bind review.reportOn = .ok report ∧
            (foldKnowledge review.merge values).bind review.reportOn = .ok other ∧
            ∀ path, other.get? path = report.get? path

/-- Lists that are put behind each other at each step are put behind each other by a fold. -/
theorem list_of_foldl {K α : Type} {op : K → K → K} (list : K → List α)
    (h : ∀ a b, list (op a b) = list a ++ list b) (first : K) (rest : List K) :
    list (rest.foldl op first) = (first :: rest).flatMap list := by
  induction rest generalizing first with
  | nil => simp
  | cons next rest ih =>
    rw [List.foldl_cons, ih, List.flatMap_cons, h, List.flatMap_cons, List.flatMap_cons,
      List.append_assoc]

theorem contains_flatMap_of_perm {K : Type} {known others : List K} (h : others.Perm known)
    (list : K → List String) (name : String) :
    (others.flatMap list).contains name = (known.flatMap list).contains name := by
  rw [Bool.eq_iff_iff, List.contains_iff_mem, List.contains_iff_mem]
  exact (h.flatMap_right list).mem_iff

/-! ### Marks -/

/-- The finding at a mark. -/
def markFinding (word : String) (mark : Mark) : Finding :=
  { path := mark.path, range := mark.range word, message := "found `" ++ word ++ "`" }

theorem inBlocks_marker (settings : MarkerSettings) :
    InBlocks (markerReview settings) (· ++ ·)
      fun _ marks => marks.map (markFinding settings.word) where
  merge _ _ := rfl
  report first rest := by
    have hmarks : rest.foldl (· ++ ·) first = (first :: rest).flatMap id :=
      list_of_foldl id (fun _ _ => rfl) first rest
    rw [hmarks, ← List.map_flatMap]
    rfl

/-- Marks at one place give the same finding. -/
theorem markerReview_foldsInAnyOrder (settings : MarkerSettings) :
    FoldsInAnyOrder (markerReview settings) := by
  constructor
  · intro a b c
    exact congrArg Except.ok (List.append_assoc a b c)
  · intro pooled delta cache _ values hperm
    refine (inBlocks_marker settings).reports_agree hperm rfl ?_
    refine List.pairwise_of_forall fun a b x hx y hy hpath hrange => ?_
    obtain ⟨mark, -, rfl⟩ := List.mem_map.1 hx
    obtain ⟨other, -, rfl⟩ := List.mem_map.1 hy
    simp only [markFinding] at hpath hrange ⊢
    rw [hpath, hrange]

/-! ### Bindings -/

/-- The knowledge of two groups of modules together. -/
def Bindings.append (a b : Bindings) : Bindings :=
  ⟨a.defined ++ b.defined, a.used ++ b.used⟩

/-- The finding of a binding that is never used. -/
def bindingFinding (b : BoundName) : Finding :=
  { path := b.path
    range := b.nameRange
    message := "`" ++ b.name ++ "` is never used"
    details := ["Remove the assignment."]
    fixes := [Fix.removal b.removal] }

/-- What the bindings of a module add to the report, when all that is read is known. -/
def unusedFindings (known : List Bindings) (bindings : Bindings) : List Finding :=
  (bindings.defined.filter fun b =>
    !(known.flatMap Bindings.used).contains b.name && !startsWith b.name "_").map bindingFinding

theorem inBlocks_unusedBinding :
    InBlocks unusedBindingReview Bindings.append unusedFindings where
  merge _ _ := rfl
  report first rest := by
    have hdefined := list_of_foldl Bindings.defined
      (show ∀ a b, (Bindings.append a b).defined = _ from fun _ _ => rfl) first rest
    have hused := list_of_foldl Bindings.used
      (show ∀ a b, (Bindings.append a b).used = _ from fun _ _ => rfl) first rest
    show Except.ok _ = Except.ok _
    rw [hdefined, hused, List.filter_flatMap, List.map_flatMap]
    rfl

/-- What is known of modules has different paths in its bindings, since each path is known once. -/
theorem pairwise_modules {pooled : Bool} {delta : Delta} {cache : Cache Bindings}
    (h : (Cache.empty.update unusedBindingReview pooled delta).outcome = .ok cache) :
    cache.values.reduceOption.Pairwise fun a b =>
      ∀ x ∈ a.defined, ∀ y ∈ b.defined, x.path ≠ y.path := by
  obtain ⟨hmanifest, hdependencies, hcurrent⟩ := Cache.drawn_of_update h
  have hfiled := Project.WellFiled.empty.apply delta
  have hmanifest : cache.manifest = none := by
    cases hfound : delta.manifest with
    | none =>
      rw [hfound] at hmanifest
      exact (Except.ok.inj hmanifest).symm
    | some m =>
      rw [hfound] at hmanifest
      exact (Except.ok.inj ((outcome_extract_of_none rfl).symm.trans hmanifest)).symm
  have hdependencies : cache.dependencies = none :=
    (Except.ok.inj ((outcome_extract_of_none rfl).symm.trans hdependencies)).symm
  have hextraFiles : cache.extraFiles = [] :=
    hcurrent.extraFiles.eq_nil hfiled.extraFiles fun file => outcome_extract_of_none rfl
  have hpath : ∀ entry ∈ Project.sortedEntries cache.modules, ∀ b ∈ entry.2.defined,
      b.path = entry.1 := by
    intro entry hentry b hb
    obtain ⟨m, hpath, hm⟩ := hcurrent.modules.drawn_from hfiled.modules
      ((perm_sortedEntries _).mem_iff.1 hentry)
    rw [outcome_extract_of_single (.module inspectBindings) rfl] at hm
    change inspectBindings m = _ at hm
    rw [inspectBindings] at hm
    split at hm
    · cases hm
    · rw [← Option.some.inj (Except.ok.inj hm)] at hb
      obtain ⟨_, -, rfl⟩ := List.mem_map.1 hb
      exact hpath
  have hvalues : cache.values.reduceOption = (Project.sortedEntries cache.modules).map (·.2) := by
    rw [Cache.values, hmanifest, hdependencies, hextraFiles]
    simp [List.reduceOption, Project.sortedEntries, sortBy, List.filterMap_map]
  rw [hvalues, List.pairwise_map]
  refine (pairwise_lt_sortedEntries hcurrent.modules.nodup).imp_of_mem ?_
  intro a b ha hb hlt x hx y hy heq
  rw [hpath a ha x hx, hpath b hb y hy] at heq
  exact absurd heq (ne_of_lt hlt)

/-- Bindings of one file come from one module. -/
theorem unusedBindingReview_foldsInAnyOrder : FoldsInAnyOrder unusedBindingReview := by
  constructor
  · intro a b c
    refine congrArg Except.ok ?_
    rw [Bindings.mk.injEq]
    exact ⟨List.append_assoc _ _ _, List.append_assoc _ _ _⟩
  · intro pooled delta cache hcache values hperm
    refine inBlocks_unusedBinding.reports_agree hperm ?_ ?_
    · funext bindings
      simp only [unusedFindings, contains_flatMap_of_perm (hperm.filterMap id) Bindings.used,
        List.reduceOption]
    · refine (pairwise_modules hcache).imp ?_
      intro a b hpaths x hx y hy hpath
      obtain ⟨first, hfirst, rfl⟩ := List.mem_map.1 hx
      obtain ⟨second, hsecond, rfl⟩ := List.mem_map.1 hy
      exact absurd hpath (hpaths first (List.mem_filter.1 hfirst).1 second
        (List.mem_filter.1 hsecond).1)

/-! ### Declared and mentioned names -/

namespace DocumentedNames

/-- What is declared and mentioned in two groups of parts together. -/
def append (a b : DocumentedNames) : DocumentedNames :=
  ⟨a.declared ++ b.declared, a.mentioned ++ b.mentioned,
    if a.manifestPath = "" then b.manifestPath else a.manifestPath⟩

/-- Nothing is declared, and no path is given for it. -/
def DeclaresNothing (names : DocumentedNames) : Prop :=
  names.declared = [] ∧ names.manifestPath = ""

end DocumentedNames

/-- The first path that is not empty; the empty one if there is none. -/
def firstPath : List DocumentedNames → String
  | [] => ""
  | names :: rest => if names.manifestPath = "" then firstPath rest else names.manifestPath

theorem manifestPath_of_foldl (first : DocumentedNames) (rest : List DocumentedNames) :
    (rest.foldl DocumentedNames.append first).manifestPath = firstPath (first :: rest) := by
  induction rest generalizing first with
  | nil =>
    rw [firstPath, firstPath, List.foldl_nil]
    split_ifs with hempty
    · exact hempty
    · rfl
  | cons next rest ih =>
    rw [List.foldl_cons, ih, firstPath, firstPath, firstPath, DocumentedNames.append]
    split_ifs <;> simp_all

/-- If at most one path is not empty, it is the first such path in every order. -/
theorem firstPath_of_perm {known others : List DocumentedNames} (hperm : known.Perm others)
    (h : known.Pairwise fun a b => a.DeclaresNothing ∨ b.DeclaresNothing) :
    firstPath known = firstPath others := by
  induction hperm with
  | nil => rfl
  | cons names _ ih => rw [firstPath, firstPath, ih (List.pairwise_cons.1 h).2]
  | swap a b rest =>
    have hone := (List.pairwise_cons.1 h).1 a List.mem_cons_self
    simp only [firstPath]
    rcases hone with ⟨-, hempty⟩ | ⟨-, hempty⟩
    · rw [hempty, if_pos rfl, if_pos rfl]
    · rw [hempty, if_pos rfl, if_pos rfl]
  | trans hperm _ ih ih' => rw [ih h, ih' ((hperm.pairwise_iff fun {a b} => Or.symm).1 h)]

/-- What a part adds to the report by what it declares, when all that is mentioned and the path of
    the manifest are known. -/
def undocumentedFindings (known : List DocumentedNames) (names : DocumentedNames) :
    List Finding :=
  (names.declared.filter fun entry =>
    !(known.flatMap DocumentedNames.mentioned).contains entry.1).map fun entry =>
      { path := firstPath known
        range := entry.2
        message := "dependency `" ++ entry.1 ++ "` is not documented" }

theorem inBlocks_undocumentedDependency :
    InBlocks undocumentedDependencyReview DocumentedNames.append undocumentedFindings where
  merge _ _ := rfl
  report first rest := by
    have hdeclared := list_of_foldl DocumentedNames.declared
      (show ∀ a b, (DocumentedNames.append a b).declared = _ from fun _ _ => rfl) first rest
    have hmentioned := list_of_foldl DocumentedNames.mentioned
      (show ∀ a b, (DocumentedNames.append a b).mentioned = _ from fun _ _ => rfl) first rest
    show Except.ok _ = Except.ok _
    rw [hdeclared, hmentioned, manifestPath_of_foldl, List.filter_flatMap, List.map_flatMap]
    rfl

/-- Of two parts one is not the manifest, and there nothing is declared. -/
theorem pairwise_declared {pooled : Bool} {delta : Delta} {cache : Cache DocumentedNames}
    (h : (Cache.empty.update undocumentedDependencyReview pooled delta).outcome = .ok cache) :
    cache.values.reduceOption.Pairwise fun a b => a.DeclaresNothing ∨ b.DeclaresNothing := by
  obtain ⟨-, hdependencies, hcurrent⟩ := Cache.drawn_of_update h
  have hfiled := Project.WellFiled.empty.apply delta
  have hdependencies : cache.dependencies = none :=
    (Except.ok.inj ((outcome_extract_of_none rfl).symm.trans hdependencies)).symm
  have hmodules : cache.modules = [] :=
    hcurrent.modules.eq_nil hfiled.modules fun m => outcome_extract_of_none rfl
  have hextra : ∀ entry ∈ Project.sortedEntries cache.extraFiles, entry.2.DeclaresNothing := by
    intro entry hentry
    obtain ⟨file, -, hfile⟩ := hcurrent.extraFiles.drawn_from hfiled.extraFiles
      ((perm_sortedEntries _).mem_iff.1 hentry)
    rw [outcome_extract_of_single (.extraFile inspectMentioned) rfl] at hfile
    rw [← Option.some.inj (Except.ok.inj hfile)]
    exact ⟨rfl, rfl⟩
  have hvalues : cache.values.reduceOption
      = cache.manifest.toList ++ (Project.sortedEntries cache.extraFiles).map (·.2) := by
    rw [Cache.values, hdependencies, hmodules]
    cases cache.manifest <;> simp [List.reduceOption, Project.sortedEntries, sortBy,
      List.filterMap_map]
  rw [hvalues, List.pairwise_append]
  refine ⟨?_, ?_, ?_⟩
  · cases cache.manifest <;> simp
  · rw [List.pairwise_map]
    exact List.pairwise_of_forall_mem_list fun a ha b hb => Or.inl (hextra a ha)
  · intro a _ b hb
    obtain ⟨entry, hentry, rfl⟩ := List.mem_map.1 hb
    exact Or.inr (hextra entry hentry)

/-- Dependencies are declared in one part only. -/
theorem undocumentedDependencyReview_foldsInAnyOrder :
    FoldsInAnyOrder undocumentedDependencyReview := by
  constructor
  · intro a b c
    refine congrArg Except.ok ?_
    rw [DocumentedNames.mk.injEq]
    refine ⟨List.append_assoc _ _ _, List.append_assoc _ _ _, ?_⟩
    split_ifs <;> simp_all
  · intro pooled delta cache hcache values hperm
    have hdeclared := pairwise_declared hcache
    have hknown : values.reduceOption.Perm cache.values.reduceOption := hperm.filterMap id
    refine inBlocks_undocumentedDependency.reports_agree hperm ?_ ?_
    · funext names
      simp only [undocumentedFindings, firstPath_of_perm hknown.symm hdeclared,
        contains_flatMap_of_perm hknown DocumentedNames.mentioned]
    · refine hdeclared.imp ?_
      rintro a b (⟨hnone, -⟩ | ⟨hnone, -⟩) x hx y hy
      · simp [undocumentedFindings, hnone] at hx
      · simp [undocumentedFindings, hnone] at hy

/-- **The reviews of the catalog do not rely on the order of folding.** Looking for a word, for
    unused bindings or for undocumented dependencies, what is known of the parts of a project may be
    folded in any order, and the report finds the same at every path. -/
theorem catalog_folds_in_any_order :
    (∀ settings, FoldsInAnyOrder (markerReview settings)) ∧
      FoldsInAnyOrder unusedBindingReview ∧ FoldsInAnyOrder undocumentedDependencyReview :=
  ⟨markerReview_foldsInAnyOrder, unusedBindingReview_foldsInAnyOrder,
    undocumentedDependencyReview_foldsInAnyOrder⟩

end ProjectReview
