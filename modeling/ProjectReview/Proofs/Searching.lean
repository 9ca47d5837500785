import ProjectReview.Host.Load
import ProjectReview.Proofs.Maps
import ProjectReview.Proofs.Outcomes

set_option autoImplicit false

/-! # What a search finds

`Reached` describes the files that a search comes upon, apart from the patterns: below directories
that are not left out, and not left out themselves. A search finds those of them whose names match
(`mem_searchNode`), and a setting's patterns find those below the source directories
(`mem_discover`). So two settings that look at the same tree differ by their patterns alone.

Where names have no slashes, the path of a file that is found ends with its name
(`Host.Offers.lastSegment`), so whether a pattern matches is known from the path. -/

namespace ProjectReview

/-! ## Single directories -/

theorem excludedByAny_texts (path : String) (exclusions : List String) :
    excludedByAny path (exclusions.map .text)
      = .ok (exclusions.any fun exclusion => matchesExclusion path exclusion) := by
  induction exclusions with
  | nil => rfl
  | cons exclusion rest ih =>
    rw [excludedByAny] at ih ⊢
    rw [List.map_cons, anyValue, excludedBy, List.any_cons]
    cases matchesExclusion path exclusion with
    | true => rfl
    | false => exact ih

/-- A search of the node comes upon a file of that name and at that path. -/
inductive Reached (root : Node) (exclusions : List Value) :
    List String → String → String → Node → String → String → Prop
  | file {place : List String} {above name : String} (content : Bytes)
      (kept : excludedByAny (entryPath above name) exclusions = .ok false) :
      Reached root exclusions place above name (.file content) name (entryPath above name)
  | link {place : List String} {above name : String} (target : String)
      (toFile : root.isDirectoryAt (place ++ [name]) = false)
      (kept : excludedByAny (entryPath above name) exclusions = .ok false) :
      Reached root exclusions place above name (.link target) name (entryPath above name)
  | directory {place : List String} {above name fileName path : String}
      {entries : List (String × Node)} {entry : String × Node}
      (entered : prunes name (entryPath above name) exclusions = .ok false)
      (mem : entry ∈ entries)
      (below : Reached root exclusions (place ++ [name]) (directoryPath above name) entry.1 entry.2
        fileName path) :
      Reached root exclusions place above name (.directory entries) fileName path

/-- Some pattern matches the name. -/
def Matched (patterns : List Value) (name : String) : Prop :=
  anyValue (Pattern.matchesName · name) patterns = .ok true

theorem finds_eq_true_iff (query : SearchQuery) (name path : String) :
    finds query name path = .ok true ↔
      Matched query.patterns name ∧ excludedByAny path query.exclusions = .ok false := by
  rw [finds, Matched]
  cases anyValue (Pattern.matchesName · name) query.patterns with
  | error fault => simp [bind, Except.bind]
  | ok matched =>
    cases matched with
    | false => simp [bind, Except.bind, pure, Except.pure]
    | true =>
      cases excludedByAny path query.exclusions with
      | error fault => simp [bind, Except.bind]
      | ok excluded => simp [bind, Except.bind, pure, Except.pure]

/-- A file that is looked at by itself is found when its name matches and nothing leaves it out. -/
theorem mem_ite_finds {query : SearchQuery} {name path : String} {found : List String}
    (h : (do if ← finds query name path then pure [path] else pure []) = Except.ok found)
    (other : String) :
    other ∈ found ↔ other = path ∧ Matched query.patterns name ∧
      excludedByAny path query.exclusions = .ok false := by
  rw [← finds_eq_true_iff]
  obtain ⟨finding, hfinding, h⟩ := bind_eq_ok.1 h
  cases finding with
  | true =>
    obtain rfl : [path] = found := Except.ok.inj h
    simp [hfinding]
  | false =>
    obtain rfl : [] = found := Except.ok.inj h
    simp [hfinding]

mutual

/-- **A search finds the files it comes upon whose names match.** -/
theorem mem_searchNode {root : Node} {query : SearchQuery} {place : List String}
    {above name : String} {node : Node} {found : List String}
    (h : searchNode root query place above name node = .ok found) (path : String) :
    path ∈ found ↔ ∃ fileName,
      Reached root query.exclusions place above name node fileName path ∧
        Matched query.patterns fileName := by
  cases node with
  | file content =>
    rw [searchNode] at h
    rw [mem_ite_finds h]
    constructor
    · rintro ⟨rfl, hmatched, hkept⟩
      exact ⟨name, .file content hkept, hmatched⟩
    · rintro ⟨fileName, hreached, hmatched⟩
      cases hreached with
      | file _ hkept => exact ⟨rfl, hmatched, hkept⟩
  | link target =>
    rw [searchNode] at h
    split at h
    · next hdirectory =>
      obtain ⟨_, -, h⟩ := bind_eq_ok.1 h
      obtain rfl : [] = found := Except.ok.inj h
      refine ⟨fun hpath => absurd hpath List.not_mem_nil, ?_⟩
      rintro ⟨fileName, hreached, -⟩
      cases hreached with
      | link _ hfile => rw [hdirectory] at hfile; cases hfile
    · next hdirectory =>
      rw [mem_ite_finds h]
      constructor
      · rintro ⟨rfl, hmatched, hkept⟩
        exact ⟨name, .link target (Bool.eq_false_iff.2 hdirectory) hkept, hmatched⟩
      · rintro ⟨fileName, hreached, hmatched⟩
        cases hreached with
        | link _ _ hkept => exact ⟨rfl, hmatched, hkept⟩
  | directory entries =>
    rw [searchNode] at h
    obtain ⟨pruned, hpruned, h⟩ := bind_eq_ok.1 h
    cases pruned with
    | true =>
      obtain rfl : [] = found := Except.ok.inj h
      refine ⟨fun hpath => absurd hpath List.not_mem_nil, ?_⟩
      rintro ⟨fileName, hreached, -⟩
      cases hreached with
      | directory hentered => rw [hpruned] at hentered; cases hentered
    | false =>
      rw [mem_searchEntries h path]
      constructor
      · rintro ⟨entry, hentry, fileName, hreached, hmatched⟩
        exact ⟨fileName, .directory hpruned hentry hreached, hmatched⟩
      · rintro ⟨fileName, hreached, hmatched⟩
        cases hreached with
        | directory _ hentry hbelow => exact ⟨_, hentry, fileName, hbelow, hmatched⟩
termination_by sizeOf node

theorem mem_searchEntries {root : Node} {query : SearchQuery} {place : List String}
    {above : String} {entries : List (String × Node)} {found : List String}
    (h : searchEntries root query place above entries = .ok found) (path : String) :
    path ∈ found ↔ ∃ entry ∈ entries, ∃ fileName,
      Reached root query.exclusions place above entry.1 entry.2 fileName path ∧
        Matched query.patterns fileName := by
  match entries, h with
  | [], h =>
    rw [searchEntries] at h
    obtain rfl : [] = found := Except.ok.inj h
    simp
  | (name, node) :: rest, h =>
    rw [searchEntries] at h
    obtain ⟨first, hfirst, h⟩ := bind_eq_ok.1 h
    obtain ⟨others, hothers, h⟩ := bind_eq_ok.1 h
    obtain rfl : first ++ others = found := Except.ok.inj h
    rw [List.mem_append, mem_searchNode hfirst, mem_searchEntries hothers, List.exists_mem_cons_iff]
termination_by sizeOf entries

end

/-- A search below the directory that components lead to comes upon a file of that name and at that
    path. -/
def ReachedBelow (root : Node) (exclusions : List Value) (parts : List String)
    (fileName path : String) : Prop :=
  ∃ place entries, root.resolve parts = .ok place ∧ root.get? place = some (.directory entries) ∧
    ∃ entry ∈ entries, Reached root exclusions place "" entry.1 entry.2 fileName path

theorem mem_search {root : Node} {place : List String} {query : SearchQuery} {found : List String}
    (h : search root place query = .ok found) (path : String) :
    path ∈ found ↔ ∃ entries, root.get? place = some (.directory entries) ∧
      ∃ entry ∈ entries, ∃ fileName,
        Reached root query.exclusions place "" entry.1 entry.2 fileName path ∧
          Matched query.patterns fileName := by
  rw [search] at h
  split at h
  · exact nomatch h
  · split at h
    · next entries hentries =>
      obtain ⟨unsorted, hunsorted, h⟩ := bind_eq_ok.1 h
      obtain rfl : sortTexts unsorted = found := Except.ok.inj h
      rw [mem_sortTexts, mem_searchEntries hunsorted]
      simp [hentries]
    · next hnone =>
      obtain rfl : [] = found := Except.ok.inj h
      refine ⟨fun hpath => absurd hpath List.not_mem_nil, ?_⟩
      rintro ⟨entries, hentries, -⟩
      exact absurd hentries (hnone entries)

/-- A search without a memory ends like a search of the resolved directory. -/
theorem outcome_searchWith (root : Node) (parts : List String) (patterns exclusions : List Value) :
    (searchWith [] root parts patterns exclusions).outcome
      = (root.resolve parts).bind fun place =>
          search root place ⟨(Path.ofParts place).text, patterns, exclusions⟩ := by
  rw [searchWith, Journaled.outcome_bind, Journaled.outcome_ofExcept]
  congr 1
  funext place
  simp only [SearchMemory.get?, List.find?_nil, Option.map_none]
  cases unhashable? (patterns ++ exclusions) <;>
    cases search root place ⟨(Path.ofParts place).text, patterns, exclusions⟩ <;> rfl

theorem mem_searchWith {root : Node} {parts : List String} {patterns exclusions : List Value}
    {found : List String} (h : (searchWith [] root parts patterns exclusions).outcome = .ok found)
    (path : String) :
    path ∈ found ↔ ∃ fileName,
      ReachedBelow root exclusions parts fileName path ∧ Matched patterns fileName := by
  rw [outcome_searchWith] at h
  obtain ⟨place, hplace, h⟩ := bind_eq_ok.1 h
  rw [mem_search h]
  constructor
  · rintro ⟨entries, hentries, entry, hentry, fileName, hreached, hmatched⟩
    exact ⟨fileName, ⟨place, entries, hplace, hentries, entry, hentry, hreached⟩, hmatched⟩
  · rintro ⟨fileName, ⟨place', entries, hplace', hentries, entry, hentry, hreached⟩, hmatched⟩
    obtain rfl : place = place' := Except.ok.inj (hplace.symm.trans hplace')
    exact ⟨entries, hentries, entry, hentry, fileName, hreached, hmatched⟩

/-! ## Names and paths -/

/-- Nowhere in the tree does a name have a slash. -/
inductive Node.WellNamed : Node → Prop
  | file (content : Bytes) : WellNamed (.file content)
  | link (target : String) : WellNamed (.link target)
  | directory {entries : List (String × Node)} (names : ∀ entry ∈ entries, '/' ∉ entry.1.toList)
      (nodes : ∀ entry ∈ entries, entry.2.WellNamed) : WellNamed (.directory entries)

theorem Node.WellNamed.get? {node : Node} (h : node.WellNamed) {place : List String} {found : Node}
    (hfound : node.get? place = some found) : found.WellNamed := by
  induction place generalizing node with
  | nil =>
    obtain rfl : node = found := Option.some.inj hfound
    exact h
  | cons name rest ih =>
    rw [Node.get?] at hfound
    split at hfound
    · next child hchild =>
      cases h with
      | directory _ hnodes => exact ih (hnodes _ (Assoc.mem_of_get? hchild)) hfound
      | file content => exact nomatch hchild
      | link target => exact nomatch hchild
    · exact nomatch hfound

/-- What follows the last slash. -/
def lastSegment (path : String) : String :=
  String.ofList (path.toList.reverse.takeWhile (· ≠ '/')).reverse

/-- The text is empty or ends with a slash. -/
def EndsOpen (text : String) : Prop :=
  text = "" ∨ ∃ start, text = start ++ "/"

theorem EndsOpen.append {text other : String} (h : EndsOpen text) (hother : EndsOpen other) :
    EndsOpen (text ++ other) := by
  rcases hother with rfl | ⟨start, rfl⟩
  · rwa [String.append_empty]
  · exact Or.inr ⟨text ++ start, (String.append_assoc ..).symm⟩

theorem lastSegment_append {above name : String} (habove : EndsOpen above)
    (hname : '/' ∉ name.toList) : lastSegment (above ++ name) = name := by
  have hall : ∀ c ∈ name.toList.reverse, decide (c ≠ '/') = true := by
    intro c hc
    rw [decide_eq_true_iff]
    rintro rfl
    exact hname (List.mem_reverse.1 hc)
  rw [lastSegment, String.toList_append, List.reverse_append, List.takeWhile_append_of_pos hall]
  rcases habove with rfl | ⟨start, rfl⟩
  · simp
  · rw [String.toList_append, List.reverse_append]
    simp

/-- The path of a file that a search comes upon ends with its name. -/
theorem Reached.path_eq {root : Node} {exclusions : List Value} {place : List String}
    {above name fileName path : String} {node : Node}
    (h : Reached root exclusions place above name node fileName path) (hnode : node.WellNamed)
    (hname : '/' ∉ name.toList) (habove : EndsOpen above) :
    '/' ∉ fileName.toList ∧ ∃ before, EndsOpen before ∧ path = before ++ fileName := by
  induction h with
  | file content _ => exact ⟨hname, _, habove, rfl⟩
  | link target _ _ => exact ⟨hname, _, habove, rfl⟩
  | directory _ hentry _ ih =>
    cases hnode with
    | directory hnames hnodes =>
      exact ih (hnodes _ hentry) (hnames _ hentry) (Or.inr ⟨_, rfl⟩)

/-! ## Source directories -/

namespace Host

theorem mem_searchDirectories {host : Host} {patterns exclusions : List Value}
    {directories : List SourceDirectory} {found : List String}
    (h : (host.searchDirectories patterns exclusions directories).outcome = .ok found)
    (path : String) :
    path ∈ found ↔ ∃ fileName, (∃ directory ∈ directories, ∃ below,
      ReachedBelow host.files exclusions directory.place fileName below ∧
        path = directory.pathStart ++ below) ∧ Matched patterns fileName := by
  induction directories generalizing found with
  | nil =>
    obtain rfl : [] = found := Except.ok.inj h
    simp
  | cons directory rest ih =>
    rw [searchDirectories, Journaled.outcome_bind] at h
    obtain ⟨first, hfirst, h⟩ := bind_eq_ok.1 h
    rw [Journaled.outcome_bind] at h
    obtain ⟨others, hothers, h⟩ := bind_eq_ok.1 h
    obtain rfl : first.map (directory.pathStart ++ ·) ++ others = found := Except.ok.inj h
    rw [List.mem_append, ih hothers, List.mem_map]
    simp only [mem_searchWith hfirst, List.exists_mem_cons_iff]
    constructor
    · rintro (⟨below, ⟨fileName, hreached, hmatched⟩, rfl⟩ | ⟨fileName, hrest, hmatched⟩)
      · exact ⟨fileName, Or.inl ⟨below, hreached, rfl⟩, hmatched⟩
      · exact ⟨fileName, Or.inr hrest, hmatched⟩
    · rintro ⟨fileName, ⟨below, hreached, rfl⟩ | hrest, hmatched⟩
      · exact Or.inl ⟨below, ⟨fileName, hreached, hmatched⟩, rfl⟩
      · exact Or.inr ⟨fileName, hrest, hmatched⟩

/-- Some pattern of the setting matches the name. -/
def Wanted (config : Config) (key fileName : String) : Prop :=
  ∃ patterns, (config.valueAt key (.list [])).items = .ok patterns ∧ Matched patterns fileName

/-- A search of the directories comes upon a file of that name and at that path. -/
def Offers (host : Host) (directories : List SourceDirectory) (config : Config)
    (fileName path : String) : Prop :=
  ∃ exclusions, (config.valueAt "exclude" (.list [])).items = .ok exclusions ∧
    ∃ directory ∈ directories, ∃ below,
      ReachedBelow host.files exclusions directory.place fileName below ∧
        path = directory.pathStart ++ below

/-- **A setting's patterns find the files that the directories offer and that they match**, in
    strictly ascending order. -/
theorem mem_discover {host : Host} {directories : List SourceDirectory} {config : Config}
    {key : String} {found : List String}
    (h : (host.discover directories config key).outcome = .ok found) :
    found.Pairwise (· < ·) ∧ ∀ path, path ∈ found ↔
      ∃ fileName, host.Offers directories config fileName path ∧ Wanted config key fileName := by
  rw [discover] at h
  split at h
  · next hnone =>
    obtain rfl : [] = found := Except.ok.inj h
    rw [List.isEmpty_iff] at hnone
    simp [Offers, hnone]
  · rw [Journaled.outcome_bind, Journaled.outcome_ofExcept] at h
    obtain ⟨patterns, hpatterns, h⟩ := bind_eq_ok.1 h
    rw [Journaled.outcome_bind, Journaled.outcome_ofExcept] at h
    obtain ⟨exclusions, hexclusions, h⟩ := bind_eq_ok.1 h
    rw [Journaled.outcome_bind] at h
    obtain ⟨all, hall, h⟩ := bind_eq_ok.1 h
    obtain rfl : sortTexts (distinct all) = found := Except.ok.inj h
    refine ⟨pairwise_lt_sortTexts _ (nodup_distinct _), fun path => ?_⟩
    rw [mem_sortTexts, mem_distinct, mem_searchDirectories hall]
    rw [mapError_eq_ok] at hpatterns hexclusions
    simp [Offers, Wanted, hpatterns, hexclusions]

/-- A directory that is searched is a directory of the project, and known by its path there. -/
theorem mem_sourceDirectories {host : Host} {root : List String} {values : List Value}
    {directories : List SourceDirectory}
    (h : (host.sourceDirectories root values).outcome = .ok directories) :
    ∀ directory ∈ directories, host.files.isDirectoryAt directory.place = true ∧
      ∃ inside, relativeTo? root directory.place = some inside ∧
        directory.pathStart = if inside.isEmpty then "" else Path.slashed inside ++ "/" := by
  induction values generalizing directories with
  | nil =>
    obtain rfl : [] = directories := Except.ok.inj h
    simp
  | cons value rest ih =>
    cases value with
    | text entry =>
      rw [sourceDirectories, Journaled.outcome_bind] at h
      obtain ⟨place, -, h⟩ := bind_eq_ok.1 h
      split at h
      · exact ih h
      · next hplace =>
        split at h
        · rw [Journaled.outcome_bind] at h
          obtain ⟨_, -, h⟩ := bind_eq_ok.1 h
          exact ih h
        · next inside hinside =>
          rw [Journaled.outcome_bind] at h
          obtain ⟨others, hothers, h⟩ := bind_eq_ok.1 h
          obtain rfl := Except.ok.inj h
          rw [List.forall_mem_cons]
          exact ⟨⟨by simpa using hplace, inside, hinside, rfl⟩, ih hothers⟩
    | _ => exact nomatch h

theorem endsOpen_pathStart {host : Host} {root : List String} {values : List Value}
    {directories : List SourceDirectory}
    (h : (host.sourceDirectories root values).outcome = .ok directories) :
    ∀ directory ∈ directories, EndsOpen directory.pathStart := by
  intro directory hdirectory
  obtain ⟨-, inside, -, hstart⟩ := mem_sourceDirectories h directory hdirectory
  rw [hstart]
  by_cases hinside : inside.isEmpty = true
  · exact Or.inl (if_pos hinside)
  · exact Or.inr ⟨_, if_neg hinside⟩

/-- Where names have no slashes, the name of a file that is offered is what follows the last slash
    of its path. -/
theorem Offers.lastSegment {host : Host} {directories : List SourceDirectory} {config : Config}
    {fileName path : String} (h : host.Offers directories config fileName path)
    (hfiles : host.files.WellNamed)
    (hstarts : ∀ directory ∈ directories, EndsOpen directory.pathStart) :
    lastSegment path = fileName := by
  obtain ⟨exclusions, -, directory, hdirectory, below, hbelow, rfl⟩ := h
  obtain ⟨place, entries, -, hentries, entry, hentry, hreached⟩ := hbelow
  cases hfiles.get? hentries with
  | directory hnames hnodes =>
    obtain ⟨hfileName, before, hbefore, rfl⟩ :=
      hreached.path_eq (hnodes _ hentry) (hnames _ hentry) (Or.inl rfl)
    rw [← String.append_assoc]
    exact lastSegment_append ((hstarts directory hdirectory).append hbefore) hfileName

end Host

end ProjectReview
