import ProjectReview.Proofs.Addresses
import ProjectReview.Proofs.LoadFaults

set_option autoImplicit false

/-! # Searches and plain filtering

A search cuts off every directory that an exclusion leaves out. It could also list all files, and
then keep those whose names match a pattern, whose paths no exclusion matches and that are not below
a directory that is never searched. Cutting off loses nothing against this: what matches the path of
a directory matches every path below it (`matchesExclusion_below`), so all files there would be
dropped one by one (`chooses_eq_false_of_pruned`). By induction over the tree a search shows just
the files that the filter keeps, each once (`searchNode_eq`).

It does not always show them under their paths. Backslashes in the names of directories are shown as
slashes, so a search lists the paths of the kept files just where no directory on the way to one of
them has a backslash in its name. The main result is `search_filters_files`; two files that are
shown under one path are those of `search_shows_path_twice`. -/

namespace ProjectReview

/-! ## Exclusions of directories -/

/-- Exclusions see a path with slashes for backslashes. -/
theorem matchesExclusion_congr {path other : String}
    (h : forwardSlashes path = forwardSlashes other) (exclusion : String) :
    matchesExclusion path exclusion = matchesExclusion other exclusion := by
  simp only [matchesExclusion, h]

theorem withoutTrailingSlashes_of_not_mem {text : String} (h : '/' ∉ text.toList) :
    withoutTrailingSlashes text = text :=
  withoutTrailingSlashes_of_getLast? fun hlast => h (List.mem_of_getLast? hlast)

/-- A component of a directory's path is one of every path below it. -/
theorem mem_pathParts_of_piece {above : String} {piece : List Char}
    (hmem : piece ∈ cutAt '/' above.toList) (hproper : piece ≠ [] ∧ piece ≠ ['.'])
    (below : String) : String.ofList piece ∈ pathParts (above ++ "/" ++ below) := by
  have hcut : cutAt '/' (above ++ "/" ++ below).toList
      = cutAt '/' above.toList ++ cutAt '/' below.toList := by
    rw [String.toList_append, String.toList_append, List.append_assoc]
    exact cutAt_append_cons '/' above.toList below.toList
  refine mem_pathParts.2 (Or.inr ⟨piece, ?_, hproper, rfl⟩)
  rw [hcut]
  exact List.mem_append_left _ hmem

/-- **What matches the path of a directory matches every path below it.** -/
theorem matchesExclusion_below {directory exclusion : String} (hempty : directory ≠ "")
    (hdot : directory ≠ ".") (h : matchesExclusion directory exclusion = true) (rest : String) :
    matchesExclusion (directory ++ "/" ++ rest) exclusion = true := by
  replace hempty : forwardSlashes directory ≠ "" :=
    fun heq => hempty (eq_of_forwardSlashes_eq heq (by decide))
  replace hdot : forwardSlashes directory ≠ "." :=
    fun heq => hdot (eq_of_forwardSlashes_eq heq (by decide))
  simp only [matchesExclusion, forwardSlashes_append, forwardSlashes_slash, Bool.or_eq_true,
    Bool.and_eq_true, decide_eq_true_eq, List.contains_iff_mem, List.isPrefixOf_iff_prefix] at h ⊢
  generalize forwardSlashes directory = above, forwardSlashes rest = below at h hempty hdot ⊢
  rcases h with (hexact | hcomponent) | ⟨hslash, hrule⟩
  · by_cases hslash : '/' ∈ exclusion.toList
    · refine Or.inr ⟨hslash, ?_⟩
      rw [← hexact]
      exact toList_isPrefix_append _ _
    · -- An exclusion without slashes that is the path of the directory is a component of its own.
      rw [withoutTrailingSlashes_of_not_mem hslash] at hexact
      subst hexact
      have hproper : above.toList ≠ [] ∧ above.toList ≠ ['.'] :=
        ⟨fun heq => hempty (String.toList_inj.1 heq), fun heq => hdot (String.toList_inj.1 heq)⟩
      have hmem : above.toList ∈ cutAt '/' above.toList := by simp [cutAt_of_not_mem hslash]
      have hcomponent := mem_pathParts_of_piece hmem hproper below
      rw [String.ofList_toList] at hcomponent
      exact Or.inl (Or.inr hcomponent)
  · rcases mem_pathParts.1 hcomponent with hroot | ⟨piece, hmem, hproper, rfl⟩
    · -- Behind a slash the root may be written otherwise, but the exclusion is all slashes.
      obtain ⟨hfirst, hslash, hbare⟩ := mem_rootOf hroot
      refine Or.inr ⟨hslash, ?_⟩
      rw [hbare, String.append_assoc]
      exact hfirst.trans (toList_isPrefix_append above _)
    · exact Or.inl (Or.inr (mem_pathParts_of_piece hmem hproper below))
  · refine Or.inr ⟨hslash, hrule.trans ?_⟩
    rw [String.append_assoc]
    exact toList_isPrefix_append above _

/-! ## Searches -/

/-- A directory of that name is never searched, whatever the exclusions. -/
def neverEntered (name : String) : Bool :=
  neverSearched.contains name || ".egg-info".toList.isSuffixOf name.toList

/-- Some pattern matches the name. -/
def matchesSome (patterns : List String) (name : String) : Bool :=
  patterns.any fun pattern => decide (Pattern.matchesName (.text pattern) name = .ok true)

/-- The plain filter: the name matches some pattern, no exclusion matches the path, and every
directory on the way may be searched. -/
def chooses (patterns exclusions : List String) (file : Address) : Bool :=
  matchesSome patterns file.name && !(exclusions.any fun x => matchesExclusion file.path x) &&
    !file.directories.any neverEntered

/-- The search below a directory for patterns and exclusions that are texts. -/
def SearchQuery.ofTexts (directory : String) (patterns exclusions : List String) : SearchQuery :=
  ⟨directory, patterns.map .text, exclusions.map .text⟩

/-- Each pattern matches any name or not. -/
def Decided (patterns : List String) : Prop :=
  ∀ pattern ∈ patterns, ∀ name, Succeeds (Pattern.matchesName (.text pattern) name)

section Search

variable {root node : Node} {directory name path : String} {place directories : List String}
  {patterns exclusions : List String} {file : Address} {entries : List (String × Node)}

theorem anyValue_of_decided (hdecided : Decided patterns) (name : String) :
    anyValue (Pattern.matchesName · name) (patterns.map .text)
      = .ok (matchesSome patterns name) := by
  induction patterns with
  | nil => rfl
  | cons pattern rest ih =>
    rw [Decided, List.forall_mem_cons] at hdecided
    obtain ⟨result, hresult⟩ := hdecided.1 name
    rw [List.map_cons, anyValue, hresult, matchesSome, List.any_cons, hresult]
    cases result with
    | true => rfl
    | false => exact ih hdecided.2

theorem finds_ofTexts (hdecided : Decided patterns) (name path : String) :
    finds (.ofTexts directory patterns exclusions) name path
      = .ok (matchesSome patterns name && !exclusions.any fun x => matchesExclusion path x) := by
  rw [finds, SearchQuery.ofTexts, anyValue_of_decided hdecided, excludedByAny_texts]
  cases matchesSome patterns name <;> rfl

theorem prunes_texts (name path : String) (exclusions : List String) :
    prunes name path (exclusions.map .text)
      = .ok (neverEntered name || exclusions.any fun x => matchesExclusion path x) := by
  rw [prunes, excludedByAny_texts, excludesDirectory, List.any_nil, Bool.or_false, ← neverEntered]
  cases neverEntered name <;> rfl

theorem directoryPath_openPath (directories : List String) (name : String) :
    directoryPath (forwardSlashes (openPath directories)) name
      = forwardSlashes (openPath (directories ++ [name])) := by
  simp [directoryPath, entryPath, openPath_append, openPath, forwardSlashes_append,
    forwardSlashes_slash, String.append_assoc]

/-- The filter drops every file below a directory that is cut off. -/
theorem chooses_eq_false_of_pruned (hname : ProperName name)
    (hpruned : (neverEntered name || exclusions.any fun x =>
      matchesExclusion (forwardSlashes (openPath directories) ++ name) x) = true)
    (hbelow : directories ++ [name] <+: file.directories) :
    chooses patterns exclusions file = false := by
  obtain ⟨more, hmore⟩ := hbelow
  rcases Bool.or_eq_true_iff.1 hpruned with hnever | hexcluded
  · have hany : file.directories.any neverEntered = true :=
      List.any_eq_true.2 ⟨name, by simp [← hmore], hnever⟩
    rw [chooses, hany, Bool.not_true, Bool.and_false]
  · obtain ⟨exclusion, hexclusion, hmatches⟩ := List.any_eq_true.1 hexcluded
    have hpath : file.path
        = openPath directories ++ name ++ "/" ++ (openPath more ++ file.name) := by
      simp [Address.path_eq, ← hmore, openPath_append, openPath, String.append_assoc]
    have hsame : forwardSlashes (forwardSlashes (openPath directories) ++ name)
        = forwardSlashes (openPath directories ++ name) := by
      simp [forwardSlashes_append]
    rw [matchesExclusion_congr hsame] at hmatches
    obtain ⟨hempty, hdot⟩ := hname.openPath_append_ne directories
    have hfile : matchesExclusion file.path exclusion = true := by
      rw [hpath]
      exact matchesExclusion_below hempty hdot hmatches _
    have hany : (exclusions.any fun x => matchesExclusion file.path x) = true :=
      List.any_eq_true.2 ⟨exclusion, hexclusion, hfile⟩
    rw [chooses, hany, Bool.not_true, Bool.and_false, Bool.false_and]

/-- A file is found where the filter keeps it, and shown as it is listed. -/
theorem ite_finds_eq (hdecided : Decided patterns)
    (hentered : directories.any neverEntered = false) :
    (do if ← finds (.ofTexts directory patterns exclusions) name
          (entryPath (forwardSlashes (openPath directories)) name)
        then pure [entryPath (forwardSlashes (openPath directories)) name] else pure [])
      = Except.ok (((([⟨directories, name⟩] : List Address).filter
          (chooses patterns exclusions)).map Address.shown)) := by
  have hshown : entryPath (forwardSlashes (openPath directories)) name
      = Address.shown ⟨directories, name⟩ := rfl
  have hchooses : chooses patterns exclusions ⟨directories, name⟩
      = (matchesSome patterns name && !exclusions.any fun x =>
          matchesExclusion (Address.shown ⟨directories, name⟩) x) := by
    simp only [chooses, hentered, matchesExclusion_congr (Address.forwardSlashes_shown _),
      Bool.not_false, Bool.and_true]
  rw [hshown, finds_ofTexts hdecided, ← hchooses, List.filter_singleton]
  cases chooses patterns exclusions ⟨directories, name⟩ <;> rfl

theorem searchEntries_eq {above : String} {query : SearchQuery}
    (hentries : ∀ entry ∈ entries,
      searchNode root query (place ++ directories) above entry.1 entry.2
      = .ok (((Node.addressesAt root place directories entry.1 entry.2).filter
          (chooses patterns exclusions)).map Address.shown)) :
    searchEntries root query (place ++ directories) above entries
      = .ok (((Node.addressesAmong root place directories entries).filter
          (chooses patterns exclusions)).map Address.shown) := by
  induction entries with
  | nil =>
    rw [searchEntries, Node.addressesAmong]
    rfl
  | cons entry rest ih =>
    rw [List.forall_mem_cons] at hentries
    rw [searchEntries, Node.addressesAmong, hentries.1, ih hentries.2, List.filter_append,
      List.map_append]
    rfl

/-- **A search of a node shows what the filter keeps of the files there**, each once. -/
theorem searchNode_eq (hdecided : Decided patterns) (hnode : node.ProperlyNamed)
    (hname : ProperName name) (hentered : directories.any neverEntered = false) :
    searchNode root (.ofTexts directory patterns exclusions) (place ++ directories)
        (forwardSlashes (openPath directories)) name node
      = .ok (((Node.addressesAt root place directories name node).filter
          (chooses patterns exclusions)).map Address.shown) := by
  induction hnode generalizing directories name with
  | file content =>
    rw [searchNode, Node.addressesAt]
    exact ite_finds_eq hdecided hentered
  | link target =>
    rw [searchNode, Node.addressesAt]
    split
    · rw [SearchQuery.ofTexts, prunes_texts]
      rfl
    · exact ite_finds_eq hdecided hentered
  | @directory entries hnames _ hnodes ih =>
    rw [searchNode, Node.addressesAt, SearchQuery.ofTexts, prunes_texts, ← SearchQuery.ofTexts]
    cases hpruned : (neverEntered name || exclusions.any fun x =>
      matchesExclusion (entryPath (forwardSlashes (openPath directories)) name) x) with
    | true =>
      -- The directory is cut off, and the filter drops whatever is below it.
      have hnone : (Node.addressesAmong root place (directories ++ [name]) entries).filter
          (chooses patterns exclusions) = [] := by
        rw [List.filter_eq_nil_iff]
        intro file hfile
        have hbelow := Node.isPrefix_of_mem_addressesAmong hnodes hfile
        rw [chooses_eq_false_of_pruned hname hpruned hbelow]
        exact Bool.false_ne_true
      rw [hnone]
      rfl
    | false =>
      obtain ⟨hnever, -⟩ := Bool.or_eq_false_iff.1 hpruned
      have hentered : (directories ++ [name]).any neverEntered = false := by
        simp [hentered, hnever]
      rw [List.append_assoc, directoryPath_openPath]
      exact searchEntries_eq fun entry hentry =>
        ih entry hentry (hnames entry hentry) hentered

/-- A search with texts for patterns and exclusions lists the files and filters them. -/
theorem search_ofTexts (hdecided : Decided patterns) (hroot : root.ProperlyNamed)
    (directory : String) (place exclusions : List String) :
    search root place (.ofTexts directory patterns exclusions)
      = .ok (sortTexts (((root.addresses place).filter
          (chooses patterns exclusions)).map Address.shown)) := by
  have hdecides : (SearchQuery.ofTexts directory patterns exclusions).Decides := by
    refine ⟨fun pattern hpattern => ?_, exclusions, rfl⟩
    obtain ⟨text, htext, rfl⟩ := List.mem_map.1 hpattern
    exact ⟨rfl, hdecided text htext⟩
  rw [search, hdecides.unhashable?_eq_none]
  dsimp only
  split
  · next entries hplace =>
    cases (hroot.get? hplace).1 with
    | directory hnames _ hnodes =>
      have hfound : searchEntries root (.ofTexts directory patterns exclusions) (place ++ [])
          (forwardSlashes (openPath [])) entries
            = .ok (((Node.addressesAmong root place [] entries).filter
                (chooses patterns exclusions)).map Address.shown) :=
        searchEntries_eq fun entry hentry =>
          searchNode_eq hdecided (hnodes entry hentry) (hnames entry hentry) rfl
      have hstart : forwardSlashes (openPath []) = "" := rfl
      rw [List.append_nil, hstart] at hfound
      rw [hfound, Node.addresses_of_directory hplace]
      rfl
  · next hnone =>
    rw [Node.addresses_of_not_directory hnone]
    rfl

/-- A search with a memory that tells the truth about the tree ends like one without. -/
theorem outcome_searchWith_of_memory {memory : SearchMemory} {parts : List String}
    {patterns exclusions : List Value} {found : List String}
    (hplace : root.resolve parts = .ok place)
    (hfound : search root place ⟨(Path.ofParts place).text, patterns, exclusions⟩ = .ok found)
    (hmemory : ∀ remembered,
      memory.get? ⟨(Path.ofParts place).text, patterns, exclusions⟩ = some remembered →
        search root place ⟨(Path.ofParts place).text, patterns, exclusions⟩ = .ok remembered) :
    (searchWith memory root parts patterns exclusions).outcome = .ok found := by
  rw [searchWith, Journaled.outcome_bind, Journaled.outcome_ofExcept, hplace]
  simp only [Except.bind]
  split
  · next remembered _ hremembered =>
    obtain rfl := Except.ok.inj (hfound.symm.trans (hmemory remembered hremembered))
    rfl
  · rw [Journaled.outcome_bind, Journaled.outcome_ofExcept, hfound]
    rfl

end Search

/-! ## Plain filtering -/

/-- Plain filtering keeps the file below the directory at `place`. -/
structure Kept (root : Node) (place patterns exclusions : List String) (file : Address) : Prop where
  isFile : root.holdsFileAt (place ++ file.names) = true
  matched : ∃ pattern ∈ patterns, Pattern.matchesName (.text pattern) file.name = .ok true
  notExcluded : ∀ exclusion ∈ exclusions, matchesExclusion file.path exclusion = false
  entered : ∀ directory ∈ file.directories, neverEntered directory = false

/-- The paths of the kept files are listed, in strictly ascending order. -/
structure ListsKept (root : Node) (place patterns exclusions found : List String) : Prop where
  ascending : found.Pairwise (· < ·)
  mem_iff : ∀ path, path ∈ found ↔ ∃ file, Kept root place patterns exclusions file ∧
    file.path = path

section Kept

variable {root : Node} {place patterns exclusions : List String} {file : Address}

theorem mem_filter_addresses_iff (hroot : root.ProperlyNamed)
    (place patterns exclusions : List String) (file : Address) :
    file ∈ (root.addresses place).filter (chooses patterns exclusions) ↔
      Kept root place patterns exclusions file := by
  rw [List.mem_filter, Node.mem_addresses hroot]
  simp only [chooses, matchesSome, Bool.and_eq_true, Bool.not_eq_true', List.any_eq_true,
    List.any_eq_false, decide_eq_true_eq, Bool.not_eq_true]
  constructor
  · rintro ⟨hfile, ⟨hmatched, hexcluded⟩, hentered⟩
    exact ⟨hfile, hmatched, hexcluded, hentered⟩
  · rintro ⟨hfile, hmatched, hexcluded, hentered⟩
    exact ⟨hfile, ⟨hmatched, hexcluded⟩, hentered⟩

theorem Kept.noSlash (h : Kept root place patterns exclusions file) (hroot : root.ProperlyNamed) :
    ∀ name ∈ file.names, '/' ∉ name.toList := by
  obtain ⟨node, hnode⟩ := Node.exists_of_holdsFileAt h.isFile
  intro name hname
  exact ((hroot.get? hnode).2 name (List.mem_append_right _ hname)).noSlash

theorem Kept.name_noSlash (h : Kept root place patterns exclusions file)
    (hroot : root.ProperlyNamed) : '/' ∉ file.name.toList :=
  h.noSlash hroot file.name (by simp [Address.names])

/-- What is shown are the paths of the kept files, in strictly ascending order, just where no
    directory on the way to one has a backslash in its name. -/
theorem listsKept_iff (hroot : root.ProperlyNamed) {files : List Address} (hnodup : files.Nodup)
    (hfiles : ∀ file, file ∈ files ↔ Kept root place patterns exclusions file) :
    ListsKept root place patterns exclusions (sortTexts (files.map Address.shown)) ↔
      ∀ file, Kept root place patterns exclusions file → file.Plain := by
  constructor
  · intro hlists file hfile
    have hmem := (hlists.mem_iff file.path).2 ⟨file, hfile, rfl⟩
    rw [mem_sortTexts, List.mem_map] at hmem
    obtain ⟨other, hother, hshown⟩ := hmem
    have hkept := (hfiles other).1 hother
    exact Address.plain_of_shown_eq (hfile.name_noSlash hroot) (hkept.name_noSlash hroot) hshown
  · intro hplain
    have hshown : files.map Address.shown = files.map Address.path :=
      List.map_congr_left fun file hfile => (hplain file ((hfiles file).1 hfile)).shown_eq
    rw [hshown]
    refine ⟨pairwise_lt_sortTexts _ ?_, fun path => ?_⟩
    · refine hnodup.map_on fun a ha b hb hsame => ?_
      exact Address.eq_of_path_eq (((hfiles a).1 ha).noSlash hroot)
        (((hfiles b).1 hb).noSlash hroot) hsame
    · simp only [mem_sortTexts, List.mem_map, hfiles]

/-- **Cutting directories off agrees with plain filtering.** A search shows each file that the
    filter keeps, each once and no other, in ascending order. What it shows is the list of their
    paths just where no directory on the way to one has a backslash in its name. And no exclusion
    that matches the path of a directory spares a path below it. -/
theorem search_filters_files (memory : SearchMemory) (root : Node)
    (parts place patterns exclusions : List String) (hroot : root.ProperlyNamed)
    (hplace : root.resolve parts = .ok place)
    (hpatterns : Decided patterns)
    (hmemory : ∀ remembered,
      memory.get? (.ofTexts (Path.ofParts place).text patterns exclusions) = some remembered →
        search root place (.ofTexts (Path.ofParts place).text patterns exclusions)
          = .ok remembered) :
    ∃ found, (searchWith memory root parts (patterns.map .text) (exclusions.map .text)).outcome
        = .ok found ∧
      (∃ files : List Address, files.Nodup ∧
        (∀ file, file ∈ files ↔ Kept root place patterns exclusions file) ∧
        found = sortTexts (files.map Address.shown)) ∧
      (ListsKept root place patterns exclusions found ↔
        ∀ file, Kept root place patterns exclusions file →
          ∀ directory ∈ file.directories, '\x5c' ∉ directory.toList) ∧
      ∀ names name, ProperName name → ∀ exclusion rest,
        matchesExclusion (Path.slashed (names ++ [name])) exclusion = true →
          matchesExclusion (Path.slashed (names ++ [name]) ++ "/" ++ rest) exclusion = true := by
  have hsearch := search_ofTexts hpatterns hroot (Path.ofParts place).text place exclusions
  have hnodup := (Node.nodup_addresses hroot place).filter (chooses patterns exclusions)
  have hfiles := mem_filter_addresses_iff hroot place patterns exclusions
  refine ⟨_, outcome_searchWith_of_memory hplace hsearch hmemory, ⟨_, hnodup, hfiles, rfl⟩,
    listsKept_iff hroot hnodup hfiles, ?_⟩
  intro names name hname exclusion rest hmatches
  rw [slashed_concat] at hmatches ⊢
  obtain ⟨hempty, hdot⟩ := hname.openPath_append_ne names
  exact matchesExclusion_below hempty hdot hmatches rest

/-- A project with sources, vendored code, packaging data, a directory with a backslash in its name
and two links, one to a directory and one to nothing. -/
def mixedTree : Node :=
  .directory [("notes.md", .file []), ("here.py", .link "src"), ("gone.py", .link "nowhere"),
    ("src", .directory [("vendor", .directory [("b.py", .file [])]), ("c.py", .file [])]),
    ("demo.egg-info", .directory [("d.py", .file [])]),
    ("gen\x5cout", .directory [("e.py", .file [])]), ("a\x5cb.py", .file [])]

/-- Directories are cut off for a component, for a path with a slash for the backslash and for their
    own names; a backslash in the name of a file stays. The search is remembered. -/
theorem search_filters_files_mixed :
    let found := ["a\x5cb.py", "gone.py", "src/c.py"]
    let memory : SearchMemory := [(.ofTexts "/" ["*.py"] ["vendor", "gen/out"], found)]
    (searchWith memory mixedTree [] [.text "*.py"] [.text "vendor", .text "gen/out"]).outcome
        = .ok found ∧ ListsKept mixedTree [] ["*.py"] ["vendor", "gen/out"] found := by
  intro found memory
  have hroot : mixedTree.ProperlyNamed := by
    refine .directory (by decide) (by decide) ?_
    simp only [List.forall_mem_cons, List.not_mem_nil, false_imp_iff, implies_true, and_true]
    refine ⟨.file _, .link _, .link _, .directory (by decide) (by decide) ?_,
      .directory (by decide) (by decide) ?_, .directory (by decide) (by decide) ?_, .file _⟩
    · simp only [List.forall_mem_cons, List.not_mem_nil, false_imp_iff, implies_true, and_true]
      refine ⟨.directory (by decide) (by decide) ?_, .file _⟩
      exact List.forall_mem_singleton.2 (.file _)
    · exact List.forall_mem_singleton.2 (.file _)
    · exact List.forall_mem_singleton.2 (.file _)
  have hpatterns : Decided ["*.py"] :=
    List.forall_mem_singleton.2 (succeeds_matchesName "*.py" "*.py" (by decide) (by decide))
  have hsearch : search mixedTree [] (.ofTexts "/" ["*.py"] ["vendor", "gen/out"]) = .ok found := by
    decide +kernel
  have hmemory : ∀ remembered,
      memory.get? (.ofTexts "/" ["*.py"] ["vendor", "gen/out"]) = some remembered →
        search mixedTree [] (.ofTexts "/" ["*.py"] ["vendor", "gen/out"]) = .ok remembered := by
    intro remembered hremembered
    obtain ⟨entry, hentry, rfl⟩ := Option.map_eq_some_iff.1 hremembered
    rw [List.mem_singleton.1 (List.mem_of_find?_eq_some hentry), hsearch]
  have hrun := outcome_searchWith_of_memory (show mixedTree.resolve [] = .ok [] from rfl) hsearch
    hmemory
  obtain ⟨result, hresult, -, hlists, -⟩ := search_filters_files memory mixedTree [] [] ["*.py"]
    ["vendor", "gen/out"] hroot rfl hpatterns hmemory
  obtain rfl : result = found := Except.ok.inj (hresult.symm.trans hrun)
  have hkept : (mixedTree.addresses []).filter (chooses ["*.py"] ["vendor", "gen/out"])
      = [⟨[], "gone.py"⟩, ⟨["src"], "c.py"⟩, ⟨[], "a\x5cb.py"⟩] := by decide +kernel
  have hplain : ∀ file ∈ ([⟨[], "gone.py"⟩, ⟨["src"], "c.py"⟩, ⟨[], "a\x5cb.py"⟩] : List Address),
    ∀ directory ∈ file.directories, '\x5c' ∉ directory.toList := by decide
  refine ⟨hrun, hlists.2 fun file hfile => hplain file ?_⟩
  rwa [← mem_filter_addresses_iff hroot, hkept] at hfile

/-- Two files in directories that differ by a backslash for a slash are shown under one path, which
    belongs to one of them; the path of the other is not listed. -/
theorem search_shows_path_twice :
    let root : Node := .directory [("a", .directory [("b", .directory [("x.py", .file [])])]),
      ("a\x5cb", .directory [("x.py", .file [])])]
    let found := ["a/b/x.py", "a/b/x.py"]
    root.ProperlyNamed ∧ (searchWith [] root [] [.text "*.py"] []).outcome = .ok found ∧
      Kept root [] ["*.py"] [] ⟨["a\x5cb"], "x.py"⟩ ∧
      Address.path ⟨["a\x5cb"], "x.py"⟩ = "a\x5cb/x.py" ∧
      ¬ ListsKept root [] ["*.py"] [] found := by
  intro root found
  have hroot : root.ProperlyNamed := by
    have hdirectory : Node.ProperlyNamed (.directory [("x.py", .file [])]) :=
      .directory (by decide) (by decide) (List.forall_mem_singleton.2 (.file _))
    refine .directory (by decide) (by decide) ?_
    simp only [List.forall_mem_cons, List.not_mem_nil, false_imp_iff, implies_true, and_true]
    exact ⟨.directory (by decide) (by decide) (List.forall_mem_singleton.2 hdirectory), hdirectory⟩
  have hkept : Kept root [] ["*.py"] [] ⟨["a\x5cb"], "x.py"⟩ := by
    rw [← mem_filter_addresses_iff hroot]
    decide +kernel
  refine ⟨hroot, by decide +kernel, hkept, by decide, fun hlists => ?_⟩
  exact absurd hlists.ascending (by decide)

end Kept

end ProjectReview
