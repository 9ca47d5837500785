import ProjectReview.Proofs.Loading

set_option autoImplicit false

/-! # What exclusions keep out of a load

A search decides exclusions on the paths below the directory that it searches, while the files that
are loaded are known by their paths in the project. What comes between the two is the path of the
directory: an exclusion that matches a path of the project matches the part below the directory, or
it concerns the directory itself (`matchesExclusion_append`).

So no file that is loaded is left out by an exclusion, seen from the directory where the file was
found, and an exclusion that does match its path in the project concerns that directory. This is the
main result, `exclusions_below_directories`. Below a directory other than the project's own, an
exclusion that starts with the directory's path leaves nothing out (`excluded_file_is_loaded`). -/

namespace ProjectReview

/-! ## Longer and shorter paths -/

theorem forwardSlashes_append (a b : String) :
    forwardSlashes (a ++ b) = forwardSlashes a ++ forwardSlashes b := by
  simp [forwardSlashes]

theorem forwardSlashes_slash : forwardSlashes "/" = "/" := rfl

/-- The exclusion matches the paths of some directories on the way to a directory, or its path leads
    along that of the exclusion. The path of the directory is given with a slash behind it. -/
def concernsDirectory (start exclusion : String) : Bool :=
  let path := forwardSlashes start
  let rule := withoutTrailingSlashes exclusion ++ "/"
  start != "" && ((pathParts path).contains exclusion ||
    exclusion.toList.contains '/' &&
      (rule.toList.isPrefixOf path.toList || path.toList.isPrefixOf rule.toList))

theorem mem_pathParts {path component : String} :
    component ∈ pathParts path ↔ component ∈ rootOf path.toList ∨
      ∃ piece ∈ cutAt '/' path.toList, (piece ≠ [] ∧ piece ≠ ['.']) ∧
        String.ofList piece = component := by
  simp [pathParts, and_assoc]

/-- A component of a path is one of the directory's path or of the part below, or the root. -/
theorem mem_pathParts_append {start below component : String}
    (h : component ∈ pathParts (start ++ "/" ++ below)) :
    component ∈ rootOf (start ++ "/" ++ below).toList ∨ component ∈ pathParts (start ++ "/") ∨
      component ∈ pathParts below := by
  rcases mem_pathParts.1 h with hroot | ⟨piece, hpiece, hproper, hcomponent⟩
  · exact Or.inl hroot
  · have hcut : ∀ rest : List Char, cutAt '/' ((start ++ "/").toList ++ rest)
        = cutAt '/' start.toList ++ cutAt '/' rest := by
      intro rest
      rw [String.toList_append, List.append_assoc]
      exact cutAt_append_cons '/' start.toList rest
    rw [String.toList_append, hcut, List.mem_append] at hpiece
    rcases hpiece with hstart | hbelow
    · have hpiece : piece ∈ cutAt '/' (start ++ "/").toList := by
        rw [← List.append_nil (start ++ "/").toList, hcut]
        exact List.mem_append_left _ hstart
      exact Or.inr (Or.inl (mem_pathParts.2 (Or.inr ⟨piece, hpiece, hproper, hcomponent⟩)))
    · exact Or.inr (Or.inr (mem_pathParts.2 (Or.inr ⟨piece, hbelow, hproper, hcomponent⟩)))

/-- Only a path that starts with a slash has a root, and a root is made of slashes. -/
theorem mem_rootOf {chars : List Char} {component : String} (h : component ∈ rootOf chars) :
    ['/'] <+: chars ∧ '/' ∈ component.toList ∧ withoutTrailingSlashes component = "" := by
  have hslash : '/' ∈ "/".toList ∧ withoutTrailingSlashes "/" = "" := by decide
  have hslashes : '/' ∈ "//".toList ∧ withoutTrailingSlashes "//" = "" := by decide
  rw [rootOf.eq_def] at h
  split at h
  · rw [List.mem_singleton.1 h]; exact ⟨by simp, hslash⟩
  · rw [List.mem_singleton.1 h]; exact ⟨by simp, hslashes⟩
  · rw [List.mem_singleton.1 h]; exact ⟨by simp, hslashes⟩
  · rw [List.mem_singleton.1 h]; exact ⟨by simp, hslash⟩
  · exact absurd h List.not_mem_nil

theorem withoutTrailingSlashes_isPrefix (text : String) :
    (withoutTrailingSlashes text).toList <+: text.toList := by
  rw [withoutTrailingSlashes, String.toList_ofList, ← List.reverse_suffix, List.reverse_reverse]
  exact List.dropWhile_suffix _

/-- A text that does not end with a slash stays as it is. -/
theorem withoutTrailingSlashes_of_getLast? {text : String} (h : text.toList.getLast? ≠ some '/') :
    withoutTrailingSlashes text = text := by
  have hstays : text.toList.reverse.dropWhile (· = '/') = text.toList.reverse := by
    rw [← List.head?_reverse] at h
    cases hreverse : text.toList.reverse with
    | nil => rfl
    | cons c rest =>
      rw [hreverse, List.head?_cons] at h
      exact List.dropWhile_cons_of_neg (by simpa using h)
  rw [withoutTrailingSlashes, hstays, List.reverse_reverse, String.ofList_toList]

theorem toList_isPrefix_append (a b : String) : a.toList <+: (a ++ b).toList := by
  rw [String.toList_append]
  exact List.prefix_append _ _

/-- **An exclusion that matches a path below a directory matches the part below it, or it concerns
    the directory.** -/
theorem matchesExclusion_append {start below exclusion : String} (hstart : EndsOpen start)
    (h : matchesExclusion (start ++ below) exclusion = true) :
    matchesExclusion below exclusion = true ∨ concernsDirectory start exclusion = true := by
  rcases hstart with rfl | ⟨directory, rfl⟩
  · rw [String.empty_append] at h
    exact Or.inl h
  · have hnonempty : directory ++ "/" ≠ "" := by simp
    simp only [matchesExclusion, concernsDirectory, forwardSlashes_append, forwardSlashes_slash,
      Bool.or_eq_true, Bool.and_eq_true, decide_eq_true_eq, List.contains_iff_mem,
      List.isPrefixOf_iff_prefix, bne_iff_ne] at h ⊢
    generalize forwardSlashes directory = above, forwardSlashes below = below at h ⊢
    rcases h with (hexact | hcomponent) | ⟨hslash, hrule⟩
    · -- The exclusion is the path itself, so it starts with that of the directory.
      have hlonger : (above ++ "/").toList <+: (withoutTrailingSlashes exclusion).toList :=
        hexact ▸ toList_isPrefix_append _ _
      have hslash : '/' ∈ exclusion.toList :=
        (hlonger.trans (withoutTrailingSlashes_isPrefix exclusion)).subset (by simp)
      have hleads := hlonger.trans (toList_isPrefix_append _ "/")
      exact Or.inr ⟨hnonempty, Or.inr ⟨hslash, Or.inr hleads⟩⟩
    · -- The exclusion is a component: the root, one of the directory's, or one below.
      rcases mem_pathParts_append hcomponent with hroot | habove | hbelow
      · obtain ⟨hfirst, hslash, hbare⟩ := mem_rootOf hroot
        have hleads : ['/'] <+: (above ++ "/").toList :=
          List.prefix_of_prefix_length_le hfirst (toList_isPrefix_append _ _) (by simp)
        rw [hbare]
        exact Or.inr ⟨hnonempty, Or.inr ⟨hslash, Or.inl hleads⟩⟩
      · exact Or.inr ⟨hnonempty, Or.inl habove⟩
      · exact Or.inl (Or.inl (Or.inr hbelow))
    · -- The exclusion and the directory both start the path, so one starts the other.
      have hleads := List.prefix_or_prefix_of_prefix hrule (toList_isPrefix_append _ below)
      exact Or.inr ⟨hnonempty, Or.inr ⟨hslash, hleads⟩⟩

/-! ## Files that are found -/

/-- A search comes upon no file that an exclusion leaves out. -/
theorem Reached.kept {root : Node} {exclusions : List Value} {place : List String}
    {above name fileName path : String} {node : Node}
    (h : Reached root exclusions place above name node fileName path) :
    excludedByAny path exclusions = .ok false := by
  induction h with
  | file _ hkept => exact hkept
  | link _ _ hkept => exact hkept
  | directory _ _ _ ih => exact ih

/-- The paths of the files that a load tells of: those that reached the reviews, those that are new
    or different, and those that do not parse. -/
def LoadResult.paths (loaded : LoadResult) : List String :=
  loaded.snapshot.modules.keys ++ loaded.snapshot.extraFiles.keys ++
    loaded.delta.modules.map Module.path ++ loaded.delta.extraFiles.map ExtraFile.path ++
    loaded.failures.map ParseFault.path

namespace Host

variable {host : Host} {root : List String} {config : Config} {previous : Snapshot}
  {loaded : LoadResult}

/-- A load tells of files that its survey found. -/
theorem mem_survey_of_mem_paths {survey : Survey} (hsurvey : host.survey root config = .ok survey)
    {path : String} (h : path ∈ (host.loadResult root previous survey).paths) :
    path ∈ survey.modulePaths ∨ path ∈ survey.extraPaths := by
  obtain ⟨hmodules, hextras, -⟩ := survey_paths hsurvey
  have hmodule {path : String}
      (hkept : path ∈ (host.loadResult root previous survey).snapshot.modules.keys) :
      path ∈ survey.modulePaths := ((FileKind.mem_keys_digests _ _).1 hkept).1
  have hextra {path : String}
      (hkept : path ∈ (host.loadResult root previous survey).snapshot.extraFiles.keys) :
      path ∈ survey.extraPaths := ((FileKind.mem_keys_digests _ _).1 hkept).1
  simp only [LoadResult.paths, List.mem_append] at h
  rcases h with (((hkept | hkept) | hchanged) | hchanged) | hfailure
  · exact Or.inl (hmodule hkept)
  · exact Or.inr (hextra hkept)
  · exact Or.inl (hmodule (((FileKind.exact_load hmodules).mem_changed path).1 hchanged).1)
  · exact Or.inr (hextra (((FileKind.exact_load hextras).mem_changed path).1 hchanged).1)
  · obtain ⟨failure, hmem, rfl⟩ := List.mem_map.1 hfailure
    obtain ⟨path, hpath, hfault⟩ := List.mem_filterMap.1 hmem
    rw [(failureAt_path hfault).1]
    exact Or.inl hpath

/-- A load tells of files that the directories it searches offer. -/
theorem offers_of_mem_paths (h : (host.loadDelta root config previous).outcome = .ok loaded) :
    ∃ directories, host.searched root config = .ok directories ∧
      ∀ path ∈ loaded.paths, ∃ fileName, host.Offers directories config fileName path := by
  obtain ⟨survey, hsurvey, rfl⟩ := loadDelta_eq_ok h
  obtain ⟨directories, found, hsearched, -, hmodules, hfound, -, hextras⟩ :=
    survey_eq_ok_iff.1 hsurvey
  refine ⟨directories, hsearched, fun path hpath => ?_⟩
  rcases mem_survey_of_mem_paths hsurvey hpath with hmodule | hextra
  · obtain ⟨fileName, hoffers, -⟩ := ((mem_discover hmodules).2 path).1 hmodule
    exact ⟨fileName, hoffers⟩
  · rw [hextras] at hextra
    obtain ⟨fileName, hoffers, -⟩ :=
      ((mem_discover hfound).2 path).1 (List.mem_filter.1 hextra).1
    exact ⟨fileName, hoffers⟩

/-- **Exclusions act below the directories that are searched.** Every file that a load tells of was
    found below one of them, and no exclusion leaves it out as seen from there. Where an exclusion
    matches its path in the project nonetheless, the exclusion concerns the directory. -/
theorem exclusions_below_directories (host : Host) (root : List String) (config : Config)
    (previous : Snapshot) {exclusions : List String} {loaded : LoadResult}
    (hexclusions : config.valueAt "exclude" (.list []) = .texts exclusions)
    (h : (host.loadDelta root config previous).outcome = .ok loaded) :
    ∃ directories, host.searched root config = .ok directories ∧
      ∀ path ∈ loaded.paths, ∃ directory ∈ directories, ∃ below,
        path = directory.pathStart ++ below ∧
        ∀ exclusion ∈ exclusions, matchesExclusion below exclusion = false ∧
          (matchesExclusion path exclusion = true →
            concernsDirectory directory.pathStart exclusion = true) := by
  obtain ⟨directories, hsearched, hoffered⟩ := offers_of_mem_paths h
  refine ⟨directories, hsearched, fun path hpath => ?_⟩
  obtain ⟨fileName, values, hvalues, directory, hdirectory, below, hbelow, rfl⟩ :=
    hoffered path hpath
  obtain ⟨_, _, -, -, _, -, hreached⟩ := hbelow
  rw [hexclusions] at hvalues
  obtain rfl : exclusions.map .text = values := Except.ok.inj hvalues
  refine ⟨directory, hdirectory, below, rfl, fun exclusion hexclusion => ?_⟩
  have hkept := hreached.kept
  rw [excludedByAny_texts, Except.ok.injEq, List.any_eq_false] at hkept
  refine ⟨Bool.eq_false_iff.2 (hkept exclusion hexclusion), fun hmatches => ?_⟩
  have hopen := endsOpen_searched hsearched directory hdirectory
  exact (matchesExclusion_append hopen hmatches).resolve_left (hkept exclusion hexclusion)

/-- Sources of which some are made by a program. -/
def generatedSources : Host :=
  let gen : Node := .directory [("x.py", .file (encodeUtf8 "a = 1\n"))]
  let src : Node := .directory [("b.py", .file (encodeUtf8 "b = 1\n")), ("gen", gen)]
  { files := .directory [("src", src)] }

/-- The settings that search the sources only, with an exclusion. -/
def sourcesWithout (exclusion : String) : Config :=
  [("source_dirs", .texts ["src"]), ("module_patterns", .texts ["*.py"]),
    ("exclude", .texts [exclusion])]

/-- Seen from the directory of the sources, the exclusion leaves the made ones out. -/
theorem exclusions_below_directories_gen :
    ∃ loaded, (generatedSources.loadDelta [] (sourcesWithout "gen") {}).outcome = .ok loaded ∧
      loaded.paths = ["src/b.py", "src/b.py"] ∧
      ∃ directories, generatedSources.searched [] (sourcesWithout "gen") = .ok directories ∧
        ∀ path ∈ loaded.paths, ∃ directory ∈ directories, ∃ below,
          path = directory.pathStart ++ below ∧
          ∀ exclusion ∈ ["gen"], matchesExclusion below exclusion = false ∧
            (matchesExclusion path exclusion = true →
              concernsDirectory directory.pathStart exclusion = true) := by
  have hrun : ((generatedSources.loadDelta [] (sourcesWithout "gen") {}).outcome.map
      LoadResult.paths).toOption = some ["src/b.py", "src/b.py"] := by decide +kernel
  obtain ⟨loaded, hloaded, hpaths⟩ := map_eq_ok.1 (toOption_eq_some.1 hrun)
  exact ⟨loaded, hloaded, hpaths,
    exclusions_below_directories generatedSources [] (sourcesWithout "gen") {} rfl hloaded⟩

/-- An exclusion that starts with the path of the directory that is searched matches the path of a
    module in the project, and the module is loaded all the same. -/
theorem excluded_file_is_loaded :
    ∃ loaded, (generatedSources.loadDelta [] (sourcesWithout "src/gen") {}).outcome = .ok loaded ∧
      ∃ m ∈ loaded.delta.modules, matchesExclusion m.path "src/gen" = true := by
  have hrun : ((generatedSources.loadDelta [] (sourcesWithout "src/gen") {}).outcome.map
      fun loaded => loaded.delta.modules.any fun m => matchesExclusion m.path "src/gen").toOption
        = some true := by decide +kernel
  obtain ⟨loaded, hloaded, hany⟩ := map_eq_ok.1 (toOption_eq_some.1 hrun)
  obtain ⟨m, hm, hmatches⟩ := List.any_eq_true.1 hany
  exact ⟨loaded, hloaded, m, hm, hmatches⟩

end Host

end ProjectReview
