import ProjectReview.Proofs.Searching
import ProjectReview.Proofs.Snapshots

set_option autoImplicit false

/-! # Loads that go on from a snapshot

What a load finds out before it looks at the previous snapshot is its `survey`, and it fails just as
that does (`outcome_loadDelta`). On what the survey found it gives, for both kinds of files, the
digests and the changes that `Proofs.Snapshots` describes, and the failures of the modules that do
not parse.

From a snapshot that mirrors the project, a load ends like a load from none (`Mirrors.load_agree`).
So loads one after the other add up to a single load of the latest files, and each of them tells
just what changed, which is the main result, `loads_add_up`. -/

namespace ProjectReview

/-! ## Modules and extra files -/

theorem Module.path_of_parse {path source : String} {m : Module}
    (h : Module.parse path source = .ok m) : m.path = path := by
  rw [Module.parse] at h
  split at h
  · split at h
    · rw [← Except.ok.inj h]
    · exact nomatch h
  · split at h <;> exact nomatch h

theorem Module.path_of_parse_error {path source : String} {fault : ParseFault}
    (h : Module.parse path source = .error fault) : fault.path = path := by
  rw [Module.parse] at h
  split at h
  · split at h
    · exact nomatch h
    · rw [← Except.error.inj h]
  · split at h <;> rw [← Except.error.inj h]

/-- Modules are made by parsing. -/
def moduleKind : FileKind Module where
  pathOf := Module.path
  make path text := (Module.parse path text).toOption
  pathOf_make {path text m} h := by
    cases hparse : Module.parse path text with
    | error fault => rw [hparse] at h; exact nomatch h
    | ok parsed =>
      rw [hparse] at h
      rw [← Option.some.inj h]
      exact Module.path_of_parse hparse

/-- Every text makes an extra file. -/
def extraFileKind : FileKind ExtraFile where
  pathOf := ExtraFile.path
  make path text := some ⟨path, text⟩
  pathOf_make h := by rw [← Option.some.inj h]

/-- Why the text at a path makes no module, if it makes none. -/
def parseFault? (path text : String) : Option ParseFault :=
  match Module.parse path text with
  | .error fault => some fault
  | .ok _ => none

/-- The failure of a load at a path. -/
def failureAt (textAt : String → Option String) (previous : Assoc String) (path : String) :
    Option ParseFault :=
  (textAt path).bind fun text =>
    if previous.get? path = some (contentDigest text) then none else parseFault? path text

namespace Host

/-- The text of a file of the project, unless it cannot be read. -/
def textAt (host : Host) (root : List String) (path : String) : Option String :=
  let whole := (Path.ofParts root).join (Path.ofText path)
  (host.files.readTextAt whole.parts whole).toOption

theorem outcome_readFile (host : Host) (root : List String) (path : String) :
    (host.readFile root path).outcome = .ok (host.textAt root path) := by
  rw [readFile, textAt]
  split
  · next text htext => rw [htext]; rfl
  · next fault hfault => rw [hfault]; rfl

/-- A text that can be read is that of a file in the tree. -/
theorem textAt_eq_some {host : Host} {root : List String} {path text : String}
    (h : host.textAt root path = some text) :
    ∃ place content, host.files.get? place = some (.file content) ∧ readText content = .ok text := by
  have hread := toOption_eq_some.1 h
  rw [Node.readTextAt] at hread
  split at hread
  · exact nomatch hread
  · next content hcontent =>
    rw [Node.bytesAt] at hcontent
    split at hcontent
    · exact nomatch hcontent
    · next found hreach =>
      rw [← Except.ok.inj hcontent] at hread
      rw [Node.reach] at hreach
      split at hreach
      · exact nomatch hreach
      · next place _ =>
        split at hreach
        · next node hnode =>
          rw [Except.ok.inj hreach] at hnode
          exact ⟨place, found, hnode, mapError_eq_ok.1 hread⟩
        · exact nomatch hreach
    · exact nomatch hcontent

theorem outcome_loadModules (host : Host) (root : List String) (previous : Assoc String)
    (paths : List String) :
    (host.loadModules root previous paths).outcome = .ok {
      digests := moduleKind.digests (host.textAt root) previous paths
      changed := moduleKind.changes (host.textAt root) previous paths
      failures := paths.filterMap (failureAt (host.textAt root) previous) } := by
  induction paths with
  | nil => rfl
  | cons path rest ih =>
    rw [loadModules, Journaled.outcome_bind, outcome_readFile, FileKind.digests_cons,
      FileKind.changes_cons, List.filterMap_cons]
    cases htext : host.textAt root path with
    | none => simpa [Except.bind, FileKind.digestAt, FileKind.changeAt, failureAt, htext] using ih
    | some source =>
      by_cases hsame : previous.get? path = some (contentDigest source)
      · simp [-bind_pure_comp, Except.bind, FileKind.digestAt, FileKind.changeAt, failureAt, htext,
          hsame, ih]
      · cases hparse : Module.parse path source with
        | error fault =>
          have hmake : moduleKind.make path source = none := by
            simp [moduleKind, hparse, Except.toOption]
          have hfault : parseFault? path source = some fault := by simp [parseFault?, hparse]
          simp [-bind_pure_comp, Except.bind, FileKind.digestAt, FileKind.changeAt, failureAt,
            htext, hsame, hparse, hmake, hfault, ih]
        | ok m =>
          have hmake : moduleKind.make path source = some m := by
            simp [moduleKind, hparse, Except.toOption]
          have hfault : parseFault? path source = none := by simp [parseFault?, hparse]
          simp [-bind_pure_comp, Except.bind, FileKind.digestAt, FileKind.changeAt, failureAt,
            htext, hsame, hparse, hmake, hfault, ih]

theorem outcome_loadExtraFiles (host : Host) (root : List String) (previous : Assoc String)
    (paths : List String) :
    (host.loadExtraFiles root previous paths).outcome = .ok
      (extraFileKind.digests (host.textAt root) previous paths,
        extraFileKind.changes (host.textAt root) previous paths) := by
  induction paths with
  | nil => rfl
  | cons path rest ih =>
    rw [loadExtraFiles, Journaled.outcome_bind, outcome_readFile, FileKind.digests_cons,
      FileKind.changes_cons]
    cases htext : host.textAt root path with
    | none => simpa [Except.bind, FileKind.digestAt, FileKind.changeAt, htext] using ih
    | some content =>
      have hmake : extraFileKind.make path content = some ⟨path, content⟩ := rfl
      by_cases hsame : previous.get? path = some (contentDigest content)
      · simp [-bind_pure_comp, Except.bind, FileKind.digestAt, FileKind.changeAt, htext, hsame, ih]
      · simp [-bind_pure_comp, Except.bind, FileKind.digestAt, FileKind.changeAt, htext, hsame,
          hmake, ih]

/-! ## Whole loads -/

/-- What a load finds out before it looks at the previous snapshot. -/
structure Survey where
  manifest : Option Manifest
  dependencies : List Dependency
  modulePaths : List String
  extraPaths : List String

/-- Reads the manifest and the dependencies and finds the files, in the order of a load. -/
def survey (host : Host) (root : List String) (config : Config) : Except Fault Survey := do
  let entries ← ((config.valueAt "source_dirs" (.texts ["."])).items).mapError Fault.shape
  let directories ← (host.sourceDirectories root entries).outcome
  let manifest ← (host.loadManifest root).outcome
  let modulePaths ← (host.discover directories config "module_patterns").outcome
  let found ← (host.discover directories config "extra_file_patterns").outcome
  let dependencies ← (host.loadDependencies manifest).outcome
  pure { manifest, dependencies, modulePaths
         extraPaths := found.filter fun path => !modulePaths.contains path && path != manifestName }

/-- What a load gives on the files that a survey found. -/
def loadResult (host : Host) (root : List String) (previous : Snapshot) (survey : Survey) :
    LoadResult :=
  let textAt := host.textAt root
  let modules := moduleKind.digests textAt previous.modules survey.modulePaths
  let extraFiles := extraFileKind.digests textAt previous.extraFiles survey.extraPaths
  { delta := {
      manifest := survey.manifest
      dependencies := survey.dependencies
      modules := moduleKind.changes textAt previous.modules survey.modulePaths
      extraFiles := extraFileKind.changes textAt previous.extraFiles survey.extraPaths
      removedModules := missingFrom modules previous.modules
      removedExtraFiles := missingFrom extraFiles previous.extraFiles }
    snapshot := ⟨modules, extraFiles⟩
    failures := survey.modulePaths.filterMap (failureAt textAt previous.modules) }

/-- **A load fails just as its survey does**, whatever the previous snapshot. -/
theorem outcome_loadDelta (host : Host) (root : List String) (config : Config)
    (previous : Snapshot) :
    (host.loadDelta root config previous).outcome
      = (host.survey root config).map (host.loadResult root previous) := by
  simp only [loadDelta, survey, Journaled.outcome_bind, Journaled.outcome_note,
    Journaled.outcome_ofExcept, outcome_loadModules, outcome_loadExtraFiles, Journaled.outcome_pure]
  simp only [bind, map_bind]
  rfl

/-- The directories that a load searches. -/
def searched (host : Host) (root : List String) (config : Config) :
    Except Fault (List SourceDirectory) := do
  let entries ← ((config.valueAt "source_dirs" (.texts ["."])).items).mapError Fault.shape
  (host.sourceDirectories root entries).outcome

/-- A survey succeeds when all its parts do. -/
theorem survey_eq_ok_iff {host : Host} {root : List String} {config : Config} {survey : Survey} :
    host.survey root config = .ok survey ↔ ∃ directories found,
      host.searched root config = .ok directories ∧
      (host.loadManifest root).outcome = .ok survey.manifest ∧
      (host.discover directories config "module_patterns").outcome = .ok survey.modulePaths ∧
      (host.discover directories config "extra_file_patterns").outcome = .ok found ∧
      (host.loadDependencies survey.manifest).outcome = .ok survey.dependencies ∧
      survey.extraPaths = found.filter fun path =>
        !survey.modulePaths.contains path && path != manifestName := by
  constructor
  · intro h
    obtain ⟨entries, hentries, h⟩ := bind_eq_ok.1 h
    obtain ⟨directories, hdirectories, h⟩ := bind_eq_ok.1 h
    obtain ⟨manifest, hmanifest, h⟩ := bind_eq_ok.1 h
    obtain ⟨modulePaths, hmodulePaths, h⟩ := bind_eq_ok.1 h
    obtain ⟨found, hfound, h⟩ := bind_eq_ok.1 h
    obtain ⟨dependencies, hdependencies, h⟩ := bind_eq_ok.1 h
    obtain rfl := Except.ok.inj h
    exact ⟨directories, found, bind_eq_ok.2 ⟨entries, hentries, hdirectories⟩, hmanifest,
      hmodulePaths, hfound, hdependencies, rfl⟩
  · rintro ⟨directories, found, hsearched, hmanifest, hmodules, hfound, hdependencies, hextras⟩
    obtain ⟨entries, hentries, hdirectories⟩ := bind_eq_ok.1 hsearched
    refine bind_eq_ok.2 ⟨entries, hentries, bind_eq_ok.2 ⟨directories, hdirectories, ?_⟩⟩
    refine bind_eq_ok.2 ⟨_, hmanifest, bind_eq_ok.2 ⟨_, hmodules, ?_⟩⟩
    refine bind_eq_ok.2 ⟨found, hfound, bind_eq_ok.2 ⟨_, hdependencies, ?_⟩⟩
    exact congrArg Except.ok (by rw [← hextras])

theorem endsOpen_searched {host : Host} {root : List String} {config : Config}
    {directories : List SourceDirectory} (h : host.searched root config = .ok directories) :
    ∀ directory ∈ directories, EndsOpen directory.pathStart := by
  obtain ⟨entries, -, hdirectories⟩ := bind_eq_ok.1 h
  exact endsOpen_pathStart hdirectories

theorem survey_eq_ok {host : Host} {root : List String} {config : Config} {survey : Survey}
    (h : host.survey root config = .ok survey) :
    ∃ directories found, (∀ directory ∈ directories, EndsOpen directory.pathStart) ∧
      (host.discover directories config "module_patterns").outcome = .ok survey.modulePaths ∧
      (host.discover directories config "extra_file_patterns").outcome = .ok found ∧
      survey.extraPaths = found.filter fun path =>
        !survey.modulePaths.contains path && path != manifestName := by
  obtain ⟨directories, found, hsearched, -, hmodules, hfound, -, hextras⟩ := survey_eq_ok_iff.1 h
  exact ⟨directories, found, endsOpen_searched hsearched, hmodules, hfound, hextras⟩

theorem survey_paths {host : Host} {root : List String} {config : Config} {survey : Survey}
    (h : host.survey root config = .ok survey) :
    survey.modulePaths.Pairwise (· < ·) ∧ survey.extraPaths.Pairwise (· < ·) ∧
      ∀ path ∈ survey.extraPaths, path ∉ survey.modulePaths ∧ path ≠ manifestName := by
  obtain ⟨directories, found, -, hmodules, hfound, hextras⟩ := survey_eq_ok h
  rw [hextras]
  refine ⟨(mem_discover hmodules).1, (mem_discover hfound).1.sublist List.filter_sublist, ?_⟩
  intro path hpath
  simpa using (List.mem_filter.1 hpath).2

/-- The path's last segment is a name that the patterns for modules match. -/
def ModulePath (config : Config) (path : String) : Prop :=
  Wanted config "module_patterns" (lastSegment path)

/-- **Modules are told from extra files by their names alone**, where names have no slashes. -/
theorem survey_modulePath {host : Host} {root : List String} {config : Config} {survey : Survey}
    (h : host.survey root config = .ok survey) (hfiles : host.files.WellNamed) :
    (∀ path ∈ survey.modulePaths, ModulePath config path) ∧
      ∀ path ∈ survey.extraPaths, ¬ ModulePath config path := by
  obtain ⟨directories, found, hstarts, hmodules, hfound, hextras⟩ := survey_eq_ok h
  constructor
  · intro path hpath
    obtain ⟨fileName, hoffers, hwanted⟩ := ((mem_discover hmodules).2 path).1 hpath
    rw [ModulePath, hoffers.lastSegment hfiles hstarts]
    exact hwanted
  · -- The same directories offer the file to the patterns for modules.
    intro path hpath hwanted
    rw [hextras] at hpath
    obtain ⟨hpath, hothers⟩ := List.mem_filter.1 hpath
    obtain ⟨fileName, hoffers, -⟩ := ((mem_discover hfound).2 path).1 hpath
    rw [ModulePath, hoffers.lastSegment hfiles hstarts] at hwanted
    have hmodule := ((mem_discover hmodules).2 path).2 ⟨fileName, hoffers, hwanted⟩
    simp [hmodule] at hothers

/-! ## Exact deltas -/

end Host

/-- The paths of the modules that a delta changes or removes. -/
def Delta.modulePart (delta : Delta) : List String :=
  delta.modules.map Module.path ++ delta.removedModules

/-- The paths of the extra files that a delta changes or removes. -/
def Delta.extraPart (delta : Delta) : List String :=
  delta.extraFiles.map ExtraFile.path ++ delta.removedExtraFiles

/-- A load tells just what changed since the earlier snapshot, of modules and of extra files; no
    path is kept as both, the manifest is not an extra file, and what does not parse is not kept. -/
structure LoadResult.Exact (earlier : Snapshot) (loaded : LoadResult) : Prop where
  modules : FileKind.Exact earlier.modules loaded.snapshot.modules
    (loaded.delta.modules.map Module.path) loaded.delta.removedModules
  extraFiles : FileKind.Exact earlier.extraFiles loaded.snapshot.extraFiles
    (loaded.delta.extraFiles.map ExtraFile.path) loaded.delta.removedExtraFiles
  apart : loaded.snapshot.modules.keys.Disjoint loaded.snapshot.extraFiles.keys
  manifest : manifestName ∉ loaded.snapshot.extraFiles.keys
  failures : ∀ failure ∈ loaded.failures, failure.path ∉ loaded.snapshot.modules.keys

namespace Host

variable {host : Host} {root : List String} {config : Config} {previous : Snapshot}
  {loaded : LoadResult}

theorem loadDelta_eq_ok (h : (host.loadDelta root config previous).outcome = .ok loaded) :
    ∃ survey, host.survey root config = .ok survey ∧
      host.loadResult root previous survey = loaded := by
  rw [outcome_loadDelta] at h
  exact map_eq_ok.1 h

/-- A module that fails to parse is not kept. -/
theorem failureAt_path {textAt : String → Option String} {previous : Assoc String} {path : String}
    {failure : ParseFault} (h : failureAt textAt previous path = some failure) :
    failure.path = path ∧ moduleKind.digestAt textAt previous path = none := by
  obtain ⟨text, htext, h⟩ := Option.bind_eq_some_iff.1 h
  split at h
  · exact nomatch h
  · next hother =>
    rw [parseFault?] at h
    split at h
    · next fault hparse =>
      rw [← Option.some.inj h]
      have hmake : moduleKind.make path text = none := by
        simp [moduleKind, hparse, Except.toOption]
      exact ⟨Module.path_of_parse_error hparse, by
        simp [FileKind.digestAt, htext, hother, hmake]⟩
    · exact nomatch h

theorem exact_loadDelta (h : (host.loadDelta root config previous).outcome = .ok loaded) :
    loaded.Exact previous := by
  obtain ⟨survey, hsurvey, rfl⟩ := loadDelta_eq_ok h
  obtain ⟨hmodules, hextras, hothers⟩ := survey_paths hsurvey
  refine ⟨FileKind.exact_load hmodules, FileKind.exact_load hextras, ?_, ?_, ?_⟩
  · intro path hmodule hextra
    have hextra := ((FileKind.mem_keys_digests _ _).1 hextra).1
    exact (hothers path hextra).1 ((FileKind.mem_keys_digests _ _).1 hmodule).1
  · intro hmanifest
    exact (hothers _ ((FileKind.mem_keys_digests _ _).1 hmanifest).1).2 rfl
  · intro failure hfailure hkept
    obtain ⟨path, -, hpath⟩ := List.mem_filterMap.1 hfailure
    obtain ⟨rfl, hnone⟩ := failureAt_path hpath
    have hsome := ((FileKind.mem_keys_digests _ _).1 hkept).2
    rw [hnone] at hsome
    exact nomatch hsome

/-- The names of the paths of a snapshot tell modules from extra files. -/
structure Apart (config : Config) (snapshot : Snapshot) : Prop where
  modules : ∀ path ∈ snapshot.modules.keys, ModulePath config path
  extraFiles : ∀ path ∈ snapshot.extraFiles.keys, ¬ ModulePath config path

theorem apart_loadDelta (h : (host.loadDelta root config previous).outcome = .ok loaded)
    (hfiles : host.files.WellNamed) : Apart config loaded.snapshot := by
  obtain ⟨survey, hsurvey, rfl⟩ := loadDelta_eq_ok h
  obtain ⟨hmodules, hextras⟩ := survey_modulePath hsurvey hfiles
  constructor
  · intro path hpath
    exact hmodules path ((FileKind.mem_keys_digests _ _).1 hpath).1
  · intro path hpath
    exact hextras path ((FileKind.mem_keys_digests _ _).1 hpath).1

end Host

/-- A path that is changed or removed is kept now or was kept before. -/
theorem FileKind.Exact.mem_part {earlier later : Assoc String} {changed removed : List String}
    (h : Exact earlier later changed removed) {path : String} (hpath : path ∈ changed ++ removed) :
    path ∈ later.keys ∨ path ∈ earlier.keys := by
  rcases List.mem_append.1 hpath with hchanged | hremoved
  · exact Or.inl ((h.mem_changed path).1 hchanged).1
  · exact Or.inr ((h.mem_removed path).1 hremoved).1

theorem LoadResult.Exact.disjoint_parts {config : Config} {earlier : Snapshot} {loaded : LoadResult}
    (h : loaded.Exact earlier) (hearlier : Host.Apart config earlier)
    (hlater : Host.Apart config loaded.snapshot) :
    loaded.delta.modulePart.Disjoint loaded.delta.extraPart := by
  intro path hmodule hextra
  have hwanted : Host.ModulePath config path :=
    (h.modules.mem_part hmodule).elim (hlater.modules path) (hearlier.modules path)
  have hother : ¬ Host.ModulePath config path :=
    (h.extraFiles.mem_part hextra).elim (hlater.extraFiles path) (hearlier.extraFiles path)
  exact hother hwanted

/-! ## Loads from a mirror -/

/-- The digests of a snapshot are those of the texts from which the files of the project were made.
-/
structure Snapshot.Mirrors (texts : Set String) (snapshot : Snapshot) (project : Project) : Prop where
  modules : moduleKind.Mirrors texts snapshot.modules project.modules
  extraFiles : extraFileKind.Mirrors texts snapshot.extraFiles project.extraFiles

namespace Snapshot

variable {texts : Set String} {snapshot : Snapshot} {project : Project} {host : Host}
  {root : List String} {config : Config}

theorem Mirrors.empty (texts : Set String) : Mirrors texts {} {} :=
  ⟨FileKind.Mirrors.empty _ _, FileKind.Mirrors.empty _ _⟩

variable (h : snapshot.Mirrors texts project) (hdigests : Set.InjOn contentDigest texts)
  (htexts : ∀ path text, host.textAt root path = some text → text ∈ texts)

include h hdigests htexts

theorem Mirrors.next {loaded : LoadResult}
    (hloaded : (host.loadDelta root config snapshot).outcome = .ok loaded) :
    loaded.snapshot.Mirrors texts (project.apply loaded.delta) := by
  obtain ⟨survey, -, rfl⟩ := Host.loadDelta_eq_ok hloaded
  exact ⟨h.modules.load hdigests htexts _, h.extraFiles.load hdigests htexts _⟩

/-- A module that is kept as it was would parse again, so a load from a mirror fails where a load
    from none does. -/
theorem Mirrors.failureAt_eq (path : String) :
    failureAt (host.textAt root) snapshot.modules path = failureAt (host.textAt root) [] path := by
  cases htext : host.textAt root path with
  | none => simp [failureAt, htext]
  | some text =>
    by_cases hsame : snapshot.modules.get? path = some (contentDigest text)
    · obtain ⟨m, hmake, -⟩ := h.modules.made hdigests (htexts path text htext) hsame
      have hfault : parseFault? path text = none := by
        rw [parseFault?]
        split
        · next fault hparse => simp [moduleKind, hparse, Except.toOption] at hmake
        · rfl
      simp [failureAt, htext, hfault]
    · simp [failureAt, htext, hsame, Assoc.get?]

/-- **A load from a mirror ends like a load from none**: with the same failure, or with the same
    snapshot, the same modules that do not parse and the same project. -/
theorem Mirrors.load_agree (config : Config) :
    SameOutcome
      (fun loaded first => loaded.snapshot = first.snapshot ∧ loaded.failures = first.failures ∧
        (project.apply loaded.delta).Same (({} : Project).apply first.delta))
      (host.loadDelta root config snapshot).outcome (host.loadDelta root config {}).outcome := by
  have hempty := Mirrors.empty texts
  rw [Host.outcome_loadDelta, Host.outcome_loadDelta]
  refine (SameOutcome.refl _).map ?_
  rintro survey _ rfl
  refine ⟨?_, ?_, rfl, rfl, fun path => ?_, fun path => ?_⟩
  · rw [Host.loadResult, Host.loadResult, Snapshot.mk.injEq]
    simp only [FileKind.digests, funext (h.modules.digestAt_eq hdigests htexts),
      funext (h.extraFiles.digestAt_eq hdigests htexts), and_self]
  · simp only [Host.loadResult, funext (h.failureAt_eq hdigests htexts)]
  · exact (h.modules.get?_takeIn_changes hdigests htexts _ path).trans
      (hempty.modules.get?_takeIn_changes hdigests htexts _ path).symm
  · exact (h.extraFiles.get?_takeIn_changes hdigests htexts _ path).trans
      (hempty.extraFiles.get?_takeIn_changes hdigests htexts _ path).symm

end Snapshot

/-! ## Loads one after the other -/

namespace Host

/-- The texts that can be read in one of the projects. -/
def occurring (root : List String) (hosts : List Host) : Set String :=
  { text | ∃ host ∈ hosts, ∃ path, host.textAt root path = some text }

/-- Loads from the snapshot that the previous load left, and takes the delta into the project. -/
def loadStep (root : List String) (config : Config) (now : Snapshot × Project) (host : Host) :
    Except Fault (Snapshot × Project) :=
  (host.loadDelta root config now.1).outcome.map fun loaded =>
    (loaded.snapshot, now.2.apply loaded.delta)

/-- Loads one after the other, the first from no snapshot: the snapshot that the last one left, and
    the project that the deltas add up to. -/
def loadAll (root : List String) (config : Config) (hosts : List Host) :
    Except Fault (Snapshot × Project) :=
  hosts.foldlM (loadStep root config) ({}, {})

variable {root : List String} {config : Config} {hosts : List Host}

/-- What holds at the start and is kept by every load holds after all of them. -/
theorem foldlM_loadStep {motive : Snapshot → Project → Prop} {start last : Snapshot × Project}
    (hstep : ∀ host ∈ hosts, ∀ snapshot project loaded, motive snapshot project →
      (host.loadDelta root config snapshot).outcome = .ok loaded →
      motive loaded.snapshot (project.apply loaded.delta))
    (hstart : motive start.1 start.2)
    (h : hosts.foldlM (loadStep root config) start = .ok last) : motive last.1 last.2 := by
  induction hosts generalizing start with
  | nil =>
    obtain rfl : start = last := Except.ok.inj h
    exact hstart
  | cons host rest ih =>
    rw [List.foldlM_cons] at h
    obtain ⟨now, hnow, h⟩ := bind_eq_ok.1 h
    obtain ⟨loaded, hloaded, rfl⟩ := map_eq_ok.1 hnow
    refine ih (fun other hother => hstep other (List.mem_cons_of_mem _ hother)) ?_ h
    exact hstep host List.mem_cons_self _ _ _ hstart hloaded

theorem mirrors_loadAll {texts : Set String} {last : Snapshot × Project}
    (h : loadAll root config hosts = .ok last) (hdigests : Set.InjOn contentDigest texts)
    (htexts : occurring root hosts ⊆ texts) : last.1.Mirrors texts last.2 := by
  refine foldlM_loadStep ?_ (Snapshot.Mirrors.empty texts) h
  intro host hhost snapshot project loaded hmirrors hloaded
  exact hmirrors.next hdigests (fun path text htext => htexts ⟨host, hhost, path, htext⟩) hloaded

theorem manifest_loadAll {last : Snapshot × Project} (h : loadAll root config hosts = .ok last) :
    manifestName ∉ last.1.extraFiles.keys := by
  refine foldlM_loadStep (motive := fun snapshot _ => manifestName ∉ snapshot.extraFiles.keys) ?_
    List.not_mem_nil h
  intro host _ snapshot project loaded _ hloaded
  exact (exact_loadDelta hloaded).manifest

theorem apart_loadAll {last : Snapshot × Project} (h : loadAll root config hosts = .ok last)
    (hfiles : ∀ host ∈ hosts, host.files.WellNamed) : Apart config last.1 := by
  refine foldlM_loadStep (motive := fun snapshot _ => Apart config snapshot) ?_
    ⟨by simp [Assoc.keys], by simp [Assoc.keys]⟩ h
  intro host hhost snapshot project loaded _ hloaded
  exact apart_loadDelta hloaded (hfiles host hhost)

/-- **Loads add up.** When loads one after the other, each from the snapshot that the previous one
    left, succeed, and different texts have different digests, then the deltas add up to the project
    that a single load of the latest files gives. Each delta tells just what changed since the
    previous snapshot, and never tells of the manifest as an extra file; where names have no
    slashes, no path is in both parts of it. -/
theorem loads_add_up (root : List String) (config : Config) (hosts : List Host) (host : Host)
    {snapshot : Snapshot} {project : Project} {loaded : LoadResult}
    (hhosts : loadAll root config hosts = .ok (snapshot, project))
    (hloaded : (host.loadDelta root config snapshot).outcome = .ok loaded)
    (hdigests : Set.InjOn contentDigest (occurring root (hosts ++ [host]))) :
    (∃ first, (host.loadDelta root config {}).outcome = .ok first ∧
      (project.apply loaded.delta).Same (({} : Project).apply first.delta)) ∧
    loaded.Exact snapshot ∧ manifestName ∉ loaded.delta.extraPart ∧
    ((∀ host' ∈ hosts ++ [host], host'.files.WellNamed) →
      loaded.delta.modulePart.Disjoint loaded.delta.extraPart) := by
  have hexact := exact_loadDelta hloaded
  refine ⟨?_, hexact, ?_, ?_⟩
  · have hmirrors : snapshot.Mirrors (occurring root (hosts ++ [host])) project := by
      refine mirrors_loadAll hhosts hdigests ?_
      rintro text ⟨other, hother, htext⟩
      exact ⟨other, List.mem_append_left _ hother, htext⟩
    have hagree := hmirrors.load_agree hdigests
      (fun path text htext => ⟨host, by simp, path, htext⟩) config
    obtain ⟨first, hfirst, -, -, hsame⟩ := hagree.exists_ok hloaded
    exact ⟨first, hfirst, hsame⟩
  · intro hmanifest
    rcases hexact.extraFiles.mem_part hmanifest with hnow | hbefore
    · exact hexact.manifest hnow
    · exact manifest_loadAll hhosts hbefore
  · intro hfiles
    have hbefore := apart_loadAll hhosts fun other hother =>
      hfiles other (List.mem_append_left _ hother)
    exact hexact.disjoint_parts hbefore (apart_loadDelta hloaded (hfiles host (by simp)))

/-- A project with a single file. -/
def singleFile (name text : String) : Host :=
  { files := .directory [(name, .file (encodeUtf8 text))] }

theorem wellNamed_singleFile {name : String} (h : '/' ∉ name.toList) (text : String) :
    (singleFile name text).files.WellNamed :=
  .directory (by simpa using h) (by simpa using .file _)

/-- In a project with a single file, its text is all that can be read. -/
theorem textAt_singleFile {root : List String} {path text name read : String}
    (h : (singleFile name text).textAt root path = some read) :
    readText (encodeUtf8 text) = .ok read := by
  obtain ⟨place, content, hfound, hread⟩ := textAt_eq_some h
  rw [singleFile] at hfound
  cases place with
  | nil => exact nomatch Option.some.inj hfound
  | cons first rest =>
    by_cases hname : name = first
    · cases rest with
      | nil =>
        have hcontent : encodeUtf8 text = content := by
          simpa [Node.get?, Node.entries, Assoc.get?, hname] using hfound
        rw [hcontent]
        exact hread
      | cons second rest => simp [Node.get?, Node.entries, Assoc.get?, hname] at hfound
    · simp [Node.get?, Node.entries, Assoc.get?, hname] at hfound

theorem injOn_singleFiles (root : List String) (name : String) {texts : List String}
    (hread : ∀ text ∈ texts, readText (encodeUtf8 text) = .ok text)
    (hnodup : (texts.map contentDigest).Nodup) :
    Set.InjOn contentDigest (occurring root (texts.map (singleFile name))) := by
  have hoccurring : ∀ text ∈ occurring root (texts.map (singleFile name)), text ∈ texts := by
    rintro text ⟨host, hhost, path, htext⟩
    obtain ⟨given, hgiven, rfl⟩ := List.mem_map.1 hhost
    have hsame := (hread given hgiven).symm.trans (textAt_singleFile htext)
    exact Except.ok.inj hsame ▸ hgiven
  intro a ha b hb
  exact List.inj_on_of_nodup_map hnodup (hoccurring a ha) (hoccurring b hb)

/-- A module that is edited between two loads. -/
theorem loads_add_up_edited :
    let config : Config := [("module_patterns", .texts ["*.py"])]
    let before := singleFile "a.py" "x = 1\n"
    let now := singleFile "a.py" "y = 2\n"
    ∃ snapshot project loaded, loadAll [] config [before] = .ok (snapshot, project) ∧
      (now.loadDelta [] config snapshot).outcome = .ok loaded ∧
      loaded.delta.modulePart = ["a.py"] ∧
      (∃ first, (now.loadDelta [] config {}).outcome = .ok first ∧
        (project.apply loaded.delta).Same (({} : Project).apply first.delta)) ∧
      loaded.Exact snapshot ∧ manifestName ∉ loaded.delta.extraPart ∧
      loaded.delta.modulePart.Disjoint loaded.delta.extraPart := by
  intro config before now
  have hrun : ((loadAll [] config [before]).bind fun last =>
      (now.loadDelta [] config last.1).outcome.map fun loaded =>
        loaded.delta.modulePart).toOption = some ["a.py"] := by decide +kernel
  obtain ⟨⟨snapshot, project⟩, hbefore, hrun⟩ := bind_eq_ok.1 (toOption_eq_some.1 hrun)
  obtain ⟨loaded, hloaded, hpart⟩ := map_eq_ok.1 hrun
  have hread : ∀ text ∈ ["x = 1\n", "y = 2\n"], readText (encodeUtf8 text) = .ok text := by
    simp only [List.mem_cons, List.not_mem_nil, or_false, forall_eq_or_imp, forall_eq]
    exact ⟨rfl, rfl⟩
  have hdigests : Set.InjOn contentDigest (occurring [] ([before] ++ [now])) :=
    injOn_singleFiles [] "a.py" hread (by decide +kernel)
  obtain ⟨hfirst, hexact, hmanifest, hparts⟩ :=
    loads_add_up [] config [before] now hbefore hloaded hdigests
  have hnames : ∀ host ∈ [before] ++ [now], host.files.WellNamed := by
    intro host hhost
    rcases List.mem_pair.1 hhost with rfl | rfl
    · exact wellNamed_singleFile (by decide) _
    · exact wellNamed_singleFile (by decide) _
  exact ⟨_, _, _, hbefore, hloaded, hpart, hfirst, hexact, hmanifest, hparts hnames⟩

end Host

end ProjectReview
