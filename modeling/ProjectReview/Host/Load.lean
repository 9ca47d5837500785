import ProjectReview.Config.Schema
import ProjectReview.Digest.Sha256
import ProjectReview.Discovery.Search
import ProjectReview.Host.Console
import ProjectReview.Module.Parse
import ProjectReview.Packages.Metadata
import ProjectReview.Project.Delta
import ProjectReview.Toml.Reader

set_option autoImplicit false

/-! # Loading a project

`loadDelta` compares the files of a project with the `Snapshot` that the previous load left and
gives the delta to run reviews on, together with the next snapshot. A snapshot holds the digest of
every file that reached the reviews. Files that cannot be read are passed over. A module that cannot
be parsed does not reach the reviews; an earlier version of it that did is removed, and the module
is tried again on the next load. -/

namespace ProjectReview

/-- What a load looks at: the file tree, the installed packages, and whether warnings are in color.
-/
structure Host where
  files : Node
  installed : Installed := []
  colors : Bool := false

/-- The digests of the files that reached the reviews. -/
structure Snapshot where
  modules : Assoc String := []
  extraFiles : Assoc String := []
deriving DecidableEq, Repr

/-- What a load gives. -/
structure LoadResult where
  delta : Delta
  snapshot : Snapshot
  failures : List ParseFault

/-- The name of the manifest. -/
def manifestName : String := "pyproject.toml"

/-- A directory that is searched: its components, and what stands before the paths found there. -/
structure SourceDirectory where
  place : List String
  pathStart : String
deriving DecidableEq, Repr

namespace Host

/-- Reads a file of the project; one that cannot be read is passed over. -/
def readFile (host : Host) (root : List String) (path : String) : Journaled Fault (Option String) :=
  let whole := (Path.ofParts root).join (Path.ofText path)
  match host.files.readTextAt whole.parts whole with
  | .ok text => pure (some text)
  | .error fault => do
    Journaled.note (.fileSkipped path fault.summary)
    pure none

/-- The directories to search, for some entries of the configuration: those that exist inside of the
project. An entry that leads outside is passed over with a warning. -/
def sourceDirectories (host : Host) (root : List String) :
    List Value → Journaled Fault (List SourceDirectory)
  | [] => pure []
  | .text entry :: rest => do
    let place ← Journaled.ofExcept
      (host.files.resolve ((Path.ofParts root).join (Path.ofText entry)).parts)
    if !host.files.isDirectoryAt place then host.sourceDirectories root rest
    else match relativeTo? root place with
      | none =>
        Journaled.warn host.colors
          ("skipping source dir " ++ quoted entry ++ ": outside the project root")
        host.sourceDirectories root rest
      | some inside =>
        let others ← host.sourceDirectories root rest
        pure (⟨place, if inside.isEmpty then "" else Path.slashed inside ++ "/"⟩ :: others)
  | other :: _ => Journaled.fail (.shape (.notAPath other.typeName))

/-- The files found below some directories, as paths of the project. -/
def searchDirectories (host : Host) (patterns exclusions : List Value) :
    List SourceDirectory → Journaled Fault (List String)
  | [] => pure []
  | directory :: rest => do
    let found ← searchWith [] host.files directory.place patterns exclusions
    let others ← host.searchDirectories patterns exclusions rest
    pure (found.map (directory.pathStart ++ ·) ++ others)

/-- The files that a setting's patterns find, in ascending order and without repetitions. -/
def discover (host : Host) (directories : List SourceDirectory) (config : Config) (key : String) :
    Journaled Fault (List String) := do
  if directories.isEmpty then pure []
  else
    let patterns ← Journaled.ofExcept (((config.valueAt key (.list [])).items).mapError Fault.shape)
    let exclusions ←
      Journaled.ofExcept (((config.valueAt "exclude" (.list [])).items).mapError Fault.shape)
    let found ← host.searchDirectories patterns exclusions directories
    pure (sortTexts (distinct found))

/-- The project's manifest, if it can be read and is well formed. -/
def loadManifest (host : Host) (root : List String) : Journaled Fault (Option Manifest) := do
  if !host.files.isFileAt (root ++ [manifestName]) then pure none
  else match ← host.readFile root manifestName with
    | none => pure none
    | some source =>
      match Toml.read source with
      | .ok project => pure (some ⟨source, project, manifestName⟩)
      | .error (_, .number fault) => Journaled.fail (.shape (.integer fault))
      | .error (document, fault) =>
        Journaled.note (.manifestSkipped ("TOMLDecodeError: " ++ fault.message document.toList))
        pure none

/-- The dependencies that requirements name and that are installed. -/
def installedDependencies (host : Host) : List Value → Journaled Fault (List Dependency)
  | [] => pure []
  | requirement :: rest =>
    match requirementName requirement.shown with
    | none => host.installedDependencies rest
    | some name =>
      match host.installed.find? name with
      | none => do
        Journaled.note (.dependencySkipped name
          ("PackageNotFoundError: No package metadata was found for " ++ name))
        host.installedDependencies rest
      | some files => do
        let dependency ← Journaled.ofExcept (dependencyOf name files)
        let others ← host.installedDependencies rest
        pure (dependency :: others)

/-- The dependencies that a manifest declares and that are installed. -/
def loadDependencies (host : Host) (manifest : Option Manifest) :
    Journaled Fault (List Dependency) :=
  match manifest with
  | none => pure []
  | some m => do
    let declared ← Journaled.ofExcept ((do
      let project ← m.project.lookup "project" (.table [])
      let dependencies ← project.lookup "dependencies" (.list [])
      dependencies.items).mapError Fault.shape)
    host.installedDependencies declared

/-- What loading the modules at some paths gives. -/
structure LoadedModules where
  digests : Assoc String := []
  changed : List Module := []
  failures : List ParseFault := []

/-- Loads the modules at some paths. -/
def loadModules (host : Host) (root : List String) (previous : Assoc String) :
    List String → Journaled Fault LoadedModules
  | [] => pure {}
  | path :: rest => do
    match ← host.readFile root path with
    | none => host.loadModules root previous rest
    | some source =>
      let digest := contentDigest source
      if previous.get? path = some digest then
        let others ← host.loadModules root previous rest
        pure { others with digests := (path, digest) :: others.digests }
      else match Module.parse path source with
        | .error fault =>
          let others ← host.loadModules root previous rest
          pure { others with failures := fault :: others.failures }
        | .ok m =>
          let others ← host.loadModules root previous rest
          pure { others with
            digests := (path, digest) :: others.digests
            changed := m :: others.changed }

/-- Loads the extra files at some paths: their digests and those that are new or different. -/
def loadExtraFiles (host : Host) (root : List String) (previous : Assoc String) :
    List String → Journaled Fault (Assoc String × List ExtraFile)
  | [] => pure ([], [])
  | path :: rest => do
    match ← host.readFile root path with
    | none => host.loadExtraFiles root previous rest
    | some content =>
      let digest := contentDigest content
      let (digests, changed) ← host.loadExtraFiles root previous rest
      pure ((path, digest) :: digests,
        if previous.get? path = some digest then changed else ⟨path, content⟩ :: changed)

/-- The paths of an earlier snapshot that a later one lacks. -/
def missingFrom (later earlier : Assoc String) : List String :=
  earlier.keys.filter fun path => !later.has path

/-- Loads the project at a directory. -/
def loadDelta (host : Host) (root : List String) (config : Config) (previous : Snapshot) :
    Journaled Fault LoadResult := do
  Journaled.note .searchesForgotten
  let entries ← Journaled.ofExcept
    (((config.valueAt "source_dirs" (.texts ["."])).items).mapError Fault.shape)
  let directories ← host.sourceDirectories root entries
  let manifest ← host.loadManifest root
  let modulePaths ← host.discover directories config "module_patterns"
  let modules ← host.loadModules root previous.modules modulePaths
  let found ← host.discover directories config "extra_file_patterns"
  let extraPaths := found.filter fun path => !modulePaths.contains path && path != manifestName
  let (extraDigests, extraFiles) ← host.loadExtraFiles root previous.extraFiles extraPaths
  let dependencies ← host.loadDependencies manifest
  let delta : Delta := {
    manifest := manifest
    dependencies := dependencies
    modules := modules.changed
    extraFiles := extraFiles
    removedModules := missingFrom modules.digests previous.modules
    removedExtraFiles := missingFrom extraDigests previous.extraFiles }
  Journaled.note (.loaded (Path.ofParts root).text delta.modules.length
    delta.removedModules.length delta.extraFiles.length delta.removedExtraFiles.length)
  pure ⟨delta, ⟨modules.digests, extraDigests⟩, modules.failures⟩

end Host

end ProjectReview
