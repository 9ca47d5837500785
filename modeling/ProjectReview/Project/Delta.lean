import ProjectReview.Order.StableSort
import ProjectReview.Project.Part

set_option autoImplicit false

/-! # Projects and deltas

A `Delta` is what changed since the previous run: the manifest and the dependencies as they are now,
the modules and extra files that are new or different, and the paths of those that are gone. A
`Project` is the state that deltas add up to: `apply` takes one in, and `toDelta` turns the state
back into the single delta that a first run over it receives. -/

namespace ProjectReview

/-- What changed since the previous run. -/
structure Delta where
  manifest : Option Manifest := none
  dependencies : List Dependency := []
  modules : List Module := []
  extraFiles : List ExtraFile := []
  removedModules : List String := []
  removedExtraFiles : List String := []
deriving Repr

/-- The latest content of every part that is alive. -/
structure Project where
  manifest : Option Manifest := none
  dependencies : List Dependency := []
  modules : Assoc Module := []
  extraFiles : Assoc ExtraFile := []
deriving Repr

namespace Project

/-- The files with new and changed ones taken in under their paths, then the removed ones dropped. -/
def takeIn {α : Type} (pathOf : α → String) (files : Assoc α) (changed : List α)
    (removed : List String) : Assoc α :=
  removed.foldl Assoc.erase (changed.foldl (fun map a => map.set (pathOf a) a) files)

/-- The state after a delta. -/
def apply (project : Project) (delta : Delta) : Project where
  manifest := delta.manifest
  dependencies := delta.dependencies
  modules := takeIn Module.path project.modules delta.modules delta.removedModules
  extraFiles := takeIn ExtraFile.path project.extraFiles delta.extraFiles delta.removedExtraFiles

/-- The entries of a map in ascending order of keys. -/
def sortedEntries {α : Type} (map : Assoc α) : List (String × α) :=
  sortBy (fun a b => textLe a.1 b.1) map

/-- The delta that a first run over this state receives. -/
def toDelta (project : Project) : Delta where
  manifest := project.manifest
  dependencies := project.dependencies
  modules := (sortedEntries project.modules).map (·.2)
  extraFiles := (sortedEntries project.extraFiles).map (·.2)

end Project

end ProjectReview
