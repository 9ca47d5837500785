import ProjectReview.Project.Delta
import ProjectReview.Review.Basic

set_option autoImplicit false

/-! # Knowledge caches

A review's `Cache` holds its knowledge of each part of a project. `Cache.update` derives the next
cache from a delta: the knowledge of the manifest and of the dependencies is drawn anew, that of
modules and extra files only where the delta changes them. A path that is both changed and removed
counts as removed. `Cache.aggregate` folds the whole cache: manifest, dependencies, modules and
extra files, the files in ascending order of paths. -/

namespace ProjectReview

/-- A review's knowledge of each part of a project. -/
structure Cache (K : Type) where
  manifest : Option K := none
  dependencies : Option K := none
  modules : Assoc K := []
  extraFiles : Assoc K := []

/-- The next knowledge of one kind of file, and how it came about. -/
structure FileUpdate (K : Type) where
  entries : Assoc K
  recomputed : Nat
  reused : Nat
  dropped : Nat

section Update

variable {ε K : Type}

/-- The parts to draw knowledge from: the last given version of each changed path that is not
removed, in ascending order of paths. -/
def partsToInspect (changed : List (String × Part)) (removed : List String) : List (String × Part) :=
  Project.sortedEntries
    ((Assoc.ofEntries changed).filter fun entry => !removed.contains entry.1)

/-- The knowledge of a path in front of that of others; a part without knowledge leaves no entry. -/
def addKnown (path : String) (knowledge : Option K) (others : Assoc K) : Assoc K :=
  match knowledge with
  | some k => (path, k) :: others
  | none => others

/-- Draws the knowledge of each part in turn. -/
def inspectAll (review : Review ε K) : List (String × Part) → Journaled ε (Assoc K)
  | [] => pure []
  | (path, part) :: rest => do
    let knowledge ← review.extract part
    let others ← inspectAll review rest
    pure (addKnown path knowledge others)

/-- Draws the knowledge of the parts side by side: every part is looked at, and of the failures that
of the first part counts. Workers may look at the parts in any order; the journal has them in the
order given. -/
def inspectPooled (review : Review ε K) : List (String × Part) → Journaled ε (Assoc K)
  | [] => pure []
  | (path, part) :: rest =>
    let drawn := review.extract part
    let others := inspectPooled review rest
    ⟨drawn.events ++ others.events, do
      let knowledge ← drawn.outcome
      let entries ← others.outcome
      pure (addKnown path knowledge entries)⟩

/-- Draws the knowledge of the parts, side by side if there are several workers and there is work for
more than one. -/
def inspectParts (review : Review ε K) (pooled : Bool) (parts : List (String × Part)) :
    Journaled ε (Assoc K) :=
  if pooled && decide (1 < parts.length) then inspectPooled review parts else inspectAll review parts

/-- The knowledge that an update keeps: that of paths which are neither removed nor looked at anew. -/
def keptEntries (previous : Assoc K) (removed : List String) (parts : List (String × Part)) :
    Assoc K :=
  previous.filter fun entry => !removed.contains entry.1 && !Assoc.has parts entry.1

/-- The next knowledge of one kind of file. -/
def updateFiles (review : Review ε K) (pooled : Bool) (previous : Assoc K)
    (changed : List (String × Part)) (removed : List String) : Journaled ε (FileUpdate K) := do
  let parts := partsToInspect changed removed
  let kept := keptEntries previous removed parts
  let dropped := previous.filter fun entry => removed.contains entry.1
  let computed ← inspectParts review pooled parts
  pure ⟨kept ++ computed, parts.length, kept.length, dropped.length⟩

/-- The knowledge of the manifest; none if there is no manifest. -/
def manifestKnowledge (review : Review ε K) : Option Manifest → Journaled ε (Option K)
  | none => pure none
  | some m => review.extract (.manifest m)

namespace Cache

/-- The cache that knows nothing. -/
def empty : Cache K := {}

/-- It knows nothing. -/
def isEmpty (cache : Cache K) : Bool :=
  cache.manifest.isNone && cache.dependencies.isNone && cache.modules.isEmpty &&
    cache.extraFiles.isEmpty

/-- The next cache after a delta; `pooled` says that there are several workers. -/
def update (review : Review ε K) (pooled : Bool) (cache : Cache K) (delta : Delta) :
    Journaled ε (Cache K) := do
  let manifest ← manifestKnowledge review delta.manifest
  let dependencies ← review.extract (.dependencies delta.dependencies)
  let modules ← updateFiles review pooled cache.modules
    (delta.modules.map fun m => (m.path, .module m)) delta.removedModules
  let extraFiles ← updateFiles review pooled cache.extraFiles
    (delta.extraFiles.map fun f => (f.path, .extraFile f)) delta.removedExtraFiles
  Journaled.note (.cacheUpdated review.name (modules.recomputed + extraFiles.recomputed)
    (modules.reused + extraFiles.reused) (modules.dropped + extraFiles.dropped))
  pure ⟨manifest, dependencies, modules.entries, extraFiles.entries⟩

/-- The knowledge of each part in the order in which it is folded. -/
def values (cache : Cache K) : List (Option K) :=
  cache.manifest :: cache.dependencies ::
    (Project.sortedEntries cache.modules).map (fun entry => some entry.2) ++
    (Project.sortedEntries cache.extraFiles).map (fun entry => some entry.2)

/-- The knowledge of the whole project. -/
def aggregate (review : Review ε K) (cache : Cache K) : Except ε (Option K) :=
  foldKnowledge review.merge cache.values

end Cache

end Update

end ProjectReview
