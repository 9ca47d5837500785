import ProjectReview.Proofs.Maps

set_option autoImplicit false

/-! # Projects by what they hold

The files of a project are a map in which every file stands once and under its own path (`Filed`),
and taking a delta in keeps them so. What the map finds afterwards is said by `get?_takeIn`: nothing
at a removed path, the latest version at a changed one, and elsewhere what was there before.

Two projects are the `Same` when they hold the same manifest and dependencies and the same file at
every path, in whatever order the files came. The delta of a first run does not tell such projects
apart (`Same.toDelta_eq`). -/

namespace ProjectReview

namespace Project

section Files

variable {α β : Type} {pathOf : α → String}

/-- Every file stands once and under its own path. -/
structure Filed (pathOf : α → String) (files : Assoc α) : Prop where
  nodup : files.keys.Nodup
  path : ∀ path a, files.get? path = some a → pathOf a = path

theorem Filed.empty : Filed pathOf ([] : Assoc α) where
  nodup := List.nodup_nil
  path := by simp [Assoc.get?]

/-- What the changed files alone find: of several versions the last. -/
def changedAt (pathOf : α → String) (changed : List α) (path : String) : Option α :=
  (Assoc.ofEntries (changed.map fun a => (pathOf a, a))).get? path

theorem pathOf_of_changedAt {changed : List α} {path : String} {a : α}
    (h : changedAt pathOf changed path = some a) : a ∈ changed ∧ pathOf a = path := by
  have hmem := Assoc.mem_of_get?_ofEntries h
  obtain ⟨b, hb, heq⟩ := List.mem_map.1 hmem
  obtain ⟨rfl, rfl⟩ := Prod.mk.inj heq
  exact ⟨hb, rfl⟩

theorem get?_takeIn (files : Assoc α) (changed : List α) (removed : List String) (path : String) :
    (takeIn pathOf files changed removed).get? path
      = if path ∈ removed then none else (changedAt pathOf changed path).or (files.get? path) := by
  rw [takeIn, Assoc.get?_foldl_erase, changedAt, ← Assoc.get?_foldl_set, List.foldl_map]

theorem Filed.takeIn {files : Assoc α} (h : Filed pathOf files) (changed : List α)
    (removed : List String) : Filed pathOf (takeIn pathOf files changed removed) where
  nodup := by
    apply Assoc.nodup_keys_foldl_erase
    rw [← List.foldl_map (f := fun a => (pathOf a, a))
      (g := fun map entry => Assoc.set map entry.1 entry.2)]
    exact Assoc.nodup_keys_foldl_set _ h.nodup
  path path a ha := by
    rw [get?_takeIn] at ha
    split at ha
    · exact absurd ha (by simp)
    · rcases Option.or_eq_some_iff.1 ha with hchanged | ⟨-, hfiles⟩
      · exact (pathOf_of_changedAt hchanged).2
      · exact h.path path a hfiles

/-- Files in ascending order of paths, each named by its own path, are the entries of the map. -/
theorem Filed.map_sortedEntries {files : Assoc α} (h : Filed pathOf files) (f : α → β) :
    ((sortedEntries files).map (·.2)).map (fun a => (pathOf a, f a))
      = sortedEntries (files.map fun entry => (entry.1, f entry.2)) := by
  have hkeys : (Assoc.keys (files.map fun entry => (entry.1, f entry.2))).Nodup := by
    rw [Assoc.keys_mapValues]
    exact h.nodup
  have hown : ((sortedEntries files).map (·.2)).map (fun a => (pathOf a, f a))
      = (sortedEntries files).map fun entry => (entry.1, f entry.2) := by
    rw [List.map_map]
    apply List.map_congr_left
    rintro ⟨path, a⟩ hentry
    have hfound := (Assoc.get?_eq_some_iff h.nodup path a).2
      ((perm_sortedEntries files).mem_iff.1 hentry)
    simp [h.path path a hfound]
  rw [hown]
  apply eq_of_get?_eq
  · exact List.pairwise_map.2 (pairwise_lt_sortedEntries h.nodup)
  · exact pairwise_lt_sortedEntries hkeys
  · intro path
    rw [Assoc.get?_mapValues, get?_sortedEntries h.nodup, get?_sortedEntries hkeys,
      Assoc.get?_mapValues]

end Files

/-- The files of a project stand once and under their own paths. -/
structure WellFiled (project : Project) : Prop where
  modules : Filed Module.path project.modules
  extraFiles : Filed ExtraFile.path project.extraFiles

theorem WellFiled.empty : WellFiled {} := ⟨Filed.empty, Filed.empty⟩

theorem WellFiled.apply {project : Project} (h : project.WellFiled) (delta : Delta) :
    (project.apply delta).WellFiled :=
  ⟨h.modules.takeIn _ _, h.extraFiles.takeIn _ _⟩

/-- The projects hold the same manifest, the same dependencies and the same file at every path. -/
structure Same (a b : Project) : Prop where
  manifest : a.manifest = b.manifest
  dependencies : a.dependencies = b.dependencies
  modules : ∀ path, a.modules.get? path = b.modules.get? path
  extraFiles : ∀ path, a.extraFiles.get? path = b.extraFiles.get? path

/-- A first run cannot tell projects apart that hold the same. -/
theorem Same.toDelta_eq {a b : Project} (h : a.Same b) (ha : a.WellFiled) (hb : b.WellFiled) :
    a.toDelta = b.toDelta := by
  rw [toDelta, toDelta, h.manifest, h.dependencies,
    sortedEntries_congr ha.modules.nodup hb.modules.nodup h.modules,
    sortedEntries_congr ha.extraFiles.nodup hb.extraFiles.nodup h.extraFiles]

end Project

end ProjectReview
