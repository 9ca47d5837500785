import Mathlib.Data.List.Induction
import ProjectReview.Proofs.Incremental

set_option autoImplicit false

/-! # What a run inspects

A delta may name a file several times and may name it as changed and as removed. What there is to
inspect of it is said by `Selects`: of each path that is changed and not removed the last version,
in ascending order of paths. `Delta.settled` is the delta with its files selected so
(`Delta.settles_settled`), and it is what an update draws from (`partsToInspect_eq`).

`Tells x events` says that the journal of `x`, where it succeeds, is exactly `events`; it goes
through computations one after the other (`Tells.bind`), from a single inspector up to the update of
a cache (`tells_update`). What follows an update in a run inspects nothing.

The main result, `run_inspects_delta`, puts this together: after any deltas, a run that succeeds
inspects the parts of the settled delta and nothing else, and the numbers that it logs are those of
the paths it inspects, keeps and drops. -/

namespace ProjectReview

/-! ## Files to inspect -/

section Selection

variable {α : Type} {pathOf : α → String}

/-- The file is the last of those given with its path. -/
def IsLastVersion (pathOf : α → String) (given : List α) (a : α) : Prop :=
  ∃ before after, given = before ++ a :: after ∧ ∀ b ∈ after, pathOf b ≠ pathOf a

/-- One more file is the last version of its own path, and other paths keep theirs. -/
theorem isLastVersion_concat (given : List α) (b a : α) :
    IsLastVersion pathOf (given ++ [b]) a ↔
      a = b ∨ (pathOf b ≠ pathOf a ∧ IsLastVersion pathOf given a) := by
  unfold IsLastVersion
  constructor
  · rintro ⟨before, after, hsplit, hafter⟩
    rcases List.eq_nil_or_concat after with rfl | ⟨inner, c, rfl⟩
    · obtain ⟨-, hlast⟩ := List.append_inj' hsplit rfl
      exact Or.inl (List.cons.inj hlast).1.symm
    · have hsplit' : given ++ [b] = (before ++ a :: inner) ++ [c] := by simpa using hsplit
      obtain ⟨rfl, hlast⟩ := List.append_inj' hsplit' rfl
      obtain rfl : b = c := (List.cons.inj hlast).1
      refine Or.inr ⟨hafter b (by simp), before, inner, rfl, ?_⟩
      intro d hd
      exact hafter d (by simp [hd])
  · rintro (rfl | ⟨hne, before, after, rfl, hafter⟩)
    · exact ⟨given, [], rfl, by simp⟩
    · refine ⟨before, after ++ [b], by simp, ?_⟩
      intro d hd
      rcases List.mem_append.1 hd with hmem | hmem
      · exact hafter d hmem
      · rw [List.mem_singleton.1 hmem]
        exact hne

theorem changedAt_concat (given : List α) (b : α) (path : String) :
    Project.changedAt pathOf (given ++ [b]) path
      = if pathOf b = path then some b else Project.changedAt pathOf given path := by
  unfold Project.changedAt
  rw [Assoc.get?_ofEntries, Assoc.get?_ofEntries, List.map_append, List.reverse_append]
  rfl

/-- What changed files find at a path is the last version given for it. -/
theorem changedAt_eq_some_iff (given : List α) (path : String) (a : α) :
    Project.changedAt pathOf given path = some a ↔
      IsLastVersion pathOf given a ∧ pathOf a = path := by
  induction given using List.reverseRecOn with
  | nil => simp [Project.changedAt, IsLastVersion, Assoc.ofEntries, Assoc.get?]
  | append_singleton given b ih =>
    rw [changedAt_concat, isLastVersion_concat]
    by_cases hb : pathOf b = path
    · rw [if_pos hb, Option.some.injEq]
      constructor
      · rintro rfl
        exact ⟨Or.inl rfl, hb⟩
      · rintro ⟨rfl | ⟨hne, -⟩, ha⟩
        · rfl
        · exact absurd (hb.trans ha.symm) hne
    · rw [if_neg hb, ih]
      constructor
      · rintro ⟨hlast, ha⟩
        exact ⟨Or.inr ⟨fun heq => hb (heq.trans ha), hlast⟩, ha⟩
      · rintro ⟨rfl | ⟨-, hlast⟩, ha⟩
        · exact absurd ha hb
        · exact ⟨hlast, ha⟩

/-- The selected files are, in ascending order of paths, the last versions of the paths that are
    changed and not removed. -/
structure Selects (pathOf : α → String) (changed : List α) (removed : List String)
    (selected : List α) : Prop where
  ascending : selected.Pairwise fun a b => pathOf a < pathOf b
  mem_iff : ∀ a, a ∈ selected ↔ pathOf a ∉ removed ∧ IsLastVersion pathOf changed a

/-- The files that are there when changed and removed ones are taken in at the start. -/
def selectedFiles (pathOf : α → String) (changed : List α) (removed : List String) : List α :=
  (Project.sortedEntries (Project.takeIn pathOf [] changed removed)).map (·.2)

theorem selects_selectedFiles (changed : List α) (removed : List String) :
    Selects pathOf changed removed (selectedFiles pathOf changed removed) := by
  unfold selectedFiles
  have hfiled : Project.Filed pathOf (Project.takeIn pathOf [] changed removed) :=
    Project.Filed.empty.takeIn changed removed
  have hown : ∀ entry ∈ Project.sortedEntries (Project.takeIn pathOf [] changed removed),
      pathOf entry.2 = entry.1 := by
    intro entry hentry
    exact hfiled.path entry.1 entry.2 ((Assoc.get?_eq_some_iff hfiled.nodup _ _).2
      ((perm_sortedEntries _).mem_iff.1 hentry))
  have hfound : ∀ path a, (path, a) ∈ Project.takeIn pathOf [] changed removed ↔
      path ∉ removed ∧ IsLastVersion pathOf changed a ∧ pathOf a = path := by
    intro path a
    rw [← Assoc.get?_eq_some_iff hfiled.nodup, Project.get?_takeIn, Assoc.get?_nil, Option.or_none,
      ← changedAt_eq_some_iff]
    split_ifs with hpath
    · simp [hpath]
    · simp [hpath]
  constructor
  · rw [List.pairwise_map]
    refine (pairwise_lt_sortedEntries hfiled.nodup).imp_of_mem ?_
    intro a b ha hb hlt
    rw [hown a ha, hown b hb]
    exact hlt
  · intro a
    rw [List.mem_map]
    constructor
    · rintro ⟨⟨path, b⟩, hentry, rfl⟩
      obtain ⟨hremoved, hlast, rfl⟩ := (hfound path b).1 ((perm_sortedEntries _).mem_iff.1 hentry)
      exact ⟨hremoved, hlast⟩
    · rintro ⟨hremoved, hlast⟩
      refine ⟨(pathOf a, a), (perm_sortedEntries _).mem_iff.2 ?_, rfl⟩
      exact (hfound _ _).2 ⟨hremoved, hlast, rfl⟩

/-- An update draws from the selected files. -/
theorem partsToInspect_eq (toPart : α → Part) (changed : List α) (removed : List String) :
    partsToInspect (changed.map fun a => (pathOf a, toPart a)) removed
      = (selectedFiles pathOf changed removed).map fun a => (pathOf a, toPart a) := by
  have hfiled : Project.Filed pathOf (Project.takeIn pathOf [] changed removed) :=
    Project.Filed.empty.takeIn changed removed
  unfold selectedFiles
  rw [hfiled.map_sortedEntries toPart]
  apply eq_of_get?_eq (pairwise_lt_partsToInspect _ _)
  · apply pairwise_lt_sortedEntries
    rw [Assoc.keys_mapValues]
    exact hfiled.nodup
  · intro path
    have hchanged : (Assoc.ofEntries (changed.map fun a => (pathOf a, toPart a))).get? path
        = (Project.changedAt pathOf changed path).map toPart := by
      unfold Project.changedAt
      rw [← Assoc.get?_ofEntries_mapValues, List.map_map]
      rfl
    rw [get?_partsToInspect, hchanged, get?_sortedEntries, Assoc.get?_mapValues,
      Project.get?_takeIn, Assoc.get?_nil, Option.or_none]
    · split_ifs <;> rfl
    · rw [Assoc.keys_mapValues]
      exact hfiled.nodup

/-- A path is looked at anew when it is changed and not removed. -/
theorem has_partsToInspect (pathOf : α → String) (toPart : α → Part) (changed : List α)
    (removed : List String) (path : String) :
    Assoc.has (partsToInspect (changed.map fun a => (pathOf a, toPart a)) removed) path = true ↔
      path ∉ removed ∧ path ∈ changed.map pathOf := by
  rw [Assoc.has_iff, Assoc.mem_keys_iff, get?_partsToInspect]
  have hmem : (∃ part, (Assoc.ofEntries (changed.map fun a => (pathOf a, toPart a))).get? path
      = some part) ↔ path ∈ changed.map pathOf := by
    rw [Assoc.get?_ofEntries, ← Assoc.mem_keys_iff]
    simp [Assoc.keys]
  split_ifs with hpath
  · simp [hpath]
  · rw [hmem]
    simp [hpath]

end Selection

/-- The parts of a delta: its manifest if there is one, the dependencies together, its modules and
    its extra files. -/
def Delta.parts (delta : Delta) : List Part :=
  delta.manifest.toList.map .manifest ++ [.dependencies delta.dependencies] ++
    delta.modules.map .module ++ delta.extraFiles.map .extraFile

/-- The delta with what it says of files settled: nothing but the files that are there in the end.
-/
def Delta.settled (delta : Delta) : Delta :=
  (({} : Project).apply delta).toDelta

/-- The latter has the manifest and the dependencies of the former, and the files that it selects.
-/
structure Delta.Settles (delta settled : Delta) : Prop where
  manifest : settled.manifest = delta.manifest
  dependencies : settled.dependencies = delta.dependencies
  modules : Selects Module.path delta.modules delta.removedModules settled.modules
  extraFiles : Selects ExtraFile.path delta.extraFiles delta.removedExtraFiles settled.extraFiles

theorem Delta.settles_settled (delta : Delta) : delta.Settles delta.settled :=
  ⟨rfl, rfl, selects_selectedFiles _ _, selects_selectedFiles _ _⟩

/-! ## Journals of computations that succeed -/

variable {ε K α β : Type}

/-- If the computation succeeds, its journal is just these events. -/
def Tells (x : Journaled ε α) (events : List Event) : Prop :=
  ∀ a, x.outcome = .ok a → x.events = events

namespace Tells

theorem pure (a : α) : Tells (Pure.pure a : Journaled ε α) [] :=
  fun _ _ => rfl

theorem note (event : Event) : Tells (Journaled.note event : Journaled ε Unit) [event] :=
  fun _ _ => rfl

/-- Computations one after the other tell their events one after the other. -/
theorem bind {x : Journaled ε α} {f : α → Journaled ε β} {first second : List Event}
    (hx : Tells x first) (hf : ∀ a, x.outcome = .ok a → Tells (f a) second) :
    Tells (x >>= f) (first ++ second) := by
  intro b hb
  rw [Journaled.outcome_bind] at hb
  obtain ⟨a, ha, hb⟩ := bind_eq_ok.1 hb
  rw [Journaled.events_bind, ha, hx a ha]
  exact congrArg (first ++ ·) (hf a ha b hb)

theorem ofExcept_bind (x : Except ε α) {f : α → Journaled ε β} {events : List Event}
    (hf : ∀ a, Tells (f a) events) : Tells (Journaled.ofExcept x >>= f) events :=
  have hx : Tells (Journaled.ofExcept x) [] := fun _ _ => rfl
  hx.bind fun a _ => hf a

theorem bind_pure {x : Journaled ε α} {events : List Event} (hx : Tells x events) (f : α → β) :
    Tells (x >>= fun a => Pure.pure (f a)) events := by
  have hbind := hx.bind fun a _ => Tells.pure (ε := ε) (f a)
  rwa [List.append_nil] at hbind

end Tells

/-! ## Inspections -/

/-- A part is shown to each inspector of its kind once, in the order of registration. -/
def Review.visits (review : Review ε K) (part : Part) : List Event :=
  (List.range (review.inspectors.countP fun inspector => inspector.kind = part.kind)).map
    fun place => .inspected review.name place part

theorem tells_extractFrom (name : String) (merge : K → K → Except ε K) (part : Part)
    (inspectors : List (Nat × Inspector ε K)) (sofar : Option K) :
    Tells (extractFrom name merge part sofar inspectors)
      (inspectors.map fun entry => .inspected name entry.1 part) := by
  induction inspectors generalizing sofar with
  | nil => exact Tells.pure sofar
  | cons entry rest ih =>
    obtain ⟨place, inspector⟩ := entry
    unfold extractFrom
    refine (Tells.note _).bind ?_
    intro _ _
    refine Tells.ofExcept_bind _ ?_
    intro value
    refine Tells.ofExcept_bind _ ?_
    intro next
    exact ih next

theorem tells_extract (review : Review ε K) (part : Part) :
    Tells (review.extract part) (review.visits part) := by
  have htells :=
    tells_extractFrom review.name review.merge part (review.inspectorsOf part.kind) none
  have hvisits : (review.inspectorsOf part.kind).map (fun entry =>
      Event.inspected review.name entry.1 part) = review.visits part := by
    unfold Review.inspectorsOf Review.visits
    rw [List.map_map, List.countP_eq_length_filter, List.range_eq_range', ← List.zipIdx_map_snd,
      List.map_map]
    rfl
  rw [← hvisits]
  exact htells

theorem tells_inspectAll (review : Review ε K) (parts : List (String × Part)) :
    Tells (inspectAll review parts) (parts.flatMap fun entry => review.visits entry.2) := by
  induction parts with
  | nil => exact Tells.pure _
  | cons entry rest ih =>
    obtain ⟨path, part⟩ := entry
    unfold inspectAll
    refine (tells_extract review part).bind ?_
    intro knowledge _
    exact ih.bind_pure _

theorem tells_manifestKnowledge (review : Review ε K) (manifest : Option Manifest) :
    Tells (manifestKnowledge review manifest)
      ((manifest.toList.map .manifest).flatMap review.visits) := by
  cases manifest with
  | none => exact Tells.pure none
  | some m =>
    unfold manifestKnowledge
    simpa using tells_extract review (.manifest m)

/-! ## Updates -/

/-- The known paths that an update keeps: those neither removed nor changed. -/
def keptPaths (known : Assoc K) (changed removed : List String) : List String :=
  known.keys.filter fun path => !removed.contains path && !changed.contains path

/-- The known paths that an update drops: those removed. -/
def droppedPaths (known : Assoc K) (removed : List String) : List String :=
  known.keys.filter fun path => removed.contains path

section Files

variable {φ : Type} {pathOf : φ → String} (review : Review ε K) (toPart : φ → Part)
  (known : Assoc K) (changed : List φ) (removed : List String)

/-- One worker shows each selected file to the inspectors. -/
theorem tells_updateFiles :
    Tells (updateFiles review false known (changed.map fun a => (pathOf a, toPart a)) removed)
      (((selectedFiles pathOf changed removed).map toPart).flatMap review.visits) := by
  have hparts := tells_inspectAll review
    (partsToInspect (changed.map fun a => (pathOf a, toPart a)) removed)
  have hvisits : (partsToInspect (changed.map fun a => (pathOf a, toPart a)) removed).flatMap
      (fun entry => review.visits entry.2)
        = ((selectedFiles pathOf changed removed).map toPart).flatMap review.visits := by
    rw [partsToInspect_eq, List.flatMap_map, List.flatMap_map]
  rw [hvisits] at hparts
  exact hparts.bind_pure _

/-- What an update counts: the files it looks at, and the paths it keeps and drops. -/
theorem counts_of_updateFiles {review : Review ε K} {pooled : Bool} {update : FileUpdate K}
    (h : (updateFiles review pooled known (changed.map fun a => (pathOf a, toPart a))
      removed).outcome = .ok update) :
    update.recomputed = (selectedFiles pathOf changed removed).length ∧
      update.reused = (keptPaths known (changed.map pathOf) removed).length ∧
      update.dropped = (droppedPaths known removed).length ∧
      ∀ path ∈ keptPaths known (changed.map pathOf) removed,
        update.entries.get? path = known.get? path := by
  unfold updateFiles at h
  rw [Journaled.outcome_bind] at h
  obtain ⟨computed, -, h⟩ := bind_eq_ok.1 h
  have hupdate := (Except.ok.inj h).symm
  have hkept : ∀ path, (!removed.contains path && !Assoc.has
      (partsToInspect (changed.map fun a => (pathOf a, toPart a)) removed) path)
        = (!removed.contains path && !(changed.map pathOf).contains path) := by
    intro path
    by_cases hpath : path ∈ removed
    · simp [hpath]
    · have hhas := has_partsToInspect pathOf toPart changed removed path
      rw [and_iff_right hpath] at hhas
      have hsame : Assoc.has (partsToInspect (changed.map fun a => (pathOf a, toPart a)) removed)
          path = (changed.map pathOf).contains path := by
        rw [Bool.eq_iff_iff, hhas, List.contains_iff_mem]
      rw [hsame]
  rw [hupdate]
  refine ⟨?_, ?_, ?_, ?_⟩
  · simp only [partsToInspect_eq, List.length_map]
  · unfold keptPaths Assoc.keys
    simp only [keptEntries, hkept, List.filter_map, List.length_map]
    rfl
  · unfold droppedPaths Assoc.keys
    simp only [List.filter_map, List.length_map]
    rfl
  · intro path hpath
    obtain ⟨hmem, hkeep⟩ := List.mem_filter.1 hpath
    obtain ⟨value, hvalue⟩ := (Assoc.mem_keys_iff known path).1 hmem
    rw [Assoc.get?_append, get?_keptEntries, hkept, if_pos hkeep, hvalue]
    rfl

end Files

namespace Cache

/-- The paths that an update keeps, modules first. -/
def reusedPaths (cache : Cache K) (delta : Delta) : List String :=
  keptPaths cache.modules (delta.modules.map Module.path) delta.removedModules ++
    keptPaths cache.extraFiles (delta.extraFiles.map ExtraFile.path) delta.removedExtraFiles

/-- The paths that an update drops, modules first. -/
def removedPaths (cache : Cache K) (delta : Delta) : List String :=
  droppedPaths cache.modules delta.removedModules ++
    droppedPaths cache.extraFiles delta.removedExtraFiles

/-- What an update by one worker writes into the journal. -/
def updateEvents (review : Review ε K) (cache : Cache K) (delta : Delta) : List Event :=
  delta.settled.parts.flatMap review.visits ++
    [.cacheUpdated review.name (delta.settled.modules.length + delta.settled.extraFiles.length)
      (cache.reusedPaths delta).length (cache.removedPaths delta).length]

/-- **An update by one worker inspects the parts of the settled delta**, and then logs how many
    files it has inspected, kept and dropped. -/
theorem tells_update (review : Review ε K) (cache : Cache K) (delta : Delta) :
    Tells (cache.update review false delta) (cache.updateEvents review delta) := by
  have hevents : cache.updateEvents review delta
      = (delta.manifest.toList.map .manifest).flatMap review.visits ++
        (review.visits (.dependencies delta.dependencies) ++
        ((delta.settled.modules.map .module).flatMap review.visits ++
        ((delta.settled.extraFiles.map .extraFile).flatMap review.visits ++
        [.cacheUpdated review.name (delta.settled.modules.length + delta.settled.extraFiles.length)
          (cache.reusedPaths delta).length (cache.removedPaths delta).length]))) := by
    unfold updateEvents Delta.parts
    rw [(Delta.settles_settled delta).manifest, (Delta.settles_settled delta).dependencies]
    simp only [List.flatMap_append, List.flatMap_cons, List.flatMap_nil, List.append_nil,
      List.append_assoc]
  rw [hevents]
  unfold update
  refine (tells_manifestKnowledge review _).bind ?_
  intro manifest _
  refine (tells_extract review _).bind ?_
  intro dependencies _
  refine (tells_updateFiles review Part.module cache.modules delta.modules
    delta.removedModules).bind ?_
  intro modules hmodules
  refine (tells_updateFiles review Part.extraFile cache.extraFiles delta.extraFiles
    delta.removedExtraFiles).bind ?_
  intro extraFiles hextraFiles
  obtain ⟨hcomputed, hreused, hdropped, -⟩ := counts_of_updateFiles Part.module _ _ _ hmodules
  obtain ⟨hcomputed', hreused', hdropped', -⟩ :=
    counts_of_updateFiles Part.extraFile _ _ _ hextraFiles
  rw [hcomputed, hreused, hdropped, hcomputed', hreused', hdropped', ← List.length_append,
    ← List.length_append]
  exact (Tells.note _).bind_pure _

/-- What is known of the paths that an update keeps stays as it is. -/
theorem get?_of_update {review : Review ε K} {cache next : Cache K} {pooled : Bool} {delta : Delta}
    (h : (cache.update review pooled delta).outcome = .ok next) :
    (∀ path ∈ keptPaths cache.modules (delta.modules.map Module.path) delta.removedModules,
      next.modules.get? path = cache.modules.get? path) ∧
    ∀ path ∈ keptPaths cache.extraFiles (delta.extraFiles.map ExtraFile.path)
        delta.removedExtraFiles,
      next.extraFiles.get? path = cache.extraFiles.get? path := by
  unfold update at h
  simp only [Journaled.outcome_bind, Journaled.outcome_pure, Journaled.outcome_note] at h
  obtain ⟨manifest, -, h⟩ := bind_eq_ok.1 h
  obtain ⟨dependencies, -, h⟩ := bind_eq_ok.1 h
  obtain ⟨modules, hmodules, h⟩ := bind_eq_ok.1 h
  obtain ⟨extraFiles, hextraFiles, h⟩ := bind_eq_ok.1 h
  rw [← Except.ok.inj h]
  exact ⟨(counts_of_updateFiles Part.module _ _ _ hmodules).2.2.2,
    (counts_of_updateFiles Part.extraFile _ _ _ hextraFiles).2.2.2⟩

end Cache

/-! ## Runs -/

/-- The event belongs to an update: an inspection, or the numbers that end it. -/
def Event.ofUpdate : Event → Bool
  | inspected .. | cacheUpdated .. => true
  | _ => false

/-- Nothing in the journal of the computation belongs to an update. -/
def Quiet (x : Journaled ε α) : Prop :=
  ∀ event ∈ x.events, event.ofUpdate = false

namespace Quiet

theorem pure (a : α) : Quiet (Pure.pure a : Journaled ε α) := by
  intro event hevent
  exact absurd hevent List.not_mem_nil

theorem ofExcept (x : Except ε α) : Quiet (Journaled.ofExcept x) := by
  intro event hevent
  exact absurd hevent List.not_mem_nil

theorem note {event : Event} (h : event.ofUpdate = false) :
    Quiet (Journaled.note event : Journaled ε Unit) := by
  intro other hother
  rw [List.mem_singleton.1 hother]
  exact h

theorem bind {x : Journaled ε α} {f : α → Journaled ε β} (hx : Quiet x) (hf : ∀ a, Quiet (f a)) :
    Quiet (x >>= f) := by
  intro event hevent
  rw [Journaled.events_bind] at hevent
  rcases List.mem_append.1 hevent with hfirst | hsecond
  · exact hx event hfirst
  · split at hsecond
    · next a _ => exact hf a event hsecond
    · exact absurd hsecond List.not_mem_nil

end Quiet

/-- Reporting inspects nothing. -/
theorem Review.quiet_buildReport (review : Review ε K) (knowledge : K) :
    Quiet (review.buildReport knowledge) := by
  unfold buildReport
  refine (Quiet.ofExcept _).bind ?_
  intro findings
  simp only
  split_ifs with hkept
  · exact (Quiet.note rfl).bind fun _ => Quiet.pure _
  · exact (Quiet.pure _).bind fun _ => Quiet.pure _

namespace Engine

/-- A run starts with the update of its cache, and inspects nothing afterwards. -/
theorem events_run {engine : Engine ε K} {delta : Delta} {result : RunResult ε K}
    (h : (engine.run delta).outcome = .ok result) :
    let pooled := engine.options.wantsPool ↑(delta.modules.length + delta.extraFiles.length)
    (engine.cache.update engine.review pooled delta).outcome = .ok result.next.cache ∧
      ∃ rest, (engine.run delta).events
          = (engine.cache.update engine.review pooled delta).events ++ rest ∧
        ∀ event ∈ rest, event.ofUpdate = false := by
  intro pooled
  have hcache := (run_eq_ok h).1
  refine ⟨hcache, ?_⟩
  unfold run
  rw [Journaled.events_bind, hcache]
  refine ⟨_, rfl, ?_⟩
  refine (Quiet.ofExcept _).bind ?_
  intro known
  cases known with
  | none => exact (Quiet.note rfl).bind fun _ => Quiet.pure _
  | some knowledge =>
    refine (engine.review.quiet_buildReport knowledge).bind ?_
    intro report
    exact (Quiet.note rfl).bind fun _ => Quiet.pure _

theorem options_after (review : Review ε K) (options : RunOptions) (deltas : List Delta) :
    (after review options deltas).1.options = options := by
  have hkeeps : ∀ (engine : Engine ε K) (_ : Project) (delta : Delta) (result : RunResult ε K),
      engine.options = options → (engine.run delta).outcome = .ok result →
        result.next.options = options := by
    intro engine _ delta result hengine hresult
    obtain ⟨-, -, hoptions⟩ := run_eq_ok hresult
    exact hoptions.trans hengine
  exact foldl_advance hkeeps deltas _ rfl

/-- **A run does the work of its delta.** After any deltas, a run by one worker that succeeds shows
    the parts of the settled delta to the inspectors of their kinds and inspects nothing else. It
    then logs how many files it has inspected, of how many paths it keeps what it knew, and how many
    it drops; and it does keep what it knew of the former. -/
theorem run_inspects_delta (review : Review ε K) (options : RunOptions) (deltas : List Delta)
    (delta : Delta) {result : RunResult ε K}
    (hserial : options.wantsPool ↑(delta.modules.length + delta.extraFiles.length) = false)
    (h : ((after review options deltas).1.run delta).outcome = .ok result) :
    let engine := (after review options deltas).1
    let work := delta.settled
    delta.Settles work ∧
    (∃ rest, (engine.run delta).events = work.parts.flatMap review.visits ++
        .cacheUpdated review.name (work.modules.length + work.extraFiles.length)
          (engine.cache.reusedPaths delta).length (engine.cache.removedPaths delta).length :: rest ∧
      ∀ event ∈ rest, event.ofUpdate = false) ∧
    engine.cache.modules.keys.Nodup ∧ engine.cache.extraFiles.keys.Nodup ∧
    (∀ path ∈ keptPaths engine.cache.modules (delta.modules.map Module.path) delta.removedModules,
      result.next.cache.modules.get? path = engine.cache.modules.get? path) ∧
    ∀ path ∈ keptPaths engine.cache.extraFiles (delta.extraFiles.map ExtraFile.path)
        delta.removedExtraFiles,
      result.next.cache.extraFiles.get? path = engine.cache.extraFiles.get? path := by
  intro engine work
  obtain ⟨hreview, hupToDate, -⟩ := inStep_after review options deltas
  obtain ⟨hupdate, rest, hevents, hrest⟩ := events_run h
  rw [options_after, hserial, hreview] at hupdate hevents
  refine ⟨delta.settles_settled, ⟨rest, ?_, hrest⟩, hupToDate.modules.nodup,
    hupToDate.extraFiles.nodup, Cache.get?_of_update hupdate⟩
  rw [hevents, Cache.tells_update review _ delta _ hupdate]
  unfold Cache.updateEvents
  rw [List.append_assoc, List.singleton_append]

/-- A review that looks at every part, at modules twice, and collects what it reads. -/
def collectingReview : Review Unit (List String) where
  name := "collecting"
  inspectors :=
    [.module fun m => .ok (some [m.source]), .manifest fun m => .ok (some [m.source]),
      .dependencies fun _ => .ok none, .module fun m => .ok (some [m.path]),
      .extraFile fun f => .ok (some [f.content])]
  merge first second := .ok (first ++ second)
  report _ := .ok []

/-- Three modules and a note. -/
def firstDelta : Delta :=
  { modules := [⟨"c.py", "c", none⟩, ⟨"a.py", "a", none⟩, ⟨"b.py", "b", none⟩]
    extraFiles := [⟨"n.md", "n"⟩] }

/-- A delta that names one module twice, changes and removes another, and removes the note. -/
def repeatingDelta : Delta :=
  { manifest := some ⟨"m", .null, "pyproject.toml"⟩
    modules := [⟨"d.py", "d", none⟩, ⟨"b.py", "b2", none⟩, ⟨"a.py", "a2", none⟩,
      ⟨"b.py", "b3", none⟩]
    removedModules := ["a.py", "z.py"]
    removedExtraFiles := ["n.md"] }

/-- Of the module that is named twice the last version is inspected, the one that is removed is not,
    and one is kept. -/
theorem run_inspects_delta_repeated :
    let engine := (after collectingReview {} [firstDelta]).1
    RunOptions.wantsPool {} 4 = false ∧
    ∃ result rest, (engine.run repeatingDelta).outcome = .ok result ∧
      repeatingDelta.settled.modules
        = [⟨"b.py", "b3", none⟩, ⟨"d.py", "d", none⟩] ∧
      (engine.run repeatingDelta).events
        = repeatingDelta.settled.parts.flatMap collectingReview.visits ++
          .cacheUpdated "collecting" 2 1 2 :: rest ∧
      (∀ event ∈ rest, event.ofUpdate = false) ∧
      result.next.cache.modules.get? "c.py" = engine.cache.modules.get? "c.py" := by
  intro engine
  have hrun : ((engine.run repeatingDelta).outcome.map fun _ => ()).toOption = some () := by
    decide +kernel
  have hcounts : (engine.cache.reusedPaths repeatingDelta).length = 1 ∧
      (engine.cache.removedPaths repeatingDelta).length = 2 := by decide +kernel
  have hkept : "c.py" ∈ keptPaths engine.cache.modules (repeatingDelta.modules.map Module.path)
      repeatingDelta.removedModules := by decide +kernel
  obtain ⟨result, hresult, -⟩ := map_eq_ok.1 (toOption_eq_some.1 hrun)
  obtain ⟨-, ⟨rest, hevents, hrest⟩, -, -, hmodules, -⟩ :=
    run_inspects_delta collectingReview {} [firstDelta] repeatingDelta (by decide) hresult
  rw [hcounts.1, hcounts.2] at hevents
  exact ⟨by decide, result, rest, hresult, by decide +kernel, hevents, hrest, hmodules _ hkept⟩

end Engine

end ProjectReview
