import Mathlib.Data.Set.Function
import ProjectReview.Host.Load
import ProjectReview.Proofs.Projects

set_option autoImplicit false

/-! # Snapshots of one kind of file

A load reads the files at the paths it finds and gives those that differ from the previous snapshot.
Both kinds of files are loaded in the same way; a `FileKind` says how a text becomes a file of the
kind, where that is possible. `digestAt` is the digest that a load keeps for a path and `changeAt`
the file that it gives. What a load tells is exact (`exact_load`): the files whose digests are new
or different, and the paths of those that are gone.

A snapshot and the files that the deltas add up to mirror each other: where there is no digest there
is no file, and a digest is that of the text from which the file was made (`Mirrors`). While
different texts have different digests, a load from such a snapshot leaves the files that a load
from none leaves (`get?_takeIn_changes`), and the mirror is kept. -/

namespace ProjectReview

/-! ## Entries at paths -/

/-- The entries of the paths at which there is a value. -/
def entriesAt {β : Type} (f : String → Option β) (paths : List String) : Assoc β :=
  paths.filterMap fun path => (f path).map (path, ·)

theorem entriesAt_cons {β : Type} (f : String → Option β) (path : String) (rest : List String) :
    entriesAt f (path :: rest) = ((f path).map (path, ·)).toList ++ entriesAt f rest := by
  simp only [entriesAt, List.filterMap_cons]
  cases f path <;> rfl

theorem get?_entriesAt {β : Type} (f : String → Option β) (paths : List String) (path : String) :
    (entriesAt f paths).get? path = if path ∈ paths then f path else none := by
  induction paths with
  | nil => simp [entriesAt, Assoc.get?]
  | cons first rest ih =>
    rw [entriesAt_cons, Assoc.get?_append, ih]
    by_cases hfirst : first = path
    · subst hfirst
      cases f first <;> simp [Assoc.get?]
    · cases f first <;> simp [Assoc.get?, hfirst, Ne.symm hfirst]

theorem keys_entriesAt {β : Type} (f : String → Option β) (paths : List String) :
    (entriesAt f paths).keys = paths.filter fun path => (f path).isSome := by
  rw [entriesAt, Assoc.keys, List.map_filterMap, ← List.filterMap_eq_filter]
  apply List.filterMap_congr
  intro path _
  cases hvalue : f path <;> simp [Option.guard, hvalue]

/-! ## Kinds of files -/

/-- A kind of file: where a file stands, and the file that a text at a path makes, if it makes one.
-/
structure FileKind (α : Type) where
  pathOf : α → String
  make : String → String → Option α
  pathOf_make : ∀ {path text : String} {a : α}, make path text = some a → pathOf a = path

namespace FileKind

variable {α : Type} (kind : FileKind α) (textAt : String → Option String) (previous : Assoc String)

/-- The digest that a load keeps for a path. -/
def digestAt (path : String) : Option String :=
  (textAt path).bind fun text =>
    if previous.get? path = some (contentDigest text) ∨ (kind.make path text).isSome then
      some (contentDigest text)
    else none

/-- The file at a path that a load gives, if it is new or different. -/
def changeAt (path : String) : Option α :=
  (textAt path).bind fun text =>
    if previous.get? path = some (contentDigest text) then none else kind.make path text

/-- The files that a load gives. -/
def changes (paths : List String) : List α :=
  paths.filterMap (kind.changeAt textAt previous)

/-- The digests that a load keeps. -/
def digests (paths : List String) : Assoc String :=
  entriesAt (kind.digestAt textAt previous) paths

theorem digests_cons (path : String) (rest : List String) :
    kind.digests textAt previous (path :: rest)
      = ((kind.digestAt textAt previous path).map (path, ·)).toList ++
          kind.digests textAt previous rest :=
  entriesAt_cons ..

theorem changes_cons (path : String) (rest : List String) :
    kind.changes textAt previous (path :: rest)
      = (kind.changeAt textAt previous path).toList ++ kind.changes textAt previous rest := by
  rw [changes, List.filterMap_cons]
  cases kind.changeAt textAt previous path <;> rfl

variable {kind textAt previous}

/-- A load gives the files whose digests were absent or different. -/
theorem isSome_changeAt_iff (path : String) :
    (kind.changeAt textAt previous path).isSome = true ↔
      (kind.digestAt textAt previous path).isSome = true ∧
        previous.get? path ≠ kind.digestAt textAt previous path := by
  cases htext : textAt path with
  | none => simp [changeAt, digestAt, htext]
  | some text =>
    by_cases hsame : previous.get? path = some (contentDigest text)
    · simp [changeAt, digestAt, htext, hsame]
    · cases hmake : kind.make path text <;> simp [changeAt, digestAt, htext, hsame, hmake]

theorem pathOf_changeAt {path : String} {a : α} (h : kind.changeAt textAt previous path = some a) :
    kind.pathOf a = path := by
  obtain ⟨text, -, h⟩ := Option.bind_eq_some_iff.1 h
  split at h
  · exact nomatch h
  · exact kind.pathOf_make h

theorem map_pathOf_changes (paths : List String) :
    (kind.changes textAt previous paths).map kind.pathOf
      = paths.filter fun path => (kind.changeAt textAt previous path).isSome := by
  rw [changes, List.map_filterMap, ← List.filterMap_eq_filter]
  apply List.filterMap_congr
  intro path _
  cases hchange : kind.changeAt textAt previous path with
  | none => simp [Option.guard, hchange]
  | some a => simp [Option.guard, hchange, pathOf_changeAt hchange]

theorem changedAt_changes (paths : List String) (path : String) :
    Project.changedAt kind.pathOf (kind.changes textAt previous paths) path
      = if path ∈ paths then kind.changeAt textAt previous path else none := by
  have hentries : (kind.changes textAt previous paths).map (fun a => (kind.pathOf a, a))
      = entriesAt (kind.changeAt textAt previous) paths := by
    rw [changes, entriesAt, List.map_filterMap]
    apply List.filterMap_congr
    intro other _
    cases hchange : kind.changeAt textAt previous other with
    | none => rfl
    | some a => simp [pathOf_changeAt hchange]
  have hreverse : (entriesAt (kind.changeAt textAt previous) paths).reverse
      = entriesAt (kind.changeAt textAt previous) paths.reverse := by
    rw [entriesAt, entriesAt, List.filterMap_reverse]
  rw [Project.changedAt, hentries, Assoc.get?_ofEntries, hreverse, get?_entriesAt]
  simp only [List.mem_reverse]

theorem mem_keys_digests (paths : List String) (path : String) :
    path ∈ (kind.digests textAt previous paths).keys ↔
      path ∈ paths ∧ (kind.digestAt textAt previous path).isSome = true := by
  rw [digests, keys_entriesAt, List.mem_filter]

/-! ## Exact changes -/

/-- What is told of one kind of file between two snapshots: the paths of the files whose digests are
    new or different, in strictly ascending order, and those of the files that are gone. -/
structure Exact (earlier later : Assoc String) (changed removed : List String) : Prop where
  ascending : changed.Pairwise (· < ·)
  mem_changed : ∀ path, path ∈ changed ↔ path ∈ later.keys ∧ earlier.get? path ≠ later.get? path
  mem_removed : ∀ path, path ∈ removed ↔ path ∈ earlier.keys ∧ path ∉ later.keys
  disjoint : changed.Disjoint removed

theorem mem_missingFrom (later earlier : Assoc String) (path : String) :
    path ∈ Host.missingFrom later earlier ↔ path ∈ earlier.keys ∧ path ∉ later.keys := by
  rw [Host.missingFrom, List.mem_filter, Bool.not_eq_true', ← Bool.not_eq_true, Assoc.has_iff]

theorem exact_load {paths : List String} (hpaths : paths.Pairwise (· < ·)) :
    Exact previous (kind.digests textAt previous paths)
      ((kind.changes textAt previous paths).map kind.pathOf)
      (Host.missingFrom (kind.digests textAt previous paths) previous) := by
  have hchanged : ∀ path, path ∈ (kind.changes textAt previous paths).map kind.pathOf ↔
      path ∈ (kind.digests textAt previous paths).keys ∧
        previous.get? path ≠ (kind.digests textAt previous paths).get? path := by
    intro path
    rw [map_pathOf_changes, mem_keys_digests, digests, get?_entriesAt, List.mem_filter,
      isSome_changeAt_iff]
    by_cases hpath : path ∈ paths
    · simp [hpath]
    · simp [hpath]
  refine ⟨?_, hchanged, mem_missingFrom _ _, ?_⟩
  · rw [map_pathOf_changes]
    exact hpaths.sublist List.filter_sublist
  · intro path hpath hremoved
    exact ((mem_missingFrom _ _ _).1 hremoved).2 ((hchanged path).1 hpath).1

/-! ## Digests that mirror files -/

/-- A path's digest in a snapshot and its file: both are absent, or a text that occurs has the one
    and makes the other. -/
inductive Mirrored (kind : FileKind α) (texts : Set String) (path : String) :
    Option String → Option α → Prop
  | absent : Mirrored kind texts path none none
  | present {text : String} {a : α} (mem : text ∈ texts) (made : kind.make path text = some a) :
      Mirrored kind texts path (some (contentDigest text)) (some a)

/-- The digests are those of the texts from which the files were made. -/
def Mirrors (kind : FileKind α) (texts : Set String) (digests : Assoc String) (files : Assoc α) :
    Prop :=
  ∀ path, kind.Mirrored texts path (digests.get? path) (files.get? path)

theorem Mirrors.empty (kind : FileKind α) (texts : Set String) : kind.Mirrors texts [] [] :=
  fun _ => .absent

variable {texts : Set String} {files : Assoc α}

/-- Without a digest there is no file. -/
theorem Mirrors.get?_eq_none (h : kind.Mirrors texts previous files) {path : String}
    (hnone : previous.get? path = none) : files.get? path = none := by
  have hpath := h path
  rw [hnone] at hpath
  generalize files.get? path = file at hpath ⊢
  cases hpath with
  | absent => rfl

/-- Where the digest is that of a text, the file is the one that the text makes. -/
theorem Mirrors.made (h : kind.Mirrors texts previous files)
    (hdigests : Set.InjOn contentDigest texts) {path text : String} (htext : text ∈ texts)
    (hsame : previous.get? path = some (contentDigest text)) :
    ∃ a, kind.make path text = some a ∧ files.get? path = some a := by
  have hpath := h path
  rw [hsame] at hpath
  generalize files.get? path = file at hpath ⊢
  generalize hdigest : contentDigest text = digest at hpath
  cases hpath with
  | present hmem hmade =>
    -- The one place where different texts must have different digests.
    obtain rfl := hdigests htext hmem hdigest
    exact ⟨_, hmade, rfl⟩

/-- Where a digest is kept, the file is the new one or, if there is none, the one from before;
    elsewhere what was there before is removed. -/
theorem Mirrors.get?_takeIn (h : kind.Mirrors texts previous files) (paths : List String)
    (path : String) :
    (Project.takeIn kind.pathOf files (kind.changes textAt previous paths)
        (Host.missingFrom (kind.digests textAt previous paths) previous)).get? path
      = if path ∈ (kind.digests textAt previous paths).keys then
          (kind.changeAt textAt previous path).or (files.get? path)
        else none := by
  rw [Project.get?_takeIn, changedAt_changes]
  by_cases hnow : path ∈ (kind.digests textAt previous paths).keys
  · -- The path is alive, so it is not removed.
    have hkept : path ∉ Host.missingFrom (kind.digests textAt previous paths) previous :=
      fun hmissing => ((mem_missingFrom _ _ _).1 hmissing).2 hnow
    rw [if_neg hkept, if_pos hnow, if_pos ((mem_keys_digests _ _).1 hnow).1]
  · rw [if_neg hnow]
    split
    · rfl
    · -- Neither kept nor removed: there was no digest before, and so no file.
      next hkept =>
      have hfile : files.get? path = none := by
        apply h.get?_eq_none
        rw [Assoc.get?_eq_none_iff]
        intro hbefore
        exact hkept ((mem_missingFrom _ _ _).2 ⟨hbefore, hnow⟩)
      rw [hfile, Option.or_none]
      split
      · next hpath =>
        rw [← Option.not_isSome_iff_eq_none, isSome_changeAt_iff]
        rintro ⟨hdigest, -⟩
        exact hnow ((mem_keys_digests _ _).2 ⟨hpath, hdigest⟩)
      · rfl

variable (h : kind.Mirrors texts previous files) (hdigests : Set.InjOn contentDigest texts)
  (htexts : ∀ path text, textAt path = some text → text ∈ texts)

include h hdigests htexts

/-- A load from a mirror keeps the digests that a load from none keeps. -/
theorem Mirrors.digestAt_eq (path : String) :
    kind.digestAt textAt previous path = kind.digestAt textAt [] path := by
  cases htext : textAt path with
  | none => simp [digestAt, htext]
  | some text =>
    by_cases hsame : previous.get? path = some (contentDigest text)
    · obtain ⟨a, hmade, -⟩ := h.made hdigests (htexts path text htext) hsame
      simp [digestAt, htext, hsame, hmade]
    · simp [digestAt, htext, hsame, Assoc.get?]

/-- A file whose digest is kept is the new one or, where there is none, the one from before; both
    are what the text at the path makes. -/
theorem Mirrors.changeAt_or (path : String) :
    (if (kind.digestAt textAt previous path).isSome then
      (kind.changeAt textAt previous path).or (files.get? path) else none)
      = (textAt path).bind (kind.make path) := by
  cases htext : textAt path with
  | none => simp [digestAt, htext]
  | some text =>
    by_cases hsame : previous.get? path = some (contentDigest text)
    · obtain ⟨a, hmade, hfile⟩ := h.made hdigests (htexts path text htext) hsame
      simp [digestAt, changeAt, htext, hsame, hmade, hfile]
    · cases hmade : kind.make path text <;> simp [digestAt, changeAt, htext, hsame, hmade]

/-- **A load from a mirror leaves the files that the texts make**, just as a load from none does. -/
theorem Mirrors.get?_takeIn_changes (paths : List String) (path : String) :
    (Project.takeIn kind.pathOf files (kind.changes textAt previous paths)
        (Host.missingFrom (kind.digests textAt previous paths) previous)).get? path
      = if path ∈ paths then (textAt path).bind (kind.make path) else none := by
  rw [h.get?_takeIn, ← h.changeAt_or hdigests htexts path]
  simp only [mem_keys_digests]
  by_cases hpath : path ∈ paths
  · simp [hpath]
  · simp [hpath]

/-- A load from a mirror leaves a mirror. -/
theorem Mirrors.load (paths : List String) :
    kind.Mirrors texts (kind.digests textAt previous paths)
      (Project.takeIn kind.pathOf files (kind.changes textAt previous paths)
        (Host.missingFrom (kind.digests textAt previous paths) previous)) := by
  intro path
  rw [h.get?_takeIn_changes hdigests htexts, digests, get?_entriesAt,
    h.digestAt_eq hdigests htexts]
  split
  · cases htext : textAt path with
    | none =>
      simp only [digestAt, htext, Option.bind_none]
      exact .absent
    | some text =>
      cases hmade : kind.make path text with
      | none =>
        simp only [digestAt, htext, hmade, Option.bind_some, Assoc.get?_nil]
        exact .absent
      | some a =>
        simp only [digestAt, htext, hmade, Option.bind_some, Option.isSome_some, or_true, if_true]
        exact .present (htexts path text htext) hmade
  · exact .absent

end FileKind

end ProjectReview
