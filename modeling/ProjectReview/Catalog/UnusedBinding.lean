import ProjectReview.Fault
import ProjectReview.Review.Basic
import ProjectReview.Text.Search

set_option autoImplicit false

/-! # Unused bindings

The review of names that a module binds at its top level and that no module of the project reads. A
name that starts with an underscore is private and not reported. Each finding offers to remove the
assignment together with one line break next to it. -/

namespace ProjectReview

/-- A binding of a module: its name, where the name stands, and what to remove with it. -/
structure BoundName where
  path : String
  name : String
  nameRange : Range
  removal : Range
deriving DecidableEq, Repr

/-- What modules bind and what they read; a name that is read several times is listed several times.
-/
structure Bindings where
  defined : List BoundName
  used : List String
deriving DecidableEq, Repr

/-- The range to remove with a statement: from the end of the line before it; for a statement on the
first line, to the start of the line after it; for a statement that is the whole text, the
statement. -/
def removalRange (lines : List (List Char)) (statement : Range) : Range :=
  if 1 < statement.start.row then
    let before := (lines[(statement.start.row - 2).toNat]?).getD []
    ⟨⟨statement.start.row - 1, before.length + 1⟩, statement.stop⟩
  else if statement.stop.row < lines.length then Range.of 1 1 (statement.stop.row + 1) 1
  else ⟨⟨1, 1⟩, statement.stop⟩

/-- What a parsed module binds and reads. -/
def inspectBindings (m : Module) : Except Fault (Option Bindings) :=
  match m.outline with
  | none => .error (.shape (.noAttribute "NoneType" "body"))
  | some outline =>
    .ok (some
      ⟨outline.bindings.map fun b =>
        ⟨m.path, b.name, b.nameRange, removalRange (linesOf m.source) b.statement⟩,
       outline.used⟩)

/-- The review of unused bindings. -/
def unusedBindingReview : Review Fault Bindings where
  name := "unused-bindings"
  inspectors := [.module inspectBindings]
  merge := fun a b => .ok ⟨a.defined ++ b.defined, a.used ++ b.used⟩
  report := fun knowledge =>
    .ok ((knowledge.defined.filter fun b =>
        !knowledge.used.contains b.name && !startsWith b.name "_").map fun b =>
      { path := b.path
        range := b.nameRange
        message := "`" ++ b.name ++ "` is never used"
        details := ["Remove the assignment."]
        fixes := [Fix.removal b.removal] })

end ProjectReview
