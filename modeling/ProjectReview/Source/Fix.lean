import ProjectReview.Order.StableSort
import ProjectReview.Source.Range
import ProjectReview.Text.Lines

set_option autoImplicit false

/-! # Fixes and fix batches

A `Fix` replaces the text in a range. A batch of fixes is applied to a source as a whole:
`applyFixes` first refuses a batch in which two fixes overlap, then one with a fix that addresses
nothing in the source, then carries the fixes out from the farthest to the nearest, so that the rows
of the fixes still to come keep their meaning, and last refuses a batch that changes nothing.
`tryApplyFixes` gives a refusal as a value beside the new text.

Columns past the end of a line stand for the end of that line. Among fixes at the same range, which
can only be insertions at one position, the one supplied first is carried out first, so its text
ends up last. -/

namespace ProjectReview

/-- Replace the text in `range` by `replacement`. -/
structure Fix where
  range : Range
  replacement : String
deriving DecidableEq, Repr, Inhabited

namespace Fix

/-- Delete the text in a range. -/
def removal (range : Range) : Fix :=
  ⟨range, ""⟩

/-- Put text in at a position. -/
def insertion (position : Position) (text : String) : Fix :=
  ⟨Range.emptyAt position, text⟩

/-- The range addresses a source of `lineCount` lines: it is not reversed, its rows exist and its
columns count from one. -/
def addresses (fix : Fix) (lineCount : Nat) : Bool :=
  decide (1 ≤ fix.range.start.row) && decide (fix.range.stop.row ≤ lineCount) &&
    decide (1 ≤ fix.range.start.column) && decide (1 ≤ fix.range.stop.column) &&
    fix.range.start.upTo fix.range.stop

/-- Carry the fix out on the lines of a source: keep what stands before the range on its first line
and after it on its last line, and put the replacement between. -/
def splice (fix : Fix) (lines : List (List Char)) : List (List Char) :=
  let startRow := (fix.range.start.row - 1).toNat
  let stopRow := (fix.range.stop.row - 1).toNat
  let head := (lines[startRow]?.getD []).take (fix.range.start.column - 1).toNat
  let tail := (lines[stopRow]?.getD []).drop (fix.range.stop.column - 1).toNat
  lines.take startRow ++ cutAt '\n' (head ++ fix.replacement.toList ++ tail) ++
    lines.drop (stopRow + 1)

end Fix

/-- Why a batch of fixes is refused. -/
inductive FixFault where
  /-- Two fixes of the batch edit overlapping text. -/
  | collision (first second : Fix)
  /-- A fix addresses nothing in a source of `lineCount` lines. -/
  | outOfRange (fix : Fix) (lineCount : Nat)
  /-- Carrying the fixes out gives back the source. -/
  | unchanged
deriving DecidableEq, Repr

namespace FixFault

/-- The wording of a refusal. -/
def message : FixFault → String
  | collision first second =>
    "fixes collide: " ++ first.range.render ++ " overlaps " ++ second.range.render
  | outOfRange fix lineCount =>
    "fix range " ++ fix.range.render ++ " is outside a source of " ++ toString lineCount ++
      " line(s)"
  | unchanged => "applying the fixes did not change the source"

end FixFault

/-- The first fix, by its place in the batch, that overlaps `fix`. -/
def firstOverlap (fix : Fix) (others : List (Nat × Fix)) : Option (Nat × Fix) :=
  others.find? fun other => fix.range.overlaps other.2.range

/-- The first overlapping pair of numbered fixes: the earliest first member, then the earliest
second. -/
def collisionAmong : List (Nat × Fix) → Option ((Nat × Fix) × (Nat × Fix))
  | [] => none
  | fix :: rest =>
    match firstOverlap fix.2 rest with
    | some other => some (fix, other)
    | none => collisionAmong rest

/-- The first overlapping pair of a batch, each fix with its place in the batch. -/
def findCollision (fixes : List Fix) : Option ((Nat × Fix) × (Nat × Fix)) :=
  collisionAmong (fixes.zipIdx.map fun numbered => (numbered.2, numbered.1))

/-- The order in which the fixes of a batch are carried out: farthest range first, and fixes at the
same range as they are supplied. -/
def carryOutOrder (fixes : List Fix) : List Fix :=
  sortBy (fun a b => b.range.upTo a.range) fixes

/-- The lines of a source after all fixes of a batch have been carried out. -/
def spliceAll (fixes : List Fix) (lines : List (List Char)) : List (List Char) :=
  (carryOutOrder fixes).foldl (fun lines fix => fix.splice lines) lines

/-- Apply a batch of fixes to a source. -/
def applyFixes (fixes : List Fix) (source : String) : Except FixFault String :=
  match findCollision fixes with
  | some (first, second) => .error (.collision first.2 second.2)
  | none =>
    let lines := linesOf source
    match fixes.find? fun fix => !fix.addresses lines.length with
    | some fix => .error (.outOfRange fix lines.length)
    | none =>
      let result := ofLines (spliceAll fixes lines)
      if result = source then .error .unchanged else .ok result

/-- What trying a batch of fixes comes to: the new text, or why the batch was refused. -/
structure FixOutcome where
  source : Option String := none
  error : Option FixFault := none
deriving DecidableEq, Repr

/-- The batch was applied. -/
def FixOutcome.ok (outcome : FixOutcome) : Bool :=
  outcome.error.isNone

/-- Apply a batch of fixes to a source; a refusal is part of what comes out. -/
def tryApplyFixes (fixes : List Fix) (source : String) : FixOutcome :=
  match applyFixes fixes source with
  | .ok result => { source := some result }
  | .error fault => { error := some fault }

end ProjectReview
