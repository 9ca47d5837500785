import ProjectReview.Journal

set_option autoImplicit false

/-! # Inspectors

An `Inspector` draws knowledge out of one kind of part. It may find nothing there, and it may fail.
The knowledge of one part is the fold of what a review's inspectors of that kind find, in the order
in which they are registered: `foldKnowledge` passes over missing knowledge and assumes no neutral
element. -/

namespace ProjectReview

/-- A function from one kind of part to knowledge of type `K`, failing with `ε`. -/
inductive Inspector (ε K : Type) where
  | manifest (inspect : Manifest → Except ε (Option K))
  | dependencies (inspect : List Dependency → Except ε (Option K))
  | extraFile (inspect : ExtraFile → Except ε (Option K))
  | module (inspect : Module → Except ε (Option K))

namespace Inspector

variable {ε K : Type}

/-- The kind of part an inspector looks at. -/
def kind : Inspector ε K → PartKind
  | manifest _ => .manifest
  | dependencies _ => .dependencies
  | extraFile _ => .extraFile
  | module _ => .module

/-- What an inspector finds in a part; nothing in a part of another kind. -/
def inspect : Inspector ε K → Part → Except ε (Option K)
  | manifest f, .manifest m => f m
  | dependencies f, .dependencies ds => f ds
  | extraFile f, .extraFile e => f e
  | module f, .module m => f m
  | _, _ => .ok none

end Inspector

namespace PartKind

/-- The kind with a given name. -/
def ofName? : String → Option PartKind
  | "manifest" => some .manifest
  | "dependencies" => some .dependencies
  | "extra_file" => some .extraFile
  | "module" => some .module
  | _ => none

/-- The places at which a kind occurs in a list of kinds. -/
def placesIn (kind : PartKind) (kinds : List PartKind) : List Nat :=
  (kinds.zipIdx.filter fun entry => entry.1 = kind).map (·.2)

end PartKind

section Fold

variable {ε K : Type}

/-- Takes one more value into a fold: missing knowledge changes nothing, the first knowledge stands
for itself, and further knowledge is merged to the right. -/
def foldStep (merge : K → K → Except ε K) (sofar : Option K) (value : Option K) :
    Except ε (Option K) :=
  match sofar, value with
  | sofar, none => .ok sofar
  | none, some v => .ok (some v)
  | some a, some v => (merge a v).map some

/-- The fold of some values from the left; `none` if all of them are missing. -/
def foldKnowledge (merge : K → K → Except ε K) (values : List (Option K)) : Except ε (Option K) :=
  values.foldlM (foldStep merge) none

/-- Lets numbered inspectors look at a part one after the other and folds what they find. -/
def extractFrom (review : String) (merge : K → K → Except ε K) (part : Part) :
    Option K → List (Nat × Inspector ε K) → Journaled ε (Option K)
  | sofar, [] => pure sofar
  | sofar, (place, inspector) :: rest => do
    Journaled.note (.inspected review place part)
    let value ← Journaled.ofExcept (inspector.inspect part)
    let sofar ← Journaled.ofExcept (foldStep merge sofar value)
    extractFrom review merge part sofar rest

end Fold

end ProjectReview
