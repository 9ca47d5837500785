import ProjectReview.Catalog.Basic

set_option autoImplicit false

/-! # Loading reviews by specification

A review is named by a specification: a module, a colon, and the dotted way to something in it. What
is there may be a review, a list of reviews, or something that gives one of these when it is called.
`loadReviews` loads several specifications; all that cannot be loaded are reported together.

`Export` describes what modules hold, and `standardModules` are those that come with the program;
where the program runs there may be more. -/

namespace ProjectReview

/-- Something that a module holds. -/
inductive Export where
  /-- A review. -/
  | review (r : CatalogReview)
  /-- A list or tuple; the type is named in messages. -/
  | collection (type : String) (items : List Export)
  /-- Something else; the type is named in messages. -/
  | other (type : String)
  /-- A function without parameters and what it gives. -/
  | factory (result : Export)
  /-- A function that fails. -/
  | failing (fault : Fault)
  /-- A class with the things it holds. -/
  | space (name : String) (members : List (String × Export))

/-- A module: whether it can hold further modules, and what it holds. -/
structure ModuleExports where
  isPackage : Bool
  members : Assoc Export

namespace Export

/-- A marker review. -/
def marker (name word : String) : Export :=
  .review ⟨.marks, markerReview { name, word }⟩

/-- A member of something that a module holds. -/
def member (target : Export) (name : String) : Except Fault Export :=
  let lacks (type : String) : Except Fault Export :=
    .error (.shape (.noAttribute type name))
  match target with
  | .space title members =>
    match Assoc.get? members name with
    | some found => .ok found
    | none => .error (.noMember ("type object '" ++ title ++ "' has no attribute '" ++ name ++ "'"))
  | .review _ => if name = "name" then .ok (.other "str") else lacks "Review"
  | .collection type _ => lacks type
  | .other "int" =>
    if ["real", "imag", "numerator", "denominator"].contains name then .ok (.other "int")
    else lacks "int"
  | .other type => lacks type
  | .factory _ | .failing _ => lacks "function"

/-- What something gives when it is called, for what can be called. -/
def call : Export → Except Fault Export
  | .factory result => .ok result
  | .failing fault => .error fault
  | .space name _ => .ok (.other name)
  | target => .ok target

/-- The review that something is. -/
def asReview? : Export → Option CatalogReview
  | .review r => some r
  | _ => none

/-- The reviews that something is. -/
def asReviews? : Export → Option (List CatalogReview)
  | .review r => some [r]
  | .collection _ items => items.mapM asReview?
  | _ => none

end Export

/-- The unused bindings of modules. -/
def unusedBindings : Export := .review ⟨.bindings, unusedBindingReview⟩

/-- The undocumented dependencies of the manifest. -/
def undocumentedDependencies : Export := .review ⟨.documented, undocumentedDependencyReview⟩

/-- The module of general reviews. -/
def sampleMembers : Assoc Export :=
  [("UNUSED_BINDINGS", unusedBindings),
   ("UNDOCUMENTED_DEPENDENCIES", undocumentedDependencies),
   ("ALL", .collection "list" [unusedBindings, undocumentedDependencies]),
   ("make_marker_review", .factory (.marker "markers" "bad")),
   ("Bindings", .failing (.missingArguments
     "Bindings.__init__() missing 2 required positional arguments: 'defined' and 'used'"))]

/-- A package that holds further modules. -/
def package (name : String) : String × ModuleExports := (name, ⟨true, []⟩)

/-- The modules that come with the program. -/
def standardModules : Assoc ModuleExports :=
  [package "reviewkit", package "reviewkit.tests",
   ("reviewkit.tests.sample_reviews", ⟨false, sampleMembers⟩)]

/-- The starts of a dotted name that end at a dot, and the name itself, the shortest first. -/
def dottedStarts (name : String) : List String :=
  let pieces := piecesAt '.' name
  (List.range pieces.length).map fun n => joinTexts "." (pieces.take (n + 1))

/-- The module of a dotted name; the first package or module on the way that is missing is named. -/
def importModule (modules : Assoc ModuleExports) (name : String) : Except Fault ModuleExports :=
  let rec go (above : Option String) (found : Option ModuleExports) :
      List String → Except Fault ModuleExports
    | [] =>
      match found with
      | some m => .ok m
      | none => .error (.noModule ("No module named " ++ quoted name))
    | start :: rest =>
      match modules.get? start, found.all (·.isPackage) with
      | some m, true => go (some start) (some m) rest
      | _, true => .error (.noModule ("No module named " ++ quoted start))
      | _, false =>
        .error (.noModule ("No module named " ++ quoted start ++ "; " ++ quoted (above.getD "") ++
          " is not a package"))
  if name.toList.head? = some '.' then
    .error (.missingArguments
      ("the 'package' argument is required to perform a relative import for " ++ quoted name))
  else go none none (dottedStarts name)

/-- What a dotted way leads to from a module: through what the module holds, or through the modules in
it. -/
def memberOf (modules : Assoc ModuleExports) (name : String) (found : ModuleExports) :
    List String → Except Fault Export
  | [] => .ok (.other "module")
  | first :: rest =>
    match found.members.get? first, modules.get? (name ++ "." ++ first) with
    | some target, _ => rest.foldlM Export.member target
    | none, some inner => memberOf modules (name ++ "." ++ first) inner rest
    | none, none =>
      .error (.noMember ("module '" ++ name ++ "' has no attribute '" ++ first ++ "'"))

/-- The reviews that a specification names. -/
def resolveSpec (modules : Assoc ModuleExports) (spec : String) :
    Except Fault (List CatalogReview) := do
  let name := String.ofList (spec.toList.takeWhile (· ≠ ':'))
  let way := String.ofList (spec.toList.drop (name.length + 1))
  if name = "" ∨ way = "" then .error (.malformedSpec spec)
  else
    let found ← importModule modules name
    let target ← memberOf modules name found (piecesAt '.' way)
    match (← target.call).asReviews? with
    | some reviews => pure reviews
    | none => .error (.notAReview spec)

/-- The fault is one that loading collects instead of giving up. -/
def Fault.isCollected : Fault → Bool
  | .lost _ | .interrupted => false
  | _ => true

/-- Loads specifications one after the other: the reviews, and for each specification that could not
be loaded the latest fault. -/
def loadSpecs (modules : Assoc ModuleExports) :
    List Value → Journaled Fault (List CatalogReview × List (Value × Fault))
  | [] => pure ([], [])
  | spec :: rest => do
    let result : Except Fault (List CatalogReview) := match spec with
      | .text s => resolveSpec modules s
      | other => .error (.shape (.noAttribute other.typeName "partition"))
    match result with
    | .ok reviews =>
      let (others, failures) ← loadSpecs modules rest
      pure (reviews ++ others, failures)
    | .error fault =>
      if !fault.isCollected then Journaled.fail fault
      else
        Journaled.note (.pluginFailed spec.shown fault.message)
        match spec with
        | .list _ => Journaled.fail (.shape (.unhashable "list"))
        | .table _ => Journaled.fail (.shape (.unhashable "dict"))
        | _ =>
          let (others, failures) ← loadSpecs modules rest
          pure (others, if failures.any (·.1 == spec) then failures else (spec, fault) :: failures)

/-- Loads the reviews of some specifications, or says which could not be loaded. -/
def loadReviews (modules : Assoc ModuleExports) (specs : List Value) :
    Journaled Fault (List CatalogReview) := do
  let (reviews, failures) ← loadSpecs modules specs
  if failures.isEmpty then pure reviews
  else
    let sorted ← Journaled.ofExcept ((Value.sortByKey (·.1) failures).mapError Fault.shape)
    let lines := sorted.map fun (spec, fault) => "  - " ++ spec.shown ++ ": " ++ fault.summary
    Journaled.fail (.notLoaded (joinTexts "\n" ("Review plugin import failures:" :: lines)))

end ProjectReview
