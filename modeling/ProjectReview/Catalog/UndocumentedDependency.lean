import ProjectReview.Fault
import ProjectReview.Packages.Name
import ProjectReview.Review.Basic

set_option autoImplicit false

/-! # Undocumented dependencies

The review of dependencies that the manifest declares and that no extra file mentions. A declared
dependency is reported where its name stands at the start of a quoted line of the manifest. -/

namespace ProjectReview

/-- What the manifest declares and what extra files mention; a word that is mentioned several times
is listed several times. -/
structure DocumentedNames where
  declared : List (String × Range)
  mentioned : List String
  manifestPath : String
deriving DecidableEq, Repr

/-- The name at the front of a requirement: what stands before its version, extras or marker. -/
def requirementHead (requirement : List Char) : String :=
  String.ofList (requirement.takeWhile fun c =>
    !(c == '<' || c == '>' || c == '=' || c == '!' || c == '~' || c == '[' || c == ';' || c == ' '))

/-- The package name that stands behind the quote that opens a line, and its place in the line. -/
def quotedName? (line : List Char) : Option (Nat × List Char) :=
  match line.dropWhile isBlank with
  | quote :: rest =>
    match rest with
    | first :: _ =>
      if quote = doubleQuote ∧ startsPackageName first then
        some (line.length - rest.length, rest.takeWhile inPackageName)
      else none
    | [] => none
  | [] => none

/-- The names that a manifest's data declares. -/
def declaredNames (manifest : Manifest) : Except ShapeFault (List String) := do
  let project ← manifest.project.lookup "project" (.table [])
  let dependencies ← project.lookup "dependencies" (.list [])
  let items ← dependencies.items
  items.mapM fun item =>
    match item with
    | .text s => .ok (requirementHead s.toList)
    | other => .error (.notText other.typeName)

/-- What the manifest declares: the declared names that open a line, with their ranges. -/
def inspectDeclared (manifest : Manifest) : Except Fault (Option DocumentedNames) := do
  let names ← (declaredNames manifest).mapError Fault.shape
  let declared := (linesOf manifest.source).zipIdx.filterMap fun (line, row) =>
    match quotedName? line with
    | none => none
    | some (place, name) =>
      let name := String.ofList name
      if names.contains name then
        some (name, Range.of (row + 1) (place + 1) (row + 1) (place + 1 + name.length))
      else none
  pure (some ⟨declared, [], manifest.path⟩)

/-- What an extra file mentions: its maximal runs of package-name characters. -/
def inspectMentioned (file : ExtraFile) : Except Fault (Option DocumentedNames) :=
  .ok (some ⟨[],
    (runsBetween (fun c => !inPackageName c) file.content.toList).map String.ofList, ""⟩)

/-- The review of undocumented dependencies. -/
def undocumentedDependencyReview : Review Fault DocumentedNames where
  name := "undocumented-dependencies"
  inspectors := [.manifest inspectDeclared, .extraFile inspectMentioned]
  merge := fun a b => .ok ⟨a.declared ++ b.declared, a.mentioned ++ b.mentioned,
    if a.manifestPath = "" then b.manifestPath else a.manifestPath⟩
  report := fun knowledge =>
    .ok ((knowledge.declared.filter fun entry => !knowledge.mentioned.contains entry.1).map
      fun entry =>
        { path := knowledge.manifestPath
          range := entry.2
          message := "dependency `" ++ entry.1 ++ "` is not documented" })

end ProjectReview
