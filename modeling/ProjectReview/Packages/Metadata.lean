import ProjectReview.Data.Value
import ProjectReview.Discovery.Exclusion
import ProjectReview.Order.StableSort
import ProjectReview.Packages.Name
import ProjectReview.Packages.Record
import ProjectReview.Project.Part
import ProjectReview.Text.Search

set_option autoImplicit false

/-! # Installed packages

An installed package is known by the files of its metadata directory: `METADATA` holds header
fields, `RECORD` lists the files of the package, and `top_level.txt` names its modules.
`Installed.find?` looks a package up by name, `metadataValue` turns the headers into data and
`providedModules` gives the names of the modules. -/

namespace ProjectReview

/-- The texts of the files in each metadata directory. -/
abbrev Installed := Assoc (Assoc String)

/-- The text of a file as it is read: every line end is a line feed. -/
def asRead (text : String) : String :=
  String.ofList (unifyLineEnds text.toList)

/-- The package that a metadata directory belongs to, in normal form. -/
def packageOfDirectory (directory : String) : Option String :=
  let name := directory.toList.map Char.toLower
  if ".dist-info".toList.isSuffixOf name ∨ ".egg-info".toList.isSuffixOf name then
    let stem := (name.reverse.dropWhile (· ≠ '.')).drop 1 |>.reverse
    some (normalName (String.ofList (stem.takeWhile (· ≠ '-'))))
  else none

/-- The metadata files of a package. -/
def Installed.find? (installed : Installed) (name : String) : Option (Assoc String) :=
  (List.find? (fun entry => packageOfDirectory entry.1 = some (normalName name)) installed).map (·.2)

/-! ## Headers -/

/-- The line is an envelope line, as it may stand in front of headers. -/
def isEnvelope (line : List Char) : Bool :=
  "From ".toList.isPrefixOf line

/-- The text starts a header: characters of ASCII without blanks and colons, and a colon. Envelope
lines count as well. -/
def startsHeader (line : List Char) : Bool :=
  match line.dropWhile fun c => decide (33 ≤ c.toNat ∧ c.toNat ≤ 126 ∧ c ≠ ':') with
  | ':' :: _ => true
  | _ => isEnvelope line

/-- The line goes on with the header before it. -/
def continuesHeader : List Char → Bool
  | c :: _ => c == ' ' || c == '\t'
  | [] => false

/-- The lines of the header block, and the lines behind it without the blank line between. -/
def splitHeaders : List (List Char) → List (List Char) × List (List Char)
  | [] => ([], [])
  | line :: rest =>
    if line.isEmpty then ([], if rest.isEmpty then [line] else rest)
    else if startsHeader line || continuesHeader line then
      let (headers, body) := splitHeaders rest
      (line :: headers, body)
    else ([], line :: rest)

/-- The name and the value of a header from its lines. -/
def headerOf (line : List Char) (further : List (List Char)) : Option (String × String) :=
  let name := line.takeWhile (· ≠ ':')
  if name.isEmpty ∨ isEnvelope line then none
  else
    let value := (line.drop (name.length + 1)).dropWhile fun c => c == ' ' || c == '\t'
    some (String.ofList name, String.ofList (joinWith '\n' (value :: further)))

/-- The headers of a block of lines. -/
def headersOf : List (List Char) → List (String × String)
  | [] => []
  | line :: rest =>
    let further := rest.takeWhile continuesHeader
    let others := headersOf rest
    if continuesHeader line then others
    else match headerOf line further with
      | some header => header :: others
      | none => others

/-- The blanks at the front of a line. -/
def indentOf (line : List Char) : List Char :=
  line.takeWhile fun c => c == ' ' || c == '\t'

/-- The common start of two lists. -/
def commonStart : List Char → List Char → List Char
  | a :: as, b :: bs => if a = b then a :: commonStart as bs else []
  | _, _ => []

/-- A value of several lines without the indentation that its further lines share; the first line
counts as indented by eight spaces. -/
def dedent (value : String) : String :=
  match cutAt '\n' value.toList with
  | first :: second :: rest =>
    let lines := (List.replicate 8 ' ' ++ first) :: second :: rest
    let blankLess := lines.map fun line =>
      if line.all fun c => c == ' ' || c == '\t' then [] else line
    let indents := (blankLess.filter fun line => !line.isEmpty).map indentOf
    let shared := match indents with
      | [] => []
      | indent :: others => others.foldl commonStart indent
    String.ofList (joinWith '\n' (blankLess.map fun line => line.drop shared.length))
  | _ => value

/-- The header block and what is behind it; an envelope line at the end of the block is the first
line behind it, unless it is the whole block. -/
def headersAndBody (lines : List (List Char)) : List (List Char) × List (List Char) :=
  let (headers, body) := splitHeaders lines
  match headers.getLast? with
  | some line =>
    if isEnvelope line ∧ 1 < headers.length then (headers.dropLast, line :: body) else (headers, body)
  | none => (headers, body)

/-- The headers of a metadata text; text behind the headers is the description. -/
def metadataHeaders (text : String) : List (String × String) :=
  let (headers, body) := headersAndBody (cutAt '\n' text.toList)
  let payload := String.ofList (joinWith '\n' body)
  (headersOf headers).map (fun (key, value) => (key, dedent value)) ++
    if payload = "" then [] else [("Description", payload)]

/-- The headers that may occur several times and are kept as a list. -/
def listHeaders : List String :=
  ["classifier", "obsoletes-dist", "platform", "project-url", "provides-dist", "provides-extra",
   "requires-dist", "requires-external", "supported-platform", "dynamic"]

/-- The name in lower case. -/
def lowerCase (s : String) : String :=
  String.ofList (s.toList.map Char.toLower)

/-- The pieces of a text at its runs of blanks; blanks at an end leave an empty piece there. -/
def blankPieces (s : String) : List String :=
  let cs := s.toList
  let inner := words s
  let front := if cs.head?.any isBlank then [""] else []
  let back := if cs.getLast?.any isBlank then [""] else []
  if inner.isEmpty then (if cs.isEmpty then [""] else ["", ""]) else front ++ inner ++ back

/-- The headers as data: keys in lower case with underscores, repeatable headers as lists, keywords
cut at blanks, and every other header by its first value. -/
def metadataValue (headers : List (String × String)) : Value :=
  .table (Assoc.ofEntries (headers.map fun (key, _) =>
    let low := lowerCase key
    let values := (headers.filter fun header => lowerCase header.1 = low).map (·.2)
    let first := values.headD ""
    (replaceAll "-" "_" low,
      if listHeaders.contains low then .texts values
      else if low = "keywords" then .texts (blankPieces first)
      else .text first)))

/-! ## Modules -/

/-- The files that a package's record lists. -/
def recordedFiles (files : Assoc String) : Except Fault (List String) :=
  match (files.get? "RECORD").map asRead with
  | some record => (recordRows record).mapM recordedPath
  | none => .ok []

/-- The path with single slashes and without single dots. -/
def tidyPath (path : String) : String :=
  let root := rootOf path.toList
  let parts := (pathParts path).drop root.length
  if root.isEmpty ∧ parts.isEmpty then "." else root.headD "" ++ joinTexts "/" parts

/-- The text without an ending, if it ends so. -/
def withoutEnding (ending s : String) : String :=
  if endsWith s ending then String.ofList (s.toList.take (s.length - ending.length)) else s

/-- The names of the modules in a list of files: the top components of the source files. -/
def topModules (paths : List String) : List String :=
  let sources := (paths.map tidyPath).filter fun path =>
    endsWith path ".py" && !holds ".dist-info" path
  sortTexts (distinct (sources.map fun path => withoutEnding ".py" ((pathParts path).headD "")))

/-- The names of the modules that a package provides: those its `top_level.txt` lists, or else those
among its recorded files. -/
def providedModules (files : Assoc String) : Except Fault (List String) :=
  match ((files.get? "top_level.txt").map asRead).filter (· ≠ "") with
  | some text => .ok (((textLines text).map strip).filter (· ≠ ""))
  | none => do
    let paths ← recordedFiles files
    pure (topModules paths)

/-- An installed package as a dependency. -/
def dependencyOf (name : String) (files : Assoc String) : Except Fault Dependency := do
  let text := asRead (((files.get? "METADATA").filter (· ≠ "")).getD
    ((files.get? "PKG-INFO").getD ""))
  let modules ← providedModules files
  pure { name := name
         manifest := metadataValue (metadataHeaders text)
         modules := modules.map .text }

end ProjectReview
