import ProjectReview.Discovery.Exclusion
import ProjectReview.Fault
import ProjectReview.Module.Outline

set_option autoImplicit false

/-! # Parsing modules

`Module.parse` makes a `Module` with its outline from a file's path and text. The ending of the path
says how the file is to be parsed: Python modules by `Outline.ofSource`; a file of a kind listed in
`grammars` needs a parser that is not installed, and there is none for any other file. -/

namespace ProjectReview

/-- The kinds of source files that have a grammar, by the ending of their names. -/
def grammars : List (String × String) :=
  [(".go", "go"), (".rs", "rust"), (".rb", "ruby"), (".js", "javascript"), (".ts", "typescript"),
   (".java", "java"), (".c", "c"), (".cpp", "cpp"), (".lua", "lua")]

/-- The last component of a path, without the root. -/
def fileName (path : String) : String :=
  ((pathParts path).drop (rootOf path.toList).length).getLastD ""

/-- The ending of a file's name: its last dot and what follows. A dot at the start or the end of the
name makes no ending. -/
def fileEnding (path : String) : String :=
  let reversed := (fileName path).toList.reverse
  let ending := reversed.takeWhile (· ≠ '.')
  if ending.isEmpty ∨ reversed.length ≤ ending.length + 1 then ""
  else String.ofList ('.' :: ending.reverse)

/-- The grammar of a file, by its ending. -/
def grammarFor (path : String) : Option String :=
  Assoc.get? grammars (fileEnding path)

/-- Parses the text of a file. -/
def Module.parse (path source : String) : Except ParseFault Module :=
  if ".py".toList.isSuffixOf path.toList then
    match Outline.ofSource source with
    | .ok outline => .ok ⟨path, source, some outline⟩
    | .error line => .error ⟨path, "invalid syntax", some line⟩
  else match grammarFor path with
    | none => .error ⟨path, "no parser for this file type", none⟩
    | some _ => .error ⟨path, "tree-sitter-language-pack is not installed", none⟩

end ProjectReview
