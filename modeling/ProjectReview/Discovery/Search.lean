import ProjectReview.Discovery.Pattern
import ProjectReview.Files.Tree
import ProjectReview.Journal

set_option autoImplicit false

/-! # Searching for files

`search` finds the files below a directory whose names match one of some patterns and that no
exclusion leaves out. It does not enter directories that are left out, nor links to directories. The
paths it gives are relative to the directory, with slashes, in ascending order.

A `SearchMemory` remembers the results of the latest searches, at most sixteen, and answers a search
that it remembers without looking at the tree; `searchWith` searches with a memory. -/

namespace ProjectReview

/-- An exclusion from a configuration leaves a path out. -/
def excludedBy (path : String) (exclusion : Value) : Except ShapeFault Bool :=
  match exclusion with
  | .text text => .ok (matchesExclusion path text)
  | other => .error (.noAttribute other.typeName "rstrip")

/-- Some value satisfies a test that may fail; values after the first that does are not tested. -/
def anyValue {ε α : Type} (test : α → Except ε Bool) : List α → Except ε Bool
  | [] => .ok false
  | a :: rest =>
    match test a with
    | .error e => .error e
    | .ok true => .ok true
    | .ok false => anyValue test rest

/-- Some exclusion leaves a path out. -/
def excludedByAny (path : String) (exclusions : List Value) : Except Fault Bool :=
  (anyValue (excludedBy path) exclusions).mapError .shape

/-- A directory is not searched: its name is never searched, or some exclusion leaves its path out.
-/
def prunes (name path : String) (exclusions : List Value) : Except Fault Bool :=
  if excludesDirectory name path [] then .ok true else excludedByAny path exclusions

/-- A file is found: its name matches some pattern and no exclusion leaves its path out. -/
def finds (query : SearchQuery) (name path : String) : Except Fault Bool := do
  if ← anyValue (Pattern.matchesName · name) query.patterns then
    pure !(← excludedByAny path query.exclusions)
  else pure false

/-- The path of an entry of a directory, given the path of the directory with a slash behind it, or
nothing for the directory that is searched. -/
def entryPath (above name : String) : String :=
  above ++ name

/-- The path of a directory with a slash behind it; backslashes in the names of directories count as
slashes. -/
def directoryPath (above name : String) : String :=
  forwardSlashes (entryPath above name) ++ "/"

mutual

/-- The files found below a node at some place of the tree. -/
def searchNode (root : Node) (query : SearchQuery) (place : List String) (above name : String) :
    Node → Except Fault (List String)
  | .file _ => do
    if ← finds query name (entryPath above name) then pure [entryPath above name] else pure []
  | .link _ => do
    if root.isDirectoryAt (place ++ [name]) then
      -- A link to a directory is not entered, but its exclusion is decided like that of any directory.
      let _ ← prunes name (entryPath above name) query.exclusions
      pure []
    else if ← finds query name (entryPath above name) then pure [entryPath above name]
    else pure []
  | .directory entries => do
    if ← prunes name (entryPath above name) query.exclusions then pure []
    else searchEntries root query (place ++ [name]) (directoryPath above name) entries

/-- The files found among the entries of a directory and below them. -/
def searchEntries (root : Node) (query : SearchQuery) (place : List String) (above : String) :
    List (String × Node) → Except Fault (List String)
  | [] => pure []
  | (name, node) :: rest => do
    let found ← searchNode root query place above name node
    let others ← searchEntries root query place above rest
    pure (found ++ others)

end

/-- The first value that cannot be part of a remembered search. -/
def unhashable? (values : List Value) : Option ShapeFault :=
  values.findSome? fun
    | .list _ => some (.unhashable "list")
    | .table _ => some (.unhashable "dict")
    | _ => none

/-- The files found below the directory at `place`; the query names it by its text. -/
def search (root : Node) (place : List String) (query : SearchQuery) : Except Fault (List String) :=
  match unhashable? (query.patterns ++ query.exclusions) with
  | some fault => .error (.shape fault)
  | none =>
    match root.get? place with
    | some (.directory entries) => do
      let found ← searchEntries root query place "" entries
      pure (sortTexts found)
    | _ => .ok []

/-- The latest searches with their results, the latest last. -/
abbrev SearchMemory := List (SearchQuery × List String)

namespace SearchMemory

/-- The number of searches that are remembered. -/
def capacity : Nat := 16

/-- The remembered result of a search. -/
def get? (memory : SearchMemory) (query : SearchQuery) : Option (List String) :=
  (memory.find? fun entry => entry.1 == query).map (·.2)

/-- The memory with a search as its latest. -/
def remember (memory : SearchMemory) (query : SearchQuery) (found : List String) : SearchMemory :=
  let others := memory.filter fun entry => !(entry.1 == query)
  let kept := others.drop (others.length + 1 - capacity)
  kept ++ [(query, found)]

/-- The memory after an event. -/
def after (memory : SearchMemory) : Event → SearchMemory
  | .searchesForgotten => []
  | .searched query found => memory.remember query found
  | _ => memory

/-- The memory after some events. -/
def afterAll (memory : SearchMemory) (events : List Event) : SearchMemory :=
  events.foldl after memory

end SearchMemory

/-- Searches with a memory below the directory that a list of components leads to. -/
def searchWith (memory : SearchMemory) (root : Node) (parts : List String)
    (patterns exclusions : List Value) : Journaled Fault (List String) := do
  let place ← Journaled.ofExcept (root.resolve parts)
  let query : SearchQuery := ⟨(Path.ofParts place).text, patterns, exclusions⟩
  let found ← match unhashable? (patterns ++ exclusions), memory.get? query with
    | none, some found => pure found
    | _, _ => Journaled.ofExcept (search root place query)
  Journaled.note (.searched query found)
  pure found

end ProjectReview
