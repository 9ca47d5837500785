import ProjectReview.Fault
import ProjectReview.Files.Path

set_option autoImplicit false

/-! # File trees

A `Node` is a file with its bytes, a symbolic link with its target, or a directory of named nodes; a
file tree is the directory at the root. `get?` finds the node at a list of components and `put` sets
it, without following links.

`follow` finds where a path leads when links are followed, or why it leads nowhere, and `realPath`
does the same for paths that need not exist. Reading and the tests for files and directories follow
links. -/

namespace ProjectReview

/-- A file, a link or a directory. -/
inductive Node where
  | file (content : Bytes)
  | link (target : String)
  | directory (entries : List (String × Node))
deriving Repr, Inhabited

namespace Node

/-- The empty directory. -/
def emptyDirectory : Node := .directory []

/-- The nodes of a directory; other nodes have none. -/
def entries : Node → Assoc Node
  | directory entries => entries
  | _ => []

/-- It is a directory. -/
def isDirectory : Node → Bool
  | directory _ => true
  | _ => false

/-- The node at some components. -/
def get? : Node → List String → Option Node
  | node, [] => some node
  | node, name :: rest =>
    match Assoc.get? node.entries name with
    | some child => child.get? rest
    | none => none

/-- The tree with a node at some components; the directories on the way must exist. -/
def put : Node → List String → Node → Node
  | _, [], new => new
  | directory entries, [name], new => directory (Assoc.set entries name new)
  | directory entries, name :: rest, new =>
    match Assoc.get? entries name with
    | some child => directory (Assoc.set entries name (child.put rest new))
    | none => directory entries
  | other, _ :: _, _ => other

/-- The tree without the node at some components. -/
def erase : Node → List String → Node
  | node, [] => node
  | directory entries, [name] => directory (Assoc.erase entries name)
  | directory entries, name :: rest =>
    match Assoc.get? entries name with
    | some child => directory (Assoc.set entries name (child.erase rest))
    | none => directory entries
  | other, _ :: _ => other

/-- Follows components from a directory on; `onLink` takes over where a link stands. -/
def followWith (root : Node)
    (onLink : List String → List String → Except FileProblem (List String)) :
    List String → List String → Except FileProblem (List String)
  | place, [] => .ok place
  | place, name :: rest =>
    match root.get? place with
    | some (directory entries) =>
      if name = ".." then followWith root onLink place.dropLast rest
      else match Assoc.get? entries name with
        | none => .error .notFound
        | some (link target) =>
          let path := Path.ofText target
          onLink (if path.absolute then [] else place) (path.parts ++ rest)
        | some _ => followWith root onLink (place ++ [name]) rest
    | some _ => .error .notADirectory
    | none => .error .notFound

/-- Follows components through at most that many links. -/
def followLinks (root : Node) : Nat → List String → List String → Except FileProblem (List String)
  | 0 => followWith root fun _ _ => .error .tooManyLinks
  | links + 1 => followWith root (followLinks root links)

/-- Where components lead when links are followed. -/
def follow (root : Node) (parts : List String) : Except FileProblem (List String) :=
  followLinks root 40 [] parts

/-- Follows components from a place on as far as they exist; `onLink` takes over where a link
stands. -/
def realWith (root : Node) (onLink : List String → List String → List String) :
    List String → List String → List String
  | place, [] => place
  | place, name :: rest =>
    if name = ".." then realWith root onLink place.dropLast rest
    else match root.get? (place ++ [name]) with
      | some (link target) =>
        let path := Path.ofText target
        onLink (if path.absolute then [] else place) (path.parts ++ rest)
      | _ => realWith root onLink (place ++ [name]) rest

/-- Follows components through at most that many links, as far as they exist. -/
def realLinks (root : Node) : Nat → List String → List String → List String
  | 0 => realWith root fun place rest => place ++ rest
  | links + 1 => realWith root (realLinks root links)

/-- The components without links and double dots; they need not exist. The number of links that are
followed is one less than a multiple of every small number, so that a small loop of links is left at
the link at which it was entered. -/
def realPath (root : Node) (parts : List String) : List String :=
  realLinks root 59 [] parts

/-- The node that components lead to when links are followed. -/
def reach (root : Node) (parts : List String) : Except FileProblem Node :=
  match root.follow parts with
  | .error problem => .error problem
  | .ok place =>
    match root.get? place with
    | some node => .ok node
    | none => .error .notFound

/-- The components without links and double dots, unless links go round in a loop. -/
def resolve (root : Node) (parts : List String) : Except Fault (List String) :=
  let place := root.realPath parts
  match root.reach place with
  | .error .tooManyLinks => .error (.linkLoop (Path.ofParts place).text)
  | _ => .ok place

/-- Something is there. -/
def existsAt (root : Node) (parts : List String) : Bool :=
  match root.reach parts with
  | .ok _ => true
  | .error _ => false

/-- A directory is there. -/
def isDirectoryAt (root : Node) (parts : List String) : Bool :=
  match root.reach parts with
  | .ok (directory _) => true
  | _ => false

/-- A file is there. -/
def isFileAt (root : Node) (parts : List String) : Bool :=
  match root.reach parts with
  | .ok (file _) => true
  | _ => false

/-- The bytes of the file that components lead to. -/
def bytesAt (root : Node) (parts : List String) : Except FileProblem Bytes :=
  match root.reach parts with
  | .error problem => .error problem
  | .ok (file content) => .ok content
  | .ok _ => .error .isADirectory

/-- Reads the text of a file: its bytes decoded, with every line end read as a line feed. The path
is the one named in a fault. -/
def readTextAt (root : Node) (parts : List String) (path : Path) : Except Fault String :=
  match root.bytesAt parts with
  | .error problem => .error (.file ⟨problem, path.text⟩)
  | .ok bytes => (readText bytes).mapError .decode

mutual

/-- The files at a node and below it with their components, where `place` leads to the node. A link
to a file counts as that file; directories are not looked for behind links. -/
def filesBelow (root : Node) (place : List String) : Node → List (List String × Bytes)
  | file content => [(place, content)]
  | link _ =>
    match root.bytesAt place with
    | .ok content => [(place, content)]
    | .error _ => []
  | directory entries => filesAmong root place entries

/-- The files of some named nodes in the directory at `place`. -/
def filesAmong (root : Node) (place : List String) :
    List (String × Node) → List (List String × Bytes)
  | [] => []
  | (name, node) :: rest => filesBelow root (place ++ [name]) node ++ filesAmong root place rest

end

end Node

end ProjectReview
