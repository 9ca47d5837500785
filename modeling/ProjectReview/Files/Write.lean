import ProjectReview.Files.Tree

set_option autoImplicit false

/-! # Writing files

Changes to a file tree: making directories, writing files through links, and writing safely. A safe
write puts the new content into a fresh temporary file next to the target and then renames it over
the target, so that the target holds the old content or the new one and nothing else.

An operation gives the tree it leaves together with its outcome, since a failure may come after some
directories have been made. Where the storage itself refuses a step, `Obstacles` say so. -/

namespace ProjectReview

/-- The steps that the storage refuses. -/
structure Obstacles where
  makeDirectory : List String → Option FileProblem := fun _ => none
  createTemporary : Option FileProblem := none
  writeTemporary : Option FileProblem := none
  rename : Option FileProblem := none

namespace Node

/-- Makes a directory whose parent exists. -/
def makeDirectory (obstacles : Obstacles) (root : Node) (parts : List String) :
    Except FileProblem Node :=
  match parts.getLast? with
  | none => .error .alreadyExists
  | some name =>
    match root.follow parts.dropLast with
    | .error problem => .error problem
    | .ok place =>
      match root.get? place with
      | some (directory entries) =>
        if name = ".." ∨ (Assoc.get? entries name).isSome then .error .alreadyExists
        else match obstacles.makeDirectory (place ++ [name]) with
          | some problem => .error problem
          | none => .ok (root.put (place ++ [name]) emptyDirectory)
      | some _ => .error .notADirectory
      | none => .error .notFound

/-- Makes the directory with the given components, the last one first, and the directories above it
where they are missing. A directory that is there already will do. -/
def makeDirectories (obstacles : Obstacles) (root : Node) :
    List String → Node × Except FileFault Unit
  | [] => (root, .ok ())
  | name :: above =>
    let parts := (name :: above).reverse
    let refuse (root : Node) (problem : FileProblem) : Node × Except FileFault Unit :=
      (root, .error ⟨problem, (Path.ofParts parts).text⟩)
    let settle (root : Node) (problem : FileProblem) : Node × Except FileFault Unit :=
      if root.isDirectoryAt parts then (root, .ok ()) else refuse root problem
    match root.makeDirectory obstacles parts with
    | .ok made => (made, .ok ())
    | .error .notFound =>
      match makeDirectories obstacles root above with
      | (root, .error fault) => (root, .error fault)
      | (root, .ok ()) =>
        match root.makeDirectory obstacles parts with
        | .ok made => (made, .ok ())
        | .error .notFound => refuse root .notFound
        | .error problem => settle root problem
    | .error problem => settle root problem

/-- Writes a file, through a link if there is one. The directory it is in must exist. -/
def writeBytes (root : Node) (parts : List String) (content : Bytes) : Except FileProblem Node :=
  match root.follow parts with
  | .ok place =>
    match root.get? place with
    | some (directory _) => .error .isADirectory
    | _ => .ok (root.put place (.file content))
  | .error .notFound =>
    let place := root.realPath parts
    match root.get? place.dropLast with
    | some (directory _) => .ok (root.put place (.file content))
    | some _ => .error .notADirectory
    | none => .error .notFound
  | .error problem => .error problem

/-- A name that no entry has. -/
def freshName (entries : Assoc Node) : String :=
  let names := (List.range (entries.length + 1)).map fun n => "tmp" ++ toString n ++ ".tmp"
  (names.find? fun name => !entries.has name).getD ".tmp"

/-- Puts content into a temporary file in a directory and renames it to a name in that directory;
the temporary file does not outlive a failure. -/
def replaceIn (obstacles : Obstacles) (root : Node) (place : List String) (name : String)
    (content : Bytes) : Node × Except FileProblem Unit :=
  match obstacles.createTemporary with
  | some problem => (root, .error problem)
  | none =>
    let temporary := place ++ [freshName ((root.get? place).map entries |>.getD [])]
    let created := root.put temporary (.file [])
    match obstacles.writeTemporary with
    | some problem => (created.erase temporary, .error problem)
    | none =>
      let written := created.put temporary (.file content)
      match obstacles.rename with
      | some problem => (written.erase temporary, .error problem)
      | none =>
        match written.get? (place ++ [name]) with
        | some (directory _) => (written.erase temporary, .error .isADirectory)
        | _ => ((written.erase temporary).put (place ++ [name]) (.file content), .ok ())

/-- Writes a file safely: the directories above it are made where they are missing, and a link at
the target is replaced and not followed. -/
def safeWrite (obstacles : Obstacles) (root : Node) (parts : List String) (content : Bytes) :
    Node × Except FileFault Unit :=
  let refuse (root : Node) (problem : FileProblem) : Node × Except FileFault Unit :=
    (root, .error ⟨problem, (Path.ofParts parts).text⟩)
  match makeDirectories obstacles root parts.dropLast.reverse with
  | (root, .error fault) => (root, .error fault)
  | (root, .ok ()) =>
    match root.follow parts.dropLast, parts.getLast? with
    | .error problem, _ => refuse root problem
    | .ok _, none => refuse root .isADirectory
    | .ok place, some name =>
      if name = ".." then refuse root .isADirectory
      else match root.replaceIn obstacles place name content with
        | (root, .ok ()) => (root, .ok ())
        | (root, .error problem) => refuse root problem

end Node

end ProjectReview
