import ProjectReview.Command.Run

set_option autoImplicit false

/-! # The program

Reads the files that a call of the program may look at, runs it on them, prints what it prints and
writes the files that it changed. -/

namespace ProjectReview.Main

/-- Reads an entry of a directory with everything below it. An entry that cannot be read is left
out. -/
partial def readEntry (entry : IO.FS.DirEntry) : IO (Option (String × Node)) := do
  try
    match (← entry.path.symlinkMetadata).type with
    | .file => return some (entry.fileName, .file (← IO.FS.readBinFile entry.path).toList)
    | .symlink =>
      return some (entry.fileName, .link (toString (← IO.FS.realPath entry.path)))
    | .dir =>
      let entries ← (← entry.path.readDir).toList.filterMapM readEntry
      return some (entry.fileName, .directory entries)
    | .other => return none
  catch _ => return none

/-- The tree with what a path leads to, if it leads anywhere. -/
def readPlace (files : Node) (path : String) : IO Node := do
  let place := (← IO.currentDir) / path
  if !(← place.pathExists) then return files
  let parts := (Path.ofText (toString (← IO.FS.realPath place))).parts
  let (above, _) := files.makeDirectories {} parts.dropLast.reverse
  if ← place.isDir then
    let entries ← (← place.readDir).toList.filterMapM readEntry
    return above.put parts (.directory entries)
  else return above.put parts (.file (← IO.FS.readBinFile place).toList)

/-- Writes the files that differ between two trees. -/
def writeChanges (before after : Node) : IO Unit := do
  for (parts, content) in after.filesBelow [] after do
    let changed := match after.get? parts, before.get? parts with
      | some (.link _), _ => false
      | _, some (.file old) => old != content
      | _, _ => true
    if changed then
      let target := (Path.ofParts parts).text
      let temporary := target ++ ".tmp"
      IO.FS.createDirAll (Path.ofParts parts.dropLast).text
      IO.FS.writeBinFile temporary ⟨content.toArray⟩
      IO.FS.rename temporary target

/-- The components of the directory that a path leads to. -/
def realParts (path : String) : IO (List String) := do
  return (Path.ofText (toString (← IO.FS.realPath ((← IO.currentDir) / path)))).parts

end ProjectReview.Main

open ProjectReview in
/-- Runs the program with its arguments. -/
def main (arguments : List String) : IO UInt32 := do
  let rootText := (← IO.getEnv "REVIEWKIT_ROOT").getD "."
  let files ← (rootText :: "." :: arguments).foldlM Main.readPlace Node.emptyDirectory
  let colors := (← (← IO.getStdout).isTty) && (← IO.getEnv "NO_COLOR").isNone
  let environment : Environment :=
    { directory := ← Main.realParts ".", root := ← Main.realParts rootText, colors := colors }
  let (_, outcome, left) := runProgram environment arguments files
  Main.writeChanges files left
  match outcome with
  | .ok result =>
    IO.print result.stdout
    IO.eprint result.stderr
    return UInt32.ofNat result.code
  | .error fault =>
    IO.eprintln fault.summary
    return 1
