import Foregone.Command

/-! # The program

Reads the paths named on the command line from disk, runs the command on them and
prints what it leaves behind: the output, then the log and any usage error on the
error stream. -/

namespace Foregone.Disk

/-- The text of a failure to read, without the name of the file. -/
def reason : IO.Error → String
  | .noSuchThing _ code _ => "[Errno " ++ toString code ++ "] No such device or address"
  | .permissionDenied _ code _ => "[Errno " ++ toString code ++ "] Permission denied"
  | e => toString e

/-- A file as it is read. -/
def readFile (path : String) : BaseIO FileTree := do
  match ← (IO.FS.readBinFile path).toBaseIO with
  | .ok content => return .file (.ok content.toList)
  | .error e => return .file (.error (reason e))

/-- Reading what stands at a path is allowed. What is neither a file nor a directory is not
opened to find out. -/
def mayRead (path : String) : IO Bool := do
  let place := (← IO.currentDir) / path
  let attempt : IO Unit := do
    if ← place.isDir then
      discard place.readDir
    else if (← place.metadata).type matches .file then
      discard (IO.FS.Handle.mk place .read)
  match ← attempt.toBaseIO with
  | .error (.permissionDenied ..) => return false
  | _ => return true

/-- What stands at a path. A link to a directory is not followed, so that walking a
directory ends; a directory that must not be read is empty. -/
partial def load (path : String) : IO FileTree := do
  let place := (← IO.currentDir) / path
  if ← place.isDir then
    let entries ← if ← mayRead path then place.readDir else pure #[]
    let trees ← entries.toList.mapM fun entry => do
      let linked := (← entry.path.symlinkMetadata).type matches .symlink
      let tree ← if linked && (← entry.path.isDir) then pure (FileTree.dir [])
        else load entry.path.toString
      return (entry.fileName, tree)
    return .dir trees
  match ← place.metadata.toBaseIO with
  | .error e => return .other (reason e)
  | .ok found =>
    if found.type matches .file then return ← readFile path
    match ← readFile path with
    | .file (.error e) => return .other e
    | _ => return .other "[Errno 6] No such device or address"

/-- The paths that exist, with what stands there. -/
def loadAll (paths : List String) : IO (List (String × FileTree)) := do
  let found ← paths.filterM fun (path : String) => do
    if path.isEmpty then return false
    ((← IO.currentDir) / path).pathExists
  found.mapM fun (path : String) => return (path, ← load path)

/-- The paths a run looks at. -/
def pathsOf (args : List String) : List String :=
  match Request.ofArgs args with
  | .ok (.check _ _ paths) => paths
  | _ => []

end Foregone.Disk

open Foregone in
def main (args : List String) : IO UInt32 := do
  let trees ← Disk.loadAll (Disk.pathsOf args)
  let allowed ← (trees.map Prod.fst).filterM Disk.mayRead
  let outcome := Outcome.run (List.lookup · trees) args allowed.contains
  IO.print outcome.output
  for line in outcome.log do
    IO.eprintln line.text
  if let some e := outcome.usageError then
    IO.eprintln ("Error: " ++ e.message)
  return outcome.exit.toUInt32
