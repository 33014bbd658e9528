import Recast.Command
import Recast.Value.Json

/-!
The program.

It looks at the disk, runs the command line, prints what there is to print and writes the files. The
configuration is a JSON document. What a Java parser answers to a source `X.java` is read from the
document `X.java.json` beside it.
-/

namespace Recast.Main

/-- The document in a file, if there is one. -/
def document? (path : String) : IO (Option Value) := do
  try
    let text ← IO.FS.readFile path
    return Value.Json.read? text
  catch _ => return none

/-- A file with what the readers make of it. -/
def storedFile (path : String) : IO StoredFile := do
  let bytes ← IO.FS.readBinFile path
  let document ← document? path
  let parsed ← document? (path ++ ".json")
  return ⟨bytes.toList, document, .ofDocument (parsed.getD .null)⟩

/-- What is on the real disk at a path and, for a directory, below it. -/
def entriesAt (disk : Disk) (path : String) : IO (List (Place × DiskEntry)) := do
  let root := (← IO.currentDir) / path
  if ← root.isDir then
    let below ← root.walkDir
    let inside ← (below.toList.filter fun p => Disk.isJavaName p.toString).mapM fun p => do
      let place := disk.placeOf p.toString
      if ← p.isDir then return (place, DiskEntry.directory)
      return (place, DiskEntry.file (← storedFile p.toString))
    return (disk.placeOf path, .directory) :: inside
  else if ← root.pathExists then
    return [(disk.placeOf path, .file (← storedFile root.toString))]
  else return []

/-- Looks at the configuration document and at the source roots that it names. -/
def look (options : Command.Options) : IO Disk := do
  let here := (← IO.currentDir).toString
  let empty : Disk := { workingDirectory := SlashPath.names here }
  let disk := { empty with entries := ← entriesAt empty options.config }
  match Command.loadConfig disk options.config with
  | .error _ => return disk
  | .ok config =>
    let found ← config.modules.mapM fun m => entriesAt disk (config.rootOf m)
    return { disk with entries := disk.entries ++ found.flatten }

/-- Writes the files of a run. -/
def writeFiles (files : List (String × String)) : IO Unit :=
  files.forM fun (path, text) => do
    IO.FS.createDirAll (SlashPath.clean (SlashPath.directory path))
    IO.FS.writeFile path text

/-- How the program is called. -/
def usage : String := "usage: recast [-h] [--file FILE] [--stdout] [-v] config"

end Recast.Main

open Recast in
def main (words : List String) : IO UInt32 := do
  match Command.Invocation.read words with
  | .stop 0 =>
    IO.println Main.usage
    return 0
  | .stop status =>
    IO.eprintln Main.usage
    return UInt32.ofNat status
  | .run options =>
    match Command.run (← Main.look options) options with
    | .error fault =>
      IO.eprintln (Fault.template fault).message
      return 1
    | .ok outcome =>
      Main.writeFiles outcome.written
      IO.print outcome.stdout
      IO.eprint outcome.stderr
      return UInt32.ofNat outcome.status
