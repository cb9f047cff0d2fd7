import Dalvik.Command.Disk
import Dalvik.Command.Run

/-!
# The program

Loads what a request reads, runs it, prints, and writes the store of verdicts back.
-/

namespace Dalvik.Program

open Command

/-- The files with what the disk holds under a path. -/
def load (files : Files) (path : String) : IO Files := do
  try
    let bytes ← IO.FS.readBinFile path
    return files.write path bytes.toList
  catch
    | .noFileOrDirectory .. => return files
    | _ => return files.addDirectories [Files.locate path]

/-- The files that a request needs. -/
def loadAll (request : Request) : IO Files := do
  let files ← (Disk.paths request).foldlM load {}
  return ((Disk.cache? request).map (Disk.mount files)).getD files

/-- Writes the store of verdicts back, if the request has one and it could be opened. -/
def save (request : Request) (files : Files) : IO Unit := do
  if let some directory := Disk.cache? request then
    if let some image := Disk.image? files directory then
      IO.FS.createDirAll directory
      IO.FS.writeFile (Disk.storeFile directory) image

end Dalvik.Program

/-- Runs the command line of the program; the result is the exit status. -/
def main (line : List String) : IO UInt32 := do
  let request := (Dalvik.Command.Request.parse line).toOption.getD (.help none)
  let files ← Dalvik.Program.loadAll request
  let outcome := Dalvik.Command.run files line
  IO.print outcome.stdout
  IO.eprint outcome.complaints
  Dalvik.Program.save request outcome.files
  return outcome.status.toUInt32
