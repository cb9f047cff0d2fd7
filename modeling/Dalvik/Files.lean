import Dalvik.Verdict

/-!
# Files

A working directory as a value: files, directories, and the verdict stores that directories
hold. A path is followed part by part, and every part but the last has to lead to a directory. A
store in a directory can be open once at a time; what it holds is written back when it is closed.
-/

namespace Dalvik

/-- A place, outermost name first: below the working directory, or below the directories that `/`
and `..` at the front lead to. -/
abbrev Location := List String

/-- What stands at a place. -/
inductive Node where
  | file (bytes : List UInt8)
  | directory
  deriving DecidableEq, Repr

/-- A working directory and what is below it. -/
structure Files where
  files : List (Location × List UInt8) := []
  directories : List Location := []
  stores : List (Location × List (Digest × List UInt8)) := []
  /-- The places of the stores that are open. -/
  locked : List Location := []

namespace Files

/-! ## Faults -/

/-- What is in the way of an operation on a path. -/
inductive Obstacle where
  | missing
  /-- The path goes on below a file. -/
  | notDirectory
  | isDirectory
  /-- Something stands where a directory is to be made. -/
  | taken
  /-- The path or a name in it is too long. -/
  | longName
  /-- The path holds a character that no path can hold. -/
  | invalid
  deriving DecidableEq, Repr

/-- The wording of an obstacle. -/
def Obstacle.message : Obstacle → String
  | missing => "no such file or directory"
  | notDirectory => "not a directory"
  | isDirectory => "is a directory"
  | taken => "file exists"
  | longName => "file name too long"
  | invalid => "invalid argument"

/-- An operation on a path. -/
inductive Action where
  | openFile
  | readFile
  | inspect
  | makeDirectory
  deriving DecidableEq, Repr

/-- The name of an operation. -/
def Action.name : Action → String
  | openFile => "open"
  | readFile => "read"
  | inspect => "stat"
  | makeDirectory => "mkdir"

/-- A failed operation on a path. -/
structure PathFault where
  action : Action
  path : String
  obstacle : Obstacle
  deriving DecidableEq, Repr

/-- The wording of a failed operation. -/
def PathFault.message (f : PathFault) : String :=
  f.action.name ++ " " ++ f.path ++ ": " ++ f.obstacle.message

/-! ## Paths -/

/-- The parts of a path between slashes. -/
def parts (path : String) : List String := (path.toList.splitOn '/').map String.ofList

/-- The number of bytes that a name can have. -/
def maxName : Nat := 255

/-- The number of bytes that a path can have. -/
def maxPath : Nat := 4095

/-- The name of the outermost directory. -/
def rootName : String := "/"

/-- The name of the directory above. -/
def parentName : String := ".."

/-- What is in the way of every operation on a path, whatever the files are. -/
def refusal? (path : String) : Option Obstacle :=
  if path.toList.contains (Char.ofNat 0) then some .invalid
  else if path.isEmpty then some .missing
  else if maxPath < path.utf8ByteSize then some .longName
  else none

/-- The place from which a path is followed. -/
def origin (path : String) : Location := if path.toList.head? = some '/' then [rootName] else []

/-- The place that one part of a path leads to. -/
def enter (loc : Location) (part : String) : Location :=
  if part = "" ∨ part = "." then loc
  else if part = parentName then
    match loc.getLast? with
    | none => [parentName]
    | some name =>
      if name = rootName then loc
      else if name = parentName then loc ++ [parentName]
      else loc.dropLast
  else loc ++ [part]

/-- The place that a path names. -/
def locate (path : String) : Location :=
  (parts path).foldl enter (origin path)

/-- The shortest path to a name at a place. -/
def pathTo (loc : Location) (name : String) : String :=
  match loc with
  | [] => name
  | first :: rest =>
    if first = rootName then first ++ String.intercalate "/" (rest ++ [name])
    else String.intercalate "/" (loc ++ [name])

/-- What stands at a place. The directories that a path can start from always exist. -/
def nodeAt? (fs : Files) (loc : Location) : Option Node :=
  if loc.all fun name => name = rootName ∨ name = parentName then some .directory
  else
    match fs.files.lookup loc with
    | some bytes => some (.file bytes)
    | none => if fs.directories.contains loc then some .directory else none

/-- Follows the parts of a path from a place on. -/
def follow (fs : Files) (loc : Location) : List String → Except Obstacle Location
  | [] => .ok loc
  | part :: rest =>
    match fs.nodeAt? loc with
    | some .directory =>
      if maxName < part.utf8ByteSize then .error .longName else follow fs (enter loc part) rest
    | some (.file _) => .error .notDirectory
    | none => .error .missing

/-- What a path leads to. -/
def find (fs : Files) (path : String) : Except Obstacle Node :=
  match refusal? path with
  | some obstacle => .error obstacle
  | none =>
    match fs.follow (origin path) (parts path) with
    | .error obstacle => .error obstacle
    | .ok loc =>
      match fs.nodeAt? loc with
      | some node => .ok node
      | none => .error .missing

/-! ## Reading and writing -/

/-- The content of a file. -/
def read (fs : Files) (path : String) : Except PathFault (List UInt8) :=
  match fs.find path with
  | .ok (.file bytes) => .ok bytes
  | .ok .directory => .error ⟨.readFile, path, .isDirectory⟩
  | .error obstacle => .error ⟨.openFile, path, obstacle⟩

/-- The places above a place, the working directory apart. -/
def above (loc : Location) : List Location :=
  ((List.range loc.length).filter (0 < ·)).map loc.take

/-- The files with some directories added. -/
def addDirectories (fs : Files) (locs : List Location) : Files :=
  { fs with directories := fs.directories ++ locs.filter fun l => !fs.directories.contains l }

/-- The files with a file at a place. -/
def put (fs : Files) (loc : Location) (bytes : List UInt8) : Files :=
  { fs with files := (loc, bytes) :: fs.files.filter fun f => f.1 ≠ loc }

/-- The files with one file written. -/
def write (fs : Files) (path : String) (bytes : List UInt8) : Files :=
  let loc := locate path
  (fs.addDirectories (above loc)).put loc bytes

/-! ## Making directories -/

/-- Makes the directory that a path names. -/
def makeDirectory (fs : Files) (path : String) : Except Obstacle Files :=
  match refusal? path with
  | some obstacle => .error obstacle
  | none =>
    match fs.follow (origin path) ((parts path).reverse.dropWhile (·.isEmpty)).reverse with
    | .error obstacle => .error obstacle
    | .ok loc => if (fs.nodeAt? loc).isSome then .error .taken else .ok (fs.addDirectories [loc])

/-- Sees to it that a path leads to a directory, which is made if need be. -/
def ensureDirectory (fs : Files) (path : String) : Except PathFault Files :=
  match fs.makeDirectory path with
  | .ok made => .ok made
  | .error obstacle =>
    match fs.find path with
    | .ok .directory => .ok fs
    | _ => .error ⟨.makeDirectory, path, obstacle⟩

/-- The paths to the directories that a path goes through, and the path itself. The characters in
front are given in reverse. -/
def stagesFrom (front : List Char) : List Char → List String
  | [] => [String.ofList front.reverse]
  | c :: rest =>
    if c = '/' ∧ front ≠ [] ∧ (rest.head?.any fun next => next ≠ '/') then
      String.ofList front.reverse :: stagesFrom (c :: front) rest
    else stagesFrom (c :: front) rest

/-- The paths to the directories that a path goes through, and the path itself. -/
def stages (path : String) : List String := stagesFrom [] path.toList

/-- Sees to it that each of some paths leads to a directory. What has been made before a failure
stays. -/
def ensureDirectories (fs : Files) : List String → Except PathFault Unit × Files
  | [] => (.ok (), fs)
  | path :: rest =>
    match fs.ensureDirectory path with
    | .ok made => made.ensureDirectories rest
    | .error fault => (.error fault, fs)

/-! ## Verdict stores -/

/-- Why a store cannot be opened. -/
inductive OpenCause where
  | isFile
  | path (fault : PathFault)
  | locked
  deriving DecidableEq, Repr

/-- A failure to open the store at a path. -/
structure OpenFault where
  path : String
  cause : OpenCause
  deriving DecidableEq, Repr

/-- The wording of a failure to open a store. -/
def OpenFault.message (f : OpenFault) : String :=
  let reason :=
    match f.cause with
    | .isFile => "leveldb/storage: open " ++ f.path ++ ": not a directory"
    | .path fault => fault.message
    | .locked => "resource temporarily unavailable"
  "failed to open verdict store at " ++ f.path ++ ": " ++ reason

/-- An open store and the place that it came from; a store in memory has none. -/
structure OpenStore where
  store : VerdictStore
  home : Option Location

/-- The files that every store keeps in its directory: a file to lock, a log and the name of the
newest table of contents. Of the log only the line at its head is told, without the date. -/
def storeFiles : List (String × Action × String) :=
  [("LOCK", .openFile, ""), ("LOG", .openFile, "=============== ===============\n"),
    ("CURRENT", .readFile, "MANIFEST-000000\n")]

/-- Sees to it that the files of a store are there. -/
def ensureStoreFiles (fs : Files) (loc : Location) :
    List (String × Action × String) → Except PathFault Unit × Files
  | [] => (.ok (), fs)
  | (name, action, content) :: rest =>
    match fs.nodeAt? (loc ++ [name]) with
    | some .directory => (.error ⟨action, pathTo loc name, .isDirectory⟩, fs)
    | some (.file _) => fs.ensureStoreFiles loc rest
    | none => (fs.put (loc ++ [name]) (Bytes.Utf8.encode content)).ensureStoreFiles loc rest

/-- Opens the store in a directory. -/
def enterStore (fs : Files) (path : String) : Except OpenFault OpenStore × Files :=
  let loc := locate path
  if fs.locked.contains loc then (.error ⟨path, .locked⟩, fs)
  else
    match fs.ensureStoreFiles loc storeFiles with
    | (.error fault, fs) => (.error ⟨path, .path fault⟩, fs)
    | (.ok _, fs) =>
      (.ok ⟨{ records := (fs.stores.lookup loc).getD [] }, some loc⟩,
        { fs with locked := loc :: fs.locked })

/-- Opens the store at a path, where a directory is made if there is none; the empty path means a
new store in memory. -/
def openStore (fs : Files) (path : String) : Except OpenFault OpenStore × Files :=
  if path.isEmpty then (.ok ⟨{}, none⟩, fs)
  else
    match fs.find path with
    | .ok .directory => fs.enterStore path
    | .ok (.file _) => (.error ⟨path, .isFile⟩, fs)
    | .error .missing =>
      match fs.ensureDirectories (stages path) with
      | (.ok _, made) => made.enterStore path
      | (.error fault, made) => (.error ⟨path, .path fault⟩, made)
    | .error obstacle => (.error ⟨path, .path ⟨.inspect, path, obstacle⟩⟩, fs)

/-- Closes a store: what it holds goes back to its place, which can then be opened again. -/
def closeStore (fs : Files) (s : OpenStore) : Except StoreFault (OpenStore × Files) := do
  let closed ← s.store.close
  let fs :=
    match s.home with
    | none => fs
    | some loc =>
      { fs with
        stores := (loc, s.store.records) :: fs.stores.filter (fun e => e.1 ≠ loc)
        locked := fs.locked.filter fun l => l ≠ loc }
  return ({ s with store := closed }, fs)

end Files

end Dalvik
