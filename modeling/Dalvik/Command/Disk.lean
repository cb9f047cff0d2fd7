import Dalvik.Command.Request
import Dalvik.Files

/-!
# What a run needs of the disk

The paths that a request reads, and the form in which a directory keeps a store of verdicts: one
file with a line per verdict, which holds the key and the bytes in hexadecimal digits.
-/

namespace Dalvik.Command.Disk

/-- The files that a request reads. -/
def inputs : Request → List String
  | .scan _ o => [o.file]
  | .batch _ _ manifest => [manifest]
  | .diff _ _ left right => [left, right]
  | _ => []

/-- The directory in which a request keeps verdicts, if it names one. -/
def cache? : Request → Option String
  | .scan _ o => if o.cache.isEmpty then none else some o.cache
  | .batch _ o _ => if o.cache.isEmpty then none else some o.cache
  | _ => none

/-- The path of the file that holds a store. -/
def storeFile (directory : String) : String := directory ++ "/verdicts"

/-- The front parts of a path that name something, the path itself included. -/
def fronts (path : String) : List String :=
  let parts := Files.parts path
  ((List.range parts.length).map fun n => String.intercalate "/" (parts.take (n + 1))).filter
    (!·.isEmpty)

/-- The paths to be looked at before a run, each after those that it goes through. -/
def paths (request : Request) : List String :=
  (inputs request ++ ((cache? request).map storeFile).toList).flatMap fronts

/-- The file of a store. -/
def encodeStore (records : List (Digest × List UInt8)) : String :=
  String.join (records.map fun (key, bytes) => key.text ++ " " ++ Bytes.Hex.encode bytes ++ "\n")

/-- The verdict on a line of the file of a store. -/
def decodeLine? (line : List Char) : Option (Digest × List UInt8) :=
  match line.splitOn ' ' with
  | [key, data] =>
    match Bytes.Hex.decode (String.ofList key), Bytes.Hex.decode (String.ofList data) with
    | .ok key, .ok bytes => some (Digest.ofBytes key, bytes)
    | _, _ => none
  | _ => none

/-- The verdicts in the file of a store; other lines are passed over. -/
def decodeStore (bytes : List UInt8) : List (Digest × List UInt8) :=
  ((Bytes.Utf8.decode bytes).toList.splitOn '\n').filterMap decodeLine?

/-- The files with the store of a directory taken from its file. -/
def mount (files : Files) (directory : String) : Files :=
  match files.read (storeFile directory) with
  | .ok bytes =>
    { files with stores := (Files.locate directory, decodeStore bytes) :: files.stores }
  | .error _ => files

/-- The file of the store that a directory has now. -/
def image? (files : Files) (directory : String) : Option String :=
  (files.stores.lookup (Files.locate directory)).map encodeStore

end Dalvik.Command.Disk
