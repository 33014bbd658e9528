import Recast.Reading
import Recast.SlashPath
import Recast.Text.Quoted
import Recast.Text.Utf8
import Recast.Value

/-!
A disk as the command line sees it.

A disk has files, at places given by the names that lead to them from the root, and directories:
those it lists and all that lead to something. Documents and Java sources are read by readers that
are not part of this library, so a file comes with what they make of it.

A path is followed name by name, and each name but the last must lead to a directory. Where a file
is placed without looking, `placeOf`, a path is only taken apart. A name has at most 255 bytes and a
path fewer than 4096.
-/

namespace Recast

/-- A file. -/
structure StoredFile where
  bytes : List UInt8
  /-- What the file holds if it is read as a configuration document; none if it is no document. -/
  document : Option Value
  /-- What a Java parser answers to the file's text. -/
  parsed : ParserAnswer

/-- Something on a disk. -/
inductive DiskEntry where
  | directory
  | file (stored : StoredFile)

/-- Why a file cannot be read. -/
inductive AccessFault where
  | missing
  | notDirectory
  | isDirectory
  /-- A name, or the whole path, has too many bytes. -/
  | nameTooLong
deriving DecidableEq, Repr

/-- The wording of a fault at a path. -/
def AccessFault.message (path : String) : AccessFault → String
  | .missing => "[Errno 2] No such file or directory: " ++ Text.quote path
  | .notDirectory => "[Errno 20] Not a directory: " ++ Text.quote path
  | .isDirectory => "[Errno 21] Is a directory: " ++ Text.quote path
  | .nameTooLong => "[Errno 36] File name too long: " ++ Text.quote path

/-- A place on a disk: the names that lead to it from the root. -/
abbrev Place := List String

/-- A disk and the directory in which unrooted paths start. -/
structure Disk where
  workingDirectory : Place := []
  entries : List (Place × DiskEntry) := []

namespace Disk

/-- The entry listed at a place. -/
def entry? (disk : Disk) (place : Place) : Option DiskEntry :=
  (disk.entries.find? (·.1 = place)).map (·.2)

/-- Whether a place leads to something on the disk. -/
def leadsOn (disk : Disk) (place : Place) : Bool :=
  place.isPrefixOf disk.workingDirectory
    || disk.entries.any fun (listed, _) => place.isPrefixOf listed

/-- Whether there is a directory at a place. -/
def isDirectoryAt (disk : Disk) (place : Place) : Bool :=
  match disk.entry? place with
  | some (.file _) => false
  | _ => disk.leadsOn place

/-- Follows one name of a path. -/
def follow (disk : Disk) (place : Place) (name : String) : Except AccessFault Place :=
  if !disk.isDirectoryAt place then .error .notDirectory
  else if name = "" ∨ name = "." then .ok place
  else if name = ".." then .ok place.dropLast
  else if 255 < name.utf8ByteSize then .error .nameTooLong
  else if disk.leadsOn (place ++ [name]) then .ok (place ++ [name])
  else .error .missing

/-- The place where a path starts. -/
def start (disk : Disk) (path : String) : Place :=
  if SlashPath.isRooted path then [] else disk.workingDirectory

/-- The place that a path leads to. -/
def locate (disk : Disk) (path : String) : Except AccessFault Place :=
  if path = "" then .error .missing
  else if 4096 ≤ path.utf8ByteSize then .error .nameTooLong
  else (SlashPath.segments path).foldlM disk.follow (disk.start path)

/-- Whether a path leads to a directory. -/
def isDirectory (disk : Disk) (path : String) : Bool :=
  match disk.locate path with
  | .ok place => disk.isDirectoryAt place
  | .error _ => false

/-- The file that a path leads to. -/
def read (disk : Disk) (path : String) : Except AccessFault StoredFile := do
  match disk.entry? (← disk.locate path) with
  | some (.file stored) => return stored
  | _ => throw .isDirectory

/-- The place that a path names, whether there is something or not. -/
def placeOf (disk : Disk) (path : String) : Place :=
  (SlashPath.resolve (SlashPath.join ("/" ++ String.intercalate "/" disk.workingDirectory)
    path)).names

/-! ### Listings -/

/-- The order of places, name by name. -/
def placeLe : Place → Place → Bool
  | [], _ => true
  | _ :: _, [] => false
  | a :: as, b :: bs => if a = b then placeLe as bs else Text.le a b

/-- The first occurrence of each place. -/
def distinctPlaces : List Place → List Place
  | [] => []
  | place :: rest => place :: (distinctPlaces rest).filter (· ≠ place)

/-- All that lies below a directory, as seen from there. -/
def below (disk : Disk) (directory : Place) : List Place :=
  let listed := (disk.entries.map (·.1)).filter fun place => directory.isPrefixOf place
  let seen := listed.map fun place => place.drop directory.length
  distinctPlaces
    (seen.flatMap fun place => (List.range place.length).map fun n => place.take (n + 1))

/-- What the name of a Java file ends in. -/
def javaEnding : List Char := ".java".toList

/-- Whether a name is that of a Java file. -/
def isJavaName (name : String) : Bool := javaEnding.isSuffixOf name.toList

/-- The name of the type in a Java file: what the file's name has before its ending, or the whole
name if that is nothing. -/
def typeName (name : String) : String :=
  match name.toList.take (name.length - javaEnding.length) with
  | [] => name
  | before => String.ofList before

/-- The Java files below a directory, as seen from there, in order. -/
def javaBelow (disk : Disk) (path : String) : List Place :=
  match disk.locate path with
  | .error _ => []
  | .ok directory =>
    ((disk.below directory).filter fun place => place.getLast?.any isJavaName).mergeSort placeLe

/-- The names of the types in the Java files that stand beside one of them, in order. -/
def siblingsIn (files : List Place) (file : Place) : List String :=
  let beside := files.filter fun other => other ≠ file ∧ other.dropLast = file.dropLast
  Text.sorted (beside.filterMap fun other => other.getLast?.map typeName)

/-- The names of the types in the Java files beside a file. -/
def siblings (disk : Disk) (path : String) : List String :=
  let files := (disk.javaBelow (SlashPath.clean (SlashPath.directory path))).filter (·.length = 1)
  siblingsIn files [SlashPath.fileName path]

end Disk

end Recast
