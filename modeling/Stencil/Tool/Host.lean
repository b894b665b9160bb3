import Stencil.Failure

/-!
# Hosts

The command line tool works on a host: files, directories and a clock. A host can be the system, or a
value that holds the bytes of files.

## Main definitions

* `Host`: what the tool asks of its surroundings
* `Files`: directories, the bytes of files by their place, and the current directory
* `Files.find`, `Files.findNew`: the places that paths lead to
* `Files.host`: the host of such files
-/

namespace Stencil.Tool

/-- What the tool asks of its surroundings. Files are named by paths. -/
structure Host (m : Type → Type) where
  /-- The bytes of a file. -/
  read : String → m (Except SystemFault (List UInt8))
  /-- Makes a file, or empties it. -/
  create : String → m (Except SystemFault Unit)
  /-- Puts a text into a file that has been made. -/
  write : String → String → m (Except SystemFault Unit)
  /-- Whether there is a directory. -/
  isDirectory : String → m Bool
  /-- The files below a directory: at each level in the order of names. -/
  filesBelow : String → m (List String)
  /-- The time in milliseconds, if there is a clock. -/
  now : m (Option Nat)

/-- The place of a file or directory: names from the root down. -/
abbrev Place := List String

/-- Directories and the bytes of files. Directories that something lies in need not be listed. -/
structure Files where
  contents : List (Place × List UInt8)
  directories : List Place
  /-- The directory that paths start from, if they do not start from the root. -/
  current : Place
  deriving DecidableEq, Repr

/-- The names between the slashes of a path. -/
def pathParts (path : String) : List String :=
  (Text.splitOn '/' path.toList).map String.ofList

/-- A path with one more name. -/
def joinPath (path name : String) : String :=
  if path.endsWith "/" then path ++ name else path ++ "/" ++ name

namespace Files

/-- The directory of the files that are given as a list. -/
def workPlace : Place := ["work"]

/-- A directory with files of these paths and texts. -/
def ofList (files : List (String × String)) : Files where
  contents := files.map fun (path, text) => (workPlace ++ pathParts path, text.toUTF8.toList)
  directories := []
  current := workPlace

/-- The bytes of the file at a place. -/
def content? (files : Files) (place : Place) : Option (List UInt8) :=
  files.contents.lookup place

/-- Whether a place is a directory: the current one, one that is listed, that of a file, or above
one of these. -/
def hasDirectory (files : Files) (place : Place) : Bool :=
  (files.current :: files.directories ++ files.contents.map (·.1.dropLast)).any place.isPrefixOf

/-- The files with bytes at a place. -/
def put (files : Files) (place : Place) (bytes : List UInt8) : Files :=
  { files with contents :=
      if (files.content? place).isSome then
        files.contents.map fun (other, old) =>
          if other = place then (place, bytes) else (other, old)
      else files.contents ++ [(place, bytes)] }

/-- Goes on from a place. Each name is looked up in a directory; above the root is the root. -/
def descend (files : Files) (place : Place) : List String → Except SystemFault Place
  | [] => .ok place
  | name :: rest =>
    if (files.content? place).isSome then .error .notDirectory
    else if !files.hasDirectory place then .error .noEntry
    else if name = "" || name = "." then files.descend place rest
    else if name = ".." then files.descend place.dropLast rest
    else files.descend (place ++ [name]) rest

/-- The directory that a path starts from. -/
def start (files : Files) (path : String) : Place :=
  if path.startsWith "/" then [] else files.current

/-- The place that a path leads to. -/
def find (files : Files) (path : String) : Except SystemFault Place :=
  if path = "" then .error .noEntry else files.descend (files.start path) (pathParts path)

/-- The bytes of a file. -/
def read (files : Files) (path : String) : Except SystemFault (List UInt8) := do
  let place ← files.find path
  match files.content? place with
  | some bytes => .ok bytes
  | none => if files.hasDirectory place then .error .isDirectory else .error .noEntry

/-- Whether a path leads to a directory. -/
def isDirectory (files : Files) (path : String) : Bool :=
  match files.find path with
  | .ok place => files.hasDirectory place
  | .error _ => false

/-- The place of a file to be made. A path that ends like that of a directory cannot be made. -/
def findNew (files : Files) (path : String) : Except SystemFault Place := do
  if path = "" then throw .noEntry
  let parts := pathParts path
  let named := (parts.reverse.dropWhile (· = "")).reverse
  let parent ← files.descend (files.start path) (named.dropLast ++ [""])
  let name := named.getLast?.getD "."
  if named.length < parts.length || name = "." || name = ".." then throw .isDirectory
  if files.hasDirectory (parent ++ [name]) then throw .isDirectory
  return parent ++ [name]

/-- The files below a directory, in the order of their names. -/
def below (files : Files) (path : String) : List String :=
  match files.find path with
  | .error _ => []
  | .ok place =>
    let found := files.contents.filterMap fun (other, _) =>
      if place.isPrefixOf other && place.length < other.length then
        some (other.drop place.length)
      else none
    (found.mergeSort fun a b => !decide (b < a)).map fun names => names.foldl joinPath path

/-- The texts of the files below the current directory that are new or have other bytes, with their
paths. -/
def changedSince (files before : Files) : List (String × String) :=
  (files.contents.filter fun (place, bytes) =>
    files.current.isPrefixOf place && before.content? place ≠ some bytes).map fun (place, bytes) =>
      ("/".intercalate (place.drop files.current.length),
        (String.fromUTF8? bytes.toByteArray).getD "")

/-- Puts bytes into the file that a path leads to, which is made if it is not there. -/
def fill (path : String) (bytes : List UInt8) : StateM Files (Except SystemFault Unit) := do
  match (← get).findNew path with
  | .ok place =>
    modify (·.put place bytes)
    return .ok ()
  | .error fault => return .error fault

/-- The host of files held in a state. It has no clock. -/
def host : Host (StateM Files) where
  read path := do
    return (← get).read path
  create path := fill path []
  write path text := fill path text.toUTF8.toList
  isDirectory path := do
    return (← get).isDirectory path
  filesBelow path := do
    return (← get).below path
  now := return none

end Files

end Stencil.Tool
