import Deadwood.Files.Path
import Deadwood.Text.Lines
import Deadwood.Text.Order
import Deadwood.Text.Quoted
import Deadwood.Text.Utf8

/-!
# File trees

A file tree says what each location holds: a file with its bytes, or a directory. The root of the tree is
always a directory. What an operation needs and does not find is a fault, with the number and the text that
operating systems give it.
-/

set_option autoImplicit false
namespace Deadwood.Files

open Text

inductive Entry where
  | file (content : Bytes)
  | directory
  deriving Repr, DecidableEq, Inhabited

/-- A file tree: the locations that hold something, the root aside. -/
structure Tree where
  rows : List (Location × Entry) := []
  deriving Repr, DecidableEq, Inhabited

/-! ## Faults -/

inductive Fault where
  | missing
  | denied
  | present
  | notDirectory
  | isDirectory
  deriving Repr, DecidableEq

def Fault.describe : Fault → String
  | missing => "[Errno 2] No such file or directory"
  | denied => "[Errno 13] Permission denied"
  | present => "[Errno 17] File exists"
  | notDirectory => "[Errno 20] Not a directory"
  | isDirectory => "[Errno 21] Is a directory"

structure FileError where
  fault : Fault
  path : String
  deriving Repr, DecidableEq

def FileError.message (error : FileError) : String :=
  error.fault.describe ++ ": " ++ quoted error.path

namespace Tree

/-! ## Looking -/

def entry? (tree : Tree) (location : Location) : Option Entry :=
  if location.isEmpty then some .directory else tree.rows.lookup location

def isDirectory (tree : Tree) (location : Location) : Bool :=
  tree.entry? location == some .directory

def isFile (tree : Tree) (location : Location) : Bool :=
  match tree.entry? location with
  | some (.file _) => true
  | _ => false

/-- What is wrong with a location that holds nothing: it leads through a file, or is just not there. -/
def absence (tree : Tree) (location : Location) : Fault :=
  if (List.range location.length).any fun count => tree.isFile (location.take count) then .notDirectory
  else .missing

def read (tree : Tree) (location : Location) : Except Fault Bytes :=
  match tree.entry? location with
  | some (.file content) => .ok content
  | some .directory => .error .isDirectory
  | none => .error (tree.absence location)

/-- Follows names from a location, given innermost first; a parent can be asked of directories only. -/
def locateFrom (tree : Tree) (reversed : Location) : List String → Except Fault Location
  | [] => .ok reversed.reverse
  | name :: rest =>
    if name = ".." then
      match tree.entry? reversed.reverse with
      | some .directory => tree.locateFrom reversed.tail rest
      | some (.file _) => .error .notDirectory
      | none => .error (tree.absence reversed.reverse)
    else tree.locateFrom (name :: reversed) rest

def locate (tree : Tree) (path : Path) : Except Fault Location :=
  tree.locateFrom [] path.names

def isFileAt (tree : Tree) (path : Path) : Bool :=
  match tree.locate path with
  | .ok location => tree.isFile location
  | .error _ => false

def isDirectoryAt (tree : Tree) (path : Path) : Bool :=
  match tree.locate path with
  | .ok location => tree.isDirectory location
  | .error _ => false

/-- The row of one location is not after that of another: locations in order of their names. -/
def rowNotAfter (first second : Location × Entry) : Bool :=
  notAfter first.1 second.1

def below (tree : Tree) (root : Location) : List (Location × Entry) :=
  (tree.rows.filterMap fun (location, entry) =>
    if root.isPrefixOf location && root.length < location.length then
      some (location.drop root.length, entry)
    else none).mergeSort rowNotAfter

def childNames (tree : Tree) (root : Location) : List String :=
  (tree.below root).filterMap fun (location, _) =>
    match location with
    | [name] => some name
    | _ => none

/-! ## Changing -/

def put (tree : Tree) (location : Location) (entry : Entry) : Tree :=
  ⟨putRow tree.rows⟩
where
  putRow : List (Location × Entry) → List (Location × Entry)
    | [] => [(location, entry)]
    | row :: rest => if row.1 = location then (location, entry) :: rest else row :: putRow rest

def erase (tree : Tree) (location : Location) : Tree :=
  ⟨tree.rows.filter fun row => !location.isPrefixOf row.1⟩

/-- Whether something can be made at a location that holds nothing: its parent has to be a directory. -/
def room (tree : Tree) (location : Location) : Except Fault Unit :=
  if tree.isDirectory location.dropLast then .ok () else .error (tree.absence location)

def write (tree : Tree) (location : Location) (content : Bytes) : Except Fault Tree :=
  match tree.entry? location with
  | some .directory => .error .isDirectory
  | some (.file _) => .ok (tree.put location (.file content))
  | none => (tree.room location).map fun _ => tree.put location (.file content)

def remove (tree : Tree) (location : Location) : Except Fault Tree :=
  match tree.entry? location with
  | some .directory => .error .isDirectory
  | some (.file _) => .ok (tree.erase location)
  | none => .error (tree.absence location)

def makeDirectories (tree : Tree) (location : Location) : Except Fault Tree :=
  (List.range location.length).foldlM (fun tree count =>
    let place := location.take (count + 1)
    match tree.entry? place with
    | some .directory => .ok tree
    | some (.file _) => .error (if count + 1 = location.length then .present else .notDirectory)
    | none => .ok (tree.put place .directory)) tree

def makeNewDirectory (tree : Tree) (location : Location) : Except Fault Tree :=
  if (tree.entry? location).isSome then .error .present else tree.makeDirectories location

/-- Puts entries below a location over what is there. A file cannot take the place of a directory, nor a
directory that of a file. -/
def copyInto (tree : Tree) (root : Location) (entries : List (Location × Entry)) : Except Fault Tree :=
  entries.foldlM (fun tree (relative, entry) =>
    match entry with
    | .directory => tree.makeDirectories (root ++ relative)
    | .file content => tree.write (root ++ relative) content) tree

def place (tree : Tree) (location : Location) (entry : Entry) : Tree :=
  let opened := (List.range (location.length - 1)).foldl (fun tree count =>
    let parent := location.take (count + 1)
    if tree.isDirectory parent then tree else (tree.erase parent).put parent .directory) tree
  if entry = .directory then
    if opened.isDirectory location then opened else (opened.erase location).put location .directory
  else (opened.erase location).put location entry

end Tree

/-- Bytes read as text: decoded strictly, every line end one line feed. -/
def readText (content : Bytes) : Except DecodeError (List Char) :=
  (decode content).map unifyLineEnds

def readTextLeniently (content : Bytes) : List Char :=
  unifyLineEnds (decodeLeniently content)

end Deadwood.Files
