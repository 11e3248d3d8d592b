import Deadwood.Deletion.Record
import Deadwood.Json.Printer
import Deadwood.Json.Reader
import Deadwood.World

/-!
# Snapshots

A snapshot is a copy of a tree with what is known about it. It has a directory of its own that holds the copy, a
file with metadata, and a log of what was deleted under it. Metadata may have been changed by others: its values
are kept as they are read, and only a time is required.
-/

set_option autoImplicit false
namespace Deadwood

open Files

structure Snapshot where
  id : String
  directory : Path
  createdAt : JsonValue
  origin : JsonValue
  purpose : JsonValue
  revision : JsonValue
  fileCount : JsonValue
  deriving Repr

/-- Why something cannot be done with snapshots. The last ones come from metadata and logs that others have
written: a value is used as what it is not, has no such part, is beyond the calendar, is nested too deep, or is a text that cannot
be encoded; or an old snapshot cannot be removed any more; or a number is too long to be written. -/
inductive SnapshotError where
  | notADirectory (source : String)
  | insideSource (directory : String)
  | notCreated (source reason : String)
  | miscounted (copied expected : Nat)
  | notFound (id : String)
  | unreadable (id : String)
  | logExists (id : String)
  | logNotWritten (error : FileError)
  | logNotAppended
  | unsaved (error : SnapshotError)
  | notRestored (id safetyDirectory : String)
  | wrongType
  | noSuchPart
  | beyondCalendar
  | tooDeep
  | notEncodable
  | notRemoved (error : FileError)
  | logNotText
  | logMalformed
  | numberTooLong
  deriving Repr

namespace SnapshotError

def message? : SnapshotError → Option String
  | notADirectory source => some ("Cannot back up " ++ source ++ ": not a directory")
  | insideSource directory => some ("Backup directory " ++ directory ++ " lies inside the tree being backed up")
  | notCreated source reason => some ("Could not create snapshot of " ++ source ++ ": " ++ reason)
  | miscounted copied expected =>
    some ("Snapshot verification failed: copied " ++ toString copied ++ " of " ++ toString expected ++ " files")
  | notFound id => some ("Snapshot not found: " ++ id)
  | unreadable id => some ("Snapshot " ++ id ++ " has unreadable metadata")
  | logExists id => some ("Deletion log already written for snapshot " ++ id)
  | logNotWritten error => some ("Could not write deletion log: " ++ error.message)
  | logNotAppended => some "Could not append to deletion log"
  | unsaved error => error.message?.map ("Could not snapshot current state before rollback: " ++ ·)
  | notRestored id _ => some ("Rollback to " ++ id ++ " failed")
  | _ => none

def safetyDirectory? : SnapshotError → Option String
  | notRestored _ directory => some directory
  | _ => none

def recoveryHint (error : SnapshotError) : String :=
  match error.safetyDirectory? with
  | some directory =>
    "Restore manually by copying the 'tree' directory of " ++ directory ++ " over the source directory."
  | none => "Restore the tree manually from version control."

end SnapshotError

namespace Snapshot

def preservedNames : List String := [".git", "node_modules"]

def isSaved (location : Location) : Bool :=
  !location.head?.any preservedNames.contains

def savedEntries (tree : Tree) (root : Location) : List (Location × Entry) :=
  (tree.below root).filter fun row => isSaved row.1

def countFiles (entries : List (Location × Entry)) : Nat :=
  entries.countP fun row =>
    match row.2 with
    | .file _ => true
    | .directory => false

def treeName : String := "tree"
def metadataName : String := "snapshot-metadata.json"
def logName : String := "deletion-log.json"

def treeDirectory (snapshot : Snapshot) : Path :=
  snapshot.directory.join ⟨"", [treeName]⟩

def logFile (snapshot : Snapshot) : Path :=
  snapshot.directory.join ⟨"", [logName]⟩

def metadata (snapshot : Snapshot) : JsonValue :=
  .object
    [("snapshot_id", .string snapshot.id),
     ("timestamp", snapshot.createdAt),
     ("origin_path", snapshot.origin),
     ("purpose", snapshot.purpose),
     ("git_revision", snapshot.revision),
     ("file_count", snapshot.fileCount)]

def isObject : JsonValue → Bool
  | .object _ => true
  | .wideObject _ => true
  | _ => false

def ofMetadata (directory : Path) (value : JsonValue) : Except SnapshotError Snapshot :=
  if isObject value then
    match value.get? "timestamp" with
    | none => .error (.unreadable directory.name)
    | some createdAt =>
      .ok { id := directory.name
            directory := directory
            createdAt := createdAt
            origin := (value.get? "origin_path").getD (.string "")
            purpose := (value.get? "purpose").getD (.string "")
            revision := (value.get? "git_revision").getD .null
            fileCount := (value.get? "file_count").getD (.int 0) }
  else .error .wrongType

/-- Reads the snapshot in a directory; its metadata may be nested only so deep. -/
def read (tree : Tree) (directory : Path) (nesting : Nat := JsonValue.nestingLimit) : Except SnapshotError Snapshot :=
  match (tree.locate (directory.join ⟨"", [metadataName]⟩)).bind tree.read with
  | .error _ => .error (.unreadable directory.name)
  | .ok content =>
    match readText content with
    | .error _ => .error (.unreadable directory.name)
    | .ok text =>
      match JsonValue.ofText text nesting with
      | .error .malformed => .error (.unreadable directory.name)
      | .error .tooDeep => .error .tooDeep
      | .ok value => ofMetadata directory value

def originPath (snapshot : Snapshot) : Except SnapshotError Path :=
  match snapshot.origin with
  | .string text => .ok (Path.ofString text)
  | .wide _ => .error .notEncodable
  | _ => .error .wrongType

def rollbackCommand (id : String) (target : Path) : String :=
  "sweep backup rollback " ++ id ++ " --target \"" ++ target.toString ++ "\""

end Snapshot
end Deadwood
