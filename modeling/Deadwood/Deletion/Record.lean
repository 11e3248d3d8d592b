import Deadwood.Files.Tree
import Deadwood.Json.Value
import Deadwood.Moment

/-!
# Deletion records

What has been deleted, and what could not be.
-/

set_option autoImplicit false
namespace Deadwood

open Files

/-- A whole file or one function. -/
inductive DeletionKind where
  | file
  | function
  deriving Repr, DecidableEq, Inhabited

def DeletionKind.label : DeletionKind → String
  | file => "file"
  | function => "function"

/-- One deletion: what was deleted under which snapshot, the bytes of the file before and after, the first and
last line of a function, and when. -/
structure DeletionRecord where
  kind : DeletionKind
  path : String
  symbol : Option String := none
  snapshotId : Option String
  sizeBefore : Int
  sizeAfter : Int
  span : Option (Int × Int) := none
  dryRun : Bool := false
  timestamp : String
  deriving Repr, DecidableEq, Inhabited

namespace DeletionRecord

def bytesFreed (record : DeletionRecord) : Int :=
  record.sizeBefore - record.sizeAfter

def toJson (record : DeletionRecord) : JsonValue :=
  .object
    [("kind", .string record.kind.label),
     ("path", .string record.path),
     ("symbol", .ofOption record.symbol),
     ("snapshot_id", .ofOption record.snapshotId),
     ("size_before", .int record.sizeBefore),
     ("size_after", .int record.sizeAfter),
     ("span", match record.span with
       | some (first, last) => .array [.int first, .int last]
       | none => .null),
     ("dry_run", .bool record.dryRun),
     ("timestamp", .string record.timestamp)]

end DeletionRecord

/-- Why something could not be deleted. -/
inductive DeletionFault where
  | escapes (path : String)
  | alreadyDeleted (path : String)
  | fileFault (error : FileError)
  | notText (error : Text.DecodeError)
  | notFound
  deriving Repr, DecidableEq

def DeletionFault.message : DeletionFault → String
  | escapes path => "Path escapes analysed tree: " ++ path
  | alreadyDeleted path => path ++ " was already deleted"
  | fileFault error => error.message
  | notText error => error.message
  | notFound => "not found"

structure DeletionFailure where
  path : String
  symbol : Option String
  fault : DeletionFault
  deriving Repr, DecidableEq

/-- The files and functions deleted, the bytes freed, and how many deletions failed. -/
structure DeletionSummary where
  snapshotId : Option String
  dryRun : Bool
  filesDeleted : Nat
  functionsDeleted : Nat
  bytesFreed : Int
  failures : Nat
  deriving Repr, DecidableEq

def DeletionSummary.entries (summary : DeletionSummary) : List (String × JsonValue) :=
  [("snapshot_id", .ofOption summary.snapshotId),
   ("dry_run", .bool summary.dryRun),
   ("files_deleted", .nat summary.filesDeleted),
   ("functions_deleted", .nat summary.functionsDeleted),
   ("bytes_freed", .int summary.bytesFreed),
   ("failures", .nat summary.failures)]

end Deadwood
