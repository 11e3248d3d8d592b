import Deadwood.Snapshot.Store

/-!
# Deletion logs

What was deleted under a snapshot is logged beside it. A log is written once as a whole, or it grows by one
command after another; the totals in its summary are those of all its deletions.
-/

set_option autoImplicit false
namespace Deadwood

open Files JsonValue

/-! ## Numbers -/

def JsonValue.isWhole : JsonValue → Bool
  | .int _ => true
  | .bool _ => true
  | _ => false

def JsonValue.sum (first second : Int × Int) : JsonValue :=
  let exponent := min first.2 second.2
  let scaled (number : Int × Int) : Int := number.1 * Int.pow 10 (number.2 - exponent).toNat
  let total := scaled first + scaled second
  ofDecimal (total < 0) total.natAbs exponent

/-- A whole number as it is held beside one with a point; nothing if it is too great. -/
def JsonValue.held? (number : JsonValue) : Option (Int × Int) := do
  let (mantissa, exponent) ← number.decimal?
  (JsonValue.decimal mantissa exponent).decimal?

def JsonValue.addMultiple (first : JsonValue) (factor : Int) (second : JsonValue) : Option JsonValue :=
  if first.isWhole && second.isWhole then do
    let (a, _) ← first.decimal?
    let (b, _) ← second.decimal?
    return .int (a + factor * b)
  else
    let turned : Option Ordering := second.special?.map fun order => if factor < 0 then order.swap else order
    match first.special?, turned with
    | some a, some b => some (if a = b then infinite a else .special "NaN")
    | some a, none => second.held?.map fun _ => infinite a
    | none, some b => first.held?.map fun _ => infinite b
    | none, none => do
      let a ← first.held?
      let b ← second.held?
      return sum a (factor * b.1, b.2)
where
  infinite : Ordering → JsonValue
    | .lt => .special "-Infinity"
    | .gt => .special "Infinity"
    | .eq => .special "NaN"

namespace DeletionLog

/-- What a log cannot be made of: a key is missing, a value is not what it is used as, or has no such part. -/
inductive LogFault where
  | missingKey
  | wrongType
  | noSuchPart
  deriving Repr, DecidableEq

def field (key : String) (value : JsonValue) : Except LogFault JsonValue :=
  if Snapshot.isObject value then
    match value.get? key with
    | some found => .ok found
    | none => .error .missingKey
  else .error .wrongType

def countKind (kind : DeletionKind) (deletions : List JsonValue) : Except LogFault Nat :=
  deletions.foldlM (fun count deletion => do
    match ← field "kind" deletion with
    | .string text => return if text = kind.label then count + 1 else count
    | _ => return count) 0

def bytesFreed (deletions : List JsonValue) : Except LogFault JsonValue :=
  deletions.foldlM (fun total deletion => do
    let before ← field "size_before" deletion
    let after ← field "size_after" deletion
    match (before.addMultiple (-1) after).bind fun freed => total.addMultiple 1 freed with
    | some total => return total
    | none => throw .wrongType) (.int 0)

def extend (log : JsonValue) (records : List DeletionRecord) (now : Moment) : Except LogFault JsonValue := do
  let deletions ← match ← field "deletions" log with
    | .array items => pure (items ++ records.map DeletionRecord.toJson)
    | _ => throw .noSuchPart
  let summary ← field "summary" log
  if !Snapshot.isObject summary then throw .noSuchPart
  let files ← countKind .file deletions
  let functions ← countKind .function deletions
  let freed ← bytesFreed deletions
  let summary := summary.update
    [("files_deleted", .nat files), ("functions_deleted", .nat functions), ("bytes_freed", freed)]
  return log.update
    [("deletions", .array deletions), ("written_at", .string now.toString), ("summary", summary)]

def empty (snapshot : Snapshot) (origin : Path) : JsonValue :=
  .object
    [("snapshot_id", .string snapshot.id),
     ("rollback_command", .string (Snapshot.rollbackCommand snapshot.id origin)),
     ("summary", .object []),
     ("deletions", .array [])]

def whole (snapshot : Snapshot) (origin : Path) (records : List DeletionRecord)
    (summary : List (String × JsonValue)) (now : Moment) : JsonValue :=
  .object
    [("snapshot_id", .string snapshot.id),
     ("written_at", .string now.toString),
     ("rollback_command", .string (Snapshot.rollbackCommand snapshot.id origin)),
     ("summary", .object summary),
     ("deletions", .array (records.map DeletionRecord.toJson))]

def save (tree : Tree) (path : Path) (log : JsonValue) : Except FileError Tree :=
  match (tree.locate path).bind fun location => tree.write location (Text.encode log.render.toList) with
  | .ok tree => .ok tree
  | .error fault => .error ⟨fault, path.toString⟩

def isTaken (tree : Tree) (path : Path) : Bool :=
  tree.isFileAt path || tree.isDirectoryAt path

end DeletionLog

namespace SnapshotStore

def writeLog (snapshot : Snapshot) (records : List DeletionRecord) (summary : List (String × JsonValue))
    (world : World) : Except SnapshotError World := do
  if DeletionLog.isTaken world.tree snapshot.logFile then throw (.logExists snapshot.id)
  let log := DeletionLog.whole snapshot (← snapshot.originPath) records summary world.now
  if nestingLimit < log.depth then throw .tooDeep
  if !log.isShort then throw .numberTooLong
  match DeletionLog.save world.tree snapshot.logFile log with
  | .ok tree => return { world with tree := tree }
  | .error error => throw (.logNotWritten error)

def openLog (snapshot : Snapshot) (tree : Tree) : Except SnapshotError JsonValue :=
  if DeletionLog.isTaken tree snapshot.logFile then
    match (tree.locate snapshot.logFile).bind tree.read with
    | .error _ => .error .logNotAppended
    | .ok content =>
      match readText content with
      | .error _ => .error .logNotAppended
      | .ok text =>
        match JsonValue.ofText text with
        | .ok log => .ok log
        | .error .malformed => .error .logNotAppended
        | .error .tooDeep => .error .tooDeep
  else snapshot.originPath.map (DeletionLog.empty snapshot)

def appendLog (snapshot : Snapshot) (records : List DeletionRecord) (world : World) :
    Except SnapshotError World := do
  let log ← openLog snapshot world.tree
  match DeletionLog.extend log records world.now with
  | .error .missingKey => throw .logNotAppended
  | .error .wrongType => throw .wrongType
  | .error .noSuchPart => throw .noSuchPart
  | .ok log =>
    if !log.isShort then throw .logNotAppended
    match DeletionLog.save world.tree snapshot.logFile log with
    | .ok tree => return { world with tree := tree }
    | .error _ => throw .logNotAppended

def log? (store : SnapshotStore) (tree : Tree) (id : String) : Except SnapshotError (Option JsonValue) :=
  let path := (store.directory id).join ⟨"", [Snapshot.logName]⟩
  if !tree.isFileAt path then .ok none
  else
    match (tree.locate path).bind tree.read with
    | .error _ => .ok none
    | .ok content =>
      match readText content with
      | .error _ => .error .logNotText
      | .ok text =>
        match JsonValue.ofText text with
        | .ok log => .ok (some log)
        | .error .malformed => .error .logMalformed
        | .error .tooDeep => .error .tooDeep

end SnapshotStore
end Deadwood
