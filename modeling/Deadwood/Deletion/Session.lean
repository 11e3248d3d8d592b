import Deadwood.Deletion.Record
import Deadwood.Diff.Unified
import Deadwood.Plan

/-!
# Deletion sessions

A session deletes files and functions of the tree below its root, one at a time. What fails is noted and leaves
everything else as it was. In a dry run the tree is left alone and texts are kept only in the session; otherwise
nothing is deleted before a snapshot is bound. A text is read once; later cuts start from what the session has
made of it.
-/

set_option autoImplicit false
namespace Deadwood

open Files

/-- A session with the tree that it works on. `pending` are the texts with functions cut out, `originals` the
texts as they were read, `removed` the files deleted, all by path. -/
structure DeletionSession where
  tree : Tree
  root : Location
  now : Moment
  dryRun : Bool := false
  snapshotId : Option String := none
  records : List DeletionRecord := []
  failures : List DeletionFailure := []
  pending : List (String × List Char) := []
  originals : List (String × List Char) := []
  removed : List String := []
  deriving Repr

/-- Why a session does not delete: no snapshot is bound. -/
inductive SnapshotRequired where
  | noSnapshot
  deriving Repr, DecidableEq

def SnapshotRequired.message : SnapshotRequired → String
  | noSnapshot => "Refusing to modify files before a snapshot of the tree exists"

namespace DeletionSession

def mayDelete (session : DeletionSession) : Bool :=
  session.dryRun || session.snapshotId.isSome

def resolve (session : DeletionSession) (path : String) : Except DeletionFault Location :=
  let location := ((⟨"/", session.root⟩ : Path).join (Path.ofString path)).resolve
  if session.root.isPrefixOf location then .ok location else .error (.escapes path)

def directorySize : Nat := 4096

/-- The location and size of what a path leads to, unless the session has deleted it. Where the tree has links, the path is
resolved by following them. -/
def target (session : DeletionSession) (path : String)
    (resolved : Except DeletionFault Location := session.resolve path) : Except DeletionFault (Location × Nat) := do
  let location ← resolved
  if session.removed.contains path then throw (.alreadyDeleted path)
  match session.tree.entry? location with
  | some (.file content) => return (location, content.length)
  | some .directory => return (location, directorySize)
  | none => throw (.fileFault ⟨session.tree.absence location, location.toString⟩)

def fail (session : DeletionSession) (path : String) (symbol : Option String) (fault : DeletionFault) :
    DeletionSession :=
  { session with failures := session.failures ++ [⟨path, symbol, fault⟩] }

def record (session : DeletionSession) (record : DeletionRecord) : DeletionSession × Option DeletionRecord :=
  ({ session with records := session.records ++ [record] }, some record)

def faultAt {α : Type} (location : Location) : Except Fault α → Except DeletionFault α
  | .ok value => .ok value
  | .error fault => .error (.fileFault ⟨fault, location.toString⟩)

def withoutFile (session : DeletionSession) (path : String)
    (resolved : Except DeletionFault Location := session.resolve path) (keeps : Bool := session.dryRun) :
    Except DeletionFault (Tree × Nat) := do
  let (location, size) ← session.target path resolved
  if keeps then return (session.tree, size)
  return (← faultAt location (session.tree.remove location), size)

def deleteFile (session : DeletionSession) (path : String)
    (resolved : Except DeletionFault Location := session.resolve path) (keeps : Bool := session.dryRun) :
    DeletionSession × Option DeletionRecord :=
  match session.withoutFile path resolved keeps with
  | .error fault => (session.fail path none fault, none)
  | .ok (tree, size) =>
    { session with
      tree := tree
      removed := if session.removed.contains path then session.removed else session.removed ++ [path]
      pending := session.pending.filter (·.1 ≠ path) }.record
      { kind := .file, path := path, snapshotId := session.snapshotId, sizeBefore := size, sizeAfter := 0,
        dryRun := session.dryRun, timestamp := session.now.toString }

def textOf (session : DeletionSession) (path : String)
    (resolved : Except DeletionFault Location := session.resolve path) : Except DeletionFault (Location × List Char) := do
  let location ← resolved
  if session.removed.contains path then throw (.alreadyDeleted path)
  match session.pending.lookup path with
  | some text => return (location, text)
  | none =>
    match readText (← faultAt location (session.tree.read location)) with
    | .ok text => return (location, text)
    | .error error => throw (.notText error)

def putText (path : String) (text : List Char) (texts : List (String × List Char)) : List (String × List Char) :=
  Keyed.put Prod.fst (path, text) texts

def deleteFunction (session : DeletionSession) (path name : String)
    (resolved : Except DeletionFault Location := session.resolve path) : DeletionSession × Option DeletionRecord :=
  match session.textOf path resolved with
  | .error fault => (session.fail path name fault, none)
  | .ok (location, text) =>
    let session :=
      if (session.pending.lookup path).isSome then session
      else { session with originals := putText path text session.originals }
    match Removal.remove? (isPagePath path) name text with
    | none => (session.fail path name .notFound, none)
    | some (shorter, span) =>
      let written :=
        if session.dryRun then .ok session.tree
        else faultAt location (session.tree.write location (Text.encode shorter))
      match written with
      | .error fault => (session.fail path name fault, none)
      | .ok tree =>
        { session with tree := tree, pending := putText path shorter session.pending }.record
          { kind := .function, path := path, symbol := some name, snapshotId := session.snapshotId
            sizeBefore := (Text.encode text).length, sizeAfter := (Text.encode shorter).length
            span := some (span.startLine, span.endLine)
            dryRun := session.dryRun, timestamp := session.now.toString }

/-- Carries out a plan, functions first; gives the records that it adds. -/
def carryOut (session : DeletionSession) (plan : Plan) : DeletionSession × List DeletionRecord :=
  let cut := plan.functions.foldl (fun session planned => (session.deleteFunction planned.path planned.name).1) session
  let done := plan.files.foldl (fun session path => (session.deleteFile path).1) cut
  (done, done.records.drop session.records.length)

def guarded {α : Type} (session : DeletionSession) (act : DeletionSession → DeletionSession × α) :
    Except SnapshotRequired (DeletionSession × α) :=
  if session.mayDelete then .ok (act session) else .error .noSnapshot

def preview (session : DeletionSession) : String :=
  let byPath := session.pending.mergeSort fun first second => decide (first.1 ≤ second.1)
  String.join (byPath.map fun (path, text) => Diff.listing path ((session.originals.lookup path).getD []) text)
    ++ String.join ((Text.sortedSet session.removed).map fun path => "deleted: " ++ path ++ "\n")

def summary (session : DeletionSession) : DeletionSummary :=
  { snapshotId := session.snapshotId
    dryRun := session.dryRun
    filesDeleted := session.records.countP (·.kind = .file)
    functionsDeleted := session.records.countP (·.kind = .function)
    bytesFreed := session.records.foldl (fun total record => total + record.bytesFreed) 0
    failures := session.failures.length }

end DeletionSession
end Deadwood
