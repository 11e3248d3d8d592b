import Deadwood.Deletion.Session
import Deadwood.Files.Links
import Deadwood.Snapshot.Log

/-!
# Deleting items

A plan names items: functions and files. Where the tree has links, the path of each is resolved over them, and a path that does
not get out of a loop ends the deletion then and there. One item alone is deleted under a snapshot: one that is named, or one that
is taken for the purpose. What is deleted is added to the log of the snapshot.
-/

set_option autoImplicit false
namespace Deadwood

open Files

/-- A file, or a function of a file. -/
inductive DeletionItem where
  | file (path : String)
  | function (path name : String)
  deriving Repr, DecidableEq

namespace DeletionItem

def path : DeletionItem → String
  | file path => path
  | function path _ => path

def purpose : DeletionItem → String
  | file path => "remove-file:" ++ path
  | function _ name => "remove-symbol:" ++ name

def deleteIn (session : DeletionSession) : DeletionItem → DeletionSession × Option DeletionRecord
  | file path => session.deleteFile path
  | function path name => session.deleteFunction path name

end DeletionItem

def Plan.items (plan : Plan) : List DeletionItem :=
  plan.functions.map (fun planned => .function planned.path planned.name) ++ plan.files.map .file

/-! ## Over links -/

/-- A path leads into a loop of links. -/
structure LinkLoop where
  path : String
  deriving Repr, DecidableEq

structure LinkedSession where
  session : DeletionSession
  links : Links := {}
  deriving Repr

namespace LinkedSession

/-- What a path leads to below the root, and the link that it names itself where it gets out of a loop. -/
def resolve (linked : LinkedSession) (path : String) :
    Except LinkLoop (Except DeletionFault Location × Option Location) :=
  match linked.links.place? linked.session.tree ((⟨"/", linked.session.root⟩ : Path).join (Path.ofString path)) with
  | none => .error ⟨path⟩
  | some (taken, location) =>
    .ok (if linked.session.root.isPrefixOf taken then .ok location else .error (.escapes path),
      linked.links.linkAt? linked.session.tree taken)

/-- Deletes an item whose path has been resolved. If a file is named by a link, the link is taken away and not the file. -/
def deleteAt (linked : LinkedSession) (resolved : Except DeletionFault Location) (link : Option Location) :
    DeletionItem → LinkedSession × Option DeletionRecord
  | .function path name =>
    let (later, record) := linked.session.deleteFunction path name resolved
    ({ linked with session := later }, record)
  | .file path =>
    let (later, record) := linked.session.deleteFile path resolved (linked.session.dryRun || link.isSome)
    let taken := if record.isSome && !linked.session.dryRun then link else none
    (⟨later, taken.elim linked.links linked.links.take⟩, record)

def delete (linked : LinkedSession) (item : DeletionItem) : Except LinkLoop (LinkedSession × Option DeletionRecord) :=
  (linked.resolve item.path).map fun (resolved, link) => linked.deleteAt resolved link item

/-- Deletes items one after the other, up to one whose path leads into a loop. -/
def deleteAll (linked : LinkedSession) : List DeletionItem → LinkedSession × Option LinkLoop
  | [] => (linked, none)
  | item :: rest =>
    match linked.delete item with
    | .error loop => (linked, some loop)
    | .ok (later, _) => later.deleteAll rest

/-- Carries out a plan, functions first, if the session may delete; gives the records that it adds, unless it comes to a loop. -/
def carryOut (linked : LinkedSession) (plan : Plan) :
    Except SnapshotRequired (LinkedSession × Except LinkLoop (List DeletionRecord)) :=
  if linked.session.mayDelete then
    match linked.deleteAll plan.items with
    | (done, none) => .ok (done, .ok (done.session.records.drop linked.session.records.length))
    | (done, some loop) => .ok (done, .error loop)
  else .error .noSnapshot

end LinkedSession

/-! ## One item under a snapshot -/

/-- What comes of deleting one item: the snapshot that stands behind it, the record or the failures, the links that are left,
and why the log could not be extended. -/
structure ItemDeletion where
  snapshot : Snapshot
  record : Option DeletionRecord
  failures : List DeletionFailure
  links : Links
  logError : Option SnapshotError := none
  deriving Repr

/-- Why it does not come to the deletion of an item: there is no snapshot, or the path leads into a loop. -/
inductive ItemError where
  | snapshot (error : SnapshotError)
  | loop (loop : LinkLoop)
  deriving Repr

namespace SnapshotStore

def loadOrCreate (store : SnapshotStore) (id : Option String) (root : Path) (purpose : String) (world : World) :
    Except SnapshotError Snapshot × World :=
  match id.filter (!·.isEmpty) with
  | some id => (store.load world.tree id, world)
  | none => store.create root purpose world

def tryAppendLog (snapshot : Snapshot) (records : List DeletionRecord) (world : World) :
    Option SnapshotError × World :=
  match appendLog snapshot records world with
  | .ok world => (none, world)
  | .error error => (some error, world)

def deleteItem (store : SnapshotStore) (id : Option String) (root : Path) (item : DeletionItem) (links : Links)
    (world : World) : Except ItemError ItemDeletion × World :=
  match store.loadOrCreate id root item.purpose world with
  | (.error error, world) => (.error (.snapshot error), world)
  | (.ok snapshot, world) =>
    let start : DeletionSession :=
      { tree := world.tree, root := root.resolve, now := world.now, snapshotId := some snapshot.id }
    match (⟨start, links⟩ : LinkedSession).delete item with
    | .error loop => (.error (.loop loop), world)
    | .ok (⟨session, links⟩, record) =>
      let world := { world with tree := session.tree }
      match record with
      | none => (.ok { snapshot := snapshot, record := none, failures := session.failures, links := links }, world)
      | some record =>
        let (logError, world) := tryAppendLog snapshot session.records world
        let deletion : ItemDeletion :=
          { snapshot := snapshot, record := some record, failures := session.failures, links := links, logError := logError }
        (.ok deletion, world)

end SnapshotStore
end Deadwood
