import Deadwood.Json.Order
import Deadwood.Snapshot.Basic
import Deadwood.Text.SortedSet

/-!
# Snapshot stores

A store is a directory with a directory for each snapshot. Snapshots are taken, found, listed from the newest,
and removed when they are too old.
-/

set_option autoImplicit false
namespace Deadwood

open Files

structure SnapshotStore where
  root : Path
  deriving Repr

def attemptDigits (attempt : Nat) : String :=
  String.ofList (Text.hexDigits 8 attempt)

def Snapshot.idOf (now : Moment) (attempt : Nat) : String :=
  now.stamp ++ "_" ++ attemptDigits attempt

namespace SnapshotStore

def directory (store : SnapshotStore) (id : String) : Path :=
  store.root.join (Path.ofString id)

/-! ## Taking -/

def makeDirectory (tree : Tree) (path : Path) : Except Fault (Tree × Location) := do
  let location ← tree.locate path
  return (← tree.makeNewDirectory location, location)

def copySaved (tree : Tree) (location source : Location) : Except Fault Tree :=
  Tree.copyInto (tree.put (location ++ [Snapshot.treeName]) .directory) (location ++ [Snapshot.treeName])
    (Snapshot.savedEntries tree source)

def discard (tree : Tree) (path : Path) : Tree :=
  match tree.locate path with
  | .ok location => if tree.isDirectory location && !location.isEmpty then tree.erase location else tree
  | .error _ => tree

end SnapshotStore

/-- What the system does when a snapshot is taken: it makes the directory of a path, copies what is saved of a source, writes a
file, and removes a directory, each of which may break off midway, and it knows the revision of a source. -/
structure SnapshotSystem where
  makeDirectory : Tree → Path → Except String Location × Tree
  copy : Tree → Location → Location → Except String Unit × Tree
  write : Tree → Location → Bytes → Except String Unit × Tree
  remove : Tree → Path → Tree
  revision : Tree → Location → Option String

namespace SnapshotSystem

def atOnce {α : Type} (tree : Tree) (path : String) : Except Fault (Tree × α) → Except String α × Tree
  | .ok (after, value) => (.ok value, after)
  | .error fault => (.error (FileError.message ⟨fault, path⟩), tree)

/-- A system without failures midway, where a path is followed through what is there, and no source has a revision. -/
def plain : SnapshotSystem where
  makeDirectory tree path := atOnce tree path.toString (SnapshotStore.makeDirectory tree path)
  copy tree location source :=
    atOnce tree location.toString ((SnapshotStore.copySaved tree location source).map (·, ()))
  write tree location content := atOnce tree location.toString ((tree.write location content).map (·, ()))
  remove := SnapshotStore.discard
  revision _ _ := none

/-! ### Directories on the way -/

def makeOne (tree : Tree) (path : Path) : Except Fault (Tree × Location) := do
  let location ← tree.locate path
  if (tree.entry? location).isSome then throw .present
  tree.room location
  return (tree.put location .directory, location)

/-- Makes a directory, and those on the way that are missing, names `..` and all; `mayStand` is whether it may be there already. -/
def makeWay (anchor : String) (mayStand : Bool) (tree : Tree) : List String → Except Fault Location × Tree
  | [] => (if mayStand then .ok [] else .error .present, tree)
  | name :: parents =>
    let path : Path := ⟨anchor, (name :: parents).reverse⟩
    let orStands (tree : Tree) (fault : Fault) : Except Fault Location × Tree :=
      if mayStand && fault ≠ .missing && tree.isDirectoryAt path then (.ok path.resolve, tree) else (.error fault, tree)
    match makeOne tree path with
    | .ok (made, location) => (.ok location, made)
    | .error .missing =>
      match makeWay anchor true tree parents with
      | (.error fault, tree) => (.error fault, tree)
      | (.ok _, tree) =>
        match makeOne tree path with
        | .ok (made, location) => (.ok location, made)
        | .error fault => orStands tree fault
    | .error fault => orStands tree fault

def makingWay : SnapshotSystem :=
  { plain with
    makeDirectory := fun tree path =>
      let (made, tree) := makeWay path.anchor false tree path.names.reverse
      (made.mapError fun fault => FileError.message ⟨fault, path.toString⟩, tree) }

def build (system : SnapshotSystem) (tree : Tree) (directory : Path) (origin : Location)
    (snapshotOf : Option String → Nat → Snapshot) : Except SnapshotError Snapshot × Tree :=
  let failed (reason : String) : SnapshotError := .notCreated origin.toString reason
  match system.makeDirectory tree directory with
  | (.error reason, tree) => (.error (failed reason), tree)
  | (.ok location, tree) =>
    match system.copy tree location origin with
    | (.error reason, tree) => (.error (failed reason), tree)
    | (.ok (), tree) =>
      let expected := Snapshot.countFiles (Snapshot.savedEntries tree origin)
      let copied := Snapshot.countFiles (Snapshot.savedEntries tree (location ++ [Snapshot.treeName]))
      if copied ≠ expected then (.error (.miscounted copied expected), tree)
      else
        let snapshot := snapshotOf (system.revision tree origin) copied
        match system.write tree (location ++ [Snapshot.metadataName]) (Text.encode snapshot.metadata.render.toList) with
        | (.error reason, tree) => (.error (failed reason), tree)
        | (.ok (), tree) => (.ok snapshot, tree)

end SnapshotSystem

namespace SnapshotStore

/-- Takes a snapshot of a source that is a directory and does not hold the store. What could not be finished is removed. -/
def create (store : SnapshotStore) (source : Path) (purpose : String) (world : World)
    (system : SnapshotSystem := .plain) : Except SnapshotError Snapshot × World :=
  let origin := source.resolve
  let shown := origin.toString
  if !world.tree.isDirectory origin then (.error (.notADirectory shown), world)
  else if origin.isPrefixOf store.root.resolve then (.error (.insideSource store.root.resolve.toString), world)
  else
    let world := { world with attempts := world.attempts + 1 }
    let id := Snapshot.idOf world.now world.attempts
    let directory := store.directory id
    let snapshotOf (revision : Option String) (fileCount : Nat) : Snapshot :=
      { id := id
        directory := directory
        createdAt := .string world.now.toString
        origin := .string shown
        purpose := .string purpose
        revision := .ofOption revision
        fileCount := .int fileCount }
    match system.build world.tree directory origin snapshotOf with
    | (.ok snapshot, tree) => (.ok snapshot, { world with tree := tree })
    | (.error error, tree) => (.error error, { world with tree := system.remove tree directory })

/-! ## Finding -/

def load (store : SnapshotStore) (tree : Tree) (id : String) : Except SnapshotError Snapshot :=
  let directory := store.directory id
  if !tree.isFileAt (directory.join ⟨"", [Snapshot.metadataName]⟩)
      || !tree.isDirectoryAt (directory.join ⟨"", [Snapshot.treeName]⟩) then
    .error (.notFound id)
  else
    match Snapshot.read tree directory with
    | .error (.unreadable _) => .error (.unreadable id)
    | result => result

def notOlder (first second : Snapshot) : Bool :=
  match first.createdAt.compare? second.createdAt with
  | some .gt => true
  | some .eq => decide (second.id ≤ first.id)
  | _ => false

def readable (store : SnapshotStore) (tree : Tree) (location : Location) (nesting : Nat := JsonValue.nestingLimit) :
    Except SnapshotError (List Snapshot) :=
  ((tree.childNames location).filter fun name =>
      tree.isFile (location ++ [name, Snapshot.metadataName])).foldrM (fun name found =>
    match Snapshot.read tree (store.root.join ⟨"", [name]⟩) nesting with
    | .ok snapshot => .ok (snapshot :: found)
    | .error (.unreadable _) => .ok found
    | .error error => .error error) []

def list (store : SnapshotStore) (tree : Tree) (nesting : Nat := JsonValue.nestingLimit) :
    Except SnapshotError (List Snapshot) :=
  match tree.locate store.root with
  | .error _ => .ok []
  | .ok location =>
    if !tree.isDirectory location then .ok []
    else do
      let found ← store.readable tree location nesting
      if found.any fun first => found.any fun second =>
          (first.createdAt.compare? second.createdAt).isNone then
        throw .wrongType
      return found.mergeSort notOlder

/-! ## Removing -/

def greatestDays : Int := 999999999

def daysBefore? (now : Moment) (days : Int) : Option Int :=
  let past : Int := now.toMicroseconds - days * Moment.microsecondsPerDay
  let last : Moment := ⟨9999, 12, 31, 23, 59, 59, 999999⟩
  if days.natAbs ≤ greatestDays.natAbs && 0 ≤ past && past ≤ last.toMicroseconds then some past else none

/-- A snapshot was taken before a time; a time that is no moment is never before. -/
def isBefore (withOffset : Bool) (limit : Int) (snapshot : Snapshot) : Except SnapshotError Bool :=
  match snapshot.createdAt with
  | .string text =>
    match Moment.ofString? text with
    | none => .ok false
    | some (moment, hasOffset) =>
      if hasOffset ≠ withOffset then .error .wrongType else .ok ((moment.toMicroseconds : Int) < limit)
  | _ => .error .wrongType

/-- Removes those of the snapshots that were taken before a time; `removed` are those removed so far. A store may be
spelled through one of its snapshots: once that is removed, no other can be followed to. -/
def removeBefore (withOffset : Bool) (limit : Int) (removed : List String) (tree : Tree) :
    List Snapshot → Except SnapshotError (List String) × Tree
  | [] => (.ok (removed.mergeSort (decide <| · ≤ ·)), tree)
  | snapshot :: rest =>
    match isBefore withOffset limit snapshot with
    | .error error => (.error error, tree)
    | .ok false => removeBefore withOffset limit removed tree rest
    | .ok true =>
      match tree.locate snapshot.directory with
      | .error fault => (.error (.notRemoved ⟨fault, snapshot.directory.toString⟩), tree)
      | .ok _ => removeBefore withOffset limit (snapshot.id :: removed) (discard tree snapshot.directory) rest

/-- Removes the snapshots that are older than a number of days at a moment; gives their names in order. -/
def prune (store : SnapshotStore) (days : Int) (now : Moment) (withOffset : Bool) (world : World) :
    Except SnapshotError (List String) × World :=
  match daysBefore? now days with
  | none => (.error .beyondCalendar, world)
  | some limit =>
    match store.list world.tree with
    | .error error => (.error error, world)
    | .ok snapshots =>
      let (result, tree) := removeBefore withOffset limit [] world.tree snapshots
      (result, { world with tree := tree })

end SnapshotStore
end Deadwood
