import Deadwood.Removal
import Deadwood.Snapshot.Store
import Deadwood.SourceFile

/-!
# Restoring snapshots

A snapshot is restored over a directory after the state of the directory has been saved in a snapshot of its
own, so that a restoration can itself be undone. Preserved names at the top of the directory are left alone.
Afterwards the restored tree is checked for files and symbols that it must have.
-/

set_option autoImplicit false
namespace Deadwood

open Files

/-- A check of a tree: that it has a file or a definition of a symbol. -/
structure Check where
  isFile : Bool
  name : String
  passed : Bool
  detail : String
  deriving Repr, DecidableEq

/-- What came of a restoration: the snapshot and the directory, the snapshot of the state before, the number of
files, and the checks. -/
structure Restoration where
  id : String
  target : Location
  safety : Snapshot
  filesRestored : Nat
  checks : List Check
  deriving Repr

namespace Restoration

def failedChecks (restoration : Restoration) : List Check :=
  restoration.checks.filter (!·.passed)

def isVerified (restoration : Restoration) : Bool :=
  restoration.checks.all (·.passed)

end Restoration

/-! ## Checks -/

namespace Check

def ofFile (tree : Tree) (root : Path) (files : List (Location × Bytes)) (required : String) : Check :=
  let present := tree.isFileAt (root.join (Path.ofString required))
    || files.any fun file => file.1.getLastD "" = required
  ⟨true, required, present, if present then "" else "missing"⟩

def ofSymbol (files : List (Location × Bytes)) (required : String) : Check :=
  let owner := files.find? fun (location, content) =>
    backendExtensions.contains (extensionOf (location.getLastD ""))
      && (Removal.locate? false required (readTextLeniently content)).isSome
  match owner with
  | some (location, _) => ⟨false, required, true, "/".intercalate location⟩
  | none => ⟨false, required, false, "no definition"⟩

def all (tree : Tree) (root : Path) (requiredFiles requiredSymbols : List String) : List Check :=
  let entries := match tree.locate root with
    | .ok location => Snapshot.savedEntries tree location
    | .error _ => []
  let files := entries.filterMap fun (location, entry) =>
    match entry with
    | .file content => some (location, content)
    | .directory => none
  requiredFiles.map (ofFile tree root files) ++ requiredSymbols.map (ofSymbol files)

end Check

/-! ## Restoring -/

def clearSaved (tree : Tree) (root : Location) : Tree :=
  ⟨tree.rows.filter fun (location, _) =>
    !(root.isPrefixOf location && root.length < location.length && Snapshot.isSaved (location.drop root.length))⟩

/-- A copy that goes on after what cannot be copied: the tree, directories that could not be made, and whether
all is copied. -/
structure Copying where
  tree : Tree
  blocked : List Location := []
  complete : Bool := true

def Copying.step (root : Location) (copying : Copying) (row : Location × Entry) : Copying :=
  let (relative, entry) := row
  let place := root ++ relative
  if copying.blocked.any (·.isPrefixOf relative) then copying
  else
    match entry with
    | .directory =>
      if copying.tree.isFile place then
        { copying with blocked := relative :: copying.blocked, complete := false }
      else if copying.tree.isDirectory place then copying
      else { copying with tree := copying.tree.put place .directory }
    | .file content =>
      let place := if copying.tree.isDirectory place then place ++ [relative.getLastD ""] else place
      if copying.tree.isDirectory place then { copying with complete := false }
      else { copying with tree := copying.tree.put place (.file content) }

namespace SnapshotStore

def rollback (store : SnapshotStore) (id : String) (target : Option Path)
    (requiredFiles requiredSymbols : List String) (world : World) :
    Except SnapshotError Restoration × World :=
  let found := do
    let snapshot ← store.load world.tree id
    let path ← match target with
      | some path => pure path
      | none => snapshot.originPath
    return (snapshot, path.resolve)
  match found with
  | .error error => (.error error, world)
  | .ok (snapshot, target) =>
    let targetPath : Path := ⟨"/", target⟩
    match store.create targetPath ("pre-rollback:" ++ id) world with
    | (.error error, world) => (.error (.unsaved error), world)
    | (.ok safety, world) =>
      let cleared := clearSaved world.tree target
      match cleared.locate snapshot.treeDirectory with
      | .error _ => (.error (.notRestored id safety.directory.toString), { world with tree := cleared })
      | .ok source =>
        let copied := (cleared.below source).foldl (Copying.step target) { tree := cleared }
        let world := { world with tree := copied.tree }
        if !copied.complete || !cleared.isDirectory source then
          (.error (.notRestored id safety.directory.toString), world)
        else
          (.ok { id := id
                 target := target
                 safety := safety
                 filesRestored := Snapshot.countFiles (Snapshot.savedEntries copied.tree target)
                 checks := Check.all copied.tree targetPath requiredFiles requiredSymbols }, world)

end SnapshotStore
end Deadwood
