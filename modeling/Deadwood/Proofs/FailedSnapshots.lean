import Deadwood.Proofs.SnapshotRestore

/-!
# Snapshots that cannot be taken

Where no step breaks off midway, a snapshot that cannot be taken leaves nothing of its own behind. What stands in the store stays
as it was, with one exception: if the name that is drawn for the new snapshot is that of a directory in the store, this directory
is taken for a part of the failed snapshot and removed.
-/

set_option autoImplicit false
namespace Deadwood

open Files Tree

namespace SnapshotStore

variable {store : SnapshotStore} {source : Path} {purpose : String} {world world' : World} {error : SnapshotError}

/-- Taking a snapshot of a source gets so far as to make the directory of a name, and the directory is there already. -/
structure Collides (store : SnapshotStore) (source : Path) (id : String) (world : World) : Prop where
  isDirectory : world.tree.entry? source.resolve = some .directory
  outside : ¬ source.resolve <+: store.root.resolve
  followed : world.tree.locate store.root = .ok store.root.resolve
  named : id = Snapshot.idOf world.now (world.attempts + 1)
  taken : world.tree.entry? (store.root.resolve ++ [id]) = some .directory

theorem name_eq_of_leads {root above below : Location} {first second : String}
    (inside : root ++ [first] ++ above <+: root ++ [second] ++ below) : first = second := by
  rw [List.append_assoc, List.append_assoc, List.prefix_append_right_inj, List.singleton_append, List.singleton_append,
    List.cons_prefix_cons] at inside
  exact inside.1

/-- The directory of the next snapshot is found where the store can be followed to. -/
theorem locate_directory_idOf (tree : Tree) (store : SnapshotStore) (now : Moment) (attempt : Nat) :
    tree.locate (store.directory (Snapshot.idOf now attempt)) =
      (tree.locate store.root).map (· ++ [Snapshot.idOf now attempt]) := by
  rw [directory, ofString_idOf]
  apply Tree.locate_join
  simpa using Ne.symm (idOf_ne_parent now attempt)

theorem Collides.create_eq {id : String} (collides : Collides store source id world) (purpose : String) :
    ∃ error, store.create source purpose world =
      (.error error, { world with
        tree := world.tree.erase (store.root.resolve ++ [id]), attempts := world.attempts + 1 }) := by
  have located := locate_directory_idOf world.tree store world.now (world.attempts + 1)
  have taken := isDirectory_iff.mpr collides.taken
  rw [collides.followed, ← collides.named] at located
  have made : makeDirectory world.tree (store.directory id) = .error .present := by
    simp only [makeDirectory, located, Except.map, bind, Except.bind, makeNewDirectory, collides.taken, Option.isSome_some,
      if_true]
  have discarded : discard world.tree (store.directory id) = world.tree.erase (store.root.resolve ++ [id]) := by
    rw [discard, located]
    simp [Except.map, taken]
  rw [← discarded]
  exact create_of_unmade collides.named.symm collides.isDirectory collides.outside made purpose

/-- If no snapshot can be taken, either nothing is changed or the directory of a taken name is gone. -/
theorem tree_of_failed_create (wellFormed : world.tree.WellFormed)
    (failed : store.create source purpose world = (.error error, world')) : world'.tree = world.tree ∨
      ∃ id, Collides store source id world ∧ world'.tree = world.tree.erase (store.root.resolve ++ [id]) := by
  rcases discarded_of_create_error wellFormed failed with same | ⟨isDirectory, outside, discarded⟩
  · exact Or.inl same
  rw [discard, locate_directory_idOf] at discarded
  cases followed : world.tree.locate store.root with
  | error fault =>
      rw [followed] at discarded
      exact Or.inl discarded
  | ok location =>
      obtain rfl := locate_eq_resolve followed
      rw [followed] at discarded
      dsimp only [Except.map] at discarded
      split at discarded
      · rename_i taken
        rw [Bool.and_eq_true, isDirectory_iff] at taken
        exact Or.inr ⟨_, ⟨isDirectory, outside, followed, rfl, taken.1⟩, discarded⟩
      · exact Or.inl discarded

/-- A snapshot that is taken leaves the directories of the others as they were. -/
theorem entry?_of_create_of_stands (wellFormed : world.tree.WellFormed) {snapshot : Snapshot}
    (created : store.create source purpose world = (.ok snapshot, world')) {id : String}
    (stands : world.tree.entry? (store.root.resolve ++ [id]) = some .directory) (rest : Location) :
    world'.tree.entry? (store.root.resolve ++ [id] ++ rest) = world.tree.entry? (store.root.resolve ++ [id] ++ rest) := by
  have resolved := (taken_of_create wellFormed created).resolved
  obtain ⟨_, _, _, opened, made, _⟩ := exists_of_create wellFormed created
  obtain ⟨_, absent, _⟩ := exists_of_makeDirectory made
  have differs : id ≠ snapshot.id := by
    rintro rfl
    cases (resolved ▸ absent).symm.trans stands
  have place : snapshot.directory.resolve = store.root.resolve ++ [snapshot.id] ++ [] := by
    rw [resolved, List.append_nil]
  rw [entry?_of_create wellFormed created, if_neg]
  · exact fun onWay => differs (name_eq_of_leads (place ▸ onWay))
  · exact fun inside => differs (name_eq_of_leads (place ▸ inside)).symm

/-- Whether a snapshot can be taken or not, the directory of another name in the store stays as it was. -/
theorem entry?_create_of_free (wellFormed : world.tree.WellFormed) {id : String}
    (stands : world.tree.entry? (store.root.resolve ++ [id]) = some .directory) (free : ¬ Collides store source id world)
    (purpose : String) (rest : Location) :
    (store.create source purpose world).2.tree.entry? (store.root.resolve ++ [id] ++ rest) =
      world.tree.entry? (store.root.resolve ++ [id] ++ rest) := by
  cases created : store.create source purpose world with
  | mk result after =>
      cases result with
      | ok snapshot => exact entry?_of_create_of_stands wellFormed created stands rest
      | error error =>
          rcases tree_of_failed_create wellFormed created with same | ⟨drawn, collides, erased⟩
          · rw [same]
          · rw [erased, entry?_erase (by simp), if_neg]
            intro inside
            rw [← List.append_nil (_ ++ [drawn])] at inside
            exact free (name_eq_of_leads inside ▸ collides)

end SnapshotStore
end Deadwood
