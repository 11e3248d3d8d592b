import Deadwood.Proofs.SnapshotCopy

/-!
# What pruning takes away

Pruning takes away directories that stand just below the root of the store and hold metadata, and nothing else. It does not
ask whether such a directory is a snapshot.
-/

set_option autoImplicit false
namespace Deadwood

open Files

namespace Files.Tree

/-- What is below one of the erased locations is gone, and everything else stays. -/
theorem entry?_foldl_erase {erased : List Location} (named : ∀ location ∈ erased, location ≠ []) (tree : Tree)
    (place : Location) :
    Tree.entry? (erased.foldl Tree.erase tree) place =
      if ∃ location ∈ erased, location <+: place then none else tree.entry? place := by
  induction erased generalizing tree with
  | nil => simp
  | cons location rest ih =>
      have restNamed : ∀ other ∈ rest, other ≠ [] := fun other member => named other (List.mem_cons_of_mem location member)
      rw [List.foldl_cons, ih restNamed, entry?_erase (named location List.mem_cons_self)]
      simp only [List.mem_cons, exists_eq_or_imp]
      by_cases first : location <+: place
      · simp [first]
      · simp [first]

theorem WellFormed.foldl_erase {erased : List Location} {tree : Tree} (wellFormed : tree.WellFormed)
    (named : ∀ location ∈ erased, location ≠ []) : (erased.foldl Tree.erase tree).WellFormed := by
  induction erased generalizing tree with
  | nil => exact wellFormed
  | cons location rest ih =>
      refine ih (wellFormed.erase (named location List.mem_cons_self)) fun other member => ?_
      exact named other (List.mem_cons_of_mem location member)

end Files.Tree

namespace SnapshotStore

open Tree

variable {store : SnapshotStore} {tree tree' : Tree}

/-! ## Listing -/

theorem of_read {directory : Path} {snapshot : Snapshot} {nesting : Nat}
    (found : Snapshot.read tree directory nesting = .ok snapshot) :
    snapshot.id = directory.name ∧ snapshot.directory = directory := by
  unfold Snapshot.read at found
  split at found
  · cases found
  · split at found
    · cases found
    · split at found
      · cases found
      · cases found
      · unfold Snapshot.ofMetadata at found
        split at found
        · split at found
          · cases found
          · obtain rfl := Except.ok.inj found
            exact ⟨rfl, rfl⟩
        · cases found

theorem mem_iff_exists_name {names : List String} {found : List Snapshot} {nesting : Nat}
    (ran : names.foldrM (fun name found =>
      match Snapshot.read tree (store.root.join ⟨"", [name]⟩) nesting with
      | .ok snapshot => Except.ok (snapshot :: found)
      | .error (.unreadable _) => .ok found
      | .error error => .error error) [] = .ok found) (snapshot : Snapshot) :
    snapshot ∈ found ↔ ∃ name ∈ names, Snapshot.read tree (store.root.join ⟨"", [name]⟩) nesting = .ok snapshot := by
  induction names generalizing found with
  | nil =>
      obtain rfl := Except.ok.inj ran
      simp
  | cons name rest ih =>
      rw [List.foldrM_cons] at ran
      generalize rest.foldrM (fun name found =>
        match Snapshot.read tree (store.root.join ⟨"", [name]⟩) nesting with
        | .ok snapshot => Except.ok (snapshot :: found)
        | .error (.unreadable _) => .ok found
        | .error error => .error error) [] = later at ran ih
      cases later with
      | error error => cases ran
      | ok others =>
          have inRest := ih rfl
          simp only [bind, Except.bind] at ran
          split at ran
          · rename_i first read
            obtain rfl := Except.ok.inj ran
            simp only [List.mem_cons, inRest, exists_eq_or_imp, read, Except.ok.injEq]
            exact or_congr_left eq_comm
          · rename_i read
            obtain rfl := Except.ok.inj ran
            simp only [List.mem_cons, inRest, exists_eq_or_imp, read, reduceCtorEq, false_or]
          · cases ran

/-- A listed snapshot is read in the directory of its name, which is one in the root of the store and holds metadata. -/
theorem of_mem_list (wellFormed : tree.WellFormed) {snapshots : List Snapshot} (listed : store.list tree = .ok snapshots)
    {snapshot : Snapshot} (member : snapshot ∈ snapshots) :
    snapshot.directory = store.root.join ⟨"", [snapshot.id]⟩ ∧ snapshot.id ≠ ".." ∧
      Snapshot.read tree snapshot.directory = .ok snapshot ∧
      tree.isFile (store.root.resolve ++ [snapshot.id, Snapshot.metadataName]) = true := by
  unfold list at listed
  split at listed
  · obtain rfl := Except.ok.inj listed
    cases member
  · rename_i location located
    obtain rfl := locate_eq_resolve located
    split at listed
    · obtain rfl := Except.ok.inj listed
      cases member
    · simp only [bind, Except.bind] at listed
      split at listed
      · cases listed
      · rename_i found readable
        split at listed
        · cases listed
        · obtain rfl := Except.ok.inj listed
          obtain ⟨name, inNames, read⟩ := (mem_iff_exists_name readable snapshot).mp (List.mem_mergeSort.mp member)
          obtain ⟨id, directory⟩ := of_read read
          have metadata := (List.mem_filter.mp inNames).2
          have sameName : snapshot.id = name := by
            rw [id]
            simp [Path.name, Path.join]
          have noParent : name ≠ ".." := by
            unfold isFile at metadata
            split at metadata
            · rename_i content held
              have names := wellFormed.no_parent_name held
              simp only [List.mem_append, List.mem_cons, not_or] at names
              exact Ne.symm names.2.1
            · cases metadata
          rw [← directory] at read
          rw [sameName]
          exact ⟨directory, noParent, read, metadata⟩

/-- The directory of a snapshot stands just below the root of the store. -/
theorem resolve_join_name {name : String} (noParent : name ≠ "..") :
    (store.root.join ⟨"", [name]⟩).resolve = store.root.resolve ++ [name] := by
  refine resolve_join_of_no_parent store.root ?_
  rw [List.mem_singleton]
  exact noParent.symm

/-! ## Removing -/

/-- What removing old snapshots comes to; `removed` are those removed so far. -/
structure Removed (removed : List String) (snapshots : List Snapshot) (tree tree' : Tree)
    (result : Except SnapshotError (List String)) (erased : List Location) : Prop where
  tree_eq : tree' = erased.foldl Tree.erase tree
  each : ∀ location ∈ erased, location ≠ [] ∧ ∃ snapshot ∈ snapshots, location = snapshot.directory.resolve ∧
    ∀ names, result = .ok names → snapshot.id ∈ names
  keeps : ∀ names, result = .ok names → ∀ id ∈ removed, id ∈ names
  complete : ∀ names, result = .ok names → ∀ id ∈ names, id ∈ removed ∨ ∃ snapshot ∈ snapshots, snapshot.id = id ∧
    (".." ∉ snapshot.directory.names → snapshot.directory.resolve ≠ [] →
      tree.isDirectory snapshot.directory.resolve = true → ∃ location ∈ erased, location <+: snapshot.directory.resolve)

variable {removed : List String} {snapshot : Snapshot} {rest : List Snapshot} {result : Except SnapshotError (List String)}
  {erased : List Location}

theorem Removed.skip (later : Removed removed rest tree tree' result erased) :
    Removed removed (snapshot :: rest) tree tree' result erased where
  tree_eq := later.tree_eq
  each location member := by
    obtain ⟨named, other, inRest, noted⟩ := later.each location member
    exact ⟨named, other, List.mem_cons_of_mem snapshot inRest, noted⟩
  keeps := later.keeps
  complete names same id member := by
    rcases later.complete names same id member with before | ⟨other, inRest, found⟩
    · exact Or.inl before
    · exact Or.inr ⟨other, List.mem_cons_of_mem snapshot inRest, found⟩

theorem directory_of_erase {location place : Location} (named : location ≠ [])
    (held : tree.isDirectory place = true) (outside : ¬ location <+: place) :
    (tree.erase location).isDirectory place = true := by
  rw [isDirectory_iff] at held ⊢
  rw [entry?_erase named, if_neg outside, held]

theorem exists_removed_of_old
    (later : Removed (snapshot.id :: removed) rest (discard tree snapshot.directory) tree' result erased) :
    ∃ erased, Removed removed (snapshot :: rest) tree tree' result erased := by
  have keeps : ∀ names, result = .ok names → ∀ id ∈ removed, id ∈ names :=
    fun names same id member => later.keeps names same id (List.mem_cons_of_mem snapshot.id member)
  rcases discard_eq tree snapshot.directory with unchanged | ⟨named, taken⟩
  · refine ⟨erased, ?_, later.skip.each, keeps, fun names same id member => ?_⟩
    · rw [later.tree_eq, unchanged]
    · rcases later.complete names same id member with before | ⟨other, inRest, found⟩
      · rcases List.mem_cons.mp before with rfl | before
        · -- a directory that can be followed to does not stay
          refine Or.inr ⟨snapshot, List.mem_cons_self, rfl, fun noParent someName isDirectory => ?_⟩
          have gone := @entry?_erase tree snapshot.directory.resolve snapshot.directory.resolve someName
          rw [← discard_of_isDirectory noParent someName isDirectory, unchanged, if_pos (List.prefix_refl _)] at gone
          cases gone.symm.trans (isDirectory_iff.mp isDirectory)
        · exact Or.inl before
      · rw [unchanged] at found
        exact Or.inr ⟨other, List.mem_cons_of_mem snapshot inRest, found⟩
  · refine ⟨snapshot.directory.resolve :: erased, ?_, fun location member => ?_, keeps, fun names same id member => ?_⟩
    · rw [later.tree_eq, taken, List.foldl_cons]
    · rcases List.mem_cons.mp member with rfl | inErased
      · exact ⟨named, snapshot, List.mem_cons_self, rfl,
          fun names same => later.keeps names same snapshot.id List.mem_cons_self⟩
      · exact later.skip.each location inErased
    · rcases later.complete names same id member with before | ⟨other, inRest, sameId, found⟩
      · rcases List.mem_cons.mp before with rfl | before
        · exact Or.inr ⟨snapshot, List.mem_cons_self, rfl,
            fun _ _ _ => ⟨_, List.mem_cons_self, List.prefix_refl _⟩⟩
        · exact Or.inl before
      · refine Or.inr ⟨other, List.mem_cons_of_mem snapshot inRest, sameId, fun noParent someName isDirectory => ?_⟩
        by_cases around : snapshot.directory.resolve <+: other.directory.resolve
        · exact ⟨_, List.mem_cons_self, around⟩
        · rw [taken] at found
          obtain ⟨location, inErased, within⟩ := found noParent someName (directory_of_erase named isDirectory around)
          exact ⟨location, List.mem_cons_of_mem _ inErased, within⟩

theorem exists_removed_of_removeBefore {withOffset : Bool} {limit : Int} {snapshots : List Snapshot}
    (ran : removeBefore withOffset limit removed tree snapshots = (result, tree')) :
    ∃ erased, Removed removed snapshots tree tree' result erased := by
  induction snapshots generalizing removed tree with
  | nil =>
      obtain ⟨rfl, rfl⟩ := Prod.mk.inj ran
      refine ⟨[], rfl, fun _ member => absurd member List.not_mem_nil, fun names same id member => ?_,
        fun names same id member => Or.inl ?_⟩
      · obtain rfl := Except.ok.inj same
        exact List.mem_mergeSort.mpr member
      · obtain rfl := Except.ok.inj same
        exact List.mem_mergeSort.mp member
  | cons snapshot rest ih =>
      have stopped : ∀ error, Removed removed (snapshot :: rest) tree tree (.error error) [] := fun _ =>
        ⟨rfl, fun _ member => absurd member List.not_mem_nil, fun _ same => (by cases same), fun _ same => (by cases same)⟩
      unfold removeBefore at ran
      split at ran
      · obtain ⟨rfl, rfl⟩ := Prod.mk.inj ran
        exact ⟨[], stopped _⟩
      · obtain ⟨erased, later⟩ := ih ran
        exact ⟨erased, later.skip⟩
      · split at ran
        · obtain ⟨rfl, rfl⟩ := Prod.mk.inj ran
          exact ⟨[], stopped _⟩
        · obtain ⟨erased, later⟩ := ih ran
          exact exists_removed_of_old later

theorem isDirectory_of_metadata (wellFormed : tree.WellFormed) {name : String}
    (metadata : tree.isFile (store.root.resolve ++ [name, Snapshot.metadataName]) = true) :
    tree.isDirectory (store.root.resolve ++ [name]) = true := by
  unfold isFile at metadata
  split at metadata
  · rename_i content held
    have above := wellFormed.isDirectory_dropLast held
    rwa [List.append_cons, List.dropLast_concat] at above
  · cases metadata

structure Pruned (store : SnapshotStore) (tree tree' : Tree) (result : Except SnapshotError (List String))
    (erased : List Location) : Prop where
  tree_eq : tree' = erased.foldl Tree.erase tree
  each : ∀ location ∈ erased, ∃ name, location = store.root.resolve ++ [name] ∧
    tree.isFile (store.root.resolve ++ [name, Snapshot.metadataName]) = true ∧
      ∀ names, result = .ok names → name ∈ names
  complete : ".." ∉ store.root.names → ∀ names, result = .ok names → ∀ name ∈ names,
    ∃ location ∈ erased, location <+: store.root.resolve ++ [name]

theorem exists_pruned {days : Int} {now : Moment} {withOffset : Bool} {world world' : World}
    (wellFormed : world.tree.WellFormed) (ran : store.prune days now withOffset world = (result, world')) :
    ∃ erased, Pruned store world.tree world'.tree result erased := by
  have none : ∀ error, Pruned store world.tree world.tree (.error error) [] := fun _ =>
    ⟨rfl, fun _ member => absurd member List.not_mem_nil, fun _ _ same => (by cases same)⟩
  unfold prune at ran
  split at ran
  · obtain ⟨rfl, rfl⟩ := Prod.mk.inj ran
    exact ⟨[], none _⟩
  · split at ran
    · obtain ⟨rfl, rfl⟩ := Prod.mk.inj ran
      exact ⟨[], none _⟩
    · rename_i limit _ _ snapshots listed
      obtain ⟨sameResult, rfl⟩ := Prod.mk.inj ran
      obtain ⟨erased, done⟩ := exists_removed_of_removeBefore
        (Prod.ext sameResult rfl : removeBefore withOffset limit [] world.tree snapshots = (result, _))
      refine ⟨erased, done.tree_eq, fun location member => ?_, fun plain names same name member => ?_⟩
      · obtain ⟨_, snapshot, inList, place, noted⟩ := done.each location member
        obtain ⟨directory, noParent, _, isFile⟩ := of_mem_list wellFormed listed inList
        rw [directory, resolve_join_name noParent] at place
        exact ⟨snapshot.id, place, isFile, noted⟩
      · rcases done.complete names same name member with before | ⟨snapshot, inList, rfl, found⟩
        · cases before
        · obtain ⟨directory, noParent, _, isFile⟩ := of_mem_list wellFormed listed inList
          rw [directory, resolve_join_name noParent] at found
          refine found ?_ (by simp) ?_
          · change ".." ∉ store.root.names ++ [snapshot.id]
            rw [List.mem_append, List.mem_singleton, not_or]
            exact ⟨plain, noParent.symm⟩
          · exact isDirectory_of_metadata wellFormed isFile

end SnapshotStore
end Deadwood
