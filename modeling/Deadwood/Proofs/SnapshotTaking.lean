import Deadwood.Proofs.SnapshotCopy
import Deadwood.Proofs.TreeLayings
import Deadwood.Proofs.WrittenValues

/-!
# Taking a snapshot and finding it again

A snapshot can be taken wherever its directory is new and no file is in the way. What it leaves in the store is read back as
the snapshot that was taken, as long as the directory is left alone and the store can be followed to.
-/

set_option autoImplicit false
namespace Deadwood

open Files

namespace Snapshot

variable {tree : Tree} {root : Location}

theorem parent_mem_savedEntries (wellFormed : tree.WellFormed) {row : Location × Entry}
    (listed : row ∈ savedEntries tree root) (inside : row.1.dropLast ≠ []) :
    (row.1.dropLast, Entry.directory) ∈ savedEntries tree root := by
  obtain ⟨someName, saved, held⟩ := (mem_savedEntries_iff wellFormed).mp (show (row.1, row.2) ∈ _ from listed)
  have parent := Tree.isDirectory_iff.mp (wellFormed.isDirectory_dropLast held)
  rw [List.dropLast_append_of_ne_nil someName] at parent
  exact (mem_savedEntries_iff wellFormed).mpr ⟨inside, isSaved_of_within (List.dropLast_prefix _) inside saved, parent⟩

/-- What is saved of a location can be laid below any directory that has nothing in its way. -/
theorem exists_laid_savedEntries {into : Tree} {base : Location} (wellFormed : tree.WellFormed)
    (isDirectory : into.entry? base = some .directory)
    (vacant : ∀ place, place ≠ [] → isSaved place = true → into.entry? (base ++ place) = none) :
    ∃ into', Tree.Laid base into (savedEntries tree root) into' := by
  have listed : ∀ row ∈ savedEntries tree root, row.1 ≠ [] ∧ isSaved row.1 = true := fun row member =>
    have held := (mem_savedEntries_iff wellFormed).mp (show (row.1, row.2) ∈ _ from member)
    ⟨held.1, held.2.1⟩
  refine Tree.exists_laid ((Tree.pairwise_below tree root).filter _) (nodup_savedEntries wellFormed root)
    (fun row member => (listed row member).1)
    (fun row member => vacant row.1 (listed row member).1 (listed row member).2) fun row member => ?_
  by_cases direct : row.1.dropLast = []
  · rw [direct, List.append_nil]
    exact Or.inl isDirectory
  · exact Or.inr (parent_mem_savedEntries wellFormed member direct)

theorem ofMetadata_metadata {snapshot : Snapshot} (named : snapshot.directory.name = snapshot.id) :
    ofMetadata snapshot.directory snapshot.metadata = .ok snapshot := by
  obtain ⟨id, directory, createdAt, origin, purpose, revision, fileCount⟩ := snapshot
  dsimp only at named
  subst named
  rfl

end Snapshot

namespace SnapshotStore

open Tree

variable {store : SnapshotStore} {world world' : World} {source : Path} {purpose : String} {snapshot : Snapshot}

/-! ## What filling a directory leaves -/

variable {tree tree' : Tree} {location origin place : Location}

/-- What stands in the directory of a snapshot beside its copy, and that nothing else is changed. -/
structure Stored (tree tree' : Tree) (location : Location) (snapshot : Snapshot) : Prop where
  outside_eq : ∀ place, ¬ location <+: place → tree'.entry? place = tree.entry? place
  copy : tree'.entry? (location ++ [Snapshot.treeName]) = some .directory
  metadata : tree'.entry? (location ++ [Snapshot.metadataName]) =
    some (.file (Text.encode snapshot.metadata.render.toList))
  noOther : ∀ name, name ≠ Snapshot.treeName → name ≠ Snapshot.metadataName → tree.entry? (location ++ [name]) = none →
    tree'.entry? (location ++ [name]) = none

theorem entry?_copySaved {copied : Tree} (wellFormed : tree.WellFormed) (isDirectory : tree.entry? location = some .directory)
    (copying : copySaved tree location origin = .ok copied) (outside : ¬ location ++ [Snapshot.treeName] <+: place) :
    copied.entry? place = tree.entry? place := by
  unfold copySaved at copying
  have treeNamed : location ++ [Snapshot.treeName] ≠ [] := by simp
  have before := @entry?_put tree (location ++ [Snapshot.treeName]) place .directory treeNamed
  rw [if_neg (by rintro rfl; exact outside (List.prefix_refl _))] at before
  generalize tree.put (location ++ [Snapshot.treeName]) .directory = middle at copying before
  have copy := copied_of_copyInto (Snapshot.nodup_savedEntries wellFormed origin) copying
  rw [← before]
  cases held : middle.entry? place with
  | some entry =>
      refine copy.stays place entry (fun row _ => ?_) held
      rintro rfl
      exact outside (List.prefix_append _ _)
  | none =>
      refine copy.absent place (fun row _ onWay => ?_) held
      -- what is on the way to the directory is there
      rcases List.prefix_or_prefix_of_prefix onWay (List.prefix_append _ row.1) with above | inside
      · rw [before] at held
        rcases List.prefix_concat_iff.mp above with rfl | above
        · exact outside (List.prefix_refl _)
        · by_cases here : place = location
          · cases (here ▸ held).symm.trans isDirectory
          · cases held.symm.trans (wellFormed.isDirectory_above isDirectory above here)
      · exact outside inside

theorem stored_of_fill (wellFormed : tree.WellFormed) (isDirectory : tree.entry? location = some .directory)
    (done : fill tree location origin snapshot = .ok tree') : Stored tree tree' location snapshot := by
  obtain ⟨copied, copying, writing⟩ := exists_of_fill done
  have beside := fun place => @entry?_copySaved tree location origin place copied wellFormed isDirectory copying
  have written := entry?_write writing
  constructor
  · intro place outside
    have differs : place ≠ location ++ [Snapshot.metadataName] := by
      rintro rfl
      exact outside (List.prefix_append _ _)
    rw [written, if_neg differs, beside place fun inside => outside ((List.prefix_append _ _).trans inside)]
  · have differs : location ++ [Snapshot.treeName] ≠ location ++ [Snapshot.metadataName] := by
      rw [ne_eq, List.append_cancel_left_eq]
      decide
    unfold copySaved at copying
    have copy := copied_of_copyInto (Snapshot.nodup_savedEntries wellFormed origin) copying
    rw [written, if_neg differs]
    refine copy.stays _ _ (fun row member same => ?_) (by rw [entry?_put (by simp), if_pos rfl])
    have someName := ((Snapshot.mem_savedEntries_iff wellFormed).mp (show (row.1, row.2) ∈ _ from member)).1
    exact someName (List.append_right_eq_self.mp same.symm)
  · rw [written, if_pos rfl]
  · intro name noTree noMetadata absent
    rw [written, if_neg (by simpa using noMetadata), beside _ ?_, absent]
    intro inside
    rw [List.prefix_append_right_inj, List.cons_prefix_cons] at inside
    exact noTree inside.1.symm

/-- Beside the directory of a new snapshot, at most directories on the way to it are new. -/
theorem entry?_of_create (wellFormed : world.tree.WellFormed)
    (created : store.create source purpose world = (.ok snapshot, world')) (place : Location)
    (outside : ¬ snapshot.directory.resolve <+: place) : world'.tree.entry? place =
      if place <+: snapshot.directory.resolve then some .directory else world.tree.entry? place := by
  obtain ⟨_, _, _, opened, made, filled⟩ := exists_of_create wellFormed created
  obtain ⟨_, _, way⟩ := exists_of_makeDirectory made
  have isDirectory : opened.entry? snapshot.directory.resolve = some .directory := by
    rw [way.entry?_eq, if_pos (List.prefix_refl _)]
  have stored := stored_of_fill (way.wellFormed wellFormed (no_parent_resolve _)) isDirectory filled
  rw [stored.outside_eq place outside, way.entry?_eq]

/-- Nothing is logged yet under a new snapshot. -/
theorem no_log_of_create (wellFormed : world.tree.WellFormed)
    (created : store.create source purpose world = (.ok snapshot, world')) :
    world'.tree.entry? (snapshot.directory.resolve ++ [Snapshot.logName]) = none := by
  obtain ⟨_, _, _, opened, made, filled⟩ := exists_of_create wellFormed created
  obtain ⟨_, absent, way⟩ := exists_of_makeDirectory made
  have isDirectory : opened.entry? snapshot.directory.resolve = some .directory := by
    rw [way.entry?_eq, if_pos (List.prefix_refl _)]
  have stored := stored_of_fill (way.wellFormed wellFormed (no_parent_resolve _)) isDirectory filled
  refine stored.noOther _ (by decide) (by decide) ?_
  rw [way.entry?_eq, if_neg fun onWay => absurd onWay.length_le (by simp), absent_below wellFormed absent]

theorem entry_of_create (wellFormed : world.tree.WellFormed)
    (created : store.create source purpose world = (.ok snapshot, world')) {place : Location} {entry : Entry}
    (held : world.tree.entry? place = some entry) : world'.tree.entry? place = some entry := by
  obtain ⟨_, _, _, opened, made, _⟩ := exists_of_create wellFormed created
  obtain ⟨_, absent, way⟩ := exists_of_makeDirectory made
  have outside : ¬ snapshot.directory.resolve <+: place := by
    rintro ⟨rest, rfl⟩
    rw [absent_below wellFormed absent] at held
    cases held
  rw [entry?_of_create wellFormed created place outside]
  split
  · rename_i onWay
    rcases way.way place onWay with none | directory
    · cases none.symm.trans held
    · exact directory.symm.trans held
  · exact held

theorem now_of_create (created : store.create source purpose world = (.ok snapshot, world')) : world'.now = world.now := by
  unfold create at created
  dsimp only at created
  split at created
  · cases created
  · split at created
    · cases created
    · split at created
      · exact (congrArg World.now (Prod.mk.inj created).2).symm
      · cases created

theorem followed_of_create (wellFormed : world.tree.WellFormed)
    (created : store.create source purpose world = (.ok snapshot, world')) :
    world'.tree.locate store.root = .ok store.root.resolve := by
  obtain ⟨_, _, drawnEq, opened, made, _⟩ := exists_of_create wellFormed created
  have joined : snapshot.directory = store.root.join ⟨"", [snapshot.id]⟩ := by
    rw [drawnEq, drawn, directory, ofString_idOf]
  have noParent : ".." ∉ [snapshot.id] := by
    rw [drawnEq]
    simpa [drawn] using Ne.symm (idOf_ne_parent world.now (world.attempts + 1))
  have before : world.tree.locate store.root = .ok store.root.resolve := by
    unfold makeDirectory at made
    rw [joined, Tree.locate_join _ _ noParent] at made
    cases found : world.tree.locate store.root with
    | error fault =>
        rw [found] at made
        cases made
    | ok location => rw [Tree.locate_eq_resolve found]
  exact Tree.locate_of_directories (fun place held _ => entry_of_create wellFormed created held) before before

/-! ## Where a snapshot can be taken -/

/-- A directory in which nothing stands can be filled. -/
theorem exists_fill (wellFormed : tree.WellFormed) (isDirectory : tree.entry? location = some .directory)
    (empty : ∀ rest, rest ≠ [] → tree.entry? (location ++ rest) = none) (origin : Location) (snapshot : Snapshot) :
    ∃ tree', fill tree location origin snapshot = .ok tree' := by
  have noParent : ".." ∉ location := wellFormed.no_parent_name isDirectory
  have treeNamed : location ++ [Snapshot.treeName] ≠ [] := by simp
  have opened : ∀ place, Tree.entry? (tree.put (location ++ [Snapshot.treeName]) .directory) place =
      if place = location ++ [Snapshot.treeName] then some .directory else tree.entry? place :=
    fun _ => entry?_put treeNamed
  have openedWhole : (tree.put (location ++ [Snapshot.treeName]) .directory).WellFormed := by
    refine wellFormed.put treeNamed ?_ ?_ fun _ => rfl
    · rw [List.mem_append, not_or]
      exact ⟨noParent, by decide⟩
    · rwa [List.dropLast_concat, isDirectory_iff]
  unfold fill copySaved
  generalize tree.put (location ++ [Snapshot.treeName]) .directory = middle at opened openedWhole
  have vacant : ∀ place, place ≠ [] → Snapshot.isSaved place = true →
      middle.entry? (location ++ [Snapshot.treeName] ++ place) = none := by
    intro place someName _
    rw [opened, if_neg (by simpa using someName), List.append_assoc]
    exact empty _ (by simp)
  have named : ∀ row ∈ Snapshot.savedEntries tree origin, row.1 ≠ [] ∧ ".." ∉ location ++ [Snapshot.treeName] ++ row.1 := by
    intro row member
    obtain ⟨someName, _, held⟩ := (Snapshot.mem_savedEntries_iff wellFormed).mp (show (row.1, row.2) ∈ _ from member)
    have names := wellFormed.no_parent_name held
    simp only [List.mem_append, not_or] at names ⊢
    exact ⟨someName, ⟨noParent, by decide⟩, names.2⟩
  obtain ⟨copied, laid⟩ := @Snapshot.exists_laid_savedEntries tree origin middle _ wellFormed
    (by rw [opened, if_pos rfl]) vacant
  have copying := laid.copyInto openedWhole fun row member => (named row member).2
  have copy := copied_of_copyInto (Snapshot.nodup_savedEntries wellFormed origin) copying
  have differs : ∀ rest, location ≠ location ++ [Snapshot.treeName] ++ rest := by
    intro rest same
    rw [List.append_assoc] at same
    have none := List.append_right_eq_self.mp same.symm
    cases none
  have stillDirectory : copied.isDirectory (location ++ [Snapshot.metadataName]).dropLast = true := by
    rw [List.dropLast_concat, isDirectory_iff]
    refine copy.stays _ _ (fun row _ => differs row.1) ?_
    have notTree := differs []
    rw [List.append_nil] at notTree
    rw [opened, if_neg notTree, isDirectory]
  have noMetadata : copied.entry? (location ++ [Snapshot.metadataName]) = none := by
    refine copy.absent _ (fun row _ onWay => ?_) ?_
    · rw [List.append_assoc, List.prefix_append_right_inj, List.singleton_append, List.cons_prefix_cons] at onWay
      exact absurd onWay.1 (by decide)
    · rw [opened, if_neg, empty _ (by simp)]
      rw [List.append_cancel_left_eq]
      decide
  simp only [bind, Except.bind, copying, write, noMetadata, room, stillDirectory, if_true]
  exact ⟨_, rfl⟩

/-- A snapshot is taken as soon as its directory can be made. -/
theorem create_of_made {id : String} (named : Snapshot.idOf world.now (world.attempts + 1) = id)
    (wellFormed : world.tree.WellFormed) (isDirectory : world.tree.entry? source.resolve = some .directory)
    (outside : ¬ source.resolve <+: store.root.resolve) {opened : Tree}
    (made : makeDirectory world.tree (store.directory id) = .ok (opened, (store.directory id).resolve)) (purpose : String) :
    ∃ tree, store.create source purpose world =
      (.ok (store.drawn source.resolve purpose world), { world with tree := tree, attempts := world.attempts + 1 }) := by
  have resolved := store.resolve_directory_idOf world.now (world.attempts + 1)
  rw [named] at resolved
  rw [create_eq named isDirectory outside, drawn_eq named]
  obtain ⟨_, absent, way⟩ := exists_of_makeDirectory made
  have apart : Apart source.resolve (store.directory id).resolve := by
    rw [resolved] at absent ⊢
    exact apart_of_absent wellFormed isDirectory outside absent
  obtain ⟨tree, done⟩ := exists_fill (way.wellFormed wellFormed (no_parent_resolve _))
    (by rw [way.entry?_eq, if_pos (List.prefix_refl _)]) (empty_of_openedTo way wellFormed absent) source.resolve
    (store.sketch id source.resolve purpose world none
      (Snapshot.countFiles (Snapshot.savedEntries world.tree source.resolve)))
  obtain ⟨copied, copying, written⟩ := exists_of_fill done
  have filled := filled_of_new wellFormed (no_parent_resolve _) apart absent way copying
  have saved := congrArg Snapshot.countFiles (filled.savedEntries_eq wellFormed)
  have counted := congrArg Snapshot.countFiles filled.savedEntries_copy
  rw [build_of_filled made copying saved (counted.trans saved) written]
  exact ⟨tree, rfl⟩

/-- A snapshot can be taken of a directory that does not hold the store, if the way to the store can be followed and is free
of files, and the next name is not taken. -/
theorem exists_create (wellFormed : world.tree.WellFormed)
    (isDirectory : world.tree.entry? source.resolve = some .directory) (outside : ¬ source.resolve <+: store.root.resolve)
    (followed : world.tree.locate store.root = .ok store.root.resolve)
    (free : ∀ place, place <+: store.root.resolve → ∀ content, world.tree.entry? place ≠ some (.file content))
    (vacant : world.tree.entry? (store.nextPlace world) = none) (purpose : String) :
    ∃ tree, store.create source purpose world =
      (.ok (store.drawn source.resolve purpose world), { world with tree := tree, attempts := world.attempts + 1 }) := by
  have noParent := idOf_ne_parent world.now (world.attempts + 1)
  have spelled := ofString_idOf world.now (world.attempts + 1)
  have resolved := store.resolve_directory_idOf world.now (world.attempts + 1)
  rw [nextPlace] at vacant
  generalize named : Snapshot.idOf world.now (world.attempts + 1) = id at noParent spelled resolved vacant
  have located : world.tree.locate (store.directory id) = .ok (store.root.resolve ++ [id]) := by
    rw [directory, spelled, Tree.locate_join _ _ (by simpa using Ne.symm noParent), followed]
    rfl
  have freeWay : ∀ place, place <+: store.root.resolve ++ [id] → ∀ content,
      world.tree.entry? place ≠ some (.file content) := by
    intro place onWay content
    rcases List.prefix_concat_iff.mp onWay with rfl | onWay
    · exact fun held => by cases vacant.symm.trans held
    · exact free place onWay content
  obtain ⟨opened, way⟩ := exists_makeDirectories freeWay
  have made : makeDirectory world.tree (store.directory id) = .ok (opened, (store.directory id).resolve) := by
    have new : world.tree.makeNewDirectory (store.root.resolve ++ [id]) = .ok opened := by
      rw [makeNewDirectory, vacant]
      exact way
    rw [makeDirectory, located, resolved]
    simp only [bind, Except.bind, new, pure, Except.pure]
  exact create_of_made named wellFormed isDirectory outside made purpose

theorem discarded_of_create_error {path : Path} {error : SnapshotError} (wellFormed : world.tree.WellFormed)
    (failed : store.create path purpose world = (.error error, world')) :
    world'.tree = world.tree ∨ world.tree.entry? path.resolve = some .directory ∧ ¬ path.resolve <+: store.root.resolve ∧
      world'.tree = discard world.tree (store.directory (Snapshot.idOf world.now (world.attempts + 1))) := by
  by_cases begins : world.tree.entry? path.resolve = some .directory ∧ ¬ path.resolve <+: store.root.resolve
  · obtain ⟨isDirectory, outside⟩ := begins
    generalize named : Snapshot.idOf world.now (world.attempts + 1) = id
    cases made : makeDirectory world.tree (store.directory id) with
    | ok found =>
        obtain ⟨opened, location⟩ := found
        obtain ⟨located, _, _⟩ := exists_of_makeDirectory made
        dsimp only at located
        rw [located] at made
        obtain ⟨tree, created⟩ := create_of_made named wellFormed isDirectory outside made purpose
        cases congrArg Prod.fst (failed.symm.trans created)
    | error fault =>
        obtain ⟨_, unmade⟩ := create_of_unmade named isDirectory outside made purpose
        rw [(Prod.mk.inj (failed.symm.trans unmade)).2]
        exact Or.inr ⟨isDirectory, outside, by dsimp only⟩
  · obtain ⟨_, refused⟩ := create_of_refused begins purpose .plain
    exact Or.inl (congrArg World.tree (Prod.mk.inj (failed.symm.trans refused)).2)

/-- If no snapshot can be taken, at most the directory that was meant for it is taken away. -/
theorem tree_of_create_error {path : Path} {error : SnapshotError} (wellFormed : world.tree.WellFormed)
    (failed : store.create path purpose world = (.error error, world')) :
    world'.tree = world.tree ∨ ¬ path.resolve <+: store.root.resolve ∧
      world'.tree = world.tree.erase (store.root.resolve ++ [Snapshot.idOf world.now (world.attempts + 1)]) := by
  rcases discarded_of_create_error wellFormed failed with same | ⟨_, outside, discarded⟩
  · exact Or.inl same
  · rw [discarded, ← store.resolve_directory_idOf]
    rcases discard_eq world.tree (store.directory (Snapshot.idOf world.now (world.attempts + 1))) with same | ⟨_, taken⟩
    · exact Or.inl same
    · exact Or.inr ⟨outside, taken⟩

/-! ## Snapshots that stand in a store -/

structure Holds (store : SnapshotStore) (tree : Tree) (snapshot : Snapshot) (origin : Location) (saved : Tree) : Prop where
  directory : snapshot.directory = store.root.join ⟨"", [snapshot.id]⟩
  found : store.directory snapshot.id = snapshot.directory
  noParent : snapshot.id ≠ ".."
  outside : ¬ origin <+: store.root.resolve
  apart : Apart origin (store.root.resolve ++ [snapshot.id])
  origin_eq : snapshot.origin = .string origin.toString
  count_eq : snapshot.fileCount = .int (Snapshot.countFiles (Snapshot.savedEntries saved origin))
  readsBack : snapshot.metadata.ReadsBack
  shallow : snapshot.metadata.depth ≤ JsonValue.nestingLimit
  wellFormed : saved.WellFormed
  metadata : tree.entry? (store.root.resolve ++ [snapshot.id, Snapshot.metadataName]) =
    some (.file (Text.encode snapshot.metadata.render.toList))
  copy : tree.entry? (store.root.resolve ++ [snapshot.id, Snapshot.treeName]) = some .directory
  copied : tree.below (store.root.resolve ++ [snapshot.id, Snapshot.treeName]) = Snapshot.savedEntries saved origin

/-- So few files are saved of a location that their number can be read back. -/
def Countable (tree : Tree) (origin : Location) : Prop :=
  Snapshot.countFiles (Snapshot.savedEntries tree origin) < 10 ^ JsonValue.digitLimit

theorem readsBack_drawn (countable : Countable world.tree origin) :
    (store.drawn origin purpose world).metadata.ReadsBack := by
  have once : ((["snapshot_id", "timestamp", "origin_path", "purpose", "git_revision", "file_count"] : List String)).Nodup := by
    decide
  refine .object once fun entry member => ?_
  simp only [drawn, List.mem_cons, List.not_mem_nil, or_false] at member
  rcases member with rfl | rfl | rfl | rfl | rfl | rfl
  · exact .string _
  · exact .string _
  · exact .string _
  · exact .string _
  · exact .null
  · exact .int countable

theorem depth_metadata_drawn : (store.drawn origin purpose world).metadata.depth ≤ 1 := by
  rw [Snapshot.metadata, JsonValue.depth_object_le_iff]
  intro entry member
  simp only [drawn, List.mem_cons, List.not_mem_nil, or_false] at member
  rcases member with rfl | rfl | rfl | rfl | rfl | rfl <;> exact Nat.le_refl 0

theorem holds_of_create (wellFormed : world.tree.WellFormed) (countable : Countable world.tree source.resolve)
    (created : store.create source purpose world = (.ok snapshot, world')) :
    Holds store world'.tree snapshot source.resolve world.tree := by
  have taken := taken_of_create wellFormed created
  obtain ⟨_, outside, drawnEq, opened, made, filled⟩ := exists_of_create wellFormed created
  obtain ⟨_, absent, way⟩ := exists_of_makeDirectory made
  have noParent := no_parent_resolve snapshot.directory
  have isDirectory : opened.entry? snapshot.directory.resolve = some .directory := by
    rw [way.entry?_eq, if_pos (List.prefix_refl _)]
  have stored := stored_of_fill (way.wellFormed wellFormed noParent) isDirectory filled
  have resolved := taken.resolved
  have joined : store.directory snapshot.id = store.root.join ⟨"", [snapshot.id]⟩ := by
    rw [drawnEq, drawn, directory, ofString_idOf]
  have copyPlace : ∀ name, store.root.resolve ++ [snapshot.id, name] = snapshot.directory.resolve ++ [name] := by
    intro name
    rw [resolved, List.append_assoc, List.singleton_append]
  refine ⟨taken.directory.trans joined, taken.directory.symm, ?_, outside, resolved ▸ taken.apart, ?_, ?_, ?_, ?_,
    wellFormed, ?_, ?_, ?_⟩
  · rw [drawnEq]
    exact idOf_ne_parent world.now (world.attempts + 1)
  · rw [drawnEq, drawn]
  · rw [drawnEq, drawn]
  · rw [drawnEq]
    exact readsBack_drawn countable
  · rw [drawnEq]
    exact depth_metadata_drawn.trans (by decide)
  · rw [copyPlace]
    exact stored.metadata
  · rw [copyPlace]
    exact stored.copy
  · rw [copyPlace, ← Snapshot.resolve_treeDirectory, taken.copy]
    exact Snapshot.savedEntries_congr wellFormed taken.wellFormed fun place _ _ =>
      taken.source_eq _ (List.prefix_append _ _)

/-- A snapshot stands as long as its directory is left alone, but for the log. -/
theorem Holds.of_unlogged {saved : Tree} (holds : Holds store tree snapshot origin saved) (wellFormed : tree.WellFormed)
    (wellFormed' : tree'.WellFormed)
    (same : ∀ rest, rest ≠ [Snapshot.logName] → tree'.entry? (store.root.resolve ++ [snapshot.id] ++ rest) =
      tree.entry? (store.root.resolve ++ [snapshot.id] ++ rest)) : Holds store tree' snapshot origin saved where
  directory := holds.directory
  found := holds.found
  noParent := holds.noParent
  outside := holds.outside
  apart := holds.apart
  origin_eq := holds.origin_eq
  count_eq := holds.count_eq
  readsBack := holds.readsBack
  shallow := holds.shallow
  wellFormed := holds.wellFormed
  metadata := by
    have kept := same [Snapshot.metadataName] (by decide)
    rw [List.append_assoc, List.singleton_append] at kept
    exact kept.trans holds.metadata
  copy := by
    have kept := same [Snapshot.treeName] (by decide)
    rw [List.append_assoc, List.singleton_append] at kept
    exact kept.trans holds.copy
  copied := by
    rw [← holds.copied]
    refine below_congr wellFormed wellFormed' fun place someName => ?_
    have kept := same ([Snapshot.treeName] ++ place) (by simp [someName])
    simpa only [List.append_assoc, List.cons_append, List.nil_append] using kept

/-- A snapshot stands as long as its directory is left alone. -/
theorem Holds.of_same {saved : Tree} (holds : Holds store tree snapshot origin saved) (wellFormed : tree.WellFormed)
    (wellFormed' : tree'.WellFormed)
    (same : ∀ rest, tree'.entry? (store.root.resolve ++ [snapshot.id] ++ rest) =
      tree.entry? (store.root.resolve ++ [snapshot.id] ++ rest)) : Holds store tree' snapshot origin saved :=
  holds.of_unlogged wellFormed wellFormed' fun rest _ => same rest

/-- What the directory of a snapshot holds is found where the store can be followed to. -/
theorem Holds.locate_inside {saved : Tree} (holds : Holds store tree snapshot origin saved) {root : Location}
    (followed : tree'.locate store.root = .ok root) {name : String} (noParent : name ≠ "..") :
    tree'.locate (snapshot.directory.join ⟨"", [name]⟩) = .ok (store.root.resolve ++ [snapshot.id, name]) := by
  obtain rfl := locate_eq_resolve followed
  have noParents : ".." ∉ [snapshot.id, name] := by
    simp [Ne.symm noParent, Ne.symm holds.noParent]
  have joined : snapshot.directory.join ⟨"", [name]⟩ = store.root.join ⟨"", [snapshot.id, name]⟩ := by
    simp [holds.directory, Path.join]
  rw [joined, tree'.locate_join _ noParents, followed]
  rfl

/-- A snapshot that stands in a store that can be followed to is read as it was taken. -/
theorem Holds.read {saved : Tree} (holds : Holds store tree snapshot origin saved) {root : Location}
    (followed : tree.locate store.root = .ok root) : Snapshot.read tree snapshot.directory = .ok snapshot := by
  have metadataAt := holds.locate_inside followed (show Snapshot.metadataName ≠ ".." by decide)
  have content : (tree.locate (snapshot.directory.join ⟨"", [Snapshot.metadataName]⟩)).bind tree.read =
      .ok (Text.encode snapshot.metadata.render.toList) := by
    rw [metadataAt, Except.bind, Tree.read, holds.metadata]
  have named : snapshot.directory.name = snapshot.id := by
    simp [holds.directory, Path.join, Path.name]
  rw [Snapshot.read, content]
  dsimp only
  rw [JsonValue.readText_render holds.readsBack.writable]
  dsimp only
  rw [JsonValue.ofText_render holds.readsBack holds.shallow]
  exact Snapshot.ofMetadata_metadata named

theorem Holds.load {saved : Tree} (holds : Holds store tree snapshot origin saved) {root : Location}
    (followed : tree.locate store.root = .ok root) : store.load tree snapshot.id = .ok snapshot := by
  have metadataAt := holds.locate_inside followed (show Snapshot.metadataName ≠ ".." by decide)
  have copyAt := holds.locate_inside followed (show Snapshot.treeName ≠ ".." by decide)
  have isFile : tree.isFileAt (snapshot.directory.join ⟨"", [Snapshot.metadataName]⟩) = true := by
    rw [isFileAt, metadataAt]
    dsimp only
    rw [Tree.isFile, holds.metadata]
  have isDirectory : tree.isDirectoryAt (snapshot.directory.join ⟨"", [Snapshot.treeName]⟩) = true := by
    rw [isDirectoryAt, copyAt]
    exact isDirectory_iff.mpr holds.copy
  rw [SnapshotStore.load, holds.found, isFile, isDirectory, holds.read followed]
  rfl

end SnapshotStore
end Deadwood
