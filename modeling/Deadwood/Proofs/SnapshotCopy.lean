import Deadwood.Proofs.PathLaws
import Deadwood.Proofs.TreeCopies

/-!
# What a snapshot copies

The directory of a new snapshot stands apart from its source: it was not there before, and the source does not hold the
store. So taking a snapshot leaves the source alone, and the copy holds what is saved of it.
-/

set_option autoImplicit false
namespace Deadwood

open Files

namespace Snapshot

variable {tree : Tree} {root place : Location} {entry : Entry}

theorem mem_savedEntries_iff (wellFormed : tree.WellFormed) :
    (place, entry) ∈ savedEntries tree root ↔
      place ≠ [] ∧ isSaved place = true ∧ tree.entry? (root ++ place) = some entry := by
  rw [savedEntries, List.mem_filter, wellFormed.mem_below_iff]
  exact ⟨fun ⟨⟨someName, held⟩, saved⟩ => ⟨someName, saved, held⟩,
    fun ⟨someName, saved, held⟩ => ⟨⟨someName, held⟩, saved⟩⟩

theorem nodup_savedEntries (wellFormed : tree.WellFormed) (root : Location) :
    ((savedEntries tree root).map Prod.fst).Nodup :=
  (Tree.nodup_keys_below wellFormed root).sublist (List.filter_sublist.map Prod.fst)

theorem isSaved_of_within {above : Location} (within : above <+: place) (someName : above ≠ [])
    (saved : isSaved place = true) : isSaved above = true := by
  obtain ⟨rest, rfl⟩ := within
  cases above with
  | nil => exact absurd rfl someName
  | cons name names => exact saved

theorem exists_saved_above (wellFormed : tree.WellFormed) {row : Location × Entry}
    (listed : row ∈ savedEntries tree root) (within : place <+: row.1) (someName : place ≠ []) :
    isSaved place = true ∧ ∃ held, tree.entry? (root ++ place) = some held := by
  obtain ⟨_, saved, held⟩ := (mem_savedEntries_iff wellFormed).mp (show (row.1, row.2) ∈ _ from listed)
  refine ⟨isSaved_of_within within someName saved, ?_⟩
  by_cases whole : place = row.1
  · exact ⟨row.2, whole ▸ held⟩
  · refine ⟨.directory, wellFormed.isDirectory_above held ((List.prefix_append_right_inj root).mpr within) ?_⟩
    exact fun same => whole (List.append_cancel_left same)

theorem savedEntries_congr {tree' : Tree} (wellFormed : tree.WellFormed) (wellFormed' : tree'.WellFormed)
    (same : ∀ place, place ≠ [] → isSaved place = true → tree'.entry? (root ++ place) = tree.entry? (root ++ place)) :
    savedEntries tree' root = savedEntries tree root := by
  have member : ∀ row, row ∈ savedEntries tree' root ↔ row ∈ savedEntries tree root := by
    rintro ⟨place, entry⟩
    rw [mem_savedEntries_iff wellFormed', mem_savedEntries_iff wellFormed]
    refine and_congr_right fun someName => and_congr_right fun saved => ?_
    rw [same place someName saved]
  refine List.Perm.eq_of_pairwise ?_ ((Tree.pairwise_below tree' root).filter _) ((Tree.pairwise_below tree root).filter _)
    ((List.perm_ext_iff_of_nodup ((wellFormed'.nodup_below root).filter _) ((wellFormed.nodup_below root).filter _)).mpr
      member)
  intro first second firstListed secondListed
  exact wellFormed'.eq_of_notAfter (List.mem_filter.mp firstListed).1
    (List.mem_filter.mp ((member second).mpr secondListed)).1

theorem resolve_treeDirectory (snapshot : Snapshot) :
    snapshot.treeDirectory.resolve = snapshot.directory.resolve ++ [treeName] :=
  resolve_join_of_no_parent snapshot.directory (by decide)

theorem resolve_logFile (snapshot : Snapshot) :
    snapshot.logFile.resolve = snapshot.directory.resolve ++ [logName] :=
  resolve_join_of_no_parent snapshot.directory (by decide)

end Snapshot

namespace SnapshotStore

open Tree

variable {tree tree' : Tree} {source location place : Location}

/-! ## Standing apart -/

structure Apart (source location : Location) : Prop where
  notInside : ¬ source <+: location
  notAround : ¬ location <+: source

theorem Apart.not_prefix (apart : Apart source location) (inSource : source <+: place) (rest : Location) :
    ¬ place <+: location ++ rest := by
  intro onWay
  rcases List.prefix_or_prefix_of_prefix (inSource.trans onWay) (List.prefix_append location rest) with inside | around
  · exact apart.notInside inside
  · exact apart.notAround around

theorem Apart.ne (apart : Apart source location) (inSource : source <+: place) (rest : Location) :
    place ≠ location ++ rest := by
  rintro rfl
  exact apart.not_prefix inSource rest (List.prefix_refl _)

/-- A location that holds nothing, in a directory outside the source, stands apart from the source. -/
theorem apart_of_absent (wellFormed : tree.WellFormed) {parent : Location} {name : String}
    (isDirectory : tree.entry? source = some .directory) (outside : ¬ source <+: parent)
    (absent : tree.entry? (parent ++ [name]) = none) : Apart source (parent ++ [name]) := by
  have differs : source ≠ parent ++ [name] := by
    rintro rfl
    cases absent.symm.trans isDirectory
  constructor
  · intro inside
    exact (List.prefix_concat_iff.mp inside).elim differs outside
  · intro around
    cases absent.symm.trans (wellFormed.isDirectory_above isDirectory around (Ne.symm differs))

theorem absent_below (wellFormed : tree.WellFormed) (absent : tree.entry? location = none) (rest : Location) :
    tree.entry? (location ++ rest) = none := by
  cases held : tree.entry? (location ++ rest) with
  | none => rfl
  | some entry =>
      by_cases here : rest = []
      · rw [here, List.append_nil, absent] at held
        cases held
      · have directory := wellFormed.isDirectory_above held (List.prefix_append location rest)
          fun same => here (List.append_right_eq_self.mp same.symm)
        cases absent.symm.trans directory

/-! ## Filling the directory of a snapshot -/

structure Filled (tree tree' : Tree) (location source : Location) : Prop where
  source_eq : ∀ place, source <+: place → tree'.entry? place = tree.entry? place
  copy_eq : ∀ place, place ≠ [] → tree'.entry? (location ++ [Snapshot.treeName] ++ place) =
    if Snapshot.isSaved place then tree.entry? (source ++ place) else none
  wellFormed : tree'.WellFormed

def fill (tree : Tree) (location source : Location) (snapshot : Snapshot) : Except Fault Tree := do
  let copied ← copySaved tree location source
  copied.write (location ++ [Snapshot.metadataName]) (Text.encode snapshot.metadata.render.toList)

theorem fill_of_copySaved {copied : Tree} {snapshot : Snapshot} (copying : copySaved tree location source = .ok copied) :
    fill tree location source snapshot =
      copied.write (location ++ [Snapshot.metadataName]) (Text.encode snapshot.metadata.render.toList) := by
  rw [fill, copying]
  rfl

theorem filled_of_copySaved (wellFormed : tree.WellFormed) (apart : Apart source location)
    (isDirectory : tree.entry? location = some .directory)
    (empty : ∀ rest, rest ≠ [] → tree.entry? (location ++ rest) = none)
    (done : copySaved tree location source = .ok tree') : Filled tree tree' location source := by
  unfold copySaved at done
  have treeNamed : location ++ [Snapshot.treeName] ≠ [] := by simp
  have noParent : ".." ∉ location := wellFormed.no_parent_name isDirectory
  have opened : ∀ place, Tree.entry? (tree.put (location ++ [Snapshot.treeName]) .directory) place =
      if place = location ++ [Snapshot.treeName] then some .directory else tree.entry? place :=
    fun _ => entry?_put treeNamed
  have openedWhole : (tree.put (location ++ [Snapshot.treeName]) .directory).WellFormed := by
    refine wellFormed.put treeNamed ?_ ?_ fun _ => rfl
    · rw [List.mem_append, not_or]
      exact ⟨noParent, by decide⟩
    · rwa [List.dropLast_concat, isDirectory_iff]
  generalize tree.put (location ++ [Snapshot.treeName]) .directory = middle at done opened openedWhole
  have copy := copied_of_copyInto (Snapshot.nodup_savedEntries wellFormed source) done
  have listed : ∀ row ∈ Snapshot.savedEntries tree source,
      row.1 ≠ [] ∧ Snapshot.isSaved row.1 = true ∧ tree.entry? (source ++ row.1) = some row.2 :=
    fun row member => (Snapshot.mem_savedEntries_iff wellFormed).mp (show (row.1, row.2) ∈ _ from member)
  constructor
  · -- the source: nothing on the way to the copies lies in it
    intro place inSource
    have before := opened place
    rw [if_neg (apart.ne inSource _)] at before
    rw [← before]
    cases held : middle.entry? place with
    | some entry =>
        refine copy.stays place entry (fun row _ => ?_) held
        rw [List.append_assoc]
        exact apart.ne inSource _
    | none =>
        refine copy.absent place (fun row _ => ?_) held
        rw [List.append_assoc]
        exact apart.not_prefix inSource _
  · -- the copy: what is saved is copied, and nothing else was there
    intro place someName
    by_cases saved : Snapshot.isSaved place = true
    · rw [if_pos saved]
      cases held : tree.entry? (source ++ place) with
      | some entry =>
          exact copy.own (place, entry) ((Snapshot.mem_savedEntries_iff wellFormed).mpr ⟨someName, saved, held⟩)
      | none =>
          refine copy.absent _ (fun row member onWay => ?_) ?_
          · have within := (List.prefix_append_right_inj _).mp onWay
            obtain ⟨_, other, present⟩ := Snapshot.exists_saved_above wellFormed member within someName
            cases held.symm.trans present
          · rw [opened, if_neg (by simpa using someName), List.append_assoc]
            exact empty _ (by simp)
    · rw [if_neg saved]
      refine copy.absent _ (fun row member onWay => ?_) ?_
      · have within := (List.prefix_append_right_inj _).mp onWay
        exact saved (Snapshot.isSaved_of_within within someName (listed row member).2.1)
      · rw [opened, if_neg (by simpa using someName), List.append_assoc]
        exact empty _ (by simp)
  · refine copy.wellFormed openedWhole fun row member => ?_
    have sourceNames := wellFormed.no_parent_name (listed row member).2.2
    simp only [List.mem_append, not_or] at sourceNames ⊢
    exact ⟨⟨noParent, by decide⟩, sourceNames.2⟩

theorem Filled.write {copied : Tree} {content : Bytes} (filled : Filled tree copied location source)
    (apart : Apart source location) (noParent : ".." ∉ location)
    (done : copied.write (location ++ [Snapshot.metadataName]) content = .ok tree') :
    Filled tree tree' location source := by
  have written := entry?_write done
  refine ⟨fun place inSource => ?_, fun place someName => ?_, filled.wellFormed.write ?_ done⟩
  · rw [written, if_neg (apart.ne inSource _), filled.source_eq place inSource]
  · rw [written, if_neg, filled.copy_eq place someName]
    rw [List.append_assoc]
    intro same
    have names := List.append_cancel_left same
    rw [List.singleton_append, List.cons.injEq] at names
    exact absurd names.1 (by decide)
  · rw [List.mem_append, not_or]
    exact ⟨noParent, by decide⟩

theorem exists_of_fill {snapshot : Snapshot} (done : fill tree location source snapshot = .ok tree') :
    ∃ copied, copySaved tree location source = .ok copied ∧
      copied.write (location ++ [Snapshot.metadataName]) (Text.encode snapshot.metadata.render.toList) = .ok tree' := by
  cases copying : copySaved tree location source with
  | error fault =>
      rw [fill, copying] at done
      cases done
  | ok copied => exact ⟨copied, rfl, (fill_of_copySaved copying).symm.trans done⟩

theorem empty_of_openedTo {opened : Tree} (way : OpenedTo tree opened location) (wellFormed : tree.WellFormed)
    (absent : tree.entry? location = none) (rest : Location) (someName : rest ≠ []) :
    opened.entry? (location ++ rest) = none := by
  rw [way.entry?_eq, if_neg, absent_below wellFormed absent]
  intro onWay
  have shorter := onWay.length_le
  have positive := List.length_pos_iff.mpr someName
  rw [List.length_append] at shorter
  omega

theorem filled_of_new {opened : Tree} (wellFormed : tree.WellFormed) (noParent : ".." ∉ location)
    (apart : Apart source location) (absent : tree.entry? location = none) (way : OpenedTo tree opened location)
    (done : copySaved opened location source = .ok tree') :
    Filled tree tree' location source := by
  have sourceEq : ∀ place, source <+: place → opened.entry? place = tree.entry? place := by
    intro place inSource
    rw [way.entry?_eq, if_neg]
    have notOnWay := apart.not_prefix inSource []
    rwa [List.append_nil] at notOnWay
  have isDirectory : opened.entry? location = some .directory := by
    rw [way.entry?_eq, if_pos (List.prefix_refl _)]
  have filled := filled_of_copySaved (way.wellFormed wellFormed noParent) apart isDirectory
    (empty_of_openedTo way wellFormed absent) done
  refine ⟨fun place inSource => ?_, fun place someName => ?_, filled.wellFormed⟩
  · rw [filled.source_eq place inSource, sourceEq place inSource]
  · rw [filled.copy_eq place someName, sourceEq _ (List.prefix_append _ _)]

theorem Filled.copy (filled : Filled tree tree' location source) :
    tree'.below (location ++ [Snapshot.treeName]) = Snapshot.savedEntries tree' source := by
  refine below_eq_filter Snapshot.isSaved filled.wellFormed filled.wellFormed fun place someName => ?_
  rw [filled.copy_eq place someName, filled.source_eq _ (List.prefix_append _ _)]

theorem Filled.savedEntries_eq (filled : Filled tree tree' location source) (wellFormed : tree.WellFormed) :
    Snapshot.savedEntries tree' source = Snapshot.savedEntries tree source :=
  Snapshot.savedEntries_congr wellFormed filled.wellFormed fun _ _ _ =>
    filled.source_eq _ (List.prefix_append _ _)

theorem Filled.savedEntries_copy (filled : Filled tree tree' location source) :
    Snapshot.savedEntries tree' (location ++ [Snapshot.treeName]) = Snapshot.savedEntries tree' source := by
  rw [Snapshot.savedEntries, filled.copy, Snapshot.savedEntries, List.filter_filter]
  simp

/-! ## Taking a snapshot -/

structure Taken (store : SnapshotStore) (source : Location) (world world' : World) (snapshot : Snapshot) : Prop where
  directory : snapshot.directory = store.directory snapshot.id
  resolved : snapshot.directory.resolve = store.root.resolve ++ [snapshot.id]
  isDirectory : world.tree.entry? source = some .directory
  outside : ¬ source <+: store.root.resolve
  apart : Apart source snapshot.directory.resolve
  source_eq : ∀ place, source <+: place → world'.tree.entry? place = world.tree.entry? place
  copy : world'.tree.below snapshot.treeDirectory.resolve = Snapshot.savedEntries world'.tree source
  wellFormed : world'.tree.WellFormed

theorem exists_of_makeDirectory {path : Path} {found : Tree × Location}
    (made : makeDirectory tree path = .ok found) :
    found.2 = path.resolve ∧ tree.entry? path.resolve = none ∧ OpenedTo tree found.1 path.resolve := by
  unfold makeDirectory at made
  cases located : tree.locate path with
  | error fault =>
      rw [located] at made
      cases made
  | ok location =>
      obtain rfl := locate_eq_resolve located
      rw [located] at made
      simp only [bind, Except.bind, pure, Except.pure] at made
      split at made
      · cases made
      · rename_i later new
        obtain rfl := Except.ok.inj made
        unfold makeNewDirectory at new
        split at new
        · cases new
        · rename_i absent
          rw [Option.not_isSome_iff_eq_none] at absent
          exact ⟨rfl, absent, openedTo_of_makeDirectories new⟩

/-- A snapshot that a plain system builds is one whose directory is made and filled. -/
theorem exists_of_build {directory : Path} {snapshotOf : Option String → Nat → Snapshot} {snapshot : Snapshot}
    (built : SnapshotSystem.plain.build tree directory source snapshotOf = (.ok snapshot, tree')) :
    ∃ opened location copied, makeDirectory tree directory = .ok (opened, location) ∧
      copySaved opened location source = .ok copied ∧
      snapshot = snapshotOf none (Snapshot.countFiles (Snapshot.savedEntries copied source)) ∧
      copied.write (location ++ [Snapshot.metadataName]) (Text.encode snapshot.metadata.render.toList) = .ok tree' := by
  simp only [SnapshotSystem.build, SnapshotSystem.plain] at built
  cases made : makeDirectory tree directory with
  | error fault =>
      rw [made] at built
      cases built
  | ok found =>
      obtain ⟨opened, location⟩ := found
      rw [made] at built
      dsimp only [SnapshotSystem.atOnce] at built
      cases copying : copySaved opened location source with
      | error fault =>
          rw [copying] at built
          cases built
      | ok copied =>
          rw [copying] at built
          dsimp only [Except.map] at built
          split at built
          · cases built
          · rename_i counted
            rw [Decidable.not_not.mp counted] at built
            generalize drawn : snapshotOf none (Snapshot.countFiles (Snapshot.savedEntries copied source)) = taken at built
            cases written : copied.write (location ++ [Snapshot.metadataName])
                (Text.encode taken.metadata.render.toList) with
            | error fault =>
                rw [written] at built
                cases built
            | ok after =>
                rw [written] at built
                obtain ⟨same, rfl⟩ := Prod.mk.inj built
                obtain rfl := Except.ok.inj same
                exact ⟨opened, location, copied, rfl, copying, drawn.symm, written⟩

theorem build_of_filled {directory : Path} {snapshotOf : Option String → Nat → Snapshot} {opened copied : Tree} {count : Nat}
    (made : makeDirectory tree directory = .ok (opened, location))
    (copying : copySaved opened location source = .ok copied)
    (saved : Snapshot.countFiles (Snapshot.savedEntries copied source) = count)
    (counted : Snapshot.countFiles (Snapshot.savedEntries copied (location ++ [Snapshot.treeName])) = count)
    (written : copied.write (location ++ [Snapshot.metadataName])
      (Text.encode (snapshotOf none count).metadata.render.toList) = .ok tree') :
    SnapshotSystem.plain.build tree directory source snapshotOf = (.ok (snapshotOf none count), tree') := by
  simp only [SnapshotSystem.build, SnapshotSystem.plain, made, SnapshotSystem.atOnce, copying, Except.map, saved, counted,
    ne_eq, not_true_eq_false, if_false, written]

/-- Where the directory cannot be made, a plain system leaves everything as it was. -/
theorem build_of_unmade {directory : Path} {fault : Fault} (unmade : makeDirectory tree directory = .error fault)
    (snapshotOf : Option String → Nat → Snapshot) : SnapshotSystem.plain.build tree directory source snapshotOf =
      (.error (.notCreated source.toString (FileError.message ⟨fault, directory.toString⟩)), tree) := by
  simp only [SnapshotSystem.build, SnapshotSystem.plain, unmade, SnapshotSystem.atOnce]

def drawn (store : SnapshotStore) (origin : Location) (purpose : String) (world : World) : Snapshot where
  id := Snapshot.idOf world.now (world.attempts + 1)
  directory := store.directory (Snapshot.idOf world.now (world.attempts + 1))
  createdAt := .string world.now.toString
  origin := .string origin.toString
  purpose := .string purpose
  revision := .null
  fileCount := .int (Snapshot.countFiles (Snapshot.savedEntries world.tree origin))

def nextPlace (store : SnapshotStore) (world : World) : Location :=
  store.root.resolve ++ [Snapshot.idOf world.now (world.attempts + 1)]

def sketch (store : SnapshotStore) (id : String) (origin : Location) (purpose : String) (world : World)
    (revision : Option String) (fileCount : Nat) : Snapshot where
  id := id
  directory := store.directory id
  createdAt := .string world.now.toString
  origin := .string origin.toString
  purpose := .string purpose
  revision := .ofOption revision
  fileCount := .int fileCount

theorem directory_sketch {store : SnapshotStore} {id : String} {origin : Location} {purpose : String} {world : World}
    {revision : Option String} {fileCount : Nat} :
    (store.sketch id origin purpose world revision fileCount).directory = store.directory id := by
  rw [sketch]

theorem drawn_eq {store : SnapshotStore} {world : World} {id : String}
    (named : Snapshot.idOf world.now (world.attempts + 1) = id) (origin : Location) (purpose : String) :
    store.drawn origin purpose world =
      store.sketch id origin purpose world none (Snapshot.countFiles (Snapshot.savedEntries world.tree origin)) := by
  rw [drawn, named]
  rfl

/-- Taking a snapshot of a directory that does not hold the store. -/
theorem create_eq {store : SnapshotStore} {path : Path} {purpose : String} {world : World} {id : String}
    (named : Snapshot.idOf world.now (world.attempts + 1) = id)
    (isDirectory : world.tree.entry? path.resolve = some .directory) (outside : ¬ path.resolve <+: store.root.resolve)
    (system : SnapshotSystem) : store.create path purpose world system =
      match system.build world.tree (store.directory id) path.resolve (store.sketch id path.resolve purpose world) with
      | (.ok snapshot, tree) => (.ok snapshot, { world with tree := tree, attempts := world.attempts + 1 })
      | (.error error, tree) =>
        (.error error, { world with tree := system.remove tree (store.directory id), attempts := world.attempts + 1 }) := by
  have isDirectory' := isDirectory_iff.mpr isDirectory
  have outside' := mt List.isPrefixOf_iff_prefix.mp outside
  simp only [create, isDirectory', outside', Bool.not_true, Bool.false_eq_true, if_false, named]
  rfl

theorem create_of_unmade {store : SnapshotStore} {path : Path} {world : World} {id : String} {fault : Fault}
    (named : Snapshot.idOf world.now (world.attempts + 1) = id)
    (isDirectory : world.tree.entry? path.resolve = some .directory) (outside : ¬ path.resolve <+: store.root.resolve)
    (unmade : makeDirectory world.tree (store.directory id) = .error fault) (purpose : String) :
    ∃ error, store.create path purpose world = (.error error,
      { world with tree := discard world.tree (store.directory id), attempts := world.attempts + 1 }) := by
  have removes : SnapshotSystem.plain.remove = discard := rfl
  rw [create_eq named isDirectory outside, build_of_unmade unmade, removes]
  exact ⟨_, rfl⟩

/-- Of what is no directory, or holds the store, no snapshot is taken, and everything is left as it was. -/
theorem create_of_refused {store : SnapshotStore} {path : Path} {world : World}
    (refused : ¬ (world.tree.entry? path.resolve = some .directory ∧ ¬ path.resolve <+: store.root.resolve))
    (purpose : String) (system : SnapshotSystem) :
    ∃ error, store.create path purpose world system = (.error error, world) := by
  rw [← isDirectory_iff, ← List.isPrefixOf_iff_prefix] at refused
  unfold create
  dsimp only
  split
  · exact ⟨_, rfl⟩
  · split
    · exact ⟨_, rfl⟩
    · rename_i isDirectory outside
      rw [Bool.not_eq_true', Bool.not_eq_false] at isDirectory
      exact absurd ⟨isDirectory, outside⟩ refused

theorem exists_of_create {store : SnapshotStore} {path : Path} {purpose : String} {world world' : World}
    {snapshot : Snapshot} (wellFormed : world.tree.WellFormed)
    (created : store.create path purpose world = (.ok snapshot, world')) :
    world.tree.entry? path.resolve = some .directory ∧ ¬ path.resolve <+: store.root.resolve ∧
      snapshot = store.drawn path.resolve purpose world ∧ ∃ opened,
        makeDirectory world.tree snapshot.directory = .ok (opened, snapshot.directory.resolve) ∧
        fill opened snapshot.directory.resolve path.resolve snapshot = .ok world'.tree := by
  by_cases begins : world.tree.entry? path.resolve = some .directory ∧ ¬ path.resolve <+: store.root.resolve
  · obtain ⟨isDirectory, outside⟩ := begins
    have resolved := store.resolve_directory_idOf world.now (world.attempts + 1)
    generalize named : Snapshot.idOf world.now (world.attempts + 1) = id at resolved
    rw [create_eq named isDirectory outside] at created
    split at created
    · rename_i taken later built
      obtain rfl := Except.ok.inj (Prod.mk.inj created).1
      obtain rfl : later = world'.tree := congrArg World.tree (Prod.mk.inj created).2
      obtain ⟨opened, location, copied, made, copying, sameSnapshot, written⟩ := exists_of_build built
      obtain ⟨located, absent, way⟩ := exists_of_makeDirectory made
      dsimp only at located way
      subst located
      have apart : Apart path.resolve (store.directory id).resolve := by
        rw [resolved] at absent ⊢
        exact apart_of_absent wellFormed isDirectory outside absent
      have filled := filled_of_new wellFormed (no_parent_resolve _) apart absent way copying
      rw [filled.savedEntries_eq wellFormed] at sameSnapshot
      have directory : taken.directory = store.directory id := by rw [sameSnapshot, directory_sketch]
      refine ⟨isDirectory, outside, sameSnapshot.trans (drawn_eq named _ _).symm, opened, ?_, ?_⟩
      · rw [directory]
        exact made
      · rw [directory, fill_of_copySaved copying, written]
    · cases created
  · obtain ⟨error, refused⟩ := create_of_refused begins purpose .plain
    cases refused.symm.trans created

/-- A snapshot that is taken has its directory apart from the source, with a copy of the source. -/
theorem taken_of_create {store : SnapshotStore} {path : Path} {purpose : String} {world world' : World}
    {snapshot : Snapshot} (wellFormed : world.tree.WellFormed)
    (created : store.create path purpose world = (.ok snapshot, world')) :
    Taken store path.resolve world world' snapshot := by
  obtain ⟨isDirectory, outside, drawnEq, opened, made, done⟩ := exists_of_create wellFormed created
  obtain ⟨copied, copying, written⟩ := exists_of_fill done
  obtain ⟨_, absent, way⟩ := exists_of_makeDirectory made
  have resolved := store.resolve_directory_idOf world.now (world.attempts + 1)
  have id := congrArg Snapshot.id drawnEq
  have directory := congrArg Snapshot.directory drawnEq
  rw [drawn] at id directory
  dsimp only at id directory
  rw [← id] at resolved directory
  rw [← directory] at resolved
  have apart : Apart path.resolve snapshot.directory.resolve := by
    rw [resolved] at absent ⊢
    exact apart_of_absent wellFormed isDirectory outside absent
  have filled := (filled_of_new wellFormed (no_parent_resolve _) apart absent way copying).write apart
    (no_parent_resolve _) written
  refine ⟨directory, resolved, isDirectory, outside, apart, filled.source_eq, ?_, filled.wellFormed⟩
  rw [Snapshot.resolve_treeDirectory]
  exact filled.copy

/-! ## Discarding -/

/-- Discarding takes a directory away or does nothing. -/
theorem discard_eq (tree : Tree) (path : Path) :
    discard tree path = tree ∨ path.resolve ≠ [] ∧ discard tree path = tree.erase path.resolve := by
  unfold discard
  split
  · rename_i location located
    obtain rfl := locate_eq_resolve located
    split
    · rename_i holds
      rw [Bool.and_eq_true] at holds
      exact Or.inr ⟨by simpa using holds.2, rfl⟩
    · exact Or.inl rfl
  · exact Or.inl rfl

theorem discard_of_isDirectory {path : Path} (noParent : ".." ∉ path.names) (someName : path.resolve ≠ [])
    (isDirectory : tree.isDirectory path.resolve = true) : discard tree path = tree.erase path.resolve := by
  rw [discard, locate_of_no_parent tree noParent]
  dsimp only
  rw [if_pos]
  rw [isDirectory, Bool.true_and, Bool.not_eq_true', List.isEmpty_eq_false_iff]
  exact someName

end SnapshotStore
end Deadwood
