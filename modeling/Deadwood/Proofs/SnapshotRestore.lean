import Deadwood.Proofs.SnapshotTaking
import Deadwood.Snapshot.Rollback

/-!
# Restoring what a snapshot holds

Whatever is changed below a source after a snapshot was taken of it, restoring the snapshot brings back what was saved, keeps
what is preserved, and leaves a snapshot by which the restoration is undone. This takes that the store can still be followed
to when the source is cleared: a path to the store that leads through the source can be lost on the way, and then all that
was saved is taken away and nothing is brought back.
-/

set_option autoImplicit false
namespace Deadwood

open Files Tree

/-! ## Clearing -/

section Clearing

variable {tree : Tree} {root place : Location} {entry : Entry}

/-- A place that clearing a root takes away. -/
def IsCleared (root place : Location) : Prop :=
  ∃ rest, place = root ++ rest ∧ rest ≠ [] ∧ Snapshot.isSaved rest = true

theorem isCleared_iff : IsCleared root place ↔
    (root.isPrefixOf place && root.length < place.length && Snapshot.isSaved (place.drop root.length)) = true := by
  rw [Bool.and_eq_true, Bool.and_eq_true, List.isPrefixOf_iff_prefix, decide_eq_true_eq]
  constructor
  · rintro ⟨rest, rfl, someName, saved⟩
    have positive := List.length_pos_iff.mpr someName
    rw [List.drop_left, List.length_append]
    exact ⟨⟨List.prefix_append _ _, by omega⟩, saved⟩
  · rintro ⟨⟨⟨rest, rfl⟩, longer⟩, saved⟩
    rw [List.drop_left] at saved
    refine ⟨rest, rfl, ?_, saved⟩
    rintro rfl
    simp at longer

theorem entry?_clearSaved (tree : Tree) (root place : Location) : Tree.entry? (clearSaved tree root) place =
    if root.isPrefixOf place && root.length < place.length && Snapshot.isSaved (place.drop root.length) then none
    else tree.entry? place := by
  by_cases atRoot : place = []
  · have top : ∀ tree : Tree, tree.entry? [] = some .directory := fun _ => rfl
    simp [atRoot, top]
  · rw [entry?_of_ne_nil atRoot, entry?_of_ne_nil atRoot, clearSaved, lookup_filter_key fun place =>
      !(root.isPrefixOf place && root.length < place.length && Snapshot.isSaved (place.drop root.length))]
    cases root.isPrefixOf place && root.length < place.length && Snapshot.isSaved (place.drop root.length) <;> rfl

theorem entry?_clearSaved_of_cleared (cleared : IsCleared root place) : Tree.entry? (clearSaved tree root) place = none := by
  rw [entry?_clearSaved, if_pos (isCleared_iff.mp cleared)]

theorem entry?_clearSaved_of_kept (kept : ¬ IsCleared root place) :
    Tree.entry? (clearSaved tree root) place = tree.entry? place := by
  rw [entry?_clearSaved, if_neg (mt isCleared_iff.mpr kept)]

theorem not_isCleared_of_outside (outside : ¬ root <+: place) : ¬ IsCleared root place := by
  rintro ⟨rest, rfl, _⟩
  exact outside (List.prefix_append _ _)

theorem not_isCleared_self : ¬ IsCleared root root := by
  rintro ⟨rest, same, someName, _⟩
  exact someName (List.append_right_eq_self.mp same.symm)

theorem IsCleared.of_parent (someName : place ≠ []) (cleared : IsCleared root place.dropLast) : IsCleared root place := by
  obtain ⟨rest, parent, restNamed, saved⟩ := cleared
  refine ⟨rest ++ [place.getLast someName], ?_, by simp, ?_⟩
  · rw [← List.append_assoc, ← parent, List.dropLast_append_getLast]
  · cases rest with
    | nil => exact absurd rfl restNamed
    | cons name names => exact saved

theorem wellFormed_clearSaved (wellFormed : tree.WellFormed) (root : Location) : (clearSaved tree root).WellFormed where
  named row member := wellFormed.named row (List.mem_filter.mp member).1
  once := List.Nodup.sublist (List.filter_sublist.map Prod.fst) wellFormed.once
  parents row member := by
    obtain ⟨location, entry⟩ := row
    obtain ⟨old, kept⟩ := List.mem_filter.mp member
    rw [isDirectory_iff, entry?_clearSaved_of_kept, isDirectory_iff.mp (wellFormed.parents _ old)]
    intro cleared
    have gone := isCleared_iff.mp (cleared.of_parent (wellFormed.named _ old).1)
    dsimp only at kept gone
    rw [gone] at kept
    cases kept

end Clearing

/-! ## Copying over -/

theorem foldl_step_of_laid {root : Location} {tree tree' : Tree} {rows : List (Location × Entry)}
    (laid : Laid root tree rows tree') : rows.foldl (Copying.step root) { tree := tree } = { tree := tree' } := by
  induction laid with
  | nil => rfl
  | @cons tree tree' row rest vacant room later ih =>
      obtain ⟨relative, entry⟩ := row
      have noFile : tree.isFile (root ++ relative) = false := by rw [isFile, vacant]
      have noDirectory : tree.isDirectory (root ++ relative) = false := by rw [isDirectory, vacant]; rfl
      have step : Copying.step root { tree := tree } (relative, entry) = { tree := tree.put (root ++ relative) entry } := by
        cases entry with
        | directory => simp [Copying.step, noFile, noDirectory]
        | file content => simp [Copying.step, noDirectory]
      rw [List.foldl_cons, step, ih]

namespace SnapshotStore

variable {store : SnapshotStore} {later mid : World} {snapshot safety : Snapshot} {origin : Location} {saved : Tree}

/-! ## Going through a restoration -/

/-- A restoration that has saved the state before it: what it found, and the snapshot that it took. -/
structure Begun (store : SnapshotStore) (later mid : World) (snapshot safety : Snapshot) (origin : Location) : Prop where
  loaded : store.load later.tree snapshot.id = .ok snapshot
  origin_eq : snapshot.origin = .string origin.toString
  resolved : (Path.ofString origin.toString).resolve = origin
  created : store.create ⟨"/", origin⟩ ("pre-rollback:" ++ snapshot.id) later = (.ok safety, mid)

variable {requiredFiles requiredSymbols : List String}

theorem Begun.rollback_of_lost (begun : Begun store later mid snapshot safety origin) {fault : Fault}
    (lost : (clearSaved mid.tree origin).locate snapshot.treeDirectory = .error fault) :
    store.rollback snapshot.id none requiredFiles requiredSymbols later =
      (.error (.notRestored snapshot.id safety.directory.toString), { mid with tree := clearSaved mid.tree origin }) := by
  have path : snapshot.originPath = .ok (Path.ofString origin.toString) := by rw [Snapshot.originPath, begun.origin_eq]
  unfold rollback
  simp only [begun.loaded, path, bind, Except.bind, pure, Except.pure, begun.resolved, begun.created, lost]

theorem Begun.rollback_of_laid (begun : Begun store later mid snapshot safety origin) {source : Location} {tree : Tree}
    (found : (clearSaved mid.tree origin).locate snapshot.treeDirectory = .ok source)
    (isDirectory : (clearSaved mid.tree origin).isDirectory source = true)
    (laid : Laid origin (clearSaved mid.tree origin) ((clearSaved mid.tree origin).below source) tree) :
    store.rollback snapshot.id none requiredFiles requiredSymbols later =
      (.ok { id := snapshot.id
             target := origin
             safety := safety
             filesRestored := Snapshot.countFiles (Snapshot.savedEntries tree origin)
             checks := Check.all tree ⟨"/", origin⟩ requiredFiles requiredSymbols }, { mid with tree := tree }) := by
  have path : snapshot.originPath = .ok (Path.ofString origin.toString) := by rw [Snapshot.originPath, begun.origin_eq]
  unfold rollback
  simp only [begun.loaded, path, bind, Except.bind, pure, Except.pure, begun.resolved, begun.created, found,
    foldl_step_of_laid laid, isDirectory]
  rfl

def HasNext (store : SnapshotStore) (world : World) : Prop :=
  world.tree.entry? (store.nextPlace world) = none

/-- The store can be followed to when what is saved of a location is cleared away. -/
def Outlasts (store : SnapshotStore) (tree : Tree) (origin : Location) : Prop :=
  ∃ root, (clearSaved tree origin).locate store.root = .ok root

theorem Outlasts.followed {tree : Tree} (outlasts : Outlasts store tree origin) :
    tree.locate store.root = .ok store.root.resolve := by
  obtain ⟨root, found⟩ := outlasts
  obtain rfl := locate_eq_resolve found
  refine locate_of_directories (fun place held _ => ?_) found found
  by_cases cleared : IsCleared origin place
  · rw [entry?_clearSaved_of_cleared cleared] at held
    cases held
  · rwa [entry?_clearSaved_of_kept cleared] at held

theorem Holds.exists_begun (holds : Holds store later.tree snapshot origin saved) (wellFormed : later.tree.WellFormed)
    (isDirectory : later.tree.entry? origin = some .directory) (areNames : ∀ name ∈ origin, IsName name)
    (followed : later.tree.locate store.root = .ok store.root.resolve) (hasNext : store.HasNext later) :
    ∃ safety mid, Begun store later mid snapshot safety origin := by
  have noParent := wellFormed.no_parent_name isDirectory
  have resolved : (⟨"/", origin⟩ : Path).resolve = origin := resolve_of_no_parent noParent
  have isStore : later.tree.entry? store.root.resolve = some .directory := by
    refine wellFormed.isDirectory_above holds.copy (List.prefix_append _ _) fun same => ?_
    have names := List.append_right_eq_self.mp same.symm
    cases names
  obtain ⟨tree, created⟩ := @exists_create store later ⟨"/", origin⟩ wellFormed (by rwa [resolved])
    (by rw [resolved]; exact holds.outside) followed (wellFormed.no_file_above isStore) hasNext ("pre-rollback:" ++ snapshot.id)
  exact ⟨_, _, holds.load followed, holds.origin_eq, resolve_ofString_toString areNames noParent, created⟩

/-! ## What the snapshot of the state before comes to -/

theorem Holds.id_ne_next (holds : Holds store later.tree snapshot origin saved) (wellFormed : later.tree.WellFormed)
    (hasNext : store.HasNext later) : snapshot.id ≠ Snapshot.idOf later.now (later.attempts + 1) := by
  intro same
  have none := absent_below wellFormed hasNext [Snapshot.treeName]
  rw [nextPlace, ← same, List.append_assoc, List.singleton_append, holds.copy] at none
  cases none

theorem Holds.of_begun (holds : Holds store later.tree snapshot origin saved) (wellFormed : later.tree.WellFormed)
    (hasNext : store.HasNext later) (begun : Begun store later mid snapshot safety origin) :
    Holds store mid.tree snapshot origin saved := by
  have taken := taken_of_create wellFormed begun.created
  have safetyId : safety.id = Snapshot.idOf later.now (later.attempts + 1) := by
    rw [(exists_of_create wellFormed begun.created).2.2.1, drawn]
  have differs : snapshot.id ≠ safety.id := by
    rw [safetyId]
    exact holds.id_ne_next wellFormed hasNext
  refine holds.of_same wellFormed taken.wellFormed fun rest => ?_
  rw [entry?_of_create wellFormed begun.created, if_neg]
  · rw [taken.resolved, List.append_assoc, List.prefix_append_right_inj, List.singleton_append, List.cons_prefix_cons]
    exact fun within => differs within.1
  · rw [taken.resolved, List.append_assoc, List.prefix_append_right_inj, List.singleton_append, List.cons_prefix_cons]
    exact fun within => differs within.1.symm

theorem Outlasts.of_begun (outlasts : Outlasts store later.tree origin) (wellFormed : later.tree.WellFormed)
    (begun : Begun store later mid snapshot safety origin) : Outlasts store mid.tree origin := by
  obtain ⟨root, found⟩ := outlasts
  refine ⟨root, locate_of_directories (fun place held _ => ?_) found found⟩
  by_cases cleared : IsCleared origin place
  · rw [entry?_clearSaved_of_cleared cleared] at held
    cases held
  · rw [entry?_clearSaved_of_kept cleared] at held ⊢
    exact entry_of_create wellFormed begun.created held

/-! ## Bringing back -/

structure Replaced (tree tree' : Tree) (origin : Location) (saved : Tree) : Prop where
  saved_eq : ∀ place, place ≠ [] → Snapshot.isSaved place = true →
    tree'.entry? (origin ++ place) = saved.entry? (origin ++ place)
  kept_eq : ∀ place, ¬ IsCleared origin place → tree'.entry? place = tree.entry? place
  wellFormed : tree'.WellFormed

theorem exists_replaced {tree : Tree} (wellFormed : tree.WellFormed) (savedWhole : saved.WellFormed)
    (isDirectory : tree.entry? origin = some .directory) :
    ∃ tree', Laid origin (clearSaved tree origin) (Snapshot.savedEntries saved origin) tree' ∧
      Replaced tree tree' origin saved := by
  have clearedWhole := wellFormed_clearSaved wellFormed origin
  have noParent := wellFormed.no_parent_name isDirectory
  have stillDirectory : Tree.entry? (clearSaved tree origin) origin = some .directory := by
    rw [entry?_clearSaved_of_kept not_isCleared_self, isDirectory]
  obtain ⟨tree', laid⟩ := @Snapshot.exists_laid_savedEntries saved origin (clearSaved tree origin) origin savedWhole
    stillDirectory fun place someName isSaved => entry?_clearSaved_of_cleared ⟨place, rfl, someName, isSaved⟩
  have listed : ∀ row ∈ Snapshot.savedEntries saved origin,
      row.1 ≠ [] ∧ Snapshot.isSaved row.1 = true ∧ saved.entry? (origin ++ row.1) = some row.2 :=
    fun row member => (Snapshot.mem_savedEntries_iff savedWhole).mp (show (row.1, row.2) ∈ _ from member)
  have names : ∀ row ∈ Snapshot.savedEntries saved origin, ".." ∉ origin ++ row.1 :=
    fun row member => savedWhole.no_parent_name (listed row member).2.2
  have copy := copied_of_copyInto (Snapshot.nodup_savedEntries savedWhole origin) (laid.copyInto clearedWhole names)
  refine ⟨tree', laid, fun place someName isSaved => ?_, fun place kept => ?_, copy.wellFormed clearedWhole names⟩
  · cases held : saved.entry? (origin ++ place) with
    | some entry =>
        exact copy.own (place, entry) ((Snapshot.mem_savedEntries_iff savedWhole).mpr ⟨someName, isSaved, held⟩)
    | none =>
        refine copy.absent _ (fun row member onWay => ?_) (entry?_clearSaved_of_cleared ⟨place, rfl, someName, isSaved⟩)
        have within := (List.prefix_append_right_inj _).mp onWay
        obtain ⟨_, other, present⟩ := Snapshot.exists_saved_above savedWhole member within someName
        cases held.symm.trans present
  · have before : Tree.entry? (clearSaved tree origin) place = tree.entry? place := entry?_clearSaved_of_kept kept
    rw [← before]
    cases held : Tree.entry? (clearSaved tree origin) place with
    | some entry =>
        refine copy.stays place entry (fun row member same => kept ?_) held
        exact ⟨row.1, same, (listed row member).1, (listed row member).2.1⟩
    | none =>
        refine copy.absent place (fun row member onWay => ?_) held
        rcases List.prefix_or_prefix_of_prefix onWay (List.prefix_append origin row.1) with above | ⟨rest, rfl⟩
        · by_cases here : place = origin
          · rw [here, stillDirectory] at held
            cases held
          · cases held.symm.trans (clearedWhole.isDirectory_above stillDirectory above here)
        · -- a place on the way to what is saved is cleared
          have within := (List.prefix_append_right_inj _).mp onWay
          by_cases direct : rest = []
          · rw [direct, List.append_nil] at held
            cases held.symm.trans stillDirectory
          · exact kept ⟨rest, rfl, direct, Snapshot.isSaved_of_within within direct (listed row member).2.1⟩

theorem Holds.locate_treeDirectory {tree tree' : Tree} (holds : Holds store tree snapshot origin saved) {root : Location}
    (found : tree'.locate store.root = .ok root) :
    tree'.locate snapshot.treeDirectory = .ok (store.root.resolve ++ [snapshot.id, Snapshot.treeName]) :=
  holds.locate_inside found (by decide)

theorem Holds.not_isCleared {tree : Tree} (holds : Holds store tree snapshot origin saved) (rest : Location) :
    ¬ IsCleared origin (store.root.resolve ++ [snapshot.id] ++ rest) :=
  not_isCleared_of_outside (holds.apart.not_prefix (List.prefix_refl origin) rest)

/-- A snapshot is restored if the store outlasts the clearing. -/
theorem Holds.exists_restored (holds : Holds store later.tree snapshot origin saved) (wellFormed : later.tree.WellFormed)
    (isDirectory : later.tree.entry? origin = some .directory) (hasNext : store.HasNext later)
    (begun : Begun store later mid snapshot safety origin) (outlasts : Outlasts store later.tree origin)
    (requiredFiles requiredSymbols : List String) :
    ∃ tree, Replaced mid.tree tree origin saved ∧
      store.rollback snapshot.id none requiredFiles requiredSymbols later =
        (.ok { id := snapshot.id
               target := origin
               safety := safety
               filesRestored := Snapshot.countFiles (Snapshot.savedEntries tree origin)
               checks := Check.all tree ⟨"/", origin⟩ requiredFiles requiredSymbols }, { mid with tree := tree }) := by
  have taken := taken_of_create wellFormed begun.created
  have midHolds := holds.of_begun wellFormed hasNext begun
  have midDirectory := entry_of_create wellFormed begun.created isDirectory
  obtain ⟨root, found⟩ := outlasts.of_begun wellFormed begun
  obtain ⟨tree, laid, replaced⟩ := exists_replaced taken.wellFormed midHolds.wellFormed midDirectory
  have apart : ∀ rest, ¬ IsCleared origin (store.root.resolve ++ [snapshot.id, Snapshot.treeName] ++ rest) := by
    intro rest
    have kept := holds.not_isCleared ([Snapshot.treeName] ++ rest)
    simpa only [List.append_assoc, List.cons_append, List.nil_append] using kept
  refine ⟨tree, replaced, begun.rollback_of_laid (holds.locate_treeDirectory found) ?_ ?_⟩
  · have here := apart []
    rw [List.append_nil] at here
    rw [isDirectory_iff, entry?_clearSaved_of_kept here, midHolds.copy]
  · rw [below_congr taken.wellFormed (wellFormed_clearSaved taken.wellFormed origin) fun place _ =>
      entry?_clearSaved_of_kept (apart place), midHolds.copied]
    exact laid

/-! ## Losing the store -/

/-- A store that cannot be followed to has no snapshots, and nothing is changed. -/
theorem Holds.rollback_of_unfollowed (holds : Holds store later.tree snapshot origin saved) {fault : Fault}
    (unfollowed : later.tree.locate store.root = .error fault) (requiredFiles requiredSymbols : List String) :
    store.rollback snapshot.id none requiredFiles requiredSymbols later = (.error (.notFound snapshot.id), later) := by
  have metadataName : Snapshot.metadataName ≠ ".." := by decide
  have joined : snapshot.directory.join ⟨"", [Snapshot.metadataName]⟩ =
      store.root.join ⟨"", [snapshot.id, Snapshot.metadataName]⟩ := by
    simp [holds.directory, Path.join]
  have noFile : later.tree.isFileAt (snapshot.directory.join ⟨"", [Snapshot.metadataName]⟩) = false := by
    rw [isFileAt, joined, Tree.locate_join _ _ (by simp [Ne.symm holds.noParent, Ne.symm metadataName]), unfollowed]
    rfl
  have notFound : store.load later.tree snapshot.id = .error (.notFound snapshot.id) := by
    rw [SnapshotStore.load, holds.found, noFile]
    rfl
  unfold rollback
  simp only [notFound, bind, Except.bind]

/-- If the store does not outlast the clearing, what was saved is taken away and nothing is brought back. -/
theorem Holds.rollback_of_lost (holds : Holds store later.tree snapshot origin saved)
    (followed : later.tree.locate store.root = .ok store.root.resolve)
    (begun : Begun store later mid snapshot safety origin) (lost : ¬ Outlasts store later.tree origin)
    (requiredFiles requiredSymbols : List String) :
    store.rollback snapshot.id none requiredFiles requiredSymbols later =
      (.error (.notRestored snapshot.id safety.directory.toString), { mid with tree := clearSaved mid.tree origin }) := by
  have treeName : Snapshot.treeName ≠ ".." := by decide
  have joined : snapshot.treeDirectory = store.root.join ⟨"", [snapshot.id, Snapshot.treeName]⟩ := by
    simp [Snapshot.treeDirectory, holds.directory, Path.join]
  have noParents : ".." ∉ [snapshot.id, Snapshot.treeName] := by simp [Ne.symm holds.noParent, Ne.symm treeName]
  cases found : (clearSaved mid.tree origin).locate store.root with
  | error fault =>
      have copyLost : (clearSaved mid.tree origin).locate snapshot.treeDirectory = .error fault := by
        rw [joined, Tree.locate_join _ _ noParents, found]
        rfl
      exact begun.rollback_of_lost copyLost
  | ok root =>
      refine absurd ⟨_, locate_of_directories (fun place held held' => ?_) followed found⟩ lost
      by_cases cleared : IsCleared origin place
      · rw [entry?_clearSaved_of_cleared cleared] at held'
        cases held'
      · rw [entry?_clearSaved_of_kept cleared, held]

/-! ## The whole restoration -/

/-- Changes below a location that leave it a directory. -/
structure ChangedBelow (tree later : Tree) (origin : Location) : Prop where
  wellFormed : later.WellFormed
  isDirectory : later.entry? origin = some .directory
  outside_eq : ∀ place, ¬ origin <+: place → later.entry? place = tree.entry? place

theorem Holds.of_changed {tree tree' : Tree} (holds : Holds store tree snapshot origin saved) (wellFormed : tree.WellFormed)
    (changed : ChangedBelow tree tree' origin) : Holds store tree' snapshot origin saved :=
  holds.of_same wellFormed changed.wellFormed fun rest =>
    changed.outside_eq _ (holds.apart.not_prefix (List.prefix_refl origin) rest)

theorem not_isCleared_of_preserved {place : Location} (preserved : Snapshot.isSaved place = false) :
    ¬ IsCleared origin (origin ++ place) := by
  rintro ⟨rest, same, _, isSaved⟩
  rw [List.append_cancel_left same, isSaved] at preserved
  cases preserved

/-- The snapshot of the state before a restoration stands after it, and the store outlasts clearing as before. -/
theorem Begun.undoable (begun : Begun store later mid snapshot safety origin) (wellFormed : later.tree.WellFormed)
    (resolved : (⟨"/", origin⟩ : Path).resolve = origin) (countable : Countable later.tree origin)
    (outlasts : Outlasts store later.tree origin) {tree : Tree} (replaced : Replaced mid.tree tree origin saved) :
    Holds store tree safety origin later.tree ∧ Outlasts store tree origin := by
  have taken := taken_of_create wellFormed begun.created
  have holds := holds_of_create wellFormed (by rwa [resolved]) begun.created
  rw [resolved] at holds
  refine ⟨holds.of_same taken.wellFormed replaced.wellFormed fun rest => replaced.kept_eq _ (holds.not_isCleared rest), ?_⟩
  obtain ⟨root, found⟩ := outlasts.of_begun wellFormed begun
  refine ⟨root, locate_of_directories (fun place held _ => ?_) found found⟩
  by_cases cleared : IsCleared origin place
  · rw [entry?_clearSaved_of_cleared cleared] at held
    cases held
  · rwa [entry?_clearSaved_of_kept cleared, replaced.kept_eq place cleared, ← entry?_clearSaved_of_kept cleared]

/-- What a restoration comes to: everything that was saved is as it was, everything else at the location is as it is, the
number of files is that of the snapshot, and the snapshot of the state before brings that state back. -/
structure Restored (store : SnapshotStore) (saved : Tree) (later after : World) (origin : Location) (snapshot : Snapshot)
    (restoration : Restoration) : Prop where
  saved_eq : ∀ place, place ≠ [] → Snapshot.isSaved place = true →
    after.tree.entry? (origin ++ place) = saved.entry? (origin ++ place)
  preserved_eq : ∀ place, place ≠ [] → Snapshot.isSaved place = false →
    after.tree.entry? (origin ++ place) = later.tree.entry? (origin ++ place)
  count_eq : snapshot.fileCount = .int restoration.filesRestored
  undone : ∀ next : World, next.tree = after.tree → store.HasNext next → ∀ requiredFiles requiredSymbols,
    ∃ undoing final, store.rollback restoration.safety.id none requiredFiles requiredSymbols next = (.ok undoing, final) ∧
      ∀ place, origin <+: place → final.tree.entry? place = later.tree.entry? place

theorem Begun.kept_eq (begun : Begun store later mid snapshot safety origin) (wellFormed : later.tree.WellFormed)
    (resolved : (⟨"/", origin⟩ : Path).resolve = origin) {tree : Tree} (replaced : Replaced mid.tree tree origin saved)
    {place : Location} (inside : origin <+: place) (kept : ¬ IsCleared origin place) :
    tree.entry? place = later.tree.entry? place := by
  rw [replaced.kept_eq place kept]
  exact (taken_of_create wellFormed begun.created).source_eq place (by rwa [resolved])

/-- The restoration of a snapshot that stands in a store that outlasts the clearing. -/
theorem Holds.exists_whole_restoration (holds : Holds store later.tree snapshot origin saved)
    (wellFormed : later.tree.WellFormed) (isDirectory : later.tree.entry? origin = some .directory)
    (areNames : ∀ name ∈ origin, IsName name) (hasNext : store.HasNext later) (countable : Countable later.tree origin)
    (outlasts : Outlasts store later.tree origin) (requiredFiles requiredSymbols : List String) :
    ∃ restoration after, store.rollback snapshot.id none requiredFiles requiredSymbols later = (.ok restoration, after) ∧
      Restored store saved later after origin snapshot restoration := by
  have resolved : (⟨"/", origin⟩ : Path).resolve = origin :=
    resolve_of_no_parent (wellFormed.no_parent_name isDirectory)
  obtain ⟨safety, mid, begun⟩ := holds.exists_begun wellFormed isDirectory areNames outlasts.followed hasNext
  obtain ⟨tree, replaced, restored⟩ := holds.exists_restored wellFormed isDirectory hasNext begun outlasts
    requiredFiles requiredSymbols
  refine ⟨_, _, restored, replaced.saved_eq, fun place _ preserved => ?_, ?_, ?_⟩
  · exact begun.kept_eq wellFormed resolved replaced (List.prefix_append _ _) (not_isCleared_of_preserved preserved)
  · rw [holds.count_eq, Snapshot.savedEntries_congr holds.wellFormed replaced.wellFormed replaced.saved_eq]
  · rintro ⟨nextTree, now, attempts⟩ same nextHasNext requiredFiles requiredSymbols
    obtain rfl : tree = nextTree := same.symm
    obtain ⟨safetyHolds, stillOutlasts⟩ := begun.undoable wellFormed resolved countable outlasts replaced
    have stillDirectory : tree.entry? origin = some .directory := by
      rw [begun.kept_eq wellFormed resolved replaced (List.prefix_refl _) not_isCleared_self, isDirectory]
    obtain ⟨second, mid', begun'⟩ := safetyHolds.exists_begun replaced.wellFormed stillDirectory areNames
      stillOutlasts.followed nextHasNext
    obtain ⟨tree', replaced', undone⟩ := safetyHolds.exists_restored replaced.wellFormed stillDirectory nextHasNext begun'
      stillOutlasts requiredFiles requiredSymbols
    refine ⟨_, _, undone, ?_⟩
    rintro _ ⟨place, rfl⟩
    by_cases cleared : IsCleared origin (origin ++ place)
    · obtain ⟨rest, same, someName, isSaved⟩ := cleared
      rw [same]
      exact replaced'.saved_eq rest someName isSaved
    · have inside : origin <+: origin ++ place := List.prefix_append _ _
      exact (begun'.kept_eq replaced.wellFormed resolved replaced' inside cleared).trans
        (begun.kept_eq wellFormed resolved replaced inside cleared)

variable {world taking : World} {text purpose : String}

/-- A snapshot is restored over the directory that it was taken of just if the store outlasts clearing the directory; if it
is, the restoration is whole and can be undone; if it is not, the directory is left without what was saved. -/
theorem rollback_restores_iff_outlasts (wellFormed : world.tree.WellFormed)
    (created : store.create (Path.ofString text) purpose world = (.ok snapshot, taking))
    (changed : ChangedBelow taking.tree later.tree (Path.ofString text).resolve)
    (countable : Countable world.tree (Path.ofString text).resolve)
    (laterCountable : Countable later.tree (Path.ofString text).resolve) (hasNext : store.HasNext later)
    (requiredFiles requiredSymbols : List String) :
    ((∃ restoration after,
        store.rollback snapshot.id none requiredFiles requiredSymbols later = (.ok restoration, after)) ↔
      Outlasts store later.tree (Path.ofString text).resolve) ∧
    (∀ restoration after,
      store.rollback snapshot.id none requiredFiles requiredSymbols later = (.ok restoration, after) →
        Restored store world.tree later after (Path.ofString text).resolve snapshot restoration) ∧
    ∀ root, later.tree.locate store.root = .ok root → ¬ Outlasts store later.tree (Path.ofString text).resolve →
      ∀ result after, store.rollback snapshot.id none requiredFiles requiredSymbols later = (result, after) →
        ∀ place, IsCleared (Path.ofString text).resolve place → after.tree.entry? place = none := by
  have taken := taken_of_create wellFormed created
  have areNames : ∀ name ∈ (Path.ofString text).resolve, IsName name := fun _ => isName_of_mem_resolve_ofString
  have holds := (holds_of_create wellFormed countable created).of_changed taken.wellFormed changed
  generalize (Path.ofString text).resolve = origin at *
  have restores : Outlasts store later.tree origin → ∃ restoration after,
      store.rollback snapshot.id none requiredFiles requiredSymbols later = (.ok restoration, after) ∧
        Restored store world.tree later after origin snapshot restoration := fun outlasts =>
    holds.exists_whole_restoration changed.wellFormed changed.isDirectory areNames hasNext laterCountable outlasts
      requiredFiles requiredSymbols
  have loses : ¬ Outlasts store later.tree origin →
      (∃ error after, store.rollback snapshot.id none requiredFiles requiredSymbols later = (.error error, after)) ∧
      ∀ root, later.tree.locate store.root = .ok root → ∀ result after,
        store.rollback snapshot.id none requiredFiles requiredSymbols later = (result, after) →
          ∀ place, IsCleared origin place → after.tree.entry? place = none := by
    intro lost
    cases followed : later.tree.locate store.root with
    | error fault =>
        exact ⟨⟨_, _, holds.rollback_of_unfollowed followed requiredFiles requiredSymbols⟩, fun _ same => by cases same⟩
    | ok root =>
        obtain rfl := locate_eq_resolve followed
        obtain ⟨safety, mid, begun⟩ := holds.exists_begun changed.wellFormed changed.isDirectory areNames followed hasNext
        have gone := holds.rollback_of_lost followed begun lost requiredFiles requiredSymbols
        refine ⟨⟨_, _, gone⟩, fun _ _ result after done place cleared => ?_⟩
        cases gone.symm.trans done
        exact entry?_clearSaved_of_cleared cleared
  refine ⟨⟨?_, fun outlasts => ?_⟩, fun restoration after done => ?_, fun root followed lost => (loses lost).2 root followed⟩
  · rintro ⟨restoration, after, done⟩
    by_contra lost
    obtain ⟨⟨error, after', failed⟩, _⟩ := loses lost
    cases done.symm.trans failed
  · obtain ⟨restoration, after, done, _⟩ := restores outlasts
    exact ⟨restoration, after, done⟩
  · by_cases outlasts : Outlasts store later.tree origin
    · obtain ⟨restoration', after', done', restored⟩ := restores outlasts
      cases done.symm.trans done'
      exact restored
    · obtain ⟨⟨error, after', failed⟩, _⟩ := loses outlasts
      cases done.symm.trans failed

/-! ## A store behind the source -/

theorem outlasts_of_no_parent (noParent : ".." ∉ store.root.names) (tree : Tree) (origin : Location) :
    Outlasts store tree origin :=
  ⟨_, locate_of_no_parent _ noParent⟩

/-- A tree with few entries has few to save. -/
theorem countable_of_rows {tree : Tree} (few : tree.rows.length < 10) (origin : Location) : Countable tree origin := by
  have saved : (Snapshot.savedEntries tree origin).length ≤ tree.rows.length := by
    refine (List.length_filter_le _ _).trans ?_
    rw [below, List.length_mergeSort]
    exact List.length_filterMap_le _ _
  have more : 10 ^ 1 ≤ 10 ^ JsonValue.digitLimit := Nat.pow_le_pow_right (by decide) (by decide)
  exact Nat.lt_of_le_of_lt (List.countP_le_length.trans saved) (Nat.lt_of_lt_of_le few more)

/-- A source with a directory, and a place for a store beside it. -/
def smallWorld : World where
  tree := ⟨[(["src"], .directory), (["src", "sub"], .directory), (["src", "sub", "a.gs"], .file [120]),
    (["src", "b"], .file [121]), (["home"], .directory)]⟩
  now := ⟨2026, 1, 2, 3, 4, 5, 0⟩

theorem wellFormed_smallWorld : smallWorld.tree.WellFormed where
  named := by decide
  once := by decide
  parents := by decide

theorem resolve_src : (Path.ofString "src").resolve = ["src"] := by
  have isName : IsName "src" := ⟨by decide, by decide, by decide⟩
  rw [ofString_of_isName isName]
  rfl

theorem exists_create_smallWorld (resolved : store.root.resolve = ["home"])
    (followed : smallWorld.tree.locate store.root = .ok ["home"]) :
    ∃ tree, store.create (Path.ofString "src") "" smallWorld =
      (.ok (store.drawn ["src"] "" smallWorld), { smallWorld with tree := tree, attempts := 1 }) := by
  have vacant : smallWorld.tree.entry? (store.nextPlace smallWorld) = none := by
    rw [nextPlace, resolved]
    decide
  have created := @exists_create store smallWorld (Path.ofString "src") wellFormed_smallWorld (by rw [resolve_src]; rfl)
    (by rw [resolve_src, resolved]; decide) (by rw [followed, resolved])
    (wellFormed_smallWorld.no_file_above (by rw [resolved]; rfl)) vacant ""
  rwa [resolve_src] at created

theorem hasNext_of_create_smallWorld {tree : Tree} (resolved : store.root.resolve = ["home"])
    (created : store.create (Path.ofString "src") "" smallWorld =
      (.ok (store.drawn ["src"] "" smallWorld), { smallWorld with tree := tree, attempts := 1 })) :
    store.HasNext { smallWorld with tree := tree, attempts := 1 } := by
  have taken := taken_of_create wellFormed_smallWorld created
  have place : (store.drawn ["src"] "" smallWorld).directory.resolve = ["home", Snapshot.idOf smallWorld.now 1] := by
    rw [taken.resolved, resolved]
    rfl
  rw [HasNext, nextPlace, resolved]
  dsimp only
  rw [entry?_of_create wellFormed_smallWorld created, place]
  · decide
  · rw [place]
    decide

/-- A store beside the source: a file that is deleted after the snapshot was taken is back after it is restored. -/
theorem storeBesideSource_restores_deleted : ∃ (store : SnapshotStore) (taking : World) (snapshot : Snapshot),
    store.create (Path.ofString "src") "" smallWorld = (.ok snapshot, taking) ∧ ∃ restoration after,
      store.rollback snapshot.id none [] [] { taking with tree := taking.tree.erase ["src", "b"] } = (.ok restoration, after) ∧
      after.tree.entry? ["src", "b"] = some (.file [121]) := by
  have noParent : ".." ∉ (⟨⟨"", ["home"]⟩⟩ : SnapshotStore).root.names := by decide
  obtain ⟨tree, created⟩ := @exists_create_smallWorld ⟨⟨"", ["home"]⟩⟩ rfl rfl
  have taken := taken_of_create wellFormed_smallWorld created
  have someName : ["src", "b"] ≠ [] := by decide
  have isDirectory : tree.entry? ["src"] = some .directory := by
    have inSource : (Path.ofString "src").resolve <+: ["src"] := resolve_src ▸ List.prefix_refl _
    exact taken.source_eq ["src"] inSource
  have outsideB : ¬ ["src", "b"] <+: ["src"] := by decide
  have changed : ChangedBelow tree (tree.erase ["src", "b"]) (Path.ofString "src").resolve := by
    rw [resolve_src]
    refine ⟨taken.wellFormed.erase someName, ?_, fun place outside => ?_⟩
    · rw [entry?_erase someName, if_neg outsideB, isDirectory]
    · rw [entry?_erase someName, if_neg]
      exact fun below => outside ((List.prefix_append ["src"] ["b"]).trans below)
  have countable : Countable smallWorld.tree (Path.ofString "src").resolve := countable_of_rows (by decide) _
  have laterCountable : Countable (tree.erase ["src", "b"]) (Path.ofString "src").resolve := by
    have same := @Snapshot.savedEntries_congr (smallWorld.tree.erase ["src", "b"]) (Path.ofString "src").resolve
      (tree.erase ["src", "b"]) (wellFormed_smallWorld.erase someName) (taken.wellFormed.erase someName)
      fun place _ _ => by
        rw [entry?_erase someName, entry?_erase someName]
        split
        · rfl
        · exact taken.source_eq _ (List.prefix_append _ _)
    rw [Countable, same]
    exact countable_of_rows (by decide) _
  have hasNext : (⟨⟨"", ["home"]⟩⟩ : SnapshotStore).HasNext
      { smallWorld with tree := tree.erase ["src", "b"], attempts := 1 } := by
    have before := hasNext_of_create_smallWorld rfl created
    rw [HasNext] at before ⊢
    dsimp only at before ⊢
    rw [entry?_erase someName]
    split
    · rfl
    · exact before
  obtain ⟨restores, whole, _⟩ := rollback_restores_iff_outlasts wellFormed_smallWorld created changed countable
    laterCountable hasNext [] []
  obtain ⟨restoration, after, done⟩ := restores.mpr (outlasts_of_no_parent noParent _ _)
  refine ⟨_, _, _, created, restoration, after, done, ?_⟩
  have back := (whole restoration after done).saved_eq ["b"] (by decide) (by decide)
  rw [resolve_src] at back
  exact back

/-- A store that is reached through a directory of the source is out of reach when the source is cleared: right after it is
taken, the snapshot is not restored, and the files of the source are gone. -/
theorem storeThroughSource_loses_source : ∃ (store : SnapshotStore) (taking : World) (snapshot : Snapshot),
    store.create (Path.ofString "src") "" smallWorld = (.ok snapshot, taking) ∧
      smallWorld.tree.entry? ["src", "b"] = some (.file [121]) ∧ ∃ error after,
        store.rollback snapshot.id none [] [] taking = (.error error, after) ∧ after.tree.entry? ["src", "b"] = none := by
  have throughSource : smallWorld.tree.locate ⟨"", ["src", "sub", "..", "..", "home"]⟩ = .ok ["home"] := rfl
  obtain ⟨tree, created⟩ := @exists_create_smallWorld ⟨⟨"", ["src", "sub", "..", "..", "home"]⟩⟩ rfl throughSource
  have hasNext := hasNext_of_create_smallWorld rfl created
  have taken := taken_of_create wellFormed_smallWorld created
  have holds := holds_of_create wellFormed_smallWorld (countable_of_rows (by decide) _) created
  rw [resolve_src] at taken holds
  have isDirectory : tree.entry? ["src"] = some .directory := taken.source_eq ["src"] (List.prefix_refl _)
  have areNames : ∀ name ∈ ["src"], IsName name := by
    intro name member
    rw [List.mem_singleton.mp member]
    exact ⟨by decide, by decide, by decide⟩
  have followed : tree.locate ⟨"", ["src", "sub", "..", "..", "home"]⟩ = .ok ["home"] :=
    locate_of_directories (fun _ held _ => entry_of_create wellFormed_smallWorld created held) throughSource throughSource
  obtain ⟨safety, mid, begun⟩ := holds.exists_begun taken.wellFormed isDirectory areNames followed hasNext
  have lost : ¬ Outlasts ⟨⟨"", ["src", "sub", "..", "..", "home"]⟩⟩ tree ["src"] := by
    rintro ⟨root, found⟩
    have gone : Tree.entry? (clearSaved tree ["src"]) ["src", "sub"] = none :=
      entry?_clearSaved_of_cleared ⟨["sub"], rfl, by decide, by decide⟩
    simp [locate, locateFrom, gone] at found
  have failed := holds.rollback_of_lost followed begun lost [] []
  exact ⟨_, _, _, created, rfl, _, _, failed, entry?_clearSaved_of_cleared ⟨["b"], rfl, by decide, by decide⟩⟩

end SnapshotStore
end Deadwood
