import Deadwood.Proofs.CleanupEnds
import Deadwood.Proofs.ClockedRuns
import Deadwood.Proofs.LiveCode
import Deadwood.Proofs.MomentTexts
import Deadwood.Proofs.Rehearsal

/-!
# How long a snapshot lasts

An automatic cleanup removes old snapshots at its end. The snapshot that it has taken itself is one of those that it looks at:
it stays as long as it is no older than the days for which snapshots are kept. No number of days is too small, so that a run
that takes some time may end without the snapshot that its records name.
-/

set_option autoImplicit false
namespace Deadwood

open Files

/-! ## Trees that lose something -/

namespace Files.Tree

/-- Some of a tree is gone, and nothing is new. -/
def Loses (tree tree' : Tree) : Prop :=
  ∀ place, tree'.entry? place = tree.entry? place ∨ tree'.entry? place = none

variable {tree tree' : Tree}

theorem loses_foldl_erase {erased : List Location} (named : ∀ location ∈ erased, location ≠ []) (tree : Tree) :
    Loses tree (erased.foldl Tree.erase tree) := by
  intro place
  rw [entry?_foldl_erase named]
  split
  · exact Or.inr rfl
  · exact Or.inl rfl

theorem Loses.absent (loses : Loses tree tree') {place : Location} (absent : tree.entry? place = none) :
    tree'.entry? place = none := by
  rcases loses place with same | gone
  · rw [same, absent]
  · exact gone

/-- A way that leads on in what is left has led on before. -/
theorem Loses.located (loses : Loses tree tree') {path : Path} {location : Location}
    (found : tree'.locate path = .ok location) : tree.locate path = .ok location := by
  refine Tree.locate_of_directories (fun place directory _ => ?_) found found
  rcases loses place with same | gone
  · rw [← same, directory]
  · cases gone.symm.trans directory

end Files.Tree

namespace SnapshotStore

open Tree

variable {store : SnapshotStore} {tree tree' : Tree} {snapshot : Snapshot} {origin : Location} {saved : Tree}

/-! ## Finding what stands -/

theorem exists_location_of_load (noParent : snapshot.id ≠ "..") (named : store.directory snapshot.id =
    store.root.join ⟨"", [snapshot.id]⟩) {loaded : Snapshot} (found : store.load tree snapshot.id = .ok loaded) :
    tree.locate store.root = .ok store.root.resolve ∧
      tree.isFile (store.root.resolve ++ [snapshot.id, Snapshot.metadataName]) = true := by
  have joined : (store.directory snapshot.id).join ⟨"", [Snapshot.metadataName]⟩ =
      store.root.join ⟨"", [snapshot.id, Snapshot.metadataName]⟩ := by
    rw [named]
    simp [Path.join]
  have noParents : ".." ∉ [snapshot.id, Snapshot.metadataName] := by
    simp [Ne.symm noParent, show ".." ≠ Snapshot.metadataName by decide]
  have isFile : tree.isFileAt (store.root.join ⟨"", [snapshot.id, Snapshot.metadataName]⟩) = true := by
    unfold load at found
    dsimp only at found
    rw [joined] at found
    by_contra noFile
    rw [Bool.not_eq_true] at noFile
    simp only [noFile, Bool.not_false, Bool.true_or, if_true] at found
    cases found
  rw [isFileAt, tree.locate_join _ noParents] at isFile
  cases located : tree.locate store.root with
  | error fault =>
      rw [located] at isFile
      cases isFile
  | ok location =>
      rw [located] at isFile
      rw [Tree.locate_eq_resolve located] at isFile ⊢
      exact ⟨rfl, isFile⟩

theorem Holds.isDirectory (holds : Holds store tree snapshot origin saved) (wellFormed : tree.WellFormed) :
    tree.isDirectory (store.root.resolve ++ [snapshot.id]) = true := by
  refine isDirectory_of_metadata wellFormed ?_
  rw [Tree.isFile, holds.metadata]

/-- A snapshot that stands is listed where the store can be followed to. -/
theorem Holds.mem_list (holds : Holds store tree snapshot origin saved) (wellFormed : tree.WellFormed)
    (followed : tree.locate store.root = .ok store.root.resolve) {snapshots : List Snapshot}
    (listed : store.list tree = .ok snapshots) : snapshot ∈ snapshots := by
  have metadata : tree.isFile (store.root.resolve ++ [snapshot.id, Snapshot.metadataName]) = true := by
    rw [isFile, holds.metadata]
  have directory := holds.isDirectory wellFormed
  have root : tree.isDirectory store.root.resolve = true := by
    rw [isDirectory_iff] at directory ⊢
    exact wellFormed.isDirectory_above directory (List.prefix_append _ _) (by simp)
  unfold list at listed
  rw [followed] at listed
  simp only [root, Bool.not_true, Bool.false_eq_true, if_false, bind, Except.bind] at listed
  split at listed
  · cases listed
  · rename_i found readable
    split at listed
    · cases listed
    · obtain rfl := Except.ok.inj listed
      rw [List.mem_mergeSort]
      refine (mem_iff_exists_name readable snapshot).mpr ⟨snapshot.id, List.mem_filter.mpr ⟨?_, metadata⟩, ?_⟩
      · refine List.mem_filterMap.mpr ⟨([snapshot.id], .directory), ?_, rfl⟩
        exact wellFormed.mem_below_iff.mpr ⟨by simp, isDirectory_iff.mp directory⟩
      · rw [← holds.directory]
        exact holds.read followed

theorem exists_gathered {names : List String}
    (readable : ∀ name ∈ names, ∃ snapshot, Snapshot.read tree (store.root.join ⟨"", [name]⟩) = .ok snapshot) :
    ∃ found, names.foldrM (fun name found =>
      match Snapshot.read tree (store.root.join ⟨"", [name]⟩) with
      | .ok snapshot => Except.ok (snapshot :: found)
      | .error (.unreadable _) => .ok found
      | .error error => .error error) [] = .ok found := by
  induction names with
  | nil => exact ⟨[], rfl⟩
  | cons name rest inductionHypothesis =>
      obtain ⟨others, gathered⟩ := inductionHypothesis fun other member => readable other (List.mem_cons_of_mem name member)
      obtain ⟨snapshot, read⟩ := readable name List.mem_cons_self
      refine ⟨snapshot :: others, ?_⟩
      rw [List.foldrM_cons, gathered]
      simp only [bind, Except.bind, read]

/-- Snapshots that can be read, each with a text for its time, can be listed. -/
theorem exists_list_eq_ok (readable : ∀ name, tree.isFile (store.root.resolve ++ [name, Snapshot.metadataName]) = true →
      ∃ snapshot text, Snapshot.read tree (store.root.join ⟨"", [name]⟩) = .ok snapshot ∧ snapshot.createdAt = .string text) :
    ∃ snapshots, store.list tree = .ok snapshots := by
  unfold list
  split
  · exact ⟨[], rfl⟩
  · rename_i location located
    obtain rfl := Tree.locate_eq_resolve located
    split
    · exact ⟨[], rfl⟩
    · have each : ∀ name ∈ (tree.childNames store.root.resolve).filter fun name =>
          tree.isFile (store.root.resolve ++ [name, Snapshot.metadataName]), ∃ snapshot text,
            Snapshot.read tree (store.root.join ⟨"", [name]⟩) = .ok snapshot ∧ snapshot.createdAt = .string text :=
        fun name member => readable name (List.mem_filter.mp member).2
      obtain ⟨found, gathered⟩ := exists_gathered fun name member =>
        (each name member).imp fun snapshot read => read.choose_spec.1
      have comparable : (found.any fun first => found.any fun second =>
          (first.createdAt.compare? second.createdAt).isNone) = false := by
        have texts : ∀ snapshot ∈ found, ∃ text, snapshot.createdAt = .string text := by
          intro snapshot member
          obtain ⟨name, isName, read⟩ := (mem_iff_exists_name gathered snapshot).mp member
          obtain ⟨other, text, read', dated⟩ := each name isName
          obtain rfl := Except.ok.inj (read.symm.trans read')
          exact ⟨text, dated⟩
        rw [List.any_eq_false]
        intro first inFound
        rw [Bool.not_eq_true, List.any_eq_false]
        intro second inFound'
        obtain ⟨text, dated⟩ := texts first inFound
        obtain ⟨text', dated'⟩ := texts second inFound'
        rw [dated, dated']
        simp [JsonValue.compare?]
      have all : store.readable tree store.root.resolve = .ok found := gathered
      refine ⟨found.mergeSort notOlder, ?_⟩
      simp only [all, bind, Except.bind, comparable, Bool.false_eq_true, if_false]
      rfl

/-! ## Removing old ones -/

section Removing

variable {withOffset : Bool} {limit : Int} {removed names : List String} {snapshots : List Snapshot}

/-- The names that are given are those of the snapshots that are too old. -/
theorem mem_names_iff (ran : removeBefore withOffset limit removed tree snapshots = (.ok names, tree')) (id : String) :
    id ∈ names ↔ id ∈ removed ∨
      ∃ snapshot ∈ snapshots, snapshot.id = id ∧ isBefore withOffset limit snapshot = .ok true := by
  induction snapshots generalizing removed tree with
  | nil =>
      obtain ⟨same, _⟩ := Prod.mk.inj ran
      obtain rfl := Except.ok.inj same
      simp
  | cons first rest inductionHypothesis =>
      unfold removeBefore at ran
      split at ran
      · cases (Prod.mk.inj ran).1
      · rename_i young
        simp [inductionHypothesis ran, young]
      · rename_i old
        split at ran
        · cases (Prod.mk.inj ran).1
        · simp only [inductionHypothesis ran, List.mem_cons, exists_eq_or_imp, old, and_true, or_assoc, or_left_comm,
            @eq_comm _ id first.id]

theorem loses_removeBefore (ran : removeBefore withOffset limit removed tree snapshots = (.ok names, tree')) :
    Loses tree tree' := by
  obtain ⟨erased, done⟩ := exists_removed_of_removeBefore ran
  rw [done.tree_eq]
  exact loses_foldl_erase (fun location member => (done.each location member).1) tree

/-- A directory below the store that is discarded is gone, or the store cannot be followed to. -/
theorem gone_of_discard (directory : snapshot.directory = store.root.join ⟨"", [snapshot.id]⟩)
    (noParent : snapshot.id ≠ "..")
    (noFile : ∀ content, tree.entry? (store.root.resolve ++ [snapshot.id]) ≠ some (.file content)) :
    Tree.entry? (discard tree snapshot.directory) (store.root.resolve ++ [snapshot.id]) = none ∨
      ∀ location, tree.locate store.root ≠ .ok location := by
  have noParents : ".." ∉ [snapshot.id] := by
    rw [List.mem_singleton]
    exact noParent.symm
  cases located : tree.locate store.root with
  | error fault => exact Or.inr fun location found => by cases found
  | ok location =>
      obtain rfl := Tree.locate_eq_resolve located
      have found : tree.locate snapshot.directory = .ok (store.root.resolve ++ [snapshot.id]) := by
        rw [directory, tree.locate_join _ noParents, located]
        rfl
      refine Or.inl ?_
      rw [discard, found]
      dsimp only
      split
      · rw [entry?_erase (by simp), if_pos (List.prefix_refl _)]
      · rename_i notTaken
        cases held : tree.entry? (store.root.resolve ++ [snapshot.id]) with
        | none => rfl
        | some entry =>
            cases entry with
            | file content => exact absurd held (noFile content)
            | directory =>
                refine absurd ?_ notTaken
                rw [isDirectory_iff.mpr held]
                simp

/-- An old snapshot is gone, or the way to the store is, as it led through another old one. -/
theorem gone_of_old (ran : removeBefore withOffset limit removed tree snapshots = (.ok names, tree'))
    (member : snapshot ∈ snapshots) (old : isBefore withOffset limit snapshot = .ok true)
    (directory : snapshot.directory = store.root.join ⟨"", [snapshot.id]⟩) (noParent : snapshot.id ≠ "..")
    (noFile : ∀ content, tree.entry? (store.root.resolve ++ [snapshot.id]) ≠ some (.file content)) :
    tree'.entry? (store.root.resolve ++ [snapshot.id]) = none ∨ ∀ location, tree'.locate store.root ≠ .ok location := by
  induction snapshots generalizing removed tree with
  | nil => cases member
  | cons first rest inductionHypothesis =>
      unfold removeBefore at ran
      split at ran
      · cases (Prod.mk.inj ran).1
      · rename_i young
        rcases List.mem_cons.mp member with rfl | later
        · cases young.symm.trans old
        · exact inductionHypothesis ran later noFile
      · split at ran
        · cases (Prod.mk.inj ran).1
        have discarded : Loses tree (discard tree first.directory) := by
          rcases discard_eq tree first.directory with same | ⟨someName, taken⟩
          · rw [same]
            exact fun _ => Or.inl rfl
          · rw [taken]
            exact @loses_foldl_erase [first.directory.resolve] (by simpa using someName) tree
        have loses := loses_removeBefore ran
        rcases List.mem_cons.mp member with rfl | later
        · rcases gone_of_discard directory noParent noFile with gone | lost
          · exact Or.inl (loses.absent gone)
          · exact Or.inr fun location found => lost location (discarded.located (loses.located found))
        · refine inductionHypothesis ran later fun content held => ?_
          rcases discarded (store.root.resolve ++ [snapshot.id]) with same | gone
          · exact noFile content (same.symm.trans held)
          · cases gone.symm.trans held

end Removing

/-! ## A snapshot among those that are looked at -/

/-- So many days after a time, snapshots of that time are too old. -/
def Expired (taken : Moment) (days : Int) (now : Moment) : Prop :=
  (taken.toMicroseconds : Int) + days * Moment.microsecondsPerDay < now.toMicroseconds

structure Weathers (store : SnapshotStore) (snapshot : Snapshot) (origin : Location) (saved : Tree) (expired : Prop)
    (names : List String) (tree : Tree) : Prop where
  named : snapshot.id ∈ names ↔ expired
  stays : ¬ expired → Holds store tree snapshot origin saved
  goes : expired → tree.entry? (store.root.resolve ++ [snapshot.id]) = none ∨
    ∀ location, tree.locate store.root ≠ .ok location
  wellFormed : tree.WellFormed

variable {world world' : World} {days : Int} {now taken : Moment} {names : List String}

theorem daysBefore?_eq {limit : Int} (counted : daysBefore? now days = some limit) :
    limit = now.toMicroseconds - days * Moment.microsecondsPerDay := by
  unfold daysBefore? at counted
  dsimp only at counted
  split at counted
  · exact (Option.some.inj counted).symm
  · cases counted

/-- A snapshot with a time of the calendar is removed just when it has expired. -/
theorem weathers_prune (holds : Holds store world.tree snapshot origin saved) (wellFormed : world.tree.WellFormed)
    (followed : world.tree.locate store.root = .ok store.root.resolve)
    (dated : snapshot.createdAt = .string taken.toString) (valid : taken.isValid = true)
    (ran : store.prune days now false world = (.ok names, world')) :
    Weathers store snapshot origin saved (Expired taken days now) names world'.tree := by
  obtain ⟨erased, pruned⟩ := exists_pruned wellFormed ran
  have erasedNamed : ∀ location ∈ erased, location ≠ [] := by
    intro location member
    obtain ⟨name, rfl, _⟩ := pruned.each location member
    simp
  have wellFormed' : world'.tree.WellFormed := pruned.tree_eq ▸ wellFormed.foldl_erase erasedNamed
  unfold prune at ran
  split at ran
  · cases (Prod.mk.inj ran).1
  · rename_i limit counted
    split at ran
    · cases (Prod.mk.inj ran).1
    · rename_i snapshots listed
      dsimp only at ran
      obtain ⟨sameNames, rfl⟩ := Prod.mk.inj ran
      have removing := (Prod.ext sameNames rfl : removeBefore false limit [] world.tree snapshots = (.ok names, _))
      have member := holds.mem_list wellFormed followed listed
      have old : isBefore false limit snapshot = .ok true ↔ Expired taken days now := by
        rw [isBefore, dated]
        dsimp only
        rw [Moment.ofString?_toString valid, daysBefore?_eq counted, Expired]
        simp only [ne_eq, not_true_eq_false, if_false, Except.ok.injEq, decide_eq_true_eq]
        omega
      -- another snapshot of the name would be in the same directory
      have named : snapshot.id ∈ names ↔ Expired taken days now := by
        rw [mem_names_iff removing]
        constructor
        · rintro (none | ⟨other, otherMember, sameId, otherOld⟩)
          · cases none
          · obtain ⟨directory, _, read, _⟩ := of_mem_list wellFormed listed otherMember
            rw [directory, sameId, ← holds.directory, holds.read followed] at read
            rw [← Except.ok.inj read] at otherOld
            exact old.mp otherOld
        · exact fun expired => Or.inr ⟨snapshot, member, rfl, old.mpr expired⟩
      refine ⟨named, fun fresh => ?_, fun expired => ?_, wellFormed'⟩
      · refine holds.of_same wellFormed wellFormed' fun rest => ?_
        rw [pruned.tree_eq, entry?_foldl_erase erasedNamed, if_neg]
        rintro ⟨location, inErased, within⟩
        obtain ⟨name, rfl, _, noted⟩ := pruned.each location inErased
        rw [Cleanup.name_eq_of_within within] at noted
        exact fresh (named.mp (noted names rfl))
      · refine gone_of_old removing member (old.mpr expired) holds.directory holds.noParent fun content held => ?_
        cases held.symm.trans (isDirectory_iff.mp (holds.isDirectory wellFormed))

end SnapshotStore

namespace Cleanup

variable {cleanup : Cleanup} {clock : Clock} {outcome : CleanupOutcome} {snapshot : Snapshot}
  {taking before worked after : World}

/-! ## The way back after a run -/

def Outlived (cleanup : Cleanup) (clock : Clock) (outcome : CleanupOutcome) : Prop :=
  cleanup.options.auto = true ∧ outcome.stage = .done ∧
    SnapshotStore.Expired (clock.shows .snapshot) cleanup.settings.retentionDays (clock.shows .removal)

/-- What is left of the snapshot of a run. -/
structure WayBack (cleanup : Cleanup) (clock : Clock) (outcome : CleanupOutcome) (snapshot : Snapshot) (after : World) :
    Prop where
  /-- It is the snapshot that the records name. -/
  named : ∀ record ∈ outcome.records, record.snapshotId = some snapshot.id
  /-- It is found, unless it has expired or the way to the store is gone. -/
  found : (∃ loaded, cleanup.store.load after.tree snapshot.id = .ok loaded) ↔
    ¬ cleanup.Outlived clock outcome ∧ after.tree.locate cleanup.store.root = .ok cleanup.store.root.resolve
  same : ∀ loaded, cleanup.store.load after.tree snapshot.id = .ok loaded → loaded = snapshot
  /-- Its directory stands, whatever way leads there. -/
  stands : ¬ cleanup.Outlived clock outcome →
    after.tree.entry? (cleanup.store.root.resolve ++ [snapshot.id]) = some .directory
  /-- If it has expired, it is told with those that were removed; the way to a store that is named plainly stays. -/
  removed : cleanup.Outlived clock outcome → snapshot.id ∈ outcome.pruned ∧ (".." ∉ cleanup.store.root.names →
    after.tree.entry? (cleanup.store.root.resolve ++ [snapshot.id]) = none)

/-- The log and what the plan names are no part of what a snapshot needs. -/
theorem Worked.holds {plan : Plan} {saved : Tree} (done : Worked cleanup plan snapshot before.tree worked.tree)
    (taken : SnapshotStore.Taken cleanup.store cleanup.root taking before snapshot)
    (holds : SnapshotStore.Holds cleanup.store before.tree snapshot cleanup.root saved) :
    SnapshotStore.Holds cleanup.store worked.tree snapshot cleanup.root saved := by
  refine holds.of_unlogged taken.wellFormed done.wellFormed fun rest noLog => ?_
  rcases done.changes (cleanup.store.root.resolve ++ [snapshot.id] ++ rest) with same | ⟨inRoot, _⟩ | log
  · exact same
  · exact absurd (List.prefix_refl _) (holds.apart.not_prefix inRoot rest)
  · rw [snapshot.resolve_logFile, taken.resolved, List.append_cancel_left_eq] at log
    exact absurd log noLog

/-- Before old snapshots are removed, that of the run can be found. -/
theorem Course.standing (course : Course cleanup clock outcome snapshot taking before worked after)
    (resolved : ".." ∉ cleanup.root)
    (countable : ∃ count : Nat, snapshot.fileCount = .int count ∧ count < 10 ^ JsonValue.digitLimit) :
    SnapshotStore.Holds cleanup.store worked.tree snapshot cleanup.root taking.tree ∧ worked.tree.WellFormed ∧
      worked.tree.locate cleanup.store.root = .ok cleanup.store.root.resolve ∧
      snapshot.createdAt = .string (clock.shows .snapshot).toString := by
  have origin : cleanup.rootPath.resolve = cleanup.root := resolve_of_no_parent resolved
  have taken := SnapshotStore.taken_of_create course.wellFormed course.taken
  have followed := SnapshotStore.followed_of_create course.wellFormed course.taken
  obtain ⟨_, _, drawn, _⟩ := SnapshotStore.exists_of_create course.wellFormed course.taken
  have few : SnapshotStore.Countable taking.tree cleanup.rootPath.resolve := by
    obtain ⟨count, counted, small⟩ := countable
    rw [drawn] at counted
    have same := JsonValue.int.inj counted
    unfold SnapshotStore.Countable
    omega
  have holds := SnapshotStore.holds_of_create course.wellFormed few course.taken
  rw [origin] at holds taken
  obtain ⟨plan, done⟩ := course.carriedOut
  refine ⟨done.holds taken holds, done.wellFormed, ?_, ?_⟩
  · exact Tree.locate_of_directories (fun place directory _ => done.directories place directory) followed followed
  · rw [drawn, ← course.time]
    rfl

/-- The way back is there unless the snapshot has expired. -/
theorem Course.wayBack (course : Course cleanup clock outcome snapshot taking before worked after)
    (resolved : ".." ∉ cleanup.root)
    (countable : ∃ count : Nat, snapshot.fileCount = .int count ∧ count < 10 ^ JsonValue.digitLimit) :
    WayBack cleanup clock outcome snapshot after := by
  obtain ⟨holds, wholeWorked, followed, dated⟩ := course.standing resolved countable
  have loadedFrom := fun (loaded : Snapshot) (found : cleanup.store.load after.tree snapshot.id = .ok loaded) =>
    SnapshotStore.exists_location_of_load holds.noParent (holds.found.trans holds.directory) found
  by_cases removing : outcome.stage = .done ∧ cleanup.options.auto = true
  · obtain ⟨finished, automatic⟩ := removing
    have ran := course.pruned finished automatic
    rw [course.removalTime] at ran
    have weathers := SnapshotStore.weathers_prune holds wholeWorked followed dated (clock.valid .snapshot) ran
    have expires : cleanup.Outlived clock outcome ↔ SnapshotStore.Expired (clock.shows .snapshot)
        cleanup.settings.retentionDays (clock.shows .removal) :=
      ⟨fun outlived => outlived.2.2, fun expired => ⟨automatic, finished, expired⟩⟩
    have lost : cleanup.Outlived clock outcome → ∀ loaded, cleanup.store.load after.tree snapshot.id ≠ .ok loaded := by
      intro outlived loaded found
      obtain ⟨located, isFile⟩ := loadedFrom loaded found
      rcases weathers.goes (expires.mp outlived) with gone | unfollowed
      · have absent := SnapshotStore.absent_below weathers.wellFormed gone [Snapshot.metadataName]
        rw [List.append_assoc, List.singleton_append] at absent
        rw [Tree.isFile, absent] at isFile
        cases isFile
      · exact unfollowed _ located
    refine ⟨course.signed, ?_, fun loaded found => ?_, fun fresh => ?_, fun outlived => ⟨?_, fun plain => ?_⟩⟩
    · constructor
      · rintro ⟨loaded, found⟩
        exact ⟨fun outlived => lost outlived loaded found, (loadedFrom loaded found).1⟩
      · rintro ⟨fresh, located⟩
        exact ⟨snapshot, (weathers.stays (mt expires.mpr fresh)).load located⟩
    · have fresh : ¬ cleanup.Outlived clock outcome := fun outlived => lost outlived loaded found
      have loads := (weathers.stays (mt expires.mpr fresh)).load (loadedFrom loaded found).1
      exact Except.ok.inj (found.symm.trans loads)
    · exact Tree.isDirectory_iff.mp ((weathers.stays (mt expires.mpr fresh)).isDirectory weathers.wellFormed)
    · exact weathers.named.mpr (expires.mp outlived)
    · refine (weathers.goes (expires.mp outlived)).resolve_right fun unfollowed => ?_
      exact unfollowed _ (after.tree.locate_of_no_parent plain)
  · -- nothing is removed, so that the snapshot is found as before
    have kept : after = worked := course.unpruned (by
      by_cases finished : outcome.stage = .done
      · exact Or.inr (Bool.eq_false_iff.mpr fun automatic => removing ⟨finished, automatic⟩)
      · exact Or.inl finished)
    subst kept
    have fresh : ¬ cleanup.Outlived clock outcome := fun outlived => removing ⟨outlived.2.1, outlived.1⟩
    refine ⟨course.signed, ?_, fun loaded found => ?_, fun _ => ?_, fun outlived => absurd outlived fresh⟩
    · exact ⟨fun _ => ⟨fresh, followed⟩, fun _ => ⟨snapshot, holds.load followed⟩⟩
    · exact Except.ok.inj (found.symm.trans (holds.load followed))
    · exact Tree.isDirectory_iff.mp (holds.isDirectory wholeWorked)

/-- A run with a snapshot leaves the way back, unless the snapshot has expired by the end of the run: that takes a clock that
goes on by more than the days for which snapshots are kept, which may be none. -/
theorem runBy_leaves_way_back {world : World} (wellFormed : world.tree.WellFormed) (resolved : ".." ∉ cleanup.root)
    (ran : cleanup.runBy clock world = (.ok outcome, after)) (saved : outcome.snapshot = some snapshot)
    (countable : ∃ count : Nat, snapshot.fileCount = .int count ∧ count < 10 ^ JsonValue.digitLimit) :
    WayBack cleanup clock outcome snapshot after := by
  obtain ⟨taking, before, worked, course⟩ := course_of_runBy wellFormed ran saved
  exact course.wayBack resolved countable

/-! ## A run that loses its way back -/

/-- How a run stands before it is closed. -/
structure Closing (cleanup : Cleanup) (clock : Clock) (plan : Plan) (snapshot : Snapshot) (before : World)
    (records : List DeletionRecord) (outcome : CleanupOutcome) (worked : World) : Prop where
  stage : outcome.stage = .validating
  saved : outcome.snapshot = some snapshot
  recorded : outcome.records = records
  carriedOut : Worked cleanup plan snapshot before.tree worked.tree
  removalTime : worked.now = clock.shows .removal

/-- Without a command every tree passes. -/
theorem exists_closing_of_validate {plan : Plan} {records : List DeletionRecord} {session : DeletionSession} {hint : String}
    (noCommand : cleanup.command = none) (stage : outcome.stage = .mutating) (saved : outcome.snapshot = some snapshot)
    (recorded : outcome.records = records) (carriedOut : Worked cleanup plan snapshot before.tree worked.tree)
    (removalTime : worked.now = clock.shows .removal) :
    ∃ later last closing, cleanup.validate outcome session hint worked = cleanup.close later last closing ∧
      Closing cleanup clock plan snapshot before records later closing := by
  rw [validate, enter_eq (by rw [stage]; rfl), noCommand]
  exact ⟨_, session, worked, rfl, rfl, saved, recorded, carriedOut, removalTime⟩

/-- An automatic run with something to delete and no command to check it comes to its end. -/
theorem exists_close_of_runBy {world : World} {analysis : Analysis} {plan : Plan}
    (automatic : cleanup.options.auto = true) (noReports : cleanup.options.writeReports = false)
    (noRehearsal : cleanup.options.dryRun = false) (noCommand : cleanup.command = none)
    (analyzed : analyzeTree cleanup.settings world.tree cleanup.root = .ok analysis)
    (planned : Plan.ofAssessment cleanup.options.threshold (Assessment.ofAnalysis cleanup.settings.riskPolicy analysis) = plan)
    (someWork : plan.isEmpty = false) (wellFormed : before.tree.WellFormed)
    (created : cleanup.store.create cleanup.rootPath "cleanup" (clock.set .snapshot world) = (.ok snapshot, before)) :
    ∃ outcome session worked, cleanup.runBy clock world = cleanup.close outcome session worked ∧
      Closing cleanup clock plan snapshot before
        ((cleanup.session (clock.set .deletion before) snapshot).carryOut plan).2 outcome worked := by
  have noQuestion : cleanup.options.needsConfirmation = false := by
    rw [CleanupOptions.needsConfirmation, automatic, Bool.or_true]
    rfl
  have noDirectory : cleanup.reportDirectory? = none := by
    rw [reportDirectory?, noReports]
    rfl
  have allowed : (cleanup.session (clock.set .deletion before) snapshot).mayDelete = true := Bool.or_true _
  have follows := DeletionSession.follows_carryOut (cleanup.session (clock.set .deletion before) snapshot) plan
  have started : cleanup.runBy clock world = cleanup.runFrom {} world clock.around := rfl
  have names : clock.around.charNames = Text.asciiNames := rfl
  rw [started, runFrom, enter_eq rfl, names]
  dsimp only
  rw [analyzed]
  dsimp only
  rw [report]
  dsimp only
  rw [enter_eq rfl]
  dsimp only
  rw [noDirectory, planned]
  dsimp only
  rw [decide]
  dsimp only
  rw [noRehearsal, someWork, noQuestion]
  simp only [Bool.false_eq_true, if_false]
  rw [backUp, enter_eq rfl]
  dsimp only
  rw [Clock.later_around, created]
  dsimp only
  rw [mutate, enter_eq rfl]
  simp only [Clock.later_around, DeletionSession.guarded, allowed, if_true, validate_around]
  generalize (cleanup.session (clock.set .deletion before) snapshot).carryOut plan = carried at follows ⊢
  obtain ⟨session, records⟩ := carried
  have worked : Worked cleanup plan snapshot before.tree session.tree :=
    @worked_of_follows cleanup (clock.set .deletion before) plan snapshot session wellFormed follows
  dsimp only [noteSession]
  generalize written : SnapshotStore.writeLog snapshot records _ _ = logged
  cases logged with
  | ok log =>
      have logged := @Worked.of_writeLog cleanup (clock.set .log { before with tree := session.tree }) plan snapshot
        before.tree log records _ worked written
      exact exists_closing_of_validate noCommand rfl rfl rfl logged rfl
  | error error => exact exists_closing_of_validate noCommand rfl rfl rfl worked rfl

/-- An automatic cleanup of everything that nothing needs; snapshots are kept for no day. -/
def keepingNoDay : Cleanup :=
  { withOpenQuote with
    settings := { withOpenQuote.settings with retentionDays := 0 }
    options := { auto := true, threshold := .high, writeReports := false } }

/-- A clock that shows noon until old snapshots are removed so many seconds later. -/
def fromNoon (seconds : Fin 60) : Clock where
  shows glance := ⟨2026, 1, 1, 12, 0, if glance = .removal then seconds else 0, 0⟩
  valid := by
    intro glance
    have inMinute : ∀ second : Fin 60, (⟨2026, 1, 1, 12, 0, second, 0⟩ : Moment).isValid = true := by decide
    cases glance with
    | removal => exact inMinute seconds
    | _ => exact inMinute 0

theorem exists_plan_loneFile : ∃ analysis, analyzeTree keepingNoDay.settings loneFile.tree ["src"] = .ok analysis ∧
    Plan.ofAssessment .high (Assessment.ofAnalysis keepingNoDay.settings.riskPolicy analysis) = ⟨["a.json"], []⟩ := by
  obtain ⟨analysis, analyzed, run⟩ := exists_run_loneFile
  have divides := Analysis.divides_of_ofGraph_eq_ok run
  have everything : ∀ level : RiskLevel, level.within .high = true := by
    intro level
    cases level <;> rfl
  have paths : analysis.unusedFiles.map (·.path) = ["a.json"] := by
    have once : (analysis.unusedFiles.map (·.path)).Nodup := divides.unusedFiles_sorted.imp fun lt => ne_of_lt lt
    refine List.perm_singleton.mp ((List.perm_ext_iff_of_nodup once (List.nodup_singleton _)).mpr fun path => ?_)
    rw [mem_unusedFiles_loneFile run, List.mem_singleton]
  refine ⟨analysis, analyzed, ?_⟩
  have files : (Plan.ofAssessment .high (Assessment.ofAnalysis keepingNoDay.settings.riskPolicy analysis)).files =
      ["a.json"] := by
    simpa [Plan.ofAssessment, Assessment.ofAnalysis, everything] using paths
  have functions : (Plan.ofAssessment .high (Assessment.ofAnalysis keepingNoDay.settings.riskPolicy analysis)).functions =
      [] := by
    rw [List.eq_nil_iff_forall_not_mem]
    intro planned listed
    obtain ⟨symbol, unused, _, defining⟩ := Plan.mem_functions_ofAssessment listed
    obtain ⟨definition, defines, _⟩ := List.mem_map.mp (Text.mem_sortedSet.mp defining)
    obtain ⟨_, file, isFile, readOff⟩ := (Analysis.mem_definitions_of_unused run unused).mp defines
    obtain rfl := List.mem_singleton.mp isFile
    cases readOff
  rw [← files, ← functions]

theorem wellFormed_loneFile : loneFile.tree.WellFormed :=
  ⟨by decide, by decide, by decide⟩

def loneSnapshot : Snapshot :=
  keepingNoDay.store.drawn ["src"] "cleanup" loneFile

theorem countFiles_loneFile : Snapshot.countFiles (Snapshot.savedEntries loneFile.tree ["src"]) = 1 := by
  rw [Snapshot.savedEntries, below_loneFile]
  rfl

theorem exists_taken_loneFile (seconds : Fin 60) : ∃ before,
    keepingNoDay.store.create keepingNoDay.rootPath "cleanup" ((fromNoon seconds).set .snapshot loneFile) =
      (.ok loneSnapshot, before) := by
  have noon : (fromNoon seconds).set .snapshot loneFile = loneFile := rfl
  obtain ⟨tree, created⟩ := @SnapshotStore.exists_create keepingNoDay.store loneFile keepingNoDay.rootPath wellFormed_loneFile
    rfl (by decide) rfl (wellFormed_loneFile.no_file_above rfl) (by decide) "cleanup"
  rw [noon]
  exact ⟨_, created⟩

variable {seconds : Fin 60}

theorem records_loneFile
    (created : keepingNoDay.store.create keepingNoDay.rootPath "cleanup" ((fromNoon seconds).set .snapshot loneFile) =
      (.ok loneSnapshot, before)) :
    ((keepingNoDay.session ((fromNoon seconds).set .deletion before) loneSnapshot).carryOut ⟨["a.json"], []⟩).2 ≠ [] := by
  generalize isSession : keepingNoDay.session ((fromNoon seconds).set .deletion before) loneSnapshot = session
  have held : session.tree.entry? ["src", "a.json"] = some (.file []) := by
    rw [← isSession]
    exact SnapshotStore.entry_of_create wellFormed_loneFile created rfl
  have real : session.dryRun = false := by
    rw [← isSession]
    rfl
  have fresh : "a.json" ∉ session.removed := by
    rw [← isSession]
    exact List.not_mem_nil
  have records : session.records = [] := by
    rw [← isSession]
    rfl
  have place : session.resolve "a.json" = .ok ["src", "a.json"] := by
    rw [← isSession]
    rfl
  have taken : (if session.dryRun then .ok session.tree
      else DeletionSession.faultAt ["src", "a.json"] (session.tree.remove ["src", "a.json"])) =
        .ok (session.tree.erase ["src", "a.json"]) := by
    rw [real, Tree.remove, held]
    rfl
  have deleted := DeletionSession.deleteFile_of_removed (DeletionSession.target_of_file place fresh held) fresh taken
  simp [DeletionSession.carryOut, deleted, DeletionSession.afterFile, records]

/-- Nothing in the store but the snapshot of the run has metadata. -/
theorem name_eq_of_metadata (seconds : Fin 60)
    (created : keepingNoDay.store.create keepingNoDay.rootPath "cleanup" ((fromNoon seconds).set .snapshot loneFile) =
      (.ok loneSnapshot, before)) {plan : Plan} (done : Worked keepingNoDay plan loneSnapshot before.tree worked.tree)
    {name : String} (metadata : worked.tree.isFile ["home", name, Snapshot.metadataName] = true) :
    name = loneSnapshot.id := by
  by_contra other
  have resolved : loneSnapshot.directory.resolve = ["home", loneSnapshot.id] := by decide
  have same : worked.tree.entry? ["home", name, Snapshot.metadataName] =
      before.tree.entry? ["home", name, Snapshot.metadataName] := by
    rcases done.changes ["home", name, Snapshot.metadataName] with same | ⟨inRoot, _⟩ | log
    · exact same
    · simp [keepingNoDay, withOpenQuote] at inRoot
    · rw [loneSnapshot.resolve_logFile, resolved] at log
      simp [Snapshot.metadataName, Snapshot.logName] at log
  have outside : ¬ loneSnapshot.directory.resolve <+: ["home", name, Snapshot.metadataName] := by
    rw [resolved]
    simp [Ne.symm other]
  have onWay : ¬ ["home", name, Snapshot.metadataName] <+: loneSnapshot.directory.resolve := by
    rw [resolved]
    simp
  have start := SnapshotStore.entry?_of_create wellFormed_loneFile created _ outside
  rw [if_neg onWay] at start
  rw [Tree.isFile, same, start] at metadata
  simp [Tree.entry?, loneFile, List.lookup] at metadata

/-- The run comes to its end whatever the clock shows then. -/
theorem exists_run_keepingNoDay (seconds : Fin 60) : ∃ outcome after,
    keepingNoDay.runBy (fromNoon seconds) loneFile = (.ok outcome, after) ∧ outcome.stage = .done ∧
      outcome.snapshot = some loneSnapshot ∧ outcome.records ≠ [] := by
  obtain ⟨analysis, analyzed, planned⟩ := exists_plan_loneFile
  obtain ⟨before, created⟩ := exists_taken_loneFile seconds
  have taken := SnapshotStore.taken_of_create wellFormed_loneFile created
  obtain ⟨closing, session, worked, ends, ⟨stage, saved, recorded, done, time⟩⟩ := @exists_close_of_runBy keepingNoDay
    (fromNoon seconds) loneSnapshot before loneFile analysis _ rfl rfl rfl rfl analyzed planned rfl taken.wellFormed created
  have countable : SnapshotStore.Countable loneFile.tree keepingNoDay.rootPath.resolve := by
    have few := countFiles_loneFile
    change Snapshot.countFiles (Snapshot.savedEntries loneFile.tree ["src"]) < 10 ^ JsonValue.digitLimit
    rw [few]
    exact Nat.one_lt_pow (by decide) (by decide)
  have holds := done.holds taken (SnapshotStore.holds_of_create wellFormed_loneFile countable created)
  have followed : worked.tree.locate keepingNoDay.store.root = .ok keepingNoDay.store.root.resolve := rfl
  have readable : ∀ name, worked.tree.isFile (keepingNoDay.store.root.resolve ++ [name, Snapshot.metadataName]) = true →
      ∃ snapshot text, Snapshot.read worked.tree (keepingNoDay.store.root.join ⟨"", [name]⟩) = .ok snapshot ∧
        snapshot.createdAt = .string text := by
    intro name metadata
    rw [name_eq_of_metadata seconds created done metadata]
    refine ⟨loneSnapshot, loneFile.now.toString, ?_, rfl⟩
    rw [← holds.directory]
    exact holds.read followed
  obtain ⟨snapshots, listed⟩ := SnapshotStore.exists_list_eq_ok readable
  have counted : ∀ second : Fin 60, SnapshotStore.daysBefore? ((fromNoon second).shows .removal) 0 ≠ none := by decide
  have prunable : ∀ error, (keepingNoDay.store.prune 0 worked.now false worked).1 ≠ .error error := by
    intro error failed
    cases SnapshotStore.prune_eq_error_iff.mp failed with
    | beyond beyond => exact counted seconds (time ▸ beyond)
    | unlisted _ unlisted => cases listed.symm.trans unlisted
    | @unremovable _ earlier later snapshot _ _ _ _ listed _ unremovable =>
        have member : snapshot ∈ earlier ++ snapshot :: later := List.mem_append_right earlier List.mem_cons_self
        obtain ⟨directory, noParent, read, metadata⟩ := SnapshotStore.of_mem_list done.wellFormed listed member
        cases unremovable with
        | undated undated =>
            have sameName := name_eq_of_metadata seconds created done metadata
            rw [directory, sameName, ← holds.directory, holds.read followed] at read
            have dated : snapshot.createdAt = .string loneFile.now.toString := by
              rw [← Except.ok.inj read]
              rfl
            obtain ⟨moment, hasOffset, told, differs⟩ := undated _ dated
            rw [Moment.ofString?_toString rfl] at told
            exact differs (Prod.mk.inj (Option.some.inj told)).2.symm
        | lost _ lost =>
            have plain : ".." ∉ (keepingNoDay.store.root.join ⟨"", [snapshot.id]⟩).names := by
              simp [keepingNoDay, withOpenQuote, Path.join, noParent.symm]
            rw [directory, Tree.locate_of_no_parent _ plain] at lost
            cases lost
  cases pruned : keepingNoDay.store.prune 0 worked.now false worked with
  | mk removed after =>
      cases removed with
      | error error => exact absurd (by rw [pruned]) (prunable error)
      | ok names =>
          have finished := @finish_eq { closing with pruned := names } (closingMessage session) (by rw [stage]; rfl)
          refine ⟨{ closing with
            pruned := names, message := closingMessage session, stage := .done
            history := closing.history ++ [.done] }, after, ?_, rfl, saved, ?_⟩
          · have automatic : keepingNoDay.options.auto = true := rfl
            have noDays : keepingNoDay.settings.retentionDays = 0 := rfl
            rw [ends, close, if_pos automatic, noDays, pruned]
            dsimp only
            rw [finished]
          · rw [recorded]
            exact records_loneFile created

theorem loneSnapshot_countable : ∃ count : Nat, loneSnapshot.fileCount = .int count ∧ count < 10 ^ JsonValue.digitLimit := by
  refine ⟨1, ?_, Nat.one_lt_pow (by decide) (by decide)⟩
  rw [← countFiles_loneFile]
  rfl

/-- If no time goes by, the snapshot is not too old even where snapshots are kept for no day. -/
theorem keepingNoDay_leaves_way_back : ∃ outcome after,
    loneFile.tree.WellFormed ∧ ".." ∉ keepingNoDay.root ∧
      keepingNoDay.runBy (fromNoon 0) loneFile = (.ok outcome, after) ∧ outcome.snapshot = some loneSnapshot ∧
      (∃ count : Nat, loneSnapshot.fileCount = .int count ∧ count < 10 ^ JsonValue.digitLimit) ∧
      WayBack keepingNoDay (fromNoon 0) outcome loneSnapshot after := by
  obtain ⟨outcome, after, ran, _, saved, _⟩ := exists_run_keepingNoDay 0
  have resolved : ".." ∉ keepingNoDay.root := by decide
  exact ⟨outcome, after, wellFormed_loneFile, resolved, ran, saved, loneSnapshot_countable,
    runBy_leaves_way_back wellFormed_loneFile resolved ran saved loneSnapshot_countable⟩

/-- A second later it is, and the run removes the snapshot that its records name. -/
theorem keepingNoDay_loses_way_back : 0 ≤ keepingNoDay.settings.retentionDays ∧ (fromNoon 1).Advances ∧ ∃ outcome after,
    keepingNoDay.runBy (fromNoon 1) loneFile = (.ok outcome, after) ∧ outcome.stage = .done ∧ outcome.records ≠ [] ∧
      (∀ record ∈ outcome.records, record.snapshotId = some loneSnapshot.id) ∧
      (∀ loaded, keepingNoDay.store.load after.tree loneSnapshot.id ≠ .ok loaded) ∧
      after.tree.entry? (keepingNoDay.store.root.resolve ++ [loneSnapshot.id]) = none := by
  obtain ⟨outcome, after, ran, finished, saved, deleted⟩ := exists_run_keepingNoDay 1
  obtain ⟨taking, before, worked, course⟩ := course_of_runBy wellFormed_loneFile ran saved
  have wayBack := course.wayBack (by decide) loneSnapshot_countable
  have outlived : keepingNoDay.Outlived (fromNoon 1) outcome := by
    refine ⟨rfl, finished, ?_⟩
    unfold SnapshotStore.Expired
    decide
  refine ⟨by decide, ⟨by decide, by decide, by decide, by decide⟩, outcome, after, ran, finished, deleted, wayBack.named,
    fun loaded found => (wayBack.found.mp ⟨loaded, found⟩).1 outlived, (wayBack.removed outlived).2 (by decide)⟩

end Cleanup
end Deadwood
