import Deadwood.Proofs.FailedSnapshots

/-!
# Snapshots that break off

Any step of taking a snapshot may fail, and may have done a part of its work by then. Of the system it is only assumed that
directories are made on the way to a path, that copies and metadata are written where they belong, and that removing a directory
does nothing elsewhere. Then what stands in the store stays as it was, but for the directory of the name that is drawn: if the
system gets as far as to find it there, it is removed. Whether nothing is left of a new directory depends on how thoroughly the
system removes it.
-/

set_option autoImplicit false
namespace Deadwood

open Files Files.Tree

namespace SnapshotSystem

/-! ## What is assumed -/

def OnWay (path : Path) (place : Location) : Prop :=
  ∃ names, names <+: path.names ∧ place = Path.resolve ⟨path.anchor, names⟩

/-- A place is as it was, or there is a new directory on the way to a path. -/
def Spared (path : Path) (before after : Tree) (place : Location) : Prop :=
  after.entry? place = before.entry? place ∨
    before.entry? place = none ∧ after.entry? place = some .directory ∧ OnWay path place

structure Made (path : Path) (before after : Tree) (location : Location) : Prop where
  resolved : location = path.resolve
  absent : before.entry? location = none
  spared : ∀ place, Spared path before after place
  stands : after.isDirectoryAt path = true
  empty : ∀ rest, rest ≠ [] → after.entry? (location ++ rest) = none
  wellFormed : after.WellFormed

/-- What every system does. A directory is made new, or at most those above it; what is saved is copied into a new directory, and
a file is written, without a change elsewhere; and what cannot be found as a directory is not removed. -/
structure Lawful (system : SnapshotSystem) : Prop where
  makes : ∀ tree path location after, tree.WellFormed → system.makeDirectory tree path = (.ok location, after) →
    Made path tree after location
  opens : ∀ tree path reason after, tree.WellFormed → system.makeDirectory tree path = (.error reason, after) →
    ∀ place, Spared path.parent tree after place
  copies : ∀ tree location source, tree.WellFormed → tree.entry? location = some .directory →
    (∀ rest, rest ≠ [] → tree.entry? (location ++ rest) = none) → ∀ place, ¬ location ++ [Snapshot.treeName] <+: place →
      Tree.entry? (system.copy tree location source).2 place = tree.entry? place
  writes : ∀ tree location content place, place ≠ location →
    Tree.entry? (system.write tree location content).2 place = tree.entry? place
  removes : ∀ tree path place, ¬ path.resolve <+: place → Tree.entry? (system.remove tree path) place = tree.entry? place
  removesFound : ∀ tree path, tree.isDirectoryAt path = false → system.remove tree path = tree

/-- A system removes all of a directory that it finds. -/
def Thorough (system : SnapshotSystem) : Prop :=
  ∀ tree path, path.resolve ≠ [] → tree.isDirectoryAt path = true → ∀ rest,
    Tree.entry? (system.remove tree path) (path.resolve ++ rest) = none

/-! ## Places on the way -/

variable {path above : Path} {place : Location} {before middle after tree : Tree}

theorem OnWay.mono (onWay : OnWay above place) (anchor : above.anchor = path.anchor) (names : above.names <+: path.names) :
    OnWay path place := by
  obtain ⟨first, within, rfl⟩ := onWay
  exact ⟨first, within.trans names, by rw [anchor]⟩

theorem Spared.mono (spared : Spared above before after place) (anchor : above.anchor = path.anchor)
    (names : above.names <+: path.names) : Spared path before after place :=
  spared.imp_right fun ⟨absent, made, onWay⟩ => ⟨absent, made, onWay.mono anchor names⟩

theorem Spared.trans (first : Spared path before middle place) (second : Spared path middle after place) :
    Spared path before after place := by
  rcases second with same | ⟨absent, made, onWay⟩
  · rcases first with same' | ⟨absent, made, onWay⟩
    · exact Or.inl (same.trans same')
    · exact Or.inr ⟨absent, same.trans made, onWay⟩
  · rcases first with same' | ⟨absent', made', _⟩
    · exact Or.inr ⟨same' ▸ absent, made, onWay⟩
    · cases absent.symm.trans made'

theorem Spared.of_held {entry : Entry} (spared : Spared path before after place)
    (held : before.entry? place = some entry) : after.entry? place = some entry := by
  rcases spared with same | ⟨absent, _⟩
  · exact same.trans held
  · cases absent.symm.trans held

theorem Spared.absent (spared : Spared path before after place) (absent : after.entry? place = none) :
    before.entry? place = none := by
  rcases spared with same | ⟨absent, _⟩
  · exact same.symm.trans absent
  · exact absent

/-- Every location above that of a path is on the way to it. -/
theorem onWay_of_prefix (anchor : String) (names : List String) (within : place <+: Path.resolve ⟨anchor, names⟩) :
    OnWay ⟨anchor, names⟩ place := by
  induction names using List.reverseRecOn with
  | nil => exact ⟨[], List.prefix_refl _, List.prefix_nil.mp within⟩
  | append_singleton names name ih =>
      have further : OnWay ⟨anchor, names⟩ place → OnWay ⟨anchor, names ++ [name]⟩ place := fun onWay =>
        onWay.mono rfl (List.prefix_append _ _)
      rw [Path.resolve, follow_append] at within
      by_cases parent : name = ".."
      · rw [parent, follow_parent, follow_nil] at within
        refine further (ih (within.trans ?_))
        rw [Path.resolve, List.tail_reverse, List.reverse_reverse]
        exact List.dropLast_prefix _
      · rw [follow_name parent, follow_nil, List.reverse_cons, List.reverse_reverse] at within
        rcases List.prefix_concat_iff.mp within with rfl | within
        · refine ⟨names ++ [name], List.prefix_refl _, ?_⟩
          rw [Path.resolve, follow_append, follow_name parent, follow_nil, List.reverse_cons, List.reverse_reverse]
        · exact further (ih within)

/-- Where no name leads back, only what is above the location of a path is on the way to it. -/
theorem OnWay.prefix_resolve (onWay : OnWay path place) (noParent : ".." ∉ path.names) : place <+: path.resolve := by
  obtain ⟨names, within, rfl⟩ := onWay
  have noParent' : ".." ∉ names := fun listed => noParent (within.subset listed)
  rw [Path.resolve, Path.resolve, follow_of_no_parent noParent', follow_of_no_parent noParent]
  exact (List.prefix_append_right_inj _).mpr within

/-! ## Systems without failures midway -/

/-- A path that can be followed to a location can be followed there when more is there. -/
theorem isDirectoryAt_of_stands (located : before.locate path = .ok path.resolve)
    (stays : ∀ place, before.entry? place = some .directory → after.entry? place = some .directory)
    (stands : after.entry? path.resolve = some .directory) : after.isDirectoryAt path = true := by
  rw [isDirectoryAt, locate_of_directories (fun place held _ => stays place held) located located]
  exact isDirectory_iff.mpr stands

theorem made_of_makeDirectory {found : Tree × Location} (wellFormed : tree.WellFormed)
    (done : SnapshotStore.makeDirectory tree path = .ok found) : Made path tree found.1 found.2 := by
  obtain ⟨resolved, absent, way⟩ := SnapshotStore.exists_of_makeDirectory done
  have stands : Tree.entry? found.1 path.resolve = some .directory := by rw [way.entry?_eq, if_pos (List.prefix_refl _)]
  have located : tree.locate path = .ok path.resolve := by
    rw [SnapshotStore.makeDirectory] at done
    cases located : tree.locate path with
    | error fault =>
        rw [located] at done
        cases done
    | ok location => rw [locate_eq_resolve located]
  have spared : ∀ place, Spared path tree found.1 place := by
    intro place
    rw [Spared, way.entry?_eq]
    split
    · rename_i onWay
      rcases way.way place onWay with absent | held
      · exact Or.inr ⟨absent, rfl, onWay_of_prefix path.anchor path.names onWay⟩
      · exact Or.inl held.symm
    · exact Or.inl rfl
  rw [resolved]
  exact ⟨rfl, absent, spared, isDirectoryAt_of_stands located (fun place held => (spared place).of_held held) stands,
    SnapshotStore.empty_of_openedTo way wellFormed absent, way.wellFormed wellFormed (no_parent_resolve _)⟩

theorem lawful_plain : plain.Lawful where
  makes tree path location after wellFormed done := by
    simp only [plain] at done
    cases made : SnapshotStore.makeDirectory tree path with
    | error fault =>
        rw [made] at done
        cases done
    | ok found =>
        obtain ⟨later, place⟩ := found
        rw [made] at done
        obtain ⟨same, rfl⟩ := Prod.mk.inj done
        obtain rfl := Except.ok.inj same
        exact made_of_makeDirectory wellFormed made
  opens tree path reason after _ done place := by
    simp only [plain] at done
    cases made : SnapshotStore.makeDirectory tree path with
    | error fault =>
        rw [made] at done
        obtain ⟨_, rfl⟩ := Prod.mk.inj done
        exact Or.inl rfl
    | ok found =>
        rw [made] at done
        cases done
  copies tree location source wellFormed isDirectory _ place outside := by
    simp only [plain]
    cases copying : SnapshotStore.copySaved tree location source with
    | error fault => rfl
    | ok copied => exact SnapshotStore.entry?_copySaved wellFormed isDirectory copying outside
  writes tree location content place elsewhere := by
    simp only [plain]
    cases written : tree.write location content with
    | error fault => rfl
    | ok later =>
        dsimp only [Except.map, atOnce]
        rw [entry?_write written, if_neg elsewhere]
  removes tree path place outside := by
    rcases SnapshotStore.discard_eq tree path with same | ⟨someName, taken⟩
    · exact congrArg (fun tree => Tree.entry? tree place) same
    · refine (congrArg (fun tree => Tree.entry? tree place) taken).trans ?_
      rw [entry?_erase someName, if_neg outside]
  removesFound tree path nowhere := by
    change SnapshotStore.discard tree path = tree
    rw [isDirectoryAt] at nowhere
    rw [SnapshotStore.discard]
    cases located : tree.locate path with
    | error fault => rfl
    | ok location =>
        rw [located] at nowhere
        dsimp only at nowhere ⊢
        rw [nowhere, Bool.false_and, if_neg Bool.false_ne_true]

theorem thorough_plain : plain.Thorough := by
  intro tree path someName found rest
  rw [isDirectoryAt] at found
  split at found
  · rename_i location located
    obtain rfl := locate_eq_resolve located
    have discarded : SnapshotStore.discard tree path = tree.erase path.resolve := by
      rw [SnapshotStore.discard, located]
      simp [found, someName]
    refine (congrArg (fun tree => Tree.entry? tree (path.resolve ++ rest)) discarded).trans ?_
    rw [entry?_erase someName, if_pos (List.prefix_append _ _)]
  · cases found

/-! ### Directories on the way -/

theorem made_of_makeOne {found : Tree × Location} (wellFormed : tree.WellFormed)
    (done : makeOne tree path = .ok found) : Made path tree found.1 found.2 := by
  rw [makeOne] at done
  cases located : tree.locate path with
  | error fault =>
      rw [located] at done
      cases done
  | ok location =>
      obtain rfl := locate_eq_resolve located
      rw [located] at done
      simp only [bind, Except.bind, pure, Except.pure, throw, throwThe, MonadExceptOf.throw] at done
      split at done
      · cases done
      rename_i absent
      rw [Option.not_isSome_iff_eq_none] at absent
      by_cases parent : tree.isDirectory path.resolve.dropLast = true
      case neg =>
        rw [room, if_neg parent] at done
        cases done
      rw [room, if_pos parent] at done
      obtain rfl := Except.ok.inj done
      have someName : path.resolve ≠ [] := by
        intro none
        rw [none] at absent
        cases absent
      have frame := fun place => @entry?_put tree path.resolve place .directory someName
      have spared : ∀ place, Spared path tree (tree.put path.resolve .directory) place := by
        intro place
        rw [Spared, frame]
        split
        · rename_i here
          exact Or.inr ⟨here ▸ absent, rfl, here ▸ onWay_of_prefix path.anchor path.names (List.prefix_refl _)⟩
        · exact Or.inl rfl
      refine ⟨rfl, absent, spared, ?_, fun rest someRest => ?_, ?_⟩
      · exact isDirectoryAt_of_stands located (fun place held => (spared place).of_held held) (by rw [frame, if_pos rfl])
      · rw [frame, if_neg (by simpa using someRest), SnapshotStore.absent_below wellFormed absent]
      · exact wellFormed.put someName (no_parent_resolve _) parent fun held => by cases absent.symm.trans held

/-- What making a directory with those on the way comes to, if it may or may not be there already. -/
structure Way (anchor : String) (mayStand : Bool) (tree : Tree) (reversed : List String)
    (result : Except Fault Location × Tree) : Prop where
  wellFormed : result.2.WellFormed
  failed : ∀ fault, result.1 = .error fault → ∀ place, Spared ⟨anchor, reversed.tail.reverse⟩ tree result.2 place
  spared : ∀ place, Spared ⟨anchor, reversed.reverse⟩ tree result.2 place
  made : mayStand = false → ∀ location, result.1 = .ok location → Made ⟨anchor, reversed.reverse⟩ tree result.2 location

theorem Way.of_error {anchor : String} {mayStand : Bool} {reversed : List String} {fault : Fault}
    (wellFormed : after.WellFormed) (spared : ∀ place, Spared ⟨anchor, reversed.tail.reverse⟩ tree after place) :
    Way anchor mayStand tree reversed (.error fault, after) where
  wellFormed := wellFormed
  failed _ _ := spared
  spared place := (spared place).mono rfl (by
    rw [List.reverse_prefix]
    exact List.tail_suffix _)
  made _ _ done := nomatch done

theorem Way.of_made {anchor : String} {mayStand : Bool} {reversed : List String} {location : Location}
    (made : Made ⟨anchor, reversed.reverse⟩ tree after location) : Way anchor mayStand tree reversed (.ok location, after) where
  wellFormed := made.wellFormed
  failed _ failed := nomatch failed
  spared := made.spared
  made _ _ done := Except.ok.inj done ▸ made

theorem Way.of_standing {anchor : String} {mayStand : Bool} {reversed : List String} {fault : Fault}
    (wellFormed : after.WellFormed) (spared : ∀ place, Spared ⟨anchor, reversed.tail.reverse⟩ tree after place) :
    Way anchor mayStand tree reversed
      (if mayStand && fault ≠ .missing && after.isDirectoryAt ⟨anchor, reversed.reverse⟩ then
        (.ok (Path.resolve ⟨anchor, reversed.reverse⟩), after) else (.error fault, after)) := by
  have failed : Way anchor mayStand tree reversed (.error fault, after) := .of_error wellFormed spared
  split
  · rename_i stands
    refine ⟨wellFormed, fun _ failed => (nomatch failed), failed.spared, fun mayNot => ?_⟩
    rw [mayNot] at stands
    cases stands
  · exact failed

theorem Made.trans_spared {location : Location} (first : ∀ place, Spared path before middle place)
    (second : Made path middle after location) : Made path before after location where
  resolved := second.resolved
  absent := (first location).absent second.absent
  spared place := (first place).trans (second.spared place)
  stands := second.stands
  empty := second.empty
  wellFormed := second.wellFormed

theorem way_makeWay (anchor : String) (mayStand : Bool) (reversed : List String) (wellFormed : tree.WellFormed) :
    Way anchor mayStand tree reversed (makeWay anchor mayStand tree reversed) := by
  induction reversed generalizing mayStand tree with
  | nil =>
      rw [makeWay]
      have same : ∀ place, Spared ⟨anchor, []⟩ tree tree place := fun _ => Or.inl rfl
      refine ⟨wellFormed, fun _ _ => same, same, fun mayNot location done => ?_⟩
      rw [mayNot] at done
      cases done
  | cons name parents ih =>
      have same : ∀ place, Spared ⟨anchor, parents.reverse⟩ tree tree place := fun _ => Or.inl rfl
      rw [makeWay]
      dsimp only
      split
      · rename_i made location done
        exact .of_made (made_of_makeOne wellFormed done)
      · -- those on the way are missing
        have first := ih true wellFormed
        split
        · rename_i fault middle stopped
          rw [stopped] at first
          exact .of_error first.wellFormed first.spared
        · rename_i middle opened
          rw [opened] at first
          have further : ∀ place, Spared ⟨anchor, (name :: parents).reverse⟩ tree middle place := fun place =>
            (first.spared place).mono rfl (by rw [List.reverse_cons]; exact List.prefix_append _ _)
          split
          · rename_i made location done
            exact .of_made (Made.trans_spared further (made_of_makeOne first.wellFormed done))
          · exact .of_standing first.wellFormed first.spared
      · exact .of_standing wellFormed same

theorem exists_way_of_makeDirectory {result : Except String Location} (wellFormed : tree.WellFormed)
    (done : makingWay.makeDirectory tree path = (result, after)) : ∃ made,
      Way path.anchor false tree path.names.reverse (made, after) ∧
        made.mapError (fun fault => FileError.message ⟨fault, path.toString⟩) = result := by
  have way := way_makeWay path.anchor false path.names.reverse wellFormed
  simp only [makingWay] at done
  generalize makeWay path.anchor false tree path.names.reverse = found at way done
  obtain ⟨made, later⟩ := found
  obtain ⟨mapped, rfl⟩ := Prod.mk.inj done
  exact ⟨made, way, mapped⟩

theorem lawful_makingWay : makingWay.Lawful :=
  { lawful_plain with
    makes := fun tree path location after wellFormed done => by
      obtain ⟨made, way, mapped⟩ := exists_way_of_makeDirectory wellFormed done
      cases made with
      | error fault => cases mapped
      | ok found =>
          obtain rfl := Except.ok.inj mapped
          have isMade := way.made rfl found rfl
          rwa [List.reverse_reverse] at isMade
    opens := fun tree path reason after wellFormed done place => by
      obtain ⟨made, way, mapped⟩ := exists_way_of_makeDirectory wellFormed done
      cases made with
      | error fault =>
          have spared := way.failed fault rfl place
          rwa [List.tail_reverse, List.reverse_reverse] at spared
      | ok found => cases mapped }

theorem thorough_makingWay : makingWay.Thorough := thorough_plain

/-! ## Building -/

section

variable {opened : Tree} {location : Location}

theorem Made.locate_eq (made : Made path tree opened location) : opened.locate path = .ok path.resolve := by
  have stands := made.stands
  rw [isDirectoryAt] at stands
  cases located : opened.locate path with
  | error fault =>
      rw [located] at stands
      cases stands
  | ok location => rw [locate_eq_resolve located]

theorem Made.entry?_eq (made : Made path tree opened location) : opened.entry? path.resolve = some .directory := by
  have stands := made.stands
  rw [isDirectoryAt, made.locate_eq] at stands
  exact isDirectory_iff.mp stands

/-- What changes only strictly below a new directory leaves the directory where it is. -/
theorem Made.settle (made : Made path tree opened location)
    (frame : ∀ place, (∀ name rest, place ≠ path.resolve ++ name :: rest) → after.entry? place = opened.entry? place) :
    after.isDirectoryAt path = true ∧ ∀ place, ¬ path.resolve <+: place → after.entry? place = opened.entry? place := by
  refine ⟨isDirectoryAt_of_stands made.locate_eq (fun place held => ?_) ?_, fun place outside => frame place ?_⟩
  · rw [frame place, held]
    rintro name rest rfl
    have empty := made.empty (name :: rest) (List.cons_ne_nil _ _)
    rw [made.resolved] at empty
    cases empty.symm.trans held
  · rw [frame, made.entry?_eq]
    intro name rest same
    cases List.append_right_eq_self.mp same.symm
  · rintro name rest rfl
    exact outside (List.prefix_append _ _)

end

/-- Where a snapshot is built, either its directory could not be made, or it was not there before; then it is there now, and only
what is in it has changed since. -/
theorem build_cases {system : SnapshotSystem} (lawful : system.Lawful) (wellFormed : tree.WellFormed) (path : Path)
    (source : Location) (snapshotOf : Option String → Nat → Snapshot) :
    (∃ error reason opened, system.makeDirectory tree path = (.error reason, opened) ∧
      system.build tree path source snapshotOf = (.error error, opened)) ∨
    ∃ opened result after, Made path tree opened path.resolve ∧ system.build tree path source snapshotOf = (result, after) ∧
      after.isDirectoryAt path = true ∧ ∀ place, ¬ path.resolve <+: place → after.entry? place = opened.entry? place := by
  cases making : system.makeDirectory tree path with
  | mk made opened =>
    cases made with
    | error reason =>
        exact Or.inl ⟨.notCreated source.toString reason, reason, opened, rfl, by rw [build, making]⟩
    | ok location =>
        right
        have made := lawful.makes tree path location opened wellFormed making
        obtain rfl := made.resolved
        have copied := lawful.copies opened path.resolve source made.wellFormed made.entry?_eq made.empty
        have copyFrame : ∀ place, (∀ name rest, place ≠ path.resolve ++ name :: rest) →
            Tree.entry? (system.copy opened path.resolve source).2 place = opened.entry? place := by
          intro place outside
          refine copied place ?_
          rintro ⟨rest, rfl⟩
          exact outside Snapshot.treeName rest (by rw [List.append_assoc]; rfl)
        simp only [build, making]
        generalize system.copy opened path.resolve source = copying at copyFrame ⊢
        obtain ⟨result, copy⟩ := copying
        cases result with
        | error reason => exact ⟨opened, _, _, made, rfl, made.settle copyFrame⟩
        | ok done =>
            dsimp only at copyFrame ⊢
            split
            · exact ⟨opened, _, _, made, rfl, made.settle copyFrame⟩
            · generalize snapshotOf _ _ = snapshot
              have written := lawful.writes copy (path.resolve ++ [Snapshot.metadataName])
                (Text.encode snapshot.metadata.render.toList)
              generalize system.write copy (path.resolve ++ [Snapshot.metadataName])
                (Text.encode snapshot.metadata.render.toList) = writing at written ⊢
              obtain ⟨result, after⟩ := writing
              have frame := made.settle fun place outside =>
                (written place (outside Snapshot.metadataName [])).trans (copyFrame place outside)
              cases result with
              | error reason => exact ⟨opened, _, _, made, rfl, frame⟩
              | ok done => exact ⟨opened, _, _, made, rfl, frame⟩

end SnapshotSystem

namespace SnapshotStore

open SnapshotSystem

variable {store : SnapshotStore} {source : Path} {world : World} {system : SnapshotSystem}

/-- The name of a directory that stands in the store is drawn again, and taking a snapshot gets as far as to find the directory. -/
structure Loses (system : SnapshotSystem) (store : SnapshotStore) (source : Path) (id : String) (world : World) : Prop where
  isDirectory : world.tree.entry? source.resolve = some .directory
  outside : ¬ source.resolve <+: store.root.resolve
  named : id = Snapshot.idOf world.now (world.attempts + 1)
  found : (system.makeDirectory world.tree (store.directory id)).2.isDirectoryAt (store.directory id) = true

theorem directory_idOf {id : String} (named : Snapshot.idOf world.now (world.attempts + 1) = id) (store : SnapshotStore) :
    (store.directory id).resolve = store.root.resolve ++ [id] ∧ (store.directory id).parent = store.root ∧
      store.directory id = ⟨store.root.anchor, store.root.names ++ [id]⟩ := by
  have spelled := ofString_idOf world.now (world.attempts + 1)
  have resolved := store.resolve_directory_idOf world.now (world.attempts + 1)
  rw [named] at spelled resolved
  refine ⟨resolved, ?_⟩
  rw [directory, spelled]
  simp [Path.join, Path.parent]

/-- A new directory on the way to that of a snapshot is its own, or is on the way to the store. -/
theorem spared_root {id : String} {before after : Tree} {place : Location}
    (named : Snapshot.idOf world.now (world.attempts + 1) = id) (spared : Spared (store.directory id) before after place)
    (outside : ¬ store.root.resolve ++ [id] <+: place) : Spared store.root before after place := by
  obtain ⟨resolved, _, spelled⟩ := directory_idOf named store
  refine spared.imp_right fun ⟨absent, made, names, within, here⟩ => ⟨absent, made, ?_⟩
  rw [spelled] at within here
  rcases List.prefix_concat_iff.mp within with rfl | within
  · rw [spelled] at resolved
    rw [here, resolved] at outside
    exact absurd (List.prefix_refl _) outside
  · exact ⟨names, within, here⟩

/-- Either the directory for a snapshot cannot be made, or it is new; what is meant for the snapshot is removed unless all
succeeds. -/
theorem create_cases {id : String} (lawful : system.Lawful) (wellFormed : world.tree.WellFormed)
    (named : Snapshot.idOf world.now (world.attempts + 1) = id)
    (isDirectory : world.tree.entry? source.resolve = some .directory) (outside : ¬ source.resolve <+: store.root.resolve)
    (purpose : String) :
    (∃ error opened, (system.makeDirectory world.tree (store.directory id)).2 = opened ∧
      (∀ place, Spared store.root world.tree opened place) ∧ store.create source purpose world system =
        (.error error, { world with tree := system.remove opened (store.directory id), attempts := world.attempts + 1 })) ∨
    world.tree.entry? (store.root.resolve ++ [id]) = none ∧ ∃ after, after.isDirectoryAt (store.directory id) = true ∧
      (∀ place, ¬ store.root.resolve ++ [id] <+: place → Spared store.root world.tree after place) ∧
      ((∃ snapshot, store.create source purpose world system =
        (.ok snapshot, { world with tree := after, attempts := world.attempts + 1 })) ∨
      ∃ error, store.create source purpose world system =
        (.error error, { world with tree := system.remove after (store.directory id), attempts := world.attempts + 1 })) := by
  obtain ⟨resolved, parent, _⟩ := directory_idOf named store
  rw [create_eq named isDirectory outside system]
  rcases build_cases lawful wellFormed (store.directory id) source.resolve (store.sketch id source.resolve purpose world)
    with ⟨error, reason, opened, making, built⟩ | ⟨opened, result, after, made, built, stands, frame⟩
  · rw [built, making]
    exact Or.inl ⟨error, opened, rfl, parent ▸ lawful.opens _ _ reason opened wellFormed making, rfl⟩
  · rw [built]
    have absent := made.absent
    rw [resolved] at absent frame
    refine Or.inr ⟨absent, after, stands, fun place outside => ?_, ?_⟩
    · exact (spared_root named (made.spared place) outside).trans (Or.inl (frame place outside))
    · cases result with
      | ok snapshot => exact Or.inl ⟨snapshot, rfl⟩
      | error error => exact Or.inr ⟨error, rfl⟩

/-- Beside the directory that is meant for a snapshot everything is spared. -/
theorem spared_create (lawful : system.Lawful) (wellFormed : world.tree.WellFormed) (store : SnapshotStore) (source : Path)
    (purpose : String) {place : Location} (outside : ¬ store.nextPlace world <+: place) :
    Spared store.root world.tree (store.create source purpose world system).2.tree place := by
  rw [nextPlace] at outside
  generalize named : Snapshot.idOf world.now (world.attempts + 1) = id at outside
  obtain ⟨resolved, _, _⟩ := directory_idOf named store
  have removes : ∀ tree, Tree.entry? (system.remove tree (store.directory id)) place = tree.entry? place := fun tree =>
    lawful.removes tree (store.directory id) place (by rwa [resolved])
  by_cases begins : world.tree.entry? source.resolve = some .directory ∧ ¬ source.resolve <+: store.root.resolve
  · rcases create_cases lawful wellFormed named begins.1 begins.2 purpose with
      ⟨error, opened, _, spared, created⟩ | ⟨_, after, _, spared, ⟨snapshot, created⟩ | ⟨error, created⟩⟩
    all_goals rw [created]
    · exact (spared place).trans (Or.inl (removes opened))
    · exact spared place outside
    · exact (spared place outside).trans (Or.inl (removes after))
  · obtain ⟨error, refused⟩ := create_of_refused begins purpose system
    rw [refused]
    exact Or.inl rfl

/-- Where the drawn name is that of a directory in the store, no snapshot is taken; the directory is removed if it is found. -/
theorem create_of_taken {id : String} (lawful : system.Lawful) (wellFormed : world.tree.WellFormed)
    (named : Snapshot.idOf world.now (world.attempts + 1) = id)
    (taken : world.tree.entry? (store.root.resolve ++ [id]) = some .directory) (purpose : String) :
    (∃ error, (store.create source purpose world system).1 = .error error) ∧
      (¬ Loses system store source id world → ∀ place,
        Spared store.root world.tree (store.create source purpose world system).2.tree place) ∧
      (Loses system store source id world → ∃ opened, opened.isDirectoryAt (store.directory id) = true ∧
        (store.create source purpose world system).2.tree = system.remove opened (store.directory id)) := by
  by_cases begins : world.tree.entry? source.resolve = some .directory ∧ ¬ source.resolve <+: store.root.resolve
  · rcases create_cases lawful wellFormed named begins.1 begins.2 purpose with
      ⟨error, opened, made, spared, created⟩ | ⟨absent, _⟩
    · rw [created]
      refine ⟨⟨error, rfl⟩, fun kept place => ?_, fun loses => ⟨opened, made ▸ loses.found, rfl⟩⟩
      have unfound : opened.isDirectoryAt (store.directory id) = false := by
        rw [Bool.eq_false_iff]
        exact fun found => kept ⟨begins.1, begins.2, named.symm, made.symm ▸ found⟩
      dsimp only
      rw [lawful.removesFound _ _ unfound]
      exact spared place
    · cases absent.symm.trans taken
  · obtain ⟨error, refused⟩ := create_of_refused begins purpose system
    rw [refused]
    exact ⟨⟨error, rfl⟩, fun _ _ => Or.inl rfl, fun loses => absurd ⟨loses.isDirectory, loses.outside⟩ begins⟩

/-- After a failure nothing is left of a new directory, if the system removes thoroughly. -/
theorem spared_of_failed_create {id : String} {error : SnapshotError} {purpose : String} (lawful : system.Lawful)
    (thorough : system.Thorough) (wellFormed : world.tree.WellFormed)
    (named : Snapshot.idOf world.now (world.attempts + 1) = id)
    (absent : world.tree.entry? (store.root.resolve ++ [id]) = none)
    (failed : (store.create source purpose world system).1 = .error error) (rest : Location) :
    Spared store.root world.tree (store.create source purpose world system).2.tree
      (store.root.resolve ++ [id] ++ rest) := by
  obtain ⟨resolved, _, _⟩ := directory_idOf named store
  have removed : ∀ tree : Tree, tree.isDirectoryAt (store.directory id) = true →
      Spared store.root world.tree (system.remove tree (store.directory id)) (store.root.resolve ++ [id] ++ rest) := by
    intro tree found
    have gone := thorough tree (store.directory id) (by rw [resolved]; simp) found rest
    rw [resolved] at gone
    exact Or.inl (gone.trans (absent_below wellFormed absent rest).symm)
  by_cases begins : world.tree.entry? source.resolve = some .directory ∧ ¬ source.resolve <+: store.root.resolve
  · rcases create_cases lawful wellFormed named begins.1 begins.2 purpose with
      ⟨error, opened, _, spared, created⟩ | ⟨_, after, stands, _, ⟨snapshot, created⟩ | ⟨error, created⟩⟩
    all_goals rw [created] at failed ⊢
    · by_cases found : opened.isDirectoryAt (store.directory id) = true
      · exact removed opened found
      · dsimp only
        rw [lawful.removesFound _ _ (by rwa [Bool.not_eq_true] at found)]
        exact spared _
    · cases failed
    · exact removed after stands
  · obtain ⟨error, refused⟩ := create_of_refused begins purpose system
    rw [refused]
    exact Or.inl rfl

/-- Wherever taking a snapshot breaks off, a directory that stands in the store is spared, unless its name is drawn again and the
directory is found: then no snapshot is taken and the directory is removed. After a failure nothing is new but directories on the
way to the store, if the system removes thoroughly what was meant for the snapshot. -/
theorem create_spares_unless_lost (lawful : system.Lawful) (wellFormed : world.tree.WellFormed) (store : SnapshotStore)
    (source : Path) (purpose : String) :
    (∀ id, world.tree.entry? (store.root.resolve ++ [id]) = some .directory →
      (¬ Loses system store source id world →
        (∀ rest, Spared store.root world.tree (store.create source purpose world system).2.tree
          (store.root.resolve ++ [id] ++ rest)) ∧
        (".." ∉ store.root.names → ∀ rest,
          (store.create source purpose world system).2.tree.entry? (store.root.resolve ++ [id] ++ rest) =
            world.tree.entry? (store.root.resolve ++ [id] ++ rest))) ∧
      (Loses system store source id world →
        (∃ error, (store.create source purpose world system).1 = .error error) ∧
        (system.Thorough → ∀ rest, (store.create source purpose world system).2.tree.entry?
          (store.root.resolve ++ [id] ++ rest) = none))) ∧
    ∀ error, (store.create source purpose world system).1 = .error error → ∀ place,
      ¬ store.nextPlace world <+: place ∨ system.Thorough ∧ world.tree.entry? (store.nextPlace world) = none →
        Spared store.root world.tree (store.create source purpose world system).2.tree place := by
  refine ⟨fun id stands => ⟨fun kept => ?_, fun loses => ?_⟩, fun error failed place => ?_⟩
  · have spared : ∀ rest, Spared store.root world.tree (store.create source purpose world system).2.tree
        (store.root.resolve ++ [id] ++ rest) := by
      intro rest
      by_cases named : Snapshot.idOf world.now (world.attempts + 1) = id
      · exact (create_of_taken lawful wellFormed named stands purpose).2.1 kept _
      · refine spared_create lawful wellFormed store source purpose fun inside => named ?_
        rw [nextPlace, ← List.append_nil (_ ++ [_])] at inside
        exact name_eq_of_leads inside
    refine ⟨spared, fun noParent rest => (spared rest).resolve_right ?_⟩
    rintro ⟨_, _, onWay⟩
    have shorter := (onWay.prefix_resolve noParent).length_le
    simp only [List.length_append, List.length_singleton] at shorter
    omega
  · have named := loses.named.symm
    obtain ⟨failed, _, lost⟩ := create_of_taken lawful wellFormed named stands purpose
    obtain ⟨opened, found, later⟩ := lost loses
    refine ⟨failed, fun thorough rest => ?_⟩
    obtain ⟨resolved, _, _⟩ := directory_idOf named store
    have gone := thorough opened (store.directory id) (by rw [resolved]; simp) found rest
    rwa [later, ← resolved]
  · rintro (outside | ⟨thorough, absent⟩)
    · exact spared_create lawful wellFormed store source purpose outside
    · by_cases inside : store.nextPlace world <+: place
      · obtain ⟨rest, rfl⟩ := inside
        exact spared_of_failed_create lawful thorough wellFormed rfl absent failed rest
      · exact spared_create lawful wellFormed store source purpose inside

/-- A source beside a store in which two snapshots stand, one of which has the name that is drawn next. -/
def crowdedWorld : World where
  tree := ⟨[(["src"], .directory), (["src", "a.gs"], .file [120]), (["home"], .directory),
    (["home", "old"], .directory), (["home", "old", "tree"], .directory), (["home", "old", "tree", "b"], .file [121]),
    (["home", "20260102_030405_00000001"], .directory), (["home", "20260102_030405_00000001", "tree"], .directory),
    (["home", "20260102_030405_00000001", "tree", "c"], .file [122])]⟩
  now := ⟨2026, 1, 2, 3, 4, 5, 0⟩

theorem wellFormed_crowdedWorld : crowdedWorld.tree.WellFormed where
  named := by decide
  once := by decide
  parents := by decide

theorem collides_crowdedWorld :
    Collides ⟨⟨"/", ["home"]⟩⟩ ⟨"/", ["src"]⟩ "20260102_030405_00000001" crowdedWorld where
  isDirectory := by decide
  outside := by decide
  followed := by decide
  named := by decide
  taken := by decide

/-- The snapshot whose name is drawn again is gone though no snapshot was taken. -/
theorem drawnName_loses_snapshot : ∃ error after,
    create ⟨⟨"/", ["home"]⟩⟩ ⟨"/", ["src"]⟩ "manual" crowdedWorld = (.error error, after) ∧
      crowdedWorld.tree.entry? ["home", "20260102_030405_00000001", "tree", "c"] = some (.file [122]) ∧
      after.tree.entry? ["home", "20260102_030405_00000001", "tree", "c"] = none := by
  obtain ⟨error, created⟩ := collides_crowdedWorld.create_eq "manual"
  exact ⟨error, _, created, by decide, by decide⟩

def detouredStore : SnapshotStore :=
  ⟨⟨"/", ["lost", "..", "home"]⟩⟩

/-- A system that makes the directories on the way finds the snapshot whose name is drawn again there, too, and spares the
other one. -/
theorem detouredStore_spares_unless_lost :
    crowdedWorld.tree.WellFormed ∧ makingWay.Lawful ∧
      (detouredStore.create ⟨"/", ["src"]⟩ "manual" crowdedWorld .makingWay).2.tree.entry? ["home", "old", "tree", "b"] =
        some (.file [121]) ∧
      (detouredStore.create ⟨"/", ["src"]⟩ "manual" crowdedWorld .makingWay).2.tree.entry?
        ["home", "20260102_030405_00000001", "tree", "c"] = none := by
  have spares := (create_spares_unless_lost lawful_makingWay wellFormed_crowdedWorld detouredStore ⟨"/", ["src"]⟩ "manual").1
  have kept : ¬ Loses .makingWay detouredStore ⟨"/", ["src"]⟩ "old" crowdedWorld := by
    intro loses
    exact absurd loses.named (by decide)
  have loses : Loses .makingWay detouredStore ⟨"/", ["src"]⟩ "20260102_030405_00000001" crowdedWorld :=
    ⟨by decide, by decide, by decide, by decide⟩
  refine ⟨wellFormed_crowdedWorld, lawful_makingWay, ?_, ?_⟩
  · exact ((spares "old" (by decide)).1 kept).1 ["tree", "b"] |>.of_held (by decide)
  · exact ((spares "20260102_030405_00000001" (by decide)).2 loses).2 thorough_makingWay ["tree", "c"]

end SnapshotStore
end Deadwood
