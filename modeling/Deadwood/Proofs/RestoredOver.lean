import Deadwood.Proofs.FailedSnapshots

/-!
# What a restoration does to the snapshots of a store

A restoration writes below its target and nowhere else, but for the snapshot that it takes first. A target cannot hold the
store, so a snapshot is in its way only if the target is the directory of that snapshot or lies in its copy. Nothing keeps a
target from being there: then what is saved of it gives way to what the restored snapshot holds.
-/

set_option autoImplicit false
namespace Deadwood

open Files Tree

/-! ## Copying over a cleared target -/

section Copying

variable {root place : Location} {start : Tree} {copying : Copying} {row : Location × Entry} {done rows : List (Location × Entry)}

/-- What copying one entry does: it is stuck at what is in its way, or puts the entry in its place, or into a directory that
has its place. -/
theorem Copying.step_cases (root : Location) (copying : Copying) (row : Location × Entry) :
    ((∃ above ∈ copying.blocked, above <+: row.1) ∧ copying.step root row = copying) ∨
    ((copying.tree.entry? (root ++ row.1)).isSome = true ∧ (copying.step root row).tree = copying.tree ∧
      ((copying.step root row).blocked = copying.blocked ∨ (copying.step root row).blocked = row.1 :: copying.blocked)) ∨
    ((copying.tree.entry? (root ++ row.1)).isSome = true ∧ (copying.step root row).blocked = copying.blocked ∧
      ∃ name, (copying.step root row).tree = copying.tree.put (root ++ row.1 ++ [name]) row.2) ∨
    ((copying.step root row).blocked = copying.blocked ∧
      (copying.step root row).tree = copying.tree.put (root ++ row.1) row.2) := by
  obtain ⟨relative, entry⟩ := row
  dsimp only
  by_cases stuck : copying.blocked.any (·.isPrefixOf relative) = true
  · refine Or.inl ⟨?_, by simp [Copying.step, stuck]⟩
    obtain ⟨above, isBlocked, within⟩ := List.any_eq_true.mp stuck
    exact ⟨above, isBlocked, List.isPrefixOf_iff_prefix.mp within⟩
  · refine Or.inr ?_
    cases entry with
    | directory =>
        cases held : copying.tree.entry? (root ++ relative) with
        | none =>
            refine Or.inr (Or.inr ?_)
            simp [Copying.step, stuck, isFile, isDirectory, held]
        | some other =>
            refine Or.inl ⟨rfl, ?_⟩
            cases other <;> simp [Copying.step, stuck, isFile, isDirectory, held]
    | file content =>
        by_cases isDirectory : copying.tree.isDirectory (root ++ relative) = true
        · have held : (copying.tree.entry? (root ++ relative)).isSome = true := by
            rw [isDirectory_iff.mp isDirectory]
            rfl
          rw [Copying.step]
          dsimp only
          rw [if_neg stuck, if_pos isDirectory]
          split
          · exact Or.inl ⟨held, rfl, Or.inl rfl⟩
          · exact Or.inr (Or.inl ⟨held, rfl, _, rfl⟩)
        · refine Or.inr (Or.inr ?_)
          simp [Copying.step, stuck, isDirectory]

/-- Rows have been copied below a root from which all that is saved was cleared. -/
structure Overlaid (root : Location) (start : Tree) (done : List (Location × Entry)) (copying : Copying) : Prop where
  saved_eq : ∀ place, place ≠ [] → Snapshot.isSaved place = true → copying.tree.entry? (root ++ place) = done.lookup place
  blocked : ∀ above ∈ copying.blocked, above ≠ [] ∧ Snapshot.isSaved above = false
  outside_eq : ∀ place, (∀ rest, rest ≠ [] → place ≠ root ++ rest) → copying.tree.entry? place = start.entry? place

theorem lookup_concat_of_ne (differs : place ≠ row.1) : (done ++ [row]).lookup place = done.lookup place := by
  rw [List.lookup_append, lookup_cons_of_ne differs]
  exact Option.or_none

theorem overlaid_nil (root : Location) (tree : Tree) : Overlaid root (clearSaved tree root) [] { tree := clearSaved tree root } where
  saved_eq place someName saved := entry?_clearSaved_of_cleared ⟨place, rfl, someName, saved⟩
  blocked _ isBlocked := absurd isBlocked List.not_mem_nil
  outside_eq _ _ := rfl

/-- A saved entry finds its place free, and what is not saved stays out of the places of what is. -/
theorem Overlaid.step (overlaid : Overlaid root start done copying) (someName : row.1 ≠ [])
    (new : done.lookup row.1 = none) : Overlaid root start (done ++ [row]) (copying.step root row) := by
  have free (saved : Snapshot.isSaved row.1 = true) : copying.tree.entry? (root ++ row.1) = none := by
    rw [overlaid.saved_eq row.1 someName saved, new]
  have unsaved (held : (copying.tree.entry? (root ++ row.1)).isSome = true) : Snapshot.isSaved row.1 = false := by
    rw [Bool.eq_false_iff]
    intro saved
    rw [free saved] at held
    cases held
  have differs {place : Location} (saved : Snapshot.isSaved place = true) (isUnsaved : Snapshot.isSaved row.1 = false) :
      place ≠ row.1 := by
    rintro rfl
    cases saved.symm.trans isUnsaved
  have placed {location : Location} (named : location ≠ []) (place : Location)
      (outside : ∀ rest, rest ≠ [] → place ≠ root ++ rest) :
      Tree.entry? (copying.tree.put (root ++ location) row.2) place = start.entry? place := by
    rw [entry?_put (by simp [named]), if_neg (outside location named)]
    exact overlaid.outside_eq place outside
  rcases copying.step_cases root row with ⟨⟨above, isBlocked, within⟩, same⟩ | ⟨held, sameTree, sameBlocked⟩ |
    ⟨held, sameBlocked, name, sameTree⟩ | ⟨sameBlocked, sameTree⟩
  · obtain ⟨aboveNamed, isUnsaved⟩ := overlaid.blocked above isBlocked
    have rowUnsaved : Snapshot.isSaved row.1 = false := by
      rw [Bool.eq_false_iff]
      intro saved
      rw [Snapshot.isSaved_of_within within aboveNamed saved] at isUnsaved
      cases isUnsaved
    rw [same]
    refine ⟨fun place named saved => ?_, overlaid.blocked, overlaid.outside_eq⟩
    rw [lookup_concat_of_ne (differs saved rowUnsaved)]
    exact overlaid.saved_eq place named saved
  · refine ⟨fun place named saved => ?_, fun above isBlocked => ?_, fun place outside => ?_⟩
    · rw [sameTree, lookup_concat_of_ne (differs saved (unsaved held))]
      exact overlaid.saved_eq place named saved
    · rcases sameBlocked with same | more
      · exact overlaid.blocked above (same ▸ isBlocked)
      · rw [more] at isBlocked
        rcases List.mem_cons.mp isBlocked with rfl | isBlocked
        · exact ⟨someName, unsaved held⟩
        · exact overlaid.blocked above isBlocked
    · rw [sameTree]
      exact overlaid.outside_eq place outside
  · have deeper : Snapshot.isSaved (row.1 ++ [name]) = false := by
      obtain ⟨first, rest, isRow⟩ := List.exists_cons_of_ne_nil someName
      have isUnsaved := unsaved held
      rw [isRow] at isUnsaved ⊢
      exact isUnsaved
    rw [List.append_assoc] at sameTree
    refine ⟨fun place named saved => ?_, fun above isBlocked => ?_, fun place outside => ?_⟩
    · rw [sameTree, lookup_concat_of_ne (differs saved (unsaved held)), entry?_put (by simp), if_neg]
      · exact overlaid.saved_eq place named saved
      · intro same
        rw [List.append_cancel_left same, deeper] at saved
        cases saved
    · exact overlaid.blocked above (sameBlocked ▸ isBlocked)
    · rw [sameTree]
      exact placed (by simp) place outside
  · refine ⟨fun place named saved => ?_, fun above isBlocked => ?_, fun place outside => ?_⟩
    · rw [sameTree, entry?_put (by simp [someName])]
      by_cases here : place = row.1
      · rw [if_pos (by rw [here]), here, List.lookup_append, new, List.lookup_cons_self]
        rfl
      · rw [if_neg fun same => here (List.append_cancel_left same), lookup_concat_of_ne here]
        exact overlaid.saved_eq place named saved
    · exact overlaid.blocked above (sameBlocked ▸ isBlocked)
    · rw [sameTree]
      exact placed someName place outside

theorem Overlaid.foldl (overlaid : Overlaid root start done copying) (named : ∀ row ∈ rows, row.1 ≠ [])
    (once : ((done ++ rows).map Prod.fst).Nodup) :
    Overlaid root start (done ++ rows) (rows.foldl (Copying.step root) copying) := by
  induction rows generalizing done copying with
  | nil => rwa [List.append_nil]
  | cons row rows ih =>
      have shifted : done ++ row :: rows = done ++ [row] ++ rows := by
        rw [List.append_assoc, List.singleton_append]
      have new : done.lookup row.1 = none := by
        cases found : done.lookup row.1 with
        | none => rfl
        | some entry =>
            rw [List.map_append, List.map_cons] at once
            have listed := List.mem_map_of_mem (f := Prod.fst) (mem_of_lookup_eq_some found)
            exact (List.disjoint_of_nodup_append once listed List.mem_cons_self).elim
      rw [shifted] at once ⊢
      exact ih (overlaid.step (named row List.mem_cons_self) new) (fun other isIn => named other (List.mem_cons_of_mem _ isIn)) once

end Copying

section Below

variable {tree : Tree} {place : Location}

theorem lookup_below (wellFormed : tree.WellFormed) (root : Location) (someName : place ≠ []) :
    (tree.below root).lookup place = tree.entry? (root ++ place) := by
  cases held : tree.entry? (root ++ place) with
  | some entry => exact lookup_eq_some_of_mem (nodup_keys_below wellFormed root) (wellFormed.mem_below_iff.mpr ⟨someName, held⟩)
  | none =>
      cases found : (tree.below root).lookup place with
      | none => rfl
      | some entry =>
          have listed := wellFormed.mem_below_iff.mp (mem_of_lookup_eq_some found)
          rw [held] at listed
          cases listed.2

end Below

namespace SnapshotStore

variable {store : SnapshotStore} {world mid : World} {tree : Tree} {target : Location} {snapshot safety : Snapshot}

def aim (store : SnapshotStore) (tree : Tree) (id : String) (target : Option Path) :
    Except SnapshotError (Snapshot × Location) := do
  let snapshot ← store.load tree id
  let path ← match target with
    | some path => pure path
    | none => snapshot.originPath
  return (snapshot, path.resolve)

theorem no_parent_of_aim {id : String} {path : Option Path} (aimed : store.aim tree id path = .ok (snapshot, target)) :
    ".." ∉ target := by
  unfold aim at aimed
  simp only [bind, Except.bind, pure, Except.pure] at aimed
  cases loaded : store.load tree id with
  | error error =>
      rw [loaded] at aimed
      cases aimed
  | ok found =>
      rw [loaded] at aimed
      cases path with
      | some path =>
          obtain ⟨_, rfl⟩ := Prod.mk.inj (Except.ok.inj aimed)
          exact no_parent_resolve path
      | none =>
          dsimp only at aimed
          split at aimed
          · cases aimed
          · obtain ⟨_, rfl⟩ := Prod.mk.inj (Except.ok.inj aimed)
            exact no_parent_resolve _

/-- The tree with a snapshot laid over a target, once the state before is saved. -/
def overlay (tree : Tree) (target : Location) (snapshot : Snapshot) : Tree :=
  let cleared := clearSaved tree target
  match cleared.locate snapshot.treeDirectory with
  | .error _ => cleared
  | .ok source => ((cleared.below source).foldl (Copying.step target) { tree := cleared }).tree

/-- What a snapshot that is laid over a target still holds of a place when the target is cleared. -/
def brought? (tree : Tree) (target : Location) (snapshot : Snapshot) (place : Location) : Option Entry :=
  match (clearSaved tree target).locate snapshot.treeDirectory with
  | .error _ => none
  | .ok source => Tree.entry? (clearSaved tree target) (source ++ place)

/-- A restoration changes the tree by what it takes to save the state before, and by laying the snapshot over its target. -/
theorem tree_of_rollback (store : SnapshotStore) (id : String) (target : Option Path)
    (requiredFiles requiredSymbols : List String) (world : World) :
    (store.rollback id target requiredFiles requiredSymbols world).2.tree =
      match store.aim world.tree id target with
      | .error _ => world.tree
      | .ok (snapshot, location) =>
        match store.create ⟨"/", location⟩ ("pre-rollback:" ++ id) world with
        | (.error _, mid) => mid.tree
        | (.ok _, mid) => overlay mid.tree location snapshot := by
  unfold rollback
  dsimp only
  split
  · rename_i error found
    have aimed : store.aim world.tree id target = .error error := found
    rw [aimed]
  · rename_i snapshot location found
    have aimed : store.aim world.tree id target = .ok (snapshot, location) := found
    rw [aimed]
    dsimp only
    cases store.create ⟨"/", location⟩ ("pre-rollback:" ++ id) world with
    | mk result mid =>
        cases result with
        | error error => rfl
        | ok safety =>
            dsimp only [overlay]
            cases (clearSaved mid.tree location).locate snapshot.treeDirectory with
            | error fault => rfl
            | ok source =>
                dsimp only
                split <;> rfl

theorem overlaid_below (wellFormed : tree.WellFormed) (target source : Location) :
    Overlaid target (clearSaved tree target) ((clearSaved tree target).below source)
      (((clearSaved tree target).below source).foldl (Copying.step target) { tree := clearSaved tree target }) := by
  have cleared := wellFormed_clearSaved wellFormed target
  refine (overlaid_nil target tree).foldl (fun row listed => (cleared.mem_below_iff.mp listed).1) ?_
  exact nodup_keys_below cleared source

/-- Beside a target and at it, laying a snapshot over it changes nothing. -/
theorem entry?_overlay_of_outside (wellFormed : tree.WellFormed) (snapshot : Snapshot) {place : Location}
    (outside : ∀ rest, rest ≠ [] → place ≠ target ++ rest) :
    Tree.entry? (overlay tree target snapshot) place = tree.entry? place := by
  have kept : ¬ IsCleared target place := fun ⟨rest, same, someName, _⟩ => outside rest someName same
  unfold overlay
  dsimp only
  split
  · exact entry?_clearSaved_of_kept kept
  · rw [(overlaid_below wellFormed target _).outside_eq place outside, entry?_clearSaved_of_kept kept]

/-- What is saved of a target gives way to what the snapshot holds. -/
theorem entry?_overlay_of_saved (wellFormed : tree.WellFormed) (snapshot : Snapshot) {place : Location}
    (someName : place ≠ []) (saved : Snapshot.isSaved place = true) :
    Tree.entry? (overlay tree target snapshot) (target ++ place) = brought? tree target snapshot place := by
  unfold overlay brought?
  dsimp only
  split
  · exact entry?_clearSaved_of_cleared ⟨place, rfl, someName, saved⟩
  · rw [(overlaid_below wellFormed target _).saved_eq place someName saved]
    exact lookup_below (wellFormed_clearSaved wellFormed target) _ someName

/-- Nothing is left of a snapshot that is laid over its own copy. -/
theorem brought?_own_copy {place : Location} (someName : place ≠ []) (saved : Snapshot.isSaved place = true) :
    brought? tree snapshot.treeDirectory.resolve snapshot place = none := by
  unfold brought?
  split
  · rfl
  · rename_i source found
    obtain rfl := locate_eq_resolve found
    exact entry?_clearSaved_of_cleared ⟨place, rfl, someName, saved⟩

/-! ## Snapshots that are in the way -/

def InWay (store : SnapshotStore) (target : Location) (name : String) : Prop :=
  target = store.root.resolve ++ [name] ∨ store.root.resolve ++ [name, Snapshot.treeName] <+: target

/-- The metadata and the copy of a snapshot are the same in two trees. -/
def Intact (store : SnapshotStore) (name : String) (tree tree' : Tree) : Prop :=
  ∀ rest, rest = [Snapshot.metadataName] ∨ [Snapshot.treeName] <+: rest →
    tree'.entry? (store.root.resolve ++ [name] ++ rest) = tree.entry? (store.root.resolve ++ [name] ++ rest)

/-- A target that does not hold the store holds nothing of a snapshot that is not in its way. -/
theorem outside_of_not_inWay {name : String} (notAround : ¬ target <+: store.root.resolve)
    (notInWay : ¬ store.InWay target name) {part : Location}
    (isPart : part = [Snapshot.metadataName] ∨ [Snapshot.treeName] <+: part) (rest : Location) (someName : rest ≠ []) :
    store.root.resolve ++ [name] ++ part ≠ target ++ rest := by
  intro same
  have onWay : target <+: store.root.resolve ++ [name] ++ part := same ▸ List.prefix_append target rest
  rw [List.append_assoc] at onWay same
  obtain ⟨inStore, rfl⟩ : store.root.resolve <+: target :=
    (List.prefix_or_prefix_of_prefix onWay (List.prefix_append _ _)).resolve_left notAround
  rw [List.append_assoc] at same
  have names := List.append_cancel_left same
  cases inStore with
  | nil => exact notAround (by simp only [List.append_nil, List.prefix_refl])
  | cons first inside =>
      rw [List.singleton_append, List.cons_append] at names
      obtain ⟨rfl, within⟩ := List.cons.inj names
      cases inside with
      | nil => exact notInWay (Or.inl rfl)
      | cons second inside =>
          rcases isPart with rfl | isCopy
          · have lengths := congrArg List.length within
            have positive := List.length_pos_iff.mpr someName
            rw [List.length_append, List.length_singleton, List.length_cons] at lengths
            omega
          · rw [within, List.cons_append, List.cons_prefix_cons] at isCopy
            refine notInWay (Or.inr ?_)
            rw [← isCopy.1, List.prefix_append_right_inj]
            exact ⟨inside, rfl⟩

/-- What a restoration does to a snapshot that stands in the store: nothing if it is not in the way of the target and its name
is not drawn for the state before. If its name is drawn, it is gone. If it is in the way of a target whose state has been
saved, then what is saved of the target is what the restored snapshot still holds, whatever it was before. -/
theorem rollback_spares_snapshot_unless_inWay (wellFormed : world.tree.WellFormed) (store : SnapshotStore) {name : String}
    (stands : world.tree.entry? (store.root.resolve ++ [name]) = some .directory) (id : String) (target : Option Path)
    (requiredFiles requiredSymbols : List String) :
    let after := (store.rollback id target requiredFiles requiredSymbols world).2.tree
    (∀ error, store.aim world.tree id target = .error error → after = world.tree) ∧
    ∀ snapshot location, store.aim world.tree id target = .ok (snapshot, location) →
      let saving := store.create ⟨"/", location⟩ ("pre-rollback:" ++ id) world
      (store.Collides ⟨"/", location⟩ name world →
        ∀ rest, Tree.entry? after (store.root.resolve ++ [name] ++ rest) = none) ∧
      (¬ store.Collides ⟨"/", location⟩ name world → (store.InWay location name → ∃ error, saving.1 = .error error) →
        store.Intact name world.tree after) ∧
      (store.InWay location name → ∀ safety, saving.1 = .ok safety → ∀ place, place ≠ [] → Snapshot.isSaved place = true →
        Tree.entry? after (location ++ place) = brought? saving.2.tree location snapshot place) := by
  intro after
  have afterEq : after = _ := tree_of_rollback store id target requiredFiles requiredSymbols world
  refine ⟨fun error aimed => ?_, fun snapshot location aimed => ?_⟩
  · rw [afterEq, aimed]
  · intro saving
    rw [aimed] at afterEq
    dsimp only at afterEq
    have resolved : (⟨"/", location⟩ : Path).resolve = location := resolve_of_no_parent (no_parent_of_aim aimed)
    refine ⟨fun collides rest => ?_, fun free blocked => ?_, fun inWay safety created place someName isSaved => ?_⟩
    · obtain ⟨error, created⟩ := collides.create_eq ("pre-rollback:" ++ id)
      rw [created] at afterEq
      rw [afterEq]
      exact (entry?_erase (by simp)).trans (if_pos (List.prefix_append _ _))
    · intro part isPart
      have kept := entry?_create_of_free wellFormed stands free ("pre-rollback:" ++ id) part
      cases created : store.create ⟨"/", location⟩ ("pre-rollback:" ++ id) world with
      | mk result mid =>
          rw [created] at afterEq kept
          cases result with
          | error error => rw [afterEq, kept]
          | ok safety =>
              have taken := taken_of_create wellFormed created
              have notInWay : ¬ store.InWay location name := by
                intro inWay
                obtain ⟨error, failed⟩ := blocked inWay
                cases (congrArg Prod.fst created).symm.trans failed
              rw [afterEq, ← kept]
              exact entry?_overlay_of_outside taken.wellFormed snapshot
                (outside_of_not_inWay (resolved ▸ taken.outside) notInWay isPart)
    · have result : store.create ⟨"/", location⟩ ("pre-rollback:" ++ id) world = (.ok safety, saving.2) := Prod.ext created rfl
      have taken := taken_of_create wellFormed result
      rw [result] at afterEq
      rw [afterEq]
      exact entry?_overlay_of_saved taken.wellFormed snapshot someName isSaved

/-! ## A snapshot of a small source -/

def smallStore : SnapshotStore := ⟨⟨"", ["home"]⟩⟩

structure StandsSmall (taking : World) (snapshot : Snapshot) : Prop where
  created : smallStore.create (Path.ofString "src") "" smallWorld = (.ok snapshot, taking)
  wellFormed : taking.tree.WellFormed
  source : taking.tree.entry? ["src"] = some .directory
  holds : Holds smallStore taking.tree snapshot ["src"] smallWorld.tree
  hasNext : smallStore.HasNext taking

theorem exists_standsSmall : ∃ taking snapshot, StandsSmall taking snapshot := by
  obtain ⟨tree, created⟩ := @exists_create_smallWorld smallStore rfl rfl
  have taken := taken_of_create wellFormed_smallWorld created
  have holds := holds_of_create wellFormed_smallWorld (countable_of_rows (by decide) _) created
  rw [resolve_src] at holds taken
  exact ⟨_, _, created, taken.wellFormed, taken.source_eq ["src"] (List.prefix_refl _), holds,
    hasNext_of_create_smallWorld rfl created⟩

namespace StandsSmall

variable {taking : World} {snapshot : Snapshot} (stands : StandsSmall taking snapshot)

include stands

theorem loaded : smallStore.load taking.tree snapshot.id = .ok snapshot :=
  stands.holds.load (locate_of_no_parent taking.tree (by decide))

theorem aimed (path : Path) : smallStore.aim taking.tree snapshot.id (some path) = .ok (snapshot, path.resolve) := by
  rw [aim, stands.loaded]
  rfl

theorem isDirectory : taking.tree.entry? ["home", snapshot.id] = some .directory := by
  refine stands.wellFormed.isDirectory_above stands.holds.copy (List.prefix_append ["home", snapshot.id] [Snapshot.treeName]) ?_
  intro same
  have lengths := congrArg List.length same
  cases lengths

theorem held : taking.tree.entry? ["home", snapshot.id, Snapshot.treeName, "b"] = some (.file [121]) := by
  have saved : (["b"], Entry.file [121]) ∈ Snapshot.savedEntries smallWorld.tree ["src"] :=
    (Snapshot.mem_savedEntries_iff wellFormed_smallWorld).mpr ⟨by decide, by decide, by decide⟩
  rw [← stands.holds.copied] at saved
  exact (stands.wellFormed.mem_below_iff.mp saved).2

theorem resolve_copy : snapshot.treeDirectory.resolve = ["home", snapshot.id, Snapshot.treeName] := by
  rw [Snapshot.resolve_treeDirectory, (taken_of_create wellFormed_smallWorld stands.created).resolved]
  rfl

theorem exists_saving (purpose : String) : ∃ safety mid,
    smallStore.create ⟨"/", ["home", snapshot.id, Snapshot.treeName]⟩ purpose taking = (.ok safety, mid) := by
  have resolved : (⟨"/", ["home", snapshot.id, Snapshot.treeName]⟩ : Path).resolve =
      ["home", snapshot.id, Snapshot.treeName] :=
    resolve_of_no_parent (stands.wellFormed.no_parent_name stands.holds.copy)
  have home : taking.tree.entry? ["home"] = some .directory :=
    entry_of_create wellFormed_smallWorld stands.created rfl
  have outside : ¬ ["home", snapshot.id, Snapshot.treeName] <+: ["home"] := fun within => by
    have shorter := within.length_le
    simp at shorter
  obtain ⟨tree, created⟩ := @exists_create smallStore taking ⟨"/", ["home", snapshot.id, Snapshot.treeName]⟩
    stands.wellFormed (by rw [resolved]; exact stands.holds.copy) (by rw [resolved]; exact outside)
    (locate_of_no_parent taking.tree (by decide)) (stands.wellFormed.no_file_above home) stands.hasNext purpose
  exact ⟨_, _, created⟩

end StandsSmall

/-- A snapshot that is restored over its own copy is lost. -/
theorem ownCopy_is_lost : ∃ taking snapshot,
    smallStore.create (Path.ofString "src") "" smallWorld = (.ok snapshot, taking) ∧
      taking.tree.entry? ["home", snapshot.id, Snapshot.treeName, "b"] = some (.file [121]) ∧
      (smallStore.rollback snapshot.id (some snapshot.treeDirectory) [] [] taking).2.tree.entry?
        ["home", snapshot.id, Snapshot.treeName, "b"] = none := by
  obtain ⟨taking, snapshot, stands⟩ := exists_standsSmall
  refine ⟨taking, snapshot, stands.created, stands.held, ?_⟩
  obtain ⟨safety, mid, saving⟩ := stands.exists_saving ("pre-rollback:" ++ snapshot.id)
  rw [tree_of_rollback, stands.aimed, stands.resolve_copy]
  dsimp only
  rw [saving]
  dsimp only
  have saved := @entry?_overlay_of_saved mid.tree snapshot.treeDirectory.resolve (taken_of_create stands.wellFormed saving).wellFormed
    snapshot ["b"] (by decide) (by decide)
  rw [brought?_own_copy (by decide) (by decide), stands.resolve_copy] at saved
  exact saved

/-- A snapshot that is restored over its source stays as it was. -/
theorem restored_over_source_intact : ∃ taking snapshot,
    smallStore.create (Path.ofString "src") "" smallWorld = (.ok snapshot, taking) ∧
      smallStore.Intact snapshot.id taking.tree
        (smallStore.rollback snapshot.id (some ⟨"/", ["src"]⟩) [] [] taking).2.tree := by
  obtain ⟨taking, snapshot, stands⟩ := exists_standsSmall
  refine ⟨taking, snapshot, stands.created, ?_⟩
  obtain ⟨_, spares⟩ := rollback_spares_snapshot_unless_inWay stands.wellFormed smallStore stands.isDirectory snapshot.id
    (some ⟨"/", ["src"]⟩) [] []
  obtain ⟨_, intact, _⟩ := spares snapshot ["src"] (stands.aimed ⟨"/", ["src"]⟩)
  refine intact (fun collides => stands.holds.id_ne_next stands.wellFormed stands.hasNext collides.named) ?_
  have differs : "src" ≠ "home" := by decide
  rintro (same | ⟨rest, same⟩)
  · exact absurd (List.cons.inj same).1 differs
  · exact absurd (List.cons.inj same).1.symm differs

end SnapshotStore
end Deadwood
