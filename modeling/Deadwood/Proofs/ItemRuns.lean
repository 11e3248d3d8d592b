import Deadwood.Proofs.DeletionLogs
import Deadwood.Proofs.ItemCommands
import Deadwood.Proofs.SettingsFrame
import Deadwood.Proofs.SnapshotTaking

/-!
# Items deleted by commands

A command that deletes an item finds its settings and the snapshot as the one before it found them, and deletes what the session
would delete that has done all before. Commands that are given one after another, up to the first that does not end well, so do
what one session does up to the first item that it cannot delete.
-/

set_option autoImplicit false
namespace Deadwood

open Files

/-! ## What an item changes in the tree -/

inductive Files.Tree.Touched (tree later : Tree) (place : Location) : Prop where
  | untouched (same : later = tree)
  | written (content : Bytes) (written : tree.write place content = .ok later)
  | removed (removed : tree.remove place = .ok later)

namespace Files.Tree.Touched

variable {tree later : Tree} {place other : Location}

theorem entry?_eq (touched : Touched tree later place) (wellFormed : tree.WellFormed) (elsewhere : other ≠ place) :
    later.entry? other = tree.entry? other := by
  cases touched with
  | untouched same => rw [same]
  | written content written => rw [entry?_write written, if_neg elsewhere]
  | removed removed => rw [entry?_remove wellFormed removed, if_neg elsewhere]

theorem directory_iff (touched : Touched tree later place) (wellFormed : tree.WellFormed) (other : Location) :
    later.entry? other = some .directory ↔ tree.entry? other = some .directory := by
  by_cases here : other = place
  · subst here
    cases touched with
    | untouched same => rw [same]
    | written content written =>
        rw [entry?_write written, if_pos rfl]
        exact iff_of_false (fun same => by cases same) (not_directory_of_write written)
    | removed removed =>
        have gone : later.entry? other = none := by rw [entry?_remove wellFormed removed, if_pos rfl]
        refine ⟨fun held => (by cases gone.symm.trans held), fun held => ?_⟩
        cases gone.symm.trans (directory_of_remove wellFormed removed held)
  · rw [touched.entry?_eq wellFormed here]

/-- A source file may be touched without any change to what else there is. -/
theorem sameBesideSources (touched : Touched tree later place) (wellFormed : tree.WellFormed)
    (isSource : FileKind.ofPath? (place.getLastD "") ≠ none) : tree.SameBesideSources later where
  directories := touched.directory_iff wellFormed
  others other noSource := touched.entry?_eq wellFormed (by rintro rfl; exact isSource noSource)

end Files.Tree.Touched

namespace DeletionSession

theorem touched_deleteFile (session : DeletionSession) (path : String) :
    session.tree.Touched (session.deleteFile path).1.tree (placeOf session.root path) := by
  unfold deleteFile
  split
  · exact .untouched rfl
  · rename_i tree size done
    rcases exists_of_withoutFile done with ⟨_, same⟩ | ⟨_, _, removed⟩
    · exact .untouched same
    · exact .removed removed

theorem touched_deleteFunction (session : DeletionSession) (path name : String) :
    session.tree.Touched (session.deleteFunction path name).1.tree (placeOf session.root path) := by
  unfold deleteFunction
  split
  · exact .untouched rfl
  · rename_i location text read
    have place : location = placeOf session.root path := (of_textOf read).1
    subst place
    have noted : (if (session.pending.lookup path).isSome then session
        else { session with originals := putText path text session.originals }).tree = session.tree := by
      split <;> rfl
    dsimp only
    generalize (if (session.pending.lookup path).isSome then session
      else { session with originals := putText path text session.originals }) = started at noted ⊢
    split
    · exact .untouched noted
    · split
      · exact .untouched noted
      · rename_i tree written
        split at written
        · obtain rfl := Except.ok.inj written
          exact .untouched noted
        · have done := of_faultAt written
          rw [noted] at done
          exact .written _ done

/-- An item writes or removes at most the file at its place. -/
theorem touched_step (session : DeletionSession) (item : DeletionItem) :
    session.tree.Touched (session.step item).tree (placeOf session.root item.path) := by
  cases item with
  | file path => exact touched_deleteFile session path
  | function path name => exact touched_deleteFunction session path name

end DeletionSession

namespace DeletionSession

/-- The session after items that are deleted one after another, up to the first that cannot be deleted. -/
def untilFailure (session : DeletionSession) : List DeletionItem → DeletionSession
  | [] => session
  | item :: rest =>
    match item.deleteIn session with
    | (later, none) => later
    | (later, some _) => later.untilFailure rest

theorem untilFailure_cons (session : DeletionSession) (item : DeletionItem) (rest : List DeletionItem) :
    session.untilFailure (item :: rest) =
      if (item.deleteIn session).2.isSome then (session.step item).untilFailure rest else session.step item := by
  rw [untilFailure, step]
  obtain ⟨later, _ | record⟩ := item.deleteIn session <;> rfl

theorem failures_step (session : DeletionSession) (item : DeletionItem) :
    (item.deleteIn session).2.isSome = true ∧ (session.step item).failures = session.failures ∨
      (item.deleteIn session).2.isSome = false ∧ ∃ failure, (session.step item).failures = session.failures ++ [failure] := by
  cases item with
  | file path =>
      change (session.deleteFile path).2.isSome = true ∧ (session.deleteFile path).1.failures = _ ∨
        (session.deleteFile path).2.isSome = false ∧ ∃ failure, (session.deleteFile path).1.failures = _
      unfold deleteFile
      split
      · exact Or.inr ⟨rfl, _, rfl⟩
      · exact Or.inl ⟨rfl, rfl⟩
  | function path name =>
      change (session.deleteFunction path name).2.isSome = true ∧ (session.deleteFunction path name).1.failures = _ ∨
        (session.deleteFunction path name).2.isSome = false ∧ ∃ failure, (session.deleteFunction path name).1.failures = _
      unfold deleteFunction
      split
      · exact Or.inr ⟨rfl, _, rfl⟩
      · rename_i location text read
        have noted : (if (session.pending.lookup path).isSome then session
            else { session with originals := putText path text session.originals }).failures = session.failures := by
          split <;> rfl
        dsimp only
        generalize (if (session.pending.lookup path).isSome then session
          else { session with originals := putText path text session.originals }) = started at noted ⊢
        rw [← noted]
        split
        · exact Or.inr ⟨rfl, _, rfl⟩
        · split
          · exact Or.inr ⟨rfl, _, rfl⟩
          · exact Or.inl ⟨rfl, rfl⟩

theorem failures_prefix_foldl (session : DeletionSession) (items : List DeletionItem) :
    session.failures <+: (items.foldl step session).failures := by
  induction items generalizing session with
  | nil => exact List.prefix_refl _
  | cons item rest inductionHypothesis =>
      refine List.IsPrefix.trans ?_ (inductionHypothesis (session.step item))
      rcases failures_step session item with ⟨_, same⟩ | ⟨_, failure, more⟩
      · rw [same]
      · exact ⟨[failure], more.symm⟩

/-- If no item fails, all are deleted. -/
theorem untilFailure_eq_foldl {session : DeletionSession} {items : List DeletionItem}
    (noFailure : (items.foldl step session).failures = session.failures) :
    session.untilFailure items = items.foldl step session := by
  induction items generalizing session with
  | nil => rfl
  | cons item rest inductionHypothesis =>
      rw [List.foldl_cons] at noFailure ⊢
      have onWay := failures_prefix_foldl (session.step item) rest
      rcases failures_step session item with ⟨deleted, same⟩ | ⟨_, failure, more⟩
      · rw [untilFailure_cons, if_pos deleted]
        exact inductionHypothesis (noFailure.trans same.symm)
      · rw [noFailure, more] at onWay
        exact absurd onWay.length_le (by simp)

end DeletionSession

/-! ## Commands under one snapshot -/

namespace CommandLine

/-- Commands that are run one after another, each by itself, up to the first that does not end well. No links are put. -/
def runCommands (toolkit : Toolkit) (places : Places) : List (List String) → World → World
  | [], world => world
  | arguments :: rest, world =>
    match run arguments { places := places, world := world, toolkit := toolkit } with
    | (result, console) => if exitStatus result = 0 then runCommands toolkit places rest console.world else console.world

open DeletionLog DeletionSession SnapshotStore

/-- Paths that name source files below a root, each one its own. -/
structure NameSources (root : Location) (paths : List String) : Prop where
  below : ∀ path ∈ paths, root <+: placeOf root path
  source : ∀ path ∈ paths, FileKind.ofPath? ((placeOf root path).getLastD "") ≠ none
  apart : ∀ path ∈ paths, ∀ other ∈ paths, placeOf root path = placeOf root other → path = other

def logPlace (places : Places) (settings : Settings) (snapshot : Snapshot) : Location :=
  (storeOf places settings).root.resolve ++ [snapshot.id, Snapshot.logName]

/-- A world in which commands find their root, their settings and the snapshot, and in which a new session goes on as the session
would. -/
structure Underway (toolkit : Toolkit) (places : Places) (settings : Settings) (root : Location) (paths : List String)
    (now : Moment) (snapshot : Snapshot) (saved : Tree) (world : World) (session : DeletionSession) : Prop where
  now_eq : world.now = now
  isRoot : world.tree.isDirectoryAt ⟨"/", root⟩ = true
  loaded : Settings.load places world.tree (some ⟨"/", root⟩) none toolkit.tables = .ok settings
  holds : Holds (storeOf places settings) world.tree snapshot root saved
  followed : world.tree.locate (storeOf places settings).root = .ok (storeOf places settings).root.resolve
  mayGrow : MayGrow world.tree (logPlace places settings snapshot)
  resumes : Resumes paths root now snapshot.id world.tree session

namespace Underway

variable {toolkit : Toolkit} {places : Places} {settings : Settings} {root : Location} {paths : List String} {now : Moment}
  {snapshot : Snapshot} {saved : Tree} {world : World} {session later : DeletionSession} {tree : Tree}

theorem not_below (underway : Underway toolkit places settings root paths now snapshot saved world session) (rest : Location) :
    ¬ root <+: (storeOf places settings).root.resolve ++ [snapshot.id] ++ rest := by
  intro below
  exact underway.holds.apart.not_prefix (List.prefix_refl root) rest below

/-- The commands go on when a source file below the root has been touched. -/
theorem touch (underway : Underway toolkit places settings root paths now snapshot saved world session) {place : Location}
    (below : root <+: place) (isSource : FileKind.ofPath? (place.getLastD "") ≠ none)
    (touched : world.tree.Touched tree place) (resumes : Resumes paths root now snapshot.id tree later) :
    Underway toolkit places settings root paths now snapshot saved { world with tree := tree } later := by
  have wellFormed := underway.resumes.wellFormed
  have same := touched.sameBesideSources wellFormed isSource
  have elsewhere (rest : Location) : tree.entry? ((storeOf places settings).root.resolve ++ [snapshot.id] ++ rest) =
      world.tree.entry? ((storeOf places settings).root.resolve ++ [snapshot.id] ++ rest) := by
    refine touched.entry?_eq wellFormed ?_
    rintro rfl
    exact underway.not_below rest below
  refine ⟨underway.now_eq, ?_, ?_, underway.holds.of_same wellFormed resumes.wellFormed elsewhere, ?_, ?_, resumes⟩
  · exact (same.isDirectoryAt_eq _).trans underway.isRoot
  · exact (Settings.load_congr same places _).trans underway.loaded
  · exact same.locate underway.followed
  · have log := elsewhere [Snapshot.logName]
    rw [List.append_assoc, List.singleton_append] at log
    have mayGrow := underway.mayGrow
    unfold MayGrow logPlace at mayGrow ⊢
    rwa [log]

/-- The commands go on when the log has been written. -/
theorem log (underway : Underway toolkit places settings root paths now snapshot saved world session) {content : Bytes}
    (written : world.tree.write (logPlace places settings snapshot) content = .ok tree)
    (mayGrow : MayGrow tree (logPlace places settings snapshot)) :
    Underway toolkit places settings root paths now snapshot saved { world with tree := tree } session := by
  have wellFormed := underway.resumes.wellFormed
  have touched : world.tree.Touched tree (logPlace places settings snapshot) := .written content written
  have isSource : FileKind.ofPath? ((logPlace places settings snapshot).getLastD "") ≠ none := by
    have named : FileKind.ofPath? Snapshot.logName ≠ none := by decide +kernel
    simpa [logPlace] using named
  have same := touched.sameBesideSources wellFormed isSource
  have wellFormed' : tree.WellFormed := wellFormed.write (by
    rw [logPlace, List.mem_append, not_or]
    refine ⟨no_parent_resolve _, ?_⟩
    simp [Ne.symm underway.holds.noParent, Snapshot.logName]) written
  have elsewhere (name : String) (other : name ≠ Snapshot.logName) (rest : Location) :
      tree.entry? ((storeOf places settings).root.resolve ++ [snapshot.id, name] ++ rest) =
        world.tree.entry? ((storeOf places settings).root.resolve ++ [snapshot.id, name] ++ rest) := by
    refine touched.entry?_eq wellFormed fun here => other ?_
    rw [logPlace, List.append_assoc, List.append_cancel_left_eq] at here
    simpa using (List.cons.inj (List.cons.inj here).2).1
  refine ⟨underway.now_eq, ?_, ?_, ?_, same.locate underway.followed, mayGrow, underway.resumes.elsewhere wellFormed' ?_⟩
  · exact (same.isDirectoryAt_eq _).trans underway.isRoot
  · exact (Settings.load_congr same places _).trans underway.loaded
  · have metadata := elsewhere Snapshot.metadataName (by decide) []
    have copy := elsewhere Snapshot.treeName (by decide) []
    rw [List.append_nil] at metadata copy
    exact { underway.holds with
      metadata := metadata.trans underway.holds.metadata
      copy := copy.trans underway.holds.copy
      copied := (Tree.below_congr wellFormed wellFormed' fun rest _ => elsewhere Snapshot.treeName (by decide) rest).trans
        underway.holds.copied }
  · intro place inside
    refine touched.entry?_eq wellFormed ?_
    rintro rfl
    refine underway.not_below [Snapshot.logName] ?_
    rwa [List.append_assoc, List.singleton_append]

/-! ### One command -/

theorem id_ne_empty (underway : Underway toolkit places settings root paths now snapshot saved world session) :
    snapshot.id ≠ "" := by
  intro empty
  have same := underway.holds.found.trans underway.holds.directory
  rw [empty] at same
  have names := congrArg (fun path : Path => path.names.length) same
  simp [SnapshotStore.directory, Path.join, Path.ofString, splitNames, splitNames.keep] at names

theorem loadOrCreate_eq (underway : Underway toolkit places settings root paths now snapshot saved world session)
    (purpose : String) :
    (storeOf places settings).loadOrCreate (some snapshot.id) ⟨"/", root⟩ purpose world = (.ok snapshot, world) := by
  have named : (some snapshot.id).filter (!·.isEmpty) = some snapshot.id := by
    simp [underway.id_ne_empty]
  rw [loadOrCreate, named]
  dsimp only
  rw [underway.holds.load underway.followed]

/-- What a command deletes under the snapshot is what the session deletes, whether or not the log can be extended. -/
theorem deleteItem (underway : Underway toolkit places settings root paths now snapshot saved world session)
    (sources : NameSources root paths) (noParent : ".." ∉ root) {item : DeletionItem} (named : item.path ∈ paths) :
    ∃ deletion later, (storeOf places settings).deleteItem (some snapshot.id) ⟨"/", root⟩ item {} world = (.ok deletion, later) ∧
      deletion.record = (item.deleteIn session).2 ∧ (∀ error ∈ deletion.logError, error = .logNotAppended) ∧
        Underway toolkit places settings root paths now snapshot saved later (session.step item) := by
  obtain ⟨records, resumes⟩ := underway.resumes.deleteIn sources.apart named
  have touched := touched_step (realStart world.tree root now snapshot.id) item
  have gone : Underway toolkit places settings root paths now snapshot saved
      { world with tree := (item.deleteIn (realStart world.tree root now snapshot.id)).1.tree } (session.step item) :=
    underway.touch (sources.below _ named) (sources.source _ named) touched resumes
  have start : ({ tree := world.tree, root := (⟨"/", root⟩ : Path).resolve, now := world.now, snapshotId := some snapshot.id } :
      DeletionSession) = realStart world.tree root now snapshot.id := by
    rw [resolve_of_no_parent noParent, underway.now_eq]
    rfl
  rw [SnapshotStore.deleteItem, underway.loadOrCreate_eq]
  dsimp only
  rw [LinkedSession.delete_unlinked, start]
  dsimp only
  rw [records]
  generalize ({ world with tree := (item.deleteIn (realStart world.tree root now snapshot.id)).1.tree } : World) = after at gone ⊢
  generalize (item.deleteIn (realStart world.tree root now snapshot.id)).1 = deleted
  cases recorded : (item.deleteIn session).2 with
  | none => exact ⟨_, _, rfl, rfl, by simp, gone⟩
  | some record =>
      have located : after.tree.locate snapshot.logFile = .ok (logPlace places settings snapshot) :=
        gone.holds.locate_inside gone.followed (by decide)
      have taken : snapshot.originPath = .ok (Path.ofString root.toString) := by
        rw [Snapshot.originPath, underway.holds.origin_eq]
      dsimp only
      rcases tryAppendLog_cases located taken gone.mayGrow deleted.records with kept | ⟨later, content, grown, written, mayGrow⟩
      · rw [kept]
        exact ⟨_, _, rfl, rfl, by simp, gone⟩
      · rw [grown]
        exact ⟨_, _, rfl, rfl, by simp, gone.log written mayGrow⟩

end Underway

/-- The words of an item are no options, and a toolkit can show what is said of its deletion. -/
structure Commandable (toolkit : Toolkit) (item : DeletionItem) : Prop where
  pathWord : IsWord item.path
  nameWord : ∀ name ∈ item.name?, IsWord name
  shown : ∀ record, ∃ line, toolkit.shown ("[green]✓[/green] " ++ deletedLine record item) = .ok line

namespace Underway

variable {toolkit : Toolkit} {places : Places} {settings : Settings} {root : Location} {paths : List String} {now : Moment}
  {snapshot : Snapshot} {saved : Tree} {world : World} {session : DeletionSession} {text : String}

/-- The command that deletes an item ends well if the session can delete the item. -/
theorem run_item (underway : Underway toolkit places settings root paths now snapshot saved world session)
    (handles : toolkit.Handles) (sources : NameSources root paths) (noParent : ".." ∉ root) (rootWord : IsWord text)
    (read : Path.ofString text = ⟨"/", root⟩) {item : DeletionItem} (named : item.path ∈ paths) 
    (commandable : Commandable toolkit item) :
    ∃ result console, run (item.arguments text snapshot.id) { places := places, world := world, toolkit := toolkit } =
        (result, console) ∧
      (exitStatus result = 0 ↔ (item.deleteIn session).2.isSome = true) ∧
        Underway toolkit places settings root paths now snapshot saved console.world (session.step item) := by
  obtain ⟨deletion, later, done, record, logged, goesOn⟩ := underway.deleteItem sources noParent named
  generalize isConsole : ({ places := places, world := world, toolkit := toolkit } : Console) = console
  have handled : console.toolkit.Handles := by
    rw [← isConsole]
    exact handles
  have isRoot : console.world.tree.isDirectoryAt ⟨"/", root⟩ = true := by
    rw [← isConsole]
    exact underway.isRoot
  have loaded : Settings.load console.places console.world.tree (some ⟨"/", root⟩) none console.toolkit.tables = .ok settings := by
    rw [← isConsole]
    exact underway.loaded
  have deleted : (storeOf console.places settings).deleteItem (some snapshot.id) ⟨"/", root⟩ item console.links console.world =
      (.ok deletion, later) := by
    rw [← isConsole]
    exact done
  have shown : ∀ record, ∃ line, console.toolkit.shown ("[green]✓[/green] " ++ deletedLine record item) = .ok line := by
    rw [← isConsole]
    exact commandable.shown
  rw [run_arguments handled rootWord read isRoot commandable.pathWord commandable.nameWord]
  cases recorded : (item.deleteIn session).2 with
  | none =>
      obtain ⟨ending, console, ended, world'⟩ := deleteOne_of_unrecorded loaded deleted (record.trans recorded)
      exact ⟨.error ending, console, ended, iff_of_false (exitStatus_error ending) Bool.false_ne_true, world' ▸ goesOn⟩
  | some made =>
      obtain ⟨console, ended, world'⟩ := deleteOne_of_recorded loaded deleted handled (record.trans recorded) logged (shown made)
      exact ⟨.ok (), console, ended, iff_of_true rfl rfl, world' ▸ goesOn⟩

/-- The commands for items do what the session does up to the first item that it cannot delete. -/
theorem run_items (underway : Underway toolkit places settings root paths now snapshot saved world session)
    (handles : toolkit.Handles) (sources : NameSources root paths) (noParent : ".." ∉ root) (rootWord : IsWord text)
    (read : Path.ofString text = ⟨"/", root⟩) {items : List DeletionItem} (named : ∀ item ∈ items, item.path ∈ paths)
    (commandable : ∀ item ∈ items, Commandable toolkit item) :
    Underway toolkit places settings root paths now snapshot saved
      (runCommands toolkit places (items.map (·.arguments text snapshot.id)) world) (session.untilFailure items) := by
  induction items generalizing world session with
  | nil => exact underway
  | cons item rest inductionHypothesis =>
      obtain ⟨isNamed, restNamed⟩ := List.forall_mem_cons.mp named
      obtain ⟨isCommandable, restCommandable⟩ := List.forall_mem_cons.mp commandable
      obtain ⟨result, console, ran, ended, goesOn⟩ :=
        underway.run_item handles sources noParent rootWord read isNamed isCommandable
      rw [List.map_cons, runCommands, ran, untilFailure_cons]
      dsimp only
      by_cases deleted : (item.deleteIn session).2.isSome = true
      · rw [if_pos (ended.mpr deleted), if_pos deleted]
        exact inductionHypothesis goesOn restNamed restCommandable
      · rw [if_neg fun good => deleted (ended.mp good), if_neg deleted]
        exact goesOn

end Underway
end CommandLine
end Deadwood
