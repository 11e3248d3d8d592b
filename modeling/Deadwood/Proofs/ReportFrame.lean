import Deadwood.Proofs.PathLaws
import Deadwood.Proofs.TreeLaws
import Deadwood.Report.Files
import Deadwood.Snapshot.Log

/-!
# What reports and logs touch

Writing a report changes its own files and makes the directory for them if it is not there, whether all of it can be
written or not. Writing the log of a snapshot changes its file.
-/

set_option autoImplicit false
namespace Deadwood

open Files

namespace Report

open Tree

variable {tree tree' : Tree} {directory : Path}

def placeIn (directory : Path) (name : String) : Location :=
  (directory.join ⟨"", [name]⟩).resolve

structure Wrote (directory : Path) (forms : List (String × String × String)) (tree tree' : Tree) : Prop where
  wellFormed : tree.WellFormed → tree'.WellFormed
  changes : ∀ place, tree'.entry? place = tree.entry? place ∨ ∃ form ∈ forms, place = placeIn directory form.2.1

theorem Wrote.nothing (directory : Path) (forms : List (String × String × String)) (tree : Tree) :
    Wrote directory forms tree tree :=
  ⟨id, fun _ => Or.inl rfl⟩

theorem wrote_writeFiles (directory : Path) (forms : List (String × String × String)) (tree : Tree) :
    Wrote directory forms tree (writeFiles directory tree forms).2 := by
  induction forms generalizing tree with
  | nil => exact .nothing directory [] tree
  | cons form rest ih =>
      obtain ⟨word, name, text⟩ := form
      unfold writeFiles
      dsimp only
      split
      · exact .nothing directory _ tree
      · rename_i later written
        cases located : tree.locate (directory.join ⟨"", [name]⟩) with
        | error fault =>
            rw [located] at written
            cases written
        | ok location =>
            obtain rfl := locate_eq_resolve located
            rw [located] at written
            have done : tree.write (placeIn directory name) (Text.encode text.toList) = .ok later := written
            have tail := ih later
            refine ⟨fun whole => tail.wellFormed (whole.write (no_parent_resolve _) done), fun place => ?_⟩
            rcases tail.changes place with same | ⟨form, listed, here⟩
            · by_cases here : place = placeIn directory name
              · exact Or.inr ⟨_, List.mem_cons_self, here⟩
              · refine Or.inl (same.trans ((entry?_write done place).trans ?_))
                rw [if_neg here]
            · exact Or.inr ⟨form, List.mem_cons_of_mem _ listed, here⟩

/-- At a place nothing has changed but what a report to a directory writes and makes. -/
inductive Reported (directory : Path) (forms : List (String × String × String)) (tree tree' : Tree)
    (place : Location) : Prop
  | same (unchanged : tree'.entry? place = tree.entry? place)
  | file {form : String × String × String} (listed : form ∈ forms) (here : place = placeIn directory form.2.1)
  | made (onWay : place <+: directory.resolve) (absent : tree.entry? place = none)
      (isDirectory : tree'.entry? place = some .directory)

/-- The tree with the files of a report, which has none if its forms cannot be made. -/
theorem writeAll_tree (report : Report) (directory : Path) (tree : Tree) :
    (report.writeAll directory tree).2 = match (tree.locate directory).bind tree.makeDirectories with
      | .error _ => tree
      | .ok opened => (writeFiles directory opened (report.forms?.getD [])).2 := by
  unfold writeAll
  cases (tree.locate directory).bind tree.makeDirectories with
  | error fault => rfl
  | ok opened => cases report.forms? <;> rfl

theorem reported_writeAll (report : Report) (directory : Path) (tree : Tree) (place : Location) :
    Reported directory (report.forms?.getD []) tree (report.writeAll directory tree).2 place := by
  rw [writeAll_tree]
  split
  · exact .same rfl
  · rename_i opened done
    cases located : tree.locate directory with
    | error fault =>
        rw [located] at done
        cases done
    | ok location =>
        obtain rfl := locate_eq_resolve located
        rw [located] at done
        have way := openedTo_of_makeDirectories (done : tree.makeDirectories directory.resolve = .ok opened)
        rcases (wrote_writeFiles directory (report.forms?.getD []) opened).changes place with same | ⟨form, listed, here⟩
        · rw [way.entry?_eq] at same
          split at same
          · rename_i onWay
            rcases way.way place onWay with absent | held
            · exact .made onWay absent same
            · exact .same (same.trans held.symm)
          · exact .same same
        · exact .file listed here

theorem wellFormed_writeAll (report : Report) (directory : Path) (wellFormed : tree.WellFormed) :
    (report.writeAll directory tree).2.WellFormed := by
  rw [writeAll_tree]
  split
  · exact wellFormed
  · rename_i opened done
    cases located : tree.locate directory with
    | error fault =>
        rw [located] at done
        cases done
    | ok location =>
        obtain rfl := locate_eq_resolve located
        rw [located] at done
        have way := openedTo_of_makeDirectories (done : tree.makeDirectories directory.resolve = .ok opened)
        exact (wrote_writeFiles directory (report.forms?.getD []) opened).wellFormed
          (way.wellFormed wellFormed (no_parent_resolve _))

end Report

namespace SnapshotStore

open Tree

/-- A log is written where none is, if its numbers are short enough, and nothing else happens. -/
theorem exists_save_of_writeLog {snapshot : Snapshot} {records : List DeletionRecord} {summary : List (String × JsonValue)}
    {world world' : World} (written : writeLog snapshot records summary world = .ok world') :
    ∃ origin tree, snapshot.originPath = .ok origin ∧
      DeletionLog.save world.tree snapshot.logFile (DeletionLog.whole snapshot origin records summary world.now) = .ok tree ∧
        world' = { world with tree := tree } := by
  unfold writeLog at written
  simp only [bind, Except.bind, throw, throwThe, MonadExceptOf.throw, pure, Except.pure] at written
  split at written
  · cases written
  cases taken : snapshot.originPath with
  | error error =>
      rw [taken] at written
      cases written
  | ok origin =>
      rw [taken] at written
      dsimp only at written
      split at written
      · cases written
      split at written
      · cases written
      split at written
      · rename_i tree saved
        exact ⟨origin, tree, rfl, saved, (Except.ok.inj written).symm⟩
      · cases written

theorem entry?_writeLog {snapshot : Snapshot} {records : List DeletionRecord} {summary : List (String × JsonValue)}
    {world world' : World} (written : writeLog snapshot records summary world = .ok world') :
    (world.tree.WellFormed → world'.tree.WellFormed) ∧
      (∀ place, world.tree.entry? place = some .directory → world'.tree.entry? place = some .directory) ∧
        ∀ place, place ≠ snapshot.logFile.resolve → world'.tree.entry? place = world.tree.entry? place := by
  obtain ⟨origin, tree, _, saved, rfl⟩ := exists_save_of_writeLog written
  unfold DeletionLog.save at saved
  split at saved
  · rename_i later done
    obtain rfl := Except.ok.inj saved
    cases located : world.tree.locate snapshot.logFile with
    | error fault =>
        rw [located] at done
        cases done
    | ok location =>
        obtain rfl := locate_eq_resolve located
        rw [located] at done
        refine ⟨fun whole => whole.write (no_parent_resolve _) done, fun _ => directory_of_write done,
          fun place elsewhere => ?_⟩
        refine (entry?_write done place).trans ?_
        rw [if_neg elsewhere]
  · cases saved

end SnapshotStore
end Deadwood
