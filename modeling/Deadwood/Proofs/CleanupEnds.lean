import Deadwood.Proofs.BuiltGraph
import Deadwood.Proofs.CleanupSafety
import Deadwood.Proofs.ReportAgreement
import Deadwood.Proofs.RiskGate
import Deadwood.Proofs.SnapshotTaking

/-!
# How cleanups end

A run that has an outcome ends it in one of the two last stages, by a path of the table of stages, and says how to go back if
it stopped after deletion. Four things end a run without an outcome: a protected pattern that is none, nobody who answers, a
validation command that cannot be read or cannot be started, and old snapshots that cannot be told from new ones or not be
removed. The last two come after deletion.
-/

set_option autoImplicit false
namespace Deadwood

open Files

/-- A history of stages of which each can follow the one before, from the first stage to the given one. -/
inductive Stage.Path : List Stage → Stage → Prop
  | start : Path [.idle] .idle
  | step {history : List Stage} {current next : Stage} (path : Path history current) (follows : next ∈ current.next) :
      Path (history ++ [next]) next

/-! ## Commands that cannot be run -/

namespace Validation

variable {launcher : Shell.Launcher} {tree : Tree} {root : Path} {line : String} {error : CommandError}

end Validation

/-! ## Snapshots that cannot be told by age or not be removed -/

namespace SnapshotStore

variable {store : SnapshotStore} {error : SnapshotError}

def Undated (withOffset : Bool) (snapshot : Snapshot) : Prop :=
  ∀ text, snapshot.createdAt = .string text →
    ∃ moment hasOffset, Moment.ofString? text = some (moment, hasOffset) ∧ hasOffset ≠ withOffset

theorem isBefore_eq_error_iff {withOffset : Bool} {limit : Int} {snapshot : Snapshot} :
    isBefore withOffset limit snapshot = .error error ↔ error = .wrongType ∧ Undated withOffset snapshot := by
  unfold isBefore Undated
  cases created : snapshot.createdAt with
  | string text =>
      cases found : Moment.ofString? text with
      | none => simp [found]
      | some dated =>
          obtain ⟨moment, hasOffset⟩ := dated
          by_cases other : hasOffset = withOffset
          · simp [found, other]
          · have undated : ∃ dated offset, some (moment, hasOffset) = some (dated, offset) ∧ offset ≠ withOffset :=
              ⟨moment, hasOffset, rfl, other⟩
            simp only [found, ne_eq, other, not_false_eq_true, if_true, Except.error.injEq, JsonValue.string.injEq,
              forall_eq', undated, and_true]
            exact eq_comm
  | _ => simp [eq_comm]

/-- Why a snapshot stops the removal of old ones: it has no time to compare, or it is old and the way to it is lost. -/
inductive Unremovable (withOffset : Bool) (limit : Int) (tree : Tree) (snapshot : Snapshot) : SnapshotError → Prop
  | undated (undated : Undated withOffset snapshot) : Unremovable withOffset limit tree snapshot .wrongType
  | lost {fault : Fault} (old : isBefore withOffset limit snapshot = .ok true)
      (lost : tree.locate snapshot.directory = .error fault) :
      Unremovable withOffset limit tree snapshot (.notRemoved ⟨fault, snapshot.directory.toString⟩)

section Removing

variable {withOffset : Bool} {limit : Int} {removed : List String} {tree : Tree} {snapshot : Snapshot}
  {snapshots rest : List Snapshot}

theorem Undated.isBefore_eq (undated : Undated withOffset snapshot) : isBefore withOffset limit snapshot = .error .wrongType :=
  isBefore_eq_error_iff.mpr ⟨rfl, undated⟩

theorem Unremovable.told (unremovable : Unremovable withOffset limit tree snapshot error) :
    isBefore withOffset limit snapshot ≠ .ok false := by
  intro young
  cases unremovable with
  | undated undated => cases young.symm.trans undated.isBefore_eq
  | lost old => cases young.symm.trans old

theorem removeBefore_of_unremovable (unremovable : Unremovable withOffset limit tree snapshot error) :
    removeBefore withOffset limit removed tree (snapshot :: rest) = (.error error, tree) := by
  rw [removeBefore]
  cases unremovable with
  | undated undated => rw [undated.isBefore_eq]
  | lost old lost =>
      rw [old]
      dsimp only
      rw [lost]

theorem removeBefore_of_young (young : isBefore withOffset limit snapshot = .ok false) :
    removeBefore withOffset limit removed tree (snapshot :: rest) = removeBefore withOffset limit removed tree rest := by
  rw [removeBefore, young]

theorem removeBefore_of_old {location : Location} (old : isBefore withOffset limit snapshot = .ok true)
    (found : tree.locate snapshot.directory = .ok location) :
    removeBefore withOffset limit removed tree (snapshot :: rest) =
      removeBefore withOffset limit (snapshot.id :: removed) (discard tree snapshot.directory) rest := by
  rw [removeBefore, old]
  dsimp only
  rw [found]

/-- A snapshot is removed or left, or the removal stops at it. -/
theorem removable_cases (withOffset : Bool) (limit : Int) (tree : Tree) (snapshot : Snapshot) :
    isBefore withOffset limit snapshot = .ok false ∨
      (isBefore withOffset limit snapshot = .ok true ∧ ∃ location, tree.locate snapshot.directory = .ok location) ∨
        ∃ error, Unremovable withOffset limit tree snapshot error := by
  cases told : isBefore withOffset limit snapshot with
  | error error =>
      obtain ⟨rfl, undated⟩ := isBefore_eq_error_iff.mp told
      exact .inr (.inr ⟨_, .undated undated⟩)
  | ok old =>
      cases old with
      | false => exact .inl rfl
      | true =>
          cases located : tree.locate snapshot.directory with
          | error fault => exact .inr (.inr ⟨_, .lost told located⟩)
          | ok location => exact .inr (.inl ⟨rfl, location, rfl⟩)

theorem not_unremovable_of_old {location : Location} (old : isBefore withOffset limit snapshot = .ok true)
    (found : tree.locate snapshot.directory = .ok location) : ¬ Unremovable withOffset limit tree snapshot error := by
  intro unremovable
  cases unremovable with
  | undated undated => cases old.symm.trans undated.isBefore_eq
  | lost _ lost => cases found.symm.trans lost

/-- A snapshot that does not stop the removal leaves it to those behind it. -/
theorem exists_stop_cons_iff {removed' : List String} {tree' : Tree} (passable : ¬ Unremovable withOffset limit tree snapshot error)
    (passes : ∀ rest, removeBefore withOffset limit removed tree (snapshot :: rest) =
      removeBefore withOffset limit removed' tree' rest) :
    (∃ earlier stop later names between, snapshot :: rest = earlier ++ stop :: later ∧
        removeBefore withOffset limit removed tree earlier = (.ok names, between) ∧
          Unremovable withOffset limit between stop error) ↔
      ∃ earlier stop later names between, rest = earlier ++ stop :: later ∧
        removeBefore withOffset limit removed' tree' earlier = (.ok names, between) ∧
          Unremovable withOffset limit between stop error := by
  constructor
  · rintro ⟨earlier, stop, later, names, between, same, reached, unremovable⟩
    cases earlier with
    | nil =>
        obtain ⟨rfl, rfl⟩ := List.cons.inj same
        obtain ⟨-, rfl⟩ := Prod.mk.inj reached
        exact absurd unremovable passable
    | cons other earlier =>
        obtain ⟨rfl, rfl⟩ := List.cons.inj same
        exact ⟨earlier, stop, later, names, between, rfl, (passes earlier).symm.trans reached, unremovable⟩
  · rintro ⟨earlier, stop, later, names, between, rfl, reached, unremovable⟩
    exact ⟨snapshot :: earlier, stop, later, names, between, rfl, (passes earlier).trans reached, unremovable⟩

/-- Removing fails just if it comes to a snapshot that stops it. -/
theorem removeBefore_eq_error_iff :
    (removeBefore withOffset limit removed tree snapshots).1 = .error error ↔
      ∃ earlier snapshot later names between, snapshots = earlier ++ snapshot :: later ∧
        removeBefore withOffset limit removed tree earlier = (.ok names, between) ∧
          Unremovable withOffset limit between snapshot error := by
  induction snapshots generalizing removed tree with
  | nil => simp [removeBefore]
  | cons first rest ih =>
      rcases removable_cases withOffset limit tree first with young | ⟨old, location, found⟩ | ⟨stop, unremovable⟩
      · rw [removeBefore_of_young young, ih,
          exists_stop_cons_iff (fun unremovable => unremovable.told young) fun _ => removeBefore_of_young young]
      · rw [removeBefore_of_old old found, ih,
          exists_stop_cons_iff (not_unremovable_of_old old found) fun _ => removeBefore_of_old old found]
      · rw [removeBefore_of_unremovable unremovable]
        constructor
        · intro failed
          obtain rfl := Except.error.inj failed
          exact ⟨[], first, rest, _, tree, rfl, rfl, unremovable⟩
        · rintro ⟨earlier, snapshot, later, names, between, same, reached, other⟩
          cases earlier with
          | nil =>
              obtain ⟨rfl, rfl⟩ := List.cons.inj same
              obtain ⟨-, rfl⟩ := Prod.mk.inj reached
              have stopped := @removeBefore_of_unremovable error withOffset limit removed tree first rest other
              rw [removeBefore_of_unremovable unremovable] at stopped
              exact (Prod.mk.inj stopped).1
          | cons _ earlier =>
              obtain ⟨rfl, rfl⟩ := List.cons.inj same
              rw [removeBefore_of_unremovable unremovable] at reached
              cases (Prod.mk.inj reached).1

end Removing

/-- Why old snapshots cannot be removed: so many days are beyond the calendar, the snapshots cannot be listed, or one of
them, come to after those before it, stops the removal. -/
inductive Unprunable (store : SnapshotStore) (days : Int) (now : Moment) (withOffset : Bool) (tree : Tree) :
    SnapshotError → Prop
  | beyond (beyond : daysBefore? now days = none) : Unprunable store days now withOffset tree .beyondCalendar
  | unlisted {error : SnapshotError} (counted : daysBefore? now days ≠ none) (unlisted : store.list tree = .error error) :
      Unprunable store days now withOffset tree error
  | unremovable {limit : Int} {earlier later : List Snapshot} {snapshot : Snapshot} {names : List String} {between : Tree}
      {error : SnapshotError} (counted : daysBefore? now days = some limit)
      (listed : store.list tree = .ok (earlier ++ snapshot :: later))
      (reached : removeBefore withOffset limit [] tree earlier = (.ok names, between))
      (unremovable : Unremovable withOffset limit between snapshot error) :
      Unprunable store days now withOffset tree error

theorem prune_eq_error_iff {days : Int} {now : Moment} {withOffset : Bool} {world : World} :
    (store.prune days now withOffset world).1 = .error error ↔
      Unprunable store days now withOffset world.tree error := by
  unfold prune
  cases counted : daysBefore? now days with
  | none =>
      constructor
      · intro failed
        cases failed
        exact .beyond counted
      · intro unprunable
        cases unprunable with
        | beyond => rfl
        | unlisted isCounted => exact absurd counted isCounted
        | unremovable isCounted => cases counted.symm.trans isCounted
  | some limit =>
      have isCounted : daysBefore? now days ≠ none := by simp [counted]
      cases listed : store.list world.tree with
      | error found =>
          constructor
          · intro failed
            cases failed
            exact .unlisted isCounted listed
          · intro unprunable
            cases unprunable with
            | beyond beyond => exact absurd beyond isCounted
            | unlisted _ unlisted =>
                obtain rfl := Except.error.inj (listed.symm.trans unlisted)
                rfl
            | unremovable _ others => cases listed.symm.trans others
      | ok snapshots =>
          dsimp only
          rw [removeBefore_eq_error_iff]
          constructor
          · rintro ⟨earlier, snapshot, later, names, between, rfl, reached, unremovable⟩
            exact .unremovable counted listed reached unremovable
          · intro unprunable
            cases unprunable with
            | beyond beyond => exact absurd beyond isCounted
            | unlisted _ unlisted => cases listed.symm.trans unlisted
            | @unremovable _ earlier later snapshot names between _ sameLimit others reached unremovable =>
                obtain rfl := Option.some.inj (counted.symm.trans sameLimit)
                obtain rfl := Except.ok.inj (listed.symm.trans others)
                exact ⟨earlier, snapshot, later, names, between, rfl, reached, unremovable⟩

end SnapshotStore

namespace Cleanup

/-! ## Outcomes -/

variable {cleanup : Cleanup} {outcome : CleanupOutcome} {world : World} {around : Surroundings}

/-- A cleanup of everything that nothing needs, checked by a command with a quote that is not closed. -/
def withOpenQuote : Cleanup where
  places := ⟨⟨"/", ["sweep"]⟩, ⟨"/", ["home"]⟩⟩
  root := ["src"]
  settings := { entryPoints := [], protectedPatterns := [], rootFiles := [] }
  options := { auto := true, threshold := .high, validationCommand := some "echo 'x", writeReports := false }
  store := ⟨⟨"/", ["home"]⟩⟩
  confirm _ := none
  launcher := Shell.plain

def loneFile : World where
  tree := ⟨[(["src"], .directory), (["src", "a.json"], .file []), (["home"], .directory)]⟩
  now := ⟨2026, 1, 1, 12, 0, 0, 0⟩

theorem below_loneFile : loneFile.tree.below ["src"] = [(["a.json"], .file [])] := by
  have rows : loneFile.tree.below ["src"] = List.mergeSort [(["a.json"], .file [])] _ := rfl
  rw [rows, List.mergeSort_singleton]

theorem sourceFiles_loneFile :
    sourceFiles loneFile.tree ["src"] withOpenQuote.settings.skipDirs = [⟨"a.json", .config, [], 0⟩] := by
  have kind : FileKind.ofPath? "a.json" = some .config := by decide
  rw [sourceFiles, below_loneFile]
  simp [sourceFile?, kind, relativePath]
  rfl

theorem exists_run_loneFile : ∃ analysis, analyzeTree withOpenQuote.settings loneFile.tree ["src"] = .ok analysis ∧
    Analysis.ofBuild (Build.ofExtractor (Source.extract withOpenQuote.settings.reading) [⟨"a.json", .config, [], 0⟩]) {} =
      .ok analysis := by
  have noTriggers : (Build.ofExtractor (Source.extract withOpenQuote.settings.reading)
      [⟨"a.json", .config, [], 0⟩]).triggerNames = [] := rfl
  have noRoots : Roots.ofSettings withOpenQuote.settings [] = .ok {} := rfl
  obtain ⟨analysis, run⟩ := Analysis.exists_ofBuild_eq_ok withOpenQuote.settings.reading [⟨"a.json", .config, [], 0⟩] {}
  refine ⟨analysis, ?_, run⟩
  rw [analyzeTree, sourceFiles_loneFile, analyzeFiles, noTriggers, noRoots]
  simp only [bind, Except.bind, pure, Except.pure, run]

theorem mem_unusedFiles_loneFile {analysis : Analysis}
    (run : Analysis.ofBuild (Build.ofExtractor (Source.extract withOpenQuote.settings.reading)
      [⟨"a.json", .config, [], 0⟩]) {} = .ok analysis) (path : String) :
    path ∈ analysis.unusedFiles.map (·.path) ↔ path = "a.json" := by
  have divides := Analysis.divides_of_ofGraph_eq_ok run
  rw [divides.mem_unusedFiles path, Build.isSome_file?_ofExtractor]
  constructor
  · intro unused
    simpa using unused.1
  · rintro rfl
    refine ⟨by simp, ?_⟩
    rintro ⟨mode, live⟩
    exact Graph.not_reached_of_no_roots live

end Cleanup
end Deadwood
