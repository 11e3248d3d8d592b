import Deadwood.Cleanup.Run
import Deadwood.Proofs.ReportFrame
import Deadwood.Proofs.SessionFrame
import Deadwood.Proofs.SnapshotPruning
import Deadwood.Proofs.SnapshotTaking
import Deadwood.Shell.Command

/-!
# The safety of cleanups

A run that does not come to delete leaves its tree as it was, reports aside. A run that deletes was allowed to, has saved the
tree just before, and changes only files that its plan names. Two things are not guarded against. A snapshot that cannot be
taken has its directory taken away although it may have been there, with the tree in it; and old snapshots are removed by
what their directories hold, which the tree may hold too.
-/

set_option autoImplicit false
namespace Deadwood

open Files Files.Tree

/-- If nothing is said of it, time stands still. -/
@[simp] theorem Surroundings.later_default (glance : Glance) (world : World) : ({} : Surroundings).later glance world = world :=
  rfl

namespace Cleanup

/-! ## What is said of a run -/

/-- The run has come to the stage that deletes: its outcome says so, or it ended as only later stages can. -/
def entersMutating : Except CleanupError CleanupOutcome → Bool
  | .ok outcome => outcome.history.contains .mutating
  | .error (.command _) => true
  | .error (.snapshots _) => true
  | .error _ => false

def OnlyReports (cleanup : Cleanup) (now : Moment) (before after : Tree) (place : Location) : Prop :=
  after.entry? place = before.entry? place ∨ ∃ directory, ∃ report : Report,
    cleanup.reportDirectory? = some directory ∧ report.generatedAt = now.toSeconds ∧
      Report.Reported directory (report.forms?.getD []) before after place

def Gone (root : Location) (tree : Tree) : Prop :=
  ∀ place, root <+: place → tree.entry? place = none

def drawnDirectory (cleanup : Cleanup) (world : World) : Location :=
  cleanup.store.root.resolve ++ [Snapshot.idOf world.now (world.attempts + 1)]

/-- What a run leaves that does not delete. -/
structure Spared (cleanup : Cleanup) (world after : World) : Prop where
  /-- A dry run writes reports and nothing else. -/
  rehearsal : cleanup.options.dryRun = true → ∀ place, cleanup.OnlyReports world.now world.tree after.tree place
  /-- The tree is left as it was, unless it was inside the directory drawn for a snapshot. -/
  root : (∀ place, cleanup.root <+: place → cleanup.OnlyReports world.now world.tree after.tree place) ∨
    cleanup.drawnDirectory world <+: cleanup.root ∧ Gone cleanup.root after.tree

def stagesBefore (cleanup : Cleanup) : List Stage :=
  [.idle, .analyzing, .reporting] ++ (if cleanup.options.needsConfirmation then [.awaitingConfirmation] else []) ++
    [.backingUp]

def planOf (cleanup : Cleanup) (analysis : Analysis) : Plan :=
  Plan.ofAssessment cleanup.options.threshold (Assessment.ofAnalysis cleanup.settings.riskPolicy analysis)

/-- The run may carry out its plan: it is no dry run, and there is nobody to be asked or the answer was yes. -/
structure Permitted (cleanup : Cleanup) (world : World) (outcome : CleanupOutcome) (plan : Plan) : Prop where
  chosen : ∃ analysis, analyzeTree cleanup.settings world.tree cleanup.root = .ok analysis ∧ plan = cleanup.planOf analysis
  planned : outcome.plan = some plan
  real : cleanup.options.dryRun = false
  allowed : cleanup.options.auto = true ∨ cleanup.options.nonInteractive = true ∨
    cleanup.confirm (cleanup.describe plan) = some true
  asked : outcome.question = if cleanup.options.needsConfirmation then some (cleanup.describe plan) else none

/-- The root still stands and only files that the plan names differ; no directory was removed that held the root. -/
structure Kept (cleanup : Cleanup) (plan : Plan) (before : Tree) (result : Result) : Prop where
  stands : result.2.tree.entry? cleanup.root = some .directory
  others : ∀ place, cleanup.root <+: place → (∀ path ∈ plan.paths, place ≠ DeletionSession.placeOf cleanup.root path) →
    result.2.tree.entry? place = before.entry? place
  unheld : ".." ∉ cleanup.store.root.names → ∀ final, result.1 = .ok final → ∀ name ∈ final.pruned,
    ¬ cleanup.store.root.resolve ++ [name] <+: cleanup.root

/-- A directory was removed as an old snapshot that held the root, and all of it is gone. -/
structure Lost (cleanup : Cleanup) (result : Result) : Prop where
  automatic : cleanup.options.auto = true
  gone : Gone cleanup.root result.2.tree
  held : ∃ name, cleanup.store.root.resolve ++ [name] <+: cleanup.root ∧
    ∀ final, result.1 = .ok final → name ∈ final.pruned

/-- What a run has done that deletes, and what it leaves. Deletion begins with an outcome, a plan and a snapshot in the
world `before`. -/
structure Deleted (cleanup : Cleanup) (world : World) (result : Result) (outcome : CleanupOutcome) (plan : Plan)
    (snapshot : Snapshot) (before : World) : Prop extends Permitted cleanup world outcome plan where
  begins : result = cleanup.mutate outcome plan snapshot before
  saved : outcome.snapshot = some snapshot
  history : outcome.history = cleanup.stagesBefore
  onward : ∀ final, result.1 = .ok final → final.plan = outcome.plan ∧ final.snapshot = outcome.snapshot ∧
    final.question = outcome.question ∧ ∃ last, final.history = outcome.history ++ [.mutating, .validating, last]
  /-- Before deletion the tree is as it was at first. -/
  undisturbed : ∀ place, cleanup.root <+: place → cleanup.OnlyReports world.now world.tree before.tree place
  /-- The copy is the tree just before deletion. -/
  copy : before.tree.below snapshot.treeDirectory.resolve = Snapshot.savedEntries before.tree cleanup.root
  /-- It is still there afterwards, unless it was itself removed as too old. -/
  copyStays : result.2.tree.below snapshot.treeDirectory.resolve = before.tree.below snapshot.treeDirectory.resolve ∨
    cleanup.options.auto = true ∧ ∀ final, result.1 = .ok final → snapshot.id ∈ final.pruned
  left : Kept cleanup plan before.tree result ∨ Lost cleanup result

/-- A run either leaves its tree alone, or deletes with permission and with a copy. -/
def Safe (cleanup : Cleanup) (world : World) (result : Result) : Prop :=
  entersMutating result.1 = false ∧ Spared cleanup world result.2 ∨
    entersMutating result.1 = true ∧ ∃ outcome plan snapshot before,
      Deleted cleanup world result outcome plan snapshot before

/-- Nobody is asked anything but whether the plan of the analysis is to be carried out: another who answers this alike, if
it has to be asked at all, makes no difference. -/
def AsksOnly (cleanup : Cleanup) (world : World) : Prop :=
  ∀ other : String → Option Bool,
    (∀ analysis, analyzeTree cleanup.settings world.tree cleanup.root = .ok analysis →
      cleanup.options.needsConfirmation = true → other (cleanup.describe (cleanup.planOf analysis)) =
        cleanup.confirm (cleanup.describe (cleanup.planOf analysis))) →
    { cleanup with confirm := other }.run world = cleanup.run world

/-! ## Entering stages -/

theorem enter_eq {outcome : CleanupOutcome} {stage : Stage} (follows : outcome.stage.next.contains stage = true) :
    outcome.enter stage = .ok { outcome with stage := stage, history := outcome.history ++ [stage] } :=
  if_pos follows

theorem finish_eq {outcome : CleanupOutcome} (message : String) (follows : outcome.stage.next.contains .done = true) :
    outcome.finish message =
      .ok { outcome with message := message, stage := .done, history := outcome.history ++ [.done] } :=
  if_pos follows

theorem abort_eq {outcome : CleanupOutcome} (message : String) (hint : Option String)
    (follows : outcome.stage.next.contains .aborted = true) :
    outcome.abort message hint =
      .ok { outcome with
        failedStage := some outcome.stage, message := message, rollbackHint := hint, stage := .aborted
        history := outcome.history ++ [.aborted] } :=
  if_pos follows

/-! ## After deletion -/

/-- Old snapshots are removed; `erased` are the directories that go. -/
structure Pruning (cleanup : Cleanup) (worked : Tree) (result : Result) (erased : List Location) : Prop where
  automatic : erased ≠ [] → cleanup.options.auto = true
  tree_eq : result.2.tree = erased.foldl Tree.erase worked
  each : ∀ location ∈ erased, ∃ name, location = cleanup.store.root.resolve ++ [name] ∧
    ∀ final, result.1 = .ok final → name ∈ final.pruned
  complete : ".." ∉ cleanup.store.root.names → ∀ final, result.1 = .ok final → ∀ name ∈ final.pruned,
    ∃ location ∈ erased, location <+: cleanup.store.root.resolve ++ [name]

/-- What comes after deletion: the rest of the history, and old snapshots removed. -/
structure Ended (cleanup : Cleanup) (outcome : CleanupOutcome) (worked : Tree) (result : Result) : Prop where
  onward : ∀ final, result.1 = .ok final → final.plan = outcome.plan ∧ final.snapshot = outcome.snapshot ∧
    final.question = outcome.question ∧ ∃ last, final.history = outcome.history ++ [last]
  late : ∀ error, result.1 = .error error → entersMutating (.error error) = true
  pruned : ∃ erased, Pruning cleanup worked result erased

variable {cleanup : Cleanup} {outcome : CleanupOutcome} {world : World}

theorem pruning_nothing {result : Except CleanupError CleanupOutcome}
    (unpruned : ∀ final, result = .ok final → final.pruned = []) : Pruning cleanup world.tree (result, world) [] where
  automatic none := absurd rfl none
  tree_eq := rfl
  each _ member := absurd member List.not_mem_nil
  complete _ final same name member := by
    rw [unpruned final same] at member
    cases member

theorem ended_of_unchanged {final : CleanupOutcome} (plan : final.plan = outcome.plan)
    (snapshot : final.snapshot = outcome.snapshot) (question : final.question = outcome.question)
    (unpruned : final.pruned = []) (history : ∃ last, final.history = outcome.history ++ [last]) :
    Ended cleanup outcome world.tree (.ok final, world) where
  onward found same := by
    obtain rfl := Except.ok.inj same
    exact ⟨plan, snapshot, question, history⟩
  late _ same := by cases same
  pruned := ⟨[], pruning_nothing fun found same => Except.ok.inj same ▸ unpruned⟩

theorem ended_close (session : DeletionSession) (stage : outcome.stage = .validating) (unpruned : outcome.pruned = [])
    (wellFormed : world.tree.WellFormed) : Ended cleanup outcome world.tree (cleanup.close outcome session world) := by
  have finished := fun (later : CleanupOutcome) (same : later.stage = .validating) =>
    @finish_eq later (closingMessage session) (by rw [same]; decide)
  unfold close
  split
  · rename_i automatic
    split
    · rename_i error after ran
      obtain ⟨erased, taken⟩ := SnapshotStore.exists_pruned wellFormed ran
      refine ⟨fun _ same => (by cases same), fun _ same => ?_, erased, fun _ => automatic, taken.tree_eq,
        fun location member => ?_, fun _ _ same => (by cases same)⟩
      · obtain rfl := Except.error.inj same
        rfl
      · obtain ⟨name, place, _, _⟩ := taken.each location member
        exact ⟨name, place, fun _ same => (by cases same)⟩
    · rename_i removed after ran
      obtain ⟨erased, taken⟩ := SnapshotStore.exists_pruned wellFormed ran
      rw [finished { outcome with pruned := removed } stage]
      refine ⟨fun _ same => ?_, fun _ same => (by cases same), erased, fun _ => automatic, taken.tree_eq,
        fun location member => ?_, fun plain final same name member => ?_⟩
      · obtain rfl := Except.ok.inj same
        exact ⟨rfl, rfl, rfl, .done, rfl⟩
      · obtain ⟨name, place, _, noted⟩ := taken.each location member
        refine ⟨name, place, fun _ same => ?_⟩
        obtain rfl := Except.ok.inj same
        exact noted removed rfl
      · obtain rfl := Except.ok.inj same
        exact taken.complete plain removed rfl name member
  · rw [finished outcome stage]
    exact ended_of_unchanged rfl rfl rfl unpruned ⟨.done, rfl⟩

theorem ended_validate (session : DeletionSession) (hint : String) (stage : outcome.stage = .mutating)
    (unpruned : outcome.pruned = []) (wellFormed : world.tree.WellFormed) :
    Ended cleanup { outcome with history := outcome.history ++ [.validating] } world.tree
      (cleanup.validate outcome session hint world) := by
  unfold validate
  rw [enter_eq (by rw [stage]; decide)]
  dsimp only
  split
  · refine ⟨fun _ same => (by cases same), fun _ same => ?_, [], pruning_nothing fun _ same => (by cases same)⟩
    obtain rfl := Except.error.inj same
    rfl
  · rename_i validation _
    split
    · have ended := @ended_close cleanup { outcome with
          stage := .validating, history := outcome.history ++ [.validating], validation := some validation }
        world session rfl unpruned wellFormed
      exact ⟨ended.onward, ended.late, ended.pruned⟩
    · rw [abort_eq _ _ rfl]
      exact ended_of_unchanged rfl rfl rfl unpruned ⟨.aborted, rfl⟩

/-! ## Deletion -/

structure Worked (cleanup : Cleanup) (plan : Plan) (snapshot : Snapshot) (before worked : Tree) : Prop where
  wellFormed : worked.WellFormed
  directories : ∀ place, before.entry? place = some .directory → worked.entry? place = some .directory
  changes : ∀ place, worked.entry? place = before.entry? place ∨
    (cleanup.root <+: place ∧ ∃ path ∈ plan.paths, place = DeletionSession.placeOf cleanup.root path) ∨
      place = snapshot.logFile.resolve

theorem worked_of_follows {plan : Plan} {snapshot : Snapshot} {session : DeletionSession}
    (wellFormed : world.tree.WellFormed)
    (follows : DeletionSession.Follows plan.paths (cleanup.session world snapshot) session) :
    Worked cleanup plan snapshot world.tree session.tree where
  wellFormed := follows.wellFormed wellFormed
  directories := follows.directories wellFormed
  changes place := (follows.changes wellFormed place).imp_right Or.inl

theorem Worked.of_writeLog {plan : Plan} {snapshot : Snapshot} {before : Tree} {after : World}
    {records : List DeletionRecord} {summary : List (String × JsonValue)}
    (worked : Worked cleanup plan snapshot before world.tree)
    (written : SnapshotStore.writeLog snapshot records summary world = .ok after) :
    Worked cleanup plan snapshot before after.tree := by
  obtain ⟨stays, directories, unlogged⟩ := SnapshotStore.entry?_writeLog written
  refine ⟨stays worked.wellFormed, fun place held => directories place (worked.directories place held), fun place => ?_⟩
  by_cases here : place = snapshot.logFile.resolve
  · exact Or.inr (Or.inr here)
  · rw [unlogged place here]
    exact worked.changes place

/-- What comes after deletion does not depend on what the outcome notes of it. -/
theorem Ended.of_noted {noted : CleanupOutcome} {worked : Tree} {result : Result}
    (ended : Ended cleanup { noted with history := noted.history ++ [.validating] } worked result)
    (plan : noted.plan = outcome.plan) (snapshot : noted.snapshot = outcome.snapshot)
    (question : noted.question = outcome.question) (history : noted.history = outcome.history ++ [.mutating]) :
    Ended cleanup { outcome with history := outcome.history ++ [.mutating, .validating] } worked result := by
  refine ⟨fun final same => ?_, ended.late, ended.pruned⟩
  obtain ⟨samePlan, sameSnapshot, sameQuestion, last, later⟩ := ended.onward final same
  refine ⟨samePlan.trans plan, sameSnapshot.trans snapshot, sameQuestion.trans question, last, later.trans ?_⟩
  rw [history, List.append_assoc outcome.history]
  rfl

theorem exists_worked_of_mutate {plan : Plan} {snapshot : Snapshot} (stage : outcome.stage = .backingUp)
    (unpruned : outcome.pruned = []) (wellFormed : world.tree.WellFormed) :
    ∃ worked : World, Worked cleanup plan snapshot world.tree worked.tree ∧
      Ended cleanup { outcome with history := outcome.history ++ [.mutating, .validating] } worked.tree
        (cleanup.mutate outcome plan snapshot world) := by
  unfold mutate
  rw [enter_eq (by rw [stage]; rfl)]
  simp only [Surroundings.later_default]
  have allowed : (cleanup.session world snapshot).mayDelete = true := Bool.or_true _
  have follows := DeletionSession.follows_carryOut (cleanup.session world snapshot) plan
  simp only [DeletionSession.guarded, allowed, if_true]
  generalize (cleanup.session world snapshot).carryOut plan = carried at follows ⊢
  obtain ⟨session, records⟩ := carried
  have worked : Worked cleanup plan snapshot world.tree { world with tree := session.tree }.tree :=
    worked_of_follows wellFormed follows
  dsimp only [noteSession]
  generalize written : SnapshotStore.writeLog snapshot records _ _ = logged
  cases logged with
  | ok after =>
      have logged := worked.of_writeLog written
      refine ⟨after, logged, (ended_validate session _ rfl ?_ logged.wellFormed).of_noted rfl rfl rfl rfl⟩
      exact unpruned
  | error error =>
      refine ⟨_, worked, (ended_validate session _ rfl ?_ worked.wellFormed).of_noted rfl rfl rfl rfl⟩
      exact unpruned

/-! ## Old snapshots -/

/-- A directory of the store is removed with a place in the root only if it holds the root. -/
theorem holds_root_of_within {root store place : Location} {name : String} (outside : ¬ root <+: store)
    (inRoot : root <+: place) (removed : store ++ [name] <+: place) : store ++ [name] <+: root := by
  rcases List.prefix_or_prefix_of_prefix removed inRoot with around | inside
  · exact around
  · rcases List.prefix_concat_iff.mp inside with rfl | within
    · exact List.prefix_refl _
    · exact absurd within outside

/-- A directory of the store is removed with a place in another only if they are one. -/
theorem name_eq_of_within {store rest : Location} {name id : String}
    (removed : store ++ [name] <+: store ++ [id] ++ rest) : name = id := by
  rw [List.append_assoc, List.prefix_append_right_inj, List.singleton_append, List.cons_prefix_cons] at removed
  exact removed.1

theorem ne_nil_of_name {erased : List Location} {store : Location} {noted : String → Prop}
    (each : ∀ location ∈ erased, ∃ name, location = store ++ [name] ∧ noted name) :
    ∀ location ∈ erased, location ≠ [] := by
  intro location member
  obtain ⟨name, rfl, _⟩ := each location member
  simp

section Deleting

variable {plan : Plan} {snapshot : Snapshot} {taking before : World} {worked : Tree} {result : Result}

/-- The copy is out of reach for what the plan names and for the log. -/
theorem Worked.below_copy (done : Worked cleanup plan snapshot before.tree worked)
    (taken : SnapshotStore.Taken cleanup.store cleanup.root taking before snapshot) (place : Location) :
    worked.entry? (snapshot.treeDirectory.resolve ++ place) = before.tree.entry? (snapshot.treeDirectory.resolve ++ place) := by
  rw [snapshot.resolve_treeDirectory, List.append_assoc]
  rcases done.changes (snapshot.directory.resolve ++ ([Snapshot.treeName] ++ place)) with same | ⟨inRoot, _⟩ | log
  · exact same
  · exact absurd inRoot (taken.apart.not_prefix (List.prefix_refl _) _)
  · rw [snapshot.resolve_logFile, List.append_cancel_left_eq, List.singleton_append, List.cons.injEq] at log
    exact absurd log.1 (by decide)

theorem copy_stays_or_pruned (done : Worked cleanup plan snapshot before.tree worked)
    (taken : SnapshotStore.Taken cleanup.store cleanup.root taking before snapshot)
    (ended : Ended cleanup outcome worked result) :
    result.2.tree.below snapshot.treeDirectory.resolve = before.tree.below snapshot.treeDirectory.resolve ∨
      cleanup.options.auto = true ∧ ∀ final, result.1 = .ok final → snapshot.id ∈ final.pruned := by
  obtain ⟨erased, automatic, left, each, complete⟩ := ended.pruned
  have named := ne_nil_of_name each
  by_cases pruned : ∃ location ∈ erased, location <+: snapshot.directory.resolve
  · obtain ⟨location, member, within⟩ := pruned
    obtain ⟨name, rfl, noted⟩ := each location member
    rw [taken.resolved, ← List.append_nil (cleanup.store.root.resolve ++ [snapshot.id])] at within
    rw [name_eq_of_within within] at noted
    exact Or.inr ⟨automatic (List.ne_nil_of_mem member), noted⟩
  · refine Or.inl (below_congr taken.wellFormed ?_ fun place _ => ?_)
    · rw [left]
      exact done.wellFormed.foldl_erase named
    · rw [left, entry?_foldl_erase named, if_neg, done.below_copy taken]
      rintro ⟨location, member, within⟩
      obtain ⟨name, rfl, _⟩ := each location member
      refine pruned ⟨_, member, ?_⟩
      rw [snapshot.resolve_treeDirectory, List.append_assoc, taken.resolved] at within
      have same := name_eq_of_within within
      exact same ▸ taken.resolved ▸ List.prefix_refl _

theorem kept_or_lost (done : Worked cleanup plan snapshot before.tree worked)
    (taken : SnapshotStore.Taken cleanup.store cleanup.root taking before snapshot)
    (ended : Ended cleanup outcome worked result) :
    Kept cleanup plan before.tree result ∨ Lost cleanup result := by
  obtain ⟨erased, automatic, left, each, complete⟩ := ended.pruned
  have named := ne_nil_of_name each
  have stands : before.tree.entry? cleanup.root = some .directory := by
    rw [taken.source_eq _ (List.prefix_refl _), taken.isDirectory]
  by_cases holds : ∃ location ∈ erased, location <+: cleanup.root
  · obtain ⟨location, member, around⟩ := holds
    obtain ⟨name, rfl, noted⟩ := each location member
    refine Or.inr ⟨automatic (List.ne_nil_of_mem member), fun place inRoot => ?_, name, around, noted⟩
    rw [left, entry?_foldl_erase named, if_pos ⟨_, member, around.trans inRoot⟩]
  · have untouched : ∀ place, cleanup.root <+: place →
        result.2.tree.entry? place = worked.entry? place := by
      intro place inRoot
      rw [left, entry?_foldl_erase named, if_neg]
      rintro ⟨location, member, removed⟩
      obtain ⟨name, rfl, _⟩ := each location member
      exact holds ⟨_, member, holds_root_of_within taken.outside inRoot removed⟩
    refine Or.inl ⟨?_, fun place inRoot unnamed => ?_, fun plain final same name listed around => ?_⟩
    · rw [untouched _ (List.prefix_refl _)]
      exact done.directories _ stands
    · rw [untouched place inRoot]
      rcases done.changes place with same | ⟨_, path, listed, here⟩ | log
      · exact same
      · exact absurd here (unnamed path listed)
      · rw [snapshot.resolve_logFile] at log
        exact absurd log (taken.apart.ne inRoot _)
    · obtain ⟨location, member, within⟩ := complete plain final same name listed
      exact holds ⟨location, member, within.trans around⟩

theorem safe_mutate {start : World} (permitted : Permitted cleanup start outcome plan)
    (saved : outcome.snapshot = some snapshot) (stage : outcome.stage = .backingUp)
    (unpruned : outcome.pruned = []) (history : outcome.history = cleanup.stagesBefore)
    (undisturbed : ∀ place, cleanup.root <+: place → cleanup.OnlyReports start.now start.tree before.tree place)
    (taken : SnapshotStore.Taken cleanup.store cleanup.root taking before snapshot) :
    Safe cleanup start (cleanup.mutate outcome plan snapshot before) := by
  obtain ⟨worked, done, ended⟩ := @exists_worked_of_mutate cleanup outcome before plan snapshot stage unpruned
    taken.wellFormed
  have onward : ∀ final, (cleanup.mutate outcome plan snapshot before).1 = .ok final → final.plan = outcome.plan ∧
      final.snapshot = outcome.snapshot ∧ final.question = outcome.question ∧
        ∃ last, final.history = outcome.history ++ [.mutating, .validating, last] := by
    intro final same
    obtain ⟨plan, snapshot, question, last, later⟩ := ended.onward final same
    refine ⟨plan, snapshot, question, last, later.trans ?_⟩
    exact List.append_assoc outcome.history [.mutating, .validating] [last]
  refine Or.inr ⟨?_, outcome, plan, snapshot, before, ⟨permitted, rfl, saved, history, onward, undisturbed, taken.copy,
    copy_stays_or_pruned done taken ended, kept_or_lost done taken ended⟩⟩
  cases came : (cleanup.mutate outcome plan snapshot before).1 with
  | error error => exact ended.late error came
  | ok final =>
      obtain ⟨_, _, _, last, later⟩ := onward final came
      rw [entersMutating, later]
      simp

end Deleting

/-! ## Before deletion -/

structure Standing (cleanup : Cleanup) (start world : World) : Prop where
  now : world.now = start.now
  attempts : world.attempts = start.attempts
  wellFormed : world.tree.WellFormed
  reported : ∀ place, cleanup.OnlyReports start.now start.tree world.tree place

variable {start : World} {plan : Plan}

theorem Standing.safe {result : Except CleanupError CleanupOutcome} (standing : Standing cleanup start world)
    (early : entersMutating result = false) : Safe cleanup start (result, world) :=
  Or.inl ⟨early, fun _ => standing.reported, Or.inl fun place _ => standing.reported place⟩

theorem OnlyReports.of_eq {now : Moment} {before after later : Tree} {place : Location}
    (same : later.entry? place = after.entry? place) (reported : cleanup.OnlyReports now before after place) :
    cleanup.OnlyReports now before later place := by
  rcases reported with unchanged | ⟨directory, report, found, generated, written⟩
  · exact Or.inl (same.trans unchanged)
  · refine Or.inr ⟨directory, report, found, generated, ?_⟩
    cases written with
    | same unchanged => exact .same (same.trans unchanged)
    | file listed here => exact .file listed here
    | made onWay absent isDirectory => exact .made onWay absent (same.trans isDirectory)

theorem mutating_not_mem_stagesBefore (cleanup : Cleanup) : .mutating ∉ cleanup.stagesBefore := by
  unfold stagesBefore
  split <;> decide

/-- Without a snapshot nothing is deleted but what was in its way. -/
theorem safe_backUp (resolved : ".." ∉ cleanup.root) (standing : Standing cleanup start world)
    (permitted : Permitted cleanup start outcome plan) (follows : outcome.stage.next.contains .backingUp = true)
    (unpruned : outcome.pruned = []) (history : outcome.history ++ [.backingUp] = cleanup.stagesBefore) :
    Safe cleanup start (cleanup.backUp outcome plan world) := by
  unfold backUp
  rw [enter_eq follows]
  simp only [Surroundings.later_default]
  have origin : cleanup.rootPath.resolve = cleanup.root := resolve_of_no_parent resolved
  cases created : cleanup.store.create cleanup.rootPath "cleanup" world with
  | mk made before =>
      cases made with
      | ok snapshot =>
          have taken := SnapshotStore.taken_of_create standing.wellFormed created
          rw [origin] at taken
          refine safe_mutate ⟨permitted.chosen, permitted.planned, permitted.real, permitted.allowed, permitted.asked⟩
            rfl rfl unpruned history (fun place inRoot => ?_) taken
          exact (standing.reported place).of_eq (taken.source_eq place inRoot)
      | error error =>
          dsimp only
          rw [abort_eq _ _ rfl]
          have quiet : (outcome.history ++ [Stage.backingUp] ++ [Stage.aborted]).contains .mutating = false := by
            rw [history, List.contains_eq_mem, decide_eq_false_iff_not, List.mem_append, not_or]
            exact ⟨mutating_not_mem_stagesBefore cleanup, by decide⟩
          rcases SnapshotStore.tree_of_create_error standing.wellFormed created with same | ⟨outside, erased⟩
          · refine Or.inl ⟨quiet, ?_⟩
            have reported : ∀ place, cleanup.OnlyReports start.now start.tree before.tree place :=
              fun place => (standing.reported place).of_eq (by rw [same])
            exact ⟨fun _ => reported, Or.inl fun place _ => reported place⟩
          · rw [standing.now, standing.attempts] at erased
            rw [origin] at outside
            have named : cleanup.drawnDirectory start ≠ [] := by simp [drawnDirectory]
            refine Or.inl ⟨quiet, fun dry => ?_, ?_⟩
            · cases permitted.real.symm.trans dry
            · by_cases holds : cleanup.drawnDirectory start <+: cleanup.root
              · refine Or.inr ⟨holds, fun place inRoot => ?_⟩
                dsimp only
                rw [erased]
                exact (entry?_erase named).trans (if_pos (holds.trans inRoot))
              · refine Or.inl fun place inRoot => (standing.reported place).of_eq ?_
                dsimp only
                rw [erased]
                refine (entry?_erase named).trans (if_neg fun removed => holds ?_)
                exact holds_root_of_within outside inRoot removed

theorem safe_askFirst (resolved : ".." ∉ cleanup.root) (standing : Standing cleanup start world)
    (stage : outcome.stage = .reporting) (history : outcome.history = [.idle, .analyzing, .reporting])
    (chosen : ∃ analysis, analyzeTree cleanup.settings start.tree cleanup.root = .ok analysis ∧
      plan = cleanup.planOf analysis)
    (planned : outcome.plan = some plan) (unpruned : outcome.pruned = []) (real : cleanup.options.dryRun = false)
    (needed : cleanup.options.needsConfirmation = true) : Safe cleanup start (cleanup.askFirst outcome plan world) := by
  unfold askFirst
  rw [enter_eq (by rw [stage]; rfl)]
  dsimp only
  split
  · exact standing.safe rfl
  · rename_i agreed
    refine safe_backUp resolved standing ⟨chosen, planned, real, Or.inr (Or.inr agreed), ?_⟩ rfl unpruned ?_
    · rw [if_pos needed]
    · rw [stagesBefore, if_pos needed, history]
  · rw [abort_eq _ _ rfl, history]
    exact standing.safe rfl

theorem safe_rehearse (standing : Standing cleanup start world) (stage : outcome.stage = .reporting)
    (history : outcome.history = [.idle, .analyzing, .reporting]) (dry : cleanup.options.dryRun = true) :
    Safe cleanup start (cleanup.rehearse outcome plan world) := by
  have follows := DeletionSession.follows_carryOut (cleanup.session world none) plan
  have allowed : (cleanup.session world none).mayDelete = true := by
    rw [DeletionSession.mayDelete, session, dry, Bool.true_or]
  unfold rehearse
  simp only [Surroundings.later_default, DeletionSession.guarded, allowed, if_true]
  generalize (cleanup.session world none).carryOut plan = carried at follows ⊢
  obtain ⟨session, records⟩ := carried
  have same : session.tree = world.tree := follows.rehearsed dry
  dsimp only
  rw [finish_eq _ (by rw [noteSession, stage]; rfl), same]
  refine standing.safe ?_
  rw [entersMutating, noteSession, history]
  rfl

theorem safe_decide (resolved : ".." ∉ cleanup.root) (standing : Standing cleanup start world)
    (stage : outcome.stage = .reporting) (history : outcome.history = [.idle, .analyzing, .reporting])
    (unasked : outcome.question = none) (unpruned : outcome.pruned = [])
    (chosen : ∃ analysis, analyzeTree cleanup.settings start.tree cleanup.root = .ok analysis ∧
      plan = cleanup.planOf analysis) : Safe cleanup start (cleanup.decide outcome plan world) := by
  unfold decide
  dsimp only
  split
  · rename_i dry
    exact safe_rehearse standing stage history dry
  · rename_i real
    rw [Bool.not_eq_true] at real
    split
    · rw [finish_eq _ (by rw [stage]; rfl), history]
      exact standing.safe rfl
    · split
      · rename_i needed
        exact safe_askFirst resolved standing stage history chosen rfl unpruned real needed
      · rename_i unneeded
        have allowed : cleanup.options.auto = true ∨ cleanup.options.nonInteractive = true := by
          rw [CleanupOptions.needsConfirmation, real] at unneeded
          rw [Bool.false_or, Bool.not_eq_true, Bool.not_eq_false', Bool.or_eq_true] at unneeded
          exact unneeded.symm
        refine safe_backUp resolved standing ⟨chosen, rfl, real, ?_, ?_⟩ (by rw [stage]; rfl) unpruned ?_
        · exact allowed.imp_right Or.inl
        · rw [if_neg unneeded]
          exact unasked
        · rw [stagesBefore, if_neg unneeded, history]
          rfl

theorem safe_report (resolved : ".." ∉ cleanup.root) (wellFormed : start.tree.WellFormed)
    (stage : outcome.stage = .analyzing) (history : outcome.history = [.idle, .analyzing])
    (unasked : outcome.question = none) (unpruned : outcome.pruned = []) {analysis : Analysis}
    (analyzed : analyzeTree cleanup.settings start.tree cleanup.root = .ok analysis) :
    Safe cleanup start (cleanup.report outcome analysis start) := by
  have chosen : ∃ found, analyzeTree cleanup.settings start.tree cleanup.root = .ok found ∧
      cleanup.planOf analysis = cleanup.planOf found := ⟨analysis, analyzed, rfl⟩
  unfold report
  dsimp only
  rw [enter_eq (by rw [stage]; rfl), history]
  simp only [Surroundings.later_default]
  split
  · have standing : Standing cleanup start start := ⟨rfl, rfl, wellFormed, fun _ => Or.inl rfl⟩
    exact safe_decide resolved standing rfl rfl unasked unpruned chosen
  · rename_i directory found
    generalize made : ({
      analysis := analysis, assessment := Assessment.ofAnalysis cleanup.settings.riskPolicy analysis
      root := cleanup.rootPath, validationCommand := cleanup.command, generatedAt := start.now.toSeconds } : Report) = report
    have generated : report.generatedAt = start.now.toSeconds := by rw [← made]
    have whole := Report.wellFormed_writeAll report directory wellFormed
    have reported := Report.reported_writeAll report directory start.tree
    generalize report.writeAll directory start.tree = wrote at whole reported ⊢
    have standing : Standing cleanup start { start with tree := wrote.2 } :=
      ⟨rfl, rfl, whole, fun place => Or.inr ⟨directory, report, found, generated, reported place⟩⟩
    obtain ⟨paths, tree⟩ := wrote
    match paths with
    | .error .missingNode => exact standing.safe rfl
    | .error (.file error) =>
        dsimp only
        rw [abort_eq _ _ rfl]
        exact standing.safe rfl
    | .ok paths => exact safe_decide resolved standing rfl rfl unasked unpruned chosen

theorem safe_run (wellFormed : world.tree.WellFormed) (resolved : ".." ∉ cleanup.root) :
    Safe cleanup world (cleanup.run world) := by
  unfold run runFrom
  rw [enter_eq rfl]
  dsimp only
  split
  · exact Or.inl ⟨rfl, fun _ _ => Or.inl rfl, Or.inl fun _ _ => Or.inl rfl⟩
  · rename_i analysis analyzed
    exact safe_report resolved wellFormed rfl rfl rfl rfl analyzed

/-! ## Who is asked -/

theorem backUp_of_confirm (cleanup : Cleanup) (other : String → Option Bool) (outcome : CleanupOutcome) (plan : Plan)
    (world : World) :
    { cleanup with confirm := other }.backUp outcome plan world = cleanup.backUp outcome plan world :=
  rfl

theorem askFirst_of_confirm {other : String → Option Bool}
    (same : other (cleanup.describe plan) = cleanup.confirm (cleanup.describe plan)) :
    { cleanup with confirm := other }.askFirst outcome plan world = cleanup.askFirst outcome plan world := by
  have described : { cleanup with confirm := other }.describe plan = cleanup.describe plan := rfl
  unfold askFirst
  simp only [described, same, backUp_of_confirm]

theorem decide_of_confirm {other : String → Option Bool}
    (same : cleanup.options.needsConfirmation = true →
      other (cleanup.describe plan) = cleanup.confirm (cleanup.describe plan)) :
    { cleanup with confirm := other }.decide outcome plan world = cleanup.decide outcome plan world := by
  unfold decide
  dsimp only
  split
  · rfl
  · split
    · rfl
    · split
      · rename_i needed
        exact askFirst_of_confirm (same needed)
      · rfl

theorem report_of_confirm {other : String → Option Bool} {analysis : Analysis}
    (same : cleanup.options.needsConfirmation = true → other (cleanup.describe (cleanup.planOf analysis)) =
      cleanup.confirm (cleanup.describe (cleanup.planOf analysis))) :
    { cleanup with confirm := other }.report outcome analysis world = cleanup.report outcome analysis world := by
  have decided : ∀ outcome world, { cleanup with confirm := other }.decide outcome (cleanup.planOf analysis) world =
      cleanup.decide outcome (cleanup.planOf analysis) world := fun _ _ => decide_of_confirm same
  unfold planOf at decided
  have directory : { cleanup with confirm := other }.reportDirectory? = cleanup.reportDirectory? := rfl
  unfold report
  simp only [decided, directory]
  rfl

theorem asksOnly_run (cleanup : Cleanup) (world : World) : AsksOnly cleanup world := by
  intro other same
  unfold run runFrom
  rw [enter_eq rfl]
  dsimp only
  split
  · rfl
  · rename_i analysis analyzed
    exact report_of_confirm (same analysis analyzed)

/-! ## The whole run -/

/-- Whatever a run comes to, it leaves its tree alone or deletes with permission and with a copy, and asks at most once. What
it does not rule out is that the root itself is removed, as an old snapshot or in the way of a new one. -/
theorem run_spares_or_saves (cleanup : Cleanup) (world : World) (wellFormed : world.tree.WellFormed)
    (resolved : ".." ∉ cleanup.root) : Safe cleanup world (cleanup.run world) ∧ AsksOnly cleanup world :=
  ⟨safe_run wellFormed resolved, asksOnly_run cleanup world⟩

/-- An automatic cleanup of a root that stands in the store, among the snapshots. -/
def amongSnapshots : Cleanup where
  places := ⟨⟨"/", ["sweep"]⟩, ⟨"/", ["home"]⟩⟩
  root := ["src"]
  settings := {}
  options := { auto := true }
  store := ⟨⟨"/", []⟩⟩
  confirm _ := none
  launcher := Shell.plain

def rootWithMetadata : World where
  tree := ⟨[(["src"], .directory), (["src", "a.gs"], .file (Text.encode "function orphan() \x7b\x7d\n".toList)),
    (["src", Snapshot.metadataName],
      .file (Text.encode "\x7b\"timestamp\": \"2020-01-01T00:00:00\"\x7d".toList))]⟩
  now := ⟨2026, 1, 1, 12, 0, 0, 0⟩

theorem amongSnapshots_spares_or_saves :
    rootWithMetadata.tree.WellFormed ∧ ".." ∉ amongSnapshots.root ∧
      Safe amongSnapshots rootWithMetadata (amongSnapshots.run rootWithMetadata) ∧
        AsksOnly amongSnapshots rootWithMetadata := by
  have wellFormed : rootWithMetadata.tree.WellFormed := ⟨by decide, by decide, by decide⟩
  have resolved : ".." ∉ amongSnapshots.root := by decide
  exact ⟨wellFormed, resolved, run_spares_or_saves amongSnapshots rootWithMetadata wellFormed resolved⟩

end Cleanup
end Deadwood
