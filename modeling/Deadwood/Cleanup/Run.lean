import Deadwood.Cleanup.Outcome
import Deadwood.Deletion.Session
import Deadwood.Settings.Load

/-!
# Cleanups

A cleanup analyses a tree, writes reports, has its plan confirmed, takes a snapshot, deletes, and validates. A
dry run ends after the reports with a preview. Nothing of the tree is touched before the snapshot is taken. What starts the
validation command is not part of a cleanup but given to it.
-/

set_option autoImplicit false
namespace Deadwood

open Files

/-- What looks at the clock in a cleanup. -/
inductive Glance where
  | reports
  | snapshot
  | deletion
  | log
  | removal
  deriving Repr, DecidableEq

structure Clock where
  shows : Glance → Moment
  valid : ∀ glance, (shows glance).isValid = true

/-- A cleanup: the tree that it is for, what it is told, where snapshots go, who confirms the plan, and what starts commands. Who
does not answer ends it. -/
structure Cleanup where
  places : Places
  root : Location
  settings : Settings
  options : CleanupOptions
  store : SnapshotStore
  confirm : String → Option Bool
  launcher : Shell.Launcher

/-- What goes on around a cleanup: how time goes by, what the validation leaves of the tree, and which names of characters are
known. If nothing else is said, time stands still and the tree is left as it is. -/
structure Surroundings where
  time : Glance → Moment → Moment := fun _ now => now
  leaves : Tree → Tree := id
  charNames : Text.CharNames := Text.asciiNames

def Surroundings.later (around : Surroundings) (glance : Glance) (world : World) : World :=
  { world with now := around.time glance world.now }

namespace Cleanup

abbrev Result := Except CleanupError CleanupOutcome × World

def rootPath (cleanup : Cleanup) : Path :=
  ⟨"/", cleanup.root⟩

def command (cleanup : Cleanup) : Option String :=
  match cleanup.options.validationCommand with
  | some text => if text.isEmpty then cleanup.settings.validationCommand else some text
  | none => cleanup.settings.validationCommand

def describe (cleanup : Cleanup) (plan : Plan) : String :=
  Report.joinLines
    (("Delete " ++ toString plan.files.length ++ " file(s) and " ++ toString plan.functions.length
        ++ " function(s) at risk level <= " ++ cleanup.options.threshold.label ++ " under "
        ++ cleanup.root.toString ++ "?")
      :: plan.files.map (fun path => "  file: " ++ path)
      ++ plan.functions.map fun planned => "  function: " ++ planned.name ++ " (" ++ planned.path ++ ")")

def session (cleanup : Cleanup) (world : World) (snapshot : Option Snapshot) : DeletionSession :=
  { tree := world.tree
    root := cleanup.root
    now := world.now
    dryRun := cleanup.options.dryRun
    snapshotId := snapshot.map (·.id) }

def noteSession (outcome : CleanupOutcome) (session : DeletionSession) (records : List DeletionRecord) :
    CleanupOutcome :=
  { outcome with
    records := records
    failures := session.failures
    summary := session.summary.entries }

/-! ## Stages, the last first -/

def closingMessage (session : DeletionSession) : String :=
  "Deleted " ++ toString session.summary.filesDeleted ++ " file(s) and "
    ++ toString session.summary.functionsDeleted ++ " function(s); "
    ++ toString session.failures.length ++ " failure(s)"

/-- Ends a cleanup that has passed; an automatic one removes old snapshots. -/
def close (cleanup : Cleanup) (outcome : CleanupOutcome) (session : DeletionSession) (world : World) : Result :=
  if cleanup.options.auto then
    match cleanup.store.prune cleanup.settings.retentionDays world.now false world with
    | (.error error, world) => (.error (.snapshots error), world)
    | (.ok removed, world) => ({ outcome with pruned := removed }.finish (closingMessage session), world)
  else (outcome.finish (closingMessage session), world)

def validate (cleanup : Cleanup) (outcome : CleanupOutcome) (session : DeletionSession) (hint : String)
    (world : World) (around : Surroundings := {}) : Result :=
  match outcome.enter .validating with
  | .error error => (.error error, world)
  | .ok outcome =>
    let touched := Text.sortedSet ((outcome.records.filter (·.kind = .function)).map (·.path))
    match Validation.ofTree cleanup.launcher world.tree cleanup.rootPath cleanup.command touched with
    | .error error => (.error (.command error), world)
    | .ok validation =>
      let outcome := { outcome with validation := some validation }
      let world := { world with tree := around.leaves world.tree }
      if validation.passed then cleanup.close outcome session world
      else (outcome.abort "Validation failed after deletion" hint, world)

/-- Carries out the plan under a snapshot, and logs what is deleted if the log can be written. -/
def mutate (cleanup : Cleanup) (outcome : CleanupOutcome) (plan : Plan) (snapshot : Snapshot) (world : World)
    (around : Surroundings := {}) : Result :=
  match outcome.enter .mutating with
  | .error error => (.error error, world)
  | .ok outcome =>
    match (cleanup.session (around.later .deletion world) snapshot).guarded (·.carryOut plan) with
    | .error error => (.error (.unguarded error), world)
    | .ok (session, records) =>
      let hint := Snapshot.rollbackCommand snapshot.id cleanup.rootPath
      let noted := noteSession outcome session records
      let outcome := { noted with summary := noted.summary ++ [("rollback_command", .string hint)] }
      let world := around.later .log { world with tree := session.tree }
      let world := match SnapshotStore.writeLog snapshot records outcome.summary world with
        | .ok logged => logged
        | .error _ => world
      cleanup.validate outcome session hint (around.later .removal world) around

def backUp (cleanup : Cleanup) (outcome : CleanupOutcome) (plan : Plan) (world : World)
    (around : Surroundings := {}) : Result :=
  match outcome.enter .backingUp with
  | .error error => (.error error, world)
  | .ok outcome =>
    match cleanup.store.create cleanup.rootPath "cleanup" (around.later .snapshot world) with
    | (.error error, world) =>
      (outcome.abort ("Backup failed, no files were changed: " ++ error.message?.getD ""), world)
    | (.ok snapshot, world) =>
      cleanup.mutate { outcome with snapshot := some snapshot } plan snapshot world around

def askFirst (cleanup : Cleanup) (outcome : CleanupOutcome) (plan : Plan) (world : World)
    (around : Surroundings := {}) : Result :=
  match outcome.enter .awaitingConfirmation with
  | .error error => (.error error, world)
  | .ok outcome =>
    let question := cleanup.describe plan
    let outcome := { outcome with question := some question }
    match cleanup.confirm question with
    | none => (.error (.noAnswer question), world)
    | some true => cleanup.backUp outcome plan world around
    | some false =>
      ({ outcome with declined := true }.abort "Cancelled by operator; nothing was changed", world)

def rehearse (cleanup : Cleanup) (outcome : CleanupOutcome) (plan : Plan) (world : World)
    (around : Surroundings := {}) : Result :=
  match (cleanup.session (around.later .deletion world) none).guarded (·.carryOut plan) with
  | .error error => (.error (.unguarded error), world)
  | .ok (session, records) =>
    ({ noteSession outcome session records with preview := session.preview }.finish
      "Dry run complete; no files were changed", { world with tree := session.tree })

def decide (cleanup : Cleanup) (outcome : CleanupOutcome) (plan : Plan) (world : World)
    (around : Surroundings := {}) : Result :=
  let outcome := { outcome with plan := some plan }
  if cleanup.options.dryRun then cleanup.rehearse outcome plan world around
  else if plan.isEmpty then
    (outcome.finish ("Nothing to delete at risk level <= " ++ cleanup.options.threshold.label), world)
  else if cleanup.options.needsConfirmation then cleanup.askFirst outcome plan world around
  else cleanup.backUp outcome plan world around

/-- The directory that reports go to: a dry run has one only if it is told so. -/
def reportDirectory? (cleanup : Cleanup) : Option Path :=
  if !cleanup.options.writeReports then none
  else if cleanup.options.dryRun then cleanup.options.reportDirectory
  else some (cleanup.options.reportDirectory.getD (cleanup.settings.reportDirectory cleanup.places))

def report (cleanup : Cleanup) (outcome : CleanupOutcome) (analysis : Analysis) (world : World)
    (around : Surroundings := {}) : Result :=
  let assessment := Assessment.ofAnalysis cleanup.settings.riskPolicy analysis
  match { outcome with analysis := some analysis }.enter .reporting with
  | .error error => (.error error, world)
  | .ok outcome =>
    let plan := Plan.ofAssessment cleanup.options.threshold assessment
    match cleanup.reportDirectory? with
    | none => cleanup.decide outcome plan world around
    | some directory =>
      let report : Report :=
        { analysis := analysis
          assessment := assessment
          root := cleanup.rootPath
          validationCommand := cleanup.command
          generatedAt := (around.later .reports world).now.toSeconds }
      match report.writeAll directory world.tree with
      | (.error .missingNode, tree) => (.error .missingNode, { world with tree := tree })
      | (.error (.file error), tree) =>
        (outcome.abort ("Could not write reports to " ++ directory.toString ++ ": " ++ error.message),
          { world with tree := tree })
      | (.ok paths, tree) =>
        cleanup.decide { outcome with reports := paths } plan { world with tree := tree } around

def runFrom (cleanup : Cleanup) (outcome : CleanupOutcome) (world : World) (around : Surroundings := {}) : Result :=
  match outcome.enter .analyzing with
  | .error error => (.error error, world)
  | .ok outcome =>
    match analyzeTree cleanup.settings world.tree cleanup.root around.charNames with
    | .error error => (.error (.tree error), world)
    | .ok analysis => cleanup.report outcome analysis world around

def run (cleanup : Cleanup) (world : World) (around : Surroundings := {}) : Result :=
  cleanup.runFrom {} world around

def runBy (cleanup : Cleanup) (clock : Clock) (world : World) : Result :=
  cleanup.run world { time := fun glance _ => clock.shows glance }

end Cleanup
end Deadwood
