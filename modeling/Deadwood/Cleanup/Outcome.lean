import Deadwood.Cleanup.Stage
import Deadwood.Deletion.Session
import Deadwood.Report.Files
import Deadwood.Snapshot.Log
import Deadwood.Validation

/-!
# Cleanup outcomes

What a cleanup is told, and all that comes of it, filled in as it goes through its stages.
-/

set_option autoImplicit false
namespace Deadwood

open Files

/-- What one cleanup is told besides the settings. -/
structure CleanupOptions where
  dryRun : Bool := false
  threshold : RiskLevel := .low
  nonInteractive : Bool := false
  auto : Bool := false
  validationCommand : Option String := none
  reportDirectory : Option Path := none
  writeReports : Bool := true
  deriving Repr

def CleanupOptions.needsConfirmation (options : CleanupOptions) : Bool :=
  !(options.dryRun || options.nonInteractive || options.auto)

/-- What came of a cleanup: the stages that it went through, the latest last, where and why it stopped, and what
each stage has left. -/
structure CleanupOutcome where
  stage : Stage := .idle
  history : List Stage := [.idle]
  failedStage : Option Stage := none
  message : String := ""
  declined : Bool := false
  question : Option String := none
  analysis : Option Analysis := none
  plan : Option Plan := none
  reports : List (String × Path) := []
  snapshot : Option Snapshot := none
  records : List DeletionRecord := []
  failures : List DeletionFailure := []
  summary : List (String × JsonValue) := []
  preview : String := ""
  validation : Option Validation := none
  rollbackHint : Option String := none
  pruned : List String := []
  deriving Repr

/-- Why a cleanup ends without an outcome: a stage cannot follow another, a pattern or the validation command is
none, the report lacks a node, old snapshots cannot be removed, or nobody answers. -/
inductive CleanupError where
  | illegalStage (current next : Stage)
  | tree (error : TreeError)
  | missingNode
  | command (error : CommandError)
  | snapshots (error : SnapshotError)
  | unguarded (error : SnapshotRequired)
  | noAnswer (question : String)
  deriving Repr

def CleanupError.illegalMessage (current next : Stage) : String :=
  "Illegal pipeline transition " ++ current.label ++ " -> " ++ next.label

namespace CleanupOutcome

def enter (outcome : CleanupOutcome) (stage : Stage) : Except CleanupError CleanupOutcome :=
  if outcome.stage.next.contains stage then
    .ok { outcome with stage := stage, history := outcome.history ++ [stage] }
  else .error (.illegalStage outcome.stage stage)

def abort (outcome : CleanupOutcome) (message : String) (hint : Option String := none) :
    Except CleanupError CleanupOutcome :=
  { outcome with failedStage := some outcome.stage, message := message, rollbackHint := hint }.enter .aborted

def finish (outcome : CleanupOutcome) (message : String) : Except CleanupError CleanupOutcome :=
  { outcome with message := message }.enter .done

def succeeded (outcome : CleanupOutcome) : Bool :=
  outcome.stage = .done

end CleanupOutcome
end Deadwood
