import Deadwood.Cleanup.Run
import Deadwood.CommandLine.Inspection

/-!
# Commands that delete

A cleanup of a whole tree, and the deletion of one item. Both ask before they delete, unless they are told not to.
-/

set_option autoImplicit false
namespace Deadwood.CommandLine

open Files Run

/-! ## Cleanups -/

def failureTarget (failure : DeletionFailure) : String :=
  match failure.symbol.filter (!·.isEmpty) with
  | some symbol => failure.path ++ "::" ++ symbol
  | none => failure.path

def sayEnd (outcome : CleanupOutcome) : Run Unit := do
  if outcome.succeeded then
    sayStyled ("[green]✓[/green] " ++ outcome.message)
    match outcome.snapshot with
    | some snapshot => say ("Snapshot: " ++ snapshot.id)
    | none => pure ()
  else
    let stage := (outcome.failedStage.map Stage.label).getD "unknown"
    sayStyled ("[red]✗ Aborted during " ++ stage ++ ":[/red] " ++ outcome.message)
    match outcome.rollbackHint with
    | some hint => say ("To roll back run: " ++ hint)
    | none => pure ()

def sayOutcome (outcome : CleanupOutcome) : Run Unit := do
  sayAll (outcome.analysis.map unusedLine).toList
  sayAll (outcome.reports.map fun (form, path) => "  report " ++ form ++ ": " ++ path.toString)
  if !outcome.preview.isEmpty then sayAll ["", "Planned changes (dry run):", outcome.preview]
  outcome.failures.forM fun failure =>
    sayStyled ("[yellow]![/yellow] " ++ failureTarget failure ++ ": " ++ failure.fault.message)
  sayFindings ((outcome.validation.map Validation.findings).getD [])
  sayEnd outcome

def cleanupOf (source : Source) (request : CleanRequest) (settings : Settings) (threshold : RiskLevel) :
    Run Cleanup := do
  let console ← get
  return { places := ← places
           root := source.root.resolve
           settings := settings
           options :=
            { dryRun := request.dryRun
              threshold := threshold
              nonInteractive := request.nonInteractive
              auto := request.auto
              validationCommand := request.validation
              reportDirectory := request.reports }
           store := ← store request.store settings
           launcher := console.launcher
           confirm := fun question => (exchange question console.typed).answer }

def clean (source : Source) (request : CleanRequest) : Run Unit := do
  let settings ← source.settings
  match RiskLevel.ofText? (if request.risk.isEmpty then settings.riskLevel else request.risk) with
  | none => throw .misused
  | some threshold =>
    let cleanup ← cleanupOf source request settings threshold
    match ← inWorld cleanup.run with
    | .error (.noAnswer question) => discard (ask question)
    | .error error => failWith (.cleanup error)
    | .ok outcome =>
      match outcome.question with
      | some question => discard (ask question)
      | none => pure ()
      sayOutcome outcome
      if outcome.stage = .aborted && !outcome.declined then throw .refused

/-! ## Single items -/

def itemQuestion : DeletionItem → String
  | .file path => "Delete " ++ path ++ "?"
  | .function path name => "Remove function '" ++ name ++ "' from " ++ path ++ "?"

def itemTarget : DeletionItem → String
  | .file path => path
  | .function path name => name ++ " in " ++ path

def deletedLine (record : DeletionRecord) : DeletionItem → String
  | .file path => "Deleted " ++ path ++ " (" ++ toString record.bytesFreed ++ " bytes)"
  | .function path name =>
    let (first, last) := record.span.getD (0, 0)
    "Removed " ++ name ++ " from " ++ path ++ " (lines " ++ toString first ++ "-" ++ toString last ++ ", "
      ++ toString record.bytesFreed ++ " bytes)"

def sayLogError (error : SnapshotError) : Run Unit :=
  match error.message? with
  | some message => sayStyled ("[yellow]![/yellow] " ++ message)
  | none => failWith (.snapshots error)

def orRefuseItem {α : Type} : Except ItemError α → Run α
  | .ok value => pure value
  | .error (.snapshot error) => orRefuse (.error error)
  | .error (.loop loop) => failWith (.loop loop)

def deleteOne (source : Source) (request : ItemRequest) : Run Unit := do
  let settings ← source.settings
  let agreed ← if request.confirmed then pure true else ask (itemQuestion request.item)
  if !agreed then say "Cancelled."
  else
    let store ← store request.store settings
    let links := (← get).links
    let deletion ← orRefuseItem (← inWorld (store.deleteItem request.snapshotId source.root request.item links))
    modify fun console => { console with links := deletion.links }
    match deletion.record with
    | none =>
      let reason := (deletion.failures.getLast?.map (·.fault.message)).getD "unknown error"
      refuse (itemTarget request.item ++ ": " ++ reason)
    | some record =>
      deletion.logError.toList.forM sayLogError
      sayStyled ("[green]✓[/green] " ++ deletedLine record request.item)
      say ("Snapshot: " ++ deletion.snapshot.id)

end Deadwood.CommandLine
