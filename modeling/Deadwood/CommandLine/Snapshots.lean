import Deadwood.CommandLine.Command
import Deadwood.CommandLine.Console
import Deadwood.Snapshot.Log
import Deadwood.Snapshot.Rollback
import Deadwood.Text.Quoted

/-!
# Commands on snapshots

They take snapshots, list them with the number of deletions under them, restore them, and remove old ones.
-/

set_option autoImplicit false
namespace Deadwood.CommandLine

open Files Run

def storeFor (named root : Option Path) : Run SnapshotStore := do
  match named with
  | some _ => store named {}
  | none => store none (← Run.settings root none)

def createSnapshot (root : Path) (named : Option Path) (purpose : String) (quiet : Bool) : Run Unit := do
  let store ← storeFor named (some root)
  let snapshot ← orRefuse (← inWorld (store.create root purpose))
  if quiet then say snapshot.id
  else
    let count := match snapshot.fileCount with
      | .int count => toString count
      | _ => ""
    sayStyled ("[green]✓[/green] Snapshot [bold]" ++ snapshot.id ++ "[/bold] (" ++ count ++ " files)")
    sayStyled ("  Location: " ++ snapshot.directory.toString)

/-! ## Listing -/

mutual

def innerText : JsonValue → String
  | .null => "None"
  | .bool value => if value then "True" else "False"
  | .int value => toString value
  | .decimal mantissa exponent => JsonValue.decimalText mantissa exponent
  | .special name => match name with
    | "NaN" => "nan"
    | "Infinity" => "inf"
    | "-Infinity" => "-inf"
    | _ => name
  | .string text => Text.quoted text
  | .wide points => Text.quotedPoints points
  | .array items => "[" ++ ", ".intercalate (innerTexts items) ++ "]"
  | .object entries => "\x7b" ++ ", ".intercalate (entryTexts entries) ++ "\x7d"
  | .wideObject entries => "\x7b" ++ ", ".intercalate (wideEntryTexts entries) ++ "\x7d"

def innerTexts : List JsonValue → List String
  | [] => []
  | item :: rest => innerText item :: innerTexts rest

def entryTexts : List (String × JsonValue) → List String
  | [] => []
  | (key, value) :: rest => (Text.quoted key ++ ": " ++ innerText value) :: entryTexts rest

def wideEntryTexts : List (List Nat × JsonValue) → List String
  | [] => []
  | (key, value) :: rest => (Text.quotedPoints key ++ ": " ++ innerText value) :: wideEntryTexts rest

end

def valueText : JsonValue → Run String
  | .string text => pure text
  | .wide _ => failWith .notEncodable
  | value => pure (innerText value)

def textCell : JsonValue → Run String
  | .string text => pure text
  | .null => pure ""
  | .wide _ => failWith .notEncodable
  | _ => failWith .notText

def isVoid : JsonValue → Bool
  | .null => true
  | .bool value => !value
  | .int value => value = 0
  | .decimal mantissa _ => mantissa = 0
  | .special name => name = "-0.0"
  | .string text => text.isEmpty
  | .wide points => points.isEmpty
  | .array items => items.isEmpty
  | .object entries => entries.isEmpty
  | .wideObject entries => entries.isEmpty

def deletionCount (log : JsonValue) : Except DeletionLog.LogFault Nat := do
  match ← DeletionLog.field "deletions" log with
  | .array items => return items.length
  | .object entries => return entries.length
  | .wideObject entries => return entries.length
  | .string text => return text.length
  | .wide points => return points.length
  | _ => throw .wrongType

/-- The cell for deletions under a snapshot: their number, if there is a log. -/
def deletionsCell (log : Option JsonValue) : Run String :=
  match log.filter (!isVoid ·) with
  | none => pure "-"
  | some log => do return toString (← orFail .log (deletionCount log))

def snapshotRow (store : SnapshotStore) (snapshot : Snapshot) : Run (List String) := do
  let log ← orFail .snapshots (store.log? (← world).tree snapshot.id)
  let deletions ← deletionsCell log
  return [snapshot.id, ← textCell snapshot.createdAt, ← textCell snapshot.purpose,
    ← valueText snapshot.fileCount, deletions, ← textCell snapshot.origin]

def listSnapshots (named : Option Path) : Run Unit := do
  let store ← storeFor named none
  let snapshots ← orFail .snapshots (store.list (← world).tree)
  if snapshots.isEmpty then say "No snapshots found."
  else
    let rows ← snapshots.mapM (snapshotRow store)
    sayTable "Snapshots" ["ID", "Created", "Purpose", "Files", "Deletions", "Origin"] rows

/-! ## Restoring -/

def sayRestoration (restoration : Restoration) : Run Unit := do
  sayStyled ("[green]✓[/green] Restored " ++ toString restoration.filesRestored ++ " files from " ++ restoration.id)
  sayStyled ("  Safety snapshot of the previous state: " ++ restoration.safety.id)
  restoration.checks.forM fun check =>
    let mark := if check.passed then "[green]✓[/green]" else "[yellow]![/yellow]"
    let kind := if check.isFile then "file" else "symbol"
    sayStyled ("  " ++ mark ++ " " ++ kind ++ " " ++ check.name ++ " " ++ check.detail)
  if !restoration.isVerified then
    sayStyled "[yellow]Some post-restore checks failed; inspect the tree before continuing.[/yellow]"

/-- Says why a snapshot is not restored, and what can be done if the tree may have been changed. -/
def refuseRestoration (error : SnapshotError) : Run Unit := do
  match error, error.message? with
  | .unsaved _, some message | .notRestored _ _, some message =>
    sayStyled ("[red]✗ Rollback failed:[/red] " ++ message)
    sayStyled ("[yellow]" ++ error.recoveryHint ++ "[/yellow]")
    throw .refused
  | _, _ => orRefuse (.error error)

def rollBack (id : String) (target named : Option Path) (confirmed : Bool) : Run Unit := do
  let settings ← Run.settings target none
  let store ← store named settings
  let snapshot ← orRefuse (store.load (← world).tree id)
  let destination ← match target with
    | some path => pure path
    | none => orFail .snapshots snapshot.originPath
  let agreed ← if confirmed then pure true
    else ask ("Replace the contents of " ++ destination.toString ++ " with snapshot " ++ id ++ "?")
  if !agreed then say "Rollback cancelled."
  else
    match ← inWorld (store.rollback id (some destination) settings.requiredFiles settings.requiredSymbols) with
    | .ok restoration => sayRestoration restoration
    | .error error => refuseRestoration error

/-! ## Removing -/

def prune (days : Option Int) (named : Option Path) : Run Unit := do
  let settings ← Run.settings none none
  let store ← store named settings
  let days := days.getD settings.retentionDays
  let now := (← world).now
  let removed ← orFail .snapshots (← inWorld (store.prune days now false))
  say ("Removed " ++ toString removed.length ++ " snapshot(s) older than " ++ toString days ++ " day(s).")
  sayAll (removed.map ("  " ++ ·))

end Deadwood.CommandLine
