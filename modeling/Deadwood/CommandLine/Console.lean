import Deadwood.Cleanup.Outcome
import Deadwood.CommandLine.Toolkit
import Deadwood.Deletion.Item
import Deadwood.Settings.Load
import Deadwood.Shell.Command
import Deadwood.Text.Lines
import Deadwood.Text.Split

/-!
# The console

Commands work on the world, show text, and read what is typed when they ask. A command ends well, or it says why
it does not, or it is not used as it is meant to be, or something fails that it does not foresee.
-/

set_option autoImplicit false
namespace Deadwood.CommandLine

open Files Text

/-- The world with its places and links, the lines typed and not yet read, the text shown, and what the commands are given to
work with. -/
structure Console where
  places : Places
  world : World
  links : Links := {}
  typed : List String := []
  shown : String := ""
  toolkit : Toolkit := .plain
  launcher : Shell.Launcher := Shell.plain

inductive CommandFailure where
  | settings (error : SettingsError)
  | settingsNotWritten
  | tree (error : TreeError)
  | files (error : FileError)
  | report (error : Report.WriteError)
  | cleanup (error : CleanupError)
  | command (error : CommandError)
  | snapshots (error : SnapshotError)
  | log (fault : DeletionLog.LogFault)
  | notText
  | notEncodable
  | tags (reason : String)
  | loop (loop : LinkLoop)
  deriving Repr

/-- Why a command does not end well: it has said so, nobody answers, it is misused, or something fails. -/
inductive Ending where
  | refused
  | unanswered
  | misused
  | failed (failure : CommandFailure)
  deriving Repr

def exitStatus : Except Ending Unit → Nat
  | .ok () => 0
  | .error .misused => 2
  | .error _ => 1

abbrev Run (α : Type) := ExceptT Ending (StateM Console) α

namespace Run

def world : Run World := do
  return (← get).world

def toolkit : Run Toolkit := do
  return (← get).toolkit

def places : Run Places := do
  return (← get).places

def putWorld (world : World) : Run Unit :=
  modify fun console => { console with world := world }

def failWith {α : Type} (failure : CommandFailure) : Run α :=
  throw (.failed failure)

def orFail {ε α : Type} (failure : ε → CommandFailure) : Except ε α → Run α
  | .ok value => pure value
  | .error error => failWith (failure error)

def inWorld {α : Type} (act : World → α × World) : Run α := do
  let (value, world) := act (← world)
  putWorld world
  return value

def write (text : String) : Run Unit :=
  modify fun console => { console with shown := console.shown ++ text }

def say (text : String) : Run Unit :=
  write (text ++ "\n")

def sayAll (lines : List String) : Run Unit :=
  write (String.join (lines.map (· ++ "\n")))

def plain (text : String) : Run String := do
  orFail .tags ((← toolkit).shown text)

def sayStyled (text : String) : Run Unit := do
  say (← plain text)

def refuse {α : Type} (text : String) : Run α := do
  sayStyled ("[red]✗[/red] " ++ text)
  throw .refused

def settings (root file : Option Path) : Run Settings := do
  match Settings.load (← places) (← world).tree root file (← toolkit).tables with
  | .ok settings => return settings
  | .error error =>
    match error.message? with
    | some message => refuse message
    | none => failWith (.settings error)

def store (named : Option Path) (settings : Settings) : Run SnapshotStore := do
  let places ← places
  return ⟨places.expand (named.getD (settings.backupDirectory places))⟩

def orRefuse {α : Type} : Except SnapshotError α → Run α
  | .ok value => pure value
  | .error error =>
    match error.message? with
    | some message => refuse message
    | none => failWith (.snapshots error)

end Run

/-! ## Questions -/

def decision? (line : String) : Option Bool :=
  let word := String.ofList (trim (lower line).toList)
  if word = "y" || word = "yes" then some true
  else if word = "n" || word = "no" || word.isEmpty then some false
  else none

/-- What comes of a question: the answer, if there is one, the lines left, and what is shown. -/
structure Exchange where
  answer : Option Bool
  left : List String
  shown : String
  deriving Repr

def prompt (question : String) : String :=
  question ++ " [y/N]: "

def exchange (question : String) : List String → Exchange
  | [] => ⟨none, [], prompt question⟩
  | line :: rest =>
    let asked := prompt question ++ line ++ "\n"
    match decision? line with
    | some answer => ⟨some answer, rest, asked⟩
    | none =>
      let later := exchange question rest
      { later with shown := asked ++ "Error: invalid input\n" ++ later.shown }

def typedLines (text : String) : List String :=
  let lines := (splitOn '\n' (unifyLineEnds text.toList)).map String.ofList
  if lines.getLast? = some "" then lines.dropLast else lines

namespace Run

def ask (question : String) : Run Bool := do
  let found := exchange question (← get).typed
  modify fun console => { console with typed := found.left }
  write found.shown
  match found.answer with
  | some answer => return answer
  | none => throw .unanswered

end Run

/-! ## Tables -/

/-- The lines of a row: cells between bars, a cell of several lines going over as many. -/
def rowLines (cells : List String) : List String :=
  let columns := cells.map fun cell => (splitOn '\n' cell.toList).map String.ofList
  let height := (columns.map List.length).foldl max 1
  (List.range height).map fun index =>
    "| " ++ " | ".intercalate (columns.map fun column => column.getD index "") ++ " |"

def Run.sayTable (title : String) (header : List String) (rows : List (List String)) : Run Unit := do
  let rows ← rows.mapM fun cells => cells.mapM Run.plain
  Run.sayAll (title :: (header :: rows).flatMap rowLines)

end Deadwood.CommandLine
