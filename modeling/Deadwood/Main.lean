import Deadwood.CommandLine.Document
import Deadwood.CommandLine.Entry

/-!
# The program

Runs one command on the world that is kept in a document. Commands are values and can be run again, so the program
runs a command with the lines typed so far, and reads one more line only when the command asks for it.
-/

set_option autoImplicit false
namespace Deadwood

open CommandLine Files

def documentFile : IO String := do
  return (← IO.getEnv "DEADWOOD_WORLD").getD "world.json"

def programPlaces : IO Places := do
  let userHome := (← IO.getEnv "HOME").getD "/root"
  let base := (← IO.getEnv "SWEEPGRAPH_HOME").getD (userHome ++ "/.sweepgraph")
  return ⟨Path.ofString base, Path.ofString userHome⟩

/-- Runs a command with the lines typed so far; what has been shown before is not shown again. -/
partial def converse (places : Places) (world : World) (arguments typed : List String) (shown : Nat) :
    IO (Except Ending Unit × World) := do
  let start : Console := { places := places, world := world, typed := typed }
  let (result, console) := ((CommandLine.run arguments).run).run start
  let output ← IO.getStdout
  output.putStr (String.ofList (console.shown.toList.drop shown))
  output.flush
  match result with
  | .error .unanswered =>
    let line ← (← IO.getStdin).getLine
    if line.isEmpty then return (result, console.world)
    let typed := typed ++ typedLines line
    converse places world arguments typed (console.shown.length + line.length)
  | _ => return (result, console.world)

end Deadwood

open Deadwood in
/-- Loads the world, runs the command that the arguments say, and keeps what has become of the world. -/
def main (arguments : List String) : IO UInt32 := do
  let file ← documentFile
  match World.ofDocument? (← IO.FS.readFile file) with
  | none =>
    IO.eprintln ("not a world: " ++ file)
    return 1
  | some world =>
    let (result, world) ← converse (← programPlaces) world arguments [] 0
    IO.FS.writeFile file world.toDocument
    match result with
    | .error (.failed _) => IO.eprintln "the command has failed"
    | .error .misused => IO.eprintln CommandLine.usage
    | _ => pure ()
    return (CommandLine.exitStatus result).toUInt32
