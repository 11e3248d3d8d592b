import Deadwood.CommandLine.Snapshots
import Deadwood.CommandLine.Sweeping

/-!
# The entry

The command line as a whole: options before the command, then the command with its own arguments.
-/

set_option autoImplicit false
namespace Deadwood.CommandLine

open Files Run

def Command.perform : Command → Run Unit
  | analyze source asJson listUnresolved => CommandLine.analyze source asJson listUnresolved
  | report source output => writeReports source output
  | clean source request => CommandLine.clean source request
  | deleteItem source request => deleteOne source request
  | validate source command => CommandLine.validate source command
  | showSettings root settingsFile => CommandLine.showSettings root settingsFile
  | graph source output => drawGraph source output
  | createSnapshot root store purpose quiet => CommandLine.createSnapshot root store purpose quiet
  | listSnapshots store => CommandLine.listSnapshots store
  | rollBack id target store confirmed => CommandLine.rollBack id target store confirmed
  | prune days store => CommandLine.prune days store

def globalOptions : List OptionSpec :=
  [.flag "--verbose" (some 'V'), .value "--log-file", .flag "--version" (some 'v'), helpOption]

def usage : String :=
  "Usage: sweep [--verbose] [--log-file FILE] [--version] COMMAND ...\n"
    ++ "Commands: " ++ ", ".intercalate (treeForms.map CommandForm.name) ++ ", "
    ++ ", ".intercalate (snapshotForms.map fun form => snapshotGroup ++ " " ++ form.name)

def versionLine : String :=
  "SweepGraph v" ++ version

def commandNames : List String :=
  snapshotGroup :: treeForms.map CommandForm.name

def openLogFile (path : Path) : Run Unit := do
  let world ← world
  let made := (world.tree.locate path.parent).bind world.tree.makeDirectories
  let tree ← orFail (fun fault => .files ⟨fault, path.parent.toString⟩) made
  putWorld { world with tree := tree }
  let opened := (tree.locate path).bind fun place =>
    if tree.isFile place then .ok tree else tree.write place []
  let tree ← orFail (fun fault => .files ⟨fault, path.toString⟩) opened
  putWorld { world with tree := tree }

def performWords (words : List String) : Run Unit := do
  match Request.ofWords? (← toolkit) (← world).tree words with
  | none => throw .misused
  | some .help => say usage
  | some (.perform command) => command.perform

/-- Runs the command line. Who asks for help or for the version gets nothing else. -/
def run (arguments : List String) : Run Unit := do
  match (← toolkit).given? globalOptions true arguments with
  | none => throw .misused
  | some given =>
    match given.options.find? fun option => option.1 = "--version" || option.1 = helpOption.long with
    | some (long, _) => say (if long = helpOption.long then usage else versionLine)
    | none =>
      if !given.words.head?.any commandNames.contains then throw .misused
      (given.path? "--log-file").toList.forM openLogFile
      performWords given.words

end Deadwood.CommandLine
