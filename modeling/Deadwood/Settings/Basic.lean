import Deadwood.Source.Extraction

/-!
# Settings

What a run is told: the roots, how risk is judged, how files are read, what is left out, and where snapshots
and reports go.
-/

set_option autoImplicit false
namespace Deadwood

open Source

structure Settings where
  entryPoints : List String :=
    ["doGet", "doPost", "include", "onOpen", "onEdit", "onFormSubmit", "onInstall", "onSelectionChange",
     "onChange", "installTrigger", "uninstallTrigger"]
  protectedPatterns : List String := ["^test", "^debug"]
  rootFiles : List String := ["appsscript.json"]
  protectedSubstrings : List String := ["init", "setup", "config", "utils", "helper"]
  configFiles : List String := ["appsscript.json", "package.json", ".clasp.json"]
  largeFileBytes : Int := 1000
  bridgeObjects : List String := defaultBridgeObjects
  bridgeModifiers : List String := defaultBridgeModifiers
  extraBuiltins : List String := []
  skipDirs : List String :=
    [".git", "node_modules", ".sweepgraph", "__pycache__", ".venv", "dist", "build", "coverage"]
  requiredFiles : List String := ["appsscript.json"]
  requiredSymbols : List String := ["doGet"]
  riskLevel : String := "low"
  validationCommand : Option String := none
  backupDir : Option String := none
  reportDir : Option String := none
  retentionDays : Int := 7
  deriving Repr, DecidableEq, Inhabited

def Settings.reading (settings : Settings) : Reading :=
  .ofLists settings.bridgeObjects settings.bridgeModifiers settings.extraBuiltins

end Deadwood
