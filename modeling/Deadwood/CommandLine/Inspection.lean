import Deadwood.CommandLine.Command
import Deadwood.CommandLine.Console
import Deadwood.Report.Files
import Deadwood.Validation

/-!
# Commands that inspect

They analyse a tree, write reports and graphs of it, validate it, or show its settings. The tree is left as it
is; only what is asked for is written.
-/

set_option autoImplicit false
namespace Deadwood.CommandLine

open Files Run

def Source.resolved (source : Source) : Path :=
  ⟨"/", source.root.resolve⟩

def Source.settings (source : Source) : Run Settings :=
  Run.settings (some source.root) source.settingsFile

def Source.report (source : Source) (settings : Settings) : Run Report := do
  let world ← world
  let analysis ← orFail .tree (analyzeTree settings world.tree source.root.resolve)
  return { analysis := analysis
           assessment := .ofAnalysis settings.riskPolicy analysis
           root := source.resolved
           validationCommand := settings.validationCommand
           generatedAt := world.now.toSeconds }

/-! ## Analysis -/

/-- How many files and symbols are used and unused, and how many mentions lead nowhere. -/
def overviewRows (analysis : Analysis) : List (List String) :=
  let count (used unused : Nat) : String := toString used ++ " used / " ++ toString unused ++ " unused"
  [["Files: " ++ count analysis.usedFiles.length analysis.unusedFiles.length],
   ["Symbols: " ++ count analysis.usedSymbols.length analysis.unusedSymbols.length],
   ["Unresolved references: " ++ toString analysis.unresolved.length]]

def fileRow (rated : RatedFile) : List String :=
  ["file", rated.file.path, toString rated.file.size ++ " bytes", rated.rating.level.label, rated.rating.rationale]

def symbolRow (rated : RatedSymbol) : List String :=
  let place (definition : Source.Definition) : String :=
    definition.path ++ ":" ++ toString definition.startLine
  ["function", rated.symbol.name, ", ".intercalate (rated.symbol.definitions.map place),
    rated.rating.level.label, rated.rating.rationale]

def analyze (source : Source) (asJson listUnresolved : Bool) : Run Unit := do
  let report ← source.report (← source.settings)
  if asJson then say report.detailText
  else
    let analysis := report.analysis
    sayAll ("Reachability" :: (overviewRows analysis).flatMap rowLines)
    if analysis.unusedFiles.isEmpty && analysis.unusedSymbols.isEmpty then say "No unused code found."
    else
      sayTable "Unused code" ["Type", "Name", "Location", "Risk", "Why"]
        (report.assessment.files.map fileRow ++ report.assessment.symbols.map symbolRow)
    if listUnresolved && !analysis.unresolved.isEmpty then
      sayAll ("" :: "Unresolved references:" :: analysis.unresolved.map fun mention =>
        "  " ++ mention.path ++ ":" ++ toString mention.line ++ " " ++ mention.name
          ++ " (" ++ mention.kind.label ++ ")")

def unusedLine (analysis : Analysis) : String :=
  "Unused files: " ++ toString analysis.unusedFiles.length
    ++ " | Unused symbols: " ++ toString analysis.unusedSymbols.length

def writeReports (source : Source) (output : Option Path) : Run Unit := do
  let settings ← source.settings
  let report ← source.report settings
  let directory := output.getD (settings.reportDirectory (← places))
  let written ← inWorld fun world =>
    let (written, tree) := report.writeAll directory world.tree
    (written, { world with tree := tree })
  let paths ← orFail .report written
  say (unusedLine report.analysis)
  sayAll (paths.map fun (form, path) => "  " ++ form ++ ": " ++ path.toString)

/-! ## Validation -/

def sayFindings (findings : List Finding) : Run Unit :=
  findings.forM fun finding => sayStyled ("[yellow]![/yellow] " ++ finding.file ++ ": " ++ finding.text)

def validate (source : Source) (command : Option String) : Run Unit := do
  let settings ← source.settings
  let command := command.filter (!·.isEmpty) <|> settings.validationCommand
  let console ← get
  let validation ← orFail .command (Validation.ofTree console.launcher console.world.tree source.resolved command)
  set { console with links := validation.linksAfter console.launcher source.resolved console.links }
  sayFindings validation.findings
  match validation.error with
  | some error => sayStyled ("[red]✗[/red] " ++ error)
  | none => if !validation.ranCommand then say "No validation command configured; structural check only."
  if !validation.passed then
    sayStyled "[red]✗ Validation failed[/red]"
    throw .refused
  sayStyled "[green]✓[/green] Validation passed"

/-! ## Settings and graphs -/

def showSettings (root settingsFile : Option Path) : Run Unit := do
  let settings ← Run.settings root settingsFile
  match settings.toFile with
  | .ok text => say text
  | .error _ => failWith .settingsNotWritten

def graphCounts (graph : Graph) : JsonValue :=
  .object ([("units", .nat graph.files.length), ("symbols", .nat graph.symbols.length),
      ("edges", .nat graph.edges.length)]
    ++ Graph.allKinds.map fun kind => (kind.label, .nat (graph.countOf kind)))

def drawGraph (source : Source) (output : Option Path) : Run Unit := do
  let report ← source.report (← source.settings)
  match output with
  | none => say report.dot
  | some path =>
    let world ← world
    match (world.tree.locate path).bind fun place => world.tree.write place (Text.encode report.dot.toList) with
    | .error fault => failWith (.files ⟨fault, path.toString⟩)
    | .ok tree =>
      putWorld { world with tree := tree }
      say ("Wrote " ++ path.toString)
      say ((report.analysis.graph.map graphCounts).getD (.object [])).renderLine

end Deadwood.CommandLine
