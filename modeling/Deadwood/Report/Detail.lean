import Deadwood.Json.Printer
import Deadwood.Report.Basic

/-!
# The detailed report

Everything an analysis found, as a structured value.
-/

set_option autoImplicit false
namespace Deadwood.Report

open JsonValue

def summaryEntries (analysis : Analysis) : List (String × JsonValue) :=
  [("total_files", nat analysis.totalFiles), ("used_files", nat analysis.usedFiles.length),
   ("unused_files", nat analysis.unusedFiles.length), ("total_symbols", nat analysis.totalSymbols),
   ("used_symbols", nat analysis.usedSymbols.length), ("unused_symbols", nat analysis.unusedSymbols.length),
   ("unresolved_references", nat analysis.unresolved.length)]

def ratingEntries (rating : Rating) (action : String) : List (String × JsonValue) :=
  [("risk", string rating.level.label), ("rationale", string rating.rationale),
   ("recommended_action", string action)]

def nodeTexts (nodes : List Node) : JsonValue :=
  strings (nodes.map Node.text)

def fileEntry (root : Files.Path) (rated : RatedFile) : JsonValue :=
  let file := rated.file
  object
    ([("path", string file.path), ("kind", string file.kind.label), ("size", int file.size),
      ("dependencies", nodeTexts file.dependencies), ("dependents", nodeTexts file.dependents),
      ("full_path", string (root.join (.ofString file.path)).toString)]
      ++ ratingEntries rated.rating (recommendFile rated.rating))

def locationEntry (definition : Source.Definition) : JsonValue :=
  object [("path", string definition.path), ("start_line", nat definition.startLine),
    ("end_line", nat definition.endLine)]

def symbolEntry (rated : RatedSymbol) : JsonValue :=
  let symbol := rated.symbol
  object
    ([("name", string symbol.name), ("defined_in", strings symbol.definedIn),
      ("locations", array (symbol.definitions.map locationEntry)),
      ("mentioned_in_strings", bool symbol.mentionedInStrings)]
      ++ ratingEntries rated.rating (recommendSymbol rated.rating))

def unresolvedEntry (unresolved : Unresolved) : JsonValue :=
  object [("path", string unresolved.path), ("name", string unresolved.name), ("line", nat unresolved.line),
    ("kind", string unresolved.kind.label)]

def edgeEntry (edge : Edge) : JsonValue :=
  object [("src", string edge.src.text), ("dst", string edge.dst.text), ("kind", string edge.kind.label)]

def graphEntry (graph : Graph) : JsonValue :=
  object [("nodes", nodeTexts graph.nodes), ("edges", array (graph.sortedEdges.map edgeEntry))]

def levelCounts (count : RiskLevel → Nat) : JsonValue :=
  object (RiskLevel.all.map fun level => (level.label, nat (count level)))

def planEntry (plan : Plan) : JsonValue :=
  object
    [("files", strings plan.files),
     ("functions", array (plan.functions.map fun planned =>
       object [("path", string planned.path), ("name", string planned.name)]))]

def cleanupSteps : JsonValue :=
  object
    [("phase1", string "Delete low-risk files and functions"),
     ("phase2", string "Run the validation command and check the application"),
     ("phase3", string "Review medium-risk items one by one"),
     ("phase4", string "Verify high-risk items manually; usually keep them"),
     ("rollback_plan", string "Every mutation is preceded by a snapshot; use 'sweep backup rollback'")]

def detail (report : Report) : JsonValue :=
  let analysis := report.analysis
  object
    [("metadata", object
       [("generated_at", string report.generatedAt), ("root", string report.root.toString),
        ("tool", string ("sweepgraph " ++ version))]),
     ("summary", object (summaryEntries analysis)),
     ("entry_points", strings analysis.rootNames),
     ("root_files", strings analysis.rootFiles),
     ("used_files", strings analysis.usedFiles),
     ("used_symbols", strings analysis.usedSymbols),
     ("unused_files", array (report.assessment.files.map (fileEntry report.root))),
     ("unused_symbols", array (report.assessment.symbols.map symbolEntry)),
     ("unresolved_references", array (analysis.unresolved.map unresolvedEntry)),
     ("dependency_graph", graphEntry (analysis.graph.getD {})),
     ("risk_assessment", object
       [("files", levelCounts report.assessment.fileCount),
        ("symbols", levelCounts report.assessment.symbolCount)]),
     ("cleanup_plan", cleanupSteps),
     ("low_risk_deletions", planEntry report.lowRiskPlan)]

def detailText (report : Report) : String :=
  report.detail.render

end Deadwood.Report
