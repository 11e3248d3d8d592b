import Deadwood.Report.Basic

/-!
# The tree report

The used files with their links, and the unused files and symbols.
-/

set_option autoImplicit false
namespace Deadwood.Report

def bareName : Node → String
  | .file path => path
  | .symbol name => name
  | .other text => text

def usedFileLines (path kind : String) (links : FileLinks) : List String :=
  ["  " ++ path ++ " [" ++ kind ++ "]"]
    ++ (if links.defines.isEmpty then []
        else ["    defines: " ++ ", ".intercalate (links.defines.map bareName)])
    ++ links.dependsOn.map ("    -> " ++ ·) ++ links.usedBy.map ("    <- " ++ ·)

def usedFileLines? (graph : Option Graph) (path : String) : Option (List String) :=
  match graph with
  | none => some (usedFileLines path "?" {})
  | some graph => do return usedFileLines path (← graph.file? path).kind.label (← fileLinks? graph path)

def unusedSymbolLine (symbol : UnusedSymbol) : String :=
  "  x " ++ symbol.name ++ " ("
    ++ ", ".intercalate (symbol.definitions.map fun definition =>
      definition.path ++ ":" ++ toString definition.startLine ++ "-" ++ toString definition.endLine)
    ++ ")"

def treeOf (report : Report) (usedLines : List (List String)) : String :=
  let analysis := report.analysis
  joinLines
    (["Dependency tree for " ++ report.root.toString, "", "Entry points:"]
      ++ (if analysis.rootNames.isEmpty then ["  (none)"] else analysis.rootNames.map ("  * " ++ ·))
      ++ ["", "Used files (" ++ toString analysis.usedFiles.length ++ "):"]
      ++ usedLines.flatten
      ++ ["", "Unused files (" ++ toString analysis.unusedFiles.length ++ "):"]
      ++ analysis.unusedFiles.map (fun file => "  x " ++ file.path)
      ++ ["", "Unused symbols (" ++ toString analysis.unusedSymbols.length ++ "):"]
      ++ analysis.unusedSymbols.map unusedSymbolLine
      ++ [""])

def tree? (report : Report) : Option String :=
  (report.analysis.usedFiles.mapM (usedFileLines? report.analysis.graph)).map report.treeOf

end Deadwood.Report
