import Deadwood.Report.Basic

/-!
# The graph report

The dependency graph as a drawing in the dot language. Files are boxes, other nodes ellipses; what is unused
is dashed and red.
-/

set_option autoImplicit false
namespace Deadwood.Report

/-- A text inside double quotes, with a backslash before each quote and backslash. -/
def dotEscape (text : List Char) : List Char :=
  text.flatMap fun c => if c == '\\' || c == '"' then ['\\', c] else [c]

def dotQuoted (text : String) : String :=
  String.ofList ('"' :: dotEscape text.toList ++ ['"'])

def unusedNodes (analysis : Analysis) : List Node :=
  analysis.unusedFiles.map (fun file => .file file.path)
    ++ analysis.unusedSymbols.map fun symbol => .symbol symbol.name

def dotNodeLine (unused : List Node) (node : Node) : String :=
  "  " ++ dotQuoted node.text ++ " [shape=" ++ (if node.isFile then "box" else "ellipse")
    ++ (if unused.contains node then ", style=\"dashed\", color=\"red\"" else "") ++ "];"

def dotEdgeLine (edge : Edge) : String :=
  "  " ++ dotQuoted edge.src.text ++ " -> " ++ dotQuoted edge.dst.text ++ " [label=\"" ++ edge.kind.label
    ++ "\"];"

def dot (report : Report) : String :=
  let graph := report.analysis.graph.getD {}
  joinLines
    (["digraph SweepGraph \x7b", "  rankdir=LR;"]
      ++ graph.nodes.map (dotNodeLine (unusedNodes report.analysis))
      ++ graph.sortedEdges.map dotEdgeLine
      ++ ["\x7d", ""])

end Deadwood.Report
