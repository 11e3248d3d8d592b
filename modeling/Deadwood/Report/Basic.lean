import Deadwood.Files.Path
import Deadwood.Plan

/-!
# Reports

A report shows one analysis with its ratings. Every form of it is made from the same data, so the forms
agree in what they name and count.
-/

set_option autoImplicit false
namespace Deadwood

open Files

def version : String := "0.3.0"

/-- What is reported: an analysis with its ratings, the root of the tree, the command that validates the
tree, and the time. -/
structure Report where
  analysis : Analysis
  assessment : Assessment
  root : Path
  validationCommand : Option String
  generatedAt : String
  deriving Repr

namespace Report

def recommendation (rating : Rating) (doing : String) : String :=
  match rating.level with
  | .high => "Keep; verify manually before touching"
  | .medium => "Review manually, then delete if confirmed unused"
  | .low => "Safe to " ++ doing

def recommendFile (rating : Rating) : String := recommendation rating "delete file"

def recommendSymbol (rating : Rating) : String := recommendation rating "remove function"

def lowRiskPlan (report : Report) : Plan :=
  .ofAssessment .low report.assessment

/-- The files a file depends on, those that use it, and the symbols it defines. -/
structure FileLinks where
  dependsOn : List String := []
  usedBy : List String := []
  defines : List Node := []
  deriving Repr

/-! ## Links of files -/

def keyOf (count : Nat) (node : Node) : String :=
  String.ofList (node.text.toList.drop count)

def definersOf? (graph : Graph) (node : Node) : Option (List String) :=
  (graph.symbol? (keyOf "symbol:".length node)).map Symbol.definingFiles

def targetsOf? (graph : Graph) (edge : Edge) : Option (List String) :=
  match edge.kind with
  | .defines => some []
  | .includes => some [keyOf "file:".length edge.dst]
  | .references => definersOf? graph edge.dst

def sourcesOf? (graph : Graph) (edge : Edge) : Option (List String) :=
  match edge.kind with
  | .defines => some []
  | .includes => some [keyOf "file:".length edge.src]
  | .references =>
    if edge.src.isFile then some [keyOf "file:".length edge.src] else definersOf? graph edge.src

/-- The links of the file at a path: includes, and the owners of what it and its symbols mention or are mentioned by. There are
none if a symbol is missing. -/
def fileLinks? (graph : Graph) (path : String) : Option FileLinks := do
  let defines := graph.successors (.file path) [.defines]
  let dependsOn ← ((Node.file path :: defines).flatMap graph.edgesFrom).mapM (targetsOf? graph)
  let usedBy ← ((Node.file path :: defines).flatMap graph.edgesTo).mapM (sourcesOf? graph)
  return {
    dependsOn := Text.sortedSet (dependsOn.flatten.filter (· != path))
    usedBy := Text.sortedSet (usedBy.flatten.filter (· != path))
    defines := defines }

def joinLines (lines : List String) : String :=
  "\n".intercalate lines

end Report
end Deadwood
