import Deadwood.Graph.Build
import Deadwood.Graph.Reach

/-!
# What is used and what is not

An analysis divides the files and symbols of a graph into those that the roots reach and those that they do
not.
-/

set_option autoImplicit false
namespace Deadwood

open Source

/-- A file that nothing live needs, with the nodes it leads to and those that lead to it otherwise than by a
definition. -/
structure UnusedFile where
  path : String
  kind : FileKind
  size : Int
  dependencies : List Node := []
  dependents : List Node := []
  deriving Repr

/-- A symbol that nothing live needs, with its definitions in order, the kinds of the files that define it,
and whether it is named in a literal. -/
structure UnusedSymbol where
  name : String
  definitions : List Definition
  fileKinds : List (String × FileKind) := []
  mentionedInStrings : Bool := false
  deriving Repr

def UnusedSymbol.definedIn (symbol : UnusedSymbol) : List String :=
  Text.sortedSet (symbol.definitions.map (·.path))

/-- The two halves of a graph, with the roots found in it. -/
structure Analysis where
  usedFiles : List String
  unusedFiles : List UnusedFile
  usedSymbols : List String
  unusedSymbols : List UnusedSymbol
  rootNames : List String := []
  rootFiles : List String := []
  unresolved : List Unresolved := []
  graph : Option Graph := none
  deriving Repr

/-- Why a graph cannot be analysed: a symbol is defined in a file that the graph does not have. -/
inductive AnalysisError where
  | missingFile (path : String)
  deriving Repr, DecidableEq

namespace Analysis

def totalFiles (analysis : Analysis) : Nat :=
  analysis.usedFiles.length + analysis.unusedFiles.length

def totalSymbols (analysis : Analysis) : Nat :=
  analysis.usedSymbols.length + analysis.unusedSymbols.length

def definitionNotAfter (first second : Definition) : Bool :=
  decide (first.path < second.path) || (first.path == second.path && first.startLine ≤ second.startLine)

def unusedFile (graph : Graph) (file : SourceFile) : UnusedFile :=
  { path := file.path
    kind := file.kind
    size := file.size
    dependencies := ((graph.edgesFrom file.node).filter (·.kind != .defines)).map (·.dst)
    dependents := ((graph.edgesTo file.node).filter (·.kind != .defines)).map (·.src) }

def ownerKind (graph : Graph) (path : String) : Except AnalysisError (String × FileKind) :=
  match graph.file? path with
  | some file => .ok (path, file.kind)
  | none => .error (.missingFile path)

def unusedSymbol (graph : Graph) (stringWords : List String) (symbol : Symbol) :
    Except AnalysisError UnusedSymbol := do
  let kinds ← symbol.definingFiles.mapM (ownerKind graph)
  return { name := symbol.name
           definitions := symbol.definitions.mergeSort definitionNotAfter
           fileKinds := kinds
           mentionedInStrings := stringWords.contains symbol.name }

def ofGraph (graph : Graph) (roots : Roots) (stringWords : List String := [])
    (unresolved : List Unresolved := []) : Except AnalysisError Analysis := do
  let rootNames := graph.rootNames roots
  let rootFiles := graph.rootPaths roots
  let marked := graph.mark roots ++ rootNames.map Node.symbol ++ rootFiles.map Node.file
  let files := graph.paths.filterMap graph.file?
  let symbols := graph.names.filterMap graph.symbol?
  let unusedSymbols ← (symbols.filter fun symbol => !marked.contains symbol.node).mapM
    (unusedSymbol graph stringWords)
  return { usedFiles := (files.filter fun file => marked.contains file.node).map (·.path)
           unusedFiles := (files.filter fun file => !marked.contains file.node).map (unusedFile graph)
           usedSymbols := (symbols.filter fun symbol => marked.contains symbol.node).map (·.name)
           unusedSymbols := unusedSymbols
           rootNames := rootNames
           rootFiles := rootFiles
           unresolved := unresolved
           graph := some graph }

def ofBuild (build : Build) (roots : Roots) : Except AnalysisError Analysis :=
  ofGraph build.graph roots build.stringWords build.unresolved

end Analysis
end Deadwood
