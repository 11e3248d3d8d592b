import Deadwood.Keyed
import Deadwood.Source.Definition
import Deadwood.SourceFile
import Deadwood.Text.Order
import Deadwood.Text.SortedSet

/-!
# The dependency graph

Nodes are source files and symbols. An edge says that a file defines a symbol, that a file or symbol
mentions a symbol, or that a file includes a file. Each edge is kept once, and none leads from a node to
itself; what leads from a node and to a node are two readings of the one list of edges.
-/

set_option autoImplicit false
namespace Deadwood

open Source

/-- A node of the graph. Edges added by hand may have ends of no kind. -/
inductive Node where
  | file (path : String)
  | symbol (name : String)
  | other (text : String)
  deriving Repr, DecidableEq, Inhabited

namespace Node

def text : Node → String
  | file path => "file:" ++ path
  | symbol name => "symbol:" ++ name
  | other text => text

def ofText (text : String) : Node :=
  let chars := text.toList
  if "file:".toList.isPrefixOf chars then file (String.ofList (chars.drop 5))
  else if "symbol:".toList.isPrefixOf chars then symbol (String.ofList (chars.drop 7))
  else other text

def isFile : Node → Bool
  | file _ => true
  | _ => false

def notAfter (first second : Node) : Bool :=
  decide (first.text ≤ second.text)

end Node

inductive EdgeKind where
  | defines
  | references
  | includes
  deriving Repr, DecidableEq, Inhabited

namespace EdgeKind

def label : EdgeKind → String
  | defines => "defines"
  | references => "references"
  | includes => "includes"

def ofLabel? (text : String) : Option EdgeKind :=
  [defines, references, includes].find? (·.label == text)

end EdgeKind

structure Edge where
  src : Node
  dst : Node
  kind : EdgeKind
  deriving Repr, DecidableEq, Inhabited

namespace Edge

def notAfter (first second : Edge) : Bool :=
  Text.notAfter [first.src.text, first.dst.text, first.kind.label]
    [second.src.text, second.dst.text, second.kind.label]

def targetNotAfter (first second : Edge) : Bool :=
  Text.notAfter [first.dst.text, first.kind.label] [second.dst.text, second.kind.label]

def sourceNotAfter (first second : Edge) : Bool :=
  Text.notAfter [first.src.text, first.kind.label] [second.src.text, second.kind.label]

end Edge

structure Symbol where
  name : String
  definitions : List Definition
  deriving Repr, Inhabited

namespace Symbol

def node (symbol : Symbol) : Node := .symbol symbol.name

def definingFiles (symbol : Symbol) : List String :=
  Text.sortedSet (symbol.definitions.map (·.path))

theorem mem_definingFiles {symbol : Symbol} {path : String} :
    path ∈ symbol.definingFiles ↔ ∃ definition ∈ symbol.definitions, definition.path = path := by
  simp [definingFiles, Text.mem_sortedSet]

def isMultiplyDefined (symbol : Symbol) : Bool :=
  1 < symbol.definitions.length

end Symbol

def SourceFile.node (file : SourceFile) : Node := .file file.path

/-- Files, symbols, and the edges between them. -/
structure Graph where
  files : List SourceFile := []
  symbols : List Symbol := []
  edges : List Edge := []
  deriving Repr, Inhabited

namespace Graph

/-! ## Construction -/

def addFile (graph : Graph) (file : SourceFile) : Graph :=
  { graph with files := Keyed.put SourceFile.path file graph.files }

def addSymbol (graph : Graph) (symbol : Symbol) : Graph :=
  { graph with symbols := Keyed.put Symbol.name symbol graph.symbols }

def accepts (graph : Graph) (edge : Edge) : Bool :=
  edge.src != edge.dst && !graph.edges.contains edge

def addEdge (graph : Graph) (edge : Edge) : Graph :=
  if graph.accepts edge then { graph with edges := graph.edges ++ [edge] } else graph

/-! ## Queries -/

def file? (graph : Graph) (path : String) : Option SourceFile :=
  Keyed.find? SourceFile.path path graph.files

def symbol? (graph : Graph) (name : String) : Option Symbol :=
  Keyed.find? Symbol.name name graph.symbols

def paths (graph : Graph) : List String :=
  Text.sortedSet (graph.files.map (·.path))

def names (graph : Graph) : List String :=
  Text.sortedSet (graph.symbols.map (·.name))

def nodes (graph : Graph) : List Node :=
  (graph.files.map SourceFile.node ++ graph.symbols.map Symbol.node).mergeSort Node.notAfter

def hasNode (graph : Graph) (identifier : String) : Bool :=
  match Node.ofText identifier with
  | .file path => (graph.file? path).isSome
  | .symbol name => (graph.symbol? name).isSome
  | .other text =>
    (text == "file" && (graph.file? "").isSome) || (text == "symbol" && (graph.symbol? "").isSome)

def sortedEdges (graph : Graph) : List Edge :=
  graph.edges.mergeSort Edge.notAfter

def edgesFrom (graph : Graph) (node : Node) : List Edge :=
  (graph.edges.filter (·.src == node)).mergeSort Edge.targetNotAfter

def edgesTo (graph : Graph) (node : Node) : List Edge :=
  (graph.edges.filter (·.dst == node)).mergeSort Edge.sourceNotAfter

/-- Where edges of the given kinds lead from a node, once per edge. -/
def successors (graph : Graph) (node : Node) (kinds : List EdgeKind) : List Node :=
  ((graph.edges.filter fun edge => edge.src == node && kinds.contains edge.kind).map (·.dst)).mergeSort
    Node.notAfter

/-- Where edges of the given kinds to a node come from, once per edge. -/
def predecessors (graph : Graph) (node : Node) (kinds : List EdgeKind) : List Node :=
  ((graph.edges.filter fun edge => edge.dst == node && kinds.contains edge.kind).map (·.src)).mergeSort
    Node.notAfter

theorem mem_edgesFrom {graph : Graph} {node : Node} {edge : Edge} :
    edge ∈ graph.edgesFrom node ↔ edge ∈ graph.edges ∧ edge.src = node := by
  simp [edgesFrom]

theorem mem_successors {graph : Graph} {node target : Node} {kinds : List EdgeKind} :
    target ∈ graph.successors node kinds ↔
      ∃ edge ∈ graph.edges, edge.src = node ∧ edge.kind ∈ kinds ∧ edge.dst = target := by
  simp [successors, and_assoc]

theorem mem_predecessors {graph : Graph} {node source : Node} {kinds : List EdgeKind} :
    source ∈ graph.predecessors node kinds ↔
      ∃ edge ∈ graph.edges, edge.dst = node ∧ edge.kind ∈ kinds ∧ edge.src = source := by
  simp [predecessors, and_assoc]

theorem symbol?_name {graph : Graph} {name : String} {symbol : Symbol}
    (found : graph.symbol? name = some symbol) : symbol.name = name :=
  Keyed.key_of_find? found

theorem file?_path {graph : Graph} {path : String} {file : SourceFile}
    (found : graph.file? path = some file) : file.path = path :=
  Keyed.key_of_find? found

theorem mem_names {graph : Graph} {name : String} : name ∈ graph.names ↔ (graph.symbol? name).isSome := by
  rw [names, Text.mem_sortedSet, symbol?, Keyed.isSome_find?]

theorem mem_paths {graph : Graph} {path : String} : path ∈ graph.paths ↔ (graph.file? path).isSome := by
  rw [paths, Text.mem_sortedSet, file?, Keyed.isSome_find?]

def allKinds : List EdgeKind := [.defines, .references, .includes]

def countOf (graph : Graph) (kind : EdgeKind) : Nat :=
  graph.edges.countP (·.kind == kind)

end Graph
end Deadwood
