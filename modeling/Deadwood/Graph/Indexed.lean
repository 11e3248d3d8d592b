import Deadwood.Graph.Basic

/-!
# Graphs with tables

A graph can be kept in three collections: its edges, the edges by the node they leave, and the edges by the node they reach. The
two tables get a row for a node when the first edge is entered there, and no query makes one.
-/

set_option autoImplicit false
namespace Deadwood

/-! ## Edges by node -/

abbrev EdgeTable : Type := List (Node × List Edge)

namespace EdgeTable

def row (node : Node) : EdgeTable → List Edge
  | [] => []
  | (other, edges) :: rest => if other = node then edges else row node rest

def enter (node : Node) (edge : Edge) : EdgeTable → EdgeTable
  | [] => [(node, [edge])]
  | (other, edges) :: rest =>
    if other = node then (other, edges ++ [edge]) :: rest else (other, edges) :: enter node edge rest

end EdgeTable

/-- A graph with its edges by the nodes that they leave and reach. -/
structure IndexedGraph extends Graph where
  forward : EdgeTable := []
  reverse : EdgeTable := []

namespace IndexedGraph

/-- Adds an edge to all three collections, unless it is there already or leads from a node to itself. -/
def addEdge (graph : IndexedGraph) (edge : Edge) : Bool × IndexedGraph :=
  if edge.src = edge.dst then (false, graph)
  else if edge ∈ graph.edges then (false, graph)
  else (true,
    { graph with
      edges := graph.edges ++ [edge]
      forward := graph.forward.enter edge.src edge
      reverse := graph.reverse.enter edge.dst edge })

def edgesFrom (graph : IndexedGraph) (node : Node) : List Edge :=
  (graph.forward.row node).mergeSort Edge.targetNotAfter

def edgesTo (graph : IndexedGraph) (node : Node) : List Edge :=
  (graph.reverse.row node).mergeSort Edge.sourceNotAfter

def successors (graph : IndexedGraph) (node : Node) (kinds : List EdgeKind) : List Node :=
  (((graph.forward.row node).filter fun edge => kinds.contains edge.kind).map (·.dst)).mergeSort Node.notAfter

def predecessors (graph : IndexedGraph) (node : Node) (kinds : List EdgeKind) : List Node :=
  (((graph.reverse.row node).filter fun edge => kinds.contains edge.kind).map (·.src)).mergeSort Node.notAfter

end IndexedGraph
end Deadwood
