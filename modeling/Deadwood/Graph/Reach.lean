import Deadwood.Graph.Basic
import Deadwood.Roots

/-!
# Reachability

Nodes are visited in two ways. A file visited directly (it is a root, defines a root, or is included) makes
what it mentions, includes and defines live. A file visited as the owner of a live symbol makes live only
what it mentions and includes. `Reached` is the least relation with these rules; the search below visits
every node and way of visiting at most once, and no node as an owner that it has visited directly.
-/

set_option autoImplicit false
namespace Deadwood

/-- How a node is visited. -/
inductive Mode where
  | direct
  | owner
  deriving Repr, DecidableEq

abbrev Visit := Node × Mode

namespace Graph

def rootNames (graph : Graph) (roots : Roots) : List String :=
  graph.names.filter roots.matchesName

def rootPaths (graph : Graph) (roots : Roots) : List String :=
  let owners := (graph.rootNames roots).flatMap fun name =>
    ((graph.symbol? name).map Symbol.definingFiles).getD []
  Text.sortedSet (graph.paths.filter roots.matchesFile ++ owners)

def rootVisits (graph : Graph) (roots : Roots) : List Visit :=
  (graph.rootPaths roots).map (fun path => (.file path, .direct))
    ++ (graph.rootNames roots).map fun name => (.symbol name, .direct)

def next (graph : Graph) : Visit → List Visit
  | (.file path, mode) =>
    (graph.edgesFrom (.file path)).filterMap fun edge =>
      if edge.kind != .defines || mode = .direct then some (edge.dst, .direct) else none
  | (node, _) =>
    (graph.successors node [.references]).map (·, .direct)
      ++ (graph.predecessors node [.defines]).map (·, .owner)

/-- The least relation of live nodes and the ways of visiting them. -/
inductive Reached (graph : Graph) (roots : Roots) : Node → Mode → Prop
  /-- A file that is a root. -/
  | rootFile {path : String} (present : (graph.file? path).isSome) (isRoot : roots.matchesFile path) :
      Reached graph roots (.file path) .direct
  /-- A file that defines a symbol that is a root. -/
  | rootOwner {symbol : Symbol} {definition : Source.Definition} (present : graph.symbol? symbol.name = some symbol)
      (isRoot : roots.matchesName symbol.name) (defines : definition ∈ symbol.definitions) :
      Reached graph roots (.file definition.path) .direct
  /-- A symbol that is a root. -/
  | rootSymbol {name : String} (present : (graph.symbol? name).isSome) (isRoot : roots.matchesName name) :
      Reached graph roots (.symbol name) .direct
  /-- What a live file mentions or includes. -/
  | fromFile {path : String} {mode : Mode} {edge : Edge} (live : Reached graph roots (.file path) mode)
      (leads : edge ∈ graph.edges) (source : edge.src = .file path)
      (kind : edge.kind = .references ∨ edge.kind = .includes) : Reached graph roots edge.dst .direct
  /-- What a file visited directly defines. -/
  | defined {path : String} {edge : Edge} (live : Reached graph roots (.file path) .direct)
      (leads : edge ∈ graph.edges) (source : edge.src = .file path) (kind : edge.kind = .defines) :
      Reached graph roots edge.dst .direct
  /-- What a live node that is no file mentions. -/
  | fromSymbol {node : Node} {mode : Mode} {edge : Edge} (live : Reached graph roots node mode)
      (noFile : node.isFile = false) (leads : edge ∈ graph.edges) (source : edge.src = node)
      (kind : edge.kind = .references) : Reached graph roots edge.dst .direct
  /-- What defines a live node that is no file. -/
  | owner {node : Node} {mode : Mode} {edge : Edge} (live : Reached graph roots node mode)
      (noFile : node.isFile = false) (leads : edge ∈ graph.edges) (target : edge.dst = node)
      (kind : edge.kind = .defines) : Reached graph roots edge.src .owner

/-- Every visit there can be: of the roots and of the ends of edges, in both modes. -/
def allVisits (graph : Graph) (roots : Roots) : List Visit :=
  let nodes := ((graph.rootVisits roots).map (·.1) ++ graph.edges.flatMap fun edge => [edge.src, edge.dst]).eraseDups
  nodes.map (·, .direct) ++ nodes.map (·, .owner)

/-- Makes the visits of a queue that are not made yet, and those they lead to. A node visited directly is not
visited as an owner any more, but one visited as an owner is visited again directly. `unseen` are the visits not
made yet, `made` those made, the latest first. -/
def search (graph : Graph) (unseen made : List Visit) : List Visit → List Visit
  | [] => made
  | visit :: queue =>
    if visit ∈ unseen ∧ (visit.1, Mode.direct) ∉ made then
      search graph (unseen.erase visit) (visit :: made) (queue ++ graph.next visit)
    else search graph unseen made queue
termination_by queue => (unseen.length, queue.length)
decreasing_by
  · rename_i present
    apply Prod.Lex.left
    rw [List.length_erase_of_mem present.1]
    have := List.length_pos_of_mem present.1
    omega
  · apply Prod.Lex.right
    simp

def mark (graph : Graph) (roots : Roots) : List Node :=
  ((search graph (graph.allVisits roots) [] (graph.rootVisits roots)).map (·.1)).eraseDups

end Graph
end Deadwood
