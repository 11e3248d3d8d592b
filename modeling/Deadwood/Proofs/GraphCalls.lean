import Mathlib
import Deadwood.Graph.Indexed

/-!
# Calls of a graph

Every call keeps the three collections of a graph with tables in step. So it answers every call as the graph with the one list of
edges does, and an edge that is found in one of its readings is found in all.
-/

set_option autoImplicit false
namespace Deadwood

/-! ## Edges by node -/

namespace EdgeTable

theorem row_enter (node wanted : Node) (edge : Edge) (table : EdgeTable) :
    (table.enter node edge).row wanted = table.row wanted ++ if node = wanted then [edge] else [] := by
  induction table with
  | nil => simp [enter, row]
  | cons first rest inductionHypothesis =>
      obtain ⟨other, edges⟩ := first
      by_cases here : other = node
      · subst here
        by_cases same : other = wanted
        · simp [enter, row, same]
        · simp [enter, row, same]
      · by_cases same : other = wanted
        · subst same
          simp [enter, row, here, Ne.symm here]
        · simp [enter, row, here, same, inductionHypothesis]

end EdgeTable

namespace IndexedGraph

structure InStep (graph : IndexedGraph) : Prop where
  forward : ∀ node, graph.forward.row node = graph.edges.filter (·.src == node)
  reverse : ∀ node, graph.reverse.row node = graph.edges.filter (·.dst == node)

theorem addEdge_eq (graph : IndexedGraph) (edge : Edge) :
    (graph.addEdge edge).1 = graph.accepts edge ∧ (graph.addEdge edge).2.toGraph = graph.toGraph.addEdge edge := by
  unfold addEdge Graph.addEdge Graph.accepts
  by_cases loop : edge.src = edge.dst
  · simp [loop]
  · by_cases known : edge ∈ graph.edges
    · simp [loop, known]
    · simp [loop, known]

theorem InStep.addEdge {graph : IndexedGraph} (inStep : InStep graph) (edge : Edge) : InStep (graph.addEdge edge).2 := by
  unfold IndexedGraph.addEdge
  split
  · exact inStep
  · split
    · exact inStep
    · constructor
      · intro node
        rw [EdgeTable.row_enter, inStep.forward, List.filter_append, List.filter_singleton]
        simp
      · intro node
        rw [EdgeTable.row_enter, inStep.reverse, List.filter_append, List.filter_singleton]
        simp

end IndexedGraph

/-! ## Calls -/

/-- A call with the identifiers that it is made with. Without kinds, a query asks for all of them. -/
inductive GraphCall where
  | addFile (file : SourceFile)
  | addSymbol (symbol : Symbol)
  | addEdge (src dst : String) (kind : EdgeKind)
  | edges
  | nodes
  | hasNode (identifier : String)
  | successors (identifier : String) (kinds : Option (List EdgeKind))
  | predecessors (identifier : String) (kinds : Option (List EdgeKind))
  | edgesFrom (identifier : String)
  | edgesTo (identifier : String)
  | stats

namespace GraphCall

def isQuery : GraphCall → Bool
  | addFile _ => false
  | addSymbol _ => false
  | addEdge _ _ _ => false
  | _ => true

end GraphCall

inductive GraphAnswer where
  | done
  | added (accepted : Bool)
  | edges (edges : List Edge)
  | nodes (nodes : List Node)
  | found (present : Bool)
  | stats (files symbols edges : Nat) (perKind : List (EdgeKind × Nat))
  deriving DecidableEq

def Edge.between (src dst : String) (kind : EdgeKind) : Edge :=
  ⟨.ofText src, .ofText dst, kind⟩

def Graph.act (graph : Graph) : GraphCall → GraphAnswer × Graph
  | .addFile file => (.done, graph.addFile file)
  | .addSymbol symbol => (.done, graph.addSymbol symbol)
  | .addEdge src dst kind =>
    (.added (graph.accepts (.between src dst kind)), graph.addEdge (.between src dst kind))
  | .edges => (.edges graph.sortedEdges, graph)
  | .nodes => (.nodes graph.nodes, graph)
  | .hasNode identifier => (.found (graph.hasNode identifier), graph)
  | .successors identifier kinds => (.nodes (graph.successors (.ofText identifier) (kinds.getD allKinds)), graph)
  | .predecessors identifier kinds => (.nodes (graph.predecessors (.ofText identifier) (kinds.getD allKinds)), graph)
  | .edgesFrom identifier => (.edges (graph.edgesFrom (.ofText identifier)), graph)
  | .edgesTo identifier => (.edges (graph.edgesTo (.ofText identifier)), graph)
  | .stats =>
    (.stats graph.files.length graph.symbols.length graph.edges.length
      (allKinds.map fun kind => (kind, graph.countOf kind)), graph)

def IndexedGraph.act (graph : IndexedGraph) : GraphCall → GraphAnswer × IndexedGraph
  | .addEdge src dst kind => ((graph.addEdge (.between src dst kind)).map .added id)
  | .successors identifier kinds =>
    (.nodes (graph.successors (.ofText identifier) (kinds.getD Graph.allKinds)), graph)
  | .predecessors identifier kinds =>
    (.nodes (graph.predecessors (.ofText identifier) (kinds.getD Graph.allKinds)), graph)
  | .edgesFrom identifier => (.edges (graph.edgesFrom (.ofText identifier)), graph)
  | .edgesTo identifier => (.edges (graph.edgesTo (.ofText identifier)), graph)
  | other => ((graph.toGraph.act other).1, { graph with toGraph := (graph.toGraph.act other).2 })

/-- The answers to calls that are made one after another, and what there is then. -/
def GraphCall.run {State : Type} (act : State → GraphCall → GraphAnswer × State) (state : State) :
    List GraphCall → List GraphAnswer × State
  | [] => ([], state)
  | call :: rest =>
    let (answer, next) := act state call
    let (answers, final) := run act next rest
    (answer :: answers, final)

/-! ## What every call keeps -/

namespace Node

theorem text_ofText (text : String) : (ofText text).text = text := by
  have rebuilt : ∀ (label : String) (rest : List Char), label.toList ++ rest = text.toList →
      label ++ String.ofList (text.toList.drop label.toList.length) = text := by
    intro label rest chars
    rw [← chars, List.drop_left, ← String.toList_inj, String.toList_append, String.toList_ofList, chars]
  unfold ofText
  dsimp only
  split
  · rename_i isFile
    obtain ⟨rest, chars⟩ := List.isPrefixOf_iff_prefix.mp isFile
    exact rebuilt "file:" rest chars
  · split
    · rename_i isSymbol
      obtain ⟨rest, chars⟩ := List.isPrefixOf_iff_prefix.mp isSymbol
      exact rebuilt "symbol:" rest chars
    · rfl

end Node

def Edge.texts (edge : Edge) : String × String × EdgeKind :=
  (edge.src.text, edge.dst.text, edge.kind)

theorem Edge.texts_between (src dst : String) (kind : EdgeKind) : (Edge.between src dst kind).texts = (src, dst, kind) := by
  simp [texts, between, Node.text_ofText]

/-- The edges of a graph that calls have made: none twice, none from a node to itself, each as its identifiers are read. -/
structure Graph.Proper (graph : Graph) : Prop where
  once : graph.edges.Nodup
  noLoop : ∀ edge ∈ graph.edges, edge.src ≠ edge.dst
  read : ∀ edge ∈ graph.edges, Edge.between edge.src.text edge.dst.text edge.kind = edge

namespace Graph

variable {graph : Graph}

theorem proper_empty : Proper {} where
  once := List.nodup_nil
  noLoop edge member := by simp at member
  read edge member := by simp at member

theorem edges_addEdge (graph : Graph) (edge : Edge) :
    (graph.addEdge edge).edges = graph.edges ++ if graph.accepts edge then [edge] else [] := by
  unfold addEdge
  split <;> simp

theorem Proper.addEdge (proper : Proper graph) (src dst : String) (kind : EdgeKind) :
    Proper (graph.addEdge (.between src dst kind)) := by
  by_cases accepted : graph.accepts (.between src dst kind) = true
  · have edges := edges_addEdge graph (.between src dst kind)
    simp only [accepted, if_true] at edges
    obtain ⟨noLoop, fresh⟩ : (Edge.between src dst kind).src ≠ (Edge.between src dst kind).dst ∧
        Edge.between src dst kind ∉ graph.edges := by
      simpa [accepts] using accepted
    constructor
    · rw [edges]
      apply List.Nodup.append proper.once (List.nodup_singleton _)
      simpa using fresh
    · intro edge member
      rw [edges, List.mem_append, List.mem_singleton] at member
      rcases member with old | rfl
      · exact proper.noLoop edge old
      · exact noLoop
    · intro edge member
      rw [edges, List.mem_append, List.mem_singleton] at member
      rcases member with old | rfl
      · exact proper.read edge old
      · simp [Edge.between, Node.text_ofText]
  · rw [Graph.addEdge, if_neg accepted]
    exact proper

theorem edges_act (graph : Graph) (call : GraphCall) :
    (graph.act call).2.edges.length = graph.edges.length + [(graph.act call).1].count (.added true) := by
  cases call with
  | addEdge src dst kind =>
      rw [act, edges_addEdge]
      cases accepted : graph.accepts (.between src dst kind) with
      | true => simp
      | false => simp
  | _ => simp [act, addFile, addSymbol]

theorem Proper.act (proper : Proper graph) (call : GraphCall) : Proper (graph.act call).2 := by
  cases call with
  | addEdge src dst kind => exact proper.addEdge src dst kind
  | addFile file => exact ⟨proper.once, proper.noLoop, proper.read⟩
  | addSymbol symbol => exact ⟨proper.once, proper.noLoop, proper.read⟩
  | _ => exact proper

theorem Proper.run (proper : Proper graph) (calls : List GraphCall) :
    Proper (GraphCall.run Graph.act graph calls).2 ∧
      (GraphCall.run Graph.act graph calls).2.edges.length =
        graph.edges.length + (GraphCall.run Graph.act graph calls).1.count (.added true) := by
  induction calls generalizing graph with
  | nil => exact ⟨proper, rfl⟩
  | cons call rest inductionHypothesis =>
      obtain ⟨later, count⟩ := inductionHypothesis (proper.act call)
      refine ⟨later, ?_⟩
      have here := edges_act graph call
      simp only [GraphCall.run, List.count_cons, List.count_nil] at count here ⊢
      omega

theorem length_edges_eq_sum (graph : Graph) : graph.edges.length = (allKinds.map graph.countOf).sum := by
  have each : ∀ edges : List Edge, edges.length = edges.countP (·.kind == .defines) +
      (edges.countP (·.kind == .references) + (edges.countP (·.kind == .includes) + 0)) := by
    intro edges
    induction edges with
    | nil => rfl
    | cons edge rest inductionHypothesis =>
        rcases edge with ⟨src, dst, kind⟩
        cases kind <;> simp <;> omega
  exact each graph.edges

end Graph

namespace IndexedGraph

variable {graph : IndexedGraph}

namespace InStep

theorem edgesFrom_eq (inStep : InStep graph) (node : Node) : graph.edgesFrom node = graph.toGraph.edgesFrom node := by
  rw [IndexedGraph.edgesFrom, inStep.forward, Graph.edgesFrom]

theorem edgesTo_eq (inStep : InStep graph) (node : Node) : graph.edgesTo node = graph.toGraph.edgesTo node := by
  rw [IndexedGraph.edgesTo, inStep.reverse, Graph.edgesTo]

theorem successors_eq (inStep : InStep graph) (node : Node) (kinds : List EdgeKind) :
    graph.successors node kinds = graph.toGraph.successors node kinds := by
  simp only [IndexedGraph.successors, inStep.forward, Graph.successors, List.filter_filter, Bool.and_comm]

theorem predecessors_eq (inStep : InStep graph) (node : Node) (kinds : List EdgeKind) :
    graph.predecessors node kinds = graph.toGraph.predecessors node kinds := by
  simp only [IndexedGraph.predecessors, inStep.reverse, Graph.predecessors, List.filter_filter, Bool.and_comm]

/-- One call is answered as without tables, and leaves the tables in step. -/
theorem act (inStep : InStep graph) (call : GraphCall) :
    (graph.act call).1 = (graph.toGraph.act call).1 ∧ (graph.act call).2.toGraph = (graph.toGraph.act call).2 ∧
      InStep (graph.act call).2 := by
  cases call with
  | addEdge src dst kind =>
      obtain ⟨accepted, added⟩ := addEdge_eq graph (.between src dst kind)
      refine ⟨?_, added, inStep.addEdge _⟩
      simp [IndexedGraph.act, Graph.act, accepted]
  | successors identifier kinds => simp [IndexedGraph.act, Graph.act, inStep.successors_eq, inStep]
  | predecessors identifier kinds => simp [IndexedGraph.act, Graph.act, inStep.predecessors_eq, inStep]
  | edgesFrom identifier => simp [IndexedGraph.act, Graph.act, inStep.edgesFrom_eq, inStep]
  | edgesTo identifier => simp [IndexedGraph.act, Graph.act, inStep.edgesTo_eq, inStep]
  | addFile file => exact ⟨rfl, rfl, inStep.forward, inStep.reverse⟩
  | addSymbol symbol => exact ⟨rfl, rfl, inStep.forward, inStep.reverse⟩
  | _ => exact ⟨rfl, rfl, inStep⟩

theorem run (inStep : InStep graph) (calls : List GraphCall) :
    let kept := GraphCall.run IndexedGraph.act graph calls
    let plain := GraphCall.run Graph.act graph.toGraph calls
    kept.1 = plain.1 ∧ kept.2.toGraph = plain.2 ∧ InStep kept.2 := by
  induction calls generalizing graph with
  | nil => exact ⟨rfl, rfl, inStep⟩
  | cons call rest inductionHypothesis =>
      obtain ⟨sameAnswer, sameGraph, stays⟩ := inStep.act call
      obtain ⟨sameAnswers, sameFinal, staysToEnd⟩ := inductionHypothesis stays
      simp only [GraphCall.run]
      rw [← sameGraph, ← sameAnswer]
      exact ⟨congrArg _ sameAnswers, sameFinal, staysToEnd⟩

end InStep

end IndexedGraph

/-! ## The readings of an edge -/

namespace GraphAnswer

def listsEdge (src dst : String) (kind : EdgeKind) : GraphAnswer → Prop
  | edges listed => (src, dst, kind) ∈ listed.map Edge.texts
  | _ => False

def listsNode (identifier : String) : GraphAnswer → Prop
  | nodes listed => identifier ∈ listed.map Node.text
  | _ => False

end GraphAnswer

namespace Graph.Proper

variable {graph : Graph} (proper : Proper graph)

include proper

theorem mem_map_texts {src dst : String} {kind : EdgeKind} {listed : List Edge} (known : ∀ edge ∈ listed, edge ∈ graph.edges) :
    (src, dst, kind) ∈ listed.map Edge.texts ↔ Edge.between src dst kind ∈ listed := by
  rw [List.mem_map]
  constructor
  · rintro ⟨edge, member, texts⟩
    obtain ⟨rfl, rfl, rfl⟩ : edge.src.text = src ∧ edge.dst.text = dst ∧ edge.kind = kind := by
      simpa [Edge.texts] using texts
    rw [proper.read edge (known edge member)]
    exact member
  · intro member
    exact ⟨_, member, Edge.texts_between src dst kind⟩

theorem readings_tfae (src dst : String) (kind : EdgeKind) :
    [(graph.act .edges).1.listsEdge src dst kind,
      (graph.act (.edgesFrom src)).1.listsEdge src dst kind,
      (graph.act (.edgesTo dst)).1.listsEdge src dst kind,
      (graph.act (.successors src (some [kind]))).1.listsNode dst,
      (graph.act (.predecessors dst (some [kind]))).1.listsNode src].TFAE := by
  have mem_edgesTo {node : Node} {edge : Edge} : edge ∈ graph.edgesTo node ↔ edge ∈ graph.edges ∧ edge.dst = node := by
    simp [edgesTo]
  change [(src, dst, kind) ∈ graph.sortedEdges.map Edge.texts,
    (src, dst, kind) ∈ (graph.edgesFrom (.ofText src)).map Edge.texts,
    (src, dst, kind) ∈ (graph.edgesTo (.ofText dst)).map Edge.texts,
    dst ∈ (graph.successors (.ofText src) [kind]).map Node.text,
    src ∈ (graph.predecessors (.ofText dst) [kind]).map Node.text].TFAE
  apply List.tfae_of_forall (Edge.between src dst kind ∈ graph.edges)
  simp only [List.forall_mem_cons]
  refine ⟨?_, ?_, ?_, ?_, ?_, by simp⟩
  · rw [proper.mem_map_texts fun edge => by simp [sortedEdges]]
    simp [sortedEdges]
  · rw [proper.mem_map_texts fun edge member => (mem_edgesFrom.mp member).1, mem_edgesFrom]
    simp [Edge.between]
  · rw [proper.mem_map_texts fun edge member => (mem_edgesTo.mp member).1, mem_edgesTo]
    simp [Edge.between]
  · simp only [List.mem_map, mem_successors, List.mem_singleton]
    constructor
    · rintro ⟨_, ⟨edge, member, source, rfl, rfl⟩, rfl⟩
      have isEdge := proper.read edge member
      rwa [source, Node.text_ofText, isEdge] at *
    · intro member
      exact ⟨.ofText dst, ⟨_, member, rfl, rfl, rfl⟩, Node.text_ofText dst⟩
  · simp only [List.mem_map, mem_predecessors, List.mem_singleton]
    constructor
    · rintro ⟨_, ⟨edge, member, target, rfl, rfl⟩, rfl⟩
      have isEdge := proper.read edge member
      rwa [target, Node.text_ofText, isEdge] at *
    · intro member
      exact ⟨.ofText src, ⟨_, member, rfl, rfl, rfl⟩, Node.text_ofText src⟩

theorem nodup_texts : (graph.sortedEdges.map Edge.texts).Nodup := by
  have once : graph.sortedEdges.Nodup := (List.mergeSort_perm _ _).nodup_iff.mpr proper.once
  apply once.map_on
  intro first firstMember second secondMember same
  have read {edge : Edge} (member : edge ∈ graph.sortedEdges) := proper.read edge (List.mem_mergeSort.mp member)
  obtain ⟨sameSource, sameTarget, sameKind⟩ : first.src.text = second.src.text ∧ first.dst.text = second.dst.text ∧
      first.kind = second.kind := by
    simpa [Edge.texts] using same
  rw [← read firstMember, ← read secondMember, sameSource, sameTarget, sameKind]

end Graph.Proper

/-- After any calls, a graph that is kept in three collections answers as the one with a list of edges does, and every reading has
the same edges. None stands twice or leads from an identifier to itself; there are as many as calls have added, and as many as
the kinds count together. A query changes nothing. -/
theorem calls_keep_adjacency (calls : List GraphCall) :
    let kept := GraphCall.run IndexedGraph.act {} calls
    let plain := GraphCall.run Graph.act {} calls
    (kept.1 = plain.1 ∧ ∀ call, (kept.2.act call).1 = (plain.2.act call).1) ∧
      (∀ src dst kind,
        [(kept.2.act .edges).1.listsEdge src dst kind,
          (kept.2.act (.edgesFrom src)).1.listsEdge src dst kind,
          (kept.2.act (.edgesTo dst)).1.listsEdge src dst kind,
          (kept.2.act (.successors src (some [kind]))).1.listsNode dst,
          (kept.2.act (.predecessors dst (some [kind]))).1.listsNode src].TFAE) ∧
      (kept.2.sortedEdges.map Edge.texts).Nodup ∧
      (∀ edge ∈ kept.2.sortedEdges, edge.src.text ≠ edge.dst.text) ∧
      kept.2.sortedEdges.length = kept.1.count (.added true) ∧
      kept.2.sortedEdges.length = (Graph.allKinds.map kept.2.countOf).sum ∧
      ∀ call, call.isQuery = true → (kept.2.act call).2 = kept.2 := by
  intro kept plain
  have begun : IndexedGraph.InStep {} := ⟨fun _ => rfl, fun _ => rfl⟩
  obtain ⟨sameAnswers, sameGraph, inStep⟩ := begun.run calls
  obtain ⟨proper, count⟩ := Graph.proper_empty.run calls
  have sameAnswer (call : GraphCall) : (kept.2.act call).1 = (plain.2.act call).1 := by
    rw [← sameGraph]
    exact (inStep.act call).1
  have keptProper : kept.2.toGraph.Proper := sameGraph ▸ proper
  have keptLength : kept.2.sortedEdges.length = kept.2.edges.length := List.length_mergeSort ..
  refine ⟨⟨sameAnswers, sameAnswer⟩, ?_, keptProper.nodup_texts, ?_, ?_, ?_, ?_⟩
  · intro src dst kind
    simp only [sameAnswer]
    exact proper.readings_tfae src dst kind
  · intro edge member sameText
    have known := List.mem_mergeSort.mp member
    apply keptProper.noLoop edge known
    rw [← keptProper.read edge known]
    exact congrArg Node.ofText sameText
  · rw [keptLength, sameAnswers]
    have plainLength : plain.2.edges.length = plain.1.count (.added true) := by simpa using count
    rw [← plainLength, ← sameGraph]
  · rw [keptLength]
    exact kept.2.length_edges_eq_sum
  · intro call isQuery
    cases call with
    | addFile | addSymbol | addEdge => cases isQuery
    | _ => rfl

end Deadwood
