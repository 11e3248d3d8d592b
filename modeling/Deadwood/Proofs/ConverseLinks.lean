import Deadwood.Proofs.FailedReadings
import Deadwood.Report.Basic

/-!
# Links between files

The links of a file are found in two walks: along the edges from the file and from what it defines to the files that own their
ends, and against the edges back to those that own their beginnings. In a built graph a file leads to a symbol as its definer
exactly if the table of symbols lists a definition there. So both walks go through the same edges, and what one finds from either
end the other finds from the other. Every symbol that is looked up on the way is in the table.
-/

set_option autoImplicit false
namespace Deadwood.Report

open Source

/-! ## Looking up owners -/

def ownersOf (graph : Graph) : Node → List String
  | .file path => [path]
  | .symbol name => ((graph.symbol? name).map Symbol.definingFiles).getD []
  | .other _ => []

/-- The links of the file at a path where no owner is missing: the owners of what it and its symbols lead to, and of what leads
to them. -/
def fileLinks (graph : Graph) (path : String) : FileLinks :=
  let defines := graph.successors (.file path) [.defines]
  let sources := Node.file path :: defines
  let others (nodes : List Node) :=
    Text.sortedSet ((nodes.flatMap (ownersOf graph)).filter (· != path))
  { dependsOn := others (sources.flatMap fun node =>
      ((graph.edgesFrom node).filter (·.kind != .defines)).map (·.dst))
    usedBy := others (sources.flatMap fun node =>
      ((graph.edgesTo node).filter (·.kind != .defines)).map (·.src))
    defines := defines }

theorem keyOf_file (path : String) : keyOf "file:".length (.file path) = path := by
  have text : (Node.file path).text.toList = "file:".toList ++ path.toList := String.toList_append
  rw [keyOf, text, String.length, List.drop_left, String.ofList_toList]

theorem keyOf_symbol (name : String) : keyOf "symbol:".length (.symbol name) = name := by
  have text : (Node.symbol name).text.toList = "symbol:".toList ++ name.toList := String.toList_append
  rw [keyOf, text, String.length, List.drop_left, String.ofList_toList]

theorem mapM_eq_some_map {α β : Type} {find : α → Option β} {found : α → β} {items : List α}
    (each : ∀ item ∈ items, find item = some (found item)) : items.mapM find = some (items.map found) := by
  induction items with
  | nil => rfl
  | cons item rest inductionHypothesis =>
      have first := each item List.mem_cons_self
      have later := inductionHypothesis fun other member => each other (List.mem_cons_of_mem item member)
      simp [List.mapM_cons, first, later]

/-! ## Graphs whose edges and tables agree -/

def IsKnown (graph : Graph) : Node → Prop
  | .file _ => True
  | .symbol name => (graph.symbol? name).isSome
  | .other _ => False

/-- The edge leads between known nodes of the right kinds. -/
structure Joins (graph : Graph) (edge : Edge) : Prop where
  includes : edge.kind = .includes → edge.src.isFile = true ∧ edge.dst.isFile = true
  references : edge.kind = .references → IsKnown graph edge.src ∧ IsKnown graph edge.dst ∧ edge.dst.isFile = false

def Joined (graph : Graph) : Prop :=
  ∀ edge ∈ graph.edges, Joins graph edge

/-- All edges are joined, and a file leads to what the table says that it defines. -/
structure Tied (graph : Graph) : Prop where
  joined : Joined graph
  defines : ∀ path node, ⟨.file path, node, .defines⟩ ∈ graph.edges ↔
    ∃ name, node = .symbol name ∧ path ∈ ownersOf graph (.symbol name)

section Built

variable {extractor : SourceFile → Extraction} {files : List SourceFile}

theorem Joins.of_sameTables {first second : Graph} {edge : Edge} (joins : Joins first edge)
    (same : Graph.SameTables second first) : Joins second edge := by
  have known : ∀ node, IsKnown first node → IsKnown second node := by
    intro node known
    cases node with
    | file path => trivial
    | symbol name => rwa [IsKnown, Graph.symbol?, same.symbols]
    | other text => exact known
  exact ⟨joins.includes, fun isReference =>
    have ends := joins.references isReference
    ⟨known _ ends.1, known _ ends.2.1, ends.2.2⟩⟩

theorem Joined.addEdge {graph : Graph} {edge : Edge} (joined : Joined graph) (joins : Joins graph edge) :
    Joined (graph.addEdge edge) := by
  intro other member
  rcases Graph.mem_edges_addEdge.mp member with old | ⟨rfl, _⟩
  · exact (joined other old).of_sameTables Graph.sameTables_addEdge
  · exact joins.of_sameTables Graph.sameTables_addEdge

theorem joined_foldl {α β : Type} (graphOf : β → Graph) {step : β → α → β} {items : List α}
    (each : ∀ before, ∀ item ∈ items, Joined (graphOf before) → Joined (graphOf (step before item))) {before : β}
    (joined : Joined (graphOf before)) : Joined (graphOf (items.foldl step before)) := by
  induction items generalizing before with
  | nil => exact joined
  | cons item rest ih =>
      exact ih (fun later other member => each later other (List.mem_cons_of_mem item member))
        (each before item List.mem_cons_self joined)

theorem joined_resolveMention (path : String) {build : Build} (mention : Mention) (joined : Joined build.graph) :
    Joined (Build.resolveMention path build mention).graph := by
  unfold Build.resolveMention
  split
  case isFalse =>
    split
    · exact joined
    · exact joined
  case isTrue known =>
    refine joined.addEdge ⟨(nomatch ·), fun _ => ⟨?_, known, rfl⟩⟩
    cases mention.enclosing with
    | none => trivial
    | some name =>
        dsimp only
        split
        case isTrue around => exact (Bool.and_eq_true_iff.mp around).2
        case isFalse => trivial

theorem joined_resolveInclude (files : List SourceFile) (path : String) {build : Build} (target : String)
    (joined : Joined build.graph) : Joined (Build.resolveInclude files path build target).graph := by
  unfold Build.resolveInclude
  split
  · exact joined
  · refine joined_foldl id (fun graph other _ joined => ?_) joined
    exact Joined.addEdge joined ⟨fun _ => ⟨rfl, rfl⟩, (nomatch ·)⟩

/-- Every edge of a built graph is joined, whatever is read off the files. -/
theorem joined_ofExtractor (extractor : SourceFile → Extraction) (files : List SourceFile) :
    Joined (Build.ofExtractor extractor files).graph := by
  have entered : Joined (files.foldl (Build.enter extractor) {}).graph := by
    intro edge member
    rcases (Build.mem_edges_foldl_enter files).mp member with none | ⟨file, _, defining⟩
    · cases none
    · obtain ⟨definition, _, rfl⟩ := List.mem_map.mp defining
      exact ⟨(nomatch ·), (nomatch ·)⟩
  refine joined_foldl Build.graph (fun build file _ joined => ?_) entered
  unfold Build.resolve
  split
  · exact joined_foldl Build.graph (fun _ target _ => joined_resolveInclude files file.path target)
      (joined_foldl Build.graph (fun _ mention _ => joined_resolveMention file.path mention) joined)
  · exact joined

theorem mem_ownersOf_symbol {path name : String} :
    path ∈ ownersOf (Build.ofExtractor extractor files).graph (.symbol name) ↔
      ∃ file ∈ files, ∃ definition ∈ (extractor file).definitions, definition.name = name ∧ definition.path = path := by
  have known : (Build.ofExtractor extractor files).graph.definitionsOf name = _ := Build.definitionsOf_ofExtractor files name
  have listed : path ∈ ownersOf (Build.ofExtractor extractor files).graph (.symbol name) ↔
      ∃ definition ∈ (Build.ofExtractor extractor files).graph.definitionsOf name, definition.path = path := by
    rw [ownersOf, Graph.definitionsOf]
    cases (Build.ofExtractor extractor files).graph.symbol? name with
    | none => simp
    | some symbol => exact Symbol.mem_definingFiles
  rw [listed, known]
  simp only [List.mem_flatMap, List.mem_filter, decide_eq_true_eq]
  constructor
  · rintro ⟨definition, ⟨file, member, defines, named⟩, placed⟩
    exact ⟨file, member, definition, defines, named, placed⟩
  · rintro ⟨file, member, definition, defines, named, placed⟩
    exact ⟨definition, ⟨file, member, defines, named⟩, placed⟩

theorem tied_ofExtractor (pathsDistinct : (files.map (·.path)).Nodup) (named : "" ∉ Build.definedNames extractor files)
    (placed : ∀ file ∈ files, ∀ definition ∈ (extractor file).definitions, definition.path = file.path) :
    Tied (Build.ofExtractor extractor files).graph := by
  have linked : ∀ {edge : Edge}, edge ∈ (Build.ofExtractor extractor files).graph.edges ↔
      Build.Linked extractor files edge := Build.mem_edges_ofExtractor pathsDistinct named
  refine ⟨joined_ofExtractor extractor files, fun path node => ?_⟩
  rw [linked]
  constructor
  · intro link
    cases link with
    | @defines file definition listed defines =>
        refine ⟨definition.name, rfl, mem_ownersOf_symbol.mpr ?_⟩
        exact ⟨file, listed, definition, defines, rfl, placed file listed definition defines⟩
  · rintro ⟨name, rfl, owner⟩
    obtain ⟨file, listed, definition, defines, rfl, rfl⟩ := mem_ownersOf_symbol.mp owner
    rw [placed file listed definition defines]
    exact .defines listed defines

end Built

namespace Tied

variable {graph : Graph} (tied : Tied graph)

include tied

/-- A file and what it defines are the nodes that the file owns. -/
theorem mem_sources_iff {path : String} {node : Node} :
    node ∈ Node.file path :: graph.successors (.file path) [.defines] ↔ path ∈ ownersOf graph node := by
  have defined : node ∈ graph.successors (.file path) [.defines] ↔
      ∃ name, node = .symbol name ∧ path ∈ ownersOf graph (.symbol name) := by
    rw [Graph.mem_successors, ← tied.defines]
    constructor
    · rintro ⟨⟨src, dst, kind⟩, member, rfl, isDefining, rfl⟩
      obtain rfl := List.mem_singleton.mp isDefining
      exact member
    · intro member
      exact ⟨_, member, rfl, List.mem_singleton_self _, rfl⟩
  rw [List.mem_cons, defined]
  cases node with
  | file other => simp [ownersOf, eq_comm]
  | symbol name => simp
  | other text => simp [ownersOf]

end Tied

namespace Joined

variable {graph : Graph} (joined : Joined graph)

include joined

theorem targetsOf?_eq {edge : Edge} (member : edge ∈ graph.edges) :
    targetsOf? graph edge = some (if edge.kind = .defines then [] else ownersOf graph edge.dst) := by
  obtain ⟨src, dst, kind⟩ := edge
  cases kind with
  | defines => rfl
  | includes =>
      obtain ⟨_, isFile⟩ := (joined _ member).includes rfl
      cases dst with
      | file path => simp [targetsOf?, keyOf_file, ownersOf]
      | _ => cases isFile
  | references =>
      obtain ⟨_, known, noFile⟩ := (joined _ member).references rfl
      cases dst with
      | symbol name =>
          obtain ⟨symbol, found⟩ := Option.isSome_iff_exists.mp known
          simp [targetsOf?, definersOf?, keyOf_symbol, ownersOf, found]
      | file path => cases noFile
      | other text => cases known

theorem sourcesOf?_eq {edge : Edge} (member : edge ∈ graph.edges) :
    sourcesOf? graph edge = some (if edge.kind = .defines then [] else ownersOf graph edge.src) := by
  obtain ⟨src, dst, kind⟩ := edge
  cases kind with
  | defines => rfl
  | includes =>
      obtain ⟨isFile, _⟩ := (joined _ member).includes rfl
      cases src with
      | file path => simp [sourcesOf?, keyOf_file, ownersOf]
      | _ => cases isFile
  | references =>
      obtain ⟨known, _⟩ := (joined _ member).references rfl
      cases src with
      | symbol name =>
          obtain ⟨symbol, found⟩ := Option.isSome_iff_exists.mp known
          simp [sourcesOf?, definersOf?, Node.isFile, keyOf_symbol, ownersOf, found]
      | file path => simp [sourcesOf?, Node.isFile, keyOf_file, ownersOf]
      | other text => cases known

/-- Looking up the owners finds them all, and the links are those of the report. -/
theorem fileLinks?_eq (path : String) : fileLinks? graph path = some (fileLinks graph path) := by
  have leaving : ∀ edge ∈ (Node.file path :: graph.successors (.file path) [.defines]).flatMap graph.edgesFrom,
      edge ∈ graph.edges := by
    intro edge member
    obtain ⟨node, _, leaves⟩ := List.mem_flatMap.mp member
    exact (Graph.mem_edgesFrom.mp leaves).1
  have arriving : ∀ edge ∈ (Node.file path :: graph.successors (.file path) [.defines]).flatMap graph.edgesTo,
      edge ∈ graph.edges := by
    intro edge member
    obtain ⟨node, _, arrives⟩ := List.mem_flatMap.mp member
    exact (List.mem_filter.mp (List.mem_mergeSort.mp arrives)).1
  have targets := mapM_eq_some_map fun edge member => joined.targetsOf?_eq (leaving edge member)
  have sources := mapM_eq_some_map fun edge member => joined.sourcesOf?_eq (arriving edge member)
  simp only [fileLinks?, targets, sources, Option.pure_def, Option.bind_eq_bind, Option.bind_some, fileLinks]
  congr 2
  · apply Text.sortedSet_congr
    intro other
    simp only [List.mem_filter, List.mem_flatten, List.mem_map, List.mem_flatMap]
    grind
  · apply Text.sortedSet_congr
    intro other
    simp only [List.mem_filter, List.mem_flatten, List.mem_map, List.mem_flatMap]
    grind

end Joined

/-! ## Links in both directions -/

def LeadsTo (graph : Graph) (first second : String) : Prop :=
  ∃ edge ∈ graph.edges, edge.kind ≠ .defines ∧ first ∈ ownersOf graph edge.src ∧ second ∈ ownersOf graph edge.dst

section Links

variable {graph : Graph} (tied : Tied graph)

include tied

theorem mem_dependsOn_iff {path other : String} :
    other ∈ (fileLinks graph path).dependsOn ↔ other ≠ path ∧ LeadsTo graph path other := by
  simp only [fileLinks, Text.mem_sortedSet, List.mem_filter, bne_iff_ne, List.mem_flatMap, List.mem_map,
    Graph.mem_edgesFrom, LeadsTo]
  constructor
  · rintro ⟨⟨_, ⟨node, source, edge, ⟨⟨member, rfl⟩, kind⟩, rfl⟩, owner⟩, differs⟩
    exact ⟨differs, edge, member, kind, tied.mem_sources_iff.mp source, owner⟩
  · rintro ⟨differs, edge, member, kind, source, owner⟩
    exact ⟨⟨edge.dst, ⟨edge.src, tied.mem_sources_iff.mpr source, edge, ⟨⟨member, rfl⟩, kind⟩, rfl⟩, owner⟩, differs⟩

theorem mem_usedBy_iff {path other : String} :
    other ∈ (fileLinks graph path).usedBy ↔ other ≠ path ∧ LeadsTo graph other path := by
  simp only [fileLinks, Text.mem_sortedSet, List.mem_filter, bne_iff_ne, List.mem_flatMap, List.mem_map, Graph.edgesTo,
    List.mem_mergeSort, beq_iff_eq, LeadsTo]
  constructor
  · rintro ⟨⟨_, ⟨node, source, edge, ⟨⟨member, rfl⟩, kind⟩, rfl⟩, owner⟩, differs⟩
    exact ⟨differs, edge, member, kind, owner, tied.mem_sources_iff.mp source⟩
  · rintro ⟨differs, edge, member, kind, owner, source⟩
    exact ⟨⟨edge.src, ⟨edge.dst, tied.mem_sources_iff.mpr source, edge, ⟨⟨member, rfl⟩, kind⟩, rfl⟩, owner⟩, differs⟩

end Links

/-- One file depends on another exactly if the other is used by it, whatever fails to be read. All owners are found, and no file
is linked to itself. -/
theorem fileLinks_converse (fails : SourceFile → Bool) (reading : Reading) {files : List SourceFile}
    (pathsDistinct : (files.map (·.path)).Nodup) (first second : String) :
    let graph := (Build.ofExtractor (extractUnless fails reading) files).graph
    (second ∈ (fileLinks graph first).dependsOn ↔ first ∈ (fileLinks graph second).usedBy) ∧
      fileLinks? graph first = some (fileLinks graph first) ∧
      first ∉ (fileLinks graph first).dependsOn ∧ first ∉ (fileLinks graph first).usedBy := by
  intro graph
  have tied : Tied graph := by
    apply tied_ofExtractor pathsDistinct
    · intro member
      obtain ⟨file, _, definition, defines, empty⟩ := Build.mem_definedNames.mp member
      have readOff := mem_extract_of_mem_extractUnless defines
      exact ne_empty_of_isProjectName (isProjectName_of_mem_definitions readOff) empty
    · intro file _ definition defines
      exact path_of_mem_extract (mem_extract_of_mem_extractUnless defines)
  refine ⟨?_, tied.joined.fileLinks?_eq first, ?_, ?_⟩
  · rw [mem_dependsOn_iff tied, mem_usedBy_iff tied, ne_comm]
  · intro member
    exact ((mem_dependsOn_iff tied).mp member).1 rfl
  · intro member
    exact ((mem_usedBy_iff tied).mp member).1 rfl

open Plan in
theorem callerFile_depends_on_nestedFile : ([nestedFile, callerFile].map (·.path)).Nodup ∧
    let graph := (Build.ofExtractor (extractUnless (fun _ => false) plainReading) [nestedFile, callerFile]).graph
    "A.gs" ∈ (fileLinks graph "B.gs").dependsOn ∧ "B.gs" ∈ (fileLinks graph "A.gs").usedBy ∧
      fileLinks? graph "B.gs" = some (fileLinks graph "B.gs") ∧ "B.gs" ∉ (fileLinks graph "B.gs").usedBy := by
  have pathsDistinct : ([nestedFile, callerFile].map (·.path)).Nodup := by decide
  refine ⟨pathsDistinct, ?_⟩
  intro graph
  have readings : ∀ file ∈ [nestedFile, callerFile], extractUnless (fun _ => false) plainReading file = nestedReading file := by
    simp [extractUnless_of_read, extract_nestedFile, extract_callerFile]
  have depends : (fileLinks graph "B.gs").dependsOn = ["A.gs"] := by
    have same : graph = (Build.ofExtractor nestedReading [nestedFile, callerFile]).graph :=
      congrArg Build.graph (Build.ofExtractor_congr readings)
    rw [same]
    cbv
  obtain ⟨converse, found, _, apart⟩ := fileLinks_converse (fun _ => false) plainReading pathsDistinct "B.gs" "A.gs"
  have dependsOn : "A.gs" ∈ (fileLinks graph "B.gs").dependsOn := depends ▸ List.mem_singleton_self "A.gs"
  exact ⟨dependsOn, converse.mp dependsOn, found, apart⟩

end Deadwood.Report
