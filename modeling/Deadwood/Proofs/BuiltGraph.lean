import Deadwood.Graph.Build
import Deadwood.Proofs.Partition

/-!
# What a built graph knows

Entering files fills the tables of files and symbols and resolving leaves both alone. So a symbol of a built graph has
exactly the definitions that are read off the files under its name, the graph has every file that defines it, and every
built graph can be analysed.
-/

set_option autoImplicit false
namespace Deadwood

open Source

namespace Graph

variable {graph : Graph} {edge : Edge}

/-! ## The tables -/

def definitionsOf (graph : Graph) (name : String) : List Definition :=
  ((graph.symbol? name).map Symbol.definitions).getD []

theorem definitionsOf_of_symbol? {name : String} {symbol : Symbol} (found : graph.symbol? name = some symbol) :
    graph.definitionsOf name = symbol.definitions := by
  simp [definitionsOf, found]

theorem isSome_symbol?_of_mem_definitionsOf {name : String} {definition : Definition}
    (defines : definition ∈ graph.definitionsOf name) : (graph.symbol? name).isSome := by
  unfold definitionsOf at defines
  cases found : graph.symbol? name with
  | none => simp [found] at defines
  | some symbol => rfl

structure SameTables (first second : Graph) : Prop where
  files : first.files = second.files
  symbols : first.symbols = second.symbols

namespace SameTables

theorem refl (graph : Graph) : SameTables graph graph := ⟨rfl, rfl⟩

theorem trans {first second third : Graph} (left : SameTables first second) (right : SameTables second third) :
    SameTables first third :=
  ⟨left.files.trans right.files, left.symbols.trans right.symbols⟩

theorem definitionsOf {first second : Graph} (same : SameTables first second) (name : String) :
    first.definitionsOf name = second.definitionsOf name := by
  simp [Graph.definitionsOf, symbol?, same.symbols]

theorem file? {first second : Graph} (same : SameTables first second) (path : String) :
    first.file? path = second.file? path := by
  simp [Graph.file?, same.files]

end SameTables

theorem sameTables_addEdge : SameTables (graph.addEdge edge) graph := by
  unfold addEdge
  split <;> exact ⟨rfl, rfl⟩

theorem definitionsOf_addSymbol_self (symbol : Symbol) :
    (graph.addSymbol symbol).definitionsOf symbol.name = symbol.definitions := by
  simp [definitionsOf, addSymbol, symbol?, Keyed.find?_put_self]

theorem definitionsOf_addSymbol_of_ne {symbol : Symbol} {name : String} (differs : name ≠ symbol.name) :
    (graph.addSymbol symbol).definitionsOf name = graph.definitionsOf name := by
  simp [definitionsOf, addSymbol, symbol?, Keyed.find?_put_of_ne _ _ _ _ differs]

theorem isSome_file?_addFile {file : SourceFile} {path : String} :
    ((graph.addFile file).file? path).isSome ↔ path = file.path ∨ (graph.file? path).isSome := by
  by_cases same : path = file.path
  · subst same
    simp [addFile, Graph.file?, Keyed.find?_put_self]
  · simp [addFile, Graph.file?, Keyed.find?_put_of_ne _ _ _ _ same, same]

end Graph

namespace Build

variable {graph : Graph} {build : Build} {extractor : SourceFile → Extraction}

/-! ## Entering -/

theorem definitionsOf_enterDefinition (path : String) (definition : Definition) (name : String) :
    (enterDefinition path graph definition).definitionsOf name =
      graph.definitionsOf name ++ if definition.name = name then [definition] else [] := by
  rw [enterDefinition, Graph.sameTables_addEdge.definitionsOf]
  cases found : graph.symbol? definition.name with
  | none =>
      by_cases same : definition.name = name
      · subst same
        rw [Option.getD_none, Graph.definitionsOf_addSymbol_self]
        simp [Graph.definitionsOf, found]
      · rw [Option.getD_none, Graph.definitionsOf_addSymbol_of_ne (Ne.symm same)]
        simp [same]
  | some symbol =>
      have sameName : symbol.name = definition.name := Graph.symbol?_name found
      by_cases same : definition.name = name
      · subst same
        rw [Option.getD_some, ← sameName, Graph.definitionsOf_addSymbol_self, sameName,
          Graph.definitionsOf_of_symbol? found]
        simp
      · rw [Option.getD_some, Graph.definitionsOf_addSymbol_of_ne (by simpa [sameName] using Ne.symm same)]
        simp [same]

theorem definitionsOf_foldl_enterDefinition (path : String) (definitions : List Definition) (name : String) :
    (definitions.foldl (enterDefinition path) graph).definitionsOf name =
      graph.definitionsOf name ++ definitions.filter (·.name = name) := by
  induction definitions generalizing graph with
  | nil => simp
  | cons definition rest ih =>
      rw [List.foldl_cons, ih, definitionsOf_enterDefinition, List.append_assoc]
      by_cases same : definition.name = name <;> simp [same]

theorem files_foldl_enterDefinition (path : String) (definitions : List Definition) :
    (definitions.foldl (enterDefinition path) graph).files = graph.files := by
  induction definitions generalizing graph with
  | nil => rfl
  | cons definition rest ih =>
      rw [List.foldl_cons, ih, enterDefinition, Graph.sameTables_addEdge.files]
      rfl

theorem definitionsOf_enter (file : SourceFile) (name : String) :
    (enter extractor build file).graph.definitionsOf name =
      build.graph.definitionsOf name ++ (extractor file).definitions.filter (·.name = name) :=
  definitionsOf_foldl_enterDefinition file.path _ name

theorem isSome_file?_enter {file : SourceFile} {path : String} :
    ((enter extractor build file).graph.file? path).isSome ↔
      path = file.path ∨ (build.graph.file? path).isSome := by
  rw [enter, Graph.file?, files_foldl_enterDefinition]
  exact Graph.isSome_file?_addFile

theorem mem_files_foldl_enter {files : List SourceFile} {file : SourceFile}
    (member : file ∈ (files.foldl (enter extractor) build).graph.files) :
    file ∈ files ∨ file ∈ build.graph.files := by
  induction files generalizing build with
  | nil => exact Or.inr member
  | cons first rest ih =>
      rcases ih member with later | early
      · exact Or.inl (List.mem_cons_of_mem first later)
      · rw [enter, files_foldl_enterDefinition] at early
        rcases Keyed.mem_put early with rfl | early
        · exact Or.inl List.mem_cons_self
        · exact Or.inr early

theorem definitionsOf_foldl_enter (files : List SourceFile) (name : String) :
    (files.foldl (enter extractor) build).graph.definitionsOf name =
      build.graph.definitionsOf name ++
        files.flatMap fun file => (extractor file).definitions.filter (·.name = name) := by
  induction files generalizing build with
  | nil => simp
  | cons file rest ih => rw [List.foldl_cons, ih, definitionsOf_enter, List.flatMap_cons, List.append_assoc]

theorem isSome_file?_foldl_enter {files : List SourceFile} {path : String} :
    ((files.foldl (enter extractor) build).graph.file? path).isSome ↔
      path ∈ files.map (·.path) ∨ (build.graph.file? path).isSome := by
  induction files generalizing build with
  | nil => simp
  | cons file rest ih =>
      rw [List.foldl_cons, ih, isSome_file?_enter, List.map_cons, List.mem_cons]
      exact or_left_comm.trans or_assoc.symm

/-! ## Resolving -/

theorem sameTables_foldl {α : Type} {step : Build → α → Build}
    (each : ∀ (build : Build) (item : α), Graph.SameTables (step build item).graph build.graph)
    (items : List α) (build : Build) : Graph.SameTables (items.foldl step build).graph build.graph := by
  induction items generalizing build with
  | nil => exact Graph.SameTables.refl _
  | cons item rest ih => exact (ih (step build item)).trans (each build item)

theorem sameTables_resolveMention (path : String) (build : Build) (mention : Mention) :
    Graph.SameTables (resolveMention path build mention).graph build.graph := by
  unfold resolveMention
  split
  · exact Graph.sameTables_addEdge
  · split <;> exact ⟨rfl, rfl⟩

theorem sameTables_resolveInclude (files : List SourceFile) (path : String) (build : Build) (target : String) :
    Graph.SameTables (resolveInclude files path build target).graph build.graph := by
  have added : ∀ (others : List String) (graph : Graph), Graph.SameTables
      (others.foldl (fun graph other => graph.addEdge ⟨.file path, .file other, .includes⟩) graph) graph := by
    intro others
    induction others with
    | nil => exact Graph.SameTables.refl
    | cons other rest ih => exact fun graph => (ih _).trans Graph.sameTables_addEdge
  unfold resolveInclude
  split
  · exact Graph.SameTables.refl _
  · exact added _ build.graph

theorem sameTables_resolve (files : List SourceFile) (build : Build) (file : SourceFile) :
    Graph.SameTables (resolve files build file).graph build.graph := by
  unfold resolve
  split
  · exact (sameTables_foldl (sameTables_resolveInclude files file.path) _ _).trans
      (sameTables_foldl (sameTables_resolveMention file.path) _ _)
  · exact Graph.SameTables.refl _

/-! ## Built graphs -/

theorem sameTables_ofExtractor (files : List SourceFile) :
    Graph.SameTables (ofExtractor extractor files).graph (files.foldl (enter extractor) {}).graph :=
  sameTables_foldl (sameTables_resolve files) _ _

/-- The definitions of a name are those that are read off the files under it. -/
theorem definitionsOf_ofExtractor (files : List SourceFile) (name : String) :
    (ofExtractor extractor files).graph.definitionsOf name =
      files.flatMap fun file => (extractor file).definitions.filter (·.name = name) := by
  rw [(sameTables_ofExtractor files).definitionsOf, definitionsOf_foldl_enter]
  rfl

theorem isSome_file?_ofExtractor {files : List SourceFile} {path : String} :
    ((ofExtractor extractor files).graph.file? path).isSome ↔ path ∈ files.map (·.path) := by
  rw [(sameTables_ofExtractor files).file?, isSome_file?_foldl_enter]
  simp [Graph.file?, Keyed.find?]

theorem mem_of_file?_ofExtractor {files : List SourceFile} {path : String} {file : SourceFile}
    (found : (ofExtractor extractor files).graph.file? path = some file) : file ∈ files := by
  rw [(sameTables_ofExtractor files).file?] at found
  exact (mem_files_foldl_enter (List.mem_of_find?_eq_some found)).resolve_right List.not_mem_nil

end Build

namespace Source

theorem definitions_extract {reading : Reading} {file : SourceFile} (isCode : file.kind ≠ .config) :
    (extract reading file).definitions =
      definitionsOf file.path (codeOf file.kind file.text) (mask .code (codeOf file.kind file.text)) := by
  unfold extract
  rw [if_neg (by simpa using isCode)]

theorem path_of_mem_extract {reading : Reading} {file : SourceFile} {definition : Definition}
    (member : definition ∈ (extract reading file).definitions) : definition.path = file.path := by
  unfold extract at member
  split at member
  · cases member
  · obtain ⟨_, _, rfl⟩ := List.mem_map.mp member
    rfl

end Source

namespace Analysis

variable {extractor : SourceFile → Extraction} {reading : Reading} {files : List SourceFile}

theorem mem_definitions_of_symbol? {name : String} {symbol : Symbol}
    (found : (Build.ofExtractor extractor files).graph.symbol? name = some symbol) {definition : Definition} :
    definition ∈ symbol.definitions ↔
      definition.name = name ∧ ∃ file ∈ files, definition ∈ (extractor file).definitions := by
  rw [← Graph.definitionsOf_of_symbol? found, Build.definitionsOf_ofExtractor]
  simp only [List.mem_flatMap, List.mem_filter, decide_eq_true_eq]
  constructor
  · rintro ⟨file, member, defines, named⟩
    exact ⟨named, file, member, defines⟩
  · rintro ⟨named, file, member, defines⟩
    exact ⟨file, member, defines, named⟩

/-- A graph whose definitions lie where they are read off can be analysed. -/
theorem exists_ofBuild_eq_ok_of_placed
    (placed : ∀ file ∈ files, ∀ definition ∈ (extractor file).definitions, definition.path = file.path) (roots : Roots) :
    ∃ analysis, ofBuild (Build.ofExtractor extractor files) roots = .ok analysis := by
  refine exists_ofGraph_eq_ok_iff.mpr fun symbol dead definition defines => ?_
  obtain ⟨_, file, member, readOff⟩ :=
    (mem_definitions_of_symbol? (mem_deadSymbols.mp dead).1).mp defines
  rw [Build.isSome_file?_ofExtractor, placed file member definition readOff]
  exact List.mem_map_of_mem member

/-- Every built graph can be analysed. -/
theorem exists_ofBuild_eq_ok (reading : Reading) (files : List SourceFile) (roots : Roots) :
    ∃ analysis, ofBuild (Build.ofExtractor (extract reading) files) roots = .ok analysis :=
  exists_ofBuild_eq_ok_of_placed (fun _ _ _ defines => path_of_mem_extract defines) roots

/-- The definitions of an unused symbol are those that are read off the files under its name. -/
theorem mem_definitions_of_unused {roots : Roots} {analysis : Analysis}
    (run : ofBuild (Build.ofExtractor (extract reading) files) roots = .ok analysis) {unused : UnusedSymbol}
    (listed : unused ∈ analysis.unusedSymbols) {definition : Definition} :
    definition ∈ unused.definitions ↔
      definition.name = unused.name ∧ ∃ file ∈ files, definition ∈ (extract reading file).definitions := by
  obtain ⟨unusedSymbols, symbolsRun, rfl⟩ := ofGraph_eq_ok_iff.mp run
  obtain ⟨symbol, dead, symbolRun⟩ := exists_of_mem_results_of_mapM_eq_ok symbolsRun listed
  obtain ⟨kinds, _, rfl⟩ := unusedSymbol_eq_ok_iff.mp symbolRun
  rw [List.mem_mergeSort]
  exact mem_definitions_of_symbol? (mem_deadSymbols.mp dead).1

theorem exists_file_of_unused {roots : Roots} {analysis : Analysis}
    (run : ofBuild (Build.ofExtractor extractor files) roots = .ok analysis) {unused : UnusedFile}
    (listed : unused ∈ analysis.unusedFiles) :
    ∃ file ∈ files, unused.path = file.path ∧ unused.kind = file.kind ∧ unused.size = file.size := by
  obtain ⟨unusedSymbols, _, rfl⟩ := ofGraph_eq_ok_iff.mp run
  obtain ⟨file, dead, rfl⟩ := List.mem_map.mp listed
  have found := Keyed.mem_inOrder.mp (List.mem_filter.mp dead).1
  exact ⟨file, Build.mem_of_file?_ofExtractor found, rfl, rfl, rfl⟩

end Analysis
end Deadwood
