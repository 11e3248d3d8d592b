import Deadwood.Proofs.Partition
import Deadwood.Proofs.ReportDrawings
import Deadwood.Proofs.ReportLists

/-!
# What reports show

A report puts texts of its analysis into lines: paths, names, fragments of the policy, the root and the time. If none of these
holds a line feed, none of the lines does.
-/

set_option autoImplicit false
namespace Deadwood.Report

/-! ## Texts on one line -/

def OneLine (text : String) : Prop :=
  '\n' ∉ text.toList

instance (text : String) : Decidable (OneLine text) :=
  inferInstanceAs (Decidable ('\n' ∉ text.toList))

@[simp] theorem oneLine_append {first second : String} : OneLine (first ++ second) ↔ OneLine first ∧ OneLine second := by
  simp [OneLine]

@[simp] theorem oneLine_nat (number : Nat) : OneLine (toString number) := by
  rw [OneLine, Nat.toString_eq_repr, Nat.repr, String.toList_ofList]
  intro isIn
  exact absurd (Nat.isDigit_of_mem_toDigits (by decide) (by decide) isIn) (by decide)

@[simp] theorem oneLine_int (number : Int) : OneLine (toString number) :=
  not_mem_repr (by decide) (by decide) number

@[simp] theorem oneLine_fileKind (kind : FileKind) : OneLine kind.label := by
  cases kind <;> decide

theorem oneLine_intercalate {separator : String} (between : OneLine separator) {texts : List String}
    (each : ∀ text ∈ texts, OneLine text) : OneLine (separator.intercalate texts) := by
  rw [OneLine, String.toList_intercalate]
  induction texts with
  | nil => exact List.not_mem_nil
  | cons text rest inductionHypothesis =>
      obtain ⟨here, there⟩ := List.forall_mem_cons.mp each
      cases rest with
      | nil => rwa [List.map_cons, List.map_nil, List.intercalate_singleton]
      | cons next rest =>
          rw [List.map_cons, List.map_cons, List.intercalate_cons_cons, List.mem_append, List.mem_append, ← List.map_cons]
          exact fun isIn => isIn.elim (fun inFirst => inFirst.elim here between) (inductionHypothesis there)

theorem oneLine_dotQuoted {text : String} : OneLine (dotQuoted text) ↔ OneLine text := by
  have escaped : '\n' ∈ dotEscape text.toList ↔ '\n' ∈ text.toList := by
    simp only [dotEscape, List.mem_flatMap]
    constructor
    · rintro ⟨c, isIn, shown⟩
      have same : '\n' = c := by
        split at shown <;> simpa using shown
      exact same ▸ isIn
    · intro isIn
      exact ⟨'\n', isIn, by decide⟩
  rw [OneLine, OneLine, dotQuoted, String.toList_ofList, ← not_congr escaped]
  simp

theorem oneLine_percent (part whole : Nat) : OneLine (percent part whole) := by
  simp +decide only [percent, oneLine_append, oneLine_nat]

theorem oneLine_riskMark (level : RiskLevel) : OneLine (riskMark level) := by
  cases level <;> decide

theorem oneLine_rateFile (policy : RiskPolicy) (file : UnusedFile) : OneLine (policy.rateFile file).rationale := by
  unfold RiskPolicy.rateFile
  split
  · decide
  · split
    · decide
    · split
      · simp +decide only [oneLine_append, oneLine_int]
      · decide

theorem oneLine_bareName {node : Node} (shown : OneLine node.text) : OneLine (bareName node) := by
  cases node with
  | file path => exact (oneLine_append.mp shown).2
  | symbol name => exact (oneLine_append.mp shown).2
  | other text => exact shown

theorem oneLine_keyOf {node : Node} (shown : OneLine node.text) (count : Nat) : OneLine (keyOf count node) := by
  rw [OneLine, keyOf, String.toList_ofList]
  exact fun isIn => shown (List.mem_of_mem_drop isIn)

/-! ## Plain texts -/

/-- The texts that a report takes from its graph, its policy and its circumstances are on one line, and the names of symbols
hold no blank and no backtick. -/
structure Plain (report : Report) (graph : Graph) (policy : RiskPolicy) : Prop where
  time : OneLine report.generatedAt
  root : OneLine report.root.toString
  paths : ∀ file ∈ graph.files, OneLine file.path
  names : ∀ symbol ∈ graph.symbols, OneLine symbol.name ∧ ' ' ∉ symbol.name.toList ∧ '`' ∉ symbol.name.toList
  owners : ∀ symbol ∈ graph.symbols, ∀ definition ∈ symbol.definitions, OneLine definition.path
  ends : ∀ edge ∈ graph.edges, OneLine edge.src.text ∧ OneLine edge.dst.text
  fragments : ∀ fragment ∈ policy.protectedSubstrings, OneLine fragment

variable {report : Report} {graph : Graph} {policy : RiskPolicy}

/-- An analysed graph is reported with its ratings. -/
structure Reports (report : Report) (graph : Graph) (policy : RiskPolicy) : Prop where
  analysed : ∃ roots stringWords unresolved, Analysis.ofGraph graph roots stringWords unresolved = .ok report.analysis
  rated : report.assessment = .ofAnalysis policy report.analysis

theorem mem_of_symbol?_eq_some {name : String} {symbol : Symbol} (found : graph.symbol? name = some symbol) :
    symbol ∈ graph.symbols :=
  List.mem_of_find?_eq_some found

namespace Reports

variable (reports : Reports report graph policy)
include reports

theorem graph_eq : report.analysis.graph = some graph := by
  obtain ⟨roots, stringWords, unresolved, run⟩ := reports.analysed
  obtain ⟨unusedSymbols, _, is⟩ := Analysis.ofGraph_eq_ok_iff.mp run
  rw [is]
  rfl

theorem drawn_eq : report.drawn = graph := by
  rw [drawn, reports.graph_eq]
  rfl

theorem exists_symbol {unused : UnusedSymbol} (isIn : unused ∈ report.analysis.unusedSymbols) :
    ∃ symbol ∈ graph.symbols, unused.name = symbol.name ∧
      ∀ definition, definition ∈ unused.definitions ↔ definition ∈ symbol.definitions := by
  obtain ⟨roots, stringWords, unresolved, run⟩ := reports.analysed
  obtain ⟨unusedSymbols, symbolsRun, is⟩ := Analysis.ofGraph_eq_ok_iff.mp run
  rw [is] at isIn
  obtain ⟨symbol, isDead, symbolRun⟩ := exists_of_mem_results_of_mapM_eq_ok symbolsRun isIn
  obtain ⟨kinds, _, rfl⟩ := Analysis.unusedSymbol_eq_ok_iff.mp symbolRun
  exact ⟨symbol, mem_of_symbol?_eq_some (Analysis.mem_deadSymbols.mp isDead).1, rfl, fun definition => List.mem_mergeSort⟩

end Reports

namespace Plain

variable (plain : Plain report graph policy)
include plain

theorem path {path : String} (present : (graph.file? path).isSome) : OneLine path := by
  obtain ⟨file, isIn, rfl⟩ := List.mem_map.mp (Keyed.isSome_find?.mp present)
  exact plain.paths file isIn

theorem name {name : String} (present : (graph.symbol? name).isSome) : OneLine name := by
  obtain ⟨symbol, isIn, rfl⟩ := List.mem_map.mp (Keyed.isSome_find?.mp present)
  exact (plain.names symbol isIn).1

theorem definingFile {symbol : Symbol} (isIn : symbol ∈ graph.symbols) {path : String} (defines : path ∈ symbol.definingFiles) :
    OneLine path := by
  obtain ⟨definition, isDefinition, rfl⟩ := Symbol.mem_definingFiles.mp defines
  exact plain.owners symbol isIn definition isDefinition

theorem nodeText {node : Node} (isIn : node ∈ graph.nodes) : OneLine node.text := by
  rcases mem_nodes_iff.mp isIn with ⟨path, rfl, present⟩ | ⟨name, rfl, present⟩
  · exact oneLine_append.mpr ⟨by decide, plain.path present⟩
  · exact oneLine_append.mpr ⟨by decide, plain.name present⟩

theorem definers {node : Node} {paths : List String} (found : definersOf? graph node = some paths) :
    ∀ path ∈ paths, OneLine path := by
  obtain ⟨symbol, isSymbol, rfl⟩ := Option.map_eq_some_iff.mp found
  exact fun path defines => plain.definingFile (mem_of_symbol?_eq_some isSymbol) defines

theorem targets {edge : Edge} (isEdge : edge ∈ graph.edges) {paths : List String} (found : targetsOf? graph edge = some paths) :
    ∀ path ∈ paths, OneLine path := by
  unfold targetsOf? at found
  split at found
  · obtain rfl := Option.some.inj found
    exact List.forall_mem_nil _
  · obtain rfl := Option.some.inj found
    exact List.forall_mem_singleton.mpr (oneLine_keyOf (plain.ends edge isEdge).2 _)
  · exact plain.definers found

theorem sources {edge : Edge} (isEdge : edge ∈ graph.edges) {paths : List String} (found : sourcesOf? graph edge = some paths) :
    ∀ path ∈ paths, OneLine path := by
  unfold sourcesOf? at found
  split at found
  · obtain rfl := Option.some.inj found
    exact List.forall_mem_nil _
  · obtain rfl := Option.some.inj found
    exact List.forall_mem_singleton.mpr (oneLine_keyOf (plain.ends edge isEdge).1 _)
  · split at found
    · obtain rfl := Option.some.inj found
      exact List.forall_mem_singleton.mpr (oneLine_keyOf (plain.ends edge isEdge).1 _)
    · exact plain.definers found

theorem links {path : String} {links : FileLinks} (found : fileLinks? graph path = some links) :
    (∀ node ∈ links.defines, OneLine (bareName node)) ∧ (∀ other ∈ links.dependsOn, OneLine other) ∧
      ∀ other ∈ links.usedBy, OneLine other := by
  simp only [fileLinks?, Option.bind_eq_bind, Option.pure_def, Option.bind_eq_some_iff, Option.some.injEq] at found
  obtain ⟨dependsOn, targets, usedBy, sources, rfl⟩ := found
  refine ⟨fun node isIn => ?_, fun other isIn => ?_, fun other isIn => ?_⟩
  · obtain ⟨edge, isEdge, _, _, rfl⟩ := Graph.mem_successors.mp isIn
    exact oneLine_bareName (plain.ends edge isEdge).2
  · obtain ⟨paths, listed, isPath⟩ := List.mem_flatten.mp (List.mem_filter.mp (Text.mem_sortedSet.mp isIn)).1
    have made := List.mem_map_of_mem (f := some) listed
    rw [← mapM_eq_some_iff.mp targets] at made
    obtain ⟨edge, isEdge, found⟩ := List.mem_map.mp made
    obtain ⟨node, _, leaves⟩ := List.mem_flatMap.mp isEdge
    exact plain.targets (Graph.mem_edgesFrom.mp leaves).1 found other isPath
  · obtain ⟨paths, listed, isPath⟩ := List.mem_flatten.mp (List.mem_filter.mp (Text.mem_sortedSet.mp isIn)).1
    have made := List.mem_map_of_mem (f := some) listed
    rw [← mapM_eq_some_iff.mp sources] at made
    obtain ⟨edge, isEdge, found⟩ := List.mem_map.mp made
    obtain ⟨node, _, reaches⟩ := List.mem_flatMap.mp isEdge
    rw [Graph.edgesTo, List.mem_mergeSort] at reaches
    exact plain.sources (List.mem_filter.mp reaches).1 found other isPath

/-! ### Lines -/

theorem dotLines (reports : Reports report graph policy) : ∀ line ∈ report.dotLines, OneLine line := by
  have fixed : ∀ line ∈ ["digraph SweepGraph \x7b", "  rankdir=LR;"] ++ ["\x7d", ""], OneLine line := by decide
  have endings : ∀ box dashed, OneLine (nodeEnding box dashed) := by decide
  have blanks : OneLine "  " := by decide
  have marks : OneLine " -> " ∧ OneLine " [label=\"" ∧ OneLine "\"];" := by decide
  have labels (kind : EdgeKind) : OneLine kind.label := by cases kind <;> decide
  have nodes : ∀ node ∈ graph.nodes, OneLine (dotNodeLine (unusedNodes report.analysis) node) := by
    intro node isIn
    rw [dotNodeLine_eq, oneLine_append, oneLine_append, oneLine_dotQuoted]
    exact ⟨⟨blanks, plain.nodeText isIn⟩, endings _ _⟩
  have edges : ∀ edge ∈ graph.sortedEdges, OneLine (dotEdgeLine edge) := by
    intro edge isIn
    obtain ⟨srcPlain, dstPlain⟩ := plain.ends edge (List.mem_mergeSort.mp isIn)
    simp only [dotEdgeLine, oneLine_append, oneLine_dotQuoted]
    exact ⟨⟨⟨⟨⟨⟨blanks, srcPlain⟩, marks.1⟩, dstPlain⟩, marks.2.1⟩, labels _⟩, marks.2.2⟩
  rw [Report.dotLines, reports.drawn_eq]
  simp only [List.forall_mem_append, List.forall_mem_map] at fixed ⊢
  exact ⟨⟨⟨fixed.1, nodes⟩, edges⟩, fixed.2⟩

theorem unusedFile (reports : Reports report graph policy) : ∀ file ∈ report.analysis.unusedFiles, OneLine file.path := by
  obtain ⟨roots, stringWords, unresolved, run⟩ := reports.analysed
  intro file isIn
  exact plain.path (((Analysis.divides_of_ofGraph_eq_ok run).mem_unusedFiles _).mp (List.mem_map_of_mem isIn)).1

theorem usedFile (reports : Reports report graph policy) : ∀ path ∈ report.analysis.usedFiles, OneLine path := by
  obtain ⟨roots, stringWords, unresolved, run⟩ := reports.analysed
  intro path isIn
  exact plain.path (((Analysis.divides_of_ofGraph_eq_ok run).mem_usedFiles _).mp isIn).1

theorem rootName (reports : Reports report graph policy) : ∀ name ∈ report.analysis.rootNames, OneLine name := by
  obtain ⟨roots, stringWords, unresolved, run⟩ := reports.analysed
  obtain ⟨unusedSymbols, _, is⟩ := Analysis.ofGraph_eq_ok_iff.mp run
  intro name isIn
  rw [is] at isIn
  exact plain.name (Graph.mem_names.mp (List.mem_filter.mp isIn).1)

theorem unusedSymbol (reports : Reports report graph policy) {unused : UnusedSymbol}
    (isIn : unused ∈ report.analysis.unusedSymbols) :
    OneLine unused.name ∧ ∀ definition ∈ unused.definitions, OneLine definition.path := by
  obtain ⟨symbol, inGraph, name, definitions⟩ := reports.exists_symbol isIn
  rw [name]
  refine ⟨(plain.names symbol inGraph).1, fun definition isDefinition => ?_⟩
  exact plain.owners symbol inGraph definition ((definitions definition).mp isDefinition)

theorem usedFileLines {path : String} (shown : OneLine path) {lines : List String}
    (made : usedFileLines? (some graph) path = some lines) : ∀ line ∈ lines, OneLine line := by
  obtain ⟨file, links, _, linked, rfl⟩ := usedFileLines?_eq_some_iff.mp made
  obtain ⟨defines, dependsOn, usedBy⟩ := plain.links linked
  have names : OneLine (", ".intercalate (links.defines.map bareName)) :=
    oneLine_intercalate (by decide) (List.forall_mem_map.mpr defines)
  have defined : ∀ line ∈ (if links.defines.isEmpty then []
      else ["    defines: " ++ ", ".intercalate (links.defines.map bareName)]), OneLine line := by
    intro line isIn
    split at isIn
    · cases isIn
    · rw [List.mem_singleton.mp isIn]
      exact oneLine_append.mpr ⟨by decide, names⟩
  have dependencies : ∀ other ∈ links.dependsOn, OneLine ("    -> " ++ other) :=
    fun other isIn => oneLine_append.mpr ⟨by decide, dependsOn other isIn⟩
  have dependents : ∀ other ∈ links.usedBy, OneLine ("    <- " ++ other) :=
    fun other isIn => oneLine_append.mpr ⟨by decide, usedBy other isIn⟩
  have titled : OneLine "  " ∧ OneLine " [" ∧ OneLine "]" := by decide
  rw [Report.usedFileLines, List.forall_mem_append, List.forall_mem_append, List.forall_mem_append, List.forall_mem_map,
    List.forall_mem_map, List.forall_mem_singleton, oneLine_append, oneLine_append, oneLine_append, oneLine_append]
  exact ⟨⟨⟨⟨⟨⟨⟨titled.1, shown⟩, titled.2.1⟩, oneLine_fileKind file.kind⟩, titled.2.2⟩, defined⟩, dependencies⟩, dependents⟩

theorem unusedSymbolLine (reports : Reports report graph policy) {unused : UnusedSymbol}
    (isIn : unused ∈ report.analysis.unusedSymbols) : OneLine (unusedSymbolLine unused) := by
  obtain ⟨name, paths⟩ := plain.unusedSymbol reports isIn
  have marks : OneLine "  x " ∧ OneLine " (" ∧ OneLine ", " ∧ OneLine ":" ∧ OneLine "-" ∧ OneLine ")" := by decide
  have places : ∀ definition ∈ unused.definitions, OneLine (definition.path ++ ":" ++ toString definition.startLine ++ "-" ++
      toString definition.endLine) := by
    intro definition isDefinition
    simp only [oneLine_append, oneLine_nat, paths definition isDefinition, marks, and_self]
  have listed := oneLine_intercalate marks.2.2.1 (List.forall_mem_map.mpr places)
  simp only [Report.unusedSymbolLine, oneLine_append, name, marks, listed, and_self]

theorem treeLines (reports : Reports report graph policy) {used : List (List String)} (hasUsed : HasUsed report used) :
    ∀ line ∈ report.treeLines used, OneLine line := by
  have entries : ∀ line ∈ (if report.analysis.rootNames.isEmpty then ["  (none)"]
      else report.analysis.rootNames.map ("  * " ++ ·)), OneLine line := by
    intro line isIn
    split at isIn
    · rw [List.mem_singleton.mp isIn]
      decide
    · obtain ⟨name, isName, rfl⟩ := List.mem_map.mp isIn
      exact oneLine_append.mpr ⟨by decide, plain.rootName reports name isName⟩
  have used : ∀ line ∈ used.flatten, OneLine line := by
    intro line isIn
    obtain ⟨path, isPath, lines, made, isLine⟩ := hasUsed.exists_of_mem isIn
    rw [reports.graph_eq] at made
    exact plain.usedFileLines (plain.usedFile reports path isPath) made line isLine
  have crossed : ∀ file ∈ report.analysis.unusedFiles, OneLine "  x " ∧ OneLine file.path :=
    fun file isIn => ⟨by decide, plain.unusedFile reports file isIn⟩
  have marks : OneLine "" ∧ OneLine "Dependency tree for " ∧ OneLine "Entry points:" ∧ OneLine "Used files (" ∧
      OneLine "Unused files (" ∧ OneLine "Unused symbols (" ∧ OneLine "):" := by decide
  simp only [Report.treeLines, entryLines, usedLines, unusedFileLines, unusedSymbolLines, List.forall_mem_append,
    List.forall_mem_cons, List.forall_mem_map, oneLine_append, oneLine_nat, marks, plain.root, and_true, true_and]
  have none := List.forall_mem_nil OneLine
  exact ⟨⟨⟨⟨⟨none, entries⟩, none, used⟩, crossed⟩, fun _ isIn => plain.unusedSymbolLine reports isIn⟩, none⟩

theorem definingPaths (reports : Reports report graph policy) {unused : UnusedSymbol}
    (isIn : unused ∈ report.analysis.unusedSymbols) : ∀ path ∈ unused.definedIn, OneLine path := by
  intro path isPath
  obtain ⟨definition, isDefinition, rfl⟩ := List.mem_map.mp (Text.mem_sortedSet.mp isPath)
  exact (plain.unusedSymbol reports isIn).2 definition isDefinition

theorem symbolReason (reports : Reports report graph policy) {unused : UnusedSymbol}
    (isIn : unused ∈ report.analysis.unusedSymbols) : OneLine (policy.rateSymbol unused).rationale := by
  have listed : OneLine (", ".intercalate unused.definedIn) :=
    oneLine_intercalate (by decide) (plain.definingPaths reports isIn)
  unfold RiskPolicy.rateSymbol
  split
  · simp +decide only [oneLine_append, oneLine_nat, listed]
  · dsimp only
    split
    · rename_i fragment found
      simp +decide only [oneLine_append, plain.fragments fragment (List.mem_of_find?_eq_some found)]
    · split
      · decide
      · split <;> decide

theorem ratedFile (reports : Reports report graph policy) {rated : RatedFile} (isIn : rated ∈ report.assessment.files) :
    OneLine (summaryFileLine rated) := by
  rw [reports.rated] at isIn
  obtain ⟨file, isFile, rfl⟩ := List.mem_map.mp isIn
  simp +decide only [summaryFileLine, oneLine_append, oneLine_int, oneLine_fileKind, oneLine_riskMark, oneLine_rateFile,
    plain.unusedFile reports file isFile]

theorem ratedSymbol (reports : Reports report graph policy) {rated : RatedSymbol} (isIn : rated ∈ report.assessment.symbols) :
    OneLine (summarySymbolLine rated) := by
  rw [reports.rated] at isIn
  obtain ⟨unused, isUnused, rfl⟩ := List.mem_map.mp isIn
  have listed : OneLine (", ".intercalate unused.definedIn) :=
    oneLine_intercalate (by decide) (plain.definingPaths reports isUnused)
  simp +decide only [summarySymbolLine, oneLine_append, oneLine_riskMark, listed, plain.symbolReason reports isUnused,
    (plain.unusedSymbol reports isUnused).1]

theorem summaryLines (reports : Reports report graph policy) : ∀ line ∈ report.summaryLines, OneLine line := by
  have listed {lines : List String} {none : String} (each : ∀ line ∈ lines, OneLine line) (noneShown : OneLine none) :
      ∀ line ∈ linesOr lines none, OneLine line := by
    intro line isIn
    rcases mem_linesOr isIn with isLine | rfl
    · exact each line isLine
    · exact noneShown
  have files : ∀ line ∈ report.fileItems, OneLine line :=
    listed (List.forall_mem_map.mpr fun _ isIn => plain.ratedFile reports isIn) (by decide)
  have symbols : ∀ line ∈ report.symbolItems, OneLine line :=
    listed (List.forall_mem_map.mpr fun _ isIn => plain.ratedSymbol reports isIn) (by decide)
  have above : ∀ line ∈ report.overview, OneLine line := by
    simp +decide only [overview, List.forall_mem_cons, oneLine_append, oneLine_nat, oneLine_percent, plain.root, plain.time]
  have below : ∀ line ∈ report.outlook, OneLine line := by
    simp +decide only [outlook, countRow, List.forall_mem_cons, oneLine_append, oneLine_nat]
  have titles : ∀ line ∈ ["## Unused files", ""] ++ ["", "## Unused symbols", ""] ++ [""], OneLine line := by decide
  rw [Report.summaryLines]
  simp only [List.forall_mem_append] at titles ⊢
  exact ⟨⟨⟨⟨⟨⟨above, titles.1.1⟩, files⟩, titles.1.2⟩, symbols⟩, titles.2⟩, below⟩

end Plain
end Deadwood.Report
