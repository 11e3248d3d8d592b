import Deadwood.Proofs.ConverseLinks
import Deadwood.Proofs.ReportedTexts

/-!
# The forms of a report agree

Every form of a report names the unused files and symbols of the analysis, each once, with the levels of the assessment where
it shows levels, and every count is that of a set that it names. The forms that are read line by line do so as long as what
they show holds no line feed; a path with a line feed in it makes lines of its own.
-/

set_option autoImplicit false
namespace Deadwood.Report

variable {report : Report} {graph : Graph} {policy : RiskPolicy}

/-- All forms name the same files and symbols with the same levels. The tree is there if all owners that it looks up are. -/
structure NamesAgree (report : Report) : Prop where
  filesOnce : (report.ratedFiles.map Prod.fst).Nodup
  symbolsOnce : (report.ratedSymbols.map Prod.fst).Nodup
  detailFiles : detailItems "unused_files" "path" report.detail = report.ratedFiles
  detailSymbols : detailItems "unused_symbols" "name" report.detail = report.ratedSymbols
  summaryFiles : Report.summaryFiles report.summary = report.ratedFiles
  summarySymbols : Report.summarySymbols report.summary = report.ratedSymbols
  treeFiles : ∀ text, report.tree? = some text → Report.treeFiles text = report.ratedFiles.map Prod.fst
  treeSymbols : ∀ text, report.tree? = some text → Report.treeSymbols text = report.ratedSymbols.map Prod.fst
  treeShown : report.tree?.isSome = true ↔ ∀ graph ∈ report.analysis.graph, ∀ path ∈ report.analysis.usedFiles,
    (fileLinks? graph path).isSome = true
  tableFiles : tableItems "File" report.csvRows = report.ratedFiles
  tableSymbols : tableItems "Function" report.csvRows = report.ratedSymbols
  dashed : ∀ node, node ∈ dashedNodes report.dot ↔
    (∃ path ∈ report.ratedFiles.map Prod.fst, node = .file path) ∨ ∃ name ∈ report.ratedSymbols.map Prod.fst, node = .symbol name

/-- Every count is that of the set it is printed for. -/
structure CountsAgree (report : Report) (graph : Graph) : Prop where
  detail : DetailCounts report
  summary : SummaryCounts report
  tree : ∀ text, report.tree? = some text → TreeCounts report text
  unusedFiles : report.analysis.unusedFiles.length = report.ratedFiles.length
  unusedSymbols : report.analysis.unusedSymbols.length = report.ratedSymbols.length
  files : report.analysis.usedFiles.length + report.analysis.unusedFiles.length = graph.paths.length
  symbols : report.analysis.usedSymbols.length + report.analysis.unusedSymbols.length = graph.names.length
  fileLevel : ∀ level, report.assessment.fileCount level = report.ratedFiles.countP (·.2 = level)
  symbolLevel : ∀ level, report.assessment.symbolCount level = report.ratedSymbols.countP (·.2 = level)
  fileLevels : report.assessment.fileCount .low + report.assessment.fileCount .medium + report.assessment.fileCount .high =
    report.analysis.unusedFiles.length
  symbolLevels : report.assessment.symbolCount .low + report.assessment.symbolCount .medium +
    report.assessment.symbolCount .high = report.analysis.unusedSymbols.length

/-! ## Ratings -/

theorem map_path_ratedFiles (reports : Reports report graph policy) :
    report.ratedFiles.map Prod.fst = report.analysis.unusedFiles.map (·.path) := by
  rw [ratedFiles, reports.rated, Assessment.ofAnalysis, List.map_map, List.map_map]
  rfl

theorem map_name_ratedSymbols (reports : Reports report graph policy) :
    report.ratedSymbols.map Prod.fst = report.analysis.unusedSymbols.map (·.name) := by
  rw [ratedSymbols, reports.rated, Assessment.ofAnalysis, List.map_map, List.map_map]
  rfl

theorem countP_levels {α : Type} (levelOf : α → RiskLevel) (items : List α) :
    items.countP (levelOf · = .low) + items.countP (levelOf · = .medium) + items.countP (levelOf · = .high) =
      items.length := by
  induction items with
  | nil => rfl
  | cons item items inductionHypothesis =>
      rw [List.countP_cons, List.countP_cons, List.countP_cons, List.length_cons, ← inductionHypothesis]
      cases levelOf item <;> simp <;> omega

/-! ## The halves of the graph -/

/-- An analysis has the used and the unused files of its graph, and so for symbols. -/
theorem length_halves {analysis : Analysis} {roots : Roots} {stringWords : List String} {unresolved : List Unresolved}
    (run : Analysis.ofGraph graph roots stringWords unresolved = .ok analysis) :
    analysis.usedFiles.length + analysis.unusedFiles.length = graph.paths.length ∧
      analysis.usedSymbols.length + analysis.unusedSymbols.length = graph.names.length := by
  obtain ⟨unusedSymbols, symbolsRun, rfl⟩ := Analysis.ofGraph_eq_ok_iff.mp run
  have symbolCount : unusedSymbols.length = (Analysis.deadSymbols graph roots).length := by
    simpa using congrArg List.length (Analysis.map_name_of_mapM_unusedSymbol symbolsRun)
  have pathCount : (Keyed.inOrder SourceFile.path graph.files).length = graph.paths.length := by
    rw [← List.length_map SourceFile.path, Keyed.map_key_inOrder, Graph.paths]
  have nameCount : (Keyed.inOrder Symbol.name graph.symbols).length = graph.names.length := by
    rw [← List.length_map Symbol.name, Keyed.map_key_inOrder, Graph.names]
  constructor
  · rw [Analysis.withUnusedSymbols, List.length_map, List.length_map, ← pathCount]
    exact (List.length_eq_length_filter_add _).symm
  · change _ + unusedSymbols.length = _
    rw [symbolCount, Analysis.deadSymbols, Analysis.withUnusedSymbols, List.length_map, ← nameCount]
    exact (List.length_eq_length_filter_add _).symm

theorem mem_nodes_of_mem_unusedNodes (reports : Reports report graph policy) {node : Node}
    (isIn : node ∈ unusedNodes report.analysis) : node ∈ graph.nodes := by
  obtain ⟨roots, stringWords, unresolved, run⟩ := reports.analysed
  have divides := Analysis.divides_of_ofGraph_eq_ok run
  rw [unusedNodes, List.mem_append, List.mem_map, List.mem_map] at isIn
  rw [mem_nodes_iff]
  rcases isIn with ⟨file, isFile, rfl⟩ | ⟨symbol, isSymbol, rfl⟩
  · exact .inl ⟨file.path, rfl, ((divides.mem_unusedFiles _).mp (List.mem_map_of_mem isFile)).1⟩
  · exact .inr ⟨symbol.name, rfl, ((divides.mem_unusedSymbols _).mp (List.mem_map_of_mem isSymbol)).1⟩

theorem mem_dashedNodes_iff (reports : Reports report graph policy) (plain : Plain report graph policy) {node : Node} :
    node ∈ dashedNodes report.dot ↔ node ∈ unusedNodes report.analysis := by
  rw [dashedNodes_eq (plain.dotLines reports), List.mem_filter, List.contains_iff_mem, reports.drawn_eq]
  exact and_iff_right_of_imp (mem_nodes_of_mem_unusedNodes reports)

theorem mem_unusedNodes_iff {analysis : Analysis} {node : Node} : node ∈ unusedNodes analysis ↔
    (∃ path ∈ analysis.unusedFiles.map (·.path), node = .file path) ∨
      ∃ name ∈ analysis.unusedSymbols.map (·.name), node = .symbol name := by
  simp only [unusedNodes, List.mem_append, List.mem_map, exists_exists_and_eq_and, eq_comm (a := node)]

/-- The tree is there if all owners that it looks up are. -/
theorem Reports.isSome_tree?_iff (reports : Reports report graph policy) : report.tree?.isSome = true ↔
    ∀ graph ∈ report.analysis.graph, ∀ path ∈ report.analysis.usedFiles, (fileLinks? graph path).isSome = true := by
  obtain ⟨roots, stringWords, unresolved, run⟩ := reports.analysed
  have divides := Analysis.divides_of_ofGraph_eq_ok run
  have isUsed : ∀ path ∈ report.analysis.usedFiles, (graph.file? path).isSome :=
    fun path listed => ((divides.mem_usedFiles _).mp listed).1
  rw [tree?, Option.isSome_map, reports.graph_eq, Option.isSome_iff_exists]
  simp only [mapM_eq_some_iff, Option.mem_some_iff, forall_eq']
  constructor
  · rintro ⟨used, made⟩ path listed
    have shown : usedFileLines? (some graph) path ∈ used.map some := made ▸ List.mem_map_of_mem listed
    obtain ⟨lines, _, is⟩ := List.mem_map.mp shown
    obtain ⟨_, links, _, linked, _⟩ := usedFileLines?_eq_some_iff.mp is.symm
    rw [linked]
    rfl
  · intro linked
    refine ⟨report.analysis.usedFiles.map fun path => (usedFileLines? (some graph) path).getD [], ?_⟩
    rw [List.map_map]
    refine List.map_congr_left fun path listed => ?_
    obtain ⟨file, isFile⟩ := Option.isSome_iff_exists.mp (isUsed path listed)
    obtain ⟨links, isLinked⟩ := Option.isSome_iff_exists.mp (linked path listed)
    rw [Function.comp_apply, usedFileLines?_eq_some_iff.mpr ⟨file, links, isFile, isLinked, rfl⟩, Option.getD_some]

theorem namesAgree (reports : Reports report graph policy) (plain : Plain report graph policy) : NamesAgree report := by
  obtain ⟨roots, stringWords, unresolved, run⟩ := reports.analysed
  have divides := Analysis.divides_of_ofGraph_eq_ok run
  have paths := map_path_ratedFiles reports
  have names := map_name_ratedSymbols reports
  have plainName : ∀ symbol ∈ report.analysis.unusedSymbols, ' ' ∉ symbol.name.toList ∧ '`' ∉ symbol.name.toList := by
    intro unused isIn
    obtain ⟨symbol, inGraph, name, _⟩ := reports.exists_symbol isIn
    rw [name]
    exact (plain.names symbol inGraph).2
  have plainReason : ∀ rated ∈ report.assessment.files, '`' ∉ rated.rating.rationale.toList := by
    rw [reports.rated]
    exact List.forall_mem_map.mpr fun file _ => backtick_not_mem_rateFile policy file
  have plainRated : ∀ rated ∈ report.assessment.symbols, '`' ∉ rated.symbol.name.toList := by
    rw [reports.rated]
    exact List.forall_mem_map.mpr fun symbol isIn => (plainName symbol isIn).2
  exact {
    filesOnce := paths ▸ divides.unusedFiles_sorted.imp String.ne_of_lt
    symbolsOnce := names ▸ divides.unusedSymbols_sorted.imp String.ne_of_lt
    detailFiles := detailItems_files report
    detailSymbols := detailItems_symbols report
    summaryFiles := summaryFiles_eq (plain.summaryLines reports) plainReason
    summarySymbols := summarySymbols_eq (plain.summaryLines reports) plainRated
    treeFiles := fun text shown => by
      obtain ⟨used, hasUsed, rfl⟩ := tree?_eq_some_iff.mp shown
      exact (treeFiles_eq hasUsed (plain.treeLines reports hasUsed)).trans paths.symm
    treeSymbols := fun text shown => by
      obtain ⟨used, hasUsed, rfl⟩ := tree?_eq_some_iff.mp shown
      exact (treeSymbols_eq hasUsed (plain.treeLines reports hasUsed) fun symbol isIn => (plainName symbol isIn).1).trans names.symm
    treeShown := reports.isSome_tree?_iff
    tableFiles := tableItems_file report
    tableSymbols := tableItems_symbol report
    dashed := fun node => by rw [mem_dashedNodes_iff reports plain, mem_unusedNodes_iff, paths, names] }

theorem countsAgree (reports : Reports report graph policy) (plain : Plain report graph policy) : CountsAgree report graph := by
  obtain ⟨roots, stringWords, unresolved, run⟩ := reports.analysed
  obtain ⟨files, symbols⟩ := length_halves run
  have unusedFiles : report.analysis.unusedFiles.length = report.ratedFiles.length := by
    simpa using congrArg List.length (map_path_ratedFiles reports).symm
  have unusedSymbols : report.analysis.unusedSymbols.length = report.ratedSymbols.length := by
    simpa using congrArg List.length (map_name_ratedSymbols reports).symm
  have ratedFileCount : report.ratedFiles.length = report.assessment.files.length := List.length_map _
  have ratedSymbolCount : report.ratedSymbols.length = report.assessment.symbols.length := List.length_map _
  exact {
    detail := detailCounts report
    summary := summaryCounts (plain.summaryLines reports)
    tree := fun text shown => by
      obtain ⟨used, hasUsed, rfl⟩ := tree?_eq_some_iff.mp shown
      exact treeCounts hasUsed (plain.treeLines reports hasUsed)
    unusedFiles := unusedFiles
    unusedSymbols := unusedSymbols
    files := files
    symbols := symbols
    fileLevel := fun level => by rw [ratedFiles, List.countP_map, Assessment.fileCount]; rfl
    symbolLevel := fun level => by rw [ratedSymbols, List.countP_map, Assessment.symbolCount]; rfl
    fileLevels := (countP_levels _ _).trans (unusedFiles.trans ratedFileCount).symm
    symbolLevels := (countP_levels _ _).trans (unusedSymbols.trans ratedSymbolCount).symm }

/-- If what a report shows is plain, its forms name the same files and symbols with the same levels, and every count is that of
its set. -/
theorem forms_agree_of_plain (reports : Reports report graph policy) (plain : Plain report graph policy) :
    NamesAgree report ∧ CountsAgree report graph :=
  ⟨namesAgree reports plain, countsAgree reports plain⟩

/-- A file that defines a symbol that nothing needs. -/
def loneFile (path : String) : SourceFile :=
  { path := path, kind := .backend, text := [], size := 21 }

def loneDefinition : Source.Definition :=
  { path := "B.gs", name := "orphan", kind := .function, startLine := 1, endLine := 1, startOffset := 0, endOffset := 20
    position := 9 }

def loneGraph : Graph :=
  { files := [loneFile "B.gs"], symbols := [{ name := "orphan", definitions := [loneDefinition] }] }

def loneAnalysis : Analysis :=
  { usedFiles := []
    unusedFiles := [Analysis.unusedFile loneGraph (loneFile "B.gs")]
    usedSymbols := []
    unusedSymbols := [{ name := "orphan", definitions := [loneDefinition], fileKinds := [("B.gs", .backend)] }]
    graph := some loneGraph }

def reportOf (policy : RiskPolicy) (analysis : Analysis) : Report :=
  { analysis := analysis, assessment := .ofAnalysis policy analysis, root := ⟨"/", ["src"]⟩, validationCommand := none
    generatedAt := "2026-01-01T12:00:00" }

def lonePolicy : RiskPolicy :=
  { protectedSubstrings := ["init"], configFiles := ["appsscript.json"], largeFileBytes := 51200 }

theorem ofGraph_loneGraph : Analysis.ofGraph loneGraph {} = .ok loneAnalysis := by
  cbv

theorem forms_agree_on_loneGraph :
    Reports (reportOf lonePolicy loneAnalysis) loneGraph lonePolicy ∧
      Plain (reportOf lonePolicy loneAnalysis) loneGraph lonePolicy ∧
      NamesAgree (reportOf lonePolicy loneAnalysis) ∧ CountsAgree (reportOf lonePolicy loneAnalysis) loneGraph := by
  have reports : Reports (reportOf lonePolicy loneAnalysis) loneGraph lonePolicy :=
    ⟨⟨{}, [], [], ofGraph_loneGraph⟩, rfl⟩
  have plain : Plain (reportOf lonePolicy loneAnalysis) loneGraph lonePolicy :=
    { time := by decide
      root := by decide
      paths := by decide
      names := by decide
      owners := by decide
      ends := by decide
      fragments := by decide }
  exact ⟨reports, plain, forms_agree_of_plain reports plain⟩

/-- A file whose path has a line feed in it, and after that what stands before the path of an unused file. -/
def brokenGraph : Graph :=
  { files := [loneFile "a\n  x b.gs"] }

def brokenAnalysis : Analysis :=
  { usedFiles := []
    unusedFiles := [Analysis.unusedFile brokenGraph (loneFile "a\n  x b.gs")]
    usedSymbols := []
    unusedSymbols := []
    graph := some brokenGraph }

/-- The tree names two files where there is one, and neither of them is there. -/
theorem tree_of_brokenGraph_names_other_files :
    Analysis.ofGraph brokenGraph {} = .ok brokenAnalysis ∧
      detailItems "unused_files" "path" (reportOf lonePolicy brokenAnalysis).detail = [("a\n  x b.gs", .low)] ∧
      (reportOf lonePolicy brokenAnalysis).tree?.map treeFiles = some ["a", "b.gs"] := by
  refine ⟨by cbv, ?_, ?_⟩
  · rw [detailItems_files]
    decide
  · decide +kernel

end Deadwood.Report
