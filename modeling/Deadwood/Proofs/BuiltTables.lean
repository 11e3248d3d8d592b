import Mathlib.Data.List.Nodup
import Deadwood.SourceTree
import Deadwood.Proofs.BuiltEdges
import Deadwood.Proofs.Calls

/-!
# The tables of a built graph

With a file at every path at most once, a built graph lists the files as they are given, and each symbol once. What is read
off the files is kept file by file, so the names of triggers and the words in literals are those of the files. An unused
symbol is what the tables say of its name.
-/

set_option autoImplicit false
namespace Deadwood

open Source

namespace Source

variable {reading : Reading} {file : SourceFile}

theorem code_of_mem_definitions {definition : Definition} (member : definition ∈ (extract reading file).definitions) :
    file.kind ≠ .config := by
  intro isConfig
  rw [extract, if_pos (by simpa using isConfig)] at member
  cases member

theorem isProjectName_of_mem_definitions {definition : Definition}
    (member : definition ∈ (extract reading file).definitions) : isProjectName [] definition.name = true := by
  rw [definitions_extract (code_of_mem_definitions member), definitionsOf] at member
  obtain ⟨introduction, introduced, rfl⟩ := List.mem_map.mp member
  exact (List.mem_filter.mp (mem_of_mem_claims introduced)).2

theorem isIdentifier_of_mem_definitions {definition : Definition}
    (member : definition ∈ (extract reading file).definitions) : IsIdentifier definition.name.toList := by
  rw [definitions_extract (code_of_mem_definitions member)] at member
  exact isIdentifier_of_mem_definitionsOf member

theorem ne_empty_of_isProjectName {provided : List String} {name : String}
    (projectName : isProjectName provided name = true) : name ≠ "" := by
  rintro rfl
  cases projectName

theorem empty_not_mem_definedNames (reading : Reading) (files : List SourceFile) :
    "" ∉ Build.definedNames (extract reading) files := by
  intro member
  obtain ⟨file, _, definition, defines, empty⟩ := Build.mem_definedNames.mp member
  exact ne_empty_of_isProjectName (isProjectName_of_mem_definitions defines) empty

/-- What stands around a mention is defined in the same file. -/
theorem exists_definition_of_enclosing {mention : Mention} {name : String}
    (member : mention ∈ (extract reading file).mentions) (around : mention.enclosing = some name) :
    ∃ definition ∈ (extract reading file).definitions, definition.name = name := by
  unfold extract at member ⊢
  split at member
  case isTrue => exact absurd member List.not_mem_nil
  case isFalse code =>
    rw [if_neg code]
    obtain ⟨found, _, rfl⟩ := List.mem_map.mp member
    dsimp only at around ⊢
    rcases enclosing?_cases (inOrder_definitionsOf _ _ _) found.position with ⟨none, _⟩ | ⟨definition, innermost, encloses⟩
    · cases none.symm.trans around
    · exact ⟨definition, innermost.member, Option.some.inj (encloses.symm.trans around)⟩

end Source

namespace Build

variable {extractor : SourceFile → Extraction} {files : List SourceFile}

/-! ## Files and symbols -/

theorem files_foldl_enter {build : Build} (files : List SourceFile)
    (pathsDistinct : ((build.graph.files ++ files).map (·.path)).Nodup) :
    (files.foldl (enter extractor) build).graph.files = build.graph.files ++ files := by
  induction files generalizing build with
  | nil => exact (List.append_nil _).symm
  | cons file rest ih =>
      have fresh : file.path ∉ build.graph.files.map SourceFile.path := by
        rw [List.map_append, List.nodup_append] at pathsDistinct
        exact fun old => pathsDistinct.2.2 _ old _ (List.mem_map_of_mem List.mem_cons_self) rfl
      have entered : (enter extractor build file).graph.files = build.graph.files ++ [file] := by
        rw [enter, files_foldl_enterDefinition, Graph.addFile, Keyed.put_of_fresh fresh]
      rw [List.foldl_cons, ih, entered, List.append_assoc, List.singleton_append]
      rwa [entered, List.append_assoc, List.singleton_append]

theorem files_ofExtractor (pathsDistinct : (files.map (·.path)).Nodup) :
    (ofExtractor extractor files).graph.files = files :=
  (sameTables_ofExtractor files).files.trans (@files_foldl_enter extractor {} files pathsDistinct)

theorem file?_ofExtractor (pathsDistinct : (files.map (·.path)).Nodup) {path : String} {file : SourceFile} :
    (ofExtractor extractor files).graph.file? path = some file ↔ file ∈ files ∧ file.path = path := by
  constructor
  · intro found
    exact ⟨mem_of_file?_ofExtractor found, Graph.file?_path found⟩
  · rintro ⟨listed, rfl⟩
    have known := (@isSome_file?_ofExtractor extractor files file.path).mpr (List.mem_map_of_mem listed)
    obtain ⟨found, isFound⟩ := Option.isSome_iff_exists.mp known
    rw [isFound, List.inj_on_of_nodup_map pathsDistinct (mem_of_file?_ofExtractor isFound) listed
      (Graph.file?_path isFound)]

theorem nodup_names_foldl_enterDefinition {path : String} {graph : Graph} (definitions : List Definition)
    (once : (graph.symbols.map Symbol.name).Nodup) :
    ((definitions.foldl (enterDefinition path) graph).symbols.map Symbol.name).Nodup := by
  induction definitions generalizing graph with
  | nil => exact once
  | cons definition rest ih =>
      apply ih
      rw [enterDefinition, Graph.sameTables_addEdge.symbols, Graph.addSymbol]
      exact Keyed.nodup_map_key_put once

theorem nodup_names_ofExtractor (extractor : SourceFile → Extraction) (files : List SourceFile) :
    ((ofExtractor extractor files).graph.symbols.map Symbol.name).Nodup := by
  rw [(sameTables_ofExtractor files).symbols]
  have step : ∀ (files : List SourceFile) (build : Build), (build.graph.symbols.map Symbol.name).Nodup →
      ((files.foldl (enter extractor) build).graph.symbols.map Symbol.name).Nodup := by
    intro files
    induction files with
    | nil => exact fun build once => once
    | cons file rest ih => exact fun build once => ih _ (nodup_names_foldl_enterDefinition _ once)
  exact step files {} List.nodup_nil

/-! ## Triggers and words -/

theorem extractions_foldl_enter {build : Build} (files : List SourceFile)
    (pathsDistinct : (build.extractions.map (·.path) ++ files.map (·.path)).Nodup) :
    (files.foldl (enter extractor) build).extractions =
      build.extractions ++ files.map fun file => { extractor file with path := file.path } := by
  induction files generalizing build with
  | nil => exact (List.append_nil _).symm
  | cons file rest ih =>
      have fresh : file.path ∉ build.extractions.map Extraction.path := by
        rw [List.nodup_append] at pathsDistinct
        exact fun old => pathsDistinct.2.2 _ old _ List.mem_cons_self rfl
      have entered : (enter extractor build file).extractions =
          build.extractions ++ [{ extractor file with path := file.path }] :=
        @Keyed.put_of_fresh _ Extraction.path { extractor file with path := file.path } _ fresh
      rw [List.foldl_cons, ih, entered, List.append_assoc, List.singleton_append, List.map_cons]
      rw [entered, List.map_append, List.append_assoc]
      exact pathsDistinct

theorem extractions_ofExtractor (pathsDistinct : (files.map (·.path)).Nodup) (named : "" ∉ definedNames extractor files) :
    (ofExtractor extractor files).extractions = files.map fun file => { extractor file with path := file.path } :=
  (resolves_ofExtractor pathsDistinct named).extractions.trans
    (@extractions_foldl_enter extractor {} files pathsDistinct)

theorem mem_triggerNames (pathsDistinct : (files.map (·.path)).Nodup) (named : "" ∉ definedNames extractor files)
    {name : String} :
    name ∈ (ofExtractor extractor files).triggerNames ↔ ∃ file ∈ files, name ∈ (extractor file).triggerNames := by
  rw [triggerNames, extractions_ofExtractor pathsDistinct named, Text.mem_sortedSet]
  simp

theorem mem_stringWords (pathsDistinct : (files.map (·.path)).Nodup) (named : "" ∉ definedNames extractor files)
    {word : String} :
    word ∈ (ofExtractor extractor files).stringWords ↔ ∃ file ∈ files, word ∈ (extractor file).stringWords := by
  rw [stringWords, extractions_ofExtractor pathsDistinct named, Text.mem_sortedSet]
  simp

theorem isExact_extract (reading : Reading) (pathsDistinct : (files.map (·.path)).Nodup) :
    IsExact (extract reading) files (ofExtractor (extract reading) files) :=
  ofExtractor_isExact (extract reading) files pathsDistinct fun _ _ _ defines =>
    ne_empty_of_isProjectName (isProjectName_of_mem_definitions defines)

end Build

namespace Analysis

variable {build : Build} {roots : Roots} {analysis : Analysis}

/-! ## Unused files and symbols -/

theorem unusedFile_of_mem (run : ofBuild build roots = .ok analysis) {unused : UnusedFile}
    (listed : unused ∈ analysis.unusedFiles) :
    ∃ file, build.graph.file? unused.path = some file ∧ unused = unusedFile build.graph file := by
  obtain ⟨unusedSymbols, _, rfl⟩ := ofGraph_eq_ok_iff.mp run
  obtain ⟨file, dead, rfl⟩ := List.mem_map.mp listed
  exact ⟨file, Keyed.mem_inOrder.mp (List.mem_filter.mp dead).1, rfl⟩

variable {unused : UnusedSymbol}

theorem unusedSymbol_of_mem (run : ofBuild build roots = .ok analysis) (listed : unused ∈ analysis.unusedSymbols) :
    ∃ symbol, build.graph.symbol? unused.name = some symbol ∧
      unusedSymbol build.graph build.stringWords symbol = .ok unused := by
  obtain ⟨unusedSymbols, symbolsRun, rfl⟩ := ofGraph_eq_ok_iff.mp run
  obtain ⟨symbol, dead, symbolRun⟩ := exists_of_mem_results_of_mapM_eq_ok symbolsRun listed
  have sameName : unused.name = symbol.name := by
    obtain ⟨kinds, _, rfl⟩ := unusedSymbol_eq_ok_iff.mp symbolRun
    rfl
  exact ⟨symbol, sameName ▸ (mem_deadSymbols.mp dead).1, symbolRun⟩

theorem perm_definitions_of_unused (run : ofBuild build roots = .ok analysis) (listed : unused ∈ analysis.unusedSymbols) :
    unused.definitions.Perm (build.graph.definitionsOf unused.name) := by
  obtain ⟨symbol, found, symbolRun⟩ := unusedSymbol_of_mem run listed
  rw [Graph.definitionsOf_of_symbol? found]
  obtain ⟨kinds, _, rfl⟩ := unusedSymbol_eq_ok_iff.mp symbolRun
  exact List.mergeSort_perm _ _

theorem mentionedInStrings_of_unused (run : ofBuild build roots = .ok analysis)
    (listed : unused ∈ analysis.unusedSymbols) :
    unused.mentionedInStrings = true ↔ unused.name ∈ build.stringWords := by
  obtain ⟨symbol, _, symbolRun⟩ := unusedSymbol_of_mem run listed
  obtain ⟨kinds, _, rfl⟩ := unusedSymbol_eq_ok_iff.mp symbolRun
  exact List.contains_iff_mem

theorem mem_fileKinds_of_unused (run : ofBuild build roots = .ok analysis) (listed : unused ∈ analysis.unusedSymbols)
    {owner : String × FileKind} :
    owner ∈ unused.fileKinds ↔ ∃ definition ∈ unused.definitions, ∃ file,
      build.graph.file? definition.path = some file ∧ owner = (definition.path, file.kind) := by
  obtain ⟨symbol, _, symbolRun⟩ := unusedSymbol_of_mem run listed
  obtain ⟨kinds, kindsRun, rfl⟩ := unusedSymbol_eq_ok_iff.mp symbolRun
  simp only [List.mem_mergeSort]
  constructor
  · intro member
    obtain ⟨path, defining, pathRun⟩ := exists_of_mem_results_of_mapM_eq_ok kindsRun member
    obtain ⟨definition, defines, rfl⟩ := Symbol.mem_definingFiles.mp defining
    exact ⟨definition, defines, ownerKind_eq_ok_iff.mp pathRun⟩
  · rintro ⟨definition, defines, file, found, rfl⟩
    have defining := Symbol.mem_definingFiles.mpr ⟨definition, defines, rfl⟩
    obtain ⟨owner, member, pathRun⟩ := exists_of_mem_of_mapM_eq_ok kindsRun defining
    obtain ⟨same, isSame, rfl⟩ := ownerKind_eq_ok_iff.mp pathRun
    rw [found] at isSame
    exact Option.some.inj isSame ▸ member

end Analysis

/-! ## Files under settings -/

/-- The roots that settings and files ask for, once the patterns are read. -/
def rootsOf (settings : Settings) (patterns : List Pattern) (files : List SourceFile) : Roots :=
  { names := settings.entryPoints ++ (Build.ofExtractor (extract settings.reading) files).triggerNames
    patterns := patterns
    files := settings.rootFiles }

variable {settings : Settings} {files : List SourceFile}

theorem analyzeFiles_of_unread {error : PatternError}
    (unread : settings.protectedPatterns.mapM Pattern.ofString = .error error) :
    analyzeFiles settings files = .error (.pattern error) := by
  have unnamed : settings.protectedPatterns.mapM (Pattern.ofNaming Text.asciiNames) = .error error := unread
  rw [analyzeFiles, Roots.ofSettings, Roots.ofTexts, unnamed]
  rfl

theorem exists_analyzeFiles_eq_ok {patterns : List Pattern}
    (read : settings.protectedPatterns.mapM Pattern.ofString = .ok patterns) (files : List SourceFile) :
    ∃ analysis, analyzeFiles settings files = .ok analysis ∧
      Analysis.ofBuild (Build.ofExtractor (extract settings.reading) files) (rootsOf settings patterns files) =
        .ok analysis := by
  obtain ⟨analysis, run⟩ :=
    Analysis.exists_ofBuild_eq_ok settings.reading files (rootsOf settings patterns files)
  refine ⟨analysis, ?_, run⟩
  have roots : Roots.ofSettings settings (Build.ofExtractor (extract settings.reading) files).triggerNames =
      .ok (rootsOf settings patterns files) := by
    have named : settings.protectedPatterns.mapM (Pattern.ofNaming Text.asciiNames) = .ok patterns := read
    rw [Roots.ofSettings, Roots.ofTexts, named]
    rfl
  rw [analyzeFiles, roots]
  simp only [bind, Except.bind, pure, Except.pure, run]

end Deadwood
