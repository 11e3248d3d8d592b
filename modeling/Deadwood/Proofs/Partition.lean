import Mathlib.Data.List.Basic
import Deadwood.Analysis
import Deadwood.Proofs.Reachability

/-!
# An analysis divides its graph

An analysis lists every file and every symbol of its graph once, in order: as used if it is reached from the roots, as
unused otherwise. It fails only on a symbol that is not reached and has a definition in a file that the graph does not
have.
-/

set_option autoImplicit false
namespace Deadwood

/-! ## Lists of results -/

theorem bind_eq_ok_iff {ε α β : Type} {first : Except ε α} {next : α → Except ε β} {result : β} :
    (first >>= next) = .ok result ↔ ∃ value, first = .ok value ∧ next value = .ok result := by
  cases first with
  | error error => simp [bind, Except.bind]
  | ok value => simp [bind, Except.bind]

theorem eq_error_of_bind_ok_eq_error {ε α β : Type} {first : Except ε α} {f : α → β} {error : ε}
    (failed : (first >>= fun value => .ok (f value)) = .error error) : first = .error error := by
  cases first with
  | error firstError =>
      cases failed
      rfl
  | ok value => cases failed

theorem exists_of_map_eq_ok {ε α β : Type} {first : Except ε α} {f : α → β} {result : β} (run : first.map f = .ok result) :
    ∃ value, first = .ok value ∧ f value = result := by
  cases first with
  | error error => cases run
  | ok value => exact ⟨value, rfl, Except.ok.inj run⟩

theorem mapM_eq_ok_iff {ε α β : Type} {f : α → Except ε β} {items : List α} {results : List β} :
    items.mapM f = .ok results ↔ items.map f = results.map .ok := by
  induction items generalizing results with
  | nil =>
      rw [List.mapM_nil, List.map_nil, eq_comm (a := []), List.map_eq_nil_iff]
      exact ⟨fun same => (Except.ok.inj same).symm, fun none => none ▸ rfl⟩
  | cons item rest inductionHypothesis =>
      rw [List.mapM_cons, bind_eq_ok_iff]
      constructor
      · rintro ⟨result, itemRun, restRun⟩
        obtain ⟨others, othersRun, same⟩ := bind_eq_ok_iff.mp restRun
        cases same
        rw [List.map_cons, List.map_cons, itemRun, inductionHypothesis.mp othersRun]
      · intro same
        cases results with
        | nil => cases same
        | cons result others =>
            obtain ⟨itemRun, othersRun⟩ := List.cons.inj same
            exact ⟨result, itemRun, bind_eq_ok_iff.mpr ⟨others, inductionHypothesis.mpr othersRun, rfl⟩⟩

theorem exists_mapM_eq_ok {ε α β : Type} {f : α → Except ε β} {items : List α}
    (each : ∀ item ∈ items, ∃ result, f item = .ok result) : ∃ results, items.mapM f = .ok results := by
  induction items with
  | nil => exact ⟨[], rfl⟩
  | cons item rest inductionHypothesis =>
      obtain ⟨result, itemRun⟩ := each item List.mem_cons_self
      obtain ⟨results, restRun⟩ := inductionHypothesis fun other member => each other (List.mem_cons_of_mem item member)
      refine ⟨result :: results, mapM_eq_ok_iff.mpr ?_⟩
      rw [List.map_cons, List.map_cons, itemRun, mapM_eq_ok_iff.mp restRun]

/-- What every run keeps is kept all through a list of runs. -/
theorem map_eq_map_of_mapM_eq_ok {ε α β γ : Type} {f : α → Except ε β} {before : α → γ} {after : β → γ}
    (kept : ∀ item result, f item = .ok result → after result = before item) {items : List α} {results : List β}
    (run : items.mapM f = .ok results) : results.map after = items.map before := by
  induction items generalizing results with
  | nil =>
      cases run
      rfl
  | cons item rest inductionHypothesis =>
      obtain ⟨result, itemRun, restRun⟩ := bind_eq_ok_iff.mp (List.mapM_cons.symm.trans run)
      obtain ⟨others, othersRun, same⟩ := bind_eq_ok_iff.mp restRun
      cases same
      rw [List.map_cons, List.map_cons, kept item result itemRun, inductionHypothesis othersRun]

theorem exists_of_mem_of_mapM_eq_ok {ε α β : Type} {f : α → Except ε β} {items : List α} {results : List β} {item : α}
    (run : items.mapM f = .ok results) (member : item ∈ items) : ∃ result ∈ results, f item = .ok result := by
  have image : f item ∈ results.map .ok := mapM_eq_ok_iff.mp run ▸ List.mem_map_of_mem member
  obtain ⟨result, present, same⟩ := List.mem_map.mp image
  exact ⟨result, present, same.symm⟩

theorem exists_of_mem_results_of_mapM_eq_ok {ε α β : Type} {f : α → Except ε β} {items : List α} {results : List β}
    {result : β} (run : items.mapM f = .ok results) (member : result ∈ results) :
    ∃ item ∈ items, f item = .ok result := by
  have image : Except.ok result ∈ items.map f := mapM_eq_ok_iff.mp run ▸ List.mem_map_of_mem member
  exact List.mem_map.mp image

theorem exists_of_mapM_eq_error {ε α β : Type} {f : α → Except ε β} {items : List α} {error : ε}
    (failed : items.mapM f = .error error) : ∃ item ∈ items, f item = .error error := by
  induction items with
  | nil => cases failed
  | cons item rest inductionHypothesis =>
      rw [List.mapM_cons] at failed
      cases itemRun : f item with
      | error itemError =>
          rw [itemRun] at failed
          cases failed
          exact ⟨item, List.mem_cons_self, itemRun⟩
      | ok result =>
          cases restRun : rest.mapM f with
          | ok others =>
              rw [itemRun, restRun] at failed
              cases failed
          | error restError =>
              rw [itemRun, restRun] at failed
              cases failed
              obtain ⟨other, member, otherRun⟩ := inductionHypothesis restRun
              exact ⟨other, List.mem_cons_of_mem item member, otherRun⟩

/-! ## The rows of a table in order -/

namespace Keyed

def inOrder {α : Type} (key : α → String) (table : List α) : List α :=
  (Text.sortedSet (table.map key)).filterMap fun wanted => find? key wanted table

variable {α : Type} {key : α → String} {table : List α}

theorem map_key_inOrder : (inOrder key table).map key = Text.sortedSet (table.map key) := by
  rw [inOrder, List.map_filterMap]
  refine (List.filterMap_congr ?_).trans List.filterMap_some
  intro wanted member
  obtain ⟨row, found⟩ := Option.isSome_iff_exists.mp (isSome_find?.mpr (Text.mem_sortedSet.mp member))
  simp [found, key_of_find? found]

theorem mem_inOrder {row : α} : row ∈ inOrder key table ↔ find? key (key row) table = some row := by
  rw [inOrder, List.mem_filterMap]
  constructor
  · rintro ⟨wanted, _, found⟩
    rwa [key_of_find? found]
  · intro found
    exact ⟨key row, Text.mem_sortedSet.mpr (isSome_find?.mp (by simp [found])), found⟩

theorem pairwise_map_key_filter_inOrder (test : α → Bool) :
    (((inOrder key table).filter test).map key).Pairwise (· < ·) := by
  have sub := (List.filter_sublist : ((inOrder key table).filter test).Sublist (inOrder key table)).map key
  rw [map_key_inOrder] at sub
  exact (Text.pairwise_sortedSet _).sublist sub

theorem mem_map_key_filter_inOrder {test : α → Bool} {wanted : String} :
    wanted ∈ ((inOrder key table).filter test).map key ↔
      ∃ row, find? key wanted table = some row ∧ test row = true := by
  simp only [List.mem_map, List.mem_filter, mem_inOrder]
  constructor
  · rintro ⟨row, ⟨found, passes⟩, rfl⟩
    exact ⟨row, found, passes⟩
  · rintro ⟨row, found, passes⟩
    have sameKey := key_of_find? found
    subst sameKey
    exact ⟨row, ⟨found, passes⟩, rfl⟩

end Keyed

namespace Analysis

variable {graph : Graph} {roots : Roots} {stringWords : List String}

/-! ## The unused symbols -/

/-- A symbol is rateable if the graph has every file that defines it. -/
def HasOwners (graph : Graph) (symbol : Symbol) : Prop :=
  ∀ definition ∈ symbol.definitions, (graph.file? definition.path).isSome

theorem ownerKind_eq_ok_iff {path : String} {owner : String × FileKind} :
    ownerKind graph path = .ok owner ↔ ∃ file, graph.file? path = some file ∧ owner = (path, file.kind) := by
  rw [ownerKind]
  cases found : graph.file? path with
  | none => simp
  | some file => simp [eq_comm]

theorem ownerKind_eq_error {path : String} {error : AnalysisError} (failed : ownerKind graph path = .error error) :
    graph.file? path = none ∧ error = .missingFile path := by
  rw [ownerKind] at failed
  cases found : graph.file? path with
  | none =>
      rw [found] at failed
      cases failed
      exact ⟨rfl, rfl⟩
  | some file =>
      rw [found] at failed
      cases failed

theorem unusedSymbol_eq_ok_iff {symbol : Symbol} {unused : UnusedSymbol} :
    unusedSymbol graph stringWords symbol = .ok unused ↔
      ∃ kinds, symbol.definingFiles.mapM (ownerKind graph) = .ok kinds ∧
        unused =
          { name := symbol.name
            definitions := symbol.definitions.mergeSort definitionNotAfter
            fileKinds := kinds
            mentionedInStrings := stringWords.contains symbol.name } := by
  rw [unusedSymbol, bind_eq_ok_iff]
  constructor
  · rintro ⟨kinds, kindsRun, same⟩
    exact ⟨kinds, kindsRun, (Except.ok.inj same).symm⟩
  · rintro ⟨kinds, kindsRun, rfl⟩
    exact ⟨kinds, kindsRun, rfl⟩

theorem unusedSymbol_of_hasOwners {symbol : Symbol} (owned : HasOwners graph symbol) :
    ∃ unused, unusedSymbol graph stringWords symbol = .ok unused := by
  obtain ⟨kinds, kindsRun⟩ : ∃ kinds, symbol.definingFiles.mapM (ownerKind graph) = .ok kinds := by
    apply exists_mapM_eq_ok
    intro path member
    obtain ⟨definition, defines, rfl⟩ := Symbol.mem_definingFiles.mp member
    obtain ⟨file, found⟩ := Option.isSome_iff_exists.mp (owned definition defines)
    exact ⟨(definition.path, file.kind), ownerKind_eq_ok_iff.mpr ⟨file, found, rfl⟩⟩
  exact ⟨_, unusedSymbol_eq_ok_iff.mpr ⟨kinds, kindsRun, rfl⟩⟩

theorem hasOwners_of_unusedSymbol_eq_ok {symbol : Symbol} {unused : UnusedSymbol}
    (run : unusedSymbol graph stringWords symbol = .ok unused) : HasOwners graph symbol := by
  obtain ⟨kinds, kindsRun, _⟩ := unusedSymbol_eq_ok_iff.mp run
  intro definition defines
  have member := Symbol.mem_definingFiles.mpr ⟨definition, defines, rfl⟩
  obtain ⟨owner, _, atPath⟩ := exists_of_mem_of_mapM_eq_ok kindsRun member
  obtain ⟨file, found, _⟩ := ownerKind_eq_ok_iff.mp atPath
  simp [found]

theorem missing_of_unusedSymbol_eq_error {symbol : Symbol} {error : AnalysisError}
    (failed : unusedSymbol graph stringWords symbol = .error error) :
    ∃ definition ∈ symbol.definitions, graph.file? definition.path = none ∧
      error = .missingFile definition.path := by
  have kindsFailed : symbol.definingFiles.mapM (ownerKind graph) = .error error := by
    rw [unusedSymbol] at failed
    cases kindsRun : symbol.definingFiles.mapM (ownerKind graph) with
    | ok kinds =>
        rw [kindsRun] at failed
        cases failed
    | error kindsError =>
        rw [kindsRun] at failed
        cases failed
        rfl
  obtain ⟨path, member, atPath⟩ := exists_of_mapM_eq_error kindsFailed
  obtain ⟨definition, defines, rfl⟩ := Symbol.mem_definingFiles.mp member
  obtain ⟨absent, same⟩ := ownerKind_eq_error atPath
  exact ⟨definition, defines, absent, same⟩

/-! ## The two halves -/

/-- The analysis lists the files and symbols of a graph, each once and in order: the live ones as used, the others as
unused. -/
structure Divides (analysis : Analysis) (graph : Graph) (live : Node → Prop) : Prop where
  usedFiles_sorted : analysis.usedFiles.Pairwise (· < ·)
  unusedFiles_sorted : (analysis.unusedFiles.map (·.path)).Pairwise (· < ·)
  usedSymbols_sorted : analysis.usedSymbols.Pairwise (· < ·)
  unusedSymbols_sorted : (analysis.unusedSymbols.map (·.name)).Pairwise (· < ·)
  mem_usedFiles : ∀ path, path ∈ analysis.usedFiles ↔ (graph.file? path).isSome ∧ live (.file path)
  mem_unusedFiles : ∀ path,
    path ∈ analysis.unusedFiles.map (·.path) ↔ (graph.file? path).isSome ∧ ¬ live (.file path)
  mem_usedSymbols : ∀ name, name ∈ analysis.usedSymbols ↔ (graph.symbol? name).isSome ∧ live (.symbol name)
  mem_unusedSymbols : ∀ name,
    name ∈ analysis.unusedSymbols.map (·.name) ↔ (graph.symbol? name).isSome ∧ ¬ live (.symbol name)

def marked (graph : Graph) (roots : Roots) : List Node :=
  graph.mark roots ++ (graph.rootNames roots).map Node.symbol ++ (graph.rootPaths roots).map Node.file

theorem contains_marked_iff {node : Node} :
    (marked graph roots).contains node = true ↔ ∃ mode, Graph.Reached graph roots node mode := by
  rw [List.contains_iff_mem, marked, List.mem_append, List.mem_append, Graph.mem_mark_iff_reached]
  constructor
  · rintro ((live | nameRoot) | fileRoot)
    · exact live
    · obtain ⟨name, member, rfl⟩ := List.mem_map.mp nameRoot
      have visited : (.symbol name, .direct) ∈ graph.rootVisits roots :=
        List.mem_append_right _ (List.mem_map.mpr ⟨name, member, rfl⟩)
      exact ⟨.direct, Graph.Reached.of_rootVisits visited⟩
    · obtain ⟨path, member, rfl⟩ := List.mem_map.mp fileRoot
      have visited : (.file path, .direct) ∈ graph.rootVisits roots :=
        List.mem_append_left _ (List.mem_map.mpr ⟨path, member, rfl⟩)
      exact ⟨.direct, Graph.Reached.of_rootVisits visited⟩
  · intro live
    exact Or.inl (Or.inl live)

def deadSymbols (graph : Graph) (roots : Roots) : List Symbol :=
  (Keyed.inOrder Symbol.name graph.symbols).filter fun symbol => !(marked graph roots).contains symbol.node

theorem mem_deadSymbols {symbol : Symbol} :
    symbol ∈ deadSymbols graph roots ↔
      graph.symbol? symbol.name = some symbol ∧ ¬ ∃ mode, Graph.Reached graph roots symbol.node mode := by
  rw [deadSymbols, List.mem_filter, Keyed.mem_inOrder, Graph.symbol?, Bool.not_eq_true', ← Bool.not_eq_true,
    contains_marked_iff]

theorem exists_file?_iff (test : Node → Bool) (path : String) :
    (∃ file, Keyed.find? SourceFile.path path graph.files = some file ∧ test file.node = true) ↔
      (graph.file? path).isSome ∧ test (.file path) = true := by
  constructor
  · rintro ⟨file, found, passes⟩
    have samePath : file.path = path := Graph.file?_path found
    exact ⟨Option.isSome_of_eq_some found, by rwa [SourceFile.node, samePath] at passes⟩
  · rintro ⟨present, passes⟩
    obtain ⟨file, found⟩ := Option.isSome_iff_exists.mp present
    exact ⟨file, found, by rwa [SourceFile.node, Graph.file?_path found]⟩

theorem exists_symbol?_iff (test : Node → Bool) (name : String) :
    (∃ symbol, Keyed.find? Symbol.name name graph.symbols = some symbol ∧ test symbol.node = true) ↔
      (graph.symbol? name).isSome ∧ test (.symbol name) = true := by
  constructor
  · rintro ⟨symbol, found, passes⟩
    have sameName : symbol.name = name := Graph.symbol?_name found
    exact ⟨Option.isSome_of_eq_some found, by rwa [Symbol.node, sameName] at passes⟩
  · rintro ⟨present, passes⟩
    obtain ⟨symbol, found⟩ := Option.isSome_iff_exists.mp present
    exact ⟨symbol, found, by rwa [Symbol.node, Graph.symbol?_name found]⟩

def withUnusedSymbols (graph : Graph) (roots : Roots) (unresolved : List Unresolved)
    (unusedSymbols : List UnusedSymbol) : Analysis :=
  { usedFiles := ((Keyed.inOrder SourceFile.path graph.files).filter fun file =>
      (marked graph roots).contains file.node).map (·.path)
    unusedFiles := ((Keyed.inOrder SourceFile.path graph.files).filter fun file =>
      !(marked graph roots).contains file.node).map (unusedFile graph)
    usedSymbols := ((Keyed.inOrder Symbol.name graph.symbols).filter fun symbol =>
      (marked graph roots).contains symbol.node).map (·.name)
    unusedSymbols := unusedSymbols
    rootNames := graph.rootNames roots
    rootFiles := graph.rootPaths roots
    unresolved := unresolved
    graph := some graph }

variable {unresolved : List Unresolved}

/-- Only the unused symbols can make an analysis fail. -/
theorem ofGraph_eq_bind :
    ofGraph graph roots stringWords unresolved =
      ((deadSymbols graph roots).mapM (unusedSymbol graph stringWords)) >>= fun unusedSymbols =>
        .ok (withUnusedSymbols graph roots unresolved unusedSymbols) :=
  rfl

theorem ofGraph_eq_ok_iff {analysis : Analysis} :
    ofGraph graph roots stringWords unresolved = .ok analysis ↔
      ∃ unusedSymbols, (deadSymbols graph roots).mapM (unusedSymbol graph stringWords) = .ok unusedSymbols ∧
        analysis = withUnusedSymbols graph roots unresolved unusedSymbols := by
  rw [ofGraph_eq_bind, bind_eq_ok_iff]
  constructor
  · rintro ⟨unusedSymbols, symbolsRun, same⟩
    exact ⟨unusedSymbols, symbolsRun, (Except.ok.inj same).symm⟩
  · rintro ⟨unusedSymbols, symbolsRun, rfl⟩
    exact ⟨unusedSymbols, symbolsRun, rfl⟩

/-- An analysis comes about if the graph has every file that defines a symbol that is not live. -/
theorem exists_ofGraph_eq_ok_iff :
    (∃ analysis, ofGraph graph roots stringWords unresolved = .ok analysis) ↔
      ∀ symbol ∈ deadSymbols graph roots, HasOwners graph symbol := by
  constructor
  · rintro ⟨analysis, run⟩ symbol member
    obtain ⟨unusedSymbols, symbolsRun, _⟩ := ofGraph_eq_ok_iff.mp run
    obtain ⟨unused, _, symbolRun⟩ := exists_of_mem_of_mapM_eq_ok symbolsRun member
    exact hasOwners_of_unusedSymbol_eq_ok symbolRun
  · intro owned
    obtain ⟨unusedSymbols, symbolsRun⟩ : ∃ unusedSymbols,
        (deadSymbols graph roots).mapM (unusedSymbol graph stringWords) = .ok unusedSymbols :=
      exists_mapM_eq_ok fun symbol member => unusedSymbol_of_hasOwners (owned symbol member)
    exact ⟨_, ofGraph_eq_ok_iff.mpr ⟨unusedSymbols, symbolsRun, rfl⟩⟩

theorem map_name_of_mapM_unusedSymbol {symbols : List Symbol} {unusedSymbols : List UnusedSymbol}
    (run : symbols.mapM (unusedSymbol graph stringWords) = .ok unusedSymbols) :
    unusedSymbols.map (·.name) = symbols.map (·.name) := by
  refine map_eq_map_of_mapM_eq_ok ?_ run
  intro symbol unused symbolRun
  obtain ⟨kinds, _, rfl⟩ := unusedSymbol_eq_ok_iff.mp symbolRun
  rfl

theorem divides_of_ofGraph_eq_ok {analysis : Analysis}
    (run : ofGraph graph roots stringWords unresolved = .ok analysis) :
    analysis.Divides graph fun node => ∃ mode, Graph.Reached graph roots node mode := by
  obtain ⟨unusedSymbols, symbolsRun, rfl⟩ := ofGraph_eq_ok_iff.mp run
  have sameNames := map_name_of_mapM_unusedSymbol symbolsRun
  have samePaths : (withUnusedSymbols graph roots unresolved unusedSymbols).unusedFiles.map (·.path) =
      ((Keyed.inOrder SourceFile.path graph.files).filter fun file =>
        !(marked graph roots).contains file.node).map (·.path) := by
    rw [withUnusedSymbols, List.map_map]
    rfl
  constructor
  · exact Keyed.pairwise_map_key_filter_inOrder _
  · exact samePaths ▸ Keyed.pairwise_map_key_filter_inOrder _
  · exact Keyed.pairwise_map_key_filter_inOrder _
  · exact sameNames ▸ Keyed.pairwise_map_key_filter_inOrder _
  · intro path
    rw [← contains_marked_iff]
    exact Keyed.mem_map_key_filter_inOrder.trans (exists_file?_iff (fun node => (marked graph roots).contains node) path)
  · intro path
    rw [samePaths, ← contains_marked_iff, Bool.not_eq_true, ← Bool.not_eq_true']
    exact Keyed.mem_map_key_filter_inOrder.trans (exists_file?_iff (fun node => !(marked graph roots).contains node) path)
  · intro name
    rw [← contains_marked_iff]
    exact Keyed.mem_map_key_filter_inOrder.trans (exists_symbol?_iff (fun node => (marked graph roots).contains node) name)
  · intro name
    change name ∈ unusedSymbols.map (·.name) ↔ _
    rw [sameNames, ← contains_marked_iff, Bool.not_eq_true, ← Bool.not_eq_true']
    exact Keyed.mem_map_key_filter_inOrder.trans (exists_symbol?_iff (fun node => !(marked graph roots).contains node) name)

/-- The marked nodes are the live ones. An analysis divides its graph by them, and comes about unless a symbol that is
not live is defined in a file that the graph does not have, which is then the error. -/
theorem marks_live_nodes_and_divides_by_them (graph : Graph) (roots : Roots) (stringWords : List String)
    (unresolved : List Unresolved) :
    (∀ node, node ∈ graph.mark roots ↔ ∃ mode, Graph.Reached graph roots node mode) ∧
      (∀ analysis, ofGraph graph roots stringWords unresolved = .ok analysis →
        analysis.Divides graph fun node => node ∈ graph.mark roots) ∧
      ((∃ analysis, ofGraph graph roots stringWords unresolved = .ok analysis) ↔
        ∀ symbol, graph.symbol? symbol.name = some symbol → symbol.node ∉ graph.mark roots →
          HasOwners graph symbol) ∧
      ∀ error, ofGraph graph roots stringWords unresolved = .error error →
        ∃ symbol, graph.symbol? symbol.name = some symbol ∧ symbol.node ∉ graph.mark roots ∧
          ∃ definition ∈ symbol.definitions, graph.file? definition.path = none ∧
            error = .missingFile definition.path := by
  refine ⟨fun node => Graph.mem_mark_iff_reached, ?_, ?_, ?_⟩
  · intro analysis run
    simpa only [Graph.mem_mark_iff_reached] using divides_of_ofGraph_eq_ok run
  · simp only [exists_ofGraph_eq_ok_iff, mem_deadSymbols, Graph.mem_mark_iff_reached, and_imp]
  · intro error failed
    have symbolsFailed : (deadSymbols graph roots).mapM (unusedSymbol graph stringWords) = .error error :=
      eq_error_of_bind_ok_eq_error (ofGraph_eq_bind.symm.trans failed)
    obtain ⟨symbol, member, symbolFailed⟩ := exists_of_mapM_eq_error symbolsFailed
    obtain ⟨present, dead⟩ := mem_deadSymbols.mp member
    exact ⟨symbol, present, Graph.mem_mark_iff_reached.not.mpr dead, missing_of_unusedSymbol_eq_error symbolFailed⟩

def ownerlessSymbol : Symbol :=
  { name := "orphan"
    definitions :=
      [{ path := "gone.gs", name := "orphan", kind := .function, startLine := 1, endLine := 2
         startOffset := 0, endOffset := 0, position := 0 }] }

def ownerlessGraph : Graph :=
  { symbols := [ownerlessSymbol] }

/-- No analysis lists that symbol. -/
theorem ownerlessGraph_has_no_analysis :
    ¬ ∃ analysis, ofGraph ownerlessGraph {} = .ok analysis ∧
      analysis.Divides ownerlessGraph fun node => node ∈ ownerlessGraph.mark {} := by
  rintro ⟨analysis, run, _⟩
  have owned := exists_ofGraph_eq_ok_iff.mp ⟨analysis, run⟩
  have dead : ownerlessSymbol ∈ deadSymbols ownerlessGraph {} :=
    mem_deadSymbols.mpr ⟨rfl, fun live => Graph.not_reached_of_no_roots live.choose_spec⟩
  cases owned ownerlessSymbol dead _ List.mem_cons_self

end Analysis
end Deadwood
