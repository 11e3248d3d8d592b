import Deadwood.Proofs.Growth
import Deadwood.Proofs.StableOrder

/-!
# The order of files

Files in another order give the same graph, so the same is live. What an analysis lists it lists in order, and tied are only
definitions of one line of one file, which come as they stand in the file. So nothing that an analysis shows of files and
symbols depends on the order of the files, and neither do ratings and plans.
-/

set_option autoImplicit false
namespace Deadwood

open Source Text

/-! ## Orders of nodes and edges -/

namespace Node

def IsEntry (node : Node) : Prop :=
  ∀ identifier, node ≠ .other identifier

theorem eq_of_text_eq {first second : Node} (firstEntry : first.IsEntry) (secondEntry : second.IsEntry)
    (same : first.text = second.text) : first = second := by
  have apart : ∀ path name, "file:" ++ path ≠ "symbol:" ++ name := by
    intro path name same
    have chars := congrArg String.toList same
    rw [String.toList_append, String.toList_append] at chars
    cases chars
  cases first with
  | other identifier => exact absurd rfl (firstEntry identifier)
  | file path =>
      cases second with
      | other identifier => exact absurd rfl (secondEntry identifier)
      | file other => rw [(String.append_right_inj "file:").mp same]
      | symbol name => exact absurd same (apart path name)
  | symbol name =>
      cases second with
      | other identifier => exact absurd rfl (secondEntry identifier)
      | file path => exact absurd same.symm (apart path name)
      | symbol other => rw [(String.append_right_inj "symbol:").mp same]

theorem orders_notAfter : Orders notAfter where
  trans _ _ _ before after := decide_eq_true (String.le_trans (of_decide_eq_true before) (of_decide_eq_true after))
  total a b := by simpa [notAfter] using String.le_total a.text b.text

end Node

theorem EdgeKind.eq_of_label_eq {first second : EdgeKind} (same : first.label = second.label) : first = second := by
  cases first <;> cases second <;> first | rfl | (revert same; decide)

namespace Edge

structure BetweenEntries (edge : Edge) : Prop where
  src : edge.src.IsEntry
  dst : edge.dst.IsEntry

variable {first second : Edge}

theorem eq_of_keys (firstBetween : first.BetweenEntries) (secondBetween : second.BetweenEntries)
    (src : first.src.text = second.src.text) (dst : first.dst.text = second.dst.text)
    (kind : first.kind.label = second.kind.label) : first = second := by
  have sameSrc := Node.eq_of_text_eq firstBetween.src secondBetween.src src
  have sameDst := Node.eq_of_text_eq firstBetween.dst secondBetween.dst dst
  have sameKind := EdgeKind.eq_of_label_eq kind
  cases first
  cases second
  simp_all

/-- The same edges sort alike by a key that tells them apart. -/
theorem sorted_eq_of_perm {key : Edge → List String} {edges others : List Edge} (perm : edges.Perm others)
    (between : ∀ edge ∈ edges, edge.BetweenEntries)
    (tells : ∀ a ∈ edges, ∀ b ∈ edges, key a = key b →
      a.src.text = b.src.text ∧ a.dst.text = b.dst.text ∧ a.kind.label = b.kind.label) :
    (edges.mergeSort fun a b => Text.notAfter (key a) (key b)) =
      others.mergeSort fun a b => Text.notAfter (key a) (key b) := by
  refine mergeSort_eq_of_perm orders_notAfter perm fun a aMember b bOther before after => ?_
  have bMember : b ∈ edges := perm.mem_iff.mpr bOther
  obtain ⟨src, dst, kind⟩ := tells a aMember b bMember (notAfter_antisymm before after)
  exact eq_of_keys (between a aMember) (between b bMember) src dst kind

end Edge

/-! ## Definitions of one name -/

namespace Analysis

theorem orders_definitionNotAfter : Orders definitionNotAfter where
  trans a b c before after := by
    simp only [definitionNotAfter, Bool.or_eq_true, Bool.and_eq_true, decide_eq_true_eq, beq_iff_eq] at before after ⊢
    rcases before with earlier | ⟨samePath, line⟩
    · rcases after with later | ⟨otherPath, _⟩
      · exact Or.inl (String.lt_trans earlier later)
      · exact Or.inl (otherPath ▸ earlier)
    · rcases after with later | ⟨otherPath, otherLine⟩
      · exact Or.inl (samePath ▸ later)
      · exact Or.inr ⟨samePath.trans otherPath, Nat.le_trans line otherLine⟩
  total a b := by
    simp only [definitionNotAfter, Bool.or_eq_true, Bool.and_eq_true, decide_eq_true_eq, beq_iff_eq]
    by_cases samePath : a.path = b.path
    · rcases Nat.le_total a.startLine b.startLine with line | line
      · exact Or.inl (Or.inr ⟨samePath, line⟩)
      · exact Or.inr (Or.inr ⟨samePath.symm, line⟩)
    · by_cases before : a.path < b.path
      · exact Or.inl (Or.inl before)
      · refine Or.inr (Or.inl (String.not_le.mp fun after => samePath ?_))
        exact String.le_antisymm after (String.not_lt.mp before)

theorem path_eq_of_tied {a b : Definition} (isTied : tied definitionNotAfter a b = true) : a.path = b.path := by
  simp only [tied, definitionNotAfter, Bool.or_eq_true, Bool.and_eq_true, decide_eq_true_eq, beq_iff_eq] at isTied
  rcases isTied with ⟨before | ⟨samePath, _⟩, after | ⟨samePath', _⟩⟩
  · exact absurd before (String.lt_asymm after)
  · exact samePath'.symm
  · exact samePath
  · exact samePath

end Analysis

/-! ## Builds of the same files -/

namespace Build

variable {reading : Reading} {files reordered : List SourceFile}

/-- The files at one path, of which there is one at most, come alike in every order. -/
theorem filter_path_eq_of_perm (pathsDistinct : (files.map (·.path)).Nodup) (perm : files.Perm reordered) (path : String) :
    files.filter (·.path = path) = reordered.filter (·.path = path) := by
  have samePerm := perm.filter (·.path = path)
  have distinct : ((files.filter (·.path = path)).map (·.path)).Nodup :=
    pathsDistinct.sublist (List.filter_sublist.map _)
  have atPath : ∀ file ∈ files.filter (·.path = path), file.path = path :=
    fun file member => of_decide_eq_true (List.mem_filter.mp member).2
  generalize files.filter (·.path = path) = here at samePerm distinct atPath ⊢
  cases here with
  | nil => exact (List.nil_perm.mp samePerm).symm
  | cons file rest =>
      cases rest with
      | nil => exact List.singleton_perm.mp samePerm
      | cons other others =>
          have same : file.path = other.path :=
            (atPath file List.mem_cons_self).trans (atPath other (List.mem_cons_of_mem _ List.mem_cons_self)).symm
          simp [same] at distinct

theorem flatMap_filter_of_eq_nil {α β : Type} {f : α → List β} {test : α → Bool}
    (none : ∀ item, test item = false → f item = []) (items : List α) : (items.filter test).flatMap f = items.flatMap f := by
  induction items with
  | nil => rfl
  | cons item rest ih =>
      rw [List.filter_cons, List.flatMap_cons, ← ih]
      cases passes : test item with
      | true => rfl
      | false =>
          rw [none item passes]
          rfl

theorem filter_tied_definitionsOf (reading : Reading) (pathsDistinct : (files.map (·.path)).Nodup)
    (perm : files.Perm reordered) (name : String) (definition : Definition) :
    ((ofExtractor (extract reading) files).graph.definitionsOf name).filter (tied Analysis.definitionNotAfter definition) =
      ((ofExtractor (extract reading) reordered).graph.definitionsOf name).filter
        (tied Analysis.definitionNotAfter definition) := by
  rw [definitionsOf_ofExtractor, definitionsOf_ofExtractor, List.filter_flatMap, List.filter_flatMap]
  -- tied definitions are those of one file, and files in another order still hold theirs in the same order
  have elsewhere : ∀ file : SourceFile, decide (file.path = definition.path) = false →
      ((extract reading file).definitions.filter (·.name = name)).filter
        (tied Analysis.definitionNotAfter definition) = [] := by
    intro file differs
    refine List.filter_eq_nil_iff.mpr fun other member isTied => of_decide_eq_false differs ?_
    exact (path_of_mem_extract (List.mem_filter.mp member).1).symm.trans (Analysis.path_eq_of_tied isTied).symm
  rw [← flatMap_filter_of_eq_nil elsewhere files, ← flatMap_filter_of_eq_nil elsewhere reordered,
    filter_path_eq_of_perm pathsDistinct perm]

theorem mem_definedNames_of_perm {extractor : SourceFile → Extraction} (perm : files.Perm reordered) {name : String} :
    name ∈ definedNames extractor files ↔ name ∈ definedNames extractor reordered :=
  ⟨fun defined => definedNames_subset perm.subset defined, fun defined => definedNames_subset perm.symm.subset defined⟩

theorem unresolvedOf_of_perm {extractor : SourceFile → Extraction} (perm : files.Perm reordered) :
    unresolvedOf extractor files = unresolvedOf extractor reordered := by
  funext file
  have mentions : unresolvedMentions extractor files file.path = unresolvedMentions extractor reordered file.path := by
    funext mention
    simp only [unresolvedMentions, mem_definedNames_of_perm perm]
  have includes : unresolvedIncludes files file.path = unresolvedIncludes reordered file.path := by
    funext target
    simp only [unresolvedIncludes, perm.mem_iff]
  rw [unresolvedOf, unresolvedOf, mentions, includes]

/-- What two builds of the same files have in common. -/
structure Rearranged (first second : Build) : Prop where
  nodes : first.graph.nodes = second.graph.nodes
  edges : first.graph.edges.Perm second.graph.edges
  sortedEdges : first.graph.sortedEdges = second.graph.sortedEdges
  definitions : ∀ name, (first.graph.definitionsOf name).Perm (second.graph.definitionsOf name)
  unresolved : first.unresolved.Perm second.unresolved
  extractions : first.extractions.Perm second.extractions
  triggerNames : first.triggerNames = second.triggerNames
  stringWords : first.stringWords = second.stringWords

theorem perm_edges (reading : Reading) (pathsDistinct : (files.map (·.path)).Nodup)
    (perm : files.Perm reordered) :
    (ofExtractor (extract reading) files).graph.edges.Perm (ofExtractor (extract reading) reordered).graph.edges := by
  have distinct : (reordered.map (·.path)).Nodup := (perm.map _).nodup_iff.mp pathsDistinct
  have first := isExact_extract reading pathsDistinct
  have second := isExact_extract reading distinct
  refine (List.perm_ext_iff_of_nodup first.once second.once).mpr fun edge => ?_
  rw [first.edges, second.edges]
  exact ⟨linked_mono perm.subset, linked_mono perm.symm.subset⟩

theorem betweenEntries_of_mem_edges (pathsDistinct : (files.map (·.path)).Nodup) {edge : Edge}
    (leads : edge ∈ (ofExtractor (extract reading) files).graph.edges) : edge.BetweenEntries := by
  rw [(isExact_extract reading pathsDistinct).edges] at leads
  cases leads with
  | defines => exact ⟨fun _ => Node.noConfusion, fun _ => Node.noConfusion⟩
  | fromSymbol => exact ⟨fun _ => Node.noConfusion, fun _ => Node.noConfusion⟩
  | fromFile => exact ⟨fun _ => Node.noConfusion, fun _ => Node.noConfusion⟩
  | includes => exact ⟨fun _ => Node.noConfusion, fun _ => Node.noConfusion⟩

theorem sameNodes (pathsDistinct : (files.map (·.path)).Nodup) (perm : files.Perm reordered) :
    (ofExtractor (extract reading) files).graph.nodes = (ofExtractor (extract reading) reordered).graph.nodes := by
  have distinct : (reordered.map (·.path)).Nodup := (perm.map _).nodup_iff.mp pathsDistinct
  have names : ((ofExtractor (extract reading) files).graph.symbols.map Symbol.name).Perm
      ((ofExtractor (extract reading) reordered).graph.symbols.map Symbol.name) := by
    refine (List.perm_ext_iff_of_nodup (nodup_names_ofExtractor _ _) (nodup_names_ofExtractor _ _)).mpr fun name => ?_
    rw [← Keyed.isSome_find?, ← Keyed.isSome_find?, ← Graph.symbol?, ← Graph.symbol?, isSome_symbol?_ofExtractor,
      isSome_symbol?_ofExtractor]
    exact mem_definedNames_of_perm perm
  have symbols := names.map Node.symbol
  rw [List.map_map, List.map_map] at symbols
  have entry : ∀ {graph : Graph} {node : Node},
      node ∈ graph.files.map SourceFile.node ++ graph.symbols.map Symbol.node → node.IsEntry := by
    intro graph node member
    rcases List.mem_append.mp member with isFile | isSymbol
    · obtain ⟨file, _, rfl⟩ := List.mem_map.mp isFile
      exact fun _ => Node.noConfusion
    · obtain ⟨symbol, _, rfl⟩ := List.mem_map.mp isSymbol
      exact fun _ => Node.noConfusion
  refine mergeSort_eq_of_perm Node.orders_notAfter ?_ fun a aMember b bMember before after => ?_
  · rw [files_ofExtractor pathsDistinct, files_ofExtractor distinct]
    exact (perm.map _).append symbols
  · refine Node.eq_of_text_eq (entry aMember) (entry bMember) ?_
    exact String.le_antisymm (of_decide_eq_true before) (of_decide_eq_true after)

theorem sortedEdges_of_perm (reading : Reading) (pathsDistinct : (files.map (·.path)).Nodup)
    (perm : files.Perm reordered) :
    (ofExtractor (extract reading) files).graph.sortedEdges =
      (ofExtractor (extract reading) reordered).graph.sortedEdges := by
  refine Edge.sorted_eq_of_perm (perm_edges reading pathsDistinct perm)
    (fun _ => betweenEntries_of_mem_edges pathsDistinct) fun a _ b _ keys => ?_
  simpa using keys

theorem edgesFrom_of_perm (reading : Reading) (pathsDistinct : (files.map (·.path)).Nodup)
    (perm : files.Perm reordered) (node : Node) :
    (ofExtractor (extract reading) files).graph.edgesFrom node =
      (ofExtractor (extract reading) reordered).graph.edgesFrom node := by
  refine Edge.sorted_eq_of_perm ((perm_edges reading pathsDistinct perm).filter _)
    (fun _ member => betweenEntries_of_mem_edges pathsDistinct (List.mem_filter.mp member).1)
    fun a aMember b bMember keys => ⟨?_, by simpa using keys⟩
  rw [beq_iff_eq.mp (List.mem_filter.mp aMember).2, beq_iff_eq.mp (List.mem_filter.mp bMember).2]

theorem edgesTo_of_perm (reading : Reading) (pathsDistinct : (files.map (·.path)).Nodup)
    (perm : files.Perm reordered) (node : Node) :
    (ofExtractor (extract reading) files).graph.edgesTo node =
      (ofExtractor (extract reading) reordered).graph.edgesTo node := by
  refine Edge.sorted_eq_of_perm ((perm_edges reading pathsDistinct perm).filter _)
    (fun _ member => betweenEntries_of_mem_edges pathsDistinct (List.mem_filter.mp member).1)
    fun a aMember b bMember keys => ?_
  obtain ⟨src, kind⟩ : a.src.text = b.src.text ∧ a.kind.label = b.kind.label := by simpa using keys
  refine ⟨src, ?_, kind⟩
  rw [beq_iff_eq.mp (List.mem_filter.mp aMember).2, beq_iff_eq.mp (List.mem_filter.mp bMember).2]

theorem rearranged_of_perm (reading : Reading) (pathsDistinct : (files.map (·.path)).Nodup)
    (perm : files.Perm reordered) :
    Rearranged (ofExtractor (extract reading) files) (ofExtractor (extract reading) reordered) := by
  have distinct : (reordered.map (·.path)).Nodup := (perm.map _).nodup_iff.mp pathsDistinct
  have named := empty_not_mem_definedNames reading files
  have named' := empty_not_mem_definedNames reading reordered
  constructor
  case nodes => exact sameNodes pathsDistinct perm
  case edges => exact perm_edges reading pathsDistinct perm
  case sortedEdges => exact sortedEdges_of_perm reading pathsDistinct perm
  case definitions =>
    intro name
    rw [definitionsOf_ofExtractor, definitionsOf_ofExtractor]
    exact perm.flatMap_right _
  case unresolved =>
    rw [(isExact_extract reading pathsDistinct).unresolved, (isExact_extract reading distinct).unresolved,
      unresolvedOf_of_perm perm]
    exact perm.flatMap_right _
  case extractions =>
    rw [extractions_ofExtractor pathsDistinct named, extractions_ofExtractor distinct named']
    exact perm.map _
  case triggerNames =>
    refine eq_of_pairwise_lt (pairwise_sortedSet _) (pairwise_sortedSet _) fun name => ?_
    rw [mem_triggerNames pathsDistinct named, mem_triggerNames distinct named']
    simp only [perm.mem_iff]
  case stringWords =>
    refine eq_of_pairwise_lt (pairwise_sortedSet _) (pairwise_sortedSet _) fun word => ?_
    rw [mem_stringWords pathsDistinct named, mem_stringWords distinct named']
    simp only [perm.mem_iff]

end Build

/-! ## Analyses of the same files -/

namespace Analysis

/-- Two analyses list the same, but for the order of what is unresolved. -/
structure SameListing (first second : Analysis) : Prop where
  usedFiles : first.usedFiles = second.usedFiles
  unusedFiles : first.unusedFiles = second.unusedFiles
  usedSymbols : first.usedSymbols = second.usedSymbols
  unusedSymbols : first.unusedSymbols = second.unusedSymbols
  rootNames : first.rootNames = second.rootNames
  rootFiles : first.rootFiles = second.rootFiles
  unresolved : first.unresolved.Perm second.unresolved

theorem SameListing.assessment {first second : Analysis} (same : SameListing first second) (policy : RiskPolicy) :
    Assessment.ofAnalysis policy first = Assessment.ofAnalysis policy second := by
  rw [Assessment.ofAnalysis, Assessment.ofAnalysis, same.unusedFiles, same.unusedSymbols]

variable {reading : Reading} {files reordered : List SourceFile}

theorem file?_of_perm (reading : Reading) (pathsDistinct : (files.map (·.path)).Nodup)
    (perm : files.Perm reordered) (path : String) :
    (Build.ofExtractor (extract reading) files).graph.file? path =
      (Build.ofExtractor (extract reading) reordered).graph.file? path := by
  have distinct : (reordered.map (·.path)).Nodup := (perm.map _).nodup_iff.mp pathsDistinct
  ext file
  rw [Build.file?_ofExtractor pathsDistinct, Build.file?_ofExtractor distinct, perm.mem_iff]

theorem unusedFile_of_perm (pathsDistinct : (files.map (·.path)).Nodup) (perm : files.Perm reordered)
    (file : SourceFile) :
    unusedFile (Build.ofExtractor (extract reading) files).graph file =
      unusedFile (Build.ofExtractor (extract reading) reordered).graph file := by
  rw [unusedFile, unusedFile, Build.edgesFrom_of_perm reading pathsDistinct perm,
    Build.edgesTo_of_perm reading pathsDistinct perm]

theorem unusedSymbol_of_perm (pathsDistinct : (files.map (·.path)).Nodup) (perm : files.Perm reordered)
    {stringWords : List String} {name : String} {symbol other : Symbol}
    (found : (Build.ofExtractor (extract reading) files).graph.symbol? name = some symbol)
    (otherFound : (Build.ofExtractor (extract reading) reordered).graph.symbol? name = some other) :
    unusedSymbol (Build.ofExtractor (extract reading) files).graph stringWords symbol =
      unusedSymbol (Build.ofExtractor (extract reading) reordered).graph stringWords other := by
  have sameName : symbol.name = other.name :=
    (Graph.symbol?_name found).trans (Graph.symbol?_name otherFound).symm
  have owners : ownerKind (Build.ofExtractor (extract reading) files).graph =
      ownerKind (Build.ofExtractor (extract reading) reordered).graph := by
    funext path
    rw [ownerKind, ownerKind, file?_of_perm reading pathsDistinct perm]
  have perms := (Build.rearranged_of_perm reading pathsDistinct perm).definitions name
  have ties := Build.filter_tied_definitionsOf reading pathsDistinct perm name
  rw [Graph.definitionsOf_of_symbol? found, Graph.definitionsOf_of_symbol? otherFound] at perms
  simp only [Graph.definitionsOf_of_symbol? found, Graph.definitionsOf_of_symbol? otherFound] at ties
  have definingFiles : symbol.definingFiles = other.definingFiles :=
    sortedSet_congr fun path => (perms.map _).mem_iff
  have sorted := mergeSort_eq_of_filter_tied orders_definitionNotAfter ties
  rw [unusedSymbol, unusedSymbol, owners, definingFiles, sameName, sorted]

theorem graph_within_of_perm (pathsDistinct : (files.map (·.path)).Nodup) (perm : files.Perm reordered) :
    (Build.ofExtractor (extract reading) files).graph.Within (Build.ofExtractor (extract reading) reordered).graph where
  files path present := file?_of_perm reading pathsDistinct perm path ▸ present
  symbols name present := by
    rw [Build.isSome_symbol?_ofExtractor] at present ⊢
    exact (Build.mem_definedNames_of_perm perm).mp present
  definitions name := ((Build.rearranged_of_perm reading pathsDistinct perm).definitions name).subset
  edges := (Build.perm_edges reading pathsDistinct perm).subset

theorem rootsOf_of_perm {settings : Settings} (patterns : List Pattern) (pathsDistinct : (files.map (·.path)).Nodup)
    (perm : files.Perm reordered) : rootsOf settings patterns files = rootsOf settings patterns reordered := by
  rw [rootsOf, rootsOf, (Build.rearranged_of_perm settings.reading pathsDistinct perm).triggerNames]

theorem reached_iff_of_perm {roots : Roots} (pathsDistinct : (files.map (·.path)).Nodup) (perm : files.Perm reordered)
    {node : Node} {mode : Mode} :
    Graph.Reached (Build.ofExtractor (extract reading) files).graph roots node mode ↔
      Graph.Reached (Build.ofExtractor (extract reading) reordered).graph roots node mode := by
  have distinct : (reordered.map (·.path)).Nodup := (perm.map _).nodup_iff.mp pathsDistinct
  have same : roots.Within roots := ⟨List.Subset.refl _, List.Subset.refl _, List.Subset.refl _⟩
  exact ⟨fun live => live.mono (graph_within_of_perm pathsDistinct perm) same,
    fun live => live.mono (graph_within_of_perm distinct perm.symm) same⟩

theorem isSome_symbol?_of_perm (perm : files.Perm reordered) (name : String) :
    ((Build.ofExtractor (extract reading) files).graph.symbol? name).isSome ↔
      ((Build.ofExtractor (extract reading) reordered).graph.symbol? name).isSome := by
  rw [Build.isSome_symbol?_ofExtractor, Build.isSome_symbol?_ofExtractor, Build.mem_definedNames_of_perm perm]

theorem names_of_perm (perm : files.Perm reordered) :
    (Build.ofExtractor (extract reading) files).graph.names =
      (Build.ofExtractor (extract reading) reordered).graph.names := by
  refine eq_of_pairwise_lt (pairwise_sortedSet _) (pairwise_sortedSet _) fun name => ?_
  exact Graph.mem_names.trans ((isSome_symbol?_of_perm perm name).trans Graph.mem_names.symm)

variable {roots : Roots} {first second : Analysis}

theorem rootPaths_of_perm (pathsDistinct : (files.map (·.path)).Nodup) (perm : files.Perm reordered) :
    (Build.ofExtractor (extract reading) files).graph.rootPaths roots =
      (Build.ofExtractor (extract reading) reordered).graph.rootPaths roots := by
  have distinct : (reordered.map (·.path)).Nodup := (perm.map _).nodup_iff.mp pathsDistinct
  refine eq_of_pairwise_lt (pairwise_sortedSet _) (pairwise_sortedSet _) fun path => ?_
  exact ⟨fun listed => Graph.rootPaths_subset (graph_within_of_perm pathsDistinct perm) listed,
    fun listed => Graph.rootPaths_subset (graph_within_of_perm distinct perm.symm) listed⟩

theorem sameListing_of_perm (pathsDistinct : (files.map (·.path)).Nodup) (perm : files.Perm reordered)
    (firstRun : ofBuild (Build.ofExtractor (extract reading) files) roots = .ok first)
    (secondRun : ofBuild (Build.ofExtractor (extract reading) reordered) roots = .ok second) :
    SameListing first second := by
  have rearranged := Build.rearranged_of_perm reading pathsDistinct perm
  have firstDivides := divides_of_ofGraph_eq_ok firstRun
  have secondDivides := divides_of_ofGraph_eq_ok secondRun
  have sameLive : ∀ node, (∃ mode, Graph.Reached (Build.ofExtractor (extract reading) files).graph roots node mode) ↔
      ∃ mode, Graph.Reached (Build.ofExtractor (extract reading) reordered).graph roots node mode :=
    fun node => exists_congr fun mode => reached_iff_of_perm pathsDistinct perm
  constructor
  case usedFiles =>
    refine eq_of_pairwise_lt firstDivides.usedFiles_sorted secondDivides.usedFiles_sorted fun path => ?_
    rw [firstDivides.mem_usedFiles, secondDivides.mem_usedFiles, file?_of_perm reading pathsDistinct perm, sameLive]
  case unusedFiles =>
    refine eq_of_pairwise_key_lt firstDivides.unusedFiles_sorted secondDivides.unusedFiles_sorted (fun path => ?_) ?_
    · rw [firstDivides.mem_unusedFiles, secondDivides.mem_unusedFiles, file?_of_perm reading pathsDistinct perm, sameLive]
    · intro row listed other otherListed samePath
      obtain ⟨file, found, rfl⟩ := unusedFile_of_mem firstRun listed
      obtain ⟨home, otherFound, rfl⟩ := unusedFile_of_mem secondRun otherListed
      rw [← samePath, ← file?_of_perm reading pathsDistinct perm, found] at otherFound
      rw [← Option.some.inj otherFound, unusedFile_of_perm pathsDistinct perm]
  case usedSymbols =>
    refine eq_of_pairwise_lt firstDivides.usedSymbols_sorted secondDivides.usedSymbols_sorted fun name => ?_
    rw [firstDivides.mem_usedSymbols, secondDivides.mem_usedSymbols, isSome_symbol?_of_perm perm, sameLive]
  case unusedSymbols =>
    refine eq_of_pairwise_key_lt firstDivides.unusedSymbols_sorted secondDivides.unusedSymbols_sorted (fun name => ?_) ?_
    · rw [firstDivides.mem_unusedSymbols, secondDivides.mem_unusedSymbols, isSome_symbol?_of_perm perm, sameLive]
    · intro row listed other otherListed sameName
      obtain ⟨symbol, found, symbolRun⟩ := unusedSymbol_of_mem firstRun listed
      obtain ⟨again, otherFound, otherRun⟩ := unusedSymbol_of_mem secondRun otherListed
      rw [← sameName] at otherFound
      rw [unusedSymbol_of_perm pathsDistinct perm found otherFound, rearranged.stringWords, otherRun] at symbolRun
      exact (Except.ok.inj symbolRun).symm
  case rootNames =>
    obtain ⟨_, _, rfl⟩ := ofGraph_eq_ok_iff.mp firstRun
    obtain ⟨_, _, rfl⟩ := ofGraph_eq_ok_iff.mp secondRun
    rw [withUnusedSymbols, withUnusedSymbols, Graph.rootNames, Graph.rootNames, names_of_perm perm]
  case rootFiles =>
    obtain ⟨_, _, rfl⟩ := ofGraph_eq_ok_iff.mp firstRun
    obtain ⟨_, _, rfl⟩ := ofGraph_eq_ok_iff.mp secondRun
    exact rootPaths_of_perm pathsDistinct perm
  case unresolved =>
    obtain ⟨_, _, rfl⟩ := ofGraph_eq_ok_iff.mp firstRun
    obtain ⟨_, _, rfl⟩ := ofGraph_eq_ok_iff.mp secondRun
    exact rearranged.unresolved

end Analysis

/-- The order of files does not matter: they are built alike, listed alike, rated alike, and the same is planned at every
threshold. Only a protected pattern that cannot be read stops an analysis, in whatever order the files come. -/
theorem analyzeFiles_eq_of_perm (settings : Settings) (files reordered : List SourceFile)
    (pathsDistinct : (files.map (·.path)).Nodup) (perm : files.Perm reordered) :
    Build.Rearranged (Build.ofExtractor (extract settings.reading) files)
        (Build.ofExtractor (extract settings.reading) reordered) ∧
      (∀ error, settings.protectedPatterns.mapM Pattern.ofString = .error error →
        analyzeFiles settings files = .error (.pattern error) ∧
          analyzeFiles settings reordered = .error (.pattern error)) ∧
      ∀ patterns, settings.protectedPatterns.mapM Pattern.ofString = .ok patterns →
        ∃ first second, analyzeFiles settings files = .ok first ∧ analyzeFiles settings reordered = .ok second ∧
          Analysis.SameListing first second ∧
          Assessment.ofAnalysis settings.riskPolicy first = Assessment.ofAnalysis settings.riskPolicy second ∧
          ∀ threshold, Plan.ofAssessment threshold (Assessment.ofAnalysis settings.riskPolicy first) =
            Plan.ofAssessment threshold (Assessment.ofAnalysis settings.riskPolicy second) := by
  refine ⟨Build.rearranged_of_perm settings.reading pathsDistinct perm,
    fun error unread => ⟨analyzeFiles_of_unread unread, analyzeFiles_of_unread unread⟩, fun patterns read => ?_⟩
  obtain ⟨first, firstRun, firstBuild⟩ := exists_analyzeFiles_eq_ok read files
  obtain ⟨second, secondRun, secondBuild⟩ := exists_analyzeFiles_eq_ok read reordered
  rw [← Analysis.rootsOf_of_perm patterns pathsDistinct perm] at secondBuild
  have listing := Analysis.sameListing_of_perm pathsDistinct perm firstBuild secondBuild
  have ratings := listing.assessment settings.riskPolicy
  exact ⟨first, second, firstRun, secondRun, listing, ratings, fun threshold => by rw [ratings]⟩

theorem initFile_and_callingPage_in_either_order :
    ([Plan.initFile, callingPage].map (·.path)).Nodup ∧ [Plan.initFile, callingPage].Perm [callingPage, Plan.initFile] ∧
      ∃ first second, analyzeFiles {} [Plan.initFile, callingPage] = .ok first ∧
        analyzeFiles {} [callingPage, Plan.initFile] = .ok second ∧ Analysis.SameListing first second := by
  have pathsDistinct : ([Plan.initFile, callingPage].map (·.path)).Nodup := by decide
  have perm : [Plan.initFile, callingPage].Perm [callingPage, Plan.initFile] := List.Perm.swap callingPage Plan.initFile []
  obtain ⟨patterns, read⟩ : ∃ patterns, ({} : Settings).protectedPatterns.mapM Pattern.ofString = .ok patterns :=
    ⟨_, rfl⟩
  obtain ⟨first, second, firstRun, secondRun, listing, _⟩ :=
    (analyzeFiles_eq_of_perm {} _ _ pathsDistinct perm).2.2 patterns read
  exact ⟨pathsDistinct, perm, first, second, firstRun, secondRun, listing⟩

end Deadwood
