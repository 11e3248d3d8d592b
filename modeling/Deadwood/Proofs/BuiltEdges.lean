import Mathlib.Data.List.TakeWhile
import Deadwood.Proofs.BuiltGraph

/-!
# The edges of a built graph

Building keeps a ledger: every step proposes edges and lists what it could not resolve. What a file proposes while it is
resolved is read off the table of names alone, and entering has completed that table, so the order of files does not
matter. The edges of a built graph are then the proposed ones that do not lead from a node to itself.
-/

set_option autoImplicit false
namespace Deadwood

open Source

/-! ## Adding edges -/

namespace Graph

variable {graph : Graph} {edge other : Edge}

theorem mem_edges_addEdge :
    other ∈ (graph.addEdge edge).edges ↔ other ∈ graph.edges ∨ other = edge ∧ edge.src ≠ edge.dst := by
  unfold addEdge accepts
  by_cases loop : edge.src = edge.dst
  · simp [loop]
  · by_cases known : edge ∈ graph.edges
    · simp only [known, List.contains_eq_mem, decide_true, Bool.not_true, Bool.and_false, Bool.false_eq_true,
        if_false]
      constructor
      · exact Or.inl
      · rintro (old | ⟨rfl, _⟩)
        · exact old
        · exact known
    · simp [loop, known]

theorem nodup_edges_addEdge (once : graph.edges.Nodup) : (graph.addEdge edge).edges.Nodup := by
  unfold addEdge accepts
  split
  case isTrue accepted =>
    have fresh : edge ∉ graph.edges := by
      intro known
      simp [known] at accepted
    refine List.nodup_append.mpr ⟨once, List.pairwise_singleton _ edge, ?_⟩
    intro old member new listed same
    rw [List.mem_singleton.mp listed] at same
    exact fresh (same ▸ member)
  case isFalse => exact once

theorem mem_edges_foldl_addEdge (edges : List Edge) :
    other ∈ (edges.foldl addEdge graph).edges ↔ other ∈ graph.edges ∨ other ∈ edges ∧ other.src ≠ other.dst := by
  induction edges generalizing graph with
  | nil => simp
  | cons edge rest ih =>
      rw [List.foldl_cons, ih, mem_edges_addEdge, List.mem_cons]
      constructor
      · rintro ((old | ⟨rfl, proper⟩) | ⟨later, proper⟩)
        · exact Or.inl old
        · exact Or.inr ⟨Or.inl rfl, proper⟩
        · exact Or.inr ⟨Or.inr later, proper⟩
      · rintro (old | ⟨rfl | later, proper⟩)
        · exact Or.inl (Or.inl old)
        · exact Or.inl (Or.inr ⟨rfl, proper⟩)
        · exact Or.inr ⟨later, proper⟩

theorem nodup_edges_foldl_addEdge (edges : List Edge) (once : graph.edges.Nodup) :
    (edges.foldl addEdge graph).edges.Nodup := by
  induction edges generalizing graph with
  | nil => exact once
  | cons edge rest ih => exact ih (nodup_edges_addEdge once)

theorem sameTables_foldl_addEdge (edges : List Edge) : SameTables (edges.foldl addEdge graph) graph := by
  induction edges generalizing graph with
  | nil => exact SameTables.refl graph
  | cons edge rest ih => exact ih.trans sameTables_addEdge

end Graph

namespace Build

variable {extractor : SourceFile → Extraction} {files : List SourceFile}

/-! ## Entering -/

def definedNames (extractor : SourceFile → Extraction) (files : List SourceFile) : List String :=
  files.flatMap fun file => (extractor file).definitions.map (·.name)

theorem mem_definedNames {name : String} :
    name ∈ definedNames extractor files ↔
      ∃ file ∈ files, ∃ definition ∈ (extractor file).definitions, definition.name = name := by
  simp [definedNames]

def definingEdges (extractor : SourceFile → Extraction) (file : SourceFile) : List Edge :=
  (extractor file).definitions.map fun definition => ⟨.file file.path, .symbol definition.name, .defines⟩

theorem edges_enterDefinition (path : String) (graph : Graph) (definition : Definition) :
    (enterDefinition path graph definition).edges =
      (graph.addEdge ⟨.file path, .symbol definition.name, .defines⟩).edges := by
  unfold enterDefinition Graph.addEdge Graph.accepts Graph.addSymbol
  split <;> simp_all

theorem mem_edges_foldl_enterDefinition {path : String} {graph : Graph} {edge : Edge} (definitions : List Definition) :
    edge ∈ (definitions.foldl (enterDefinition path) graph).edges ↔
      edge ∈ graph.edges ∨ ∃ definition ∈ definitions, edge = ⟨.file path, .symbol definition.name, .defines⟩ := by
  induction definitions generalizing graph with
  | nil => simp
  | cons definition rest ih =>
      rw [List.foldl_cons, ih, edges_enterDefinition, Graph.mem_edges_addEdge]
      simp [or_assoc]

theorem nodup_edges_foldl_enterDefinition {path : String} {graph : Graph} (definitions : List Definition)
    (once : graph.edges.Nodup) : (definitions.foldl (enterDefinition path) graph).edges.Nodup := by
  induction definitions generalizing graph with
  | nil => exact once
  | cons definition rest ih =>
      apply ih
      rw [edges_enterDefinition]
      exact Graph.nodup_edges_addEdge once

theorem mem_edges_foldl_enter {build : Build} {edge : Edge} (files : List SourceFile) :
    edge ∈ (files.foldl (enter extractor) build).graph.edges ↔
      edge ∈ build.graph.edges ∨ ∃ file ∈ files, edge ∈ definingEdges extractor file := by
  induction files generalizing build with
  | nil => simp
  | cons file rest ih =>
      have entered : edge ∈ (enter extractor build file).graph.edges ↔
          edge ∈ build.graph.edges ∨ edge ∈ definingEdges extractor file := by
        rw [enter, mem_edges_foldl_enterDefinition]
        simp [definingEdges, Graph.addFile, eq_comm]
      rw [List.foldl_cons, ih, entered, List.exists_mem_cons_iff, or_assoc]

theorem nodup_edges_foldl_enter {build : Build} (files : List SourceFile) (once : build.graph.edges.Nodup) :
    (files.foldl (enter extractor) build).graph.edges.Nodup := by
  induction files generalizing build with
  | nil => exact once
  | cons file rest ih => exact ih (nodup_edges_foldl_enterDefinition _ once)

theorem unresolved_foldl_enter {build : Build} (files : List SourceFile) :
    (files.foldl (enter extractor) build).unresolved = build.unresolved := by
  induction files generalizing build with
  | nil => rfl
  | cons file rest ih => exact ih

theorem isSome_symbol?_enterDefinition {path : String} {graph : Graph} {definition : Definition} {name : String} :
    ((enterDefinition path graph definition).symbol? name).isSome ↔
      (graph.symbol? name).isSome ∨ definition.name = name := by
  have symbolName : ((graph.symbol? definition.name).getD ⟨definition.name, []⟩).name = definition.name := by
    cases found : graph.symbol? definition.name with
    | none => rfl
    | some symbol => exact Graph.symbol?_name found
  rw [enterDefinition, Graph.symbol?, Graph.sameTables_addEdge.symbols, Graph.addSymbol, Keyed.isSome_find?_put]
  exact or_congr Iff.rfl (by rw [symbolName])

theorem isSome_symbol?_foldl_enterDefinition {path : String} {graph : Graph} {name : String}
    (definitions : List Definition) :
    ((definitions.foldl (enterDefinition path) graph).symbol? name).isSome ↔
      (graph.symbol? name).isSome ∨ ∃ definition ∈ definitions, definition.name = name := by
  induction definitions generalizing graph with
  | nil => simp
  | cons definition rest ih =>
      rw [List.foldl_cons, ih, isSome_symbol?_enterDefinition, List.exists_mem_cons_iff, or_assoc]

theorem isSome_symbol?_foldl_enter {build : Build} {name : String} (files : List SourceFile) :
    ((files.foldl (enter extractor) build).graph.symbol? name).isSome ↔
      (build.graph.symbol? name).isSome ∨ name ∈ definedNames extractor files := by
  rw [mem_definedNames]
  induction files generalizing build with
  | nil => simp
  | cons file rest ih =>
      have entered : ((enter extractor build file).graph.symbol? name).isSome ↔
          (build.graph.symbol? name).isSome ∨ ∃ definition ∈ (extractor file).definitions, definition.name = name := by
        rw [enter, isSome_symbol?_foldl_enterDefinition]
        rfl
      rw [List.foldl_cons, ih, entered, List.exists_mem_cons_iff, or_assoc]

theorem find?_extractions_foldl_enter_of_not_mem {build : Build} {path : String} (files : List SourceFile)
    (elsewhere : path ∉ files.map (·.path)) :
    Keyed.find? Extraction.path path (files.foldl (enter extractor) build).extractions =
      Keyed.find? Extraction.path path build.extractions := by
  induction files generalizing build with
  | nil => rfl
  | cons file rest ih =>
      rw [List.map_cons, List.mem_cons, not_or] at elsewhere
      rw [List.foldl_cons, ih elsewhere.2]
      exact Keyed.find?_put_of_ne _ _ _ _ elsewhere.1

/-- What is read off a file stands under its path when all are entered. -/
theorem find?_extractions_foldl_enter {build : Build} (pathsDistinct : (files.map (·.path)).Nodup) {file : SourceFile}
    (listed : file ∈ files) :
    Keyed.find? Extraction.path file.path (files.foldl (enter extractor) build).extractions =
      some { extractor file with path := file.path } := by
  induction files generalizing build with
  | nil => cases listed
  | cons first rest ih =>
      rw [List.map_cons, List.nodup_cons] at pathsDistinct
      rw [List.foldl_cons]
      rcases List.mem_cons.mp listed with rfl | later
      · rw [find?_extractions_foldl_enter_of_not_mem rest pathsDistinct.1]
        exact Keyed.find?_put_self Extraction.path { extractor file with path := file.path } build.extractions
      · exact ih pathsDistinct.2 later

/-! ## Includes -/

def Answers (path target : String) : Prop :=
  includeKey target = includeKey (baseName path) ∨
    ∃ stem extension : String,
      path = stem ++ "." ++ extension ∧ '.' ∉ extension.toList ∧ includeKey target = includeKey stem

theorem stem?_eq_some_iff {path stem : String} :
    stem? path = some stem ↔ ∃ extension : String, path = stem ++ "." ++ extension ∧ '.' ∉ extension.toList := by
  constructor
  · intro found
    unfold stem? at found
    split at found
    case h_1 => cases found
    case h_2 dot reversed tail =>
      have isDot : dot = '.' := by
        have stopped := List.head_dropWhile_not (· != '.') (l := path.toList.reverse) (by simp [tail])
        simpa [tail] using stopped
      subst isDot
      obtain ⟨ending, isEnding⟩ : ∃ ending, ending = path.toList.reverse.takeWhile (· != '.') := ⟨_, rfl⟩
      have parts : ending ++ '.' :: reversed = path.toList.reverse := by
        rw [isEnding, ← tail, List.takeWhile_append_dropWhile]
      refine ⟨String.ofList ending.reverse, ?_, ?_⟩
      · apply String.toList_injective
        rw [← List.reverse_inj, ← parts, ← Option.some.inj found]
        simp
      · intro member
        have inEnding : '.' ∈ ending := by simpa using member
        rw [isEnding] at inEnding
        simpa using List.mem_takeWhile_imp inEnding
  · rintro ⟨extension, rfl, last⟩
    have passed : ∀ c ∈ extension.toList.reverse, (c != '.') = true := by
      intro c member
      simp only [bne_iff_ne]
      rintro rfl
      exact last (List.mem_reverse.mp member)
    have tail : (stem ++ "." ++ extension).toList.reverse.dropWhile (· != '.') = '.' :: stem.toList.reverse := by
      simp [List.dropWhile_append_of_pos passed]
    rw [stem?, tail]
    simp

theorem mem_includeKeys_iff_answers {path target : String} :
    includeKey target ∈ includeKeys path ↔ Answers path target := by
  simp only [includeKeys, Answers, List.mem_cons, Option.mem_toList, Option.map_eq_some_iff, stem?_eq_some_iff]
  refine or_congr Iff.rfl ⟨?_, ?_⟩
  · rintro ⟨stem, ⟨extension, shape, last⟩, same⟩
    exact ⟨stem, extension, shape, last, same.symm⟩
  · rintro ⟨stem, extension, shape, last, same⟩
    exact ⟨stem, ⟨extension, shape, last⟩, same.symm⟩

instance (path target : String) : Decidable (Answers path target) :=
  decidable_of_iff _ mem_includeKeys_iff_answers

theorem mem_includeTargets {target path : String} :
    path ∈ includeTargets files target ↔ ∃ file ∈ files, Answers file.path target ∧ file.path = path := by
  simp [includeTargets, mem_includeKeys_iff_answers, and_assoc]

/-! ## Resolving -/

structure Resolves (edges : List Edge) (unresolved : List Unresolved) (before after : Build) : Prop where
  graph : after.graph = edges.foldl Graph.addEdge before.graph
  unresolved : after.unresolved = before.unresolved ++ unresolved
  extractions : after.extractions = before.extractions

namespace Resolves

variable {edges moreEdges : List Edge} {unresolved moreUnresolved : List Unresolved} {before between after : Build}

theorem refl (build : Build) : Resolves [] [] build build :=
  ⟨rfl, (List.append_nil _).symm, rfl⟩

theorem trans (first : Resolves edges unresolved before between)
    (second : Resolves moreEdges moreUnresolved between after) :
    Resolves (edges ++ moreEdges) (unresolved ++ moreUnresolved) before after where
  graph := by rw [second.graph, first.graph, List.foldl_append]
  unresolved := by rw [second.unresolved, first.unresolved, List.append_assoc]
  extractions := second.extractions.trans first.extractions

theorem sameTables (step : Resolves edges unresolved before after) : Graph.SameTables after.graph before.graph :=
  step.graph ▸ Graph.sameTables_foldl_addEdge edges

end Resolves

/-- Steps whose proposals depend on no more than the tables and what was read propose the same in a run. -/
theorem resolves_foldl {α : Type} {step : Build → α → Build} {edges : α → List Edge} {unresolved : α → List Unresolved}
    (entered : Build) (items : List α)
    (each : ∀ item ∈ items, ∀ build : Build, Graph.SameTables build.graph entered.graph →
      build.extractions = entered.extractions → Resolves (edges item) (unresolved item) build (step build item))
    {build : Build} (tables : Graph.SameTables build.graph entered.graph)
    (readings : build.extractions = entered.extractions) :
    Resolves (items.flatMap edges) (items.flatMap unresolved) build (items.foldl step build) := by
  induction items generalizing build with
  | nil => exact Resolves.refl build
  | cons item rest ih =>
      have first := each item List.mem_cons_self build tables readings
      have later := ih (fun other member => each other (List.mem_cons_of_mem item member))
        (first.sameTables.trans tables) (first.extractions.trans readings)
      exact first.trans later

def mentionSource (extractor : SourceFile → Extraction) (files : List SourceFile) (path : String) (mention : Mention) :
    Node :=
  match mention.enclosing with
  | some name => if name ∈ definedNames extractor files then .symbol name else .file path
  | none => .file path

def mentionEdges (extractor : SourceFile → Extraction) (files : List SourceFile) (path : String) (mention : Mention) :
    List Edge :=
  if mention.name ∈ definedNames extractor files then
    [⟨mentionSource extractor files path mention, .symbol mention.name, .references⟩]
  else []

def unresolvedMentions (extractor : SourceFile → Extraction) (files : List SourceFile) (path : String)
    (mention : Mention) : List Unresolved :=
  if mention.name ∉ definedNames extractor files ∧ mention.kind ≠ .memberCall then
    [⟨path, mention.name, mention.line, mention.kind⟩]
  else []

def includeEdges (files : List SourceFile) (path target : String) : List Edge :=
  (includeTargets files target).map fun other => ⟨.file path, .file other, .includes⟩

def unresolvedIncludes (files : List SourceFile) (path target : String) : List Unresolved :=
  if ∃ file ∈ files, Answers file.path target then [] else [⟨path, target, 0, .inclusion⟩]

def resolvedEdges (extractor : SourceFile → Extraction) (files : List SourceFile) (file : SourceFile) : List Edge :=
  (extractor file).mentions.flatMap (mentionEdges extractor files file.path) ++
    (extractor file).includes.flatMap (includeEdges files file.path)

/-- What stays unresolved of a file: its mentions before its includes, each as often as it is read. -/
def unresolvedOf (extractor : SourceFile → Extraction) (files : List SourceFile) (file : SourceFile) :
    List Unresolved :=
  (extractor file).mentions.flatMap (unresolvedMentions extractor files file.path) ++
    (extractor file).includes.flatMap (unresolvedIncludes files file.path)

/-- The tables hold the defined names, and no definition has the empty name. -/
structure Complete (extractor : SourceFile → Extraction) (files : List SourceFile) (graph : Graph) : Prop where
  symbols : ∀ name, (graph.symbol? name).isSome ↔ name ∈ definedNames extractor files
  named : "" ∉ definedNames extractor files

theorem Complete.of_sameTables {first second : Graph} (complete : Complete extractor files second)
    (same : Graph.SameTables first second) : Complete extractor files first where
  symbols name := by
    rw [← complete.symbols name, Graph.symbol?, Graph.symbol?, same.symbols]
  named := complete.named

theorem resolves_resolveMention {build : Build} (complete : Complete extractor files build.graph) (path : String)
    (mention : Mention) :
    Resolves (mentionEdges extractor files path mention) (unresolvedMentions extractor files path mention) build
      (resolveMention path build mention) := by
  unfold resolveMention mentionEdges unresolvedMentions
  by_cases defined : mention.name ∈ definedNames extractor files
  · rw [if_pos ((complete.symbols _).mpr defined), if_pos defined, if_neg (fun undefined => undefined.1 defined)]
    refine ⟨?_, (List.append_nil _).symm, rfl⟩
    have sameSource : (match mention.enclosing with
        | some name => if name ≠ "" && (build.graph.symbol? name).isSome then Node.symbol name else .file path
        | none => .file path) = mentionSource extractor files path mention := by
      unfold mentionSource
      cases mention.enclosing with
      | none => rfl
      | some name =>
          by_cases around : name ∈ definedNames extractor files
          · have nonempty : name ≠ "" := fun empty => complete.named (empty ▸ around)
            simp [around, nonempty, (complete.symbols name).mpr around]
          · have unknown : ¬(build.graph.symbol? name).isSome := fun known =>
              around ((complete.symbols name).mp known)
            simp [around, unknown]
    exact congrArg (fun source => build.graph.addEdge ⟨source, .symbol mention.name, .references⟩) sameSource
  · rw [if_neg (fun known => defined ((complete.symbols _).mp known)), if_neg defined]
    by_cases member : mention.kind = .memberCall
    · simpa [member] using Resolves.refl build
    · rw [if_neg member, if_pos ⟨defined, member⟩]
      exact ⟨rfl, rfl, rfl⟩

theorem resolves_resolveInclude (files : List SourceFile) (path : String) (build : Build) (target : String) :
    Resolves (includeEdges files path target) (unresolvedIncludes files path target) build
      (resolveInclude files path build target) := by
  unfold resolveInclude
  split
  case h_1 none =>
    have unanswered : ¬∃ file ∈ files, Answers file.path target := by
      rintro ⟨file, listed, answers⟩
      have found : file.path ∈ includeTargets files target := mem_includeTargets.mpr ⟨file, listed, answers, rfl⟩
      rw [none] at found
      cases found
    rw [includeEdges, none, unresolvedIncludes, if_neg unanswered]
    exact ⟨rfl, rfl, rfl⟩
  case h_2 nonempty =>
    obtain ⟨other, found⟩ := List.exists_mem_of_ne_nil _ nonempty
    obtain ⟨file, listed, answers, _⟩ := mem_includeTargets.mp found
    rw [includeEdges, unresolvedIncludes, if_pos ⟨file, listed, answers⟩]
    exact ⟨(List.foldl_map ..).symm, (List.append_nil _).symm, rfl⟩

theorem resolves_resolve {build : Build} (complete : Complete extractor files build.graph) {file : SourceFile}
    (readOff : Keyed.find? Extraction.path file.path build.extractions =
      some { extractor file with path := file.path }) :
    Resolves (resolvedEdges extractor files file) (unresolvedOf extractor files file) build
      (resolve files build file) := by
  rw [resolve, readOff]
  have mentions := resolves_foldl build (extractor file).mentions
    (fun mention _ between same _ => resolves_resolveMention (complete.of_sameTables same) file.path mention)
    (Graph.SameTables.refl _) rfl
  have includes := resolves_foldl ((extractor file).mentions.foldl (resolveMention file.path) build)
    (extractor file).includes
    (fun target _ between _ _ => resolves_resolveInclude files file.path between target)
    (Graph.SameTables.refl _) rfl
  exact mentions.trans includes

/-- A step that keeps an edge keeps it in a run. -/
theorem mem_edges_foldl {α : Type} {step : Build → α → Build} {edge : Edge}
    (keeps : ∀ (build : Build) (item : α), edge ∈ build.graph.edges → edge ∈ (step build item).graph.edges)
    (items : List α) {build : Build} (known : edge ∈ build.graph.edges) :
    edge ∈ (items.foldl step build).graph.edges := by
  induction items generalizing build with
  | nil => exact known
  | cons item rest ih => exact ih (keeps build item known)

theorem mem_edges_resolve {build : Build} {file : SourceFile} {edge : Edge} (known : edge ∈ build.graph.edges) :
    edge ∈ (resolve files build file).graph.edges := by
  have mentions : ∀ (build : Build) (mention : Mention), edge ∈ build.graph.edges →
      edge ∈ (resolveMention file.path build mention).graph.edges := by
    intro build mention known
    unfold resolveMention
    split
    · exact Graph.mem_edges_addEdge.mpr (Or.inl known)
    · split <;> exact known
  have includes : ∀ (build : Build) (target : String), edge ∈ build.graph.edges →
      edge ∈ (resolveInclude files file.path build target).graph.edges := by
    intro build target known
    rw [(resolves_resolveInclude files file.path build target).graph]
    exact Graph.mem_edges_foldl_addEdge _ |>.mpr (Or.inl known)
  unfold resolve
  split
  · exact mem_edges_foldl includes _ (mem_edges_foldl mentions _ known)
  · exact known

/-- A file leads to what it defines, whether or not it is the only one at its path. -/
theorem defines_mem_edges {file : SourceFile} {definition : Definition} (listed : file ∈ files)
    (defines : definition ∈ (extractor file).definitions) :
    ⟨.file file.path, .symbol definition.name, .defines⟩ ∈ (ofExtractor extractor files).graph.edges := by
  refine mem_edges_foldl (fun _ _ => mem_edges_resolve) files ?_
  exact (mem_edges_foldl_enter files).mpr (Or.inr ⟨file, listed, List.mem_map.mpr ⟨definition, defines, rfl⟩⟩)

/-- A build is its entered files with all that resolving proposes. -/
theorem resolves_ofExtractor (pathsDistinct : (files.map (·.path)).Nodup) (named : "" ∉ definedNames extractor files) :
    Resolves (files.flatMap (resolvedEdges extractor files)) (files.flatMap (unresolvedOf extractor files))
      (files.foldl (enter extractor) {}) (ofExtractor extractor files) := by
  have complete : Complete extractor files (files.foldl (enter extractor) {}).graph := by
    refine ⟨fun name => ?_, named⟩
    rw [isSome_symbol?_foldl_enter]
    simp [Graph.symbol?, Keyed.find?]
  refine resolves_foldl _ files (fun file listed build same readings => ?_) (Graph.SameTables.refl _) rfl
  refine resolves_resolve (complete.of_sameTables same) ?_
  rw [readings]
  exact find?_extractions_foldl_enter pathsDistinct listed

theorem foldl_congr {α : Type} {first second : Build → α → Build} {items : List α}
    (same : ∀ item ∈ items, ∀ build, first build item = second build item) (build : Build) :
    items.foldl first build = items.foldl second build := by
  induction items generalizing build with
  | nil => rfl
  | cons item rest ih =>
      rw [List.foldl_cons, List.foldl_cons, same item List.mem_cons_self]
      exact ih (fun other member => same other (List.mem_cons_of_mem item member)) _

theorem ofExtractor_congr {other : SourceFile → Extraction} (same : ∀ file ∈ files, extractor file = other file) :
    ofExtractor extractor files = ofExtractor other files := by
  have entered := foldl_congr (fun file listed build => show enter extractor build file = enter other build file by
    rw [enter, enter, same file listed]) {}
  rw [ofExtractor, ofExtractor, entered]

/-! ## The edges -/

inductive Linked (extractor : SourceFile → Extraction) (files : List SourceFile) : Edge → Prop
  | defines {file : SourceFile} {definition : Definition} (listed : file ∈ files)
      (defines : definition ∈ (extractor file).definitions) :
      Linked extractor files ⟨.file file.path, .symbol definition.name, .defines⟩
  | fromSymbol {file : SourceFile} {mention : Mention} {name : String} (listed : file ∈ files)
      (mentions : mention ∈ (extractor file).mentions) (defined : mention.name ∈ definedNames extractor files)
      (around : mention.enclosing = some name) (aroundDefined : name ∈ definedNames extractor files)
      (differs : name ≠ mention.name) :
      Linked extractor files ⟨.symbol name, .symbol mention.name, .references⟩
  | fromFile {file : SourceFile} {mention : Mention} (listed : file ∈ files)
      (mentions : mention ∈ (extractor file).mentions) (defined : mention.name ∈ definedNames extractor files)
      (outside : ∀ name, mention.enclosing = some name → name ∉ definedNames extractor files) :
      Linked extractor files ⟨.file file.path, .symbol mention.name, .references⟩
  | includes {file other : SourceFile} {target : String} (listed : file ∈ files) (otherListed : other ∈ files)
      (includes : target ∈ (extractor file).includes) (answers : Answers other.path target)
      (differs : file.path ≠ other.path) :
      Linked extractor files ⟨.file file.path, .file other.path, .includes⟩

theorem proper_of_linked {edge : Edge} (linked : Linked extractor files edge) : edge.src ≠ edge.dst := by
  cases linked with
  | defines => exact Node.noConfusion
  | fromSymbol _ _ _ _ _ differs => simpa using differs
  | fromFile => exact Node.noConfusion
  | includes _ _ _ _ differs => simpa using differs

theorem linked_of_mem_mentionEdges {file : SourceFile} {mention : Mention} {edge : Edge} (listed : file ∈ files)
    (mentions : mention ∈ (extractor file).mentions) (proposed : edge ∈ mentionEdges extractor files file.path mention)
    (proper : edge.src ≠ edge.dst) : Linked extractor files edge := by
  unfold mentionEdges mentionSource at proposed
  split at proposed
  case isFalse => cases proposed
  case isTrue defined =>
    obtain rfl := List.mem_singleton.mp proposed
    cases around : mention.enclosing with
    | none => exact .fromFile listed mentions defined (by simp [around])
    | some name =>
        by_cases aroundDefined : name ∈ definedNames extractor files
        · simp only [around, aroundDefined, if_true] at proper ⊢
          exact .fromSymbol listed mentions defined around aroundDefined (by simpa using proper)
        · simp only [aroundDefined, if_false]
          refine .fromFile listed mentions defined fun other isOther => ?_
          rw [around] at isOther
          exact Option.some.inj isOther ▸ aroundDefined

theorem mem_proposed_iff_linked {edge : Edge} :
    ((∃ file ∈ files, edge ∈ definingEdges extractor file) ∨
        edge ∈ files.flatMap (resolvedEdges extractor files) ∧ edge.src ≠ edge.dst) ↔
      Linked extractor files edge := by
  simp only [resolvedEdges, List.mem_flatMap, List.mem_append]
  constructor
  · rintro (⟨file, listed, defining⟩ | ⟨⟨file, listed, ⟨mention, mentions, proposed⟩ | ⟨target, includes, proposed⟩⟩, proper⟩)
    · obtain ⟨definition, defines, rfl⟩ := List.mem_map.mp defining
      exact .defines listed defines
    · exact linked_of_mem_mentionEdges listed mentions proposed proper
    · obtain ⟨path, found, rfl⟩ := List.mem_map.mp proposed
      obtain ⟨other, otherListed, answers, rfl⟩ := mem_includeTargets.mp found
      exact .includes listed otherListed includes answers (by simpa using proper)
  · intro linked
    have proper := proper_of_linked linked
    cases linked with
    | defines listed defines => exact Or.inl ⟨_, listed, List.mem_map.mpr ⟨_, defines, rfl⟩⟩
    | fromSymbol listed mentions defined around aroundDefined =>
        refine Or.inr ⟨⟨_, listed, Or.inl ⟨_, mentions, ?_⟩⟩, proper⟩
        simp [mentionEdges, mentionSource, defined, around, aroundDefined]
    | @fromFile file mention listed mentions defined outside =>
        refine Or.inr ⟨⟨_, listed, Or.inl ⟨_, mentions, ?_⟩⟩, proper⟩
        cases around : mention.enclosing with
        | none => simp [mentionEdges, mentionSource, defined, around]
        | some name => simp [mentionEdges, mentionSource, defined, around, outside name around]
    | includes listed otherListed includes answers =>
        refine Or.inr ⟨⟨_, listed, Or.inr ⟨_, includes, ?_⟩⟩, proper⟩
        exact List.mem_map.mpr ⟨_, mem_includeTargets.mpr ⟨_, otherListed, answers, rfl⟩, rfl⟩

/-- What a build of files is to be: its edges are those the readings call for, each once; what stays unresolved is
listed file by file, as often as it is read; and the ends of the edges are nodes. -/
structure IsExact (extractor : SourceFile → Extraction) (files : List SourceFile) (build : Build) : Prop where
  edges : ∀ edge, edge ∈ build.graph.edges ↔ Linked extractor files edge
  once : build.graph.edges.Nodup
  unresolved : build.unresolved = files.flatMap (unresolvedOf extractor files)
  endpoints : ∀ edge ∈ build.graph.edges, edge.src ∈ build.graph.nodes ∧ edge.dst ∈ build.graph.nodes
  symbols : ∀ name, (build.graph.symbol? name).isSome ↔ name ∈ definedNames extractor files
  definers : ∀ name, (build.graph.symbol? name).isSome → ∀ file ∈ files,
    name ∈ (extractor file).definitions.map (·.name) → ⟨.file file.path, .symbol name, .defines⟩ ∈ build.graph.edges
  definingFiles : ∀ name symbol, build.graph.symbol? name = some symbol →
    (∀ file ∈ files, ∀ definition ∈ (extractor file).definitions, definition.path = file.path) →
      ∀ path ∈ symbol.definingFiles, ⟨.file path, .symbol name, .defines⟩ ∈ build.graph.edges

theorem file_mem_nodes {file : SourceFile} (listed : file ∈ files) :
    Node.file file.path ∈ (ofExtractor extractor files).graph.nodes := by
  have known : ((ofExtractor extractor files).graph.file? file.path).isSome :=
    isSome_file?_ofExtractor.mpr (List.mem_map_of_mem listed)
  obtain ⟨found, isFound⟩ := Option.isSome_iff_exists.mp known
  refine List.mem_mergeSort.mpr (List.mem_append_left _ (List.mem_map.mpr ⟨found, ?_, ?_⟩))
  · exact List.mem_of_find?_eq_some isFound
  · rw [SourceFile.node, Graph.file?_path isFound]

theorem isSome_symbol?_ofExtractor {name : String} :
    ((ofExtractor extractor files).graph.symbol? name).isSome ↔ name ∈ definedNames extractor files := by
  rw [Graph.symbol?, (sameTables_ofExtractor files).symbols, ← Graph.symbol?, isSome_symbol?_foldl_enter]
  simp [Graph.symbol?, Keyed.find?]

theorem symbol_mem_nodes {name : String} (defined : name ∈ definedNames extractor files) :
    Node.symbol name ∈ (ofExtractor extractor files).graph.nodes := by
  obtain ⟨found, isFound⟩ := Option.isSome_iff_exists.mp (isSome_symbol?_ofExtractor.mpr defined)
  refine List.mem_mergeSort.mpr (List.mem_append_right _ (List.mem_map.mpr ⟨found, ?_, ?_⟩))
  · exact List.mem_of_find?_eq_some isFound
  · rw [Symbol.node, Graph.symbol?_name isFound]

theorem nodes_of_linked {edge : Edge} (linked : Linked extractor files edge) :
    edge.src ∈ (ofExtractor extractor files).graph.nodes ∧ edge.dst ∈ (ofExtractor extractor files).graph.nodes := by
  cases linked with
  | defines listed defines =>
      exact ⟨file_mem_nodes listed, symbol_mem_nodes (mem_definedNames.mpr ⟨_, listed, _, defines, rfl⟩)⟩
  | fromSymbol _ _ defined _ aroundDefined => exact ⟨symbol_mem_nodes aroundDefined, symbol_mem_nodes defined⟩
  | fromFile listed _ defined => exact ⟨file_mem_nodes listed, symbol_mem_nodes defined⟩
  | includes listed otherListed => exact ⟨file_mem_nodes listed, file_mem_nodes otherListed⟩

theorem mem_edges_ofExtractor {edge : Edge} (pathsDistinct : (files.map (·.path)).Nodup)
    (named : "" ∉ definedNames extractor files) :
    edge ∈ (ofExtractor extractor files).graph.edges ↔ Linked extractor files edge := by
  rw [(resolves_ofExtractor pathsDistinct named).graph, Graph.mem_edges_foldl_addEdge, mem_edges_foldl_enter]
  simpa using mem_proposed_iff_linked

/-- Building is exact, whatever is read off the files. -/
theorem ofExtractor_isExact (extractor : SourceFile → Extraction) (files : List SourceFile)
    (pathsDistinct : (files.map (·.path)).Nodup)
    (named : ∀ file ∈ files, ∀ definition ∈ (extractor file).definitions, definition.name ≠ "") :
    IsExact extractor files (ofExtractor extractor files) := by
  have noEmptyName : "" ∉ definedNames extractor files := by
    intro member
    obtain ⟨file, listed, definition, defines, empty⟩ := mem_definedNames.mp member
    exact named file listed definition defines empty
  have resolved := resolves_ofExtractor pathsDistinct noEmptyName
  have linked : ∀ edge, edge ∈ (ofExtractor extractor files).graph.edges ↔ Linked extractor files edge :=
    fun edge => mem_edges_ofExtractor pathsDistinct noEmptyName
  refine ⟨linked, ?_, ?_, fun edge member => nodes_of_linked ((linked edge).mp member),
    fun name => isSome_symbol?_ofExtractor, ?_, ?_⟩
  · rw [resolved.graph]
    exact Graph.nodup_edges_foldl_addEdge _ (nodup_edges_foldl_enter files List.nodup_nil)
  · rw [resolved.unresolved, unresolved_foldl_enter]
    exact List.nil_append _
  · intro name _ file listed member
    obtain ⟨definition, defines, rfl⟩ := List.mem_map.mp member
    exact (linked _).mpr (.defines listed defines)
  · intro name symbol found carried path defining
    obtain ⟨definition, defines, rfl⟩ := Symbol.mem_definingFiles.mp defining
    rw [← Graph.definitionsOf_of_symbol? found, definitionsOf_ofExtractor] at defines
    obtain ⟨file, listed, readOff⟩ := List.mem_flatMap.mp defines
    obtain ⟨member, sameName⟩ := List.mem_filter.mp readOff
    rw [carried file listed definition member, ← of_decide_eq_true sameName]
    exact (linked _).mpr (.defines listed member)

def moduleAndPage : List SourceFile :=
  [⟨"code.gs", .backend, [], 0⟩, ⟨"Page.html", .frontend, [], 0⟩]

/-- Readings with a mention and an include of each kind. -/
def moduleAndPageReading (file : SourceFile) : Extraction :=
  if file.path = "code.gs" then
    { path := file.path
      definitions := [⟨file.path, "serve", .function, 1, 3, 0, 40, 9⟩]
      mentions := [⟨"load", .call, 2, some "serve"⟩, ⟨"serve", .call, 2, some "serve"⟩, ⟨"gone", .call, 3, none⟩]
      includes := [" page ", "lost"] }
  else
    { path := file.path
      definitions := [⟨file.path, "load", .function, 1, 1, 0, 20, 9⟩]
      mentions := [⟨"serve", .bridge, 2, none⟩, ⟨"push", .memberCall, 2, none⟩] }

theorem moduleAndPage_isExact :
    (moduleAndPage.map (·.path)).Nodup ∧
      (∀ file ∈ moduleAndPage, ∀ definition ∈ (moduleAndPageReading file).definitions, definition.name ≠ "") ∧
      IsExact moduleAndPageReading moduleAndPage (ofExtractor moduleAndPageReading moduleAndPage) := by
  have pathsDistinct : (moduleAndPage.map (·.path)).Nodup := by decide
  have named : ∀ file ∈ moduleAndPage, ∀ definition ∈ (moduleAndPageReading file).definitions,
      definition.name ≠ "" := by
    decide
  exact ⟨pathsDistinct, named, ofExtractor_isExact moduleAndPageReading moduleAndPage pathsDistinct named⟩

example : (ofExtractor moduleAndPageReading moduleAndPage).unresolved =
    [⟨"code.gs", "gone", 3, .call⟩, ⟨"code.gs", "lost", 0, .inclusion⟩] := by
  cbv

end Build
end Deadwood
