import Deadwood.Proofs.Growth
import Deadwood.Proofs.LiveCode

/-!
# Analysing again what a plan has swept

A plan takes away files and functions that nothing live needs. Analysed again, the rest is live as before if a cut neither
brings nor takes anything that live code defines, mentions or includes, and if the roots are still there. Roots are there for
one analysis: what a trigger is set up for is a root as long as some code sets the trigger up, be that code live or not.
-/

set_option autoImplicit false
namespace Deadwood

open Source

/-! ## Shrunk graphs -/

namespace Graph

/-- The second graph has no more files, symbols and owners, and nothing leads on from what is live that did not before. -/
structure Shrinks (live : Node → Prop) (first second : Graph) : Prop where
  files : ∀ path, (second.file? path).isSome → (first.file? path).isSome
  symbols : ∀ name, (second.symbol? name).isSome → (first.symbol? name).isSome
  owners : ∀ name, ∀ definition ∈ second.definitionsOf name, ∃ other ∈ first.definitionsOf name,
    other.path = definition.path
  edges : ∀ edge ∈ second.edges, edge.kind = .defines ∨ live edge.src → edge ∈ first.edges

/-- The second graph still has what is live, its owners, and what leads from one live node to another. -/
structure KeepsLive (live : Node → Prop) (first second : Graph) : Prop where
  files : ∀ path, live (.file path) → (first.file? path).isSome → (second.file? path).isSome
  symbols : ∀ name, live (.symbol name) → (first.symbol? name).isSome → (second.symbol? name).isSome
  owners : ∀ name, live (.symbol name) → ∀ definition ∈ first.definitionsOf name,
    ∃ other ∈ second.definitionsOf name, other.path = definition.path
  edges : ∀ edge ∈ first.edges, live edge.src → live edge.dst → edge ∈ second.edges

theorem Within.refl (graph : Graph) : Within graph graph where
  files _ present := present
  symbols _ present := present
  definitions _ := List.Subset.refl _
  edges := List.Subset.refl _

variable {live : Node → Prop} {first second : Graph} {roots : Roots} {node : Node} {mode : Mode}

theorem Reached.of_owner {name : String} {definition : Definition} (isRoot : roots.matchesName name)
    (defines : definition ∈ first.definitionsOf name) : Reached first roots (.file definition.path) .direct := by
  obtain ⟨symbol, found⟩ := Option.isSome_iff_exists.mp (isSome_symbol?_of_mem_definitionsOf defines)
  obtain rfl := symbol?_name found
  exact .rootOwner found isRoot (definitionsOf_of_symbol? found ▸ defines)

theorem Reached.of_shrinks (shrinks : Shrinks live first second)
    (covers : ∀ node mode, Reached first roots node mode → live node) (reached : Reached second roots node mode) :
    Reached first roots node mode := by
  induction reached with
  | rootFile present isRoot => exact .rootFile (shrinks.files _ present) isRoot
  | rootOwner found isRoot defines =>
      obtain ⟨other, otherDefines, samePath⟩ :=
        shrinks.owners _ _ (definitionsOf_of_symbol? found ▸ defines)
      exact samePath ▸ .of_owner isRoot otherDefines
  | rootSymbol present isRoot => exact .rootSymbol (shrinks.symbols _ present) isRoot
  | fromFile _ leads source kind ih =>
      exact .fromFile ih (shrinks.edges _ leads (Or.inr (source ▸ covers _ _ ih))) source kind
  | defined _ leads source kind ih => exact .defined ih (shrinks.edges _ leads (Or.inl kind)) source kind
  | fromSymbol _ noFile leads source kind ih =>
      exact .fromSymbol ih noFile (shrinks.edges _ leads (Or.inr (source ▸ covers _ _ ih))) source kind
  | owner _ noFile leads target kind ih => exact .owner ih noFile (shrinks.edges _ leads (Or.inl kind)) target kind

theorem Reached.of_keepsLive (keeps : KeepsLive live first second)
    (covers : ∀ node mode, Reached first roots node mode → live node) (reached : Reached first roots node mode) :
    Reached second roots node mode := by
  have stays {edge : Edge} {mode : Mode} (leads : edge ∈ first.edges) (source : live edge.src)
      (target : Reached first roots edge.dst mode) : edge ∈ second.edges :=
    keeps.edges edge leads source (covers _ _ target)
  induction reached with
  | rootFile present isRoot => exact .rootFile (keeps.files _ (covers _ _ (.rootFile present isRoot)) present) isRoot
  | rootOwner found isRoot defines =>
      have rootLive := covers _ _ (.rootSymbol (Option.isSome_of_eq_some found) isRoot)
      obtain ⟨other, otherDefines, samePath⟩ :=
        keeps.owners _ rootLive _ (definitionsOf_of_symbol? found ▸ defines)
      exact samePath ▸ .of_owner isRoot otherDefines
  | rootSymbol present isRoot =>
      exact .rootSymbol (keeps.symbols _ (covers _ _ (.rootSymbol present isRoot)) present) isRoot
  | fromFile live leads source kind ih =>
      exact .fromFile ih (stays leads (source ▸ covers _ _ live) (.fromFile live leads source kind)) source kind
  | defined live leads source kind ih =>
      exact .defined ih (stays leads (source ▸ covers _ _ live) (.defined live leads source kind)) source kind
  | fromSymbol live noFile leads source kind ih =>
      exact .fromSymbol ih noFile (stays leads (source ▸ covers _ _ live) (.fromSymbol live noFile leads source kind))
        source kind
  | owner reached noFile leads target kind ih =>
      have ownerLive := covers _ _ (.owner reached noFile leads target kind)
      exact .owner ih noFile (stays leads ownerLive (target ▸ reached)) target kind

end Graph

/-! ## Cuts -/

def Source.Extraction.Mentions (extraction : Extraction) (name : String) (around : Option String) : Prop :=
  ∃ mention ∈ extraction.mentions, mention.name = name ∧ mention.enclosing = around

namespace Analysis

def IsLiveCode (analysis : Analysis) (path : String) (around : Option String) : Prop :=
  path ∈ analysis.usedFiles ∧ ∀ name, around = some name → name ∈ analysis.usedSymbols

/-- Cuts bring nothing: the file defines and sets up no more than before, and its live code mentions and includes no more. -/
structure BringsNothing (analysis : Analysis) (before after : Extraction) : Prop where
  definitions : after.definitions.map (·.name) ⊆ before.definitions.map (·.name)
  triggers : after.triggerNames ⊆ before.triggerNames
  mentions : ∀ name around, analysis.IsLiveCode before.path around → after.Mentions name around → before.Mentions name around
  includes : before.path ∈ analysis.usedFiles → after.includes ⊆ before.includes

/-- Cuts take nothing that is live: the file defines no fewer used symbols than before, and its live code mentions and includes
no less. -/
structure TakesNothingLive (analysis : Analysis) (before after : Extraction) : Prop where
  definitions : ∀ name ∈ analysis.usedSymbols, name ∈ before.definitions.map (·.name) → name ∈ after.definitions.map (·.name)
  mentions : ∀ name around, analysis.IsLiveCode before.path around → before.Mentions name around → after.Mentions name around
  includes : before.path ∈ analysis.usedFiles → before.includes ⊆ after.includes

end Analysis

namespace Plan

/-- The file after the cuts that are planned for it. -/
def shorten (plan : Plan) (file : SourceFile) : SourceFile :=
  let remaining := plan.functions.foldl (cutOne file.path) file.text
  { file with text := remaining, size := (String.ofList remaining).utf8ByteSize }

variable {plan : Plan} {files : List SourceFile}

theorem path_shorten (plan : Plan) (file : SourceFile) : (plan.shorten file).path = file.path :=
  rfl

theorem carryOut_eq (plan : Plan) (files : List SourceFile) :
    plan.carryOut files = (files.filter fun file => !plan.files.contains file.path).map plan.shorten :=
  rfl

theorem mem_carryOut {kept : SourceFile} :
    kept ∈ plan.carryOut files ↔ ∃ file ∈ files, file.path ∉ plan.files ∧ plan.shorten file = kept := by
  simp [carryOut_eq, and_assoc]

theorem paths_carryOut_sublist (plan : Plan) (files : List SourceFile) :
    ((plan.carryOut files).map (·.path)).Sublist (files.map (·.path)) := by
  rw [carryOut_eq, List.map_map]
  exact List.filter_sublist.map _

/-- A file that no cut is located in reads as before. -/
theorem extract_shorten_of_uncut (reading : Reading) {file : SourceFile}
    (uncut : plan.functions.foldl (cutOne file.path) file.text = file.text) :
    extract reading (plan.shorten file) = extract reading file := by
  simp only [extract, shorten, uncut]

end Plan

/-! ## The swept graph -/

namespace Build

variable {reading : Reading} {files : List SourceFile} {roots : Roots} {analysis : Analysis} {plan : Plan}

theorem path_extract (reading : Reading) (file : SourceFile) : (extract reading file).path = file.path := by
  unfold extract
  split <;> rfl

theorem mem_definitionsOf_ofExtractor {extractor : SourceFile → Extraction} {name : String} {definition : Definition} :
    definition ∈ (ofExtractor extractor files).graph.definitionsOf name ↔
      ∃ file ∈ files, definition ∈ (extractor file).definitions ∧ definition.name = name := by
  simp [definitionsOf_ofExtractor]

/-- Outside the definitions of its file a mention stands outside of all. -/
theorem enclosing_eq_none {file : SourceFile} {mention : Mention} (listed : file ∈ files)
    (mentions : mention ∈ (extract reading file).mentions)
    (outside : ∀ name, mention.enclosing = some name → name ∉ definedNames (extract reading) files) :
    mention.enclosing = none := by
  refine Option.eq_none_iff_forall_ne_some.mpr fun name around => ?_
  obtain ⟨definition, defines, named⟩ := exists_definition_of_enclosing mentions around
  exact outside name around (mem_definedNames.mpr ⟨file, listed, definition, defines, named⟩)

/-- A plan for an analysis of files: it deletes nothing that is used, and its cuts bring nothing. -/
structure Sweeps (reading : Reading) (files : List SourceFile) (roots : Roots) (analysis : Analysis) (plan : Plan) : Prop where
  distinct : (files.map (·.path)).Nodup
  run : Analysis.ofBuild (ofExtractor (extract reading) files) roots = .ok analysis
  spares : ∀ path ∈ plan.files, path ∉ analysis.usedFiles
  brings : ∀ file ∈ files, file.path ∉ plan.files →
    analysis.BringsNothing (extract reading file) (extract reading (plan.shorten file))

namespace Sweeps

abbrev Live (reading : Reading) (files : List SourceFile) (roots : Roots) (node : Node) : Prop :=
  ∃ mode, Graph.Reached (ofExtractor (extract reading) files).graph roots node mode

variable (sweeps : Sweeps reading files roots analysis plan) {file : SourceFile} {name : String}

include sweeps

theorem used_of_live (listed : file ∈ files) (live : Live reading files roots (.file file.path)) :
    file.path ∈ analysis.usedFiles :=
  ((Analysis.divides_of_ofGraph_eq_ok sweeps.run).mem_usedFiles _).mpr
    ⟨isSome_file?_ofExtractor.mpr (List.mem_map_of_mem listed), live⟩

theorem name_used_of_live (defined : name ∈ definedNames (extract reading) files)
    (live : Live reading files roots (.symbol name)) : name ∈ analysis.usedSymbols :=
  ((Analysis.divides_of_ofGraph_eq_ok sweeps.run).mem_usedSymbols _).mpr ⟨isSome_symbol?_ofExtractor.mpr defined, live⟩

omit sweeps in
theorem owner_live (listed : file ∈ files) (named : name ∈ (extract reading file).definitions.map (·.name))
    (live : Live reading files roots (.symbol name)) : Live reading files roots (.file file.path) := by
  obtain ⟨definition, defines, rfl⟩ := List.mem_map.mp named
  obtain ⟨mode, reached⟩ := live
  exact ⟨.owner, reached.owner rfl (defines_mem_edges listed defines) rfl rfl⟩

theorem kept_of_live (listed : file ∈ files) (live : Live reading files roots (.file file.path)) :
    plan.shorten file ∈ plan.carryOut files :=
  Plan.mem_carryOut.mpr ⟨file, listed, fun planned => sweeps.spares _ planned (sweeps.used_of_live listed live), rfl⟩

theorem definedNames_subset :
    definedNames (extract reading) (plan.carryOut files) ⊆ definedNames (extract reading) files := by
  intro name defined
  obtain ⟨kept, member, definition, defines, rfl⟩ := mem_definedNames.mp defined
  obtain ⟨file, listed, unplanned, rfl⟩ := Plan.mem_carryOut.mp member
  obtain ⟨earlier, before, named⟩ :=
    List.mem_map.mp ((sweeps.brings file listed unplanned).definitions (List.mem_map_of_mem defines))
  exact mem_definedNames.mpr ⟨file, listed, earlier, before, named⟩

theorem distinct_carryOut : ((plan.carryOut files).map (·.path)).Nodup :=
  sweeps.distinct.sublist (Plan.paths_carryOut_sublist plan files)

/-- Every edge of the swept graph that counts for live code is one of the graph. -/
theorem linked_before {edge : Edge} (linked : Linked (extract reading) (plan.carryOut files) edge)
    (counts : edge.kind = .defines ∨ Live reading files roots edge.src) : Linked (extract reading) files edge := by
  cases linked with
  | defines member defines =>
      obtain ⟨file, listed, unplanned, rfl⟩ := Plan.mem_carryOut.mp member
      obtain ⟨earlier, before, named⟩ :=
        List.mem_map.mp ((sweeps.brings file listed unplanned).definitions (List.mem_map_of_mem defines))
      rw [← named, Plan.path_shorten]
      exact .defines listed before
  | @fromSymbol kept mention name member mentions defined around aroundDefined differs =>
      obtain ⟨file, listed, unplanned, rfl⟩ := Plan.mem_carryOut.mp member
      have brings := sweeps.brings file listed unplanned
      have live := counts.resolve_left (by simp)
      obtain ⟨definition, defines, rfl⟩ := exists_definition_of_enclosing mentions around
      have named := brings.definitions (List.mem_map_of_mem defines)
      have aroundBefore := sweeps.definedNames_subset aroundDefined
      have isLive : analysis.IsLiveCode (extract reading file).path (some definition.name) := by
        refine ⟨path_extract reading file ▸ sweeps.used_of_live listed (owner_live listed named live), ?_⟩
        rintro name ⟨⟩
        exact sweeps.name_used_of_live aroundBefore live
      obtain ⟨earlier, before, sameName, sameAround⟩ := brings.mentions _ _ isLive ⟨mention, mentions, rfl, around⟩
      rw [← sameName] at defined differs ⊢
      exact .fromSymbol listed before (sweeps.definedNames_subset defined) sameAround aroundBefore differs
  | @fromFile kept mention member mentions defined outside =>
      obtain ⟨file, listed, unplanned, rfl⟩ := Plan.mem_carryOut.mp member
      have live := counts.resolve_left (by simp)
      have around := enclosing_eq_none member mentions outside
      have isLive : analysis.IsLiveCode (extract reading file).path none :=
        ⟨path_extract reading file ▸ sweeps.used_of_live listed live, by simp⟩
      obtain ⟨earlier, before, sameName, sameAround⟩ :=
        (sweeps.brings file listed unplanned).mentions _ _ isLive ⟨mention, mentions, rfl, around⟩
      rw [← sameName] at defined ⊢
      rw [Plan.path_shorten]
      exact .fromFile listed before (sweeps.definedNames_subset defined) (by simp [sameAround])
  | @includes kept other target member otherMember includes answers differs =>
      obtain ⟨file, listed, unplanned, rfl⟩ := Plan.mem_carryOut.mp member
      obtain ⟨otherFile, otherListed, _, rfl⟩ := Plan.mem_carryOut.mp otherMember
      have used := sweeps.used_of_live listed (counts.resolve_left (by simp))
      have before := (sweeps.brings file listed unplanned).includes (path_extract reading file ▸ used) includes
      rw [Plan.path_shorten] at answers differs ⊢
      rw [Plan.path_shorten] at differs ⊢
      exact .includes listed otherListed before answers differs

theorem shrinks : Graph.Shrinks (Live reading files roots) (ofExtractor (extract reading) files).graph
    (ofExtractor (extract reading) (plan.carryOut files)).graph where
  files path present := by
    rw [isSome_file?_ofExtractor] at present ⊢
    exact (Plan.paths_carryOut_sublist plan files).subset present
  symbols name present := by
    rw [isSome_symbol?_ofExtractor] at present ⊢
    exact sweeps.definedNames_subset present
  owners name definition defines := by
    obtain ⟨kept, member, readOff, rfl⟩ := mem_definitionsOf_ofExtractor.mp defines
    obtain ⟨file, listed, unplanned, rfl⟩ := Plan.mem_carryOut.mp member
    obtain ⟨earlier, before, named⟩ :=
      List.mem_map.mp ((sweeps.brings file listed unplanned).definitions (List.mem_map_of_mem readOff))
    refine ⟨earlier, mem_definitionsOf_ofExtractor.mpr ⟨file, listed, before, named⟩, ?_⟩
    exact (path_of_mem_extract before).trans (path_of_mem_extract readOff).symm
  edges edge leads counts := by
    rw [mem_edges_ofExtractor sweeps.distinct_carryOut (empty_not_mem_definedNames reading _)] at leads
    rw [mem_edges_ofExtractor sweeps.distinct (empty_not_mem_definedNames reading files)]
    exact sweeps.linked_before leads counts

variable (takes : ∀ file ∈ files, file.path ∉ plan.files →
  analysis.TakesNothingLive (extract reading file) (extract reading (plan.shorten file)))

include takes

theorem still_defines (listed : file ∈ files) (named : name ∈ (extract reading file).definitions.map (·.name))
    (live : Live reading files roots (.symbol name)) :
    plan.shorten file ∈ plan.carryOut files ∧ name ∈ (extract reading (plan.shorten file)).definitions.map (·.name) := by
  have fileLive := owner_live listed named live
  have unplanned : file.path ∉ plan.files := fun planned => sweeps.spares _ planned (sweeps.used_of_live listed fileLive)
  obtain ⟨definition, defines, rfl⟩ := List.mem_map.mp named
  have used := sweeps.name_used_of_live (mem_definedNames.mpr ⟨file, listed, definition, defines, rfl⟩) live
  exact ⟨sweeps.kept_of_live listed fileLive, (takes file listed unplanned).definitions _ used (List.mem_map_of_mem defines)⟩

theorem still_defined (defined : name ∈ definedNames (extract reading) files)
    (live : Live reading files roots (.symbol name)) : name ∈ definedNames (extract reading) (plan.carryOut files) := by
  obtain ⟨file, listed, definition, defines, rfl⟩ := mem_definedNames.mp defined
  obtain ⟨kept, named⟩ := sweeps.still_defines takes listed (List.mem_map_of_mem defines) live
  obtain ⟨later, after, sameName⟩ := List.mem_map.mp named
  exact mem_definedNames.mpr ⟨_, kept, later, after, sameName⟩

/-- What leads from one live node to another still does. -/
theorem linked_after {edge : Edge} (linked : Linked (extract reading) files edge)
    (source : Live reading files roots edge.src) (target : Live reading files roots edge.dst) :
    Linked (extract reading) (plan.carryOut files) edge := by
  cases linked with
  | defines listed defines =>
      obtain ⟨kept, named⟩ := sweeps.still_defines takes listed (List.mem_map_of_mem defines) target
      obtain ⟨later, after, sameName⟩ := List.mem_map.mp named
      rw [← sameName]
      have link := Linked.defines kept after
      exact link
  | @fromSymbol file mention name listed mentions defined around aroundDefined differs =>
      obtain ⟨definition, defines, rfl⟩ := exists_definition_of_enclosing mentions around
      have fileLive := owner_live listed (List.mem_map_of_mem defines) source
      have used := sweeps.used_of_live listed fileLive
      have isLive : analysis.IsLiveCode (extract reading file).path (some definition.name) := by
        refine ⟨path_extract reading file ▸ used, ?_⟩
        rintro name ⟨⟩
        exact sweeps.name_used_of_live aroundDefined source
      obtain ⟨later, after, sameName, sameAround⟩ :=
        (takes file listed fun planned => sweeps.spares _ planned used).mentions _ _ isLive ⟨mention, mentions, rfl, around⟩
      rw [← sameName] at defined differs target ⊢
      exact .fromSymbol (sweeps.kept_of_live listed fileLive) after (sweeps.still_defined takes defined target) sameAround
        (sweeps.still_defined takes aroundDefined source) differs
  | @fromFile file mention listed mentions defined outside =>
      have used := sweeps.used_of_live listed source
      have around := enclosing_eq_none listed mentions outside
      have isLive : analysis.IsLiveCode (extract reading file).path none := ⟨path_extract reading file ▸ used, by simp⟩
      obtain ⟨later, after, sameName, sameAround⟩ :=
        (takes file listed fun planned => sweeps.spares _ planned used).mentions _ _ isLive ⟨mention, mentions, rfl, around⟩
      rw [← sameName] at defined target ⊢
      have link := Linked.fromFile (sweeps.kept_of_live listed source) after (sweeps.still_defined takes defined target)
        (by simp [sameAround])
      exact link
  | @includes file other included listed otherListed includes answers differs =>
      have used := sweeps.used_of_live listed source
      have after := (takes file listed fun planned => sweeps.spares _ planned used).includes
        (path_extract reading file ▸ used) includes
      have link := Linked.includes (sweeps.kept_of_live listed source) (sweeps.kept_of_live otherListed target) after
        answers differs
      exact link

theorem keepsLive : Graph.KeepsLive (Live reading files roots) (ofExtractor (extract reading) files).graph
    (ofExtractor (extract reading) (plan.carryOut files)).graph where
  files path live present := by
    rw [isSome_file?_ofExtractor] at present ⊢
    obtain ⟨file, listed, rfl⟩ := List.mem_map.mp present
    exact List.mem_map.mpr ⟨_, sweeps.kept_of_live listed live, rfl⟩
  symbols name live present := by
    rw [isSome_symbol?_ofExtractor] at present ⊢
    exact sweeps.still_defined takes present live
  owners name live definition defines := by
    obtain ⟨file, listed, readOff, rfl⟩ := mem_definitionsOf_ofExtractor.mp defines
    obtain ⟨kept, named⟩ := sweeps.still_defines takes listed (List.mem_map_of_mem readOff) live
    obtain ⟨later, after, sameName⟩ := List.mem_map.mp named
    refine ⟨later, mem_definitionsOf_ofExtractor.mpr ⟨_, kept, after, sameName⟩, ?_⟩
    exact (path_of_mem_extract after).trans (path_of_mem_extract readOff).symm
  edges edge leads source target := by
    rw [mem_edges_ofExtractor sweeps.distinct (empty_not_mem_definedNames reading files)] at leads
    rw [mem_edges_ofExtractor sweeps.distinct_carryOut (empty_not_mem_definedNames reading _)]
    exact sweeps.linked_after takes leads source target

end Sweeps
end Build
/-! ## The second analysis -/

namespace Analysis

/-- The roots reach all that is used. -/
structure AllReached (analysis : Analysis) (graph : Graph) (roots : Roots) : Prop where
  files : ∀ path ∈ analysis.usedFiles, ∃ mode, Graph.Reached graph roots (.file path) mode
  symbols : ∀ name ∈ analysis.usedSymbols, ∃ mode, Graph.Reached graph roots (.symbol name) mode

variable {reading : Reading} {files : List SourceFile} {roots left : Roots} {analysis again : Analysis} {plan : Plan}

theorem allReached_of_within {graph : Graph} {stringWords : List String} {unresolved : List Unresolved}
    (run : ofGraph graph roots stringWords unresolved = .ok analysis) (within : roots.Within left) :
    analysis.AllReached graph left where
  files path used := by
    obtain ⟨_, mode, reached⟩ := ((divides_of_ofGraph_eq_ok run).mem_usedFiles path).mp used
    exact ⟨mode, reached.mono (.refl graph) within⟩
  symbols name used := by
    obtain ⟨_, mode, reached⟩ := ((divides_of_ofGraph_eq_ok run).mem_usedSymbols name).mp used
    exact ⟨mode, reached.mono (.refl graph) within⟩

variable (sweeps : Build.Sweeps reading files roots analysis plan) (within : left.Within roots)

include sweeps within

/-- What is reached in the swept graph from the roots left is reached from them in the graph. -/
theorem reached_before {node : Node} {mode : Mode}
    (reached : Graph.Reached (Build.ofExtractor (extract reading) (plan.carryOut files)).graph left node mode) :
    Graph.Reached (Build.ofExtractor (extract reading) files).graph left node mode :=
  reached.of_shrinks sweeps.shrinks fun _ mode live => ⟨mode, live.mono (.refl _) within⟩

variable (secondRun : ofBuild (Build.ofExtractor (extract reading) (plan.carryOut files)) left = .ok again)

include secondRun

theorem used_subset : again.usedFiles ⊆ analysis.usedFiles ∧ again.usedSymbols ⊆ analysis.usedSymbols := by
  have first := divides_of_ofGraph_eq_ok sweeps.run
  have second := divides_of_ofGraph_eq_ok secondRun
  constructor
  · intro path used
    obtain ⟨present, mode, reached⟩ := (second.mem_usedFiles path).mp used
    have before := (reached_before sweeps within reached).mono (.refl _) within
    exact (first.mem_usedFiles path).mpr ⟨sweeps.shrinks.files path present, mode, before⟩
  · intro name used
    obtain ⟨present, mode, reached⟩ := (second.mem_usedSymbols name).mp used
    have before := (reached_before sweeps within reached).mono (.refl _) within
    exact (first.mem_usedSymbols name).mpr ⟨sweeps.shrinks.symbols name present, mode, before⟩

/-- The same is used just if the roots left reach it all. -/
theorem used_eq_iff (takes : ∀ file ∈ files, file.path ∉ plan.files →
    analysis.TakesNothingLive (extract reading file) (extract reading (plan.shorten file))) :
    again.usedFiles = analysis.usedFiles ∧ again.usedSymbols = analysis.usedSymbols ↔
      analysis.AllReached (Build.ofExtractor (extract reading) files).graph left := by
  have first := divides_of_ofGraph_eq_ok sweeps.run
  have second := divides_of_ofGraph_eq_ok secondRun
  have keeps := sweeps.keepsLive takes
  have fewer := used_subset sweeps within secondRun
  constructor
  · rintro ⟨sameFiles, sameSymbols⟩
    constructor
    · intro path used
      obtain ⟨_, mode, reached⟩ := (second.mem_usedFiles path).mp (sameFiles ▸ used)
      exact ⟨mode, reached_before sweeps within reached⟩
    · intro name used
      obtain ⟨_, mode, reached⟩ := (second.mem_usedSymbols name).mp (sameSymbols ▸ used)
      exact ⟨mode, reached_before sweeps within reached⟩
  · intro all
    constructor
    · refine Text.eq_of_pairwise_lt second.usedFiles_sorted first.usedFiles_sorted fun path => ⟨fun used => fewer.1 used, ?_⟩
      intro used
      obtain ⟨present, live⟩ := (first.mem_usedFiles path).mp used
      obtain ⟨mode, reached⟩ := all.files path used
      have after := reached.of_keepsLive keeps fun _ mode reached => ⟨mode, reached.mono (.refl _) within⟩
      exact (second.mem_usedFiles path).mpr ⟨keeps.files path live present, mode, after⟩
    · refine Text.eq_of_pairwise_lt second.usedSymbols_sorted first.usedSymbols_sorted fun name => ⟨fun used => fewer.2 used, ?_⟩
      intro used
      obtain ⟨present, live⟩ := (first.mem_usedSymbols name).mp used
      obtain ⟨mode, reached⟩ := all.symbols name used
      have after := reached.of_keepsLive keeps fun _ mode reached => ⟨mode, reached.mono (.refl _) within⟩
      exact (second.mem_usedSymbols name).mpr ⟨keeps.symbols name live present, mode, after⟩

end Analysis
/-- Files analysed again after a plan has been carried out. Nothing becomes used unless a cut brings it, and if no cut takes
anything live, the same is used as before just if the roots that are left reach it all in the first graph: those of the
settings, and what code that is left sets triggers up for. Only a protected pattern that cannot be read stops an analysis. -/
theorem analyzeFiles_carryOut (settings : Settings) (files : List SourceFile) (threshold : RiskLevel)
    (pathsDistinct : (files.map (·.path)).Nodup) :
    (∀ error, settings.protectedPatterns.mapM Pattern.ofString = .error error →
      analyzeFiles settings files = .error (.pattern error)) ∧
    ∀ patterns, settings.protectedPatterns.mapM Pattern.ofString = .ok patterns →
      ∃ analysis plan again, analyzeFiles settings files = .ok analysis ∧
        plan = Plan.ofAssessment threshold (Assessment.ofAnalysis settings.riskPolicy analysis) ∧
        analyzeFiles settings (plan.carryOut files) = .ok again ∧
        ((∀ file ∈ files, file.path ∉ plan.files →
            analysis.BringsNothing (extract settings.reading file) (extract settings.reading (plan.shorten file))) →
          (again.usedFiles ⊆ analysis.usedFiles ∧ again.usedSymbols ⊆ analysis.usedSymbols) ∧
          ((∀ file ∈ files, file.path ∉ plan.files →
              analysis.TakesNothingLive (extract settings.reading file) (extract settings.reading (plan.shorten file))) →
            (again.usedFiles = analysis.usedFiles ∧ again.usedSymbols = analysis.usedSymbols ↔
              analysis.AllReached (Build.ofExtractor (extract settings.reading) files).graph
                (rootsOf settings patterns (plan.carryOut files))))) := by
  refine ⟨fun error unread => analyzeFiles_of_unread unread, fun patterns read => ?_⟩
  obtain ⟨analysis, run, build⟩ := exists_analyzeFiles_eq_ok read files
  let plan := Plan.ofAssessment threshold (Assessment.ofAnalysis settings.riskPolicy analysis)
  obtain ⟨again, secondRun, secondBuild⟩ := exists_analyzeFiles_eq_ok read (plan.carryOut files)
  refine ⟨analysis, plan, again, run, rfl, secondRun, fun brings => ?_⟩
  have spares : ∀ path ∈ plan.files, path ∉ analysis.usedFiles := by
    intro path planned used
    obtain ⟨unused, listed, rfl, _⟩ := Plan.mem_files_ofAssessment.mp planned
    have divides := Analysis.divides_of_ofGraph_eq_ok build
    exact ((divides.mem_unusedFiles _).mp (List.mem_map_of_mem listed)).2 ((divides.mem_usedFiles _).mp used).2
  have sweeps : Build.Sweeps settings.reading files (rootsOf settings patterns files) analysis plan :=
    ⟨pathsDistinct, build, spares, brings⟩
  have within : (rootsOf settings patterns (plan.carryOut files)).Within (rootsOf settings patterns files) := by
    refine ⟨fun name listed => ?_, List.Subset.refl _, List.Subset.refl _⟩
    refine List.mem_append.mpr ((List.mem_append.mp listed).imp_right fun trigger => ?_)
    rw [Build.mem_triggerNames sweeps.distinct_carryOut (empty_not_mem_definedNames _ _)] at trigger
    rw [Build.mem_triggerNames pathsDistinct (empty_not_mem_definedNames _ files)]
    obtain ⟨kept, member, inFile⟩ := trigger
    obtain ⟨file, listed, unplanned, rfl⟩ := Plan.mem_carryOut.mp member
    exact ⟨file, listed, (brings file listed unplanned).triggers inFile⟩
  exact ⟨Analysis.used_subset sweeps within secondBuild, Analysis.used_eq_iff sweeps within secondBuild⟩

/-! ## Two sweeps -/

namespace Plan

/-- Settings with no other roots than entry points, and nothing that makes a file risky but its size. -/
def entrySettings (entryPoints : List String) : Settings :=
  { entryPoints := entryPoints, protectedPatterns := [], rootFiles := [], protectedSubstrings := [], configFiles := []
    largeFileBytes := 100 }

def entryRoots (entryPoints : List String) (table : SourceFile → Extraction) (files : List SourceFile) : Roots :=
  { names := entryPoints ++ (Build.ofExtractor table files).triggerNames, patterns := [], files := [] }

theorem exists_analyzeFiles_of_table {entryPoints names : List String} {table : SourceFile → Extraction}
    {files : List SourceFile} (readings : ∀ file ∈ files, extract plainReading file = table file)
    (used : (Analysis.ofBuild (Build.ofExtractor table files) (entryRoots entryPoints table files)).map (·.usedSymbols) =
      .ok names) :
    ∃ analysis, analyzeFiles (entrySettings entryPoints) files = .ok analysis ∧ analysis.usedSymbols = names ∧
      Analysis.ofBuild (Build.ofExtractor table files) (entryRoots entryPoints table files) = .ok analysis := by
  have noPatterns : (entrySettings entryPoints).protectedPatterns.mapM Pattern.ofString = .ok [] := rfl
  obtain ⟨analysis, run, build⟩ := exists_analyzeFiles_eq_ok noPatterns files
  have same : Build.ofExtractor (extract (entrySettings entryPoints).reading) files = Build.ofExtractor table files :=
    Build.ofExtractor_congr readings
  have roots : rootsOf (entrySettings entryPoints) [] files = entryRoots entryPoints table files := by
    rw [rootsOf, same]
    rfl
  rw [same, roots] at build
  rw [build] at used
  exact ⟨analysis, run, Except.ok.inj used, build⟩

def halfUsedFile : SourceFile :=
  { path := "A.gs", kind := .backend, text := "function ab()\x7b\x7dfunction cd()\x7b\x7d".toList, size := 30 }

def entryFile : SourceFile :=
  { path := "B.gs", kind := .backend, text := "function ef()\x7bab()\x7d".toList, size := 19 }

/-- What is read off the two, before the cut and after it. -/
def entryReading (file : SourceFile) : Extraction :=
  if file.path = "A.gs" then
    { path := "A.gs"
      definitions := [⟨"A.gs", "ab", .function, 1, 1, 0, 15, 9⟩, ⟨"A.gs", "cd", .function, 1, 1, 15, 30, 24⟩] }
  else
    { path := "B.gs"
      definitions := [⟨"B.gs", "ef", .function, 1, 1, 0, 19, 9⟩]
      mentions := [⟨"ab", .call, 1, some "ef"⟩] }

theorem extract_halfUsedFile : extract plainReading halfUsedFile = entryReading halfUsedFile := by
  decide +kernel

theorem extract_entryFile : extract plainReading entryFile = entryReading entryFile := by
  decide +kernel

def cutFile : SourceFile :=
  { halfUsedFile with text := "function ab()\x7b\x7d\n".toList, size := 16 }

theorem shorten_halfUsedFile : ({ functions := [⟨"A.gs", "cd"⟩] } : Plan).shorten halfUsedFile = cutFile := by
  decide +kernel

theorem extract_cutFile :
    extract plainReading cutFile = { path := "A.gs", definitions := [⟨"A.gs", "ab", .function, 1, 1, 0, 15, 9⟩] } := by
  decide +kernel

theorem halfUsedFile_live_after_sweep :
    ([halfUsedFile, entryFile].map (·.path)).Nodup ∧
      ∃ analysis plan again, analyzeFiles (entrySettings ["ef"]) [halfUsedFile, entryFile] = .ok analysis ∧
        plan = ofAssessment .low (Assessment.ofAnalysis (entrySettings ["ef"]).riskPolicy analysis) ∧
        analyzeFiles (entrySettings ["ef"]) (plan.carryOut [halfUsedFile, entryFile]) = .ok again ∧
        again.usedFiles = analysis.usedFiles ∧ again.usedSymbols = analysis.usedSymbols ∧
        analysis.usedSymbols = ["ab", "ef"] ∧ plan = { functions := [⟨"A.gs", "cd"⟩] } := by
  have readings : ∀ file ∈ [halfUsedFile, entryFile], extract plainReading file = entryReading file := by
    intro file listed
    rcases List.mem_cons.mp listed with rfl | listed
    · exact extract_halfUsedFile
    · rw [List.mem_singleton.mp listed]
      exact extract_entryFile
  have pathsDistinct : ([halfUsedFile, entryFile].map (·.path)).Nodup := by decide
  have used : (Analysis.ofBuild (Build.ofExtractor entryReading [halfUsedFile, entryFile])
      (entryRoots ["ef"] entryReading [halfUsedFile, entryFile])).map (·.usedSymbols) = .ok ["ab", "ef"] := by
    cbv
  have planned : (Analysis.ofBuild (Build.ofExtractor entryReading [halfUsedFile, entryFile])
      (entryRoots ["ef"] entryReading [halfUsedFile, entryFile])).map
        (fun analysis => ofAssessment .low (Assessment.ofAnalysis (entrySettings ["ef"]).riskPolicy analysis)) =
          .ok { functions := [⟨"A.gs", "cd"⟩] } := by
    cbv
  obtain ⟨analysis, run, isUsed, build⟩ := exists_analyzeFiles_of_table readings used
  rw [build] at planned
  have isPlan := Except.ok.inj planned
  obtain ⟨_, plan, again, sameRun, rfl, secondRun, law⟩ :=
    (analyzeFiles_carryOut (entrySettings ["ef"]) [halfUsedFile, entryFile] .low pathsDistinct).2 [] rfl
  obtain rfl : analysis = _ := Except.ok.inj (run.symm.trans sameRun)
  dsimp only at isPlan
  rw [isPlan] at secondRun law
  -- the one file loses a function that nothing needs, the other loses nothing
  have cuts : ∀ file ∈ [halfUsedFile, entryFile],
      analysis.BringsNothing (extract plainReading file)
        (extract plainReading (({ functions := [⟨"A.gs", "cd"⟩] } : Plan).shorten file)) ∧
      analysis.TakesNothingLive (extract plainReading file)
        (extract plainReading (({ functions := [⟨"A.gs", "cd"⟩] } : Plan).shorten file)) := by
    intro file listed
    rcases List.mem_cons.mp listed with rfl | listed
    · rw [shorten_halfUsedFile, extract_cutFile, extract_halfUsedFile]
      constructor
      · exact ⟨by decide, List.Subset.refl _, fun _ _ _ mentions => mentions, fun _ => List.Subset.refl _⟩
      · refine ⟨?_, fun _ _ _ mentions => mentions, fun _ => List.Subset.refl _⟩
        rw [isUsed]
        decide
    · rw [List.mem_singleton.mp listed, extract_shorten_of_uncut plainReading rfl]
      exact ⟨⟨List.Subset.refl _, List.Subset.refl _, fun _ _ _ mentions => mentions, fun _ => List.Subset.refl _⟩,
        ⟨fun _ _ named => named, fun _ _ _ mentions => mentions, fun _ => List.Subset.refl _⟩⟩
  have within : (entryRoots ["ef"] entryReading [halfUsedFile, entryFile]).Within
      (rootsOf (entrySettings ["ef"]) [] (({ functions := [⟨"A.gs", "cd"⟩] } : Plan).carryOut [halfUsedFile, entryFile])) := by
    have noTriggers : (Build.ofExtractor entryReading [halfUsedFile, entryFile]).triggerNames = [] := by cbv
    refine ⟨?_, List.Subset.refl _, List.Subset.refl _⟩
    rw [entryRoots, noTriggers]
    exact List.subset_append_left _ _
  have reached := Analysis.allReached_of_within build within
  rw [← Build.ofExtractor_congr readings] at reached
  have same := ((law fun file listed _ => (cuts file listed).1).2 fun file listed _ => (cuts file listed).2).mpr reached
  exact ⟨pathsDistinct, analysis, _, again, run, isPlan.symm, secondRun, same.1, same.2, isUsed, rfl⟩

/-- A file whose only function sets up a trigger, and is not needed itself. -/
def registeringFile : SourceFile :=
  { path := "A.gs", kind := .backend, text := "function ab()\x7bScriptApp.newTrigger('cd')\x7d".toList, size := 41 }

/-- The function that the trigger is set up for. -/
def triggeredFile : SourceFile :=
  { path := "B.gs", kind := .backend, text := "function cd()\x7b\x7d".toList, size := 15 }

def triggerReading (file : SourceFile) : Extraction :=
  if file.path = "A.gs" then
    { path := "A.gs"
      definitions := [⟨"A.gs", "ab", .function, 1, 1, 0, 41, 9⟩]
      mentions := [⟨"newTrigger", .memberCall, 1, some "ab"⟩]
      triggerNames := ["cd"]
      stringWords := ["cd"] }
  else { path := "B.gs", definitions := [⟨"B.gs", "cd", .function, 1, 1, 0, 15, 9⟩] }

theorem extract_registeringFile : extract plainReading registeringFile = triggerReading registeringFile := by
  decide +kernel

theorem extract_triggeredFile : extract plainReading triggeredFile = triggerReading triggeredFile := by
  decide +kernel

theorem readings_trigger : ∀ file ∈ [registeringFile, triggeredFile], extract plainReading file = triggerReading file := by
  intro file listed
  rcases List.mem_cons.mp listed with rfl | listed
  · exact extract_registeringFile
  · rw [List.mem_singleton.mp listed]
    exact extract_triggeredFile

/-- The roots are there for one analysis: a function is used while code that nothing needs sets up a trigger for it, and unused
once that code is swept. -/
theorem swept_registration_leaves_function_dead :
    ∃ analysis plan again, analyzeFiles (entrySettings []) [registeringFile, triggeredFile] = .ok analysis ∧
      plan = ofAssessment .low (Assessment.ofAnalysis (entrySettings []).riskPolicy analysis) ∧
      analyzeFiles (entrySettings []) (plan.carryOut [registeringFile, triggeredFile]) = .ok again ∧
      analysis.usedSymbols = ["cd"] ∧ again.usedSymbols = [] := by
  have used : (Analysis.ofBuild (Build.ofExtractor triggerReading [registeringFile, triggeredFile])
      (entryRoots [] triggerReading [registeringFile, triggeredFile])).map (·.usedSymbols) = .ok ["cd"] := by
    cbv
  have usedAgain : (Analysis.ofBuild (Build.ofExtractor triggerReading [triggeredFile])
      (entryRoots [] triggerReading [triggeredFile])).map (·.usedSymbols) = .ok [] := by
    cbv
  have planned : (Analysis.ofBuild (Build.ofExtractor triggerReading [registeringFile, triggeredFile])
      (entryRoots [] triggerReading [registeringFile, triggeredFile])).map
        (fun analysis => ofAssessment .low (Assessment.ofAnalysis (entrySettings []).riskPolicy analysis)) =
          .ok { files := ["A.gs"] } := by
    cbv
  have left : ({ files := ["A.gs"] } : Plan).carryOut [registeringFile, triggeredFile] = [triggeredFile] := by
    cbv
  obtain ⟨analysis, run, isUsed, build⟩ := exists_analyzeFiles_of_table readings_trigger used
  obtain ⟨again, secondRun, isUsedAgain, _⟩ :=
    exists_analyzeFiles_of_table (fun file listed => readings_trigger file (List.mem_cons_of_mem _ listed)) usedAgain
  rw [build] at planned
  exact ⟨analysis, { files := ["A.gs"] }, again, run, (Except.ok.inj planned).symm, left ▸ secondRun, isUsed, isUsedAgain⟩

end Plan
end Deadwood
