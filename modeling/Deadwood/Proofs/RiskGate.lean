import Mathlib
import Deadwood.Plan
import Deadwood.Proofs.BuiltGraph
import Deadwood.Proofs.Seam

/-!
# The threshold of a plan

A plan holds what is rated within its threshold, but deleting a file takes away everything that the file defines and a
cut takes away everything that stands in its span. Files and symbols are rated by rules of their own, so a definition of
a symbol above the threshold can go along with something below it. Here is exactly when.
-/

set_option autoImplicit false
namespace Deadwood

open Files Source Text

/-! ## Levels -/

namespace RiskLevel

variable {level threshold : RiskLevel}

theorem within_low : level.within .low = true ↔ level = .low := by
  cases level <;> decide

theorem within_eq_false_of_ne_high (noHigh : level ≠ .high) :
    level.within threshold = false ↔ threshold = .low ∧ level = .medium := by
  cases level <;> cases threshold <;> simp [within, rank] at noHigh ⊢

end RiskLevel

namespace RiskPolicy

variable {policy : RiskPolicy}

/-- A backend file of ordinary name and size. -/
structure Plain (policy : RiskPolicy) (file : UnusedFile) : Prop where
  backend : file.kind = .backend
  ordinary : lastPart file.path ∉ policy.configFiles
  small : file.size ≤ policy.largeFileBytes

/-- Something speaks against deleting a symbol. -/
inductive Suspect (policy : RiskPolicy) (symbol : UnusedSymbol) : Prop
  | severalDefinitions (several : 1 < symbol.definitions.length)
  | protectedName {fragment : String} (listed : fragment ∈ policy.protectedSubstrings)
      (named : contains (lower fragment).toList (lower symbol.name).toList = true)
  | mentioned (inLiteral : symbol.mentionedInStrings = true)
  | onPagesOnly (somewhere : symbol.fileKinds ≠ []) (pages : ∀ owner ∈ symbol.fileKinds, owner.2 = .frontend)

theorem rateFile_eq_low_iff {file : UnusedFile} : (policy.rateFile file).level = .low ↔ policy.Plain file := by
  unfold rateFile
  split
  · rename_i manifest
    rw [Bool.or_eq_true, decide_eq_true_eq, List.contains_iff_mem] at manifest
    refine ⟨fun low => (by cases low), fun plain => ?_⟩
    rcases manifest with isConfig | listed
    · cases plain.backend.symm.trans isConfig
    · exact absurd listed plain.ordinary
  · rename_i noManifest
    rw [Bool.or_eq_true, decide_eq_true_eq, List.contains_iff_mem, not_or] at noManifest
    split
    · rename_i isPage
      refine ⟨fun low => (by cases low), fun plain => ?_⟩
      cases plain.backend.symm.trans isPage
    · rename_i noPage
      split
      · rename_i large
        refine ⟨fun low => (by cases low), fun plain => ?_⟩
        exact absurd large (Int.not_lt.mpr plain.small)
      · rename_i small
        refine ⟨fun _ => ⟨?_, noManifest.2, Int.not_lt.mp small⟩, fun _ => rfl⟩
        cases kind : file.kind with
        | backend => rfl
        | frontend => exact absurd kind noPage
        | config => exact absurd kind noManifest.1

theorem rateSymbol_ne_high {symbol : UnusedSymbol} : (policy.rateSymbol symbol).level ≠ .high := by
  unfold rateSymbol
  dsimp only
  repeat' split
  all_goals
    intro high
    cases high

theorem rateSymbol_eq_medium_iff {symbol : UnusedSymbol} :
    (policy.rateSymbol symbol).level = .medium ↔ policy.Suspect symbol := by
  unfold rateSymbol
  dsimp only
  split
  · rename_i several
    exact ⟨fun _ => .severalDefinitions several, fun _ => rfl⟩
  · rename_i notSeveral
    split
    · rename_i fragment found
      have named := List.find?_some found
      exact ⟨fun _ => .protectedName (List.mem_of_find?_eq_some found) named, fun _ => rfl⟩
    · rename_i noFragment
      split
      · rename_i inLiteral
        exact ⟨fun _ => .mentioned inLiteral, fun _ => rfl⟩
      · rename_i notMentioned
        split
        · rename_i onPages
          rw [Bool.and_eq_true, Bool.not_eq_true', List.isEmpty_eq_false_iff, List.all_eq_true] at onPages
          refine ⟨fun _ => .onPagesOnly onPages.1 fun owner member => ?_, fun _ => rfl⟩
          exact of_decide_eq_true (onPages.2 owner member)
        · rename_i notOnPages
          refine ⟨fun medium => (by cases medium), fun suspect => ?_⟩
          cases suspect with
          | severalDefinitions several => exact absurd several notSeveral
          | protectedName listed named =>
              exact absurd named (List.find?_eq_none.mp noFragment _ listed)
          | mentioned inLiteral => exact absurd inLiteral notMentioned
          | onPagesOnly somewhere pages =>
              refine absurd ?_ notOnPages
              rw [Bool.and_eq_true, Bool.not_eq_true', List.isEmpty_eq_false_iff, List.all_eq_true]
              exact ⟨somewhere, fun owner member => decide_eq_true (pages owner member)⟩

/-- A symbol is above a threshold only if the threshold is low and something speaks against deleting the symbol. -/
theorem rateSymbol_above_iff {symbol : UnusedSymbol} {threshold : RiskLevel} :
    (policy.rateSymbol symbol).level.within threshold = false ↔ threshold = .low ∧ policy.Suspect symbol := by
  rw [RiskLevel.within_eq_false_of_ne_high rateSymbol_ne_high, rateSymbol_eq_medium_iff]

end RiskPolicy

/-! ## Following an offset through a plan -/

namespace Plan

variable {path : String} {text : List Char}

def spanOf? (path : String) (text : List Char) (planned : PlannedCut) : Option FunctionSpan :=
  if planned.path = path then Removal.locate? (isPagePath planned.path) planned.name text else none

theorem cutOne_eq_of_spanOf? {planned : PlannedCut} {span : FunctionSpan}
    (located : spanOf? path text planned = some span) : cutOne path text planned = Removal.cut text span := by
  unfold spanOf? at located
  split at located
  · rename_i same
    rw [cutOne, if_pos same, Removal.remove?, located]
    rfl
  · cases located

theorem cutOne_eq_self {planned : PlannedCut} (notLocated : spanOf? path text planned = none) :
    cutOne path text planned = text := by
  unfold spanOf? at notLocated
  split at notLocated
  · rename_i same
    rw [cutOne, if_pos same, Removal.remove?, notLocated]
    rfl
  · rename_i differs
    rw [cutOne, if_neg differs]

def placeAfterOne (path : String) (text : List Char) (planned : PlannedCut) (offset : Nat) : Option Nat :=
  match spanOf? path text planned with
  | some span => Removal.placeAfterCut text span offset
  | none => some offset

/-- Where an offset of the text of the file at a path is after planned cuts, none if one of them takes it away. -/
def placeAfter (path : String) : List PlannedCut → List Char → Nat → Option Nat
  | [], _, offset => some offset
  | planned :: rest, text, offset =>
    (placeAfterOne path text planned offset).bind (placeAfter path rest (cutOne path text planned))

theorem getElem?_cutOne {planned : PlannedCut} {offset place : Nat} {c : Char} (present : text[offset]? = some c)
    (visible : isSpace c = false) (kept : placeAfterOne path text planned offset = some place) :
    (cutOne path text planned)[place]? = some c := by
  unfold placeAfterOne at kept
  split at kept
  · rename_i span located
    rw [cutOne_eq_of_spanOf? located]
    exact Removal.getElem?_cut present visible kept
  · rename_i notLocated
    rw [cutOne_eq_self notLocated]
    exact Option.some.inj kept ▸ present

/-- What no cut takes away stands in the text that the cuts leave. -/
theorem getElem?_foldl_cutOne {planned : List PlannedCut} {offset place : Nat} {c : Char}
    (present : text[offset]? = some c) (visible : isSpace c = false)
    (kept : placeAfter path planned text offset = some place) :
    (planned.foldl (cutOne path) text)[place]? = some c := by
  induction planned generalizing text offset with
  | nil => exact Option.some.inj kept ▸ present
  | cons first rest ih =>
      obtain ⟨between, keptFirst, keptRest⟩ := Option.bind_eq_some_iff.mp kept
      exact ih (getElem?_cutOne present visible keptFirst) keptRest

/-- One of the planned cuts takes an offset away: its span holds the place where the offset is when its turn comes. -/
def TakesAway (path : String) (planned : List PlannedCut) (text : List Char) (offset : Nat) : Prop :=
  ∃ earlier next later, planned = earlier ++ next :: later ∧
    ∃ place span, placeAfter path earlier text offset = some place ∧
      spanOf? path (earlier.foldl (cutOne path) text) next = some span ∧ span.start ≤ place ∧ place < span.stop

theorem placeAfterOne_eq_none_iff {planned : PlannedCut} {offset : Nat} :
    placeAfterOne path text planned offset = none ↔
      ∃ span, spanOf? path text planned = some span ∧ span.start ≤ offset ∧ offset < span.stop := by
  unfold placeAfterOne
  cases located : spanOf? path text planned with
  | none => simp
  | some span => simp [Removal.placeAfterCut_eq_none_iff]

theorem placeAfter_eq_none_iff {planned : List PlannedCut} {offset : Nat} :
    placeAfter path planned text offset = none ↔ TakesAway path planned text offset := by
  induction planned generalizing text offset with
  | nil =>
      refine ⟨fun gone => (by cases gone), ?_⟩
      rintro ⟨earlier, next, later, same, _⟩
      simp at same
  | cons first rest ih =>
      rw [placeAfter]
      constructor
      · intro gone
        cases keptFirst : placeAfterOne path text first offset with
        | none =>
            obtain ⟨span, located, inside⟩ := placeAfterOne_eq_none_iff.mp keptFirst
            exact ⟨[], first, rest, rfl, offset, span, rfl, located, inside⟩
        | some between =>
            rw [keptFirst, Option.bind_some] at gone
            obtain ⟨earlier, next, later, rfl, place, span, kept, located, inside⟩ := ih.mp gone
            refine ⟨first :: earlier, next, later, rfl, place, span, ?_, located, inside⟩
            rw [placeAfter, keptFirst, Option.bind_some, kept]
      · rintro ⟨earlier, next, later, same, place, span, kept, located, inside⟩
        cases earlier with
        | nil =>
            obtain ⟨rfl, rfl⟩ := List.cons.inj same
            obtain rfl := Option.some.inj kept
            rw [List.foldl_nil] at located
            rw [placeAfterOne_eq_none_iff.mpr ⟨span, located, inside⟩, Option.bind_none]
        | cons again earlier =>
            obtain ⟨rfl, rfl⟩ := List.cons.inj same
            obtain ⟨between, keptFirst, keptRest⟩ := Option.bind_eq_some_iff.mp kept
            rw [keptFirst, Option.bind_some]
            exact ih.mpr ⟨earlier, next, later, rfl, place, span, keptRest, located, inside⟩

/-! ## The gate -/

/-- Carrying out a plan removes a definition: its file is deleted, or a cut takes its name away. -/
def Removes (plan : Plan) (files : List SourceFile) (definition : Definition) : Prop :=
  definition.path ∈ plan.files ∨
    ∃ file ∈ files, file.path = definition.path ∧
      placeAfter file.path plan.functions file.text definition.position = none

variable {policy : RiskPolicy} {analysis : Analysis} {threshold : RiskLevel}

theorem mem_files_ofAssessment :
    path ∈ (ofAssessment threshold (Assessment.ofAnalysis policy analysis)).files ↔
      ∃ file ∈ analysis.unusedFiles, file.path = path ∧ (policy.rateFile file).level.within threshold = true := by
  simp only [ofAssessment, Assessment.ofAnalysis, List.mem_map, List.mem_filter]
  constructor
  · rintro ⟨_, ⟨⟨file, listed, rfl⟩, within⟩, rfl⟩
    exact ⟨file, listed, rfl, within⟩
  · rintro ⟨file, listed, rfl, within⟩
    exact ⟨_, ⟨⟨file, listed, rfl⟩, within⟩, rfl⟩

/-- The files of a plan are gone, and what no cut takes away from the others is still there. -/
theorem carryOut_spec (plan : Plan) (files : List SourceFile) :
    (∀ kept ∈ plan.carryOut files, kept.path ∉ plan.files) ∧
      ∀ file ∈ files, file.path ∉ plan.files → ∃ kept ∈ plan.carryOut files, kept.path = file.path ∧
        ∀ offset place c, file.text[offset]? = some c → isSpace c = false →
          placeAfter file.path plan.functions file.text offset = some place → kept.text[place]? = some c := by
  constructor
  · intro kept member
    obtain ⟨file, stays, rfl⟩ := List.mem_map.mp member
    simpa using (List.mem_filter.mp stays).2
  · intro file member stays
    refine ⟨_, List.mem_map_of_mem (List.mem_filter.mpr ⟨member, by simpa using stays⟩), rfl, ?_⟩
    intro offset place c present visible kept
    exact getElem?_foldl_cutOne present visible kept

/-- Of a symbol above the threshold a plan removes a definition just in this case: the threshold is low, something
speaks against deleting the symbol, and the definition stands in an unused file of ordinary name and size or in the
span of a planned cut. -/
theorem removes_above_threshold_iff (reading : Reading) (files : List SourceFile) (roots : Roots)
    (policy : RiskPolicy) (threshold : RiskLevel) :
    ∃ analysis, Analysis.ofBuild (Build.ofExtractor (extract reading) files) roots = .ok analysis ∧
      (∀ unused ∈ analysis.unusedFiles, ∃ file ∈ files,
        unused.path = file.path ∧ unused.kind = file.kind ∧ unused.size = file.size) ∧
      (∀ symbol ∈ analysis.unusedSymbols, ∀ definition, definition ∈ symbol.definitions ↔
        definition.name = symbol.name ∧ ∃ file ∈ files, definition ∈ (extract reading file).definitions) ∧
      ∀ plan, plan = ofAssessment threshold (Assessment.ofAnalysis policy analysis) →
        ((∃ rated ∈ (Assessment.ofAnalysis policy analysis).symbols, rated.rating.level.within threshold = false ∧
            ∃ definition ∈ rated.symbol.definitions, plan.Removes files definition) ↔
          threshold = .low ∧ ∃ symbol ∈ analysis.unusedSymbols, policy.Suspect symbol ∧
            ∃ definition ∈ symbol.definitions,
              (∃ file ∈ analysis.unusedFiles, file.path = definition.path ∧ policy.Plain file) ∨
                ∃ file ∈ files, file.path = definition.path ∧
                  TakesAway file.path plan.functions file.text definition.position) := by
  obtain ⟨analysis, run⟩ := Analysis.exists_ofBuild_eq_ok reading files roots
  refine ⟨analysis, run, fun unused listed => Analysis.exists_file_of_unused run listed,
    fun symbol listed definition => Analysis.mem_definitions_of_unused run listed, ?_⟩
  rintro plan rfl
  constructor
  · rintro ⟨_, rated, above, definition, defines, removed⟩
    obtain ⟨symbol, listed, rfl⟩ := List.mem_map.mp rated
    obtain ⟨rfl, suspect⟩ := RiskPolicy.rateSymbol_above_iff.mp above
    refine ⟨rfl, symbol, listed, suspect, definition, defines, ?_⟩
    rcases removed with whole | ⟨file, member, samePath, gone⟩
    · obtain ⟨file, unused, samePath, within⟩ := mem_files_ofAssessment.mp whole
      exact Or.inl ⟨file, unused, samePath,
        RiskPolicy.rateFile_eq_low_iff.mp (RiskLevel.within_low.mp within)⟩
    · exact Or.inr ⟨file, member, samePath, placeAfter_eq_none_iff.mp gone⟩
  · rintro ⟨rfl, symbol, listed, suspect, definition, defines, removed⟩
    refine ⟨_, List.mem_map_of_mem listed, RiskPolicy.rateSymbol_above_iff.mpr ⟨rfl, suspect⟩, definition, defines, ?_⟩
    rcases removed with ⟨file, unused, samePath, plain⟩ | ⟨file, member, samePath, takenAway⟩
    · exact Or.inl (mem_files_ofAssessment.mpr
        ⟨file, unused, samePath, RiskLevel.within_low.mpr (RiskPolicy.rateFile_eq_low_iff.mpr plain)⟩)
    · exact Or.inr ⟨file, member, samePath, placeAfter_eq_none_iff.mpr takenAway⟩

/-- A small file of ordinary name that defines a function of a protected name. -/
def initFile : SourceFile :=
  { path := "A.gs", kind := .backend, text := "function initX() \x7b\x7d".toList, size := 19 }

def initPolicy : RiskPolicy :=
  { protectedSubstrings := ["init"], configFiles := [], largeFileBytes := 100 }

def plainReading : Reading :=
  Reading.ofLists [] [] []

def initDefinition : Definition :=
  { path := "A.gs", name := "initX", kind := .function, startLine := 1, endLine := 1
    startOffset := 0, endOffset := 19, position := 9 }

theorem definitions_initFile (reading : Reading) : (extract reading initFile).definitions = [initDefinition] := by
  rw [definitions_extract (by decide)]
  decide +kernel

/-- The function is above the threshold, the file is not, and both go. -/
theorem initFile_takes_function_above_threshold :
    ∃ analysis, Analysis.ofBuild (Build.ofExtractor (extract plainReading) [initFile]) {} = .ok analysis ∧
      ∃ rated ∈ (Assessment.ofAnalysis initPolicy analysis).symbols, rated.rating.level.within .low = false ∧
        ∃ definition ∈ rated.symbol.definitions,
          (ofAssessment .low (Assessment.ofAnalysis initPolicy analysis)).Removes [initFile] definition := by
  obtain ⟨analysis, run⟩ := Analysis.exists_ofBuild_eq_ok plainReading [initFile] {}
  have divides := Analysis.divides_of_ofGraph_eq_ok run
  have noneLive : ∀ node,
      ¬ ∃ mode, Graph.Reached (Build.ofExtractor (extract plainReading) [initFile]).graph {} node mode :=
    fun node live => Graph.not_reached_of_no_roots live.choose_spec
  have readOff := definitions_initFile plainReading
  have entered : initDefinition ∈
      (Build.ofExtractor (extract plainReading) [initFile]).graph.definitionsOf "initX" := by
    rw [Build.definitionsOf_ofExtractor]
    simp [readOff, initDefinition]
  have symbolListed : "initX" ∈ analysis.unusedSymbols.map (·.name) :=
    (divides.mem_unusedSymbols "initX").mpr ⟨Graph.isSome_symbol?_of_mem_definitionsOf entered, noneLive _⟩
  have fileListed : "A.gs" ∈ analysis.unusedFiles.map (·.path) :=
    (divides.mem_unusedFiles "A.gs").mpr ⟨Build.isSome_file?_ofExtractor.mpr List.mem_cons_self, noneLive _⟩
  obtain ⟨symbol, listed, named⟩ := List.mem_map.mp symbolListed
  obtain ⟨unused, unusedListed, atPath⟩ := List.mem_map.mp fileListed
  obtain ⟨file, member, _, kind, size⟩ := Analysis.exists_file_of_unused run unusedListed
  obtain rfl := List.mem_singleton.mp member
  have listedFragment : "init" ∈ initPolicy.protectedSubstrings := List.mem_cons_self
  have suspect : initPolicy.Suspect symbol := by
    refine .protectedName listedFragment ?_
    rw [named]
    decide +kernel
  have plain : initPolicy.Plain unused := ⟨kind, List.not_mem_nil, size ▸ by decide⟩
  have defines : initDefinition ∈ symbol.definitions :=
    (Analysis.mem_definitions_of_unused run listed).mpr
      ⟨named.symm, initFile, List.mem_cons_self, readOff ▸ List.mem_cons_self⟩
  have planned : "A.gs" ∈ (ofAssessment .low (Assessment.ofAnalysis initPolicy analysis)).files :=
    mem_files_ofAssessment.mpr
      ⟨unused, unusedListed, atPath, RiskLevel.within_low.mpr (RiskPolicy.rateFile_eq_low_iff.mpr plain)⟩
  exact ⟨analysis, run, _, List.mem_map_of_mem listed, RiskPolicy.rateSymbol_above_iff.mpr ⟨rfl, suspect⟩,
    initDefinition, defines, Or.inl planned⟩

end Plan
end Deadwood
