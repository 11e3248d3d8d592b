import Mathlib.Data.List.Nodup
import Deadwood.Proofs.StableOrder
import Deadwood.Proofs.SweptAnalysis

/-!
# Plans at wider thresholds

A plan lists everything unused that is rated within its threshold, each item once and in order: files, and functions of the
files that stay. A wider threshold takes more files as a whole, so a function can leave the list, but only because its file is
now on it.
-/

set_option autoImplicit false
namespace Deadwood

open Source

def PlannedCut.Precedes (first second : PlannedCut) : Prop :=
  first.path < second.path ∨ first.path = second.path ∧ first.name < second.name

/-- Different cuts that are in order by path and name are strictly so. -/
theorem PlannedCut.precedes_of_cutNotAfter {first second : PlannedCut} (ordered : Plan.cutNotAfter first second = true)
    (differ : first ≠ second) : first.Precedes second := by
  have strict : ∀ {a b : String}, a ≤ b → a ≠ b → a < b := by
    intro a b before differs
    by_contra notBefore
    exact differs (String.le_antisymm before (String.not_lt.mp notBefore))
  rw [Plan.cutNotAfter, Text.notAfter] at ordered
  split at ordered
  case isTrue samePath =>
    have otherName : first.name ≠ second.name := by
      intro sameName
      cases first
      cases second
      exact differ (by rw [PlannedCut.mk.injEq]; exact ⟨samePath, sameName⟩)
    rw [Text.notAfter, if_neg otherName, decide_eq_true_eq] at ordered
    exact Or.inr ⟨samePath, strict ordered otherName⟩
  case isFalse otherPath =>
    rw [decide_eq_true_eq] at ordered
    exact Or.inl (strict ordered otherPath)

namespace Plan

variable {policy : RiskPolicy} {build : Build} {roots : Roots} {analysis : Analysis} {threshold : RiskLevel}

/-- What a plan is to be at a threshold. -/
structure Selects (plan : Plan) (policy : RiskPolicy) (build : Build) (analysis : Analysis) (threshold : RiskLevel) :
    Prop where
  files_ordered : plan.files.Pairwise (· < ·)
  cuts_ordered : plan.functions.Pairwise PlannedCut.Precedes
  mem_files : ∀ path, path ∈ plan.files ↔
    ∃ file ∈ analysis.unusedFiles, file.path = path ∧ (policy.rateFile file).level.within threshold = true
  mem_cuts : ∀ cut, cut ∈ plan.functions ↔ cut.path ∉ plan.files ∧
    ∃ symbol ∈ analysis.unusedSymbols, symbol.name = cut.name ∧ (policy.rateSymbol symbol).level.within threshold = true ∧
      ∃ definition ∈ build.graph.definitionsOf cut.name, definition.path = cut.path
  files_dead : ∀ path ∈ plan.files, (build.graph.file? path).isSome ∧ path ∉ analysis.usedFiles
  cuts_dead : ∀ cut ∈ plan.functions, (build.graph.symbol? cut.name).isSome ∧ cut.name ∉ analysis.usedSymbols
  covers : ∀ symbol ∈ analysis.unusedSymbols, (policy.rateSymbol symbol).level.within threshold = true →
    ∀ definition ∈ build.graph.definitionsOf symbol.name,
      ⟨definition.path, symbol.name⟩ ∈ plan.functions ∨ definition.path ∈ plan.files

/-- What the first plan takes the second takes too, though perhaps with the file around it. -/
structure Widens (first second : Plan) : Prop where
  files : first.files ⊆ second.files
  cuts : ∀ cut ∈ first.functions, cut ∈ second.functions ∨ cut.path ∈ second.files

theorem mem_functions_iff {cut : PlannedCut} :
    cut ∈ (ofAssessment threshold (Assessment.ofAnalysis policy analysis)).functions ↔
      cut.path ∉ (ofAssessment threshold (Assessment.ofAnalysis policy analysis)).files ∧
        ∃ symbol ∈ analysis.unusedSymbols, symbol.name = cut.name ∧
          (policy.rateSymbol symbol).level.within threshold = true ∧ cut.path ∈ symbol.definedIn := by
  simp only [ofAssessment, Assessment.ofAnalysis, List.mem_mergeSort, List.mem_flatMap, List.mem_filter, List.mem_map]
  constructor
  · rintro ⟨_, ⟨⟨symbol, unused, rfl⟩, within⟩, path, ⟨defining, stays⟩, rfl⟩
    exact ⟨by simpa using stays, symbol, unused, rfl, within, defining⟩
  · rintro ⟨stays, symbol, unused, named, within, defining⟩
    exact ⟨_, ⟨⟨symbol, unused, rfl⟩, within⟩, cut.path, ⟨defining, by simpa using stays⟩, by rw [named]⟩

theorem files_sublist (threshold : RiskLevel) (policy : RiskPolicy) (analysis : Analysis) :
    (ofAssessment threshold (Assessment.ofAnalysis policy analysis)).files.Sublist (analysis.unusedFiles.map (·.path)) := by
  have sub := List.filter_sublist (p := fun rated : RatedFile => rated.rating.level.within threshold)
    (l := (Assessment.ofAnalysis policy analysis).files)
  have paths := sub.map fun rated => rated.file.path
  rwa [Assessment.ofAnalysis, List.map_map] at paths

/-- No cut is planned twice: symbols have different names, and each is looked for once in a file. -/
theorem nodup_functions (names : (analysis.unusedSymbols.map (·.name)).Nodup) :
    (ofAssessment threshold (Assessment.ofAnalysis policy analysis)).functions.Nodup := by
  rw [ofAssessment, (List.mergeSort_perm _ _).nodup_iff, List.nodup_flatMap]
  constructor
  · intro rated _
    have paths : rated.symbol.definedIn.Nodup := (Text.pairwise_sortedSet _).imp String.ne_of_lt
    exact (paths.filter _).map fun first second same => congrArg PlannedCut.path same
  · have differ : (Assessment.ofAnalysis policy analysis).symbols.Pairwise
        fun first second => first.symbol.name ≠ second.symbol.name := by
      rw [Assessment.ofAnalysis, List.pairwise_map]
      exact List.pairwise_map.mp names
    refine (differ.filter _).imp fun {first second} otherName cut inFirst inSecond => ?_
    obtain ⟨path, _, rfl⟩ := List.mem_map.mp inFirst
    obtain ⟨other, _, same⟩ := List.mem_map.mp inSecond
    exact otherName (congrArg PlannedCut.name same).symm

theorem cuts_ordered (names : (analysis.unusedSymbols.map (·.name)).Nodup) :
    (ofAssessment threshold (Assessment.ofAnalysis policy analysis)).functions.Pairwise PlannedCut.Precedes := by
  have orders : Text.Orders cutNotAfter := Text.orders_notAfter
  have sorted : (ofAssessment threshold (Assessment.ofAnalysis policy analysis)).functions.Pairwise
      fun first second => cutNotAfter first second = true :=
    List.pairwise_mergeSort orders.trans orders.total _
  have once : (ofAssessment threshold (Assessment.ofAnalysis policy analysis)).functions.Nodup := nodup_functions names
  exact (sorted.and once).imp fun both => PlannedCut.precedes_of_cutNotAfter both.1 both.2

/-- The files that define an unused symbol are those of its definitions in the graph. -/
theorem mem_definedIn_iff (run : Analysis.ofBuild build roots = .ok analysis) {symbol : UnusedSymbol}
    (unused : symbol ∈ analysis.unusedSymbols) {path : String} :
    path ∈ symbol.definedIn ↔ ∃ definition ∈ build.graph.definitionsOf symbol.name, definition.path = path := by
  have same := Analysis.perm_definitions_of_unused run unused
  simp only [UnusedSymbol.definedIn, Text.mem_sortedSet, List.mem_map, same.mem_iff]

theorem selects_ofAssessment (run : Analysis.ofBuild build roots = .ok analysis) (policy : RiskPolicy)
    (threshold : RiskLevel) :
    Selects (ofAssessment threshold (Assessment.ofAnalysis policy analysis)) policy build analysis threshold := by
  have divides := Analysis.divides_of_ofGraph_eq_ok run
  have mem_cuts : ∀ cut, cut ∈ (ofAssessment threshold (Assessment.ofAnalysis policy analysis)).functions ↔
      cut.path ∉ (ofAssessment threshold (Assessment.ofAnalysis policy analysis)).files ∧
        ∃ symbol ∈ analysis.unusedSymbols, symbol.name = cut.name ∧
          (policy.rateSymbol symbol).level.within threshold = true ∧
            ∃ definition ∈ build.graph.definitionsOf cut.name, definition.path = cut.path := by
    intro cut
    rw [mem_functions_iff]
    refine and_congr_right fun _ => exists_congr fun symbol => and_congr_right fun unused => and_congr_right fun named => ?_
    rw [mem_definedIn_iff run unused, named]
  constructor
  case files_ordered => exact divides.unusedFiles_sorted.sublist (files_sublist threshold policy analysis)
  case cuts_ordered => exact cuts_ordered (divides.unusedSymbols_sorted.imp String.ne_of_lt)
  case mem_files => exact fun path => mem_files_ofAssessment
  case mem_cuts => exact mem_cuts
  case files_dead =>
    intro path planned
    obtain ⟨file, unused, rfl, _⟩ := mem_files_ofAssessment.mp planned
    obtain ⟨known, dead⟩ := (divides.mem_unusedFiles _).mp (List.mem_map_of_mem unused)
    exact ⟨known, fun used => dead ((divides.mem_usedFiles _).mp used).2⟩
  case cuts_dead =>
    intro cut planned
    obtain ⟨_, symbol, unused, named, _⟩ := (mem_cuts cut).mp planned
    obtain ⟨known, dead⟩ := (divides.mem_unusedSymbols _).mp (List.mem_map_of_mem unused)
    rw [named] at known dead
    exact ⟨known, fun used => dead ((divides.mem_usedSymbols _).mp used).2⟩
  case covers =>
    intro symbol unused within definition defines
    by_cases whole : definition.path ∈ (ofAssessment threshold (Assessment.ofAnalysis policy analysis)).files
    · exact Or.inr whole
    · exact Or.inl ((mem_cuts _).mpr ⟨whole, symbol, unused, rfl, within, definition, defines, rfl⟩)

theorem within_mono {level first second : RiskLevel} (wider : first.rank ≤ second.rank)
    (within : level.within first = true) : level.within second = true := by
  rw [RiskLevel.within, decide_eq_true_eq] at within ⊢
  exact Nat.le_trans within wider

theorem widens_of_rank_le {first second : RiskLevel} (wider : first.rank ≤ second.rank) (policy : RiskPolicy)
    (analysis : Analysis) :
    Widens (ofAssessment first (Assessment.ofAnalysis policy analysis))
      (ofAssessment second (Assessment.ofAnalysis policy analysis)) := by
  constructor
  case files =>
    intro path planned
    obtain ⟨file, unused, samePath, within⟩ := mem_files_ofAssessment.mp planned
    exact mem_files_ofAssessment.mpr ⟨file, unused, samePath, within_mono wider within⟩
  case cuts =>
    intro cut planned
    obtain ⟨_, symbol, unused, named, within, defining⟩ := mem_functions_iff.mp planned
    by_cases whole : cut.path ∈ (ofAssessment second (Assessment.ofAnalysis policy analysis)).files
    · exact Or.inr whole
    · exact Or.inl (mem_functions_iff.mpr ⟨whole, symbol, unused, named, within_mono wider within, defining⟩)

/-- A plan is what it is to be at every threshold, and a wider threshold only widens it. -/
theorem ofAssessment_widens (build : Build) (roots : Roots) (policy : RiskPolicy) {analysis : Analysis}
    (run : Analysis.ofBuild build roots = .ok analysis) :
    (∀ threshold, Selects (ofAssessment threshold (Assessment.ofAnalysis policy analysis)) policy build analysis threshold) ∧
      ∀ first second : RiskLevel, first.rank ≤ second.rank →
        Widens (ofAssessment first (Assessment.ofAnalysis policy analysis))
          (ofAssessment second (Assessment.ofAnalysis policy analysis)) :=
  ⟨selects_ofAssessment run policy, fun _ _ wider => widens_of_rank_le wider policy analysis⟩

/-- A policy to which a file of twenty bytes is large. -/
def tightPolicy : RiskPolicy :=
  { protectedSubstrings := [], configFiles := [], largeFileBytes := 10 }

def largeReading (file : SourceFile) : Extraction :=
  if file.path = "A.gs" then { path := "A.gs", definitions := [initDefinition] } else nestedReading file

theorem extract_initFile : extract plainReading initFile = largeReading initFile := by
  decide +kernel

/-- The function of the large file leaves the plan when the file enters it. -/
theorem ofAssessment_widens_to_initFile :
    ∃ analysis low medium,
      Analysis.ofBuild (Build.ofExtractor (extract plainReading) [initFile, callerFile]) {} = .ok analysis ∧
      low = ofAssessment .low (Assessment.ofAnalysis tightPolicy analysis) ∧
      medium = ofAssessment .medium (Assessment.ofAnalysis tightPolicy analysis) ∧
      low = { files := ["B.gs"], functions := [⟨"A.gs", "initX"⟩] } ∧ medium = { files := ["A.gs", "B.gs"] } ∧
      Selects low tightPolicy (Build.ofExtractor (extract plainReading) [initFile, callerFile]) analysis .low ∧
      Selects medium tightPolicy (Build.ofExtractor (extract plainReading) [initFile, callerFile]) analysis .medium ∧
      Widens low medium := by
  have readings : ∀ file ∈ [initFile, callerFile], extract plainReading file = largeReading file := by
    intro file listed
    rcases List.mem_cons.mp listed with rfl | listed
    · exact extract_initFile
    · rw [List.mem_singleton.mp listed]
      exact extract_callerFile
  rw [Build.ofExtractor_congr readings]
  have planned : (Analysis.ofBuild (Build.ofExtractor largeReading [initFile, callerFile]) {}).map
      (fun analysis => (ofAssessment .low (Assessment.ofAnalysis tightPolicy analysis),
        ofAssessment .medium (Assessment.ofAnalysis tightPolicy analysis))) =
      .ok ({ files := ["B.gs"], functions := [⟨"A.gs", "initX"⟩] }, { files := ["A.gs", "B.gs"] }) := by
    cbv
  obtain ⟨analysis, run, both⟩ := exists_of_map_eq_ok planned
  obtain ⟨atLow, atMedium⟩ := Prod.mk.inj both
  obtain ⟨selects, widens⟩ := ofAssessment_widens _ {} tightPolicy run
  exact ⟨analysis, _, _, run, rfl, rfl, atLow, atMedium, selects .low, selects .medium, widens .low .medium (by decide)⟩

end Plan
end Deadwood
