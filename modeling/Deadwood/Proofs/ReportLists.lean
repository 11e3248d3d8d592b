import Deadwood.Proofs.ReportReading

/-!
# Rated items in reports

The table, the detailed report and the summary show the rated files and symbols with their levels. Reading them gives back the
ratings; the summary is read line by line, so its lines must hold no line feed.
-/

set_option autoImplicit false
namespace Deadwood.Report

variable {report : Report}

/-! ## What is reported -/

def ratedFiles (report : Report) : List (String × RiskLevel) :=
  report.assessment.files.map fun rated => (rated.file.path, rated.rating.level)

def ratedSymbols (report : Report) : List (String × RiskLevel) :=
  report.assessment.symbols.map fun rated => (rated.symbol.name, rated.rating.level)

/-! ## Tables and structured values -/

theorem tableItems_csvRows (type : String) (noTitle : "Type" ≠ type) (report : Report) : tableItems type report.csvRows =
    tableItems type (report.assessment.files.map csvFileRow) ++ tableItems type (report.assessment.symbols.map csvSymbolRow) := by
  rw [csvRows, tableItems, List.cons_append, List.filterMap_cons, List.filterMap_append]
  dsimp only
  rw [if_neg noTitle]
  rfl

theorem tableItems_file (report : Report) : tableItems "File" report.csvRows = report.ratedFiles := by
  have own : tableItems "File" (report.assessment.files.map csvFileRow) = report.ratedFiles := by
    apply filterMap_eq_map
    intro rated _
    simp [csvFileRow, levelOf?_label]
  have other : tableItems "File" (report.assessment.symbols.map csvSymbolRow) = [] := by
    apply filterMap_eq_nil
    intro rated _
    simp [csvSymbolRow]
  rw [tableItems_csvRows "File" (by decide), own, other, List.append_nil]

theorem tableItems_symbol (report : Report) : tableItems "Function" report.csvRows = report.ratedSymbols := by
  have own : tableItems "Function" (report.assessment.symbols.map csvSymbolRow) = report.ratedSymbols := by
    apply filterMap_eq_map
    intro rated _
    simp [csvSymbolRow, levelOf?_label]
  have other : tableItems "Function" (report.assessment.files.map csvFileRow) = [] := by
    apply filterMap_eq_nil
    intro rated _
    simp [csvFileRow]
  rw [tableItems_csvRows "Function" (by decide), own, other, List.nil_append]

theorem detailItems_files (report : Report) : detailItems "unused_files" "path" report.detail = report.ratedFiles := by
  have found : report.detail.get? "unused_files" =
      some (.array (report.assessment.files.map (fileEntry report.root))) := by
    simp [detail, JsonValue.get?, List.lookup_cons]
  rw [detailItems, found]
  dsimp only
  apply filterMap_eq_map
  intro rated _
  simp [fileEntry, ratingEntries, JsonValue.get?, List.lookup_cons, levelOf?_label]

theorem detailItems_symbols (report : Report) : detailItems "unused_symbols" "name" report.detail = report.ratedSymbols := by
  have found : report.detail.get? "unused_symbols" = some (.array (report.assessment.symbols.map symbolEntry)) := by
    simp [detail, JsonValue.get?, List.lookup_cons]
  rw [detailItems, found]
  dsimp only
  apply filterMap_eq_map
  intro rated _
  simp [symbolEntry, ratingEntries, JsonValue.get?, List.lookup_cons, levelOf?_label]

structure DetailCounts (report : Report) : Prop where
  summary : report.detail.get? "summary" = some (.object
    [("total_files", .nat report.analysis.totalFiles), ("used_files", .nat report.analysis.usedFiles.length),
     ("unused_files", .nat report.analysis.unusedFiles.length), ("total_symbols", .nat report.analysis.totalSymbols),
     ("used_symbols", .nat report.analysis.usedSymbols.length), ("unused_symbols", .nat report.analysis.unusedSymbols.length),
     ("unresolved_references", .nat report.analysis.unresolved.length)])
  fileLevels : ∀ level : RiskLevel, ((report.detail.get? "risk_assessment").bind (·.get? "files")).bind (·.get? level.label) =
    some (.nat (report.assessment.fileCount level))
  symbolLevels : ∀ level : RiskLevel,
    ((report.detail.get? "risk_assessment").bind (·.get? "symbols")).bind (·.get? level.label) =
      some (.nat (report.assessment.symbolCount level))

theorem get?_levelCounts (count : RiskLevel → Nat) (level : RiskLevel) :
    (levelCounts count).get? level.label = some (.nat (count level)) := by
  cases level <;> rfl

theorem detailCounts (report : Report) : DetailCounts report where
  summary := by simp [detail, JsonValue.get?, List.lookup_cons, summaryEntries]
  fileLevels level := by
    have found : (report.detail.get? "risk_assessment").bind (·.get? "files") =
        some (levelCounts report.assessment.fileCount) := by
      simp [detail, JsonValue.get?, List.lookup_cons]
    rw [found, Option.bind_some, get?_levelCounts]
  symbolLevels level := by
    have found : (report.detail.get? "risk_assessment").bind (·.get? "symbols") =
        some (levelCounts report.assessment.symbolCount) := by
      simp [detail, JsonValue.get?, List.lookup_cons]
    rw [found, Option.bind_some, get?_levelCounts]

/-! ## The summary -/

def overview (report : Report) : List String :=
  ["# Unused Code Report",
   "",
   "## Overview",
   "",
   "- **Generated**: " ++ report.generatedAt,
   "- **Root**: `" ++ report.root.toString ++ "`",
   "- **Total files**: " ++ toString report.analysis.totalFiles,
   "- **Unused files**: " ++ toString report.analysis.unusedFiles.length ++ " ("
     ++ percent report.analysis.unusedFiles.length report.analysis.totalFiles ++ ")",
   "- **Total symbols**: " ++ toString report.analysis.totalSymbols,
   "- **Unused symbols**: " ++ toString report.analysis.unusedSymbols.length ++ " ("
     ++ percent report.analysis.unusedSymbols.length report.analysis.totalSymbols ++ ")",
   "- **Unresolved references**: " ++ toString report.analysis.unresolved.length,
   ""]

def fileItems (report : Report) : List String :=
  linesOr (report.assessment.files.map summaryFileLine) "No unused files."

def symbolItems (report : Report) : List String :=
  linesOr (report.assessment.symbols.map summarySymbolLine) "No unused symbols."

def outlook (report : Report) : List String :=
  ["## Risk breakdown",
   "",
   "| | low | medium | high |",
   "|---|---|---|---|",
   countRow "files" report.assessment.fileCount,
   countRow "symbols" report.assessment.symbolCount,
   "",
   "## Before deleting",
   "",
   "1. Create a snapshot (`sweep backup create`).",
   "2. Start with low-risk items only.",
   "3. Run the validation command after every batch.",
   ""]

def summaryLines (report : Report) : List String :=
  report.overview ++ ["## Unused files", ""] ++ report.fileItems ++ ["", "## Unused symbols", ""] ++ report.symbolItems
    ++ [""] ++ report.outlook

theorem summary_eq (report : Report) : report.summary = joinLines report.summaryLines := by
  rw [summary, summaryLines, overview, fileItems, symbolItems, outlook]
  simp only [List.append_assoc, List.cons_append, List.nil_append]

theorem textLines_summary (whole : ∀ line ∈ report.summaryLines, '\n' ∉ line.toList) :
    textLines report.summary = report.summaryLines.map String.toList := by
  rw [summary_eq]
  exact textLines_joinLines (by simp [summaryLines]) whole

theorem mem_linesOr {lines : List String} {none line : String} (isIn : line ∈ linesOr lines none) :
    line ∈ lines ∨ line = none := by
  unfold linesOr at isIn
  split at isIn
  · exact Or.inr (List.mem_singleton.mp isIn)
  · exact Or.inl isIn

/-- The items of a list begin with a dash, unless there are none. -/
theorem fileItems_begin {line : String} (isIn : line ∈ report.fileItems) :
    (∃ rest, line = "- " ++ rest) ∨ line = "No unused files." := by
  rcases mem_linesOr isIn with listed | none
  · obtain ⟨rated, _, rfl⟩ := List.mem_map.mp listed
    exact Or.inl ⟨_, by simp only [summaryFileLine, String.append_assoc]; rfl⟩
  · exact Or.inr none

theorem symbolItems_begin {line : String} (isIn : line ∈ report.symbolItems) :
    (∃ rest, line = "- " ++ rest) ∨ line = "No unused symbols." := by
  rcases mem_linesOr isIn with listed | none
  · obtain ⟨rated, _, rfl⟩ := List.mem_map.mp listed
    exact Or.inl ⟨_, by simp only [summarySymbolLine, String.append_assoc]; rfl⟩
  · exact Or.inr none

theorem not_mem_repr {c : Char} (noDigit : c.isDigit = false) (noSign : c ≠ '-') (value : Int) : c ∉ value.repr.toList := by
  have absent : c ∉ Nat.toDigits 10 value.natAbs := by
    intro isIn
    rw [Nat.isDigit_of_mem_toDigits (by decide) (by decide) isIn] at noDigit
    cases noDigit
  rw [show value.repr = toString value from rfl, JsonValue.toList_toString]
  split
  · simp [absent, noSign]
  · exact absent

theorem backtick_not_mem_rateFile (policy : RiskPolicy) (file : UnusedFile) :
    '`' ∉ (policy.rateFile file).rationale.toList := by
  have noNumber (value : Int) : '`' ∉ value.repr.toList := not_mem_repr (by decide) (by decide) value
  unfold RiskPolicy.rateFile
  split
  · simp
  · split
    · simp
    · split
      · simp [noNumber]
      · simp

theorem summaryItem?_file {rated : RatedFile} (plain : '`' ∉ rated.rating.rationale.toList) :
    summaryItem? (upToLast '`') (summaryFileLine rated).toList = some (rated.file.path, rated.rating.level) := by
  have noNumber : '`' ∉ rated.file.size.repr.toList := not_mem_repr (by decide) (by decide) _
  have noLabel : '`' ∉ rated.file.kind.label.toList := by cases rated.file.kind <;> decide
  have shape : (summaryFileLine rated).toList = ("- " ++ riskMark rated.rating.level ++ " `").toList ++
      (rated.file.path.toList ++ '`' :: (" (" ++ toString rated.file.size ++ " bytes, " ++ rated.file.kind.label ++ "): "
        ++ rated.rating.rationale).toList) := by
    simp [summaryFileLine]
  rw [shape, summaryItem?_eq, upToLast_append, String.ofList_toList]
  simp [noNumber, noLabel, plain]

theorem summaryItem?_symbol {rated : RatedSymbol} (plain : '`' ∉ rated.symbol.name.toList) :
    summaryItem? (upToFirst '`') (summarySymbolLine rated).toList = some (rated.symbol.name, rated.rating.level) := by
  have shape : (summarySymbolLine rated).toList = ("- " ++ riskMark rated.rating.level ++ " `").toList ++
      (rated.symbol.name.toList ++ '`' :: (" (defined in " ++ ", ".intercalate rated.symbol.definedIn ++ "): "
        ++ rated.rating.rationale).toList) := by
    simp [summarySymbolLine]
  rw [shape, summaryItem?_eq, upToFirst_append plain, String.ofList_toList]

/-- What is read from the items of a list, if there are none or not. -/
theorem filterMap_linesOr {α γ : Type} {read : List Char → Option γ} {write : α → String} {shown : α → γ} {items : List α}
    {none : String} (reads : ∀ item ∈ items, read (write item).toList = some (shown item)) (readsNone : read none.toList = .none) :
    ((linesOr (items.map write) none).map String.toList).filterMap read = items.map shown := by
  cases items with
  | nil => simp [linesOr, readsNone]
  | cons item items =>
      have listed : linesOr ((item :: items).map write) none = (item :: items).map write := rfl
      rw [listed, List.map_map]
      exact filterMap_eq_map reads

theorem summaryFiles_eq (whole : ∀ line ∈ report.summaryLines, '\n' ∉ line.toList)
    (plain : ∀ rated ∈ report.assessment.files, '`' ∉ rated.rating.rationale.toList) :
    summaryFiles report.summary = report.ratedFiles := by
  have shape : report.summaryLines = report.overview ++ ("## Unused files" ++ "") :: ([""] ++ (report.fileItems ++ "" ::
      (["## Unused symbols", ""] ++ report.symbolItems ++ [""] ++ report.outlook))) := by
    simp [summaryLines]
  have avoids : Avoids "## Unused files" report.overview := by
    simp [Avoids, overview, List.isPrefixOf]
  have gap : [""].length = 1 := rfl
  have shown : ∀ line ∈ report.fileItems, line ≠ "" := by
    intro line isIn
    rcases fileItems_begin isIn with ⟨rest, rfl⟩ | rfl
    · simp
    · decide
  rw [summaryFiles, textLines_summary whole, shape, linesBelow_eq avoids gap shown]
  exact filterMap_linesOr (fun rated isIn => summaryItem?_file (plain rated isIn)) (by decide)

theorem summarySymbols_eq (whole : ∀ line ∈ report.summaryLines, '\n' ∉ line.toList)
    (plain : ∀ rated ∈ report.assessment.symbols, '`' ∉ rated.symbol.name.toList) :
    summarySymbols report.summary = report.ratedSymbols := by
  have shape : report.summaryLines = (report.overview ++ ["## Unused files", ""] ++ report.fileItems ++ [""]) ++
      ("## Unused symbols" ++ "") :: ([""] ++ (report.symbolItems ++ "" :: report.outlook)) := by
    simp [summaryLines]
  have avoids : Avoids "## Unused symbols" (report.overview ++ ["## Unused files", ""] ++ report.fileItems ++ [""]) := by
    refine ((Avoids.append ?_ ?_).append fun line isIn => ?_).append ?_
    · simp [Avoids, overview, List.isPrefixOf]
    · simp [Avoids, List.isPrefixOf]
    · rcases fileItems_begin isIn with ⟨rest, rfl⟩ | rfl <;> simp [List.isPrefixOf]
    · simp [Avoids]
  have gap : [""].length = 1 := rfl
  have shown : ∀ line ∈ report.symbolItems, line ≠ "" := by
    intro line isIn
    rcases symbolItems_begin isIn with ⟨rest, rfl⟩ | rfl
    · simp
    · decide
  rw [summarySymbols, textLines_summary whole, shape, linesBelow_eq avoids gap shown]
  exact filterMap_linesOr (fun rated isIn => summaryItem?_symbol (plain rated isIn)) (by decide)

/-- A count above the lists is found behind its heading. -/
theorem numberAfter?_overview (whole : ∀ line ∈ report.summaryLines, '\n' ∉ line.toList) {heading : String} {count : Nat}
    (place : Nat) (rest : String) (found : report.overview[place]? = some (heading ++ toString count ++ rest))
    (avoids : Avoids heading (report.overview.take place)) (stops : ∀ c ∈ rest.toList.head?, c.isDigit = false) :
    numberAfter? heading (textLines report.summary) = some count := by
  have shape : report.overview =
      report.overview.take place ++ (heading ++ toString count ++ rest) :: report.overview.drop (place + 1) := by
    obtain ⟨inside, is⟩ := List.getElem?_eq_some_iff.mp found
    rw [← is, ← List.drop_eq_getElem_cons inside, List.take_append_drop]
  rw [textLines_summary whole, summaryLines, shape]
  simp only [List.append_assoc, List.cons_append]
  exact numberAfter?_eq avoids stops

structure SummaryCounts (report : Report) : Prop where
  totalFiles : numberAfter? "- **Total files**: " (textLines report.summary) = some report.analysis.totalFiles
  unusedFiles : numberAfter? "- **Unused files**: " (textLines report.summary) = some report.analysis.unusedFiles.length
  totalSymbols : numberAfter? "- **Total symbols**: " (textLines report.summary) = some report.analysis.totalSymbols
  unusedSymbols : numberAfter? "- **Unused symbols**: " (textLines report.summary) = some report.analysis.unusedSymbols.length
  unresolved :
    numberAfter? "- **Unresolved references**: " (textLines report.summary) = some report.analysis.unresolved.length
  fileLevels : (textLines report.summary).find? ("| files | ".toList.isPrefixOf ·) =
    some (countRow "files" report.assessment.fileCount).toList
  symbolLevels : (textLines report.summary).find? ("| symbols | ".toList.isPrefixOf ·) =
    some (countRow "symbols" report.assessment.symbolCount).toList

theorem find?_eq {heading row rest : String} {before after : List String} (begins : row = heading ++ rest)
    (avoids : Avoids heading before) :
    ((before ++ row :: after).map String.toList).find? (heading.toList.isPrefixOf ·) = some row.toList := by
  have found : heading.toList.isPrefixOf row.toList = true := by
    rw [begins, String.toList_append]
    exact List.isPrefixOf_iff_prefix.mpr (List.prefix_append _ _)
  have none : (before.map String.toList).find? (heading.toList.isPrefixOf ·) = none := by
    rw [List.find?_eq_none]
    intro line isIn
    obtain ⟨text, isText, rfl⟩ := List.mem_map.mp isIn
    rw [avoids text isText]
    exact Bool.false_ne_true
  rw [List.map_append, List.find?_append, none, List.map_cons, List.find?_cons_of_pos found]
  rfl

def aboveLevels (report : Report) : List String :=
  report.overview ++ ["## Unused files", ""] ++ report.fileItems ++ ["", "## Unused symbols", ""] ++ report.symbolItems ++
    ["", "## Risk breakdown", "", "| | low | medium | high |", "|---|---|---|---|"]

theorem avoids_aboveLevels {heading : String} (headings : heading = "| files | " ∨ heading = "| symbols | ") :
    Avoids heading report.aboveLevels := by
  refine (((Avoids.append ?_ ?_).append fun line isIn => ?_).append ?_ |>.append fun line isIn => ?_).append ?_
  · rcases headings with rfl | rfl <;> simp [Avoids, overview, List.isPrefixOf]
  · rcases headings with rfl | rfl <;> simp [Avoids, List.isPrefixOf]
  · rcases fileItems_begin isIn with ⟨rest, rfl⟩ | rfl <;> rcases headings with rfl | rfl <;> simp [List.isPrefixOf]
  · rcases headings with rfl | rfl <;> simp [Avoids, List.isPrefixOf]
  · rcases symbolItems_begin isIn with ⟨rest, rfl⟩ | rfl <;> rcases headings with rfl | rfl <;> simp [List.isPrefixOf]
  · rcases headings with rfl | rfl <;> simp [Avoids, List.isPrefixOf]

theorem summaryLines_eq_levels (report : Report) : report.summaryLines = report.aboveLevels ++
    countRow "files" report.assessment.fileCount :: countRow "symbols" report.assessment.symbolCount ::
      report.outlook.drop 6 := by
  simp [summaryLines, aboveLevels, outlook]

theorem summaryCounts (whole : ∀ line ∈ report.summaryLines, '\n' ∉ line.toList) : SummaryCounts report where
  totalFiles := numberAfter?_overview whole 6 "" (by simp [overview]) (by simp [Avoids, overview, List.isPrefixOf]) (by simp)
  unusedFiles := by
    apply numberAfter?_overview whole 7 (" (" ++ percent report.analysis.unusedFiles.length report.analysis.totalFiles ++ ")")
    · simp [overview, String.append_assoc]
    · simp [Avoids, overview, List.isPrefixOf]
    · simp
  totalSymbols := numberAfter?_overview whole 8 "" (by simp [overview]) (by simp [Avoids, overview, List.isPrefixOf]) (by simp)
  unusedSymbols := by
    apply numberAfter?_overview whole 9
      (" (" ++ percent report.analysis.unusedSymbols.length report.analysis.totalSymbols ++ ")")
    · simp [overview, String.append_assoc]
    · simp [Avoids, overview, List.isPrefixOf]
    · simp
  unresolved := numberAfter?_overview whole 10 "" (by simp [overview]) (by simp [Avoids, overview, List.isPrefixOf]) (by simp)
  fileLevels := by
    rw [textLines_summary whole, summaryLines_eq_levels]
    apply find?_eq _ (avoids_aboveLevels (.inl rfl))
    · exact toString (report.assessment.fileCount .low) ++ " | " ++ toString (report.assessment.fileCount .medium) ++ " | " ++
        toString (report.assessment.fileCount .high) ++ " |"
    · simp [countRow, String.append_assoc]
  symbolLevels := by
    have shape : report.summaryLines = (report.aboveLevels ++ [countRow "files" report.assessment.fileCount]) ++
        countRow "symbols" report.assessment.symbolCount :: report.outlook.drop 6 := by
      rw [summaryLines_eq_levels, List.append_assoc, List.singleton_append]
    rw [textLines_summary whole, shape]
    apply find?_eq _ ((avoids_aboveLevels (.inr rfl)).append (by simp [Avoids, countRow, List.isPrefixOf]))
    · exact toString (report.assessment.symbolCount .low) ++ " | " ++ toString (report.assessment.symbolCount .medium) ++
        " | " ++ toString (report.assessment.symbolCount .high) ++ " |"
    · simp [countRow, String.append_assoc]

end Deadwood.Report
