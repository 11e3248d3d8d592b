import Deadwood.Report.Basic
import Deadwood.Report.Percent

/-!
# The summary report

Counts, the unused files and symbols with their risk, and how to go on.
-/

set_option autoImplicit false
namespace Deadwood.Report

def riskMark : RiskLevel → String
  | .low => "[low]"
  | .medium => "[medium]"
  | .high => "[HIGH]"

def summaryFileLine (rated : RatedFile) : String :=
  "- " ++ riskMark rated.rating.level ++ " `" ++ rated.file.path ++ "` (" ++ toString rated.file.size
    ++ " bytes, " ++ rated.file.kind.label ++ "): " ++ rated.rating.rationale

def summarySymbolLine (rated : RatedSymbol) : String :=
  "- " ++ riskMark rated.rating.level ++ " `" ++ rated.symbol.name ++ "` (defined in "
    ++ ", ".intercalate rated.symbol.definedIn ++ "): " ++ rated.rating.rationale

def countRow (title : String) (count : RiskLevel → Nat) : String :=
  "| " ++ title ++ " | " ++ toString (count .low) ++ " | " ++ toString (count .medium) ++ " | "
    ++ toString (count .high) ++ " |"

def linesOr (lines : List String) (none : String) : List String :=
  if lines.isEmpty then [none] else lines

def summary (report : Report) : String :=
  let analysis := report.analysis
  let assessment := report.assessment
  let unusedFiles := analysis.unusedFiles.length
  let unusedSymbols := analysis.unusedSymbols.length
  joinLines
    (["# Unused Code Report",
      "",
      "## Overview",
      "",
      "- **Generated**: " ++ report.generatedAt,
      "- **Root**: `" ++ report.root.toString ++ "`",
      "- **Total files**: " ++ toString analysis.totalFiles,
      "- **Unused files**: " ++ toString unusedFiles ++ " (" ++ percent unusedFiles analysis.totalFiles ++ ")",
      "- **Total symbols**: " ++ toString analysis.totalSymbols,
      "- **Unused symbols**: " ++ toString unusedSymbols ++ " (" ++ percent unusedSymbols analysis.totalSymbols
        ++ ")",
      "- **Unresolved references**: " ++ toString analysis.unresolved.length,
      "",
      "## Unused files",
      ""]
      ++ linesOr (assessment.files.map summaryFileLine) "No unused files."
      ++ ["", "## Unused symbols", ""]
      ++ linesOr (assessment.symbols.map summarySymbolLine) "No unused symbols."
      ++ ["",
      "## Risk breakdown",
      "",
      "| | low | medium | high |",
      "|---|---|---|---|",
      countRow "files" assessment.fileCount,
      countRow "symbols" assessment.symbolCount,
      "",
      "## Before deleting",
      "",
      "1. Create a snapshot (`sweep backup create`).",
      "2. Start with low-risk items only.",
      "3. Run the validation command after every batch.",
      ""])

end Deadwood.Report
