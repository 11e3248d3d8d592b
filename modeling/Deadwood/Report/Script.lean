import Deadwood.Report.Basic
import Deadwood.Shell.Words

/-!
# The remediation script

A shell script that carries out the low-risk deletions after a question, under a snapshot, and validates the
tree. Names and paths are quoted as words. What is rated higher is listed for review.
-/

set_option autoImplicit false
namespace Deadwood.Report

open Shell

def removeSymbolLine (planned : PlannedCut) : String :=
  "sweep remove-symbol \"$ROOT\" " ++ quote planned.path ++ " " ++ quote planned.name
    ++ " --snapshot \"$SNAPSHOT_ID\" --yes"

def removeFileLine (path : String) : String :=
  "sweep remove-file \"$ROOT\" " ++ quote path ++ " --snapshot \"$SNAPSHOT_ID\" --yes"

/-- A titled block of lines with an empty line after it, if there are any. -/
def block (title : String) (lines : List String) : List String :=
  if lines.isEmpty then [] else title :: lines ++ [""]

def higherRisk (assessment : Assessment) : List String :=
  (assessment.files.filter fun rated => !rated.rating.level.within .low).map (·.file.path)
    ++ (assessment.symbols.filter fun rated => !rated.rating.level.within .low).map (·.symbol.name)

def validateCommand (command : Option String) : String :=
  "sweep validate \"$ROOT\"" ++
    match command with
    | some text => if text.isEmpty then "" else " --command " ++ quote text
    | none => ""

def script (report : Report) : String :=
  let plan := report.lowRiskPlan
  let higher := higherRisk report.assessment
  joinLines
    (["#!/bin/bash",
      "# Generated by sweepgraph " ++ version ++ " at " ++ report.generatedAt,
      "# Deletes LOW-risk items only. Read the summary report before running.",
      "set -euo pipefail",
      "",
      "ROOT=" ++ quote report.root.toString,
      "echo \"About to delete " ++ toString plan.files.length ++ " low-risk file(s) and "
        ++ toString plan.functions.length ++ " low-risk function(s) under $ROOT\"",
      "read -p \"A snapshot will be taken first. Proceed? (y/N): \" confirm",
      "if [[ ! \"$confirm\" =~ ^[Yy]$ ]]; then",
      "    echo \"Aborted; nothing was changed\"",
      "    exit 1",
      "fi",
      "",
      "SNAPSHOT_ID=$(sweep backup create \"$ROOT\" --purpose remediation-script --quiet)",
      "echo \"Snapshot: $SNAPSHOT_ID\"",
      ""]
      ++ block "# low-risk functions" (plan.functions.map removeSymbolLine)
      ++ block "# low-risk files" (plan.files.map removeFileLine)
      ++ (if plan.isEmpty then ["echo \"No low-risk deletions to apply\"", ""] else [])
      ++ ["if " ++ validateCommand report.validationCommand ++ "; then",
      "    echo \"Validation passed\"",
      "else",
      "    echo \"Validation FAILED. To restore the previous state run:\"",
      "    echo \"  sweep backup rollback $SNAPSHOT_ID --target \\\"$ROOT\\\"\"",
      "    exit 1",
      "fi",
      ""]
      ++ (if higher.isEmpty then []
          else "echo \"Still to review manually:\"" :: higher.map fun item => "echo " ++ quote ("  " ++ item))
      ++ ["echo \"Done\"", ""])

end Deadwood.Report
