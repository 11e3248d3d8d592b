import Deadwood.Proofs.ShellReading
import Deadwood.Report.Script

/-!
# What a remediation script says

The script is read as a shell reads it. Its commands are the same for every report, apart from the deletions and the items to
review, and apart from words that are taken from the report. These are quoted, so that they are read as they were, whatever
characters they have. Only the time stands in a comment.
-/

set_option autoImplicit false
namespace Deadwood.Report

open Shell

/-! ## The commands -/

def snapshotWords : WordList :=
  [.ofText "sweep", .ofText "backup", .ofText "create", .variable "ROOT", .ofText "--purpose", .ofText "remediation-script",
    .ofText "--quiet"]

def removeSymbolWords (planned : PlannedCut) : WordList :=
  [.ofText "sweep", .ofText "remove-symbol", .variable "ROOT", .ofText planned.path, .ofText planned.name,
    .ofText "--snapshot", .variable "SNAPSHOT_ID", .ofText "--yes"]

def removeFileWords (path : String) : WordList :=
  [.ofText "sweep", .ofText "remove-file", .variable "ROOT", .ofText path, .ofText "--snapshot", .variable "SNAPSHOT_ID",
    .ofText "--yes"]

/-- An empty validation command is none. -/
def validateWords (command : Option String) : WordList :=
  [.ofText "sweep", .ofText "validate", .variable "ROOT"] ++
    match command with
    | none => []
    | some text => if text = "" then [] else [.ofText "--command", .ofText text]

def echoWords (text : String) : WordList :=
  [.ofText "echo", .ofText text]

def announcedWord (files functions : Nat) : Word :=
  Word.ofText "About to delete " ++ .ofText (toString files) ++ .ofText " low-risk file(s) and " ++
    .ofText (toString functions) ++ .ofText " low-risk function(s) under " ++ .variable "ROOT"

def openingCommands (root announced : Word) : List WordList :=
  [[.ofText "set", .ofText "-euo", .ofText "pipefail"],
    [Word.ofText "ROOT=" ++ root],
    [.ofText "echo", announced],
    [.ofText "read", .ofText "-p", .ofText "A snapshot will be taken first. Proceed? (y/N): ", .ofText "confirm"],
    [.ofText "if", .ofText "[[", .ofText "!", .variable "confirm", .ofText "=~", .ofText "^[Yy]$", .ofText "]]"],
    [.ofText "then"],
    echoWords "Aborted; nothing was changed",
    [.ofText "exit", .ofText "1"],
    [.ofText "fi"],
    snapshotWords,
    [Word.ofText "SNAPSHOT_ID=" ++ [.output false]],
    [.ofText "echo", Word.ofText "Snapshot: " ++ .variable "SNAPSHOT_ID"]]

def validatingCommands (call : WordList) : List WordList :=
  [.ofText "if" :: call,
    [.ofText "then"],
    echoWords "Validation passed",
    [.ofText "else"],
    echoWords "Validation FAILED. To restore the previous state run:",
    [.ofText "echo", Word.ofText "  sweep backup rollback " ++ .variable "SNAPSHOT_ID" ++ .ofText " --target \"" ++
      .variable "ROOT" ++ .ofText "\""],
    [.ofText "exit", .ofText "1"],
    [.ofText "fi"]]

/-- The unused files and symbols with a higher rating than low. -/
def aboveLow (assessment : Assessment) : List String :=
  (assessment.files.filter (·.rating.level ≠ .low)).map (·.file.path) ++
    (assessment.symbols.filter (·.rating.level ≠ .low)).map (·.symbol.name)

def reviewCommands : List String → List WordList
  | [] => []
  | item :: items => echoWords "Still to review manually:" :: (item :: items).map fun item => echoWords ("  " ++ item)

def scriptCommands (report : Report) : List WordList :=
  openingCommands (.ofText report.root.toString)
      (announcedWord report.lowRiskPlan.files.length report.lowRiskPlan.functions.length) ++
    report.lowRiskPlan.functions.map removeSymbolWords ++ report.lowRiskPlan.files.map removeFileWords ++
    (if report.lowRiskPlan.isEmpty then [echoWords "No low-risk deletions to apply"] else []) ++
    validatingCommands (validateWords report.validationCommand) ++ reviewCommands (aboveLow report.assessment) ++
    [echoWords "Done"]

/-- A word of the shell's grammar that may stand before a command. -/
def isKeyword (word : Word) : Bool :=
  [.ofText "if", .ofText "then", .ofText "else", .ofText "fi", .ofText "!"].contains word

/-- The commands that call the program, without the words of the shell's grammar before them. -/
def sweepCommands (commands : List WordList) : List WordList :=
  (commands.map (·.dropWhile isKeyword)).filter (·.head? == some (.ofText "sweep"))

def isAssignment (word : Word) : Bool :=
  (word.dropWhile fun
    | .char c => c.isAlphanum || c == '_'
    | _ => false).head? == some (.char '=')

/-- The words that give variables their values. -/
def assignments (commands : List WordList) : WordList :=
  commands.flatMap (·.takeWhile isAssignment)

end Deadwood.Report

namespace Deadwood.Shell

open Report

/-! ## Lines without words of the report -/

namespace Adds

theorem comment {chars : List Char} (oneLine : '\n' ∉ chars) : Adds [String.ofList ('#' :: chars)] [] := by
  intro done
  have within : ({ done, mode := .comment } : TextReader).read chars = some { done, mode := .comment } := by
    induction chars with
    | nil => rfl
    | cons c rest inductionHypothesis =>
        rw [List.mem_cons, not_or] at oneLine
        have first : ({ done, mode := .comment } : TextReader).step c = some { done, mode := .comment } := by
          simp [TextReader.step, Ne.symm oneLine.1]
        rw [TextReader.read_cons, first, Option.bind_some, inductionHypothesis oneLine.2]
  have begins : ({ done } : TextReader).step '#' = some { done, mode := .comment } := rfl
  rw [List.flatMap_cons, List.flatMap_nil, List.append_nil, String.toList_ofList, List.cons_append, TextReader.read_cons,
    begins, Option.bind_some, TextReader.read_append, within]
  rfl

theorem options : Adds ["set -euo pipefail", ""] [[.ofText "set", .ofText "-euo", .ofText "pipefail"]] := by
  intro done
  simp only [List.flatMap_cons, List.flatMap_nil, Word.ofText]
  repeat rw [String.toList_ofList]
  cbv

theorem question : Adds ["read -p \"A snapshot will be taken first. Proceed? (y/N): \" confirm"]
    [[.ofText "read", .ofText "-p", .ofText "A snapshot will be taken first. Proceed? (y/N): ", .ofText "confirm"]] := by
  intro done
  simp only [List.flatMap_cons, List.flatMap_nil, Word.ofText]
  repeat rw [String.toList_ofList]
  cbv

theorem refusal : Adds
    ["if [[ ! \"$confirm\" =~ ^[Yy]$ ]]; then", "    echo \"Aborted; nothing was changed\"", "    exit 1", "fi", ""]
    [[.ofText "if", .ofText "[[", .ofText "!", .variable "confirm", .ofText "=~", .ofText "^[Yy]$", .ofText "]]"],
      [.ofText "then"], echoWords "Aborted; nothing was changed", [.ofText "exit", .ofText "1"], [.ofText "fi"]] := by
  intro done
  simp only [List.flatMap_cons, List.flatMap_nil, Word.ofText, echoWords]
  repeat rw [String.toList_ofList]
  cbv

theorem snapshot : Adds ["SNAPSHOT_ID=$(sweep backup create \"$ROOT\" --purpose remediation-script --quiet)"]
    [snapshotWords, [Word.ofText "SNAPSHOT_ID=" ++ [.output false]]] := by
  intro done
  simp only [List.flatMap_cons, List.flatMap_nil, Word.ofText, snapshotWords]
  repeat rw [String.toList_ofList]
  cbv

theorem snapshotShown : Adds ["echo \"Snapshot: $SNAPSHOT_ID\"", ""]
    [[.ofText "echo", Word.ofText "Snapshot: " ++ .variable "SNAPSHOT_ID"]] := by
  intro done
  simp only [List.flatMap_cons, List.flatMap_nil, Word.ofText]
  repeat rw [String.toList_ofList]
  cbv

theorem empty : Adds [""] [] :=
  fun _ => rfl

theorem nothing : Adds ["echo \"No low-risk deletions to apply\"", ""] [echoWords "No low-risk deletions to apply"] := by
  intro done
  simp only [List.flatMap_cons, List.flatMap_nil, Word.ofText, echoWords]
  repeat rw [String.toList_ofList]
  cbv

theorem passed : Adds ["    echo \"Validation passed\"", "else"] [echoWords "Validation passed", [.ofText "else"]] := by
  intro done
  simp only [List.flatMap_cons, List.flatMap_nil, Word.ofText, echoWords]
  repeat rw [String.toList_ofList]
  cbv

theorem failed : Adds ["    echo \"Validation FAILED. To restore the previous state run:\""]
    [echoWords "Validation FAILED. To restore the previous state run:"] := by
  intro done
  simp only [List.flatMap_cons, List.flatMap_nil, Word.ofText, echoWords]
  repeat rw [String.toList_ofList]
  cbv

theorem rollback : Adds
    ["    echo \"  sweep backup rollback $SNAPSHOT_ID --target \\\"$ROOT\\\"\"", "    exit 1", "fi", ""]
    [[.ofText "echo", Word.ofText "  sweep backup rollback " ++ .variable "SNAPSHOT_ID" ++ .ofText " --target \"" ++
      .variable "ROOT" ++ .ofText "\""], [.ofText "exit", .ofText "1"], [.ofText "fi"]] := by
  intro done
  simp only [List.flatMap_cons, List.flatMap_nil, Word.ofText]
  repeat rw [String.toList_ofList]
  cbv

theorem reviewTitle : Adds ["echo \"Still to review manually:\""] [echoWords "Still to review manually:"] := by
  intro done
  simp only [List.flatMap_cons, List.flatMap_nil, Word.ofText, echoWords]
  repeat rw [String.toList_ofList]
  cbv

theorem finished : Adds ["echo \"Done\"", ""] [echoWords "Done"] := by
  intro done
  simp only [List.flatMap_cons, List.flatMap_nil, Word.ofText, echoWords]
  repeat rw [String.toList_ofList]
  cbv

end Adds

/-! ## Lines with words of the report -/

namespace TextReader

variable (command : WordList) (done : List WordList)

theorem read_quoted (word : String) :
    ({ command, done } : TextReader).read (quote word).toList =
      some { command, done, word := some (Word.ofText word).reverse } := by
  rw [read_quote _ rfl]
  simp

theorem read_blank (word : Word) :
    ({ command, done, word := some word } : TextReader).read " ".toList = some { command := word.reverse :: command, done } :=
  rfl

theorem read_feed (word : Word) :
    ({ command, done, word := some word } : TextReader).read ['\n'] =
      some { done := (word.reverse :: command).reverse :: done } :=
  rfl

theorem read_removalClosing (word : Word) :
    ({ command, done, word := some word } : TextReader).read (" --snapshot \"$SNAPSHOT_ID\" --yes".toList ++ ['\n']) =
      some { done :=
        (Word.ofText "--yes" :: .variable "SNAPSHOT_ID" :: .ofText "--snapshot" :: word.reverse :: command).reverse ::
          done } := by
  simp only [Word.ofText]
  repeat rw [String.toList_ofList]
  cbv

/-- Digits go on with a word in double quotes. -/
theorem read_number (number : Nat) (word : Word) :
    ({ command, done, mode := .double, word := some word } : TextReader).read (toString number).toList =
      some { command, done, mode := .double, word := some ((Word.ofText (toString number)).reverse ++ word) } := by
  have digits : ∀ c ∈ (toString number).toList, c.isDigit = true := by
    intro c isIn
    rw [Nat.toString_eq_repr, Nat.toList_repr] at isIn
    exact Nat.isDigit_of_mem_toDigits (by decide) (by decide) isIn
  rw [Word.ofText]
  generalize (toString number).toList = chars at digits ⊢
  induction chars generalizing word with
  | nil => rfl
  | cons c rest inductionHypothesis =>
      obtain ⟨digit, later⟩ := List.forall_mem_cons.mp digits
      have other : ∀ special ∈ ['"', '\\', '$', '`'], c ≠ special := by
        have none : ['"', '\\', '$', '`'].all (!·.isDigit) = true := by decide
        rintro special listed rfl
        have notDigit := List.all_eq_true.mp none c listed
        rw [digit] at notDigit
        cases notDigit
      simp only [List.forall_mem_cons] at other
      obtain ⟨quote, slash, dollar, backquote, _⟩ := other
      have first : ({ command, done, mode := .double, word := some word } : TextReader).step c =
          some { command, done, mode := .double, word := some (.char c :: word) } := by
        simp [step, inside, push, quote, slash, dollar, backquote]
      rw [read_cons, first, Option.bind_some, inductionHypothesis _ later]
      simp

end TextReader

namespace Adds

theorem origin {time : String} (oneLine : '\n' ∉ time.toList) :
    Adds ["# Generated by sweepgraph " ++ version ++ " at " ++ time] [] := by
  have before : '\n' ∉ (" Generated by sweepgraph " ++ version ++ " at ").toList := by
    decide
  have title : "# Generated by sweepgraph ".toList = '#' :: " Generated by sweepgraph ".toList := by
    rw [String.toList_ofList, String.toList_ofList]
  have text : "# Generated by sweepgraph " ++ version ++ " at " ++ time =
      String.ofList ('#' :: ((" Generated by sweepgraph " ++ version ++ " at ").toList ++ time.toList)) := by
    rw [← String.toList_inj, String.toList_ofList]
    simp only [String.toList_append, title, List.cons_append]
  rw [text]
  refine comment ?_
  rw [List.mem_append, not_or]
  exact ⟨before, oneLine⟩

theorem root (path : String) : Adds ["ROOT=" ++ quote path] [[Word.ofText "ROOT=" ++ .ofText path]] := by
  intro done
  have opening : ({ done } : TextReader).read "ROOT=".toList =
      some { done, word := some ("ROOT=".toList.map .char).reverse } := rfl
  rw [List.flatMap_cons, List.flatMap_nil, List.append_nil, String.toList_append, List.append_assoc, TextReader.read_append,
    opening, Option.bind_some, TextReader.read_append, TextReader.read_quote _ rfl, Option.bind_some, Option.getD_some,
    TextReader.read_feed]
  simp [Word.ofText]

theorem announcement (files functions : Nat) : Adds ["echo \"About to delete " ++ toString files ++
      " low-risk file(s) and " ++ toString functions ++ " low-risk function(s) under $ROOT\""]
    [[.ofText "echo", announcedWord files functions]] := by
  intro done
  have parts : ∀ first files blank functions last : String,
      (first ++ files ++ blank ++ functions ++ last).toList ++ ['\n'] =
        first.toList ++ (files.toList ++ (blank.toList ++ (functions.toList ++ (last.toList ++ ['\n'])))) := by
    simp
  have opening : ({ done } : TextReader).read "echo \"About to delete ".toList = some
      { mode := .double, word := some (Word.ofText "About to delete ").reverse, command := [.ofText "echo"], done } := by
    simp only [Word.ofText]
    repeat rw [String.toList_ofList]
    cbv
  have between : ∀ word : Word,
      ({ mode := .double, word := some word, command := [.ofText "echo"], done } : TextReader).read
        " low-risk file(s) and ".toList = some
      { mode := .double, word := some ((Word.ofText " low-risk file(s) and ").reverse ++ word),
        command := [.ofText "echo"], done } := by
    intro word
    simp only [Word.ofText]
    repeat rw [String.toList_ofList]
    cbv
  have closing : ∀ word : Word,
      ({ mode := .double, word := some word, command := [.ofText "echo"], done } : TextReader).read
        (" low-risk function(s) under $ROOT\"".toList ++ ['\n']) = some
      { done := [.ofText "echo", (Piece.value true "ROOT" ::
          ((Word.ofText " low-risk function(s) under ").reverse ++ word)).reverse] :: done } := by
    intro word
    simp only [Word.ofText]
    repeat rw [String.toList_ofList]
    cbv
  rw [List.flatMap_cons, List.flatMap_nil, List.append_nil, parts, TextReader.read_append, opening, Option.bind_some,
    TextReader.read_append, TextReader.read_number, Option.bind_some, TextReader.read_append, between, Option.bind_some,
    TextReader.read_append, TextReader.read_number, Option.bind_some, closing]
  simp [announcedWord, Word.variable]

theorem removeSymbol (planned : PlannedCut) : Adds [removeSymbolLine planned] [removeSymbolWords planned] := by
  intro done
  have parts : ∀ first path blank name last : String, (first ++ path ++ blank ++ name ++ last).toList ++ ['\n'] =
      first.toList ++ (path.toList ++ (blank.toList ++ (name.toList ++ (last.toList ++ ['\n'])))) := by
    simp
  have text : (removeSymbolLine planned).toList ++ ['\n'] = "sweep remove-symbol \"$ROOT\" ".toList ++
      ((quote planned.path).toList ++ (" ".toList ++ ((quote planned.name).toList ++
        (" --snapshot \"$SNAPSHOT_ID\" --yes".toList ++ ['\n'])))) :=
    parts _ _ _ _ _
  have opening : ({ done } : TextReader).read "sweep remove-symbol \"$ROOT\" ".toList =
      some { command := [.variable "ROOT", .ofText "remove-symbol", .ofText "sweep"], done } := by
    simp only [Word.ofText]
    repeat rw [String.toList_ofList]
    cbv
  rw [List.flatMap_cons, List.flatMap_nil, List.append_nil, text, TextReader.read_append, opening, Option.bind_some,
    TextReader.read_append, TextReader.read_quoted, Option.bind_some, TextReader.read_append, TextReader.read_blank,
    Option.bind_some, TextReader.read_append, TextReader.read_quoted, Option.bind_some, TextReader.read_removalClosing]
  simp [removeSymbolWords]

theorem removeFile (path : String) : Adds [removeFileLine path] [removeFileWords path] := by
  intro done
  have parts : ∀ first path last : String, (first ++ path ++ last).toList ++ ['\n'] =
      first.toList ++ (path.toList ++ (last.toList ++ ['\n'])) := by
    simp
  have text : (removeFileLine path).toList ++ ['\n'] = "sweep remove-file \"$ROOT\" ".toList ++
      ((quote path).toList ++ (" --snapshot \"$SNAPSHOT_ID\" --yes".toList ++ ['\n'])) :=
    parts _ _ _
  have opening : ({ done } : TextReader).read "sweep remove-file \"$ROOT\" ".toList =
      some { command := [.variable "ROOT", .ofText "remove-file", .ofText "sweep"], done } := by
    simp only [Word.ofText]
    repeat rw [String.toList_ofList]
    cbv
  rw [List.flatMap_cons, List.flatMap_nil, List.append_nil, text, TextReader.read_append, opening, Option.bind_some,
    TextReader.read_append, TextReader.read_quoted, Option.bind_some, TextReader.read_removalClosing]
  simp [removeFileWords]

theorem echo (text : String) : Adds ["echo " ++ quote text] [echoWords text] := by
  intro done
  have opening : ({ done } : TextReader).read "echo ".toList = some { command := [.ofText "echo"], done } := rfl
  rw [List.flatMap_cons, List.flatMap_nil, List.append_nil, String.toList_append, List.append_assoc, TextReader.read_append,
    opening, Option.bind_some, TextReader.read_append, TextReader.read_quoted, Option.bind_some, TextReader.read_feed]
  simp [echoWords]

theorem validate (command : Option String) : Adds ["if " ++ validateCommand command ++ "; then"]
    [.ofText "if" :: validateWords command, [.ofText "then"]] := by
  intro done
  have parts : ∀ first named option last : String, (first ++ (named ++ option) ++ last).toList ++ ['\n'] =
      (first ++ named).toList ++ (option.toList ++ (last.toList ++ ['\n'])) := by
    simp
  have opening : ({ done } : TextReader).read ("if " ++ "sweep validate \"$ROOT\"").toList = some
      { word := some (.variable "ROOT"), command := [.ofText "validate", .ofText "sweep", .ofText "if"], done } := by
    simp only [Word.ofText, String.toList_append]
    repeat rw [String.toList_ofList]
    cbv
  have closing : ∀ command word, ({ command, word := some word, done } : TextReader).read ("; then".toList ++ ['\n']) =
      some { done := [.ofText "then"] :: (word.reverse :: command).reverse :: done } := by
    intro command word
    simp only [Word.ofText]
    repeat rw [String.toList_ofList]
    cbv
  have without : ({ done } : TextReader).read
      (("if " ++ ("sweep validate \"$ROOT\"" ++ "") ++ "; then").toList ++ ['\n']) =
        some { done := [.ofText "then"] :: (.ofText "if" :: validateWords none) :: done } := by
    rw [parts, String.toList_empty, List.nil_append, TextReader.read_append, opening, Option.bind_some, closing]
    rfl
  rw [List.flatMap_cons, List.flatMap_nil, List.append_nil]
  cases command with
  | none => exact without
  | some text =>
      by_cases isEmpty : text = ""
      · subst isEmpty
        exact without
      · have given : validateCommand (some text) = "sweep validate \"$ROOT\"" ++ (" --command " ++ quote text) :=
          congrArg ("sweep validate \"$ROOT\"" ++ ·) (if_neg (by simpa using isEmpty))
        have words : validateWords (some text) = validateWords none ++ [.ofText "--command", .ofText text] := by
          simp only [validateWords, if_neg isEmpty, List.append_nil]
        have option : ∀ command word, ({ command, word := some word, done } : TextReader).read " --command ".toList =
            some { command := .ofText "--command" :: word.reverse :: command, done } := by
          intro command word
          simp only [Word.ofText]
          repeat rw [String.toList_ofList]
          cbv
        rw [given, words, parts, TextReader.read_append, opening, Option.bind_some, String.toList_append, List.append_assoc,
          TextReader.read_append, option, Option.bind_some, TextReader.read_append, TextReader.read_quoted, Option.bind_some,
          closing]
        simp [validateWords, Word.variable]

end Adds

end Deadwood.Shell

namespace Deadwood.Report

open Shell

theorem higherRisk_eq (assessment : Assessment) : higherRisk assessment = aboveLow assessment := by
  have above : ∀ level : RiskLevel, (!level.within .low) = decide (level ≠ .low) := by
    intro level
    cases level <;> rfl
  simp only [higherRisk, aboveLow, above]

theorem adds_block {title : String} {lines : List String} {added : List WordList} (comment : Adds [title] [])
    (adds : Adds lines added) : Adds (block title lines) added := by
  cases lines with
  | nil => exact adds
  | cons line rest => simpa [block] using comment.cons (adds.append .empty)

theorem adds_review (items : List String) : Adds
    (if items.isEmpty then []
      else "echo \"Still to review manually:\"" :: items.map fun item => "echo " ++ quote ("  " ++ item))
    (reviewCommands items) := by
  cases items with
  | nil => exact .nil
  | cons item items => exact Adds.reviewTitle.cons (.map fun item _ => .echo ("  " ++ item))

theorem commands_script (report : Report) (oneLine : '\n' ∉ report.generatedAt.toList) :
    commands report.script = some (scriptCommands report) := by
  have bash : Adds ["#!/bin/bash"] [] := .comment (by decide)
  have warning : Adds ["# Deletes LOW-risk items only. Read the summary report before running."] [] := .comment (by decide)
  have functionsTitle : Adds ["# low-risk functions"] [] := .comment (by decide)
  have filesTitle : Adds ["# low-risk files"] [] := .comment (by decide)
  have opening : Adds _ (openingCommands _ _) :=
    bash.cons ((Adds.origin oneLine).cons (warning.cons (Adds.options.append ((Adds.root report.root.toString).cons
      ((Adds.announcement report.lowRiskPlan.files.length report.lowRiskPlan.functions.length).cons
        (Adds.question.append (Adds.refusal.append (Adds.snapshot.append .snapshotShown))))))))
  have functions := adds_block functionsTitle (.map fun planned (_ : planned ∈ report.lowRiskPlan.functions) =>
    .removeSymbol planned)
  have files := adds_block filesTitle (.map fun path (_ : path ∈ report.lowRiskPlan.files) => .removeFile path)
  have nothing : Adds (if report.lowRiskPlan.isEmpty then ["echo \"No low-risk deletions to apply\"", ""] else [])
      (if report.lowRiskPlan.isEmpty then [echoWords "No low-risk deletions to apply"] else []) := by
    split
    · exact .nothing
    · exact .nil
  have validating : Adds _ (validatingCommands (validateWords report.validationCommand)) :=
    (Adds.validate report.validationCommand).append (Adds.passed.append (Adds.failed.append .rollback))
  have review := adds_review (aboveLow report.assessment)
  rw [scriptCommands, ← higherRisk_eq]
  rw [← higherRisk_eq] at review
  exact (((((((opening.append functions).append files).append nothing).append validating).append review).append
    .finished).commands_intercalate (by simp))

/-! ## The calls of the program -/

section

variable (first later : List WordList)

theorem sweepCommands_append : sweepCommands (first ++ later) = sweepCommands first ++ sweepCommands later := by
  simp [sweepCommands]

theorem assignments_append : assignments (first ++ later) = assignments first ++ assignments later :=
  List.flatMap_append

end

section

variable {Item : Type} (words : Item → WordList) (items : List Item)

theorem sweepCommands_map :
    sweepCommands (items.map fun item => .ofText "sweep" :: words item) = items.map fun item => .ofText "sweep" :: words item := by
  induction items with
  | nil => rfl
  | cons item rest inductionHypothesis =>
      have here : sweepCommands [.ofText "sweep" :: words item] = [.ofText "sweep" :: words item] := by
        cbv
      rw [List.map_cons, ← List.singleton_append, sweepCommands_append, here, inductionHypothesis]

theorem assignments_map_sweep : assignments (items.map fun item => .ofText "sweep" :: words item) = [] := by
  have word : isAssignment (.ofText "sweep") = false := by cbv
  simp [assignments, word]

theorem sweepCommands_map_echo : sweepCommands (items.map fun item => .ofText "echo" :: words item) = [] := by
  have keyword : isKeyword (.ofText "echo") = false := by cbv
  have other : (Word.ofText "echo" == Word.ofText "sweep") = false := by cbv
  simpa [sweepCommands, keyword] using fun _ _ => beq_eq_false_iff_ne.mp other

theorem assignments_map_echo : assignments (items.map fun item => .ofText "echo" :: words item) = [] := by
  have word : isAssignment (.ofText "echo") = false := by cbv
  simp [assignments, word]

end

theorem sweepCommands_opening (root announced : Word) : sweepCommands (openingCommands root announced) = [snapshotWords] := by
  simp only [openingCommands, sweepCommands, echoWords, snapshotWords, Word.ofText]
  repeat rw [String.toList_ofList]
  cbv

theorem assignments_opening (root announced : Word) : assignments (openingCommands root announced) =
    [Word.ofText "ROOT=" ++ root, Word.ofText "SNAPSHOT_ID=" ++ [.output false]] := by
  simp only [openingCommands, assignments, echoWords, snapshotWords, Word.ofText]
  repeat rw [String.toList_ofList]
  cbv

theorem sweepCommands_validating (words : WordList) :
    sweepCommands (validatingCommands (.ofText "sweep" :: words)) = [.ofText "sweep" :: words] := by
  simp only [validatingCommands, sweepCommands, echoWords, Word.ofText]
  repeat rw [String.toList_ofList]
  cbv

theorem assignments_validating (words : WordList) : assignments (validatingCommands (.ofText "sweep" :: words)) = [] := by
  simp only [validatingCommands, assignments, echoWords, Word.ofText]
  repeat rw [String.toList_ofList]
  cbv

theorem calls_review (items : List String) :
    sweepCommands (reviewCommands items) = [] ∧ assignments (reviewCommands items) = [] := by
  cases items with
  | nil => exact ⟨rfl, rfl⟩
  | cons item items =>
      have echoes : reviewCommands (item :: items) = ("Still to review manually:" :: (item :: items).map ("  " ++ ·)).map
          fun text => .ofText "echo" :: [.ofText text] := by
        simp [reviewCommands, echoWords]
      rw [echoes]
      exact ⟨sweepCommands_map_echo _ _, assignments_map_echo _ _⟩

theorem calls_nothing (isEmpty : Bool) :
    sweepCommands (if isEmpty then [echoWords "No low-risk deletions to apply"] else []) = [] ∧
      assignments (if isEmpty then [echoWords "No low-risk deletions to apply"] else []) = [] := by
  cases isEmpty with
  | false => exact ⟨rfl, rfl⟩
  | true => exact ⟨sweepCommands_map_echo (fun text => [.ofText text]) ["No low-risk deletions to apply"],
      assignments_map_echo (fun text => [.ofText text]) ["No low-risk deletions to apply"]⟩

theorem sweepCommands_scriptCommands (report : Report) : sweepCommands (scriptCommands report) =
    snapshotWords :: report.lowRiskPlan.functions.map removeSymbolWords ++ report.lowRiskPlan.files.map removeFileWords ++
      [validateWords report.validationCommand] := by
  have functions : sweepCommands (report.lowRiskPlan.functions.map removeSymbolWords) = _ := sweepCommands_map _ _
  have files : sweepCommands (report.lowRiskPlan.files.map removeFileWords) = _ := sweepCommands_map _ _
  have validating : sweepCommands (validatingCommands (validateWords report.validationCommand)) = _ :=
    sweepCommands_validating _
  have finished : sweepCommands [echoWords "Done"] = [] := sweepCommands_map_echo (fun text => [.ofText text]) ["Done"]
  simp only [scriptCommands, sweepCommands_append, sweepCommands_opening, functions, files, (calls_nothing _).1, validating,
    (calls_review _).1, finished, List.append_nil, List.singleton_append]
  rfl

theorem assignments_scriptCommands (report : Report) : assignments (scriptCommands report) =
    [Word.ofText "ROOT=" ++ .ofText report.root.toString, Word.ofText "SNAPSHOT_ID=" ++ [.output false]] := by
  have functions : assignments (report.lowRiskPlan.functions.map removeSymbolWords) = [] := assignments_map_sweep _ _
  have files : assignments (report.lowRiskPlan.files.map removeFileWords) = [] := assignments_map_sweep _ _
  have validating : assignments (validatingCommands (validateWords report.validationCommand)) = [] :=
    assignments_validating _
  have finished : assignments [echoWords "Done"] = [] := assignments_map_echo (fun text => [.ofText text]) ["Done"]
  simp only [scriptCommands, assignments_append, assignments_opening, functions, files, (calls_nothing _).2, validating,
    (calls_review _).2, finished, List.append_nil]

/-- A script is read as calls that take a snapshot, delete what is planned and validate the tree, in this order. What is rated
above low is listed at its end. -/
theorem script_carries_plan (report : Report) (oneLine : '\n' ∉ report.generatedAt.toList) :
    ∃ commands, Shell.commands report.script = some commands ∧
      sweepCommands commands =
        snapshotWords :: report.lowRiskPlan.functions.map removeSymbolWords ++
          report.lowRiskPlan.files.map removeFileWords ++ [validateWords report.validationCommand] ∧
      assignments commands =
        [Word.ofText "ROOT=" ++ .ofText report.root.toString, Word.ofText "SNAPSHOT_ID=" ++ [.output false]] ∧
      ∃ before, commands = before ++ reviewCommands (aboveLow report.assessment) ++ [echoWords "Done"] :=
  ⟨scriptCommands report, commands_script report oneLine, sweepCommands_scriptCommands report,
    assignments_scriptCommands report, _, rfl⟩

/-- Names with quotes, variables and line feeds. -/
def quotedReport : Report where
  analysis := { usedFiles := [], unusedFiles := [], usedSymbols := ["run"], unusedSymbols := [] }
  assessment := {
    files := [⟨⟨"it's\n$(run).gs", .backend, 0, [], []⟩, ⟨.low, "No references found"⟩⟩,
      ⟨⟨"; \"$HOME\".json", .config, 0, [], []⟩, ⟨.high, "Project configuration file"⟩⟩]
    symbols := [⟨⟨"$a", [⟨"b c.gs", "$a", .function, 1, 1, 0, 16, 9⟩], [], false⟩, ⟨.low, "No references found"⟩⟩] }
  root := ⟨"/", ["my files"]⟩
  validationCommand := some "npm test; exit"
  generatedAt := "2026-01-01T12:00:00"

theorem script_carries_quoted_names : '\n' ∉ quotedReport.generatedAt.toList ∧
    ∃ commands, Shell.commands quotedReport.script = some commands ∧
      sweepCommands commands = [snapshotWords, removeSymbolWords ⟨"b c.gs", "$a"⟩, removeFileWords "it's\n$(run).gs",
        validateWords (some "npm test; exit")] ∧
      assignments commands = [Word.ofText "ROOT=" ++ .ofText "/my files", Word.ofText "SNAPSHOT_ID=" ++ [.output false]] ∧
      ∃ before, commands = before ++ [echoWords "Still to review manually:", echoWords "  ; \"$HOME\".json", echoWords "Done"] := by
  have oneLine : '\n' ∉ quotedReport.generatedAt.toList := by decide
  have plan : quotedReport.lowRiskPlan = ⟨["it's\n$(run).gs"], [⟨"b c.gs", "$a"⟩]⟩ := by cbv
  have above : aboveLow quotedReport.assessment = ["; \"$HOME\".json"] := by cbv
  have root : quotedReport.root.toString = "/my files" := by decide
  obtain ⟨commands, read, calls, assigned, before, ends⟩ := script_carries_plan quotedReport oneLine
  rw [plan] at calls
  rw [root] at assigned
  rw [above, List.append_assoc] at ends
  exact ⟨oneLine, commands, read, calls, assigned, before, ends⟩

def unvalidatedReport : Report where
  analysis := { usedFiles := ["A.gs"], unusedFiles := [], usedSymbols := ["doGet"], unusedSymbols := [] }
  assessment := ⟨[], []⟩
  root := ⟨"/", ["proj"]⟩
  validationCommand := some ""
  generatedAt := "2026-01-01T12:00:00"

/-- An empty validation command is left out. It is no empty word. -/
theorem empty_validation_is_no_word : ¬ ∀ report : Report, '\n' ∉ report.generatedAt.toList →
    ∀ command, report.validationCommand = some command → ∃ commands, Shell.commands report.script = some commands ∧
      [.ofText "sweep", .ofText "validate", .variable "ROOT", .ofText "--command", .ofText command] ∈ sweepCommands commands := by
  intro claimed
  have oneLine : '\n' ∉ unvalidatedReport.generatedAt.toList := by decide
  have plan : unvalidatedReport.lowRiskPlan = ⟨[], []⟩ := by cbv
  have lengths : ∀ words ∈ [snapshotWords, validateWords (some "")], words.length ≠ 5 := by
    simp [snapshotWords, validateWords]
  obtain ⟨commands, read, listed⟩ := claimed unvalidatedReport oneLine "" rfl
  rw [commands_script _ oneLine] at read
  obtain rfl := Option.some.inj read
  rw [sweepCommands_scriptCommands, plan] at listed
  exact lengths _ listed rfl

end Deadwood.Report
