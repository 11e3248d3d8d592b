import Deadwood.Proofs.ItemCommands
import Deadwood.Report.Script

/-!
# The words of a remediation script

A word that is quoted is read back from a command line as it was. So the lines of a remediation script that delete something
are read as the commands that delete the planned items, with the variables for the root and the snapshot.
-/

set_option autoImplicit false
namespace Deadwood.Shell

/-! ## Quoted words -/

theorem not_special_of_isPlain {c : Char} (plain : isPlain c = true) :
    isSeparator c = false ∧ (c == '\\') = false ∧ (c == '\'' || c == '"') = false := by
  have other : ∀ special ∈ [' ', '\t', '\r', '\n', '\\', '\'', '"'], c ≠ special := by
    rintro special listed rfl
    have none : [' ', '\t', '\r', '\n', '\\', '\'', '"'].all (!isPlain ·) = true := by cbv
    have notPlain := List.all_eq_true.mp none c listed
    rw [plain] at notPlain
    cases notPlain
  simp only [List.forall_mem_cons] at other
  obtain ⟨blank, tab, feedBack, feed, slash, single, double, _⟩ := other
  simp [isSeparator, blank, tab, feedBack, feed, slash, single, double]

/-- Plain characters go on with a word until a blank ends it. -/
theorem wordsFrom_bare {chars : List Char} (plain : ∀ c ∈ chars, isPlain c = true) (word rest : List Char) :
    wordsFrom .bare word (chars ++ ' ' :: rest) =
      (String.ofList (word.reverse ++ chars) :: ·) <$> wordsFrom .between [] rest := by
  induction chars generalizing word with
  | nil =>
      rw [List.append_nil]
      rfl
  | cons c more ih =>
      obtain ⟨isPlain, morePlain⟩ := List.forall_mem_cons.mp plain
      obtain ⟨noBlank, noSlash, noQuote⟩ := not_special_of_isPlain isPlain
      rw [List.cons_append, wordsFrom, noBlank, noSlash, noQuote]
      simp only [Bool.false_eq_true, if_false]
      rw [ih morePlain, List.reverse_cons, List.append_assoc, List.singleton_append]

/-- Quoted characters go on with a word until the quotation is closed and a blank follows. -/
theorem wordsFrom_quoted (chars word rest : List Char) :
    wordsFrom (.quoted '\'') word (quoteChars chars ++ '\'' :: ' ' :: rest) =
      (String.ofList (word.reverse ++ chars) :: ·) <$> wordsFrom .between [] rest := by
  induction chars generalizing word with
  | nil =>
      rw [List.append_nil]
      rfl
  | cons c more ih =>
      have goesOn := ih (c :: word)
      rw [List.reverse_cons, List.append_assoc, List.singleton_append] at goesOn
      rw [← goesOn]
      by_cases quote : c = '\''
      · subst quote
        rfl
      · have other : (c == '\'') = false := beq_false_of_ne quote
        have kept : quoteChars (c :: more) = c :: quoteChars more := by
          rw [quoteChars, List.flatMap_cons, other]
          rfl
        rw [kept, List.cons_append, wordsFrom, other]
        simp

/-- A word is read back from how it is written. -/
theorem wordsFrom_quote (word : String) (rest : List Char) :
    wordsFrom .between [] ((quote word).toList ++ ' ' :: rest) = (word :: ·) <$> wordsFrom .between [] rest := by
  unfold quote
  split
  · rename_i plain
    rw [Bool.and_eq_true, List.all_eq_true] at plain
    cases chars : word.toList with
    | nil => simp [String.toList_eq_nil_iff.mp chars] at plain
    | cons c more =>
        rw [chars] at plain
        obtain ⟨isPlain, morePlain⟩ := List.forall_mem_cons.mp plain.2
        obtain ⟨noBlank, noSlash, noQuote⟩ := not_special_of_isPlain isPlain
        rw [List.cons_append, wordsFrom, noBlank, noSlash, noQuote]
        simp only [Bool.false_eq_true, if_false]
        rw [wordsFrom_bare morePlain, List.reverse_singleton, List.singleton_append, ← chars, String.ofList_toList]
  · rw [String.toList_ofList, List.cons_append, List.cons_append, List.append_assoc, List.singleton_append]
    have opens : wordsFrom .between [] ('\'' :: (quoteChars word.toList ++ '\'' :: ' ' :: rest)) =
        wordsFrom (.quoted '\'') [] (quoteChars word.toList ++ '\'' :: ' ' :: rest) := rfl
    rw [opens, wordsFrom_quoted, List.reverse_nil, List.nil_append, String.ofList_toList]

end Deadwood.Shell

namespace Deadwood.Report

open Shell

def removalLine : DeletionItem → String
  | .function path name => removeSymbolLine ⟨path, name⟩
  | .file path => removeFileLine path

theorem map_removalLine (plan : Plan) : plan.items.map removalLine =
    plan.functions.map removeSymbolLine ++ plan.files.map removeFileLine := by
  rw [Plan.items, List.map_append, List.map_map, List.map_map]
  rfl

theorem wordsFrom_closing : wordsFrom .between [] "--snapshot \"$SNAPSHOT_ID\" --yes".toList =
    .ok ["--snapshot", "$SNAPSHOT_ID", "--yes"] := by
  cbv

theorem words_removeSymbolLine (planned : PlannedCut) : words (removeSymbolLine planned) =
    .ok ["sweep", "remove-symbol", "$ROOT", planned.path, planned.name, "--snapshot", "$SNAPSHOT_ID", "--yes"] := by
  have parts : ∀ first path blank name last : String, (first ++ path ++ blank ++ name ++ last).toList =
      first.toList ++ (path.toList ++ (blank.toList ++ (name.toList ++ last.toList))) := by
    simp [String.toList_append, List.append_assoc]
  have text : (removeSymbolLine planned).toList = "sweep remove-symbol \"$ROOT\" ".toList ++
      ((quote planned.path).toList ++ ' ' :: ((quote planned.name).toList ++
        ' ' :: "--snapshot \"$SNAPSHOT_ID\" --yes".toList)) :=
    parts _ _ _ _ _
  have opening : ∀ rest, wordsFrom .between [] ("sweep remove-symbol \"$ROOT\" ".toList ++ rest) =
      ("sweep" :: ·) <$> ("remove-symbol" :: ·) <$> ("$ROOT" :: ·) <$> wordsFrom .between [] rest :=
    fun _ => rfl
  rw [words, text, opening, wordsFrom_quote, wordsFrom_quote, wordsFrom_closing]
  rfl

theorem words_removeFileLine (path : String) : words (removeFileLine path) =
    .ok ["sweep", "remove-file", "$ROOT", path, "--snapshot", "$SNAPSHOT_ID", "--yes"] := by
  have parts : ∀ first path last : String, (first ++ path ++ last).toList =
      first.toList ++ (path.toList ++ last.toList) := by
    simp [String.toList_append, List.append_assoc]
  have text : (removeFileLine path).toList = "sweep remove-file \"$ROOT\" ".toList ++
      ((quote path).toList ++ ' ' :: "--snapshot \"$SNAPSHOT_ID\" --yes".toList) :=
    parts _ _ _
  have opening : ∀ rest, wordsFrom .between [] ("sweep remove-file \"$ROOT\" ".toList ++ rest) =
      ("sweep" :: ·) <$> ("remove-file" :: ·) <$> ("$ROOT" :: ·) <$> wordsFrom .between [] rest :=
    fun _ => rfl
  rw [words, text, opening, wordsFrom_quote, wordsFrom_closing]
  rfl

/-- The line for an item is the command that deletes it, for any root and any snapshot that the variables may stand for. -/
theorem words_removalLine (item : DeletionItem) :
    words (removalLine item) = .ok ("sweep" :: item.arguments "$ROOT" "$SNAPSHOT_ID") := by
  cases item with
  | function path name => exact words_removeSymbolLine ⟨path, name⟩
  | file path => exact words_removeFileLine path

end Deadwood.Report
