import Mathlib.Data.List.Basic
import Deadwood.Proofs.WrittenValues
import Deadwood.Report.Csv
import Deadwood.Report.Detail
import Deadwood.Report.Dot
import Deadwood.Report.Summary
import Deadwood.Report.Tree
import Deadwood.Text.Split

/-!
# Reading reports

How a reader finds in each form of a report what it names: the list items below a heading, the lines with a cross, the rows of
a table, the entries of a structured value, the dashed nodes of a drawing. A text is read line by line.
-/

set_option autoImplicit false
namespace Deadwood.Report

/-! ## Lines -/

def textLines (text : String) : List (List Char) :=
  Text.splitOn '\n' text.toList

theorem splitFrom_append {separator : Char} {chars : List Char} (absent : separator ∉ chars) (part rest : List Char) :
    Text.splitFrom separator part none (chars ++ separator :: rest) =
      (part.reverse ++ chars) :: Text.splitFrom separator [] none rest := by
  induction chars generalizing part with
  | nil => simp [Text.splitFrom]
  | cons c chars ih =>
      rw [List.mem_cons, not_or] at absent
      rw [List.cons_append, Text.splitFrom, if_neg (by simpa using Ne.symm absent.1), ih absent.2]
      · simp
      · exact fun limited => by cases limited

theorem splitFrom_of_absent {separator : Char} {chars : List Char} (absent : separator ∉ chars) (part : List Char) :
    Text.splitFrom separator part none chars = [part.reverse ++ chars] := by
  induction chars generalizing part with
  | nil => simp [Text.splitFrom]
  | cons c chars ih =>
      rw [List.mem_cons, not_or] at absent
      rw [Text.splitFrom, if_neg (by simpa using Ne.symm absent.1), ih absent.2]
      · simp
      · exact fun limited => by cases limited

/-- Lines that hold no line feed are the lines of the text that is made of them. -/
theorem textLines_joinLines {lines : List String} (some : lines ≠ []) (whole : ∀ line ∈ lines, '\n' ∉ line.toList) :
    textLines (joinLines lines) = lines.map String.toList := by
  have lineFeed : "\n".toList = ['\n'] := rfl
  rw [textLines, joinLines, String.toList_intercalate, lineFeed, Text.splitOn]
  induction lines with
  | nil => exact absurd rfl some
  | cons line rest ih =>
      obtain ⟨wholeLine, wholeRest⟩ := List.forall_mem_cons.mp whole
      cases rest with
      | nil => rw [List.map_cons, List.map_nil, List.intercalate_singleton, splitFrom_of_absent wholeLine]; rfl
      | cons next rest =>
          rw [List.map_cons, List.map_cons, List.intercalate_cons_cons, List.append_assoc, List.singleton_append,
            splitFrom_append wholeLine, ← List.map_cons, ih (List.cons_ne_nil _ _) wholeRest]
          rfl

def Avoids (heading : String) (lines : List String) : Prop :=
  ∀ line ∈ lines, heading.toList.isPrefixOf line.toList = false

theorem Avoids.append {heading : String} {first second : List String} (inFirst : Avoids heading first)
    (inSecond : Avoids heading second) : Avoids heading (first ++ second) := by
  intro line isIn
  exact (List.mem_append.mp isIn).elim (inFirst line) (inSecond line)

def linesBelow (heading : String) (blanks : Nat) (lines : List (List Char)) : List (List Char) :=
  ((lines.dropWhile fun line => !heading.toList.isPrefixOf line).drop (1 + blanks)).takeWhile fun line => !line.isEmpty

theorem linesBelow_eq {heading rest : String} {blanks : Nat} {before gap items after : List String}
    (first : Avoids heading before) (gapLength : gap.length = blanks) (shown : ∀ line ∈ items, line ≠ "") :
    linesBelow heading blanks ((before ++ (heading ++ rest) :: (gap ++ (items ++ "" :: after))).map String.toList) =
      items.map String.toList := by
  have passed : ∀ line ∈ before.map String.toList, (!heading.toList.isPrefixOf line) = true := by
    intro line isIn
    obtain ⟨text, isText, rfl⟩ := List.mem_map.mp isIn
    rw [first text isText]
    rfl
  have found : heading.toList.isPrefixOf (heading ++ rest).toList = true := by
    rw [String.toList_append]
    exact List.isPrefixOf_iff_prefix.mpr (List.prefix_append _ _)
  have listed : ∀ line ∈ items.map String.toList, (!line.isEmpty) = true := by
    intro line isIn
    obtain ⟨text, isText, rfl⟩ := List.mem_map.mp isIn
    simpa using shown text isText
  have gapLines : (gap.map String.toList).length = blanks := by rw [List.length_map, gapLength]
  rw [linesBelow, List.map_append, List.map_cons, List.map_append, List.map_append, List.map_cons,
    List.dropWhile_append_of_pos passed, List.dropWhile_cons_of_neg (by rw [found]; decide), Nat.add_comm,
    List.drop_succ_cons, ← gapLines, List.drop_left, List.takeWhile_append_of_pos listed,
    List.takeWhile_cons_of_neg (by decide), List.append_nil]

def numberAfter? (heading : String) (lines : List (List Char)) : Option Nat :=
  lines.findSome? fun line => (line.dropPrefix? heading.toList).map fun rest =>
    JsonValue.digitsValue (JsonValue.leadingDigits rest)

theorem dropPrefix?_append (start rest : List Char) : (start ++ rest).dropPrefix? start = some rest :=
  List.dropPrefix?_eq_some_iff.mpr ⟨start, rfl, by rw [beq_self_eq_true]⟩

theorem dropPrefix?_eq_none {start line : List Char} (other : start.isPrefixOf line = false) :
    line.dropPrefix? start = none := by
  cases found : line.dropPrefix? start with
  | none => rfl
  | some rest =>
      obtain ⟨beginning, rfl, same⟩ := List.dropPrefix?_eq_some_iff.mp found
      rw [eq_of_beq same, List.isPrefixOf_iff_prefix.mpr (List.prefix_append _ _)] at other
      cases other

theorem numberAfter?_eq {heading rest : String} {count : Nat} {before after : List String} (first : Avoids heading before)
    (stops : ∀ c ∈ rest.toList.head?, c.isDigit = false) :
    numberAfter? heading ((before ++ (heading ++ toString count ++ rest) :: after).map String.toList) = some count := by
  have digits : (toString count).toList = Nat.toDigits 10 count := by
    rw [Nat.toString_eq_repr, Nat.repr, String.toList_ofList]
  have areDigits : ∀ c ∈ Nat.toDigits 10 count, c.isDigit = true := fun c isIn =>
    Nat.isDigit_of_mem_toDigits (by decide) (by decide) isIn
  have none : (before.map String.toList).findSome? (fun line => (line.dropPrefix? heading.toList).map fun rest =>
      JsonValue.digitsValue (JsonValue.leadingDigits rest)) = none := by
    rw [List.findSome?_eq_none_iff]
    intro line isIn
    obtain ⟨text, isText, rfl⟩ := List.mem_map.mp isIn
    rw [dropPrefix?_eq_none (first text isText)]
    rfl
  rw [numberAfter?, List.map_append, List.findSome?_append, none, List.map_cons, List.findSome?_cons, String.toList_append,
    String.toList_append, List.append_assoc, dropPrefix?_append, digits, Option.map_some,
    JsonValue.leadingDigits_append areDigits stops, JsonValue.digitsValue_toDigits]
  rfl

/-! ## Names and levels -/

theorem filterMap_eq_map {α β γ : Type} {read : β → Option γ} {write : α → β} {shown : α → γ} {items : List α}
    (reads : ∀ item ∈ items, read (write item) = some (shown item)) :
    (items.map write).filterMap read = items.map shown := by
  induction items with
  | nil => rfl
  | cons item items ih =>
      obtain ⟨here, there⟩ := List.forall_mem_cons.mp reads
      rw [List.map_cons, List.filterMap_cons, here, ih there, List.map_cons]

theorem filterMap_eq_nil {α β γ : Type} {read : β → Option γ} {write : α → β} {items : List α}
    (reads : ∀ item ∈ items, read (write item) = none) : (items.map write).filterMap read = [] := by
  rw [List.filterMap_eq_nil_iff]
  intro row isIn
  obtain ⟨item, isItem, rfl⟩ := List.mem_map.mp isIn
  exact reads item isItem

def levelOf? (word : String) : Option RiskLevel :=
  RiskLevel.all.find? fun level => level.label == word

theorem levelOf?_label (level : RiskLevel) : levelOf? level.label = some level := by
  cases level <;> decide

def upToFirst (mark : Char) (text : List Char) : List Char :=
  text.takeWhile (· != mark)

def upToLast (mark : Char) (text : List Char) : List Char :=
  ((text.reverse.dropWhile (· != mark)).drop 1).reverse

theorem upToFirst_append {mark : Char} {text : List Char} (absent : mark ∉ text) (rest : List Char) :
    upToFirst mark (text ++ mark :: rest) = text := by
  rw [upToFirst, List.takeWhile_append_of_pos, List.takeWhile_cons_of_neg (by simp), List.append_nil]
  intro c isIn
  rw [bne_iff_ne]
  rintro rfl
  exact absent isIn

theorem upToLast_append {mark : Char} {rest : List Char} (absent : mark ∉ rest) (text : List Char) :
    upToLast mark (text ++ mark :: rest) = text := by
  rw [upToLast, List.reverse_append, List.reverse_cons, List.append_assoc, List.singleton_append,
    List.dropWhile_append_of_pos, List.dropWhile_cons_of_neg (by simp)]
  · simp
  · intro c isIn
    rw [bne_iff_ne]
    rintro rfl
    exact absent (List.mem_reverse.mp isIn)

/-! ## The forms -/

def summaryItem? (nameOf : List Char → List Char) (line : List Char) : Option (String × RiskLevel) :=
  RiskLevel.all.findSome? fun level =>
    (line.dropPrefix? ("- " ++ riskMark level ++ " `").toList).map fun rest => (String.ofList (nameOf rest), level)

def markWord : RiskLevel → String
  | .low => "low"
  | .medium => "medium"
  | .high => "HIGH"

theorem summaryItem?_eq (nameOf : List Char → List Char) (level : RiskLevel) (rest : List Char) :
    summaryItem? nameOf (("- " ++ riskMark level ++ " `").toList ++ rest) = some (String.ofList (nameOf rest), level) := by
  have start (shown : RiskLevel) : ("- " ++ riskMark shown ++ " `").toList =
      '-' :: ' ' :: '[' :: (markWord shown ++ "] `").toList := by
    cases shown <;> rfl
  unfold summaryItem? RiskLevel.all
  simp only [start]
  cases level <;> simp [markWord, List.dropPrefix?]

def summaryFiles (text : String) : List (String × RiskLevel) :=
  (linesBelow "## Unused files" 1 (textLines text)).filterMap (summaryItem? (upToLast '`'))

def summarySymbols (text : String) : List (String × RiskLevel) :=
  (linesBelow "## Unused symbols" 1 (textLines text)).filterMap (summaryItem? (upToFirst '`'))

def crossed? (line : List Char) : Option (List Char) :=
  line.dropPrefix? "  x ".toList

def treeFiles (text : String) : List String :=
  (linesBelow "Unused files (" 0 (textLines text)).filterMap fun line => (crossed? line).map String.ofList

def treeSymbols (text : String) : List String :=
  (linesBelow "Unused symbols (" 0 (textLines text)).filterMap fun line =>
    (crossed? line).map fun rest => String.ofList (upToFirst ' ' rest)

def tableItems (type : String) (rows : List (List String)) : List (String × RiskLevel) :=
  rows.filterMap fun row =>
    match row with
    | [rowType, name, _, _, risk, _] => if rowType = type then (levelOf? risk).map (name, ·) else none
    | _ => none

/-- What the entries of a list name in the detailed report, with their levels. -/
def detailItems (list name : String) (value : JsonValue) : List (String × RiskLevel) :=
  match value.get? list with
  | some (.array items) => items.filterMap fun item =>
    match item.get? name, item.get? "risk" with
    | some (.string shown), some (.string risk) => (levelOf? risk).map (shown, ·)
    | _, _ => none
  | _ => []

/-- The rest of a quoted text up to its closing quote, and what comes after it; `read` is reversed. -/
def readQuoted (read : List Char) : List Char → Option (List Char × List Char)
  | [] => none
  | '"' :: rest => some (read.reverse, rest)
  | '\\' :: c :: rest => readQuoted (c :: read) rest
  | c :: rest => readQuoted (c :: read) rest

theorem readQuoted_dotEscape (text read rest : List Char) :
    readQuoted read (dotEscape text ++ '"' :: rest) = some (read.reverse ++ text, rest) := by
  induction text generalizing read with
  | nil => simp [dotEscape, readQuoted]
  | cons c text ih =>
      have unfolded : dotEscape (c :: text) = (if c == '\\' || c == '"' then ['\\', c] else [c]) ++ dotEscape text := rfl
      rw [unfolded, List.append_assoc]
      by_cases special : c = '\\' ∨ c = '"'
      · have escaped : (c == '\\' || c == '"') = true := by simpa using special
        rw [if_pos escaped, List.cons_append, List.singleton_append, readQuoted, ih]
        simp
      · rw [not_or] at special
        have plain : (c == '\\' || c == '"') = false := by simpa using special
        rw [plain, if_neg Bool.false_ne_true, List.singleton_append, readQuoted, ih]
        · simp
        · exact special.2
        · exact fun _ _ same => absurd same special.1

def dashedEndings : List (List Char) :=
  ["box", "ellipse"].map fun shape => (" [shape=" ++ shape ++ ", style=\"dashed\", color=\"red\"];").toList

def dashedNode? (line : List Char) : Option Node := do
  let quoted ← line.dropPrefix? "  \"".toList
  let (identifier, rest) ← readQuoted [] quoted
  if dashedEndings.contains rest then some (Node.ofText (String.ofList identifier)) else none

def dashedNodes (text : String) : List Node :=
  (textLines text).filterMap dashedNode?

end Deadwood.Report
