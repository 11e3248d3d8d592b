import Deadwood.Proofs.ItemCommands
import Deadwood.Proofs.StyledLines
import Deadwood.Proofs.WrittenValues

/-!
# Commands without styles

A toolkit without styles handles the commands that delete an item, and what is said of a deletion can be shown without styles if
no tag in the path of the file switches one off.
-/

set_option autoImplicit false
namespace Deadwood.CommandLine

/-! ## Arguments -/

theorem IsWord.not_marked {argument : String} (isWord : IsWord argument) : isMarked argument.toList = false := by
  unfold IsWord at isWord
  unfold isMarked
  split
  · rename_i same
    simp [same] at isWord
  · rfl

theorem IsWord.not_end {argument : String} (isWord : IsWord argument) : argument ≠ "--" := by
  rintro rfl
  exact isWord rfl

theorem ofArguments?_word (specs : List OptionSpec) {argument : String} (isWord : IsWord argument) (rest : List String) :
    Given.ofArguments? specs false (argument :: rest) = (Given.ofArguments? specs false rest).map (.afterWord argument) := by
  rw [Given.ofArguments?, if_neg isWord.not_end, isWord.not_marked]
  rfl

theorem ofArguments?_givenTo (id : String) {words : List String} (areWords : ∀ word ∈ words, IsWord word) :
    Given.ofArguments? itemSpecs false (words ++ ["--snapshot", id, "--yes"]) = some (givenTo id words) := by
  induction words with
  | nil =>
      have snapshot : marked? itemSpecs "--snapshot".toList = some ⟨[], some "--snapshot"⟩ := by decide +kernel
      have yes : marked? itemSpecs "--yes".toList = some ⟨[("--yes", none)], none⟩ := by decide +kernel
      rw [List.nil_append, Given.ofArguments?, if_neg (by decide), if_pos (by decide), snapshot]
      dsimp only
      rw [Given.ofArguments?, if_neg (by decide), if_pos (by decide), yes]
      rfl
  | cons word rest ih =>
      rw [List.cons_append, ofArguments?_word _ (areWords word List.mem_cons_self),
        ih fun other member => areWords other (List.mem_cons_of_mem word member)]
      rfl

/-- A toolkit without styles handles the commands that delete an item. -/
theorem handles_plain : Toolkit.plain.Handles where
  command name known arguments := by
    have isWord : ∀ name ∈ commandNames, IsWord name := by
      unfold IsWord
      decide +kernel
    have given : Given.ofArguments? globalOptions true (name :: arguments) = some { words := name :: arguments } := by
      rw [Given.ofArguments?, if_neg (isWord name known).not_end, (isWord name known).not_marked]
      rfl
    exact given
  item _ _ id areWords := ofArguments?_givenTo id areWords
  warning := by
    have shown : Text.Styled.shown ("[yellow]![/yellow] " ++ "Could not append to deletion log") =
        .ok "! Could not append to deletion log" := by cbv
    exact ⟨_, congrArg (Except.mapError Text.Styled.TagError.message) shown⟩

/-! ## What is said of a deletion -/

theorem bracket_not_mem_toString (value : Int) : '[' ∉ (toString value).toList := by
  have noDigit : '[' ∉ Nat.toDigits 10 value.natAbs := fun member =>
    absurd (Nat.isDigit_of_mem_toDigits (b := 10) (by decide) (by decide) member) (by decide)
  rw [JsonValue.toList_toString]
  split
  · simp [noDigit]
  · exact noDigit

open Text.Styled in
/-- What is said of a deletion can be shown if its path can. -/
theorem closesNoTag_deletedLine (record : DeletionRecord) {item : DeletionItem} (pathOpens : ClosesNoTag item.path.toList)
    (plainName : ∀ name ∈ item.name?, '[' ∉ name.toList) : ClosesNoTag (deletedLine record item).toList := by
  have freed := bracket_not_mem_toString record.bytesFreed
  have plain : ∀ text ∈ ["Deleted ", " (", " bytes)", "Removed ", " from ", " (lines ", "-", ", "], '[' ∉ text.toList := by
    decide +kernel
  simp only [List.forall_mem_cons, List.not_mem_nil, false_implies, implies_true, and_true] at plain
  obtain ⟨deleted, opening, bytes, removed, home, lines, hyphen, comma⟩ := plain
  have noSlash : (" (".toList).head? = some ' ' ∧ (" (lines ".toList).head? = some ' ' := by decide +kernel
  have goesOn : ∀ {text : List Char} (rest : List Char), text.head? = some ' ' → (text ++ rest).head? ≠ some '/' := by
    rintro (_ | ⟨c, more⟩) rest begins
    · cases begins
    · obtain rfl := Option.some.inj begins
      exact fun same => absurd (Option.some.inj same) (by decide)
  cases item with
  | file path =>
      have parts : ∀ a b c d e : String, (a ++ b ++ c ++ d ++ e).toList =
          a.toList ++ (b.toList ++ (c.toList ++ (d.toList ++ e.toList))) := by
        simp [String.toList_append, List.append_assoc]
      have opens : ClosesNoTag path.toList := pathOpens
      have line : deletedLine record (.file path) =
          "Deleted " ++ path ++ " (" ++ toString record.bytesFreed ++ " bytes)" := rfl
      rw [line, parts]
      refine opens.surround deleted ?_ (goesOn _ noSlash.1)
      simp only [List.mem_append, opening, freed, bytes, or_self, not_false_eq_true]
  | function path name =>
      have named := plainName name rfl
      have parts : ∀ a b c d e f g h i j k : String, (a ++ b ++ c ++ d ++ e ++ f ++ g ++ h ++ i ++ j ++ k).toList =
          (a.toList ++ (b.toList ++ c.toList)) ++ (d.toList ++ (e.toList ++ (f.toList ++ (g.toList ++ (h.toList ++
            (i.toList ++ (j.toList ++ k.toList))))))) := by
        simp [String.toList_append, List.append_assoc]
      unfold deletedLine
      obtain ⟨first, last⟩ : Int × Int := record.span.getD (0, 0)
      dsimp only
      rw [parts]
      have opens : ClosesNoTag path.toList := pathOpens
      refine opens.surround ?_ ?_ (goesOn _ noSlash.2)
      · simp only [List.mem_append, removed, named, home, or_self, not_false_eq_true]
      · simp only [List.mem_append, lines, bracket_not_mem_toString first, hyphen, bracket_not_mem_toString last, comma, freed,
          bytes, or_self, not_false_eq_true]

/-- Without styles, what is said of a deletion can be shown if no tag of the path switches a style off. -/
theorem exists_shown_plain {item : DeletionItem} (pathOpens : Text.Styled.ClosesNoTag item.path.toList)
    (plainName : ∀ name ∈ item.name?, '[' ∉ name.toList) (record : DeletionRecord) :
    ∃ line, Toolkit.plain.shown ("[green]✓[/green] " ++ deletedLine record item) = .ok line := by
  obtain ⟨line, shown⟩ := Text.Styled.shown_done (closesNoTag_deletedLine record pathOpens plainName)
  exact ⟨line, congrArg (Except.mapError Text.Styled.TagError.message) shown⟩

end Deadwood.CommandLine
