import Deadwood.Text.Styled

/-!
# Lines with tags

A text in which no tag switches a style off can be shown, whatever else it holds.
-/

set_option autoImplicit false
namespace Deadwood.Text.Styled

def ClosesNoTag (text : List Char) : Prop :=
  ¬ ['[', '/'] <:+: text

theorem ClosesNoTag.tail {c : Char} {rest : List Char} (opens : ClosesNoTag (c :: rest)) : ClosesNoTag rest :=
  fun inside => opens (inside.trans (List.infix_cons (List.infix_refl rest)))

theorem closesNoTag_of_not_mem {text : List Char} (noBracket : '[' ∉ text) : ClosesNoTag text :=
  fun inside => noBracket (inside.subset List.mem_cons_self)

/-- What stands around a text switches nothing off either if it has no brackets. -/
theorem ClosesNoTag.surround {front text back : List Char} (opens : ClosesNoTag text) (noneBefore : '[' ∉ front)
    (noneBehind : '[' ∉ back) (noSlash : back.head? ≠ some '/') : ClosesNoTag (front ++ (text ++ back)) := by
  have behind : ClosesNoTag (text ++ back) := by
    induction text with
    | nil => exact closesNoTag_of_not_mem noneBehind
    | cons c rest ih =>
        intro inside
        rcases List.infix_cons_iff.mp inside with here | later
        · obtain ⟨rfl, next⟩ := List.cons_prefix_cons.mp here
          cases rest with
          | nil =>
              rcases back with _ | ⟨d, more⟩
              · cases List.prefix_nil.mp next
              · obtain ⟨rfl, _⟩ := List.cons_prefix_cons.mp next
                exact noSlash rfl
          | cons d more =>
              obtain ⟨rfl, _⟩ := List.cons_prefix_cons.mp next
              exact opens ⟨[], more, rfl⟩
        · exact ih opens.tail later
  induction front with
  | nil => exact behind
  | cons c rest ih =>
      rw [List.mem_cons, not_or] at noneBefore
      intro inside
      rcases List.infix_cons_iff.mp inside with here | later
      · exact noneBefore.1 (List.cons_prefix_cons.mp here).1
      · exact ih noneBefore.2 later

theorem tagInside?_eq_some {rest inside : List Char} (found : tagInside? rest = some inside) :
    ∃ c more later, rest = c :: more ∧ inside = c :: later := by
  unfold tagInside? at found
  split at found
  · cases found
  · rename_i c more
    split at found
    · obtain ⟨later, _, rfl⟩ := Option.map_eq_some_iff.mp found
      exact ⟨c, more, later, rfl, rfl⟩
    · cases found

theorem not_tag_mem_plainPiece {reversed inside : List Char} : Piece.tag inside ∉ plainPiece reversed := by
  unfold plainPiece
  split <;> simp

theorem head?_of_tag_mem {plain text inside : List Char} {backslashes passing : Nat} (opens : ClosesNoTag text)
    (member : Piece.tag inside ∈ piecesFrom plain backslashes passing text) : inside.head? ≠ some '/' := by
  induction text generalizing plain backslashes passing with
  | nil => exact absurd member not_tag_mem_plainPiece
  | cons c rest ih =>
      have later {plain : List Char} {backslashes passing : Nat} := @ih plain backslashes passing opens.tail
      unfold piecesFrom at member
      split at member
      · exact later member
      split at member
      · exact later member
      split at member
      · exact later member
      · rename_i found isFound
        dsimp only at member
        rcases List.mem_append.mp member with before | atOrAfter
        · rcases List.mem_append.mp before with early | slashes
          · exact absurd early not_tag_mem_plainPiece
          · exact absurd slashes not_tag_mem_plainPiece
        rcases List.mem_cons.mp atOrAfter with here | after
        · split at isFound
          case isFalse => cases isFound
          case isTrue bracket =>
            obtain ⟨d, more, close, rfl, rfl⟩ := tagInside?_eq_some isFound
            have noSlash : d ≠ '/' := by
              rintro rfl
              rw [beq_iff_eq.mp bracket] at opens
              exact opens ⟨[], more, rfl⟩
            split at here
            · obtain rfl := Piece.tag.inj here
              simpa using noSlash
            · cases here
        · exact later after

theorem switch_of_opens {inside : List Char} (opens : inside.head? ≠ some '/') (styles : List String) :
    ∃ later, switch styles inside = .ok later := by
  have named : ∀ closed, inside.takeWhile (· != '=') ≠ '/' :: closed := by
    intro closed same
    have first : inside.head? = some '/' := by
      cases inside with
      | nil => cases same
      | cons c rest =>
          rw [List.takeWhile_cons] at same
          split at same
          · rw [(List.cons.inj same).1]
            rfl
          · cases same
    exact opens first
  unfold switch
  generalize inside.takeWhile (· != '=') = name at named
  dsimp only
  match name, named with
  | [], _ => exact ⟨_, rfl⟩
  | c :: closed, named =>
      have differs : c ≠ '/' := fun same => named closed (same ▸ rfl)
      exact ⟨styleName (c :: closed) :: styles, by simp⟩

theorem plainText_of_opens {pieces : List Piece} (opens : ∀ inside, Piece.tag inside ∈ pieces → inside.head? ≠ some '/')
    (styles : List String) : ∃ text, plainText styles pieces = .ok text := by
  induction pieces generalizing styles with
  | nil => exact ⟨[], rfl⟩
  | cons piece rest ih =>
      have restOpens := fun inside member => opens inside (List.mem_cons_of_mem piece member)
      cases piece with
      | plain shown =>
          obtain ⟨text, same⟩ := ih restOpens styles
          exact ⟨shown ++ text, by rw [plainText, same]; rfl⟩
      | tag inside =>
          obtain ⟨styles', switched⟩ := switch_of_opens (opens inside List.mem_cons_self) styles
          obtain ⟨text, same⟩ := ih restOpens styles'
          exact ⟨text, by rw [plainText, switched]; exact same⟩

/-- A line that says that all went well can be shown. -/
theorem shown_done {text : String} (opens : ClosesNoTag text.toList) :
    ∃ line, shown ("[green]✓[/green] " ++ text) = .ok line := by
  have pieces : piecesFrom [] 0 0 ("[green]✓[/green] " ++ text).toList =
      .tag "green".toList :: .plain ['✓'] :: .tag "/green".toList :: piecesFrom [] 0 0 (' ' :: text.toList) := by
    rw [String.toList_append]
    rfl
  have spaced : ClosesNoTag (' ' :: text.toList) := by
    rintro ⟨before, after, same⟩
    cases before with
    | nil => cases same
    | cons c more => exact opens ⟨more, after, (List.cons.inj same).2⟩
  obtain ⟨line, same⟩ := @plainText_of_opens (piecesFrom [] 0 0 (' ' :: text.toList))
    (fun inside member => head?_of_tag_mem spaced member) []
  have switches : ∀ rest, plainText [] (.tag "green".toList :: .plain ['✓'] :: .tag "/green".toList :: rest) =
      (plainText [] rest).map (['✓'] ++ ·) := by
    intro rest
    have opened : switch [] "green".toList = .ok ["green"] := rfl
    have closed : switch ["green"] "/green".toList = .ok [] := rfl
    simp only [plainText, opened, closed, bind, Except.bind]
    cases plainText [] rest <;> rfl
  rw [shown, pieces, switches, same]
  exact ⟨_, rfl⟩

end Deadwood.Text.Styled
