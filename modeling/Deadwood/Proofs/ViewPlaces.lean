import Deadwood.Proofs.PlacedDefinitions

/-!
# Places in a view

A view shows at every place the character of the text or a blank, and keeps the line ends. So an offset means the same place and
the same line in a text and in every view of it. The scan that makes a view comes to the end of every text, whatever is left open
there, as each turn passes something and none passes the end.
-/

set_option autoImplicit false
namespace Deadwood.Source

open Deadwood.Text

/-! ## The end of the scan -/

theorem exists_comesTo_end (view : View) (text : List Char) :
    ∃ region holes, ComesTo view text text.length region holes := by
  have onward : ∀ (remaining offset : Nat) (region : Region) (holes : List Nat), ComesTo view text offset region holes →
      offset + remaining = text.length → ∃ region holes, ComesTo view text text.length region holes := by
    intro remaining
    induction remaining using Nat.strongRecOn with
    | ind remaining inductionHypothesis =>
        intro offset region holes here toEnd
        by_cases done : remaining = 0
        · have atEnd : offset = text.length := by omega
          exact ⟨region, holes, atEnd ▸ here⟩
        · generalize taken :
            turn (patternAllowed ((mask view text).take offset).reverse) holes region (text.drop offset) = now
          have remains : text.drop offset ≠ [] := by
            intro none
            have := List.drop_eq_nil_iff.mp none
            omega
          have passes : 0 < now.count := taken ▸ turn_count_pos remains ..
          have fits : now.count ≤ (text.drop offset).length := taken ▸ turn_count_le ..
          rw [List.length_drop] at fits
          apply inductionHypothesis (remaining - now.count) (by omega) (offset + now.count) now.region now.holes
          · exact here.pass (by omega) taken
          · omega
  exact onward text.length 0 .code [] .start (Nat.zero_add _)

/-! ## What a view keeps -/

/-- The view has the places and the lines of the text. Offsets below zero count from the end. -/
structure KeepsPlaces (view text : List Char) : Prop where
  length : view.length = text.length
  shown : ∀ (place : Nat) (c : Char), view[place]? = some c → text[place]? = some c ∨ c = ' '
  lineEnd : ∀ (place : Nat) (c : Char), c = '\n' ∨ c = '\r' → (view[place]? = some c ↔ text[place]? = some c)
  line : ∀ offset : Int, lineOf view (fromEnd view offset) = lineOf text (fromEnd text offset)

theorem blank_cases (c : Char) : blank c = c ∧ (c = '\n' ∨ c = '\r') ∨ blank c = ' ' ∧ ¬ (c = '\n' ∨ c = '\r') := by
  by_cases lineEnd : c = '\n' ∨ c = '\r'
  · left
    simp [blank, lineEnd]
  · right
    simp [blank, lineEnd]

namespace Shows

variable {view text : List Char}

theorem getElem?_cases (shows : Shows view text) (place : Nat) :
    view[place]? = none ∧ text[place]? = none ∨
      ∃ c, text[place]? = some c ∧ (view[place]? = some c ∨ view[place]? = some (blank c)) := by
  induction shows generalizing place with
  | nil => simp
  | @cons image c view text same _ inductionHypothesis =>
      cases place with
      | zero => simpa using same
      | succ place => simpa using inductionHypothesis place

theorem keepsPlaces (shows : Shows view text) : KeepsPlaces view text where
  length := shows.length_eq
  shown place c present := by
    rcases shows.getElem?_cases place with ⟨none, _⟩ | ⟨original, inText, same | blanked⟩
    · simp [none] at present
    · left
      rw [inText, ← same, present]
    · rw [present, Option.some.injEq] at blanked
      rcases blank_cases original with ⟨kept, _⟩ | ⟨hidden, _⟩
      · exact .inl (inText.trans (congrArg some (blanked.trans kept).symm))
      · exact .inr (blanked.trans hidden)
  lineEnd place c isLineEnd := by
    have noBlank : c ≠ ' ' := by
      rintro rfl
      simp at isLineEnd
    rcases shows.getElem?_cases place with ⟨none, noneInText⟩ | ⟨original, inText, same | blanked⟩
    · simp [none, noneInText]
    · simp [same, inText]
    · rcases blank_cases original with ⟨kept, _⟩ | ⟨hidden, noLineEnd⟩
      · simp [blanked, inText, kept]
      · have other : original ≠ c := by
          rintro rfl
          exact noLineEnd isLineEnd
        simp [blanked, inText, hidden, Ne.symm noBlank, other]
  line offset := by
    have sameOffset : fromEnd view offset = fromEnd text offset := by
      simp only [fromEnd, shows.length_eq]
    rw [sameOffset, shows.lineOf_eq]

end Shows

/-- The scan of a text ends, and the views keep its places: that of a script, that of a page, and the one of the other. -/
theorem views_keep_places (view : View) (text : List Char) :
    (∃ region holes, ComesTo view text text.length region holes) ∧ KeepsPlaces (mask view text) text ∧
      KeepsPlaces (codeView text) text ∧ KeepsPlaces (mask view (codeView text)) text := by
  have ofPage : Shows (codeView text) text := shows_showOnly (codeStretches text) 0 text
  refine ⟨exists_comesTo_end view text, ?_, ofPage.keepsPlaces, ?_⟩
  · exact (shows_mask view text).keepsPlaces
  · exact ((shows_mask view (codeView text)).trans ofPage).keepsPlaces

/-- An escape at the end of a text steps past nothing. -/
example : mask .code "'a\\".toList = "'  ".toList := by
  decide

end Deadwood.Source
