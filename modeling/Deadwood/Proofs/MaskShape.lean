import Mathlib.Data.List.Forall2
import Deadwood.Proofs.Seam
import Deadwood.Source.Markup

/-!
# The shape of a masked view

A view shows each character or a space in its place, and keeps line ends. So a view is as long as its text and is blank
where the text is.
-/

set_option autoImplicit false
namespace Deadwood.Source

open Deadwood.Text Deadwood.Removal

def Shows (view text : List Char) : Prop :=
  List.Forall₂ (fun image c => image = c ∨ image = blank c) view text

theorem shown_eq (hidden : Bool) (c : Char) : shown hidden c = c ∨ shown hidden c = blank c := by
  cases hidden with
  | false => exact Or.inl rfl
  | true => exact Or.inr rfl

theorem shows_maskFrom (view : View) (region : Region) (holes : List Nat) (written text : List Char) :
    Shows (maskFrom view region holes written text) text := by
  fun_induction maskFrom view region holes written text
  all_goals
    first
      | exact .nil
      | exact .cons (Or.inl rfl) (by assumption)
      | exact .cons (shown_eq _ _) (by assumption)
      | exact .cons (shown_eq _ _) (.cons (shown_eq _ _) (by assumption))

/-- Nothing is hidden of a text in which nothing can begin a comment or a literal. -/
theorem maskFrom_eq_self {text : List Char} (plain : ∀ c ∈ text, c ≠ '/' ∧ c ≠ '\'' ∧ c ≠ '"' ∧ c ≠ '`') (view : View)
    (written : List Char) : maskFrom view .code [] written text = text := by
  induction text generalizing written with
  | nil => simp [maskFrom]
  | cons c rest ih =>
      obtain ⟨noSlash, noSingle, noDouble, noTemplate⟩ := plain c List.mem_cons_self
      have later := ih (fun other member => plain other (List.mem_cons_of_mem c member)) (c :: written)
      simp [maskFrom, noSlash, noSingle, noDouble, noTemplate, later]

theorem mask_eq_self {text : List Char} (plain : ∀ c ∈ text, c ≠ '/' ∧ c ≠ '\'' ∧ c ≠ '"' ∧ c ≠ '`') (view : View) :
    mask view text = text :=
  maskFrom_eq_self plain view []

theorem shows_mask (view : View) (text : List Char) : Shows (mask view text) text :=
  shows_maskFrom view .code [] [] text

namespace Shows

variable {view text : List Char}

theorem length_eq (shows : Shows view text) : view.length = text.length :=
  List.Forall₂.length_eq shows

theorem take (shows : Shows view text) (count : Nat) : Shows (view.take count) (text.take count) :=
  List.forall₂_take count shows

theorem drop (shows : Shows view text) (count : Nat) : Shows (view.drop count) (text.drop count) :=
  List.forall₂_drop count shows

theorem isSpace_blank {c : Char} (space : isSpace c = true) : isSpace (blank c) = true := by
  unfold blank
  split
  · exact space
  · decide

/-- Nothing shows where the text holds nothing but white space. -/
theorem isAllSpace (shows : Shows view text) (allSpace : isAllSpace text = true) : Text.isAllSpace view = true := by
  induction shows with
  | nil => rfl
  | @cons image c view text same _ ih =>
      simp only [Text.isAllSpace, List.all_cons, Bool.and_eq_true] at allSpace ih ⊢
      refine ⟨?_, ih allSpace.2⟩
      rcases same with rfl | rfl
      · exact allSpace.1
      · exact isSpace_blank allSpace.1

theorem blank_inline {c : Char} (inline : isInlineBlank c = true ∨ c = '\n') :
    isInlineBlank (blank c) = true ∨ blank c = '\n' := by
  rcases inline with inline | rfl
  · simp only [isInlineBlank, Bool.or_eq_true, beq_iff_eq] at inline
    rcases inline with rfl | rfl
    · exact Or.inl rfl
    · exact Or.inl rfl
  · exact Or.inr rfl

theorem getLast?_lineEnd (shows : Shows view text) (last : text.getLast? = some '\n') :
    view.getLast? = some '\n' := by
  induction shows with
  | nil => cases last
  | @cons image c view text same rest ih =>
      cases rest with
      | nil =>
          simp only [List.getLast?_singleton, Option.some.injEq] at last ⊢
          subst last
          rcases same with rfl | rfl <;> rfl
      | cons _ _ =>
          rw [List.getLast?_cons_cons] at last ⊢
          exact ih last

theorem blankLines (shows : Shows view text) (blankLines : BlankLines text) : BlankLines view where
  blank image member := by
    obtain ⟨index, present⟩ := List.mem_iff_getElem?.mp member
    obtain ⟨inView, rfl⟩ := List.getElem?_eq_some_iff.mp present
    have inText : index < text.length := shows.length_eq ▸ inView
    have allowed := blankLines.blank text[index] (List.getElem_mem inText)
    rcases shows.get inView inText with same | same
    · simp only [List.get_eq_getElem] at same
      rw [same]
      exact allowed
    · simp only [List.get_eq_getElem] at same
      rw [same]
      exact blank_inline allowed
  whole := by
    rcases blankLines.whole with rfl | last
    · exact Or.inl (List.length_eq_zero_iff.mp shows.length_eq)
    · exact Or.inr (shows.getLast?_lineEnd last)

theorem blank_blank (c : Char) : blank (blank c) = blank c := by
  unfold blank
  split <;> rfl

theorem trans {between : List Char} (first : Shows view between) (second : Shows between text) : Shows view text := by
  induction second generalizing view with
  | nil =>
      cases first
      exact .nil
  | @cons image c between text same _ ih =>
      cases first with
      | @cons shown _ view _ sameImage rest =>
          refine .cons ?_ (ih rest)
          rcases same with rfl | rfl
          · exact sameImage
          · rw [blank_blank, or_self] at sameImage
            exact Or.inr sameImage

theorem getElem?_of_visible (shows : Shows view text) {place : Nat} {c : Char} (shown : view[place]? = some c)
    (visible : isSpace c = false) : text[place]? = some c := by
  obtain ⟨inView, rfl⟩ := List.getElem?_eq_some_iff.mp shown
  have inText : place < text.length := shows.length_eq ▸ inView
  rw [List.getElem?_eq_getElem inText]
  rcases shows.get inView inText with same | same
  · exact congrArg some same.symm
  · simp only [List.get_eq_getElem] at same
    have blanked : isSpace (blank text[place]) = false := same ▸ visible
    by_cases lineEnd : (text[place] == '\n' || text[place] == '\r') = true
    · rw [same, blank, if_pos lineEnd]
    · rw [blank, if_neg lineEnd] at blanked
      cases blanked

end Shows

theorem shows_showOnly (stretches : List Stretch) (offset : Nat) (text : List Char) :
    Shows (showOnly stretches offset text) text := by
  induction text generalizing offset with
  | nil => exact .nil
  | cons c rest ih =>
      refine .cons ?_ (ih (offset + 1))
      split
      · exact Or.inl rfl
      · exact Or.inr rfl

theorem shows_searchView (isPage : Bool) (text : List Char) : Shows (searchView isPage text) text := by
  cases isPage with
  | false => exact shows_mask .code text
  | true => exact (shows_mask .code _).trans (shows_showOnly _ 0 text)

end Deadwood.Source
