import Mathlib.Data.List.TakeWhile
import Deadwood.Removal

/-!
# What stays at a seam

A seam joins a beginning of the text before a cut with an end of the text after it, with at most a line feed between
them. Only white space is lost. So each character that is no white space and stands outside the cut span is still there
afterwards, at a place that is counted from the beginning before the span and from the end after it.
-/

set_option autoImplicit false
namespace Deadwood

open Source Text

namespace Removal

variable {text head tail : List Char} {c : Char}

/-! ## Blank lines -/

theorem isSpace_of_isInlineBlank (inline : isInlineBlank c = true) : isSpace c = true := by
  simp only [isInlineBlank, Bool.or_eq_true, beq_iff_eq] at inline
  rcases inline with rfl | rfl <;> decide

/-- Whole lines that hold nothing but spaces and tabs. -/
structure BlankLines (lines : List Char) : Prop where
  blank : ∀ c ∈ lines, isInlineBlank c = true ∨ c = '\n'
  whole : lines = [] ∨ lines.getLast? = some '\n'

theorem BlankLines.nil : BlankLines [] where
  blank _ member := absurd member List.not_mem_nil
  whole := Or.inl rfl

theorem BlankLines.isSpace {lines : List Char} (blankLines : BlankLines lines) {c : Char} (member : c ∈ lines) :
    isSpace c = true := by
  rcases blankLines.blank c member with inline | rfl
  · exact isSpace_of_isInlineBlank inline
  · decide

/-- One more blank line before blank lines. -/
theorem BlankLines.cons {lines pending : List Char} (blankLines : BlankLines lines)
    (inline : ∀ c ∈ pending, isInlineBlank c = true) : BlankLines (pending ++ '\n' :: lines) where
  blank c member := by
    rcases List.mem_append.mp member with early | late
    · exact Or.inl (inline c early)
    · rcases List.mem_cons.mp late with rfl | late
      · exact Or.inr rfl
      · exact blankLines.blank c late
  whole := by
    right
    rcases blankLines.whole with none | last
    · simp [none]
    · rw [List.getLast?_append, List.getLast?_cons, last]
      rfl

theorem dropBlankLinesFrom_split {line pending rest : List Char} (inline : ∀ c ∈ pending, isInlineBlank c = true)
    (same : line = pending ++ rest) :
    ∃ lines, BlankLines lines ∧ line = lines ++ dropBlankLinesFrom line rest := by
  induction rest generalizing line pending with
  | nil => exact ⟨[], BlankLines.nil, rfl⟩
  | cons c rest ih =>
      unfold dropBlankLinesFrom
      split
      · rename_i isLineEnd
        obtain ⟨lines, blankLines, split⟩ := ih (by simp) (List.nil_append rest).symm
        refine ⟨pending ++ '\n' :: lines, blankLines.cons inline, ?_⟩
        rw [List.append_assoc, List.cons_append, ← split, same, beq_iff_eq.mp isLineEnd]
      · split
        · rename_i isInline
          have inlineMore : ∀ other ∈ pending ++ [c], isInlineBlank other = true := by
            intro other member
            rcases List.mem_append.mp member with early | last
            · exact inline other early
            · rwa [List.mem_singleton.mp last]
          exact ih inlineMore (by simp [same])
        · exact ⟨[], BlankLines.nil, rfl⟩

theorem dropBlankLines_split (text : List Char) : ∃ lines, BlankLines lines ∧ text = lines ++ dropBlankLines text :=
  dropBlankLinesFrom_split (by simp) (List.nil_append text).symm

theorem trimRight_split (text : List Char) : ∃ spaces, isAllSpace spaces = true ∧ text = trimRight text ++ spaces := by
  refine ⟨(text.reverse.takeWhile isSpace).reverse, ?_, ?_⟩
  · rw [isAllSpace, List.all_reverse, List.all_eq_true]
    exact fun c member => List.mem_takeWhile_imp member
  · rw [trimRight, ← List.reverse_append, List.takeWhile_append_dropWhile, List.reverse_reverse]

/-! ## Seams -/

/-- What a seam leaves of the text before and after a cut: so many characters of the beginning, the filler, and so many
characters of the end. -/
structure Seam where
  kept : Nat
  filler : List Char
  rest : Nat
  deriving Repr, DecidableEq

def seamOf (head tail : List Char) : Seam :=
  if isAllSpace tail then
    if isAllSpace head then ⟨0, [], 0⟩ else ⟨(trimRight head).length, ['\n'], 0⟩
  else if isAllSpace head then ⟨0, [], (dropBlankLines tail).length⟩
  else if endsWithBlankLine head then ⟨head.length, [], (dropBlankLines tail).length⟩
  else if 2 ≤ leadingBlankLines tail then ⟨head.length, ['\n'], (dropBlankLines tail).length⟩
  else ⟨head.length, [], tail.length⟩

def seamOfCut (text : List Char) (span : FunctionSpan) : Seam :=
  seamOf (text.take span.start) (text.drop span.stop)

def Seam.join (seam : Seam) (text : List Char) : List Char :=
  text.take seam.kept ++ seam.filler ++ text.drop (text.length - seam.rest)

/-- Nothing but white space is lost at a seam: whole blank lines after it, unless nothing is left there. -/
structure Seam.Fits (seam : Seam) (head tail : List Char) : Prop where
  kept_le : seam.kept ≤ head.length
  rest_le : seam.rest ≤ tail.length
  lost : isAllSpace (head.drop seam.kept) = true
  blank : isAllSpace (tail.take (tail.length - seam.rest)) = true
  filler : seam.filler = [] ∨ seam.filler = ['\n']
  blankLines : seam.rest = 0 ∨ BlankLines (tail.take (tail.length - seam.rest))
  seam_eq : Removal.seam head tail = head.take seam.kept ++ seam.filler ++ tail.drop (tail.length - seam.rest)

theorem isAllSpace_of_blankLines {lines : List Char} (blankLines : BlankLines lines) : isAllSpace lines = true :=
  List.all_eq_true.mpr fun _ member => blankLines.isSpace member

theorem take_of_split {whole front back : List Char} (split : whole = front ++ back) :
    whole.take front.length = front := by
  subst split
  exact List.take_left

theorem drop_of_split {whole front back : List Char} (split : whole = front ++ back) :
    whole.drop front.length = back := by
  subst split
  exact List.drop_left

theorem dropBlankLines_eq_drop (text : List Char) :
    (dropBlankLines text).length ≤ text.length ∧
      BlankLines (text.take (text.length - (dropBlankLines text).length)) ∧
      dropBlankLines text = text.drop (text.length - (dropBlankLines text).length) := by
  obtain ⟨lines, blankLines, split⟩ := dropBlankLines_split text
  have lengths : text.length = lines.length + (dropBlankLines text).length :=
    (congrArg List.length split).trans List.length_append
  have start : text.length - (dropBlankLines text).length = lines.length := by omega
  rw [start, take_of_split split, drop_of_split split]
  exact ⟨by omega, blankLines, rfl⟩

theorem trimRight_eq_take (text : List Char) :
    (trimRight text).length ≤ text.length ∧ isAllSpace (text.drop (trimRight text).length) = true ∧
      trimRight text = text.take (trimRight text).length := by
  obtain ⟨spaces, allSpace, split⟩ := trimRight_split text
  have lengths : text.length = (trimRight text).length + spaces.length :=
    (congrArg List.length split).trans List.length_append
  rw [take_of_split split, drop_of_split split]
  exact ⟨by omega, allSpace, rfl⟩

theorem fits_seamOf (head tail : List Char) : (seamOf head tail).Fits head tail := by
  obtain ⟨shorter, blankLines, dropped⟩ := dropBlankLines_eq_drop tail
  have blank := isAllSpace_of_blankLines blankLines
  unfold seamOf
  split
  · rename_i tailSpace
    split
    · rename_i headSpace
      exact ⟨Nat.zero_le _, Nat.zero_le _, headSpace, by simpa using tailSpace, Or.inl rfl, Or.inl rfl,
        by simp [seam, tailSpace, headSpace]⟩
    · rename_i headText
      obtain ⟨trimmedLe, trimmedSpace, trimmed⟩ := trimRight_eq_take head
      refine ⟨trimmedLe, Nat.zero_le _, trimmedSpace, by simpa using tailSpace, Or.inr rfl, Or.inl rfl, ?_⟩
      simp [seam, tailSpace, headText, ← trimmed]
  · rename_i tailText
    split
    · rename_i headSpace
      refine ⟨Nat.zero_le _, shorter, headSpace, blank, Or.inl rfl, Or.inr blankLines, ?_⟩
      simp [seam, tailText, headSpace, ← dropped]
    · rename_i headText
      split
      · rename_i ends
        refine ⟨Nat.le_refl _, shorter, by simp [isAllSpace], blank, Or.inl rfl, Or.inr blankLines, ?_⟩
        simp [seam, tailText, headText, ends, ← dropped]
      · rename_i noEnd
        split
        · rename_i several
          refine ⟨Nat.le_refl _, shorter, by simp [isAllSpace], blank, Or.inr rfl, Or.inr blankLines, ?_⟩
          simp [seam, tailText, headText, noEnd, several, ← dropped]
        · rename_i few
          refine ⟨Nat.le_refl _, Nat.le_refl _, by simp [isAllSpace], by simp [isAllSpace], Or.inl rfl,
            Or.inr (by simpa using BlankLines.nil), ?_⟩
          simp [seam, tailText, headText, noEnd, few]

theorem fits_seamOfCut (text : List Char) (span : FunctionSpan) :
    (seamOfCut text span).Fits (text.take span.start) (text.drop span.stop) :=
  fits_seamOf _ _

theorem cut_eq_join (text : List Char) (span : FunctionSpan) (within : span.stop ≤ text.length) :
    cut text span = (seamOfCut text span).join text := by
  have fits := fits_seamOfCut text span
  have keptLe : (seamOfCut text span).kept ≤ span.start := by
    have := fits.kept_le
    rw [List.length_take] at this
    omega
  have restLe := fits.rest_le
  rw [List.length_drop] at restLe
  rw [cut, fits.seam_eq, Seam.join, List.take_take, Nat.min_eq_left keptLe, List.drop_drop, List.length_drop]
  congr 2
  omega

/-! ## Places -/

/-- Where an offset of a text is after a cut, none if the cut takes it away: it is counted from the end if it is after
the span. -/
def placeAfterCut (text : List Char) (span : FunctionSpan) (offset : Nat) : Option Nat :=
  if offset < span.start then some offset
  else if offset < span.stop then none
  else some ((cut text span).length - (text.length - offset))

theorem placeAfterCut_eq_none_iff {span : FunctionSpan} {offset : Nat} :
    placeAfterCut text span offset = none ↔ span.start ≤ offset ∧ offset < span.stop := by
  unfold placeAfterCut
  split
  · simp; omega
  · split <;> simp <;> omega

theorem isSpace_of_isAllSpace {spaces : List Char} {index : Nat} (allSpace : isAllSpace spaces = true)
    (present : spaces[index]? = some c) : isSpace c = true :=
  List.all_eq_true.mp allSpace c (List.mem_of_getElem? present)

theorem getElem?_seam_head {index : Nat} (present : head[index]? = some c) (visible : isSpace c = false) :
    (seam head tail)[index]? = some c := by
  have fits := fits_seamOf head tail
  have inHead : index < head.length := (List.getElem?_eq_some_iff.mp present).1
  have before : index < (seamOf head tail).kept := by
    apply Classical.byContradiction
    intro late
    have inLost : (head.drop (seamOf head tail).kept)[index - (seamOf head tail).kept]? = some c := by
      rw [List.getElem?_drop, ← present]
      congr 1
      omega
    rw [isSpace_of_isAllSpace fits.lost inLost] at visible
    cases visible
  rw [fits.seam_eq, List.append_assoc, List.getElem?_append_left (by rw [List.length_take]; omega),
    List.getElem?_take_of_lt before]
  exact present

theorem getElem?_seam_tail {index : Nat} (present : tail[index]? = some c) (visible : isSpace c = false) :
    (seam head tail)[(seam head tail).length - (tail.length - index)]? = some c := by
  have fits := fits_seamOf head tail
  have inTail : index < tail.length := (List.getElem?_eq_some_iff.mp present).1
  have after : tail.length - (seamOf head tail).rest ≤ index := by
    apply Classical.byContradiction
    intro early
    have inBlank : (tail.take (tail.length - (seamOf head tail).rest))[index]? = some c := by
      rw [List.getElem?_take_of_lt (by omega)]
      exact present
    rw [isSpace_of_isAllSpace fits.blank inBlank] at visible
    cases visible
  have restLe := fits.rest_le
  rw [fits.seam_eq, List.getElem?_append_right (by simp only [List.length_append, List.length_drop]; omega),
    List.getElem?_drop, ← present]
  congr 1
  simp only [List.length_append, List.length_drop]
  omega

/-- What is no white space is still there after a cut, unless the cut takes it away. -/
theorem getElem?_cut {span : FunctionSpan} {offset place : Nat} (present : text[offset]? = some c)
    (visible : isSpace c = false) (kept : placeAfterCut text span offset = some place) :
    (cut text span)[place]? = some c := by
  unfold placeAfterCut at kept
  split at kept
  · rename_i before
    obtain rfl := Option.some.inj kept
    exact getElem?_seam_head (by rwa [List.getElem?_take_of_lt before]) visible
  · split at kept
    · cases kept
    · rename_i after
      obtain rfl := Option.some.inj kept
      have inTail : (text.drop span.stop)[offset - span.stop]? = some c := by
        rw [List.getElem?_drop, ← present]
        congr 1
        omega
      have fromEnd : (text.drop span.stop).length - (offset - span.stop) = text.length - offset := by
        rw [List.length_drop]
        omega
      rw [← fromEnd]
      exact getElem?_seam_tail inTail visible

end Removal
end Deadwood
