import Deadwood.Proofs.PageSpans
import Deadwood.Proofs.Seam

/-!
# Removals that join lines

Where a span begins is decided by what stands before the definition on its line, and where it ends by what stands after the
body, each without regard to the other. If something is left of the first line and the line feed at the end goes, the next line
is joined to what is left.
-/

set_option autoImplicit false
namespace Deadwood.Removal

open Source Text

variable {isPage : Bool} {name : String} {text : List Char} {span : FunctionSpan} {offset : Nat}

/-! ## The line of an offset -/

def BeginsLine (text : List Char) (offset : Nat) : Prop :=
  offset = 0 ∨ text[offset - 1]? = some '\n'

instance (text : List Char) (offset : Nat) : Decidable (BeginsLine text offset) :=
  inferInstanceAs (Decidable (_ ∨ _))

/-- What stands before an offset on its line. -/
def lineBefore (text : List Char) (offset : Nat) : List Char :=
  slice text (lineStart text offset) offset

/-- What stands from an offset on, up to the end of its line. -/
def lineFrom (text : List Char) (offset : Nat) : List Char :=
  (text.drop offset).takeWhile (· ≠ '\n')

/-- What stands before an offset is whole lines and the line of the offset. -/
theorem exists_lines_of_take (inside : offset ≤ text.length) :
    ∃ front, text.take offset = front ++ lineBefore text offset ∧ front.length = lineStart text offset ∧
      '\n' ∉ lineBefore text offset ∧ (front = [] ∨ front.getLast? = some '\n') := by
  have whole := List.takeWhile_append_dropWhile (p := fun c => decide (c ≠ '\n')) (l := (text.take offset).reverse)
  have stops := List.head?_dropWhile_not (fun c => decide (c ≠ '\n')) (text.take offset).reverse
  have passes : ∀ c ∈ (text.take offset).reverse.takeWhile (fun c => decide (c ≠ '\n')), decide (c ≠ '\n') = true :=
    fun c member => List.mem_takeWhile_imp (p := fun c => decide (c ≠ '\n')) member
  have start : lineStart text offset =
      offset - ((text.take offset).reverse.takeWhile fun c => decide (c ≠ '\n')).length := rfl
  generalize (text.take offset).reverse.takeWhile (fun c => decide (c ≠ '\n')) = backwards at whole passes start
  generalize (text.take offset).reverse.dropWhile (fun c => decide (c ≠ '\n')) = above at whole stops
  have split : text.take offset = above.reverse ++ backwards.reverse := by
    rw [← List.reverse_append, whole, List.reverse_reverse]
  have lengths := congrArg List.length split
  rw [List.length_append, List.length_reverse, List.length_reverse, List.length_take, Nat.min_eq_left inside] at lengths
  have startsAt : above.reverse.length = lineStart text offset := by
    rw [List.length_reverse]
    omega
  have line : lineBefore text offset = backwards.reverse := by
    rw [lineBefore, slice, ← startsAt, drop_of_split split]
  refine ⟨above.reverse, by rw [line, split], startsAt, ?_, ?_⟩
  · intro member
    rw [line, List.mem_reverse] at member
    simpa using passes '\n' member
  · cases above with
    | nil => exact Or.inl rfl
    | cons c others =>
        refine Or.inr ?_
        rw [List.getLast?_reverse]
        simpa using stops

/-- What stands from an offset on is the rest of its line, and more. -/
theorem exists_lines_of_drop (text : List Char) (offset : Nat) :
    '\n' ∉ lineFrom text offset ∧ ∃ rest, text.drop offset = lineFrom text offset ++ rest := by
  refine ⟨fun member => ?_, _, (List.takeWhile_append_dropWhile (p := fun c => decide (c ≠ '\n'))).symm⟩
  have passes := List.mem_takeWhile_imp (p := fun c => decide (c ≠ '\n')) member
  simp at passes

theorem beginsLine_lineStart (inside : offset ≤ text.length) : BeginsLine text (lineStart text offset) := by
  obtain ⟨front, split, length, _, none | last⟩ := exists_lines_of_take inside
  · exact Or.inl (by rw [← length, none, List.length_nil])
  · refine Or.inr ?_
    have positive : front.length - 1 < front.length := by
      cases front with
      | nil => cases last
      | cons _ others => exact Nat.lt_succ_self others.length
    rw [← length, ← List.take_append_drop offset text, split, List.append_assoc, List.getElem?_append_left positive,
      ← List.getLast?_eq_getElem?, last]

/-- An offset with something visible before it on its line is no line's beginning. -/
theorem not_beginsLine (inside : offset ≤ text.length) (shows : isAllSpace (lineBefore text offset) = false) :
    ¬ BeginsLine text offset := by
  obtain ⟨front, split, length, oneLine, _⟩ := exists_lines_of_take inside
  have some : lineBefore text offset ≠ [] := by
    intro none
    rw [none] at shows
    cases shows
  have lengths := congrArg List.length split
  rw [List.length_append, List.length_take, Nat.min_eq_left inside] at lengths
  have positive := List.length_pos_iff.mpr some
  rintro (first | after)
  · omega
  · have last : (text.take offset)[offset - 1]? = Option.some '\n' := by
      rw [List.getElem?_take_of_lt (by omega)]
      exact after
    rw [split, List.getElem?_append_right (by omega)] at last
    exact oneLine (List.mem_of_getElem? last)

theorem toLineStart_eq (text : List Char) (offset : Nat) :
    toLineStart text offset = if isAllSpace (lineBefore text offset) then lineStart text offset else offset := rfl

theorem beginsLine_toLineStart_iff (inside : offset ≤ text.length) :
    BeginsLine text (toLineStart text offset) ↔ isAllSpace (lineBefore text offset) = true := by
  rw [toLineStart_eq]
  split
  case isTrue allSpace => exact ⟨fun _ => allSpace, fun _ => beginsLine_lineStart inside⟩
  case isFalse shows =>
    refine ⟨fun begins => ?_, fun allSpace => absurd allSpace shows⟩
    exact absurd begins (not_beginsLine inside (Bool.eq_false_iff.mpr shows))

/-! ## Seams inside a line -/

theorem exists_visible {shown : List Char} (shows : isAllSpace shown = false) :
    ∃ (place : Nat) (c : Char), shown[place]? = some c ∧ isSpace c = false := by
  rw [isAllSpace, List.all_eq_false] at shows
  obtain ⟨c, member, visible⟩ := shows
  obtain ⟨place, present⟩ := List.mem_iff_getElem?.mp member
  exact ⟨place, c, present, Bool.eq_false_iff.mpr visible⟩

theorem isAllSpace_append (first second : List Char) :
    isAllSpace (first ++ second) = (isAllSpace first && isAllSpace second) :=
  List.all_append

/-- No blank line is at the end of a text whose last line shows something. -/
theorem endsWithBlankLine_eq_false {front line : List Char} (oneLine : '\n' ∉ line) (shows : isAllSpace line = false) :
    endsWithBlankLine (front ++ line) = false := by
  cases reversed : line.reverse with
  | nil =>
      rw [List.reverse_eq_nil_iff] at reversed
      rw [reversed] at shows
      cases shows
  | cons c others =>
      have different : c ≠ '\n' := by
        rintro rfl
        exact oneLine (List.mem_reverse.mp (reversed ▸ List.mem_cons_self))
      unfold endsWithBlankLine
      rw [List.reverse_append, reversed, List.cons_append]
      split
      case h_1 same => exact absurd (List.cons.inj same).1 different
      case h_2 => rfl

/-- No blank line is at the beginning of a text whose first line shows something. -/
theorem leadingBlankLines_eq_zero {line rest : List Char} (oneLine : '\n' ∉ line) (shows : isAllSpace line = false) :
    leadingBlankLines (line ++ rest) = 0 := by
  induction line with
  | nil => cases shows
  | cons c line inductionHypothesis =>
      have different : c ≠ '\n' := by
        rintro rfl
        exact oneLine List.mem_cons_self
      rw [List.cons_append, leadingBlankLines, if_neg (by simpa using different)]
      split
      case isTrue inline =>
        refine inductionHypothesis (fun member => oneLine (List.mem_cons_of_mem c member)) ?_
        rwa [isAllSpace, List.all_cons, isSpace_of_isInlineBlank inline, Bool.true_and] at shows
      case isFalse => rfl

/-- A seam between two pieces of lines changes nothing. -/
theorem seam_eq_append {head tail front first last rest : List Char} (before : head = front ++ first)
    (behind : tail = last ++ rest) (firstOneLine : '\n' ∉ first) (lastOneLine : '\n' ∉ last)
    (firstShows : isAllSpace first = false) (lastShows : isAllSpace last = false) : seam head tail = head ++ tail := by
  subst before behind
  rw [seam, isAllSpace_append, isAllSpace_append, firstShows, lastShows, endsWithBlankLine_eq_false firstOneLine firstShows,
    leadingBlankLines_eq_zero lastOneLine lastShows]
  simp

/-! ## Joined lines -/

/-- The offset where a definition begins, or the doc comment above that is cut with it. -/
def outset (isPage : Bool) (text : List Char) (extent : Stretch) : Nat :=
  (docCommentAbove? text (searchView isPage text) (toLineStart text extent.start)).elim extent.start (·.start)

/-- A span ends with a line feed, and its cut puts something visible that is left of the first line on one line with something
visible of the next one. -/
def JoinsLines (text : List Char) (span : FunctionSpan) : Prop :=
  text[span.stop - 1]? = some '\n' ∧ ∃ (first last early late : Nat) (c d : Char),
    first < span.start ∧ text[first]? = some c ∧ isSpace c = false ∧ '\n' ∉ slice text first span.start ∧
    span.stop ≤ last ∧ text[last]? = some d ∧ isSpace d = false ∧ '\n' ∉ slice text span.stop last ∧
    placeAfterCut text span first = some early ∧ placeAfterCut text span last = some late ∧
    '\n' ∉ slice (cut text span) early late

theorem start_eq_toLineStart_outset (located : locate? isPage name text = some span) :
    ∃ extent, extent? isPage name text = some extent ∧ span.start = toLineStart text (outset isPage text extent) ∧
      outset isPage text extent ≤ text.length ∧ span.start ≤ span.stop ∧ span.stop ≤ text.length := by
  obtain ⟨extent, isExtent, startIs, stopIs⟩ := bounds_of_locate? located
  obtain ⟨_, ordered, inside⟩ := endsBody_of_extent? isExtent
  obtain ⟨stops, stopInside⟩ := overTerminator_bounds inside
  have begins := Nat.le_trans (overDocComment_le text (searchView isPage text) _) (toLineStart_le text extent.start)
  rw [← stopIs] at stops stopInside
  rw [← startIs] at begins
  refine ⟨extent, isExtent, ?_, ?_, by omega, stopInside⟩
  · rw [startIs, overDocComment_eq, outset]
    cases docCommentAbove? text (searchView isPage text) (toLineStart text extent.start) <;> rfl
  · unfold outset
    cases found : docCommentAbove? text (searchView isPage text) (toLineStart text extent.start) with
    | none =>
        rw [Option.elim_none]
        omega
    | some comment =>
        have opens := (isDocCommentAbove found).begins.length_le
        rw [List.length_drop, List.length_cons] at opens
        rw [Option.elim_some]
        omega

theorem exists_visible_before (inside : offset ≤ text.length) (shows : isAllSpace (lineBefore text offset) = false) :
    ∃ (first : Nat) (c : Char), first < offset ∧ text[first]? = some c ∧ isSpace c = false ∧ '\n' ∉ slice text first offset := by
  obtain ⟨front, split, length, oneLine, _⟩ := exists_lines_of_take inside
  obtain ⟨place, c, present, visible⟩ := exists_visible shows
  have inLine := (List.getElem?_eq_some_iff.mp present).1
  have lengths := congrArg List.length split
  rw [List.length_append, List.length_take, Nat.min_eq_left inside] at lengths
  have here : (text.take offset)[front.length + place]? = some c := by
    rw [split, List.getElem?_append_right (Nat.le_add_right _ _), Nat.add_sub_cancel_left, present]
  refine ⟨front.length + place, c, by omega, ?_, visible, fun member => oneLine ?_⟩
  · rwa [List.getElem?_take_of_lt (by omega)] at here
  · rw [slice, split, List.drop_append] at member
    rcases List.mem_append.mp member with early | late
    · rw [List.drop_eq_nil_of_le (Nat.le_add_right _ _)] at early
      cases early
    · exact List.mem_of_mem_drop late

theorem exists_visible_from (shows : isAllSpace (lineFrom text offset) = false) :
    ∃ (last : Nat) (c : Char), offset ≤ last ∧ text[last]? = some c ∧ isSpace c = false ∧ '\n' ∉ slice text offset last := by
  obtain ⟨place, c, present, visible⟩ := exists_visible shows
  have inLine := (List.getElem?_eq_some_iff.mp present).1
  obtain ⟨oneLine, rest, split⟩ := exists_lines_of_drop text offset
  have here : (text.drop offset)[place]? = some c := by
    rw [split, List.getElem?_append_left inLine, present]
  rw [List.getElem?_drop] at here
  refine ⟨offset + place, c, Nat.le_add_right _ _, here, visible, fun member => ?_⟩
  rw [slice, ← List.take_drop, split, List.take_append_of_le_length (Nat.le_of_lt inLine)] at member
  exact oneLine (List.mem_of_mem_take member)

theorem mem_slice_iff {c : Char} {start stop : Nat} :
    c ∈ slice text start stop ↔ ∃ place, start ≤ place ∧ place < stop ∧ text[place]? = some c := by
  rw [slice, List.mem_iff_getElem?]
  constructor
  · rintro ⟨index, present⟩
    rw [List.getElem?_drop, List.getElem?_take] at present
    split at present
    case isTrue before => exact ⟨start + index, Nat.le_add_right _ _, before, present⟩
    case isFalse => cases present
  · rintro ⟨place, after, before, present⟩
    refine ⟨place - start, ?_⟩
    rw [List.getElem?_drop, List.getElem?_take, if_pos (by omega), Nat.add_sub_cancel' after, present]

theorem shows_lineFrom {last : Nat} {c : Char} (after : offset ≤ last) (present : text[last]? = some c)
    (visible : isSpace c = false) (oneLine : '\n' ∉ slice text offset last) : isAllSpace (lineFrom text offset) = false := by
  have different : c ≠ '\n' := by
    rintro rfl
    cases visible
  have inside : last < text.length := (List.getElem?_eq_some_iff.mp present).1
  have upTo : (text.drop offset).take (last - offset + 1) = slice text offset last ++ [c] := by
    rw [List.take_add_one, List.getElem?_drop, Nat.add_sub_cancel' after, present, List.take_drop, Nat.add_sub_cancel' after]
    rfl
  have passes : ∀ d ∈ slice text offset last ++ [c], decide (d ≠ '\n') = true := by
    intro d member
    refine decide_eq_true fun same => ?_
    rcases List.mem_append.mp member with early | here
    · exact oneLine (same ▸ early)
    · exact different ((List.mem_singleton.mp here).symm.trans same)
  rw [lineFrom, ← List.take_append_drop (last - offset + 1) (text.drop offset), upTo,
    List.takeWhile_append_of_pos passes, isAllSpace_append, isAllSpace_append]
  simp [isAllSpace, visible]

/-- A cut between two pieces of lines leaves what stands before and after it. -/
theorem cut_eq_append (inside : span.start ≤ text.length) (firstShows : isAllSpace (lineBefore text span.start) = false)
    (lastShows : isAllSpace (lineFrom text span.stop) = false) :
    cut text span = text.take span.start ++ text.drop span.stop := by
  obtain ⟨front, split, _, oneLine, _⟩ := exists_lines_of_take inside
  obtain ⟨lastOneLine, rest, lastSplit⟩ := exists_lines_of_drop text span.stop
  exact seam_eq_append split lastSplit oneLine lastOneLine firstShows lastShows

/-- A span begins a line just if nothing visible stands before the definition, or its doc comment, on its line. Its cut joins
lines just if something visible stands there, the span ends with a line feed, and the next line shows something. -/
theorem joinsLines_iff (located : locate? isPage name text = some span) :
    ∃ extent, extent? isPage name text = some extent ∧
      (BeginsLine text span.start ↔ isAllSpace (lineBefore text (outset isPage text extent)) = true) ∧
      (JoinsLines text span ↔ text[span.stop - 1]? = some '\n' ∧
        isAllSpace (lineBefore text (outset isPage text extent)) = false ∧ isAllSpace (lineFrom text span.stop) = false) := by
  obtain ⟨extent, isExtent, startIs, inside, ordered, stopInside⟩ := start_eq_toLineStart_outset located
  refine ⟨extent, isExtent, by rw [startIs, beginsLine_toLineStart_iff inside], ?_, ?_⟩
  · rintro ⟨ends, first, last, _, _, c, d, firstBefore, _, _, firstLine, lastAfter, lastPresent, lastVisible, lastLine, _⟩
    refine ⟨ends, ?_, shows_lineFrom lastAfter lastPresent lastVisible lastLine⟩
    -- a span that begins a line leaves nothing of it
    rw [← Bool.not_eq_true, ← beginsLine_toLineStart_iff inside, ← startIs]
    rintro (atStart | after)
    · omega
    · refine firstLine (mem_slice_iff.mpr ⟨span.start - 1, by omega, by omega, after⟩)
  · rintro ⟨ends, firstShows, lastShows⟩
    have startAt : span.start = outset isPage text extent := by
      rw [startIs, toLineStart_eq, firstShows]
      rfl
    rw [← startAt] at firstShows inside
    obtain ⟨first, c, firstBefore, firstPresent, firstVisible, firstLine⟩ := exists_visible_before inside firstShows
    obtain ⟨last, d, lastAfter, lastPresent, lastVisible, lastLine⟩ := exists_visible_from lastShows
    have lastInside : last < text.length := (List.getElem?_eq_some_iff.mp lastPresent).1
    have joined := cut_eq_append inside firstShows lastShows
    have length : (cut text span).length = span.start + (text.length - span.stop) := by
      rw [joined, List.length_append, List.length_take, List.length_drop, Nat.min_eq_left inside]
    refine ⟨ends, first, last, first, span.start + (last - span.stop), c, d, firstBefore, firstPresent, firstVisible,
      firstLine, lastAfter, lastPresent, lastVisible, lastLine, ?_, ?_, fun member => ?_⟩
    · rw [placeAfterCut, if_pos firstBefore]
    · rw [placeAfterCut, if_neg (by omega), if_neg (by omega), length]
      congr 1
      omega
    · obtain ⟨place, after, before, newline⟩ := mem_slice_iff.mp member
      rw [joined] at newline
      by_cases early : place < span.start
      · rw [List.getElem?_append_left (by rw [List.length_take]; omega), List.getElem?_take_of_lt early] at newline
        exact firstLine (mem_slice_iff.mpr ⟨place, after, early, newline⟩)
      · rw [List.getElem?_append_right (by rw [List.length_take]; omega), List.length_take, Nat.min_eq_left inside,
          List.getElem?_drop] at newline
        exact lastLine (mem_slice_iff.mpr ⟨_, by omega, by omega, newline⟩)

/-- A function that has its lines for itself is cut out without joining any. -/
theorem lone_function_joins_nothing :
    let text := "function drop() \x7b\x7d\nkeep();\n".toList
    locate? false "drop" text = some ⟨"drop", 0, 19, 1, 1⟩ ∧ BeginsLine text 0 ∧
      ¬ JoinsLines text ⟨"drop", 0, 19, 1, 1⟩ := by
  intro text
  have located : locate? false "drop" text = some ⟨"drop", 0, 19, 1, 1⟩ := by decide +kernel
  obtain ⟨extent, isExtent, begins, joins⟩ := joinsLines_iff located
  have atStart : BeginsLine text 0 := Or.inl rfl
  refine ⟨located, atStart, fun joined => ?_⟩
  have shows := (joins.mp joined).2.1
  rw [begins.mp atStart] at shows
  cases shows

/-- A modifier that stands before a function is left, and the line after the function is joined to it. -/
theorem export_is_joined_to_next_line :
    let text := "export function drop() \x7b\x7d\nkeep();\n".toList
    ∃ span, locate? false "drop" text = some span ∧ text[span.stop - 1]? = some '\n' ∧ ¬ BeginsLine text span.start ∧
      remove? false "drop" text = some ("export keep();\n".toList, span) := by
  refine ⟨⟨"drop", 7, 26, 1, 1⟩, ?_, ?_, ?_, ?_⟩ <;> decide +kernel

end Deadwood.Removal
