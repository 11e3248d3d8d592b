import Deadwood.Proofs.JoinedLines
import Deadwood.Proofs.LoneDeletions
import Deadwood.Proofs.ShrinkingRemovals
import Deadwood.Proofs.StoredLines

/-!
# Lines that a removal keeps

A function is cut out of the text that is read from a file, and what is left is written back whole. So the lines away from the
span stay as they are stored only if nothing about them is lost in reading, and the size that is recorded is that of the text
that was read.
-/

set_option autoImplicit false
namespace Deadwood

open Source Text Files

namespace Removal

/-! ## Lines at a seam -/

section Seams

variable {head tail first second : List Char}

theorem trimRight_append_of_shows (shows : isAllSpace second = false) :
    trimRight (first ++ second) = first ++ trimRight second := by
  have stops : (second.reverse.dropWhile isSpace).isEmpty = false := by
    rw [← Bool.not_eq_true, List.isEmpty_iff, List.dropWhile_eq_nil_iff]
    intro all
    rw [isAllSpace, List.all_eq_true.mpr fun c member => all c (List.mem_reverse.mpr member)] at shows
    cases shows
  rw [trimRight, List.reverse_append, List.dropWhile_append, stops]
  exact (List.reverse_append).trans (by rw [List.reverse_reverse, trimRight])

theorem trimRight_append_of_space (space : isAllSpace second = true) : trimRight (first ++ second) = trimRight first := by
  have passes : (second.reverse.dropWhile isSpace).isEmpty = true := by
    rw [List.isEmpty_iff, List.dropWhile_eq_nil_iff]
    exact fun c member => List.all_eq_true.mp space c (List.mem_reverse.mp member)
  rw [trimRight, List.reverse_append, List.dropWhile_append, passes, if_pos rfl, trimRight]

/-- The beginning is kept as it is if something shows on both sides. -/
theorem exists_seam_eq_append (headShows : isAllSpace head = false) (tailShows : isAllSpace tail = false) :
    ∃ rest, seam head tail = head ++ rest := by
  unfold seam
  rw [if_neg (by rw [tailShows]; decide), if_neg (by rw [headShows]; decide)]
  split
  · exact ⟨_, rfl⟩
  · split <;> exact ⟨_, rfl⟩

theorem seam_of_space (headShows : isAllSpace head = false) (tailSpace : isAllSpace tail = true) :
    seam head tail = trimRight head ++ ['\n'] := by
  rw [seam, if_pos tailSpace, if_neg (by rw [headShows]; decide)]

theorem wholeLines_of_endsWithBlankLine (ends : endsWithBlankLine head = true) : WholeLines head := by
  unfold endsWithBlankLine at ends
  split at ends
  case h_1 rest reversed => exact Or.inr (by rw [List.getLast?_eq_head?_reverse, reversed]; rfl)
  case h_2 => cases ends

/-- No blank lines are dropped from a line that shows something, nor from what follows it. -/
theorem exists_dropBlankLines_eq {between line : List Char} (oneLine : '\n' ∉ line)
    (shows : isAllSpace (between ++ line) = false) (below : List Char) :
    ∃ gone left, between = gone ++ left ∧ dropBlankLines (between ++ (line ++ below)) = left ++ (line ++ below) := by
  obtain ⟨lines, blankLines, split⟩ := dropBlankLines_split (between ++ (line ++ below))
  rcases List.append_eq_append_iff.mp split with ⟨more, rfl, later⟩ | ⟨left, rfl, later⟩
  · rcases List.append_eq_append_iff.mp later with ⟨rest, rfl, _⟩ | ⟨rest, rfl, same⟩
    · have blank : isAllSpace (between ++ line ++ rest) = true := by
        rw [List.append_assoc]
        exact isAllSpace_of_blankLines blankLines
      rw [isAllSpace_append, shows] at blank
      cases blank
    · cases ending : more.getLast? with
      | none =>
          rw [List.getLast?_eq_none_iff.mp ending] at later ⊢
          exact ⟨between, [], (List.append_nil _).symm, later.symm⟩
      | some c =>
          -- the blank lines would end inside the line
          have last : (between ++ more).getLast? = some c := by rw [List.getLast?_append, ending]; rfl
          rcases blankLines.whole with none | feed
          · rw [none] at last
            cases last
          · obtain rfl := Option.some.inj (feed.symm.trans last)
            exact absurd (List.mem_append_left rest (List.mem_of_getLast? ending)) oneLine
  · exact ⟨lines, left, rfl, later⟩

/-- A line after a cut is kept with all that follows. It begins a line there, unless it is the first one after the cut and
something visible is left of the line before. -/
theorem exists_seam_eq_line (head below : List Char) {between line : List Char} (whole : WholeLines between) (oneLine : '\n' ∉ line)
    (shows : isAllSpace (between ++ line) = false) :
    ∃ front, seam head (between ++ (line ++ below)) = front ++ (line ++ below) ∧
      (WholeLines front ↔ between ≠ [] ∨ WholeLines head ∨ isAllSpace head = true) := by
  obtain ⟨gone, left, split, dropped⟩ := exists_dropBlankLines_eq oneLine shows below
  have wholeLeft : WholeLines left := by
    have suffix := whole.drop gone.length
    rwa [drop_of_split split] at suffix
  have tailShows : ¬ isAllSpace (between ++ (line ++ below)) = true := by
    rw [← List.append_assoc, isAllSpace_append, shows, Bool.false_and]
    decide
  rw [seam, if_neg tailShows]
  split
  case isTrue headSpace => exact ⟨left, dropped, iff_of_true wholeLeft (Or.inr (Or.inr headSpace))⟩
  case isFalse headShows =>
    split
    case isTrue ends =>
      have wholeHead := wholeLines_of_endsWithBlankLine ends
      refine ⟨head ++ left, by rw [dropped, List.append_assoc], iff_of_true ?_ (Or.inr (Or.inl wholeHead))⟩
      by_cases none : left = []
      · rwa [none, List.append_nil]
      · exact wholeLeft.append none
    case isFalse =>
      split
      case isTrue several =>
        refine ⟨head ++ '\n' :: left, by rw [dropped, List.append_assoc, List.cons_append], iff_of_true ?_ (Or.inl ?_)⟩
        · refine WholeLines.append (Or.inr ?_) (List.cons_ne_nil _ _)
          rcases wholeLeft with none | last
          · rw [none]
            rfl
          · rw [List.getLast?_cons, last]
            rfl
        · rintro rfl
          rw [List.nil_append, leadingBlankLines_eq_zero oneLine shows] at several
          omega
      case isFalse =>
        refine ⟨head ++ between, (List.append_assoc _ _ _).symm, ?_⟩
        by_cases none : between = []
        · rw [none, List.append_nil]
          simp [headShows]
        · exact iff_of_true (whole.append none) (Or.inl none)

end Seams

/-! ## Stored lines that stay -/

section Lines

variable {isPage : Bool} {name : String} {stored : List Char} {span : FunctionSpan}

/-- The line lies outside of the span, and is no blank line next to it: something shows between its far end and the span. -/
def Away (span : FunctionSpan) (line : StoredLine stored) : Prop :=
  line.stop ≤ span.start ∧ isAllSpace (slice (unifyLineEnds stored) line.start span.start) = false ∨
    span.stop ≤ line.start ∧ isAllSpace (slice (unifyLineEnds stored) span.stop line.stop) = false

/-- The line is a line of what the cut leaves, at its place and with the same line end. -/
def Stays (span : FunctionSpan) (line : StoredLine stored) : Prop :=
  ∃ later : StoredLine (cut (unifyLineEnds stored) span), later.body = line.body ∧ later.ending = line.ending ∧
    placeAfterCut (unifyLineEnds stored) span line.start = some later.above.length

/-- White space stands at the end of the line, and nothing shows after it but what is cut out. -/
def LosesBlanks (span : FunctionSpan) (line : StoredLine stored) : Prop :=
  line.stop ≤ span.start ∧ isAllSpace (slice (unifyLineEnds stored) line.stop span.start) = true ∧
    isAllSpace ((unifyLineEnds stored).drop span.stop) = true ∧ trimRight line.body ≠ line.body

/-- The line is the first one after the span and is joined to what the span leaves of its first line. -/
def IsJoined (span : FunctionSpan) (line : StoredLine stored) : Prop :=
  line.start = span.stop ∧ JoinsLines (unifyLineEnds stored) span

theorem return_not_mem_cut (stored : List Char) (span : FunctionSpan) : '\r' ∉ cut (unifyLineEnds stored) span := by
  intro member
  rcases mem_of_mem_cut member with old | feed
  · exact return_not_mem_unifyLineEnds stored old
  · cases feed

/-- A line that stays ends with a line feed or at the end, since there are no other line ends. -/
theorem stays_iff (line : StoredLine stored) :
    Stays span line ↔ (line.ending = .feed ∨ line.ending = .missing) ∧
      ∃ front back, cut (unifyLineEnds stored) span = front ++ (line.body ++ (line.ending.read ++ back)) ∧
        WholeLines front ∧ (line.ending = .missing → back = []) ∧
        placeAfterCut (unifyLineEnds stored) span line.start = some front.length := by
  have noReturn := return_not_mem_cut stored span
  constructor
  · rintro ⟨later, sameBody, sameEnd, place⟩
    have parts := later.whole
    rw [parts] at noReturn
    simp only [List.mem_append, not_or] at noReturn
    have ending : line.ending = .feed ∨ line.ending = .missing := by
      rw [← sameEnd]
      cases ends : later.ending with
      | feed => exact Or.inl rfl
      | missing => exact Or.inr rfl
      | carriage | pair =>
          rw [ends] at noReturn
          exact absurd List.mem_cons_self noReturn.2.2.1
    have read : line.ending.read = line.ending.chars := by
      rcases ending with feed | missing
      · rw [feed]
        rfl
      · rw [missing]
        rfl
    refine ⟨ending, later.above, later.below, ?_, ?_, fun missing => (later.ends.2 (sameEnd.trans missing)).1, place⟩
    · rwa [read, ← sameBody, ← sameEnd]
    · rcases later.begins with none | feed | ⟨carriage, _⟩
      · exact Or.inl none
      · exact Or.inr feed
      · exact absurd (List.mem_of_getLast? carriage) noReturn.1
  · rintro ⟨ending, front, back, parts, whole, last, place⟩
    have read : line.ending.read = line.ending.chars ∧ line.ending ≠ .carriage := by
      rcases ending with feed | missing
      · rw [feed]
        exact ⟨rfl, by decide⟩
      · rw [missing]
        exact ⟨rfl, by decide⟩
    rw [read.1] at parts
    exact ⟨⟨front, line.body, line.ending, back, parts, whole.imp_right Or.inl, line.oneLine,
      fun carriage => absurd carriage read.2, fun missing => ⟨last missing, (line.ends.2 missing).2⟩⟩, rfl, rfl, place⟩

/-- What stands before a span below a line. -/
theorem exists_take_eq_line (line : StoredLine stored) {offset : Nat} (before : line.stop ≤ offset) :
    ∃ between, (unifyLineEnds stored).take offset =
        unifyLineEnds line.above ++ (line.body ++ (line.ending.read ++ between)) ∧
      slice (unifyLineEnds stored) line.start offset = line.body ++ (line.ending.read ++ between) ∧
      slice (unifyLineEnds stored) line.stop offset = between := by
  have stopIs : (unifyLineEnds line.above ++ (line.body ++ line.ending.read)).length = line.stop := by
    rw [List.length_append, List.length_append, ← Nat.add_assoc]
    rfl
  have taken : (unifyLineEnds stored).take offset =
      (unifyLineEnds line.above ++ (line.body ++ line.ending.read)) ++
        (unifyLineEnds line.below).take (offset - line.stop) := by
    conv => lhs; rw [line.unifyLineEnds_eq]
    rw [← List.append_assoc line.body, ← List.append_assoc, List.take_append, stopIs,
      List.take_of_length_le (stopIs.trans_le before)]
  refine ⟨(unifyLineEnds line.below).take (offset - line.stop), taken.trans (by simp only [List.append_assoc]), ?_, ?_⟩
  · rw [slice, taken, List.append_assoc]
    exact (drop_of_split rfl).trans (List.append_assoc _ _ _)
  · rw [slice, taken, ← stopIs]
    exact drop_of_split rfl

/-- What stands after a span, with a line in it. -/
theorem drop_eq_line (line : StoredLine stored) {offset : Nat} (after : offset ≤ line.start) :
    (unifyLineEnds stored).drop offset =
        (unifyLineEnds line.above).drop offset ++ (line.body ++ (line.ending.read ++ unifyLineEnds line.below)) ∧
      slice (unifyLineEnds stored) offset line.stop =
        (unifyLineEnds line.above).drop offset ++ (line.body ++ line.ending.read) := by
  obtain ⟨between, taken, _, none⟩ := exists_take_eq_line line (Nat.le_refl line.stop)
  have nothing : between = [] := by
    rw [← none, slice]
    exact List.drop_eq_nil_of_le (List.length_take_le _ _)
  constructor
  · conv => lhs; rw [line.unifyLineEnds_eq]
    exact List.drop_append_of_le_length after
  · rw [slice, taken, nothing, List.append_nil]
    exact List.drop_append_of_le_length after

/-- A line above a span has a line end. -/
theorem ended_of_before (located : locate? isPage name (unifyLineEnds stored) = some span) {line : StoredLine stored}
    (before : line.stop ≤ span.start) : line.ending ≠ .missing ∧ line.ending.read = ['\n'] := by
  obtain ⟨room, inside⟩ := room_of_locate? located
  cases ending : line.ending with
  | missing =>
      have whole := congrArg List.length line.unifyLineEnds_eq
      rw [(line.ends.2 ending).1, ending] at whole
      simp only [List.length_append, LineEnd.read, unifyLineEnds, List.length_nil] at whole
      simp only [StoredLine.stop, StoredLine.start, ending, LineEnd.read, List.length_nil] at before
      omega
  | feed | carriage | pair => exact ⟨by decide, rfl⟩

theorem cut_eq_of_losesBlanks {line : StoredLine stored} (read : line.ending.read = ['\n'])
    (shows : isAllSpace (slice (unifyLineEnds stored) line.start span.start) = false) (loses : LosesBlanks span line) :
    cut (unifyLineEnds stored) span = unifyLineEnds line.above ++ (trimRight line.body ++ ['\n']) := by
  obtain ⟨before, space, tailSpace, _⟩ := loses
  obtain ⟨between, head, fromLine, below⟩ := exists_take_eq_line line before
  rw [below] at space
  have afterBody : isAllSpace (line.ending.read ++ between) = true := by
    rw [isAllSpace_append, space, read]
    decide
  rw [fromLine] at shows
  have headShows : isAllSpace ((unifyLineEnds stored).take span.start) = false := by
    rw [head, isAllSpace_append, shows, Bool.and_false]
  have bodyShows : isAllSpace line.body = false := by
    rwa [isAllSpace_append, afterBody, Bool.and_true] at shows
  rw [cut, seam_of_space headShows tailSpace, head, ← List.append_assoc, trimRight_append_of_space afterBody,
    trimRight_append_of_shows bodyShows, List.append_assoc]

theorem exists_cut_eq_of_not_losesBlanks {line : StoredLine stored} (read : line.ending.read = ['\n'])
    (before : line.stop ≤ span.start) (shows : isAllSpace (slice (unifyLineEnds stored) line.start span.start) = false)
    (keeps : ¬ LosesBlanks span line) :
    ∃ rest, cut (unifyLineEnds stored) span = unifyLineEnds line.above ++ (line.body ++ (line.ending.read ++ rest)) := by
  obtain ⟨between, head, fromLine, below⟩ := exists_take_eq_line line before
  rw [fromLine] at shows
  have headShows : isAllSpace ((unifyLineEnds stored).take span.start) = false := by
    rw [head, isAllSpace_append, shows, Bool.and_false]
  cases tailShows : isAllSpace ((unifyLineEnds stored).drop span.stop) with
  | false =>
      obtain ⟨rest, joined⟩ := exists_seam_eq_append headShows tailShows
      exact ⟨between ++ rest, by rw [cut, joined, head]; simp only [List.append_assoc]⟩
  | true =>
      rw [cut, seam_of_space headShows tailShows, head]
      cases betweenShows : isAllSpace between with
      | false =>
          refine ⟨trimRight between ++ ['\n'], ?_⟩
          rw [← List.append_assoc, ← List.append_assoc, trimRight_append_of_shows betweenShows]
          simp only [List.append_assoc]
      | true =>
          have afterBody : isAllSpace (line.ending.read ++ between) = true := by
            rw [isAllSpace_append, betweenShows, read]
            decide
          have bodyShows : isAllSpace line.body = false := by
            rwa [isAllSpace_append, afterBody, Bool.and_true] at shows
          have trimmed : trimRight line.body = line.body := by
            by_contra differs
            exact keeps ⟨before, below ▸ betweenShows, tailShows, differs⟩
          refine ⟨[], ?_⟩
          rw [← List.append_assoc, trimRight_append_of_space afterBody, trimRight_append_of_shows bodyShows, trimmed,
            read, List.append_nil, List.append_assoc]

/-- A line above the span stays if it ends with a line feed, unless it loses white space. -/
theorem stays_iff_of_before (located : locate? isPage name (unifyLineEnds stored) = some span) (line : StoredLine stored)
    (before : line.stop ≤ span.start)
    (shows : isAllSpace (slice (unifyLineEnds stored) line.start span.start) = false) :
    Stays span line ↔ line.ending = .feed ∧ ¬ LosesBlanks span line := by
  obtain ⟨ended, read⟩ := ended_of_before located before
  have place : placeAfterCut (unifyLineEnds stored) span line.start = some (unifyLineEnds line.above).length := by
    refine if_pos ?_
    rw [StoredLine.stop, read, List.length_singleton] at before
    omega
  rw [stays_iff]
  simp only [ended, or_false, false_implies, true_and]
  refine and_congr_right fun _ => ⟨?_, fun keeps => ?_⟩
  · rintro ⟨front, back, parts, _, here⟩ loses
    -- the white space is missing behind the same beginning
    rw [cut_eq_of_losesBlanks read shows loses] at parts
    have sameFront : (unifyLineEnds line.above).length = front.length := Option.some.inj (place.symm.trans here)
    have lengths := congrArg List.length (List.append_inj parts sameFront).2
    obtain ⟨_, _, isTake⟩ := trimRight_eq_take line.body
    rw [read] at lengths
    simp only [List.length_append, List.length_singleton] at lengths
    exact loses.2.2.2 (by rw [isTake, List.take_of_length_le (by omega)])
  · obtain ⟨rest, parts⟩ := exists_cut_eq_of_not_losesBlanks read before shows keeps
    exact ⟨_, rest, parts, line.wholeLines_above, place⟩

/-! ## Lines after the span -/

theorem wholeLines_take_iff {text : List Char} {offset : Nat} (inside : offset ≤ text.length) :
    WholeLines (text.take offset) ↔ BeginsLine text offset := by
  cases offset with
  | zero => exact iff_of_true (Or.inl rfl) (Or.inl rfl)
  | succ offset =>
      have present : text[offset]? = some text[offset] := List.getElem?_eq_getElem inside
      have some : text.take (offset + 1) ≠ [] := by
        rw [ne_eq, List.take_eq_nil_iff, not_or, ← List.length_eq_zero_iff]
        omega
      rw [WholeLines, BeginsLine, List.getLast?_take, if_neg (Nat.succ_ne_zero offset), Nat.add_sub_cancel, present]
      simp [some]

/-- A span that begins inside a line leaves something visible of it. -/
theorem beginsLine_of_isAllSpace {text : List Char} (located : locate? isPage name text = some span)
    (space : isAllSpace (text.take span.start) = true) : BeginsLine text span.start := by
  obtain ⟨extent, _, startIs, inside, _⟩ := start_eq_toLineStart_outset located
  by_contra midLine
  rw [startIs, beginsLine_toLineStart_iff inside] at midLine
  have startAt : span.start = outset isPage text extent := by rw [startIs, toLineStart_eq, if_neg midLine]
  rw [← startAt] at midLine
  exact midLine (List.all_eq_true.mpr fun c member => List.all_eq_true.mp space c (List.mem_of_mem_drop member))

/-- Where a line follows a span, the cut joins it to the line before just if the span begins inside that one. -/
theorem joinsLines_iff_not_beginsLine {text : List Char} (located : locate? isPage name text = some span)
    (follows : BeginsLine text span.stop) (shows : isAllSpace (lineFrom text span.stop) = false) :
    JoinsLines text span ↔ ¬ BeginsLine text span.start := by
  obtain ⟨room, _⟩ := room_of_locate? located
  obtain ⟨extent, _, begins, joins⟩ := joinsLines_iff located
  rw [joins, begins, Bool.not_eq_true]
  have feed : text[span.stop - 1]? = some '\n' := follows.resolve_left (by omega)
  exact ⟨fun joined => joined.2.1, fun midLine => ⟨feed, midLine, shows⟩⟩

theorem isJoined_iff (located : locate? isPage name (unifyLineEnds stored) = some span) {line : StoredLine stored}
    (follows : line.start = span.stop) (shows : isAllSpace line.body = false) :
    IsJoined span line ↔ ¬ BeginsLine (unifyLineEnds stored) span.start := by
  obtain ⟨_, inside⟩ := room_of_locate? located
  have above : (unifyLineEnds stored).take span.stop = unifyLineEnds line.above :=
    follows ▸ take_of_split line.unifyLineEnds_eq
  have begins : BeginsLine (unifyLineEnds stored) span.stop := by
    rw [← wholeLines_take_iff inside, above]
    exact line.wholeLines_above
  have behind : (unifyLineEnds stored).drop span.stop = line.body ++ (line.ending.read ++ unifyLineEnds line.below) :=
    follows ▸ drop_of_split line.unifyLineEnds_eq
  have passes : ∀ c ∈ line.body, decide (c ≠ '\n') = true :=
    fun c member => decide_eq_true fun same => line.oneLine.1 (same ▸ member)
  have fromShows : isAllSpace (lineFrom (unifyLineEnds stored) span.stop) = false := by
    rw [lineFrom, behind, List.takeWhile_append_of_pos passes, isAllSpace_append, shows, Bool.false_and]
  rw [IsJoined, joinsLines_iff_not_beginsLine located begins fromShows]
  exact and_iff_right follows

/-- A line below the span stays if it ends with a line feed or at the end, unless it is joined to what the span leaves. -/
theorem stays_iff_of_after (located : locate? isPage name (unifyLineEnds stored) = some span) (line : StoredLine stored)
    (after : span.stop ≤ line.start)
    (shows : isAllSpace (slice (unifyLineEnds stored) span.stop line.stop) = false) :
    Stays span line ↔ (line.ending = .feed ∨ line.ending = .missing) ∧ ¬ IsJoined span line := by
  obtain ⟨room, inside⟩ := room_of_locate? located
  obtain ⟨tail, upToLine⟩ := drop_eq_line line after
  have endSpace : isAllSpace line.ending.read = true := by cases line.ending <;> decide
  rw [upToLine, ← List.append_assoc, isAllSpace_append, endSpace, Bool.and_true] at shows
  obtain ⟨front, joined, wholeFront⟩ := exists_seam_eq_line ((unifyLineEnds stored).take span.start)
    (line.ending.read ++ unifyLineEnds line.below) (line.wholeLines_above.drop span.stop) line.oneLine.1 shows
  have parts : cut (unifyLineEnds stored) span =
      front ++ (line.body ++ (line.ending.read ++ unifyLineEnds line.below)) := by
    rw [cut, tail, joined]
  have place : placeAfterCut (unifyLineEnds stored) span line.start = some front.length := by
    have before := congrArg List.length line.unifyLineEnds_eq
    have later := congrArg List.length parts
    rw [List.length_append] at before later
    rw [placeAfterCut, if_neg (by omega), if_neg (by omega), later, before, StoredLine.start]
    congr 1
    omega
  have keeps : WholeLines front ↔ ¬ IsJoined span line := by
    rw [wholeFront, wholeLines_take_iff (by omega)]
    by_cases follows : line.start = span.stop
    · have none : (unifyLineEnds line.above).drop span.stop = [] := List.drop_eq_nil_of_le (Nat.le_of_eq follows)
      rw [none, List.nil_append] at shows
      rw [isJoined_iff located follows shows, not_not, none]
      exact ⟨fun either => (either.resolve_left (fun some => some rfl)).elim id (beginsLine_of_isAllSpace located),
        fun begins => Or.inr (Or.inl begins)⟩
    · have some : (unifyLineEnds line.above).drop span.stop ≠ [] := by
        rw [ne_eq, List.drop_eq_nil_iff]
        exact fun short => follows (Nat.le_antisymm short after)
      exact iff_of_true (Or.inl some) fun isJoined => follows isJoined.1
  rw [stays_iff]
  refine and_congr_right fun _ => ⟨?_, fun apart => ?_⟩
  · rintro ⟨front', back, parts', whole, _, here⟩
    have sameFront : front'.length = front.length := Option.some.inj (here.symm.trans place)
    rwa [← keeps, ← (List.append_inj (parts'.symm.trans parts) sameFront).1]
  · exact ⟨front, _, parts, keeps.mpr apart, fun missing => by rw [(line.ends.2 missing).1]; rfl, place⟩

/-- A line away from a span stays as it is stored just if it ends with a line feed or with the text, loses no white space at its
end, and is not joined to what the span leaves of its first line. -/
theorem stays_iff_of_away (located : locate? isPage name (unifyLineEnds stored) = some span) (line : StoredLine stored)
    (away : Away span line) :
    Stays span line ↔
      (line.ending = .feed ∨ line.ending = .missing) ∧ ¬ LosesBlanks span line ∧ ¬ IsJoined span line := by
  obtain ⟨room, _⟩ := room_of_locate? located
  have ordered : line.start ≤ line.stop := by
    rw [StoredLine.stop]
    omega
  rcases away with ⟨before, shows⟩ | ⟨after, shows⟩
  · have apart : ¬ IsJoined span line := fun isJoined => by
      have follows := isJoined.1
      omega
    rw [stays_iff_of_before located line before shows]
    simp only [(ended_of_before located before).1, or_false, apart, not_false_eq_true, and_true]
  · have keeps : ¬ LosesBlanks span line := fun loses => by
      have before := loses.1
      omega
    rw [stays_iff_of_after located line after shows]
    simp only [keeps, not_false_eq_true, true_and]

end Lines
end Removal

/-! ## What a deletion makes of a stored file -/

namespace DeletionSession

variable {session : DeletionSession} {path name : String} {location : Location} {stored : List Char} {span : FunctionSpan}
  {record : DeletionRecord}

/-- The session has a file as it is stored: it has not cut it, or has written what it has made of it. -/
structure Tells (session : DeletionSession) (path : String) (location : Location) (stored : List Char) : Prop where
  resolved : session.resolve path = .ok location
  present : path ∉ session.removed
  edited : ∀ text, session.pending.lookup path = some text → text = unifyLineEnds stored
  held : session.tree.entry? location = some (.file (encode stored))

theorem Tells.textOf_eq (tells : session.Tells path location stored) :
    session.textOf path = .ok (location, unifyLineEnds stored) := by
  cases edited : session.pending.lookup path with
  | some text => rw [textOf_of_pending tells.resolved tells.present edited, tells.edited text edited]
  | none => rw [textOf_of_file tells.resolved tells.present edited tells.held, readText_encode_unify]

theorem exists_span_of_recorded (tells : session.Tells path location stored)
    (recorded : (session.deleteFunction path name).2 = some record) :
    ∃ span, Removal.locate? (isPagePath path) name (unifyLineEnds stored) = some span := by
  cases located : Removal.locate? (isPagePath path) name (unifyLineEnds stored) with
  | some span => exact ⟨span, rfl⟩
  | none =>
      rw [record_of_absent tells.textOf_eq (Option.map_eq_none_iff.mpr located)] at recorded
      cases recorded

/-- A function that is located is cut out of the file, and nothing else is written. -/
theorem Tells.deleteFunction_of_located (tells : session.Tells path location stored) (performs : session.dryRun = false)
    (located : Removal.locate? (isPagePath path) name (unifyLineEnds stored) = some span) :
    ∃ tree, session.tree.write location (encode (Removal.cut (unifyLineEnds stored) span)) = .ok tree ∧
      (session.deleteFunction path name).1 = (session.noteOriginal path (unifyLineEnds stored)).afterCut tree path name
        (unifyLineEnds stored) (Removal.cut (unifyLineEnds stored) span) span ∧
      (session.deleteFunction path name).2 =
        some (session.cutRecord path name (unifyLineEnds stored) (Removal.cut (unifyLineEnds stored) span) span) := by
  have removed : Removal.remove? (isPagePath path) name (unifyLineEnds stored) =
      some (Removal.cut (unifyLineEnds stored) span, span) := by
    rw [Removal.remove?, located, Option.map_some]
  obtain ⟨tree, written⟩ : ∃ tree,
      session.tree.write location (encode (Removal.cut (unifyLineEnds stored) span)) = .ok tree :=
    ⟨_, by rw [Tree.write, tells.held]⟩
  refine ⟨tree, written, deleteFunction_of_written tells.textOf_eq removed ?_,
    record_of_written tells.textOf_eq removed performs written⟩
  rw [performs, written]
  rfl

theorem Tells.afterCut (tells : session.Tells path location stored) {tree : Tree}
    (written : session.tree.write location (encode (Removal.cut (unifyLineEnds stored) span)) = .ok tree) :
    ((session.noteOriginal path (unifyLineEnds stored)).afterCut tree path name (unifyLineEnds stored)
      (Removal.cut (unifyLineEnds stored) span) span).Tells path location (Removal.cut (unifyLineEnds stored) span) where
  resolved := by
    rw [← tells.resolved, DeletionSession.resolve, DeletionSession.resolve, DeletionSession.afterCut, root_noteOriginal]
  present := by
    rw [DeletionSession.afterCut, removed_noteOriginal]
    exact tells.present
  edited text edited := by
    rw [DeletionSession.afterCut, lookup_putText, if_pos rfl] at edited
    rw [unifyLineEnds_eq_self _ (Removal.return_not_mem_cut stored span), ← Option.some.inj edited]
  held := by
    rw [DeletionSession.afterCut, Tree.entry?_write written, if_pos rfl]

/-- A deletion that is recorded changes one file: the function is cut out of what was read. The size that is recorded before it
lacks a byte for each line that ends with a carriage return and a line feed. A line away from the span stays as it is stored
just if it ends with a line feed or with the text, loses no white space at its end, and is not joined to what the span leaves
of its first line. -/
theorem deleteFunction_keeps_lines (performs : session.dryRun = false) (tells : session.Tells path location stored)
    (recorded : (session.deleteFunction path name).2 = some record) :
    ∃ span, Removal.locate? (isPagePath path) name (unifyLineEnds stored) = some span ∧
      record.span = some ((span.startLine : Int), (span.endLine : Int)) ∧
      (session.deleteFunction path name).1.Tells path location (Removal.cut (unifyLineEnds stored) span) ∧
      (∀ place ≠ location, (session.deleteFunction path name).1.tree.entry? place = session.tree.entry? place) ∧
      record.sizeAfter = (encode (Removal.cut (unifyLineEnds stored) span)).length ∧
      record.sizeBefore + countPairs stored = (encode stored).length ∧
      ∀ line : StoredLine stored, Removal.Away span line →
        (Removal.Stays span line ↔ (line.ending = .feed ∨ line.ending = .missing) ∧
          ¬ Removal.LosesBlanks span line ∧ ¬ Removal.IsJoined span line) := by
  obtain ⟨span, located⟩ := exists_span_of_recorded tells recorded
  obtain ⟨tree, written, session', record'⟩ := tells.deleteFunction_of_located performs located
  obtain rfl := Option.some.inj (record'.symm.trans recorded)
  have sizes := length_encode_unifyLineEnds stored
  refine ⟨span, located, rfl, ?_, ?_, rfl, ?_, Removal.stays_iff_of_away located⟩
  · rw [session']
    exact tells.afterCut written
  · intro place elsewhere
    rw [session', DeletionSession.afterCut, Tree.entry?_write written, if_neg elsewhere]
  · change ((encode (unifyLineEnds stored)).length : Int) + countPairs stored = (encode stored).length
    omega

/-- A session for a root with one file, under a snapshot. -/
def onlyFile (stored : List Char) : DeletionSession :=
  { tree := ⟨[(["src"], .directory), (["src", "a.gs"], .file (encode stored))]⟩, root := ["src"]
    now := ⟨2026, 1, 1, 12, 0, 0, 0⟩, snapshotId := some "s" }

theorem tells_onlyFile (stored : List Char) : (onlyFile stored).Tells "a.gs" ["src", "a.gs"] stored where
  resolved := rfl
  present := List.not_mem_nil
  edited _ edited := by cases edited
  held := rfl

/-- A function, a line that ends with a line feed, and one that ends with a carriage return as well. -/
def mixedText : List Char :=
  "function drop() \x7b\x7d\nkeep();\nlast();\r\n".toList

def mixedLine : StoredLine mixedText where
  above := "function drop() \x7b\x7d\n".toList
  body := "keep();".toList
  ending := .feed
  below := "last();\r\n".toList
  whole := by decide
  begins := by decide
  oneLine := by decide
  ends := by decide

theorem locate?_mixedText :
    Removal.locate? (isPagePath "a.gs") "drop" (unifyLineEnds mixedText) = some ⟨"drop", 0, 19, 1, 1⟩ := by
  decide +kernel

theorem feed_kept_beside_carriage_return : (onlyFile mixedText).dryRun = false ∧
    (onlyFile mixedText).Tells "a.gs" ["src", "a.gs"] mixedText ∧
    ∃ record, ((onlyFile mixedText).deleteFunction "a.gs" "drop").2 = some record ∧
      record.sizeBefore + 1 = (encode mixedText).length ∧
      Removal.Away ⟨"drop", 0, 19, 1, 1⟩ mixedLine ∧ Removal.Stays ⟨"drop", 0, 19, 1, 1⟩ mixedLine := by
  have performs : (onlyFile mixedText).dryRun = false := rfl
  have tells := tells_onlyFile mixedText
  obtain ⟨_, _, _, recorded⟩ := tells.deleteFunction_of_located performs locate?_mixedText
  obtain ⟨span, located, _, _, _, _, sizes, keeps⟩ := deleteFunction_keeps_lines performs tells recorded
  obtain rfl := Option.some.inj (locate?_mixedText.symm.trans located)
  have start : mixedLine.start = 19 := by decide
  have away : Removal.Away ⟨"drop", 0, 19, 1, 1⟩ mixedLine := Or.inr ⟨Nat.le_of_eq start.symm, by decide +kernel⟩
  refine ⟨performs, tells, _, recorded, sizes, away, (keeps mixedLine away).mpr ⟨Or.inl rfl, fun loses => ?_, fun joined => ?_⟩⟩
  · have before : mixedLine.start ≤ 0 := Nat.le_trans (Nat.le_add_right_of_le (Nat.le_add_right _ _)) loses.1
    omega
  · obtain ⟨_, first, _, _, _, _, _, before, _⟩ := joined.2
    exact absurd before (Nat.not_lt_zero _)

/-- A file whose lines end with carriage return and line feed. -/
def pairedText : List Char :=
  "function drop() \x7b\x7d\r\nkeep();\r\n".toList

def pairedLine : StoredLine pairedText where
  above := "function drop() \x7b\x7d\r\n".toList
  body := "keep();".toList
  ending := .pair
  below := []
  whole := by decide
  begins := by decide
  oneLine := by decide
  ends := by decide

/-- A line away from the span loses its carriage return, and the size that is recorded is not the one of the file. -/
theorem carriage_return_lost : ∃ record, ((onlyFile pairedText).deleteFunction "a.gs" "drop").2 = some record ∧
    record.sizeBefore = 27 ∧ (encode pairedText).length = 29 ∧
    Removal.locate? (isPagePath "a.gs") "drop" (unifyLineEnds pairedText) = some ⟨"drop", 0, 19, 1, 1⟩ ∧
    Removal.Away ⟨"drop", 0, 19, 1, 1⟩ pairedLine ∧ ¬ Removal.Stays ⟨"drop", 0, 19, 1, 1⟩ pairedLine ∧
    ((onlyFile pairedText).deleteFunction "a.gs" "drop").1.tree.entry? ["src", "a.gs"] =
      some (.file (encode "keep();\n".toList)) := by
  have located : Removal.locate? (isPagePath "a.gs") "drop" (unifyLineEnds pairedText) = some ⟨"drop", 0, 19, 1, 1⟩ := by
    decide +kernel
  have tells := tells_onlyFile pairedText
  obtain ⟨tree, written, session', recorded⟩ := tells.deleteFunction_of_located rfl located
  have away : Removal.Away ⟨"drop", 0, 19, 1, 1⟩ pairedLine := Or.inr ⟨by decide, by decide +kernel⟩
  refine ⟨_, recorded, by decide +kernel, by decide +kernel, located, away, fun stays => ?_, ?_⟩
  · rcases ((Removal.stays_iff pairedLine).mp stays).1 with feed | missing
    · cases feed
    · cases missing
  · have left : Removal.cut (unifyLineEnds pairedText) ⟨"drop", 0, 19, 1, 1⟩ = "keep();\n".toList := by decide +kernel
    rw [session', DeletionSession.afterCut, Tree.entry?_write written, if_pos rfl, left]

end DeletionSession
end Deadwood
