import Deadwood.Proofs.MaskShape
import Deadwood.Proofs.Sightings

/-!
# Sightings of a spliced view

A view in three parts, `front`, `middle` and `back`, becomes `front`, `filler` and `back`. Where no introducer reaches over
an edge of the cut, the sightings of the front and of the back stay and those of the middle go.
-/

set_option autoImplicit false
namespace Deadwood.Source

open Deadwood.Text Deadwood.Removal Scan

/-- The offsets from `start` to `stop` are cut out of `front ++ (middle ++ back)`; what else is lost of the middle is
white space before them and blank lines after them. -/
structure Splice (front middle filler back : List Char) (start stop : Nat) : Prop where
  front_le : front.length ≤ start
  start_le : start ≤ stop
  stop_le : stop ≤ front.length + middle.length
  lost : isAllSpace (middle.take (start - front.length)) = true
  blank : isAllSpace (middle.drop (stop - front.length)) = true
  blankLines : back = [] ∨ BlankLines (middle.drop (stop - front.length))
  filler : filler = [] ∨ filler = ['\n']

namespace Anatomy

variable {anatomy : Anatomy} {front middle filler back : List Char} {start stop : Nat}

/-- An introducer does not reach over an edge of the span, nor over the seam afterwards, and begins just after the seam
if and only if it did. -/
structure Undisturbed (anatomy : Anatomy) (front middle filler back : List Char) (start stop : Nat) : Prop where
  apart : ∀ sighting ∈ sightings anatomy (front ++ (middle ++ back)), sighting.1 + sighting.2.stop ≤ start ∨
    stop ≤ sighting.1 ∨ start ≤ sighting.1 ∧ sighting.1 + sighting.2.stop ≤ stop
  joined : ∀ sighting ∈ sightings anatomy (front ++ (filler ++ back)),
    sighting.1 + sighting.2.stop ≤ front.length ∨ front.length ≤ sighting.1
  behind : (∃ sighting ∈ sightings anatomy (front ++ (middle ++ back)), sighting.1 = front.length + middle.length) ↔
    ∃ sighting ∈ sightings anatomy (front ++ (filler ++ back)), sighting.1 = front.length + filler.length

theorem markFits_of_mem_sightings (regular : anatomy.Regular) {text : List Char} {sighting : Sighting}
    (member : sighting ∈ sightings anatomy text) : MarkFits sighting.2 (text.drop sighting.1) := by
  obtain ⟨count, _, place, found⟩ := exists_of_mem_sightingsFrom member
  rw [place, Nat.zero_add]
  exact markFits_of_mark? regular found

theorem exists_visible_end (regular : anatomy.Regular) {text : List Char} {sighting : Sighting}
    (member : sighting ∈ sightings anatomy text) :
    ∃ index c, index + 1 = sighting.1 + sighting.2.stop ∧ sighting.1 ≤ index ∧ text[index]? = some c ∧
      isSpace c = false := by
  have fits := markFits_of_mem_sightings regular member
  have positive := fits.nameStart_lt
  obtain ⟨c, present, visible⟩ := fits.ends
  rw [List.getElem?_drop] at present
  exact ⟨sighting.1 + (sighting.2.stop - 1), c, by omega, by omega, present, visible⟩

/-- The part of the middle before the span is blank. -/
theorem isSpace_of_lost (splice : Splice front middle filler back start stop) {index : Nat} {c : Char}
    (after : front.length ≤ index) (before : index < start)
    (present : (front ++ (middle ++ back))[index]? = some c) : isSpace c = true := by
  have stopLe := splice.stop_le
  have startLe := splice.start_le
  rw [List.getElem?_append_right after, List.getElem?_append_left (by omega)] at present
  have inLost : (middle.take (start - front.length))[index - front.length]? = some c := by
    rw [List.getElem?_take_of_lt (by omega)]
    exact present
  exact isSpace_of_isAllSpace splice.lost inLost

/-- So is the part of the middle after the span. -/
theorem getElem?_blank (splice : Splice front middle filler back start stop) {index : Nat}
    (after : stop ≤ index) (before : index < front.length + middle.length) :
    (front ++ (middle ++ back))[index]? = (middle.drop (stop - front.length))[index - stop]? := by
  have frontLe := splice.front_le
  have startLe := splice.start_le
  rw [List.getElem?_append_right (by omega), List.getElem?_append_left (by omega), List.getElem?_drop]
  congr 1
  omega

/-- No introducer begins in blank lines, nor in white space at the end of a text. -/
theorem not_sighted_in_blank (regular : anatomy.Regular) (splice : Splice front middle filler back start stop)
    {sighting : Sighting} (member : sighting ∈ sightings anatomy (front ++ (middle ++ back)))
    (after : stop ≤ sighting.1) (before : sighting.1 < front.length + middle.length) : False := by
  have frontLe := splice.front_le
  have startLe := splice.start_le
  obtain ⟨last, c, lastEq, lastAfter, present, visible⟩ := exists_visible_end regular member
  rcases splice.blankLines with noBack | blankLines
  · -- nothing visible follows
    have inText := (List.getElem?_eq_some_iff.mp present).1
    have inMiddle : last < front.length + middle.length := by
      simpa [noBack] using inText
    rw [getElem?_blank splice (Nat.le_trans after lastAfter) inMiddle] at present
    rw [isSpace_of_isAllSpace splice.blank present] at visible
    cases visible
  · -- the indentation of the introducer would have to pass the line feed that ends the blank lines
    have fits := markFits_of_mem_sightings regular member
    obtain ⟨indent, d, inline, shown, shownVisible⟩ := fits.begins
    have someLines : middle.drop (stop - front.length) ≠ [] := by
      intro none
      have := congrArg List.length none
      rw [List.length_drop, List.length_nil] at this
      omega
    have lastLine := blankLines.whole.resolve_left someLines
    have lineEnd : (front ++ (middle ++ back))[front.length + middle.length - 1]? = some '\n' := by
      rw [getElem?_blank splice (by omega) (by omega), ← lastLine, List.getLast?_eq_getElem?, List.length_drop]
      congr 1
      omega
    rw [List.getElem?_drop] at shown
    have passes : front.length + middle.length ≤ sighting.1 + indent := by
      apply Classical.byContradiction
      intro stays
      rw [getElem?_blank splice (by omega) (by omega)] at shown
      rw [isSpace_of_isAllSpace splice.blank shown] at shownVisible
      cases shownVisible
    have passed : '\n' ∈ ((front ++ (middle ++ back)).drop sighting.1).take indent := by
      refine List.mem_of_getElem? (i := front.length + middle.length - 1 - sighting.1) ?_
      rw [List.getElem?_take_of_lt (by omega), List.getElem?_drop, ← lineEnd]
      congr 1
      omega
    exact absurd (inline '\n' passed) (by decide)

theorem staysIn_front (regular : anatomy.Regular) (splice : Splice front middle filler back start stop)
    (undisturbed : Undisturbed anatomy front middle filler back start stop) :
    StaysIn 0 front (sightingsIn anatomy 0 0 [] front (middle ++ back)).1 := by
  have frontLe := splice.front_le
  have startLe := splice.start_le
  intro sighting member
  have bounds := bounds_of_mem_sightingsIn member
  have listed : sighting ∈ sightings anatomy (front ++ (middle ++ back)) := by
    rw [sightings, sightingsFrom_append]
    exact List.mem_append_left _ member
  obtain ⟨last, c, lastEq, lastAfter, present, visible⟩ := exists_visible_end regular listed
  apply Classical.byContradiction
  intro reaches
  have before : last < start := by
    rcases undisturbed.apart sighting listed with ends | behind | ⟨inside, _⟩ <;> omega
  rw [isSpace_of_lost splice (by omega) before present] at visible
  cases visible

theorem staysIn_front_after (undisturbed : Undisturbed anatomy front middle filler back start stop) :
    StaysIn 0 front (sightingsIn anatomy 0 0 [] front (filler ++ back)).1 := by
  intro sighting member
  have bounds := bounds_of_mem_sightingsIn member
  have listed : sighting ∈ sightings anatomy (front ++ (filler ++ back)) := by
    rw [sightings, sightingsFrom_append]
    exact List.mem_append_left _ member
  rcases undisturbed.joined sighting listed with ends | behind <;> omega

theorem inside_of_mem_middle (regular : anatomy.Regular) (splice : Splice front middle filler back start stop)
    (undisturbed : Undisturbed anatomy front middle filler back start stop) {sighting : Sighting}
    (listed : sighting ∈ sightings anatomy (front ++ (middle ++ back))) (after : front.length ≤ sighting.1)
    (before : sighting.1 < front.length + middle.length) :
    start ≤ sighting.1 ∧ sighting.1 + sighting.2.stop ≤ stop := by
  rcases undisturbed.apart sighting listed with ends | behind | inside
  · obtain ⟨last, c, lastEq, lastAfter, present, visible⟩ := exists_visible_end regular listed
    rw [isSpace_of_lost splice (by omega) (by omega) present] at visible
    cases visible
  · exact (not_sighted_in_blank regular splice listed behind before).elim
  · exact inside

theorem sightingsFrom_filler (regular : anatomy.Regular) (splice : Splice front middle filler back start stop)
    (offset : Nat) (before : List Char) :
    sightingsFrom anatomy 0 offset before (filler ++ back) =
      sightingsFrom anatomy 0 (offset + filler.length) (filler.reverse ++ before) back := by
  rcases splice.filler with rfl | rfl
  · rfl
  · have none : mark? anatomy before ('\n' :: back) = none := by
      cases found : mark? anatomy before ('\n' :: back) with
      | none => rfl
      | some mark =>
          obtain ⟨indent, c, inline, present, visible⟩ := (markFits_of_mark? regular found).begins
          cases indent with
          | zero =>
              obtain rfl := Option.some.inj present
              cases visible
          | succ indent => exact absurd (inline '\n' (by simp)) (by decide)
    simp only [List.singleton_append, sightingsFrom, none]
    rfl

/-- The sightings of a text before and after a cut that does not disturb them: those of the front and of the back stay,
those in the span go. -/
theorem exists_sightings_split (regular : anatomy.Regular) (splice : Splice front middle filler back start stop)
    (meets : Meets front (middle ++ back) (filler ++ back))
    (undisturbed : Undisturbed anatomy front middle filler back start stop) :
    ∃ early inner late : List Sighting,
      sightings anatomy (front ++ (middle ++ back)) =
          early ++ (inner ++ late.map fun sighting => (sighting.1 + (front.length + middle.length), sighting.2)) ∧
        sightings anatomy (front ++ (filler ++ back)) =
          early ++ late.map (fun sighting => (sighting.1 + (front.length + filler.length), sighting.2)) ∧
        (∀ sighting ∈ early, sighting.1 + sighting.2.stop ≤ front.length) ∧
        ∀ sighting ∈ inner, start ≤ sighting.1 ∧ sighting.1 + sighting.2.stop ≤ stop := by
  have frontLe := splice.front_le
  have startLe := splice.start_le
  have stopLe := splice.stop_le
  have stays := staysIn_front regular splice undisturbed
  have stays' := staysIn_front_after undisturbed
  have sameFront := sightingsIn_congr regular meets stays stays'
  have noneBusy := busy_eq_zero_of_staysIn stays (Nat.zero_le _)
  have old := sightingsFrom_append anatomy 0 0 [] front (middle ++ back)
  have new := sightingsFrom_append anatomy 0 0 [] front (filler ++ back)
  rw [noneBusy, Nat.zero_add, sightingsFrom_append anatomy 0 front.length _ middle back] at old
  rw [← sameFront, noneBusy, Nat.zero_add, sightingsFrom_filler regular splice] at new
  have inner : ∀ sighting ∈ (sightingsIn anatomy 0 front.length (front.reverse ++ []) middle back).1,
      start ≤ sighting.1 ∧ sighting.1 + sighting.2.stop ≤ stop := by
    intro sighting member
    have bounds := bounds_of_mem_sightingsIn member
    refine inside_of_mem_middle regular splice undisturbed ?_ bounds.1 bounds.2
    rw [sightings, old]
    exact List.mem_append_right _ (List.mem_append_left _ member)
  have middleStays : StaysIn front.length middle
      (sightingsIn anatomy 0 front.length (front.reverse ++ []) middle back).1 :=
    fun sighting member => Nat.le_trans (inner sighting member).2 stopLe
  rw [busy_eq_zero_of_staysIn middleStays (Nat.zero_le _)] at old
  have early : ∀ sighting ∈ (sightingsIn anatomy 0 0 [] front (middle ++ back)).1, sighting.1 < front.length := by
    intro sighting member
    have bounds := bounds_of_mem_sightingsIn member
    omega
  have oldStart : (∃ sighting ∈ sightings anatomy (front ++ (middle ++ back)),
      sighting.1 = front.length + middle.length) ↔
        (mark? anatomy (middle.reverse ++ (front.reverse ++ [])) back).isSome := by
    rw [← exists_at_start_iff regular, sightings, old]
    refine ⟨?_, fun ⟨sighting, member, place⟩ =>
      ⟨sighting, List.mem_append_right _ (List.mem_append_right _ member), place⟩⟩
    rintro ⟨sighting, member, place⟩
    rcases List.mem_append.mp member with inFront | member
    · have := early sighting inFront
      omega
    · rcases List.mem_append.mp member with inMiddle | inBack
      · have := bounds_of_mem_sightingsIn inMiddle
        omega
      · exact ⟨sighting, inBack, place⟩
  have newStart : (∃ sighting ∈ sightings anatomy (front ++ (filler ++ back)),
      sighting.1 = front.length + filler.length) ↔
        (mark? anatomy (filler.reverse ++ (front.reverse ++ [])) back).isSome := by
    rw [← exists_at_start_iff regular, sightings, new]
    refine ⟨?_, fun ⟨sighting, member, place⟩ => ⟨sighting, List.mem_append_right _ member, place⟩⟩
    rintro ⟨sighting, member, place⟩
    rcases List.mem_append.mp member with inFront | inBack
    · have := early sighting inFront
      omega
    · exact ⟨sighting, inBack, place⟩
  have sameStart : (mark? anatomy (middle.reverse ++ (front.reverse ++ [])) back).isSome =
      (mark? anatomy (filler.reverse ++ (front.reverse ++ [])) back).isSome := by
    rw [Bool.eq_iff_iff, ← oldStart, ← newStart]
    exact undisturbed.behind
  have zero : ∀ offset before, sightingsFrom anatomy 0 offset before back =
      (sightingsFrom anatomy 0 0 before back).map fun sighting => (sighting.1 + offset, sighting.2) := by
    intro offset before
    have shifted := sightingsFrom_add anatomy 0 0 offset before back
    rwa [Nat.zero_add] at shifted
  rw [zero] at old
  rw [zero, ← sightingsFrom_congr_start regular sameStart] at new
  refine ⟨_, _, _, old, new, ?_, inner⟩
  intro sighting member
  have reach := stays sighting member
  omega

end Anatomy
end Deadwood.Source
