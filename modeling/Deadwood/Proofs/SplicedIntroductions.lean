import Deadwood.Proofs.Claiming
import Deadwood.Proofs.Splicing

/-!
# Introductions of a spliced view

The introductions of a view come from its sightings. Where a splice disturbs no sighting, the introductions of the new view
are those of the old one outside the span: the ones before it stay, the ones behind it move by as much as the view became
shorter.
-/

set_option autoImplicit false
namespace Deadwood.Source

open Deadwood.Text Scan

/-! ## Introductions from sightings -/

def introductionOf (view : List Char) (kind : DefinitionKind) (sighting : Anatomy.Sighting) : Introduction :=
  { name := String.ofList ((view.take (sighting.1 + sighting.2.nameStop)).drop (sighting.1 + sighting.2.nameStart))
    kind := kind
    position := sighting.1 + sighting.2.nameStart
    start := sighting.1 }

theorem position_introductionOf (view : List Char) (kind : DefinitionKind) (sighting : Anatomy.Sighting) :
    (introductionOf view kind sighting).position = sighting.1 + sighting.2.nameStart :=
  rfl

def sighted (view : List Char) : List Introduction :=
  Anatomy.all.flatMap fun anatomy => (anatomy.2.sightings view).map (introductionOf view anatomy.1)

theorem introductions_eq (view : List Char) :
    introductions view = claims ((sighted view).filter fun introduction => isProjectName [] introduction.name) := by
  have found : ((introducers identifier).flatMap fun introducer => (introducer.2.hits view).map fun hit =>
      (⟨String.ofList (hit.value.of view), introducer.1, hit.value.start, hit.start⟩ : Introduction)) = sighted view := by
    rw [Anatomy.introducers_eq, List.flatMap_map, sighted]
    refine List.flatMap_congr fun anatomy member => ?_
    dsimp only
    rw [Anatomy.hits_eq (Anatomy.regular_of_mem_all member), List.map_map]
    refine List.map_congr_left fun sighting _ => ?_
    simp [introductionOf, Anatomy.hitOf, Mark.hit, Stretch.of]
  rw [← found]
  rfl

theorem exists_start_of_isIdentifierText {text : List Char} (holds : isIdentifierText text = true) :
    ∃ c, text.head? = some c ∧ isIdentifierStart c = true := by
  unfold isIdentifierText at holds
  dsimp only at holds
  split at holds
  · rename_i none
    cases holds
  · rename_i c rest same
    rw [Bool.and_eq_true] at holds
    refine ⟨c, ?_, holds.1⟩
    split at same
    · rename_i others reversed
      have whole : text = others.reverse ++ ['\n'] := by
        rw [← List.reverse_reverse text, reversed, List.reverse_cons]
      rw [whole, same]
      rfl
    · rw [same]
      rfl

theorem ordered_introductions (view : List Char) : Ordered (introductions view) := by
  rw [introductions_eq]
  exact ordered_claims _

/-- The name of an introduction begins where the view shows the beginning of an identifier. -/
theorem start_of_mem_introductions {view : List Char} {introduction : Introduction}
    (member : introduction ∈ introductions view) :
    ∃ c, view[introduction.position]? = some c ∧ isIdentifierStart c = true := by
  rw [introductions_eq] at member
  obtain ⟨listed, projectName⟩ := List.mem_filter.mp (mem_of_mem_claims member)
  obtain ⟨anatomy, -, inAnatomy⟩ := List.mem_flatMap.mp listed
  obtain ⟨sighting, -, rfl⟩ := List.mem_map.mp inAnatomy
  simp only [isProjectName, Bool.and_eq_true, introductionOf, String.toList_ofList] at projectName
  obtain ⟨c, first, start⟩ := exists_start_of_isIdentifierText projectName.1.1.2
  refine ⟨c, ?_, start⟩
  rw [List.head?_eq_getElem?, List.getElem?_drop, Nat.add_zero, List.getElem?_take] at first
  rw [position_introductionOf]
  split at first
  · exact first
  · cases first

theorem visible_of_mem_introductions {view : List Char} {introduction : Introduction}
    (member : introduction ∈ introductions view) :
    ∃ c, view[introduction.position]? = some c ∧ isSpace c = false := by
  obtain ⟨c, shown, start⟩ := start_of_mem_introductions member
  exact ⟨c, shown, isSpace_of_isIdentifierStart start⟩

/-! ## Introductions of a spliced view -/

def outside (start stop position : Nat) : Bool :=
  position < start || stop ≤ position

def moveBehind (start lost gained : Nat) (introduction : Introduction) : Introduction :=
  if introduction.position < start then introduction
  else
    { introduction with
      position := introduction.position - lost + gained
      start := introduction.start - lost + gained }

variable {front middle filler back : List Char} {start stop : Nat}

theorem outside_iff {position : Nat} : outside start stop position = true ↔ position < start ∨ stop ≤ position := by
  rw [outside, Bool.or_eq_true, decide_eq_true_eq, decide_eq_true_eq]

theorem name_moveBehind (start lost gained : Nat) (introduction : Introduction) :
    (moveBehind start lost gained introduction).name = introduction.name := by
  unfold moveBehind
  split <;> rfl

theorem kind_moveBehind (start lost gained : Nat) (introduction : Introduction) :
    (moveBehind start lost gained introduction).kind = introduction.kind := by
  unfold moveBehind
  split <;> rfl

theorem slice_front (rest other : List Char) {first last : Nat} (inside : last ≤ front.length) :
    ((front ++ rest).take last).drop first = ((front ++ other).take last).drop first := by
  rw [List.take_append_of_le_length inside, List.take_append_of_le_length inside]

theorem slice_back (front : List Char) (first last : Nat) :
    ((front ++ back).take (last + front.length)).drop (first + front.length) = (back.take last).drop first := by
  rw [Nat.add_comm last, Nat.add_comm first, List.take_length_add_append, List.drop_length_add_append]

theorem introductionOf_front {rest other : List Char} (kind : DefinitionKind) {sighting : Anatomy.Sighting}
    (inside : sighting.1 + sighting.2.nameStop ≤ front.length) :
    introductionOf (front ++ rest) kind sighting = introductionOf (front ++ other) kind sighting := by
  rw [introductionOf, slice_front rest other inside]
  rfl

/-- An introduction behind the splice names the same and is moved. -/
theorem introductionOf_back (kind : DefinitionKind) {sighting : Anatomy.Sighting}
    (behind : start ≤ front.length + middle.length) :
    introductionOf (front ++ (filler ++ back)) kind (sighting.1 + (front.length + filler.length), sighting.2) =
      moveBehind start middle.length filler.length
        (introductionOf (front ++ (middle ++ back)) kind (sighting.1 + (front.length + middle.length), sighting.2)) := by
  have sliced : ∀ between : List Char, ((front ++ (between ++ back)).take
      (sighting.1 + (front.length + between.length) + sighting.2.nameStop)).drop
        (sighting.1 + (front.length + between.length) + sighting.2.nameStart) =
      (back.take (sighting.1 + sighting.2.nameStop)).drop (sighting.1 + sighting.2.nameStart) := by
    intro between
    have first : sighting.1 + (front.length + between.length) + sighting.2.nameStart =
        sighting.1 + sighting.2.nameStart + (front ++ between).length := by
      rw [List.length_append]
      omega
    have last : sighting.1 + (front.length + between.length) + sighting.2.nameStop =
        sighting.1 + sighting.2.nameStop + (front ++ between).length := by
      rw [List.length_append]
      omega
    rw [first, last, ← List.append_assoc, slice_back]
  rw [moveBehind, if_neg (by simp only [introductionOf]; omega)]
  simp only [introductionOf, sliced, Introduction.mk.injEq, true_and]
  omega

/-- The introductions of a spliced view are those outside the span, moved. -/
theorem sighted_splice (splice : Splice front middle filler back start stop)
    (meets : Meets front (middle ++ back) (filler ++ back))
    (undisturbed : ∀ anatomy ∈ Anatomy.all, anatomy.2.Undisturbed front middle filler back start stop) :
    sighted (front ++ (filler ++ back)) =
      ((sighted (front ++ (middle ++ back))).filter fun introduction => outside start stop introduction.position).map
        (moveBehind start middle.length filler.length) := by
  have frontLe := splice.front_le
  have startLe := splice.start_le
  have stopLe := splice.stop_le
  rw [sighted, sighted, List.filter_flatMap, List.map_flatMap]
  refine List.flatMap_congr fun anatomy member => ?_
  have regular := Anatomy.regular_of_mem_all member
  obtain ⟨early, inner, late, old, new, earlyEnds, innerInside⟩ :=
    Anatomy.exists_sightings_split regular splice meets (undisturbed anatomy member)
  have marked : ∀ sighting ∈ anatomy.2.sightings (front ++ (middle ++ back)),
      sighting.2.nameStart < sighting.2.stop ∧ sighting.2.nameStart ≤ sighting.2.nameStop ∧
        sighting.2.nameStop ≤ sighting.2.stop := by
    intro sighting listed
    have fits := Anatomy.markFits_of_mem_sightings regular listed
    exact ⟨fits.nameStart_lt, fits.nameStart_le, fits.nameStop_le⟩
  rw [old] at marked
  rw [old, new]
  simp only [List.map_append, List.filter_append]
  have earlyPart : early.map (introductionOf (front ++ (filler ++ back)) anatomy.1) =
      ((early.map (introductionOf (front ++ (middle ++ back)) anatomy.1)).filter fun introduction =>
        outside start stop introduction.position).map (moveBehind start middle.length filler.length) := by
    rw [List.filter_eq_self.mpr, List.map_map]
    · refine List.map_congr_left fun sighting listed => ?_
      have ends := earlyEnds sighting listed
      obtain ⟨nameBefore, _, nameInside⟩ := marked sighting (List.mem_append_left _ listed)
      have before : sighting.1 + sighting.2.nameStart < start := by omega
      have stays : moveBehind start middle.length filler.length
          (introductionOf (front ++ (middle ++ back)) anatomy.1 sighting) =
            introductionOf (front ++ (middle ++ back)) anatomy.1 sighting := if_pos before
      rw [Function.comp_apply, stays]
      exact introductionOf_front anatomy.1 (by omega)
    · intro introduction listed
      obtain ⟨sighting, inEarly, rfl⟩ := List.mem_map.mp listed
      have ends := earlyEnds sighting inEarly
      obtain ⟨nameBefore, _, _⟩ := marked sighting (List.mem_append_left _ inEarly)
      rw [outside_iff, position_introductionOf]
      omega
  have innerPart : ((inner.map (introductionOf (front ++ (middle ++ back)) anatomy.1)).filter fun introduction =>
      outside start stop introduction.position) = [] := by
    refine List.filter_eq_nil_iff.mpr fun introduction listed => ?_
    obtain ⟨sighting, inInner, rfl⟩ := List.mem_map.mp listed
    obtain ⟨begins, ends⟩ := innerInside sighting inInner
    obtain ⟨nameBefore, _, _⟩ := marked sighting (List.mem_append_right _ (List.mem_append_left _ inInner))
    rw [outside_iff, position_introductionOf]
    omega
  have latePart : (late.map fun sighting => (sighting.1 + (front.length + filler.length), sighting.2)).map
        (introductionOf (front ++ (filler ++ back)) anatomy.1) =
      (((late.map fun sighting => (sighting.1 + (front.length + middle.length), sighting.2)).map
        (introductionOf (front ++ (middle ++ back)) anatomy.1)).filter fun introduction =>
          outside start stop introduction.position).map (moveBehind start middle.length filler.length) := by
    rw [List.filter_eq_self.mpr, List.map_map, List.map_map, List.map_map]
    · refine List.map_congr_left fun sighting listed => ?_
      exact introductionOf_back anatomy.1 (by omega)
    · intro introduction listed
      obtain ⟨moved, inMoved, rfl⟩ := List.mem_map.mp listed
      obtain ⟨sighting, _, rfl⟩ := List.mem_map.mp inMoved
      rw [outside_iff, position_introductionOf]
      omega
  rw [earlyPart, innerPart, latePart, List.map_nil, List.nil_append]

/-- An introduction outside the span stands in the front or in the back. -/
theorem place_of_mem_sighted (splice : Splice front middle filler back start stop)
    (meets : Meets front (middle ++ back) (filler ++ back))
    (undisturbed : ∀ anatomy ∈ Anatomy.all, anatomy.2.Undisturbed front middle filler back start stop)
    {introduction : Introduction} (listed : introduction ∈ sighted (front ++ (middle ++ back)))
    (isOutside : outside start stop introduction.position = true) :
    introduction.position < front.length ∨ front.length + middle.length ≤ introduction.position ∧
      introduction.position < front.length + middle.length + back.length := by
  obtain ⟨anatomy, member, inAnatomy⟩ := List.mem_flatMap.mp listed
  obtain ⟨sighting, inSightings, rfl⟩ := List.mem_map.mp inAnatomy
  have regular := Anatomy.regular_of_mem_all member
  have fits := Anatomy.markFits_of_mem_sightings regular inSightings
  have nameBefore := fits.nameStart_lt
  have nameInside := fits.nameStart_le
  have nameEnds := fits.nameStop_le
  have inText := fits.stop_le
  rw [List.length_drop, List.length_append, List.length_append] at inText
  rw [outside_iff, position_introductionOf] at isOutside
  rw [position_introductionOf]
  obtain ⟨early, inner, late, old, -, earlyEnds, innerInside⟩ :=
    Anatomy.exists_sightings_split regular splice meets (undisturbed anatomy member)
  rw [old] at inSightings
  rcases List.mem_append.mp inSightings with inEarly | inRest
  · have ends := earlyEnds sighting inEarly
    omega
  · rcases List.mem_append.mp inRest with inInner | inLate
    · have inSpan := innerInside sighting inInner
      omega
    · obtain ⟨unmoved, _, rfl⟩ := List.mem_map.mp inLate
      dsimp only at *
      omega

theorem position_moveBehind (start lost gained : Nat) (introduction : Introduction) :
    (moveBehind start lost gained introduction).position =
      if introduction.position < start then introduction.position else introduction.position - lost + gained := by
  unfold moveBehind
  split <;> rfl

/-- The introductions of a spliced view are those outside the span, moved. -/
theorem introductions_splice (splice : Splice front middle filler back start stop)
    (meets : Meets front (middle ++ back) (filler ++ back))
    (undisturbed : ∀ anatomy ∈ Anatomy.all, anatomy.2.Undisturbed front middle filler back start stop) :
    introductions (front ++ (filler ++ back)) =
      ((introductions (front ++ (middle ++ back))).filter fun introduction =>
        outside start stop introduction.position).map (moveBehind start middle.length filler.length) := by
  have frontLe := splice.front_le
  have stopLe := splice.stop_le
  have startLe := splice.start_le
  rw [introductions_eq, introductions_eq, filter_claims, sighted_splice splice meets undisturbed, List.filter_map]
  simp only [Function.comp_def, name_moveBehind]
  rw [List.filter_filter, List.filter_filter, claims_map]
  · simp only [Bool.and_comm]
  · have placed : ∀ introduction ∈ (sighted (front ++ (middle ++ back))).filter fun introduction =>
        isProjectName [] introduction.name && outside start stop introduction.position,
        introduction.position < front.length ∨ front.length + middle.length ≤ introduction.position := by
      intro introduction member
      obtain ⟨listed, holds⟩ := List.mem_filter.mp member
      rw [Bool.and_eq_true] at holds
      exact (place_of_mem_sighted splice meets undisturbed listed holds.2).imp_right And.left
    intro first firstMember second secondMember
    have firstPlace := placed first firstMember
    have secondPlace := placed second secondMember
    constructor
    · rw [position_moveBehind, position_moveBehind]
      split <;> split <;> omega
    · rw [position_moveBehind, position_moveBehind]
      split <;> split <;> omega

end Deadwood.Source
