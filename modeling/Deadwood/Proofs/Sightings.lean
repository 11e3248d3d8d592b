import Deadwood.Proofs.Introducers

/-!
# Sightings

A sighting is where an introducer is found in a view, with its mark. The sightings of a view in two parts are those of the
first part and then those of the second, as long as none reaches from one into the other; what stands in one part then
matters to the other only at the edge between them.
-/

set_option autoImplicit false
namespace Deadwood.Source.Anatomy

open Deadwood.Text Scan

abbrev Sighting := Nat × Mark

def hitOf (base : Nat) (sighting : Sighting) : Hit Stretch :=
  sighting.2.hit (base + sighting.1)

variable {anatomy : Anatomy}

/-! ## The mark at a cursor -/

def mark? (anatomy : Anatomy) (before after : List Char) : Option Mark :=
  (marks (anatomy.introducer identifier) ⟨0, before, after⟩).head?

structure MarkFits (mark : Mark) (after : List Char) : Prop where
  nameStart_lt : mark.nameStart < mark.stop
  nameStart_le : mark.nameStart ≤ mark.nameStop
  nameStop_le : mark.nameStop ≤ mark.stop
  stop_le : mark.stop ≤ after.length
  ends : ∃ c, after[mark.stop - 1]? = some c ∧ isSpace c = false
  begins : ∃ indent c, (∀ d ∈ after.take indent, isInlineBlank d = true) ∧ after[indent]? = some c ∧ isSpace c = false

theorem introducer_apply (anatomy : Anatomy) (name : Scan Unit) (cursor : Cursor) :
    anatomy.introducer name cursor =
      if anatomy.edge cursor.before.head? cursor.after.head? = true then
        named anatomy.lead name anatomy.trail cursor
      else [] := by
  rw [introducer, bind_apply, check]
  split
  · rw [List.flatMap_singleton]
  · rfl

theorem exists_of_mem_named (regular : anatomy.Regular) {name : Scan Unit} (nameAdvances : Advances name)
    {cursor : Cursor} {found : Stretch × Cursor} (member : found ∈ named anatomy.lead name anatomy.trail cursor) :
    ∃ lead length trail, 0 < trail ∧ lead + length + trail ≤ cursor.after.length ∧
      found = (⟨cursor.pos + lead, cursor.pos + (lead + length)⟩, cursor.advance (lead + length + trail)) ∧
      ∃ c, cursor.after[lead + length + trail - 1]? = some c ∧ isSpace c = false := by
  rw [named_apply] at member
  obtain ⟨led, ledMember, member⟩ := List.mem_flatMap.mp member
  obtain ⟨passed, passedMember, member⟩ := List.mem_flatMap.mp member
  obtain ⟨ended, endedMember, rfl⟩ := List.mem_map.mp member
  obtain ⟨lead, leadInside, ledEq⟩ := regular.leadLocal.advances cursor led ledMember
  obtain ⟨length, lengthInside, passedEq⟩ := nameAdvances led.2 passed passedMember
  obtain ⟨trail, trailInside, endedEq⟩ := regular.trailLocal.advances passed.2 ended endedMember
  obtain ⟨count, c, endedEq', present, visible⟩ := regular.ends passed.2 ended endedMember
  rw [ledEq, Cursor.advance_advance] at passedEq
  rw [ledEq, Cursor.after_advance, List.length_drop] at lengthInside
  rw [passedEq, Cursor.after_advance, List.length_drop] at trailInside
  rw [passedEq, Cursor.after_advance, List.getElem?_drop] at present
  have sameEnd : trail = count + 1 := by
    have positions := congrArg Cursor.pos (endedEq.symm.trans endedEq')
    simp only [Cursor.pos_advance] at positions
    omega
  refine ⟨lead, length, trail, by omega, by omega, ?_, c, ?_, visible⟩
  · rw [endedEq, passedEq, ledEq, Cursor.advance_advance]
    rfl
  · rw [← present]
    congr 1
    omega

theorem markFits_of_mem_marks (regular : anatomy.Regular) {cursor : Cursor} {mark : Mark}
    (member : mark ∈ marks (anatomy.introducer identifier) cursor) : MarkFits mark cursor.after := by
  obtain ⟨found, foundMember, rfl⟩ := List.mem_map.mp member
  rw [introducer_apply] at foundMember
  split at foundMember
  · obtain ⟨lead, length, trail, positive, inside, same, ends⟩ := exists_of_mem_named regular local_identifier.advances foundMember
    have begins := regular.begins cursor found foundMember
    subst same
    constructor
    · simp only [Cursor.pos_advance]
      omega
    · simp only
      omega
    · simp only [Cursor.pos_advance]
      omega
    · simp only [Cursor.pos_advance]
      omega
    · simpa only [Cursor.pos_advance, Nat.add_sub_cancel_left] using ends
    · exact begins
  · cases foundMember

theorem markFits_of_mark? (regular : anatomy.Regular) {before after : List Char} {mark : Mark}
    (found : mark? anatomy before after = some mark) : MarkFits mark after :=
  markFits_of_mem_marks regular (List.mem_of_head? found)

theorem marksWithin_all (regular : anatomy.Regular) (cursor : Cursor) :
    marksWithin (anatomy.introducer identifier) cursor cursor.after.length =
      marks (anatomy.introducer identifier) cursor := by
  refine List.filter_eq_self.mpr fun mark member => ?_
  exact decide_eq_true (markFits_of_mem_marks regular member).stop_le

/-- Inside a window an introducer is found the same way wherever the window stands, if its edge is as good. -/
theorem marksWithin_congr (regular : anatomy.Regular) (pos pos' : Nat) (before before' window rest rest' : List Char)
    (meets : Meets window rest rest')
    (sameEdge : anatomy.edge before.head? (window ++ rest).head? = anatomy.edge before'.head? (window ++ rest').head?) :
    marksWithin (anatomy.introducer identifier) ⟨pos, before, window ++ rest⟩ window.length =
      marksWithin (anatomy.introducer identifier) ⟨pos', before', window ++ rest'⟩ window.length := by
  have inside := marksWithin_named_congr regular.leadLocal local_identifier regular.trailLocal pos pos' before before'
    window rest rest' meets
  simp only [marksWithin, marks, introducer_apply, sameEdge] at inside ⊢
  split
  · exact inside
  · rfl

theorem marks_congr (regular : anatomy.Regular) (pos pos' : Nat) (before before' after : List Char)
    (sameEdge : anatomy.edge before.head? after.head? = anatomy.edge before'.head? after.head?) :
    marks (anatomy.introducer identifier) ⟨pos, before, after⟩ =
      marks (anatomy.introducer identifier) ⟨pos', before', after⟩ := by
  have inside := marksWithin_congr regular pos pos' before before' after [] [] (fun _ => rfl)
    (by rwa [List.append_nil])
  rw [List.append_nil] at inside
  rwa [marksWithin_all regular ⟨pos, before, after⟩, marksWithin_all regular ⟨pos', before', after⟩] at inside

/-- The mark at a cursor depends on what stands before it only by the edge. -/
theorem mark?_congr (regular : anatomy.Regular) {before before' after : List Char}
    (sameEdge : (mark? anatomy before after).isSome = (mark? anatomy before' after).isSome) :
    mark? anatomy before after = mark? anatomy before' after := by
  by_cases edges : anatomy.edge before.head? after.head? = anatomy.edge before'.head? after.head?
  · rw [mark?, mark?, marks_congr regular 0 0 before before' after edges]
  · have lost : ∀ behind : List Char, anatomy.edge behind.head? after.head? = false →
        mark? anatomy behind after = none := by
      intro behind noEdge
      rw [mark?, marks, introducer_apply, if_neg (by simp [noEdge])]
      rfl
    cases holds : anatomy.edge before.head? after.head? with
    | false =>
        rw [lost before holds] at sameEdge ⊢
        exact (Option.not_isSome_iff_eq_none.mp (by rw [← sameEdge]; decide)).symm
    | true =>
        have holds' : anatomy.edge before'.head? after.head? = false := by
          rw [holds] at edges
          exact Bool.eq_false_iff.mpr fun same => edges same.symm
        rw [lost before' holds'] at sameEdge ⊢
        exact Option.not_isSome_iff_eq_none.mp (by rw [sameEdge]; decide)

/-- Inside a window the mark at a cursor depends on what follows the window only by a word that ends there. -/
theorem mark?_window (regular : anatomy.Regular) {before window rest rest' : List Char} (some : window ≠ [])
    (meets : Meets window rest rest')
    (inside : ∀ mark, mark? anatomy before (window ++ rest) = Option.some mark → mark.stop ≤ window.length)
    (inside' : ∀ mark, mark? anatomy before (window ++ rest') = Option.some mark → mark.stop ≤ window.length) :
    mark? anatomy before (window ++ rest) = mark? anatomy before (window ++ rest') := by
  have sameHead : (window ++ rest).head? = (window ++ rest').head? := by
    cases window with
    | nil => exact absurd rfl some
    | cons _ _ => rfl
  have same := marksWithin_congr regular 0 0 before before window rest rest' meets (by rw [sameHead])
  have first : ∀ others, (∀ mark, mark? anatomy before (window ++ others) = Option.some mark →
      mark.stop ≤ window.length) → mark? anatomy before (window ++ others) =
        (marksWithin (anatomy.introducer identifier) ⟨0, before, window ++ others⟩ window.length).head? := by
    intro others stays
    unfold mark? at stays ⊢
    rw [marksWithin]
    cases listed : marks (anatomy.introducer identifier) ⟨0, before, window ++ others⟩ with
    | nil => rfl
    | cons mark marks =>
        rw [listed] at stays
        rw [List.filter_cons, if_pos (decide_eq_true (stays mark rfl))]
        rfl
  rw [first rest inside, first rest' inside', same]

/-! ## The sightings of a text -/

/-- The sightings of a text from left to right without overlap, counted from `offset` on; `busy` is how many characters
of the last one are left. -/
def sightingsFrom (anatomy : Anatomy) (busy offset : Nat) (before : List Char) : List Char → List Sighting
  | [] => []
  | c :: rest =>
    match busy with
    | busy + 1 => sightingsFrom anatomy busy (offset + 1) (c :: before) rest
    | 0 =>
      match mark? anatomy before (c :: rest) with
      | some mark => (offset, mark) :: sightingsFrom anatomy (mark.stop - 1) (offset + 1) (c :: before) rest
      | none => sightingsFrom anatomy 0 (offset + 1) (c :: before) rest

def sightings (anatomy : Anatomy) (text : List Char) : List Sighting :=
  sightingsFrom anatomy 0 0 [] text

theorem mark?_nil (regular : anatomy.Regular) (before : List Char) : mark? anatomy before [] = none := by
  cases found : mark? anatomy before [] with
  | none => rfl
  | some mark =>
      have fits := markFits_of_mark? regular found
      have positive := fits.nameStart_lt
      have inside := fits.stop_le
      simp only [List.length_nil] at inside
      omega

theorem first?_eq_mark? (regular : anatomy.Regular) (pos : Nat) (before after : List Char) :
    ((anatomy.introducer identifier).first? ⟨pos, before, after⟩).map
        (fun found => (⟨pos, found.2.pos, found.1⟩ : Hit Stretch)) =
      (mark? anatomy before after).map fun mark => mark.hit pos := by
  have moved : mark? anatomy before after = (marks (anatomy.introducer identifier) ⟨pos, before, after⟩).head? := by
    rw [mark?, marks_congr regular 0 pos before before after rfl]
  rw [moved, marks, Scan.first?, List.head?_map, Option.map_map]
  cases found : (anatomy.introducer identifier ⟨pos, before, after⟩).head? with
  | none => rfl
  | some success =>
      have member := List.mem_of_head? found
      rw [introducer_apply] at member
      split at member
      · obtain ⟨lead, length, trail, _, _, rfl, _⟩ := exists_of_mem_named regular local_identifier.advances member
        simp [Mark.hit, Nat.add_assoc]
      · cases member

theorem hitsFrom_eq (regular : anatomy.Regular) (busy base offset : Nat) (before text : List Char) :
    (anatomy.introducer identifier).hitsFrom busy (base + offset) before text =
      (sightingsFrom anatomy busy offset before text).map (hitOf base) := by
  induction text generalizing busy offset before with
  | nil =>
      have none := first?_eq_mark? regular (base + offset) before []
      rw [mark?_nil regular, Option.map_none, Option.map_eq_none_iff] at none
      cases busy <;> simp [Scan.hitsFrom, sightingsFrom, none]
  | cons c rest ih =>
      cases busy with
      | succ busy => exact ih busy (offset + 1) (c :: before)
      | zero =>
          have same := first?_eq_mark? regular (base + offset) before (c :: rest)
          cases found : mark? anatomy before (c :: rest) with
          | none =>
              rw [found, Option.map_none, Option.map_eq_none_iff] at same
              simp only [Scan.hitsFrom, sightingsFrom, same, found]
              exact ih 0 (offset + 1) (c :: before)
          | some mark =>
              rw [found, Option.map_some] at same
              obtain ⟨success, first, hit⟩ := Option.map_eq_some_iff.mp same
              have reach : success.2.pos - (base + offset) - 1 = mark.stop - 1 := by
                have stops := congrArg Hit.stop hit
                simp only [Mark.hit] at stops
                omega
              simp only [Scan.hitsFrom, sightingsFrom, first, found, List.map_cons, reach, hitOf]
              rw [hit, ← ih (mark.stop - 1) (offset + 1) (c :: before)]
              rfl

theorem hits_eq (regular : anatomy.Regular) (text : List Char) :
    (anatomy.introducer identifier).hits text = (sightings anatomy text).map (hitOf 0) := by
  have same := hitsFrom_eq regular 0 0 0 [] text
  rwa [Nat.add_zero] at same

theorem sightingsFrom_add (anatomy : Anatomy) (busy offset more : Nat) (before text : List Char) :
    sightingsFrom anatomy busy (offset + more) before text =
      (sightingsFrom anatomy busy offset before text).map fun sighting => (sighting.1 + more, sighting.2) := by
  induction text generalizing busy offset before with
  | nil => rfl
  | cons c rest ih =>
      have next : offset + more + 1 = offset + 1 + more := by omega
      cases busy with
      | succ busy =>
          simp only [sightingsFrom, next]
          exact ih busy (offset + 1) (c :: before)
      | zero =>
          simp only [sightingsFrom, next]
          cases mark? anatomy before (c :: rest) with
          | none => exact ih 0 (offset + 1) (c :: before)
          | some mark => simp only [List.map_cons, ih]

theorem exists_of_mem_sightingsFrom {busy offset : Nat} {before text : List Char} {sighting : Sighting}
    (member : sighting ∈ sightingsFrom anatomy busy offset before text) :
    ∃ count < text.length, sighting.1 = offset + count ∧
      mark? anatomy ((text.take count).reverse ++ before) (text.drop count) = some sighting.2 := by
  induction text generalizing busy offset before with
  | nil => cases member
  | cons c rest ih =>
      have later : ∀ busy, sighting ∈ sightingsFrom anatomy busy (offset + 1) (c :: before) rest →
          ∃ count < (c :: rest).length, sighting.1 = offset + count ∧
            mark? anatomy (((c :: rest).take count).reverse ++ before) ((c :: rest).drop count) = some sighting.2 := by
        intro busy member
        obtain ⟨count, inside, place, found⟩ := ih member
        refine ⟨count + 1, by simpa using inside, by omega, ?_⟩
        rw [List.take_succ_cons, List.drop_succ_cons, List.reverse_cons, List.append_assoc, List.singleton_append]
        exact found
      cases busy with
      | succ busy => exact later busy member
      | zero =>
          simp only [sightingsFrom] at member
          split at member
          · rename_i mark found
            rcases List.mem_cons.mp member with rfl | member
            · exact ⟨0, by simp, rfl, found⟩
            · exact later _ member
          · exact later 0 member

/-- A text whose first character is not in reach of a sighting has a sighting there just if there is a mark. -/
theorem exists_at_start_iff (regular : anatomy.Regular) {offset : Nat} {before text : List Char} :
    (∃ sighting ∈ sightingsFrom anatomy 0 offset before text, sighting.1 = offset) ↔
      (mark? anatomy before text).isSome := by
  cases text with
  | nil => simp [sightingsFrom, mark?_nil regular]
  | cons c rest =>
      have later : ∀ busy, ¬ ∃ sighting ∈ sightingsFrom anatomy busy (offset + 1) (c :: before) rest,
          sighting.1 = offset := by
        rintro busy ⟨sighting, member, atStart⟩
        obtain ⟨count, _, place, _⟩ := exists_of_mem_sightingsFrom member
        omega
      simp only [sightingsFrom]
      cases mark? anatomy before (c :: rest) with
      | none => simpa using later 0
      | some mark => simp

/-- What stands before a text matters only to a sighting at its first character. -/
theorem sightingsFrom_congr (regular : anatomy.Regular) {busy offset : Nat} {before before' text : List Char}
    (sameEdge : before.head? = before'.head?) :
    sightingsFrom anatomy busy offset before text = sightingsFrom anatomy busy offset before' text := by
  induction text generalizing busy offset before before' with
  | nil => rfl
  | cons c rest ih =>
      cases busy with
      | succ busy => exact ih rfl
      | zero =>
          have same : mark? anatomy before (c :: rest) = mark? anatomy before' (c :: rest) := by
            rw [mark?, mark?, marks_congr regular 0 0 before before' (c :: rest) (by rw [sameEdge])]
          simp only [sightingsFrom, same]
          cases mark? anatomy before' (c :: rest) with
          | none => exact ih rfl
          | some mark => exact congrArg ((offset, mark) :: ·) (ih rfl)

theorem sightingsFrom_congr_start (regular : anatomy.Regular) {offset : Nat} {before before' text : List Char}
    (sameStart : (mark? anatomy before text).isSome = (mark? anatomy before' text).isSome) :
    sightingsFrom anatomy 0 offset before text = sightingsFrom anatomy 0 offset before' text := by
  cases text with
  | nil => rfl
  | cons c rest =>
      simp only [sightingsFrom, mark?_congr regular sameStart]
      cases mark? anatomy before' (c :: rest) with
      | none => exact sightingsFrom_congr regular rfl
      | some mark => exact congrArg ((offset, mark) :: ·) (sightingsFrom_congr regular rfl)

/-! ## Texts in two parts -/

/-- The sightings that begin in a window before `rest`, and how many characters after the window the last one takes. -/
def sightingsIn (anatomy : Anatomy) (busy offset : Nat) (before : List Char) :
    (window rest : List Char) → List Sighting × Nat
  | [], _ => ([], busy)
  | c :: window, rest =>
    match busy with
    | busy + 1 => sightingsIn anatomy busy (offset + 1) (c :: before) window rest
    | 0 =>
      match mark? anatomy before (c :: window ++ rest) with
      | some mark =>
        let later := sightingsIn anatomy (mark.stop - 1) (offset + 1) (c :: before) window rest
        ((offset, mark) :: later.1, later.2)
      | none => sightingsIn anatomy 0 (offset + 1) (c :: before) window rest

theorem sightingsFrom_append (anatomy : Anatomy) (busy offset : Nat) (before window rest : List Char) :
    sightingsFrom anatomy busy offset before (window ++ rest) =
      (sightingsIn anatomy busy offset before window rest).1 ++
        sightingsFrom anatomy (sightingsIn anatomy busy offset before window rest).2 (offset + window.length)
          (window.reverse ++ before) rest := by
  induction window generalizing busy offset before with
  | nil => rfl
  | cons c window ih =>
      have next : offset + (c :: window).length = offset + 1 + window.length := by
        rw [List.length_cons]
        omega
      have behind : (c :: window).reverse ++ before = window.reverse ++ c :: before := by simp
      rw [next, behind]
      cases busy with
      | succ busy => exact ih busy (offset + 1) (c :: before)
      | zero =>
          simp only [List.cons_append, sightingsFrom, sightingsIn]
          cases mark? anatomy before (c :: (window ++ rest)) with
          | none => exact ih 0 (offset + 1) (c :: before)
          | some mark => exact congrArg ((offset, mark) :: ·) (ih _ _ _)

theorem bounds_of_mem_sightingsIn {busy offset : Nat} {before window rest : List Char} {sighting : Sighting}
    (member : sighting ∈ (sightingsIn anatomy busy offset before window rest).1) :
    offset ≤ sighting.1 ∧ sighting.1 < offset + window.length := by
  induction window generalizing busy offset before with
  | nil => cases member
  | cons c window ih =>
      have later : ∀ busy, sighting ∈ (sightingsIn anatomy busy (offset + 1) (c :: before) window rest).1 →
          offset ≤ sighting.1 ∧ sighting.1 < offset + (c :: window).length := by
        intro busy member
        have bounds := ih member
        rw [List.length_cons]
        omega
      cases busy with
      | succ busy => exact later busy member
      | zero =>
          simp only [sightingsIn] at member
          split at member
          · rcases List.mem_cons.mp member with rfl | member
            · simp
            · exact later _ member
          · exact later 0 member

def StaysIn (offset : Nat) (window : List Char) (found : List Sighting) : Prop :=
  ∀ sighting ∈ found, sighting.1 + sighting.2.stop ≤ offset + window.length

theorem busy_eq_zero_of_staysIn {busy offset : Nat} {before window rest : List Char}
    (stays : StaysIn offset window (sightingsIn anatomy busy offset before window rest).1)
    (short : busy ≤ window.length) : (sightingsIn anatomy busy offset before window rest).2 = 0 := by
  induction window generalizing busy offset before with
  | nil => exact Nat.le_zero.mp short
  | cons c window ih =>
      have wider : ∀ {found : List Sighting}, StaysIn offset (c :: window) found → StaysIn (offset + 1) window found := by
        intro found stays sighting member
        have reach := stays sighting member
        rw [List.length_cons] at reach
        omega
      rw [List.length_cons] at short
      cases busy with
      | succ busy => exact ih (wider stays) (by omega)
      | zero =>
          simp only [sightingsIn] at stays ⊢
          cases found : mark? anatomy before (c :: window ++ rest) with
          | none =>
              rw [found] at stays
              exact ih (wider stays) (Nat.zero_le _)
          | some mark =>
              rw [found] at stays
              have reach := stays (offset, mark) List.mem_cons_self
              simp only [List.length_cons] at reach
              exact ih (wider fun sighting member => stays sighting (List.mem_cons_of_mem _ member)) (by omega)

/-- What follows a window matters to its sightings only by a word that ends with it, if none reaches over its end. -/
theorem sightingsIn_congr (regular : anatomy.Regular) {busy offset : Nat} {before window rest rest' : List Char}
    (meets : Meets window rest rest')
    (stays : StaysIn offset window (sightingsIn anatomy busy offset before window rest).1)
    (stays' : StaysIn offset window (sightingsIn anatomy busy offset before window rest').1) :
    sightingsIn anatomy busy offset before window rest = sightingsIn anatomy busy offset before window rest' := by
  induction window generalizing busy offset before with
  | nil => rfl
  | cons c window ih =>
      have wider : ∀ {found : List Sighting}, StaysIn offset (c :: window) found → StaysIn (offset + 1) window found := by
        intro found stays sighting member
        have reach := stays sighting member
        rw [List.length_cons] at reach
        omega
      have meetsRest : Meets window rest rest' := meets.drop 1
      cases busy with
      | succ busy => exact ih meetsRest (wider stays) (wider stays')
      | zero =>
          have inside : ∀ others, StaysIn offset (c :: window) (sightingsIn anatomy 0 offset before (c :: window) others).1 →
              ∀ mark, mark? anatomy before (c :: window ++ others) = some mark → mark.stop ≤ (c :: window).length := by
            intro others staysIn mark found
            simp only [sightingsIn, found] at staysIn
            have reach := staysIn (offset, mark) List.mem_cons_self
            simp only at reach
            omega
          have same := mark?_window regular (List.cons_ne_nil c window) meets (inside rest stays) (inside rest' stays')
          simp only [sightingsIn, same] at stays ⊢
          simp only [sightingsIn] at stays'
          cases found : mark? anatomy before (c :: window ++ rest') with
          | none =>
              rw [found] at stays stays'
              exact ih meetsRest (wider stays) (wider stays')
          | some mark =>
              rw [found] at stays stays'
              have later := ih meetsRest
                (wider fun sighting member => stays sighting (List.mem_cons_of_mem _ member))
                (wider fun sighting member => stays' sighting (List.mem_cons_of_mem _ member))
              simp only [later]

end Deadwood.Source.Anatomy
