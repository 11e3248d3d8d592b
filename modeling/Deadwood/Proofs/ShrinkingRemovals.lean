import Mathlib.Logic.Function.Iterate
import Deadwood.Proofs.PageSpans
import Deadwood.Proofs.Seam

/-!
# Removals shrink a text

A removal leaves what stands before and after its span, but for white space at the seam. A seam may put a line feed in, so that
the text gets shorter has to come from the span: between the name and the end of the body stand two characters at least, because
no introducer has a semicolon directly after its name. So a name can be removed only so often.
-/

set_option autoImplicit false
namespace Deadwood

open Source Text Scan

namespace Source

/-! ## What follows a name -/

def NeverBeginsWith {α : Type} (excluded : Char) (scan : Scan α) : Prop :=
  ∀ cursor, ∀ found ∈ scan cursor, cursor.after.head? ≠ some excluded

variable {α β : Type} {excluded : Char}

theorem NeverBeginsWith.before {first : Scan α} (never : NeverBeginsWith excluded first) (next : α → Scan β) :
    NeverBeginsWith excluded (first >>= next) := by
  intro cursor found member
  obtain ⟨middle, middleMember, _⟩ := mem_bind.mp member
  exact never cursor middle middleMember

theorem neverBeginsWith_one {accepts : Char → Bool} (rejects : accepts excluded = false) :
    NeverBeginsWith excluded (one accepts) := by
  intro cursor found member begins
  obtain ⟨c, rest, same, accepted, _⟩ := mem_one.mp member
  rw [same, List.head?_cons] at begins
  rw [Option.some.inj begins, rejects] at accepted
  cases accepted

theorem NeverBeginsWith.afterMany {accepts : Char → Bool} {next : Scan α} (rejects : accepts excluded = false)
    (never : NeverBeginsWith excluded next) : NeverBeginsWith excluded (many accepts >>= fun _ => next) := by
  intro cursor found member begins
  obtain ⟨middle, middleMember, foundMember⟩ := mem_bind.mp member
  obtain ⟨count, _, accepted, rfl⟩ := mem_many.mp middleMember
  cases count with
  | zero =>
      rw [Cursor.advance_zero] at foundMember
      exact never cursor found foundMember begins
  | succ count =>
      obtain ⟨rest, same⟩ := List.head?_eq_some_iff.mp begins
      have first : excluded ∈ cursor.after.take (count + 1) := by
        rw [same, List.take_succ_cons]
        exact List.mem_cons_self
      have passes := accepted excluded first
      rw [rejects] at passes
      cases passes

namespace Anatomy

/-- Every introducer has a blank or a mark of its own after the name. -/
theorem trail_neverBeginsWith_semicolon {kind : DefinitionKind} {anatomy : Anatomy} (member : (kind, anatomy) ∈ all) :
    NeverBeginsWith ';' anatomy.trail := by
  simp only [all, List.mem_cons, Prod.mk.injEq, List.not_mem_nil, or_false] at member
  rcases member with ⟨_, rfl⟩ | ⟨_, rfl⟩ | ⟨_, rfl⟩ | ⟨_, rfl⟩
  · exact .afterMany (by decide) ((neverBeginsWith_one (by decide)).before _)
  · exact .afterMany (by decide) (((neverBeginsWith_one (by decide)).before _).before _)
  · exact .afterMany (by decide) (((neverBeginsWith_one (by decide)).before _).before _)
  · exact .afterMany (by decide) (((neverBeginsWith_one (by decide)).before _).before _)

end Anatomy

/-! ## The room of a body -/

theorem closeAfter?_pos {bracket : Bracket} {depth count : Nat} {text : List Char}
    (closed : closeAfter? bracket depth text = some count) : 0 < count := by
  cases text with
  | nil => cases closed
  | cons c rest =>
      have later : ∀ {found : Option Nat}, found.map (· + 1) = some count → 0 < count := by
        intro found same
        obtain ⟨before, _, rfl⟩ := Option.map_eq_some_iff.mp same
        exact Nat.succ_pos before
      unfold closeAfter? at closed
      split at closed
      · exact later closed
      · split at closed
        · split at closed
          · exact later closed
          · obtain rfl := Option.some.inj closed
            exact Nat.one_pos
          · exact later closed
        · exact later closed

/-- A body takes up a character, and two if it does not begin with a semicolon. -/
theorem bodyFrom_room {depth : Int} {pos stop : Nat} {text : List Char} (ends : (bodyFrom depth pos text).stop = some stop) :
    pos + 1 ≤ stop ∧ (text.head? ≠ some ';' → pos + 2 ≤ stop) := by
  induction text generalizing depth pos with
  | nil => cases ends
  | cons c rest inductionHypothesis =>
      have later : ∀ {depth : Int}, (bodyFrom depth (pos + 1) rest).stop = some stop →
          pos + 1 ≤ stop ∧ ((c :: rest).head? ≠ some ';' → pos + 2 ≤ stop) := by
        intro depth found
        have room := (inductionHypothesis found).1
        omega
      unfold bodyFrom at ends
      split at ends
      · exact later ends
      · split at ends
        · exact later ends
        · split at ends
          · have bounds := arrowBody_bounds ends
            omega
          · split at ends
            · obtain ⟨count, closed, rfl⟩ := Option.map_eq_some_iff.mp ends
              have some := closeAfter?_pos closed
              omega
            · split at ends
              case isTrue isEnd =>
                obtain rfl := Option.some.inj ends
                rw [Bool.and_eq_true, beq_iff_eq, beq_iff_eq] at isEnd
                refine ⟨Nat.le_refl _, fun other => absurd ?_ other⟩
                rw [List.head?_cons, isEnd.2]
              case isFalse => exact later ends

end Source

namespace Removal

variable {isPage : Bool} {name : String} {text : List Char} {span : FunctionSpan}

theorem exists_of_firstIntroducer? {masked : List Char} {hit : Hit Stretch} (found : firstIntroducer? masked name = some hit) :
    ∃ kind anatomy, (kind, anatomy) ∈ Anatomy.all ∧
      (anatomy.introducer (chars name.toList)).firstHit? masked = some hit := by
  rw [firstIntroducer?_eq] at found
  rcases foldl_nearer_eq_some found with none | ⟨introducer, member, first⟩
  · cases none
  · rw [Anatomy.introducers_eq] at member
    obtain ⟨⟨kind, anatomy⟩, listed, rfl⟩ := List.mem_map.mp member
    exact ⟨kind, anatomy, listed, first⟩

theorem head?_after_firstIntroducer? {masked : List Char} {hit : Hit Stretch}
    (found : firstIntroducer? masked name = some hit) : (masked.drop hit.value.stop).head? ≠ some ';' := by
  obtain ⟨kind, anatomy, listed, first⟩ := exists_of_firstIntroducer? found
  obtain ⟨count, _, _, success, succeeds, value⟩ := exists_of_search? first
  rw [Anatomy.introducer_apply] at succeeds
  split at succeeds
  case isFalse => cases succeeds
  case isTrue =>
    rw [named_apply] at succeeds
    obtain ⟨led, ledMember, succeeds⟩ := List.mem_flatMap.mp succeeds
    obtain ⟨passed, passedMember, succeeds⟩ := List.mem_flatMap.mp succeeds
    obtain ⟨ended, endedMember, rfl⟩ := List.mem_map.mp succeeds
    obtain ⟨lead, _, ledEq⟩ := (Anatomy.regular_of_mem_all listed).leadLocal.advances _ led ledMember
    obtain ⟨length, _, passedEq⟩ := advances_chars name.toList _ passed passedMember
    have after := Anatomy.trail_neverBeginsWith_semicolon listed _ ended endedMember
    rw [passedEq, ledEq, Cursor.advance_advance, Cursor.advance_advance, Cursor.after_advance] at after
    rw [value, passedEq, ledEq]
    simp only [Cursor.advance_advance, Cursor.pos_advance, Nat.zero_add, Nat.add_assoc]
    exact after

/-- A span takes up two characters at least. -/
theorem room_of_locate? (located : locate? isPage name text = some span) :
    span.start + 2 ≤ span.stop ∧ span.stop ≤ text.length := by
  unfold locate? at located
  obtain ⟨hit, first, rest⟩ := Option.bind_eq_some_iff.mp located
  obtain ⟨bodyEnd, ends, rfl⟩ := Option.map_eq_some_iff.mp rest
  have afterName := (firstIntroducer?_bounds first).1
  have room := (bodyFrom_room ends).2 (head?_after_firstIntroducer? first)
  have extent : extent? isPage name text = some ⟨hit.start, bodyEnd⟩ := by
    rw [extent?, first, Option.bind_some, ends, Option.map_some]
  obtain ⟨_, _, inside⟩ := endsBody_of_extent? extent
  have stops := overTerminator_bounds inside
  have starts := overDocComment_le text (searchView isPage text) (toLineStart text hit.start)
  have line := toLineStart_le text hit.start
  dsimp only at stops ⊢
  omega

/-! ## The length of a seam -/

theorem leadingBlankLines_add_length (line rest : List Char) (short : rest.length ≤ line.length) :
    leadingBlankLines rest + (dropBlankLinesFrom line rest).length ≤ line.length := by
  induction rest generalizing line with
  | nil => exact Nat.le_of_eq (Nat.zero_add _)
  | cons c rest inductionHypothesis =>
      rw [List.length_cons] at short
      unfold leadingBlankLines dropBlankLinesFrom
      split
      · have shorter := inductionHypothesis rest (Nat.le_refl _)
        omega
      · split
        · exact inductionHypothesis line (by omega)
        · omega

theorem leadingBlankLines_le (text : List Char) :
    leadingBlankLines text + (dropBlankLines text).length ≤ text.length :=
  leadingBlankLines_add_length text text (Nat.le_refl _)

/-- A seam is shorter than what it joins and a gap of two characters: a line feed is put in for the gap, or for two blank
lines. -/
theorem length_seam_lt (head tail : List Char) (gap : Nat) (wide : 2 ≤ gap) :
    (seam head tail).length < head.length + gap + tail.length := by
  have trimmed := (trimRight_eq_take head).1
  have dropped := leadingBlankLines_le tail
  unfold seam
  split
  · split
    · rw [List.length_nil]
      omega
    · rw [List.length_append, List.length_singleton]
      omega
  · split
    · omega
    · split
      · rw [List.length_append]
        omega
      · split
        · rw [List.length_append, List.length_cons]
          omega
        · rw [List.length_append]
          omega

theorem length_cut_lt (located : locate? isPage name text = some span) : (cut text span).length < text.length := by
  obtain ⟨room, inside⟩ := room_of_locate? located
  have shorter := length_seam_lt (text.take span.start) (text.drop span.stop) (span.stop - span.start) (by omega)
  rw [List.length_take, List.length_drop] at shorter
  unfold cut
  omega

/-! ## Repeated removals -/

/-- What a removal of a name makes of a text, and the span that it cuts out. -/
def removeFirst (isPage : Bool) (name : String) (text : List Char) : List Char × Option FunctionSpan :=
  match remove? isPage name text with
  | some (later, span) => (later, some span)
  | none => (text, none)

/-- A text is what another holds before and after a span, but for white space at the end of the first part and at the beginning
of the second one, and for one line feed between them. -/
def SameButSeam (text : List Char) (span : FunctionSpan) (later : List Char) : Prop :=
  ∃ kept lost filler blank rest, text.take span.start = kept ++ lost ∧ text.drop span.stop = blank ++ rest ∧
    (∀ c ∈ lost, isSpace c = true) ∧ (∀ c ∈ blank, isSpace c = true) ∧ (filler = [] ∨ filler = ['\n']) ∧
      later = kept ++ filler ++ rest

theorem sameButSeam_cut (text : List Char) (span : FunctionSpan) : SameButSeam text span (cut text span) := by
  have fits := fits_seamOfCut text span
  exact ⟨_, _, _, _, _, (List.take_append_drop _ _).symm, (List.take_append_drop _ _).symm, List.all_eq_true.mp fits.lost,
    List.all_eq_true.mp fits.blank, fits.filler, fits.seam_eq⟩

theorem removeFirst_of_none (missing : locate? isPage name text = none) : removeFirst isPage name text = (text, none) := by
  rw [removeFirst, remove?, missing, Option.map_none]

theorem removeFirst_of_some (located : locate? isPage name text = some span) :
    removeFirst isPage name text = (cut text span, some span) := by
  rw [removeFirst, remove?, located, Option.map_some]

/-- As many removals as a text has characters leave no definition of the name that can be located. -/
theorem exists_iterate_removeFirst (isPage : Bool) (name : String) (text : List Char) :
    ∃ steps ≤ text.length, locate? isPage name ((fun before => (removeFirst isPage name before).1)^[steps] text) = none := by
  induction size : text.length using Nat.strong_induction_on generalizing text with
  | _ size inductionHypothesis =>
      cases located : locate? isPage name text with
      | none => exact ⟨0, Nat.zero_le _, located⟩
      | some span =>
          have shorter := length_cut_lt located
          obtain ⟨steps, bound, gone⟩ := inductionHypothesis _ (size ▸ shorter) (cut text span) rfl
          refine ⟨steps + 1, by omega, ?_⟩
          rwa [Function.iterate_succ_apply, removeFirst_of_some located]

/-- A removal changes nothing just if no span is located. Else it cuts a span that is not empty, the text gets shorter, and all
that changes beside the span is white space at the seam. So repeated removals come to an end where none is located. -/
theorem removeFirst_shrinks (isPage : Bool) (name : String) (text : List Char) :
    (locate? isPage name text = none ∧ removeFirst isPage name text = (text, none) ∨
      ∃ span later, locate? isPage name text = some span ∧ removeFirst isPage name text = (later, some span) ∧
        span.start < span.stop ∧ span.stop ≤ text.length ∧ later.length < text.length ∧ SameButSeam text span later) ∧
    ∃ steps ≤ text.length, locate? isPage name ((fun before => (removeFirst isPage name before).1)^[steps] text) = none := by
  refine ⟨?_, exists_iterate_removeFirst isPage name text⟩
  cases located : locate? isPage name text with
  | none => exact Or.inl ⟨rfl, removeFirst_of_none located⟩
  | some span =>
      obtain ⟨room, inside⟩ := room_of_locate? located
      refine Or.inr ⟨span, cut text span, rfl, removeFirst_of_some located, by omega, inside, length_cut_lt located, ?_⟩
      exact sameButSeam_cut text span

end Removal
end Deadwood
