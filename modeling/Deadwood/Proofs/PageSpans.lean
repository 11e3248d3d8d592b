import Deadwood.Proofs.Calls
import Deadwood.Proofs.LiveCode

/-!
# Spans on a page

On a page a function is looked for in the code alone, but cut out of the page. What is cut beside the introducer and the body
is white space, a doc comment above and a separator below, and the separator is code: a piece of code ends at a mark that
cannot stand between a body and a separator. Markup goes along with a function only where it stands between the introducer and
the end of the body, or inside what is taken for the doc comment.
-/

set_option autoImplicit false
namespace Deadwood

open Source Text Scan

namespace Source

/-! ## Where pieces of code end -/

structure EndsCode (c : Char) : Prop where
  noBlank : isInlineBlank c = false
  noSeparator : ¬ (c = ';' ∨ c = ',')

def BeginsWithEnd {α : Type} (scan : Scan α) : Prop :=
  ∀ cursor, ∀ found ∈ scan cursor, ∃ c, cursor.after[0]? = some c ∧ EndsCode c

def StopsBeforeEnd (scan : Scan Stretch) : Prop :=
  ∀ cursor, ∀ found ∈ scan cursor, ∃ count c, found.1.stop = cursor.pos + count ∧
    cursor.after[count]? = some c ∧ EndsCode c

variable {α β : Type}

theorem BeginsWithEnd.before {first : Scan α} (begins : BeginsWithEnd first) (next : α → Scan β) :
    BeginsWithEnd (first >>= next) := by
  intro cursor found member
  obtain ⟨middle, middleMember, _⟩ := mem_bind.mp member
  exact begins cursor middle middleMember

theorem beginsWithEnd_one {accepts : Char → Bool}
    (excluded : accepts ' ' = false ∧ accepts '\t' = false ∧ accepts ';' = false ∧ accepts ',' = false) :
    BeginsWithEnd (one accepts) := by
  intro cursor found member
  obtain ⟨c, rest, same, accepted, _⟩ := mem_one.mp member
  have apart : ∀ d, accepts d = false → c ≠ d := fun d rejects isOther => by
    rw [isOther, rejects] at accepted
    cases accepted
  obtain ⟨space, tab, semicolon, comma⟩ := excluded
  refine ⟨c, by rw [same]; rfl, ?_, fun separates => ?_⟩
  · simp [isInlineBlank, apart ' ' space, apart '\t' tab]
  · exact separates.elim (apart ';' semicolon) (apart ',' comma)

theorem beginsWithEnd_quote {quote : Char} (isQuote : (quote == '"' || quote == '\'') = true) :
    BeginsWithEnd (chars [quote]) := by
  rcases Bool.or_eq_true_iff.mp isQuote with double | single
  · obtain rfl := beq_iff_eq.mp double
    exact (beginsWithEnd_one (by decide)).before _
  · obtain rfl := beq_iff_eq.mp single
    exact (beginsWithEnd_one (by decide)).before _

theorem StopsBeforeEnd.after {first : Scan α} {next : α → Scan Stretch} (advances : Advances first)
    (stops : ∀ cursor, ∀ found ∈ first cursor, StopsBeforeEnd (next found.1)) : StopsBeforeEnd (first >>= next) := by
  intro cursor found member
  obtain ⟨middle, middleMember, foundMember⟩ := mem_bind.mp member
  obtain ⟨passed, _, moves⟩ := advances cursor middle middleMember
  obtain ⟨count, c, stopsAt, present, ends⟩ := stops cursor middle middleMember middle.2 found foundMember
  rw [moves] at stopsAt present
  rw [Cursor.after_advance, List.getElem?_drop] at present
  exact ⟨passed + count, c, by rw [stopsAt, Cursor.pos_advance, Nat.add_assoc], present, ends⟩

theorem stopsBeforeEnd_skipTo {stop : Scan Unit} (begins : BeginsWithEnd stop) (start : Nat) :
    StopsBeforeEnd (skipTo stop >>= fun offset => pure ⟨start, offset⟩) := by
  intro cursor found member
  obtain ⟨middle, middleMember, foundMember⟩ := mem_bind.mp member
  obtain rfl := mem_pure.mp foundMember
  unfold skipTo at middleMember
  split at middleMember
  case h_2 => cases middleMember
  case h_1 hit searched =>
    obtain rfl := List.mem_singleton.mp middleMember
    obtain ⟨count, _, starts, success, succeeds, _⟩ := exists_of_search? searched
    obtain ⟨c, present, ends⟩ := begins _ success succeeds
    rw [Cursor.after_advance, List.getElem?_drop] at present
    exact ⟨count, c, starts, present, ends⟩

theorem advances_here : Advances here := by
  intro cursor found member
  obtain rfl := List.mem_singleton.mp member
  exact ⟨0, Nat.zero_le _, cursor.advance_zero.symm⟩

theorem advances_wordIgnoringCase (text : String) : Advances (wordIgnoringCase text) := by
  unfold wordIgnoringCase
  induction text.toList with
  | nil => exact advances_pure ()
  | cons c rest ih => exact (advances_one _).bind fun _ => ih

theorem stopsBeforeEnd_scriptElement : StopsBeforeEnd scriptElement := by
  refine .after (advances_wordIgnoringCase _) fun _ _ _ => ?_
  refine .after (advances_check _) fun _ _ _ => ?_
  refine .after (advances_many _) fun _ _ _ => ?_
  refine .after (advances_one _) fun _ _ _ => ?_
  refine .after advances_here fun _ found _ => ?_
  exact stopsBeforeEnd_skipTo (((beginsWithEnd_one (by decide)).before _).before _) found.1

theorem stopsBeforeEnd_scriptlet : StopsBeforeEnd scriptlet := by
  refine .after (advances_chars _) fun _ _ _ => ?_
  refine .after ((advances_chars _).optional.bind fun _ => advances_chars _).optional fun _ _ _ => ?_
  refine .after advances_here fun _ found _ => ?_
  exact stopsBeforeEnd_skipTo ((beginsWithEnd_one (by decide)).before _) found.1

theorem stopsBeforeEnd_handlerAttribute : StopsBeforeEnd handlerAttribute := by
  refine .after (advances_one _) fun _ _ _ => ?_
  refine .after (advances_wordIgnoringCase _) fun _ _ _ => ?_
  refine .after ((advances_one _).bind fun _ => advances_many _) fun _ _ _ => ?_
  refine .after (advances_many _) fun _ _ _ => ?_
  refine .after (advances_one _) fun _ _ _ => ?_
  refine .after (advances_many _) fun _ _ _ => ?_
  refine .after (advances_one _) fun _ quote isQuote => ?_
  refine .after advances_here fun _ found _ => ?_
  obtain ⟨c, _, _, accepted, rfl⟩ := mem_one.mp isQuote
  exact stopsBeforeEnd_skipTo (beginsWithEnd_quote accepted) found.1

theorem StopsBeforeEnd.of_mem_hits {scan : Scan Stretch} (stops : StopsBeforeEnd scan) {page : List Char}
    {hit : Hit Stretch} (member : hit ∈ scan.hits page) : ∃ c, page[hit.value.stop]? = some c ∧ EndsCode c := by
  obtain ⟨passed, _, success, succeeds, rfl⟩ := exists_of_mem_hitsFrom member
  obtain ⟨count, c, stopsAt, present, ends⟩ := stops _ success succeeds
  rw [Cursor.after_advance, List.getElem?_drop] at present
  refine ⟨c, ?_, ends⟩
  rw [stopsAt, Cursor.pos_advance, Nat.zero_add]
  exact present

/-- Every piece of code on a page stops before a character that is no blank of a line and no separator. -/
theorem exists_end_of_mem_codeStretches {page : List Char} {stretch : Stretch} (member : stretch ∈ codeStretches page) :
    ∃ c, page[stretch.stop]? = some c ∧ EndsCode c := by
  obtain ⟨hit, listed, rfl⟩ := List.mem_map.mp member
  rcases List.mem_append.mp (List.mem_filter.mp listed).1 with early | handler
  · rcases List.mem_append.mp early with script | scriptlet
    · exact stopsBeforeEnd_scriptElement.of_mem_hits script
    · exact stopsBeforeEnd_scriptlet.of_mem_hits scriptlet
  · exact stopsBeforeEnd_handlerAttribute.of_mem_hits handler

/-! ## Where bodies end -/

/-- A body that ends here ends just behind something visible, or it is an expression, which ends before something visible,
before a line feed or with the text. -/
def EndsBody (view : List Char) (stop : Nat) : Prop :=
  (∃ last c, stop = last + 1 ∧ view[last]? = some c ∧ isSpace c = false) ∨
    ∀ c, view[stop]? = some c → c = '\n' ∨ isSpace c = false

theorem EndsBody.cons {text : List Char} {stop : Nat} (ends : EndsBody text stop) (c : Char) :
    EndsBody (c :: text) (stop + 1) := by
  rcases ends with ⟨last, d, rfl, present, visible⟩ | before
  · exact Or.inl ⟨last + 1, d, rfl, present, visible⟩
  · exact Or.inr before

theorem EndsBody.append {text : List Char} {stop : Nat} (ends : EndsBody text stop) (front : List Char) :
    EndsBody (front ++ text) (front.length + stop) := by
  induction front with
  | nil => rwa [List.length_nil, Nat.zero_add]
  | cons c rest ih =>
      rw [List.length_cons, Nat.add_right_comm]
      exact ih.cons c

theorem EndsBody.of_drop {view : List Char} {pos count : Nat} (ends : EndsBody (view.drop pos) count)
    (within : pos ≤ view.length) : EndsBody view (pos + count) := by
  have whole := ends.append (view.take pos)
  rwa [List.take_append_drop, List.length_take, Nat.min_eq_left within] at whole

theorem closeAfter?_ends {bracket : Bracket} (visible : isSpace bracket.closing = false) {depth count : Nat}
    {text : List Char} (closed : closeAfter? bracket depth text = some count) : EndsBody text count := by
  induction text generalizing depth count with
  | nil => cases closed
  | cons c rest ih =>
      have later : ∀ {depth : Nat}, (closeAfter? bracket depth rest).map (· + 1) = some count →
          EndsBody (c :: rest) count := by
        intro depth found
        obtain ⟨before, foundBefore, rfl⟩ := Option.map_eq_some_iff.mp found
        exact (ih foundBefore).cons c
      unfold closeAfter? at closed
      split at closed
      · exact later closed
      · split at closed
        · rename_i closes
          split at closed
          · exact later closed
          · obtain rfl := Option.some.inj closed
            exact Or.inl ⟨0, c, rfl, rfl, by rw [beq_iff_eq.mp closes, visible]⟩
          · exact later closed
        · exact later closed

theorem expressionEnd_ends (depth pos : Nat) (text : List Char) :
    ∃ count, expressionEnd depth pos text = pos + count ∧ EndsBody text count := by
  induction text generalizing depth pos with
  | nil => exact ⟨0, rfl, Or.inr fun c present => by cases present⟩
  | cons c rest ih =>
      have later : ∀ depth, ∃ count, expressionEnd depth (pos + 1) rest = pos + count ∧ EndsBody (c :: rest) count := by
        intro depth
        obtain ⟨count, reaches, ends⟩ := ih depth (pos + 1)
        exact ⟨count + 1, by rw [reaches, Nat.add_assoc, Nat.add_comm 1], ends.cons c⟩
      have before (stands : c = '\n' ∨ isSpace c = false) : EndsBody (c :: rest) 0 :=
        Or.inr fun d present => Option.some.inj present ▸ stands
      unfold expressionEnd
      split
      · exact later _
      · split
        · rename_i closes
          split
          · refine ⟨0, rfl, before (Or.inr ?_)⟩
            simp only [Bool.or_eq_true, beq_iff_eq] at closes
            rcases closes with (rfl | rfl) | rfl <;> decide
          · exact later _
        · split
          · rename_i isEnd
            rw [Bool.and_eq_true, beq_iff_eq, beq_iff_eq] at isEnd
            exact ⟨1, rfl, Or.inl ⟨0, c, rfl, rfl, by rw [isEnd.2]; decide⟩⟩
          · split
            · rename_i isEnd
              simp only [Bool.and_eq_true, Bool.or_eq_true, beq_iff_eq] at isEnd
              refine ⟨0, rfl, before ?_⟩
              rcases isEnd.2 with rfl | rfl
              · exact Or.inr (by decide)
              · exact Or.inl rfl
            · exact later _

theorem arrowBody_ends {pos stop : Nat} {text : List Char} (found : (arrowBody pos text).stop = some stop) :
    ∃ count, stop = pos + count ∧ EndsBody text count := by
  have split := List.takeWhile_append_dropWhile (p := isBlank) (l := text)
  unfold arrowBody at found
  dsimp only at found
  split at found
  · rename_i rest same
    obtain ⟨count, closed, rfl⟩ := Option.map_eq_some_iff.mp found
    have ends := ((closeAfter?_ends rfl closed).cons '{').append (text.takeWhile isBlank)
    rw [← same, split] at ends
    exact ⟨_, by omega, ends⟩
  · obtain ⟨count, reaches, ends⟩ := expressionEnd_ends 0 (pos + (text.takeWhile isBlank).length) (text.dropWhile isBlank)
    have whole := ends.append (text.takeWhile isBlank)
    rw [split] at whole
    obtain rfl := Option.some.inj found
    exact ⟨_, by rw [reaches, Nat.add_assoc], whole⟩

theorem bodyFrom_ends {depth : Int} {pos stop : Nat} {text : List Char}
    (found : (bodyFrom depth pos text).stop = some stop) : ∃ count, stop = pos + count ∧ EndsBody text count := by
  induction text generalizing depth pos with
  | nil => cases found
  | cons c rest ih =>
      have later : ∀ {depth : Int}, (bodyFrom depth (pos + 1) rest).stop = some stop →
          ∃ count, stop = pos + count ∧ EndsBody (c :: rest) count := by
        intro depth found
        obtain ⟨count, reaches, ends⟩ := ih found
        exact ⟨count + 1, by rw [reaches, Nat.add_assoc, Nat.add_comm 1], ends.cons c⟩
      unfold bodyFrom at found
      split at found
      · exact later found
      · split at found
        · exact later found
        · split at found
          · rename_i isArrow
            obtain ⟨count, reaches, ends⟩ := arrowBody_ends found
            cases rest with
            | nil => simp at isArrow
            | cons d after => exact ⟨count + 2, by omega, (ends.cons d).cons c⟩
          · split at found
            · obtain ⟨count, closed, rfl⟩ := Option.map_eq_some_iff.mp found
              exact ⟨count + 1, by omega, (closeAfter?_ends rfl closed).cons c⟩
            · split at found
              · rename_i isEnd
                rw [Bool.and_eq_true, beq_iff_eq, beq_iff_eq] at isEnd
                obtain rfl := Option.some.inj found
                exact ⟨1, rfl, Or.inl ⟨0, c, rfl, rfl, by rw [isEnd.2]; decide⟩⟩
              · exact later found

end Source

namespace Removal

/-! ## What is code -/

variable {page : List Char} {start middle stop : Nat}

/-- Nothing but code and white space stands from one offset of a page up to another. -/
def CodeWithin (page : List Char) (start stop : Nat) : Prop :=
  ∀ place c, start ≤ place → place < stop → page[place]? = some c → isSpace c = false → (codeView page)[place]? = some c

theorem CodeWithin.append (first : CodeWithin page start middle) (second : CodeWithin page middle stop) :
    CodeWithin page start stop := by
  intro place c after before present visible
  by_cases early : place < middle
  · exact first place c after early present visible
  · exact second place c (Nat.le_of_not_lt early) before present visible

theorem CodeWithin.part {first last : Nat} (within : CodeWithin page start stop) (begins : start ≤ first)
    (ends : last ≤ stop) : CodeWithin page first last :=
  fun place c after before => within place c (Nat.le_trans begins after) (Nat.lt_of_lt_of_le before ends)

theorem SpaceWithin.codeWithin (spaces : SpaceWithin page start stop) : CodeWithin page start stop := by
  intro place c after before present visible
  rw [spaces place c after before present] at visible
  cases visible

theorem getElem?_showOnly (stretches : List Stretch) (offset : Nat) (text : List Char) (place : Nat) :
    (showOnly stretches offset text)[place]? =
      text[place]?.map fun c => if stretches.any (·.contains (offset + place)) then c else blank c := by
  induction text generalizing offset place with
  | nil => rfl
  | cons c rest ih =>
      cases place with
      | zero => rfl
      | succ place => simpa [showOnly, Nat.add_assoc, Nat.add_comm 1] using ih (offset + 1) place

/-- The code view keeps a visible character just where a piece of code holds it. -/
theorem getElem?_codeView_iff {place : Nat} {c : Char} (present : page[place]? = some c) (visible : isSpace c = false) :
    (codeView page)[place]? = some c ↔ ∃ stretch ∈ codeStretches page, stretch.contains place = true := by
  rw [codeView, getElem?_showOnly, present, Nat.zero_add, ← List.any_eq_true]
  cases kept : (codeStretches page).any (·.contains place) with
  | true => simp
  | false =>
      have hidden : blank c ≠ c := by
        intro same
        unfold blank at same
        split at same
        · rename_i lineEnd
          simp only [Bool.or_eq_true, beq_iff_eq] at lineEnd
          rcases lineEnd with rfl | rfl <;> cases visible
        · rw [← same] at visible
          cases visible
      simp [hidden]

/-- Markup goes along with nothing that stands within one piece of code. -/
theorem codeWithin_of_stretch {stretch : Stretch} (member : stretch ∈ codeStretches page) (begins : stretch.start ≤ start)
    (ends : stop ≤ stretch.stop) : CodeWithin page start stop := by
  intro place c after before present visible
  refine (getElem?_codeView_iff present visible).mpr ⟨stretch, member, ?_⟩
  simp only [Stretch.contains, Bool.and_eq_true, decide_eq_true_eq]
  omega

/-! ## What is cut beside the definition -/

theorem spaceWithin_overLineEnd {text : List Char} {start kept : Nat} (nothing : kept ≤ start) :
    SpaceWithin text start (overLineEnd text kept (text.drop start)) := by
  intro place c after before present
  rcases overLineEnd_eq_or text kept (text.drop start) with isKept | ⟨line, rest, parts, spaces, reaches⟩
  · omega
  · exact spaces c (mem_of_drop_eq parts after (reaches ▸ before) present)

/-- Up to the end of the terminator there is white space, and one separator at most, which nothing but spaces and tabs divide
from the body. -/
theorem overTerminator_parts (text : List Char) (stop : Nat) :
    ∃ next, stop ≤ next ∧ (∀ place c, stop ≤ place → place < next → text[place]? = some c → isInlineBlank c = true) ∧
      (SpaceWithin text next (overTerminator text stop) ∨
        (text[next]? = some ';' ∨ text[next]? = some ',') ∧ SpaceWithin text (next + 1) (overTerminator text stop)) := by
  have split := List.takeWhile_append_dropWhile (p := isInlineBlank) (l := text.drop stop)
  have blank (c : Char) : c ∈ (text.drop stop).takeWhile isInlineBlank → isInlineBlank c = true := List.mem_takeWhile_imp
  generalize (text.drop stop).takeWhile isInlineBlank = blanks at split blank
  have behind : text.drop (stop + blanks.length) = (text.drop stop).dropWhile isInlineBlank := by
    rw [← List.drop_drop]
    conv_lhs => rw [← split]
    exact List.drop_left
  have inline : ∀ place c, stop ≤ place → place < stop + blanks.length → text[place]? = some c → isInlineBlank c = true := by
    intro place c after before present
    refine blank c (mem_of_drop_eq split.symm after ?_ present)
    have lengths := congrArg List.length split
    rw [List.length_append, List.length_drop] at lengths
    obtain ⟨inText, _⟩ := List.getElem?_eq_some_iff.mp present
    omega
  refine ⟨stop + blanks.length, Nat.le_add_right _ _, inline, ?_⟩
  have noTerminator : overTerminator text stop = overLineEnd text stop (text.drop (stop + blanks.length)) →
      SpaceWithin text (stop + blanks.length) (overTerminator text stop) := by
    intro same
    rw [same]
    exact spaceWithin_overLineEnd (Nat.le_add_right _ _)
  cases shape : (text.drop stop).dropWhile isInlineBlank with
  | nil =>
      refine Or.inl (noTerminator ?_)
      rw [overTerminator, behind, shape]
      rfl
  | cons c rest =>
      rw [shape] at behind
      by_cases separates : (c == ';' || c == ',') = true
      · have here : text[stop + blanks.length]? = some c := by rw [← List.head?_drop, behind]; rfl
        have tail : text.drop (stop + blanks.length + 1) = rest := by rw [← List.drop_drop, behind]; rfl
        have lengths := congrArg List.length behind
        rw [List.length_drop, List.length_cons] at lengths
        have same : overTerminator text stop =
            overLineEnd text (stop + blanks.length + 1) (text.drop (stop + blanks.length + 1)) := by
          have reaches : text.length - rest.length = stop + blanks.length + 1 := by omega
          simp only [overTerminator, shape, separates, if_true, reaches, tail]
          rfl
        refine Or.inr ⟨?_, same ▸ spaceWithin_overLineEnd (Nat.le_refl _)⟩
        simpa [here] using separates
      · refine Or.inl (noTerminator ?_)
        simp only [overTerminator, shape, separates, behind]
        rfl

theorem newline_of_shows {view text : List Char} (shows : Shows view text) {place : Nat} (shown : view[place]? = some '\n') :
    text[place]? = some '\n' := by
  obtain ⟨inView, isNewline⟩ := List.getElem?_eq_some_iff.mp shown
  have inText : place < text.length := shows.length_eq ▸ inView
  rw [List.getElem?_eq_getElem inText]
  rcases shows.get inView inText with same | same
  · exact congrArg some (same.symm.trans isNewline)
  · have blanked : blank text[place] = '\n' := same.symm.trans isNewline
    unfold blank at blanked
    split at blanked
    · exact congrArg some blanked
    · cases blanked

theorem getElem?_codeView_of_visible {place : Nat} {c : Char} (shown : (searchView true page)[place]? = some c)
    (visible : isSpace c = false) : (codeView page)[place]? = some c :=
  (shows_mask .code (codeView page)).getElem?_of_visible shown visible

theorem codeWithin_overTerminator (ends : EndsBody (searchView true page) stop) :
    CodeWithin page stop (overTerminator page stop) := by
  obtain ⟨next, behind, inline, tail⟩ := overTerminator_parts page stop
  have blanks : CodeWithin page stop next := by
    refine SpaceWithin.codeWithin fun place c after before present => ?_
    exact isSpace_of_isInlineBlank (inline place c after before present)
  rcases tail with spaces | ⟨separates, spaces⟩
  · exact blanks.append spaces.codeWithin
  · refine (blanks.append ?_).append spaces.codeWithin
    intro place c after before present visible
    obtain rfl : place = next := by omega
    have isSeparator : c = ';' ∨ c = ',' := by simpa [present] using separates
    rcases ends with ⟨last, d, rfl, shown, shows⟩ | before
    · have kept := getElem?_codeView_of_visible shown shows
      have inPage := (shows_showOnly _ 0 page).getElem?_of_visible kept shows
      obtain ⟨stretch, member, holds⟩ := (getElem?_codeView_iff inPage shows).mp kept
      refine (getElem?_codeView_iff present visible).mpr ⟨stretch, member, ?_⟩
      simp only [Stretch.contains, Bool.and_eq_true, decide_eq_true_eq] at holds ⊢
      refine ⟨by omega, Nat.lt_of_not_le fun beyond => ?_⟩
      obtain ⟨mark, stands, isEnd⟩ := exists_end_of_mem_codeStretches member
      rcases Nat.eq_or_lt_of_le beyond with rfl | early
      · obtain rfl := Option.some.inj (stands.symm.trans present)
        exact isEnd.noSeparator isSeparator
      · have isBlank := inline stretch.stop mark holds.2 early stands
        rw [isEnd.noBlank] at isBlank
        cases isBlank
    · obtain ⟨inText, _⟩ := List.getElem?_eq_some_iff.mp present
      have inView : stop < (searchView true page).length := by
        rw [(shows_searchView true page).length_eq]
        omega
      rcases before _ (List.getElem?_eq_getElem inView) with newline | shows
      · have isNewline := newline_of_shows (shows_searchView true page)
          ((List.getElem?_eq_getElem inView).trans (congrArg some newline))
        rcases Nat.eq_or_lt_of_le behind with rfl | early
        · rw [present] at isNewline
          rcases isSeparator with rfl | rfl <;> cases isNewline
        · cases inline stop '\n' (Nat.le_refl _) early isNewline
      · have kept := getElem?_codeView_of_visible (List.getElem?_eq_getElem inView) shows
        have inPage := (shows_showOnly _ 0 page).getElem?_of_visible kept shows
        rcases Nat.eq_or_lt_of_le behind with rfl | early
        · obtain same := Option.some.inj (inPage.symm.trans present)
          rwa [same] at kept
        · have space := isSpace_of_isInlineBlank (inline stop _ (Nat.le_refl _) early inPage)
          rw [shows] at space
          cases space

/-- A doc comment stands directly above the line on which a definition on a page begins. -/
def IsPageComment (page : List Char) (start : Nat) (comment : Stretch) : Prop :=
  IsDocCommentAbove page (searchView true page) (toLineStart page start) comment

/-- The doc comment that is cut with a definition whose introducer begins at an offset of a page. -/
def pageComment? (page : List Char) (start : Nat) : Option Stretch :=
  docCommentAbove? page (searchView true page) (toLineStart page start)

variable {comment : Stretch}

theorem isPageComment (found : pageComment? page start = some comment) : IsPageComment page start comment :=
  isDocCommentAbove found

theorem IsPageComment.stop_le (isComment : IsPageComment page start comment) : comment.stop ≤ start :=
  Nat.le_trans isComment.above (toLineStart_le page start)

theorem start_le_pageComment? (found : pageComment? page start = some comment) :
    overDocComment page (searchView true page) (toLineStart page start) ≤ comment.start := by
  rw [overDocComment_eq, show docCommentAbove? _ _ _ = _ from found]
  exact toLineStart_le page comment.start

/-- Only the doc comment shows in what is cut above a definition. -/
theorem pageComment?_holds {place : Nat} {c : Char}
    (after : overDocComment page (searchView true page) (toLineStart page start) ≤ place) (before : place < start)
    (present : page[place]? = some c) (visible : isSpace c = false) :
    ∃ comment, pageComment? page start = some comment ∧ comment.contains place = true := by
  have pass {first last : Nat} (spaces : SpaceWithin page first last) (reached : first ≤ place) : last ≤ place := by
    refine Nat.le_of_not_lt fun inside => ?_
    rw [spaces place c reached inside present] at visible
    cases visible
  have onLine := spaceWithin_toLineStart page start
  rw [overDocComment_eq] at after
  cases found : docCommentAbove? page (searchView true page) (toLineStart page start) with
  | none =>
      rw [found] at after
      exact absurd before (Nat.not_lt.mpr (pass onLine after))
  | some comment =>
      rw [found] at after
      refine ⟨comment, found, ?_⟩
      have begins := pass (spaceWithin_toLineStart page comment.start) after
      have ends : place < comment.stop := by
        refine Nat.lt_of_not_le fun behind => ?_
        have onward := pass (isDocCommentAbove found).blanks behind
        exact absurd before (Nat.not_lt.mpr (pass onLine onward))
      simp only [Stretch.contains, Bool.and_eq_true, decide_eq_true_eq]
      exact ⟨begins, ends⟩

theorem bounds_of_locate? {isPage : Bool} {name : String} {text : List Char} {span : FunctionSpan}
    (located : locate? isPage name text = some span) :
    ∃ extent, extent? isPage name text = some extent ∧
      span.start = overDocComment text (searchView isPage text) (toLineStart text extent.start) ∧
      span.stop = overTerminator text extent.stop := by
  unfold locate? at located
  obtain ⟨hit, first, rest⟩ := Option.bind_eq_some_iff.mp located
  obtain ⟨bodyEnd, ends, rfl⟩ := Option.map_eq_some_iff.mp rest
  refine ⟨⟨hit.start, bodyEnd⟩, by rw [extent?, first, Option.bind_some, ends, Option.map_some], ?_, ?_⟩
  all_goals dsimp only

theorem endsBody_of_extent? {isPage : Bool} {name : String} {text : List Char} {extent : Stretch}
    (found : extent? isPage name text = some extent) :
    EndsBody (searchView isPage text) extent.stop ∧ extent.start ≤ extent.stop ∧ extent.stop ≤ text.length := by
  obtain ⟨hit, first, rest⟩ := Option.bind_eq_some_iff.mp found
  obtain ⟨bodyEnd, ends, rfl⟩ := Option.map_eq_some_iff.mp rest
  obtain ⟨nameAfter, nameInside⟩ := firstIntroducer?_bounds first
  obtain ⟨count, reaches, endsBody⟩ := bodyFrom_ends ends
  obtain ⟨bodyAfterName, bodyInside⟩ := bodyFrom_bounds ends
  have sameLength := (shows_searchView isPage text).length_eq
  rw [List.length_drop] at bodyInside
  exact ⟨reaches ▸ endsBody.of_drop nameInside, Nat.le_trans nameAfter bodyAfterName, by dsimp only; omega⟩

/-- What a span on a page takes along beside code and a doc comment above stands between the introducer and the end of the
body. It takes no markup at all just if there is none and none inside what is taken for the doc comment. -/
theorem span_keeps_markup_iff {name : String} {span : FunctionSpan} (located : locate? true name page = some span) :
    ∃ extent, extent? true name page = some extent ∧
      ((∀ place c, span.start ≤ place → place < span.stop → page[place]? = some c → isSpace c = false →
          (codeView page)[place]? = some c ∨
            ∃ comment, IsPageComment page extent.start comment ∧ comment.contains place = true) ↔
        CodeWithin page extent.start extent.stop) ∧
      (CodeWithin page span.start span.stop ↔ CodeWithin page extent.start extent.stop ∧
        ∀ comment, pageComment? page extent.start = some comment → CodeWithin page comment.start comment.stop) := by
  obtain ⟨extent, isExtent, startIs, stopIs⟩ := bounds_of_locate? located
  obtain ⟨endsBody, ordered, inside⟩ := endsBody_of_extent? isExtent
  have below := codeWithin_overTerminator endsBody
  have stops := (overTerminator_bounds inside).1
  have begins := Nat.le_trans (overDocComment_le page (searchView true page) _) (toLineStart_le page extent.start)
  rw [← stopIs] at below stops
  rw [← startIs] at begins
  -- Above the introducer only the doc comment shows.
  have above {place : Nat} {c : Char} (after : span.start ≤ place) (before : place < extent.start)
      (present : page[place]? = some c) (visible : isSpace c = false) :
      ∃ comment, pageComment? page extent.start = some comment ∧ comment.start ≤ place ∧ place < comment.stop := by
    obtain ⟨comment, found, holds⟩ := pageComment?_holds (startIs ▸ after) before present visible
    simp only [Stretch.contains, Bool.and_eq_true, decide_eq_true_eq] at holds
    exact ⟨comment, found, holds⟩
  refine ⟨extent, isExtent, ⟨fun kept place c after before present visible => ?_, fun code place c after before present
    visible => ?_⟩, ⟨fun code => ?_, fun both place c after before present visible => ?_⟩⟩
  · rcases kept place c (Nat.le_trans begins after) (Nat.lt_of_lt_of_le before stops) present visible with
      code | ⟨comment, isComment, holds⟩
    · exact code
    · have ends := isComment.stop_le
      simp only [Stretch.contains, Bool.and_eq_true, decide_eq_true_eq] at holds
      omega
  · by_cases early : place < extent.start
    · obtain ⟨comment, found, holds⟩ := above after early present visible
      refine Or.inr ⟨comment, isPageComment found, ?_⟩
      simpa only [Stretch.contains, Bool.and_eq_true, decide_eq_true_eq] using holds
    · exact Or.inl ((code.append below) place c (Nat.le_of_not_lt early) before present visible)
  · refine ⟨code.part begins stops, fun comment found => ?_⟩
    have ends := (isPageComment found).stop_le
    exact code.part (startIs ▸ start_le_pageComment? found) (Nat.le_trans ends (Nat.le_trans ordered stops))
  · by_cases early : place < extent.start
    · obtain ⟨comment, found, begins, ends⟩ := above after early present visible
      exact both.2 comment found place c begins ends present visible
    · exact (both.1.append below) place c (Nat.le_of_not_lt early) before present visible

def scriptPage : List Char :=
  "<script>\n/** Old. */\nfunction drop() {}\n</script>".toList

/-- Nothing but the comment and the function is cut. -/
theorem commented_function_keeps_markup :
    locate? true "drop" scriptPage = some ⟨"drop", 9, 40, 2, 3⟩ ∧ CodeWithin scriptPage 9 40 := by
  have code : codeStretches scriptPage = [⟨8, 40⟩] := by decide +kernel
  have script : (⟨8, 40⟩ : Stretch) ∈ codeStretches scriptPage := by rw [code]; exact List.mem_singleton_self _
  have view : searchView true scriptPage = mask .code (showOnly [⟨8, 40⟩] 0 scriptPage) := by
    rw [← code]
    rfl
  have located : locate? true "drop" scriptPage = some ⟨"drop", 9, 40, 2, 3⟩ := by
    simp only [locate?, view]
    decide +kernel
  obtain ⟨extent, isExtent, _, whole⟩ := span_keeps_markup_iff located
  simp only [extent?, pageComment?, view] at isExtent whole
  obtain rfl : ⟨21, 39⟩ = extent := Option.some.inj (Eq.trans (by decide +kernel) isExtent)
  refine ⟨located, whole.mpr ⟨codeWithin_of_stretch script (by decide) (by decide), fun comment found => ?_⟩⟩
  obtain rfl : ⟨9, 20⟩ = comment := Option.some.inj (Eq.trans (by decide +kernel) found)
  exact codeWithin_of_stretch script (by decide) (by decide)

/-- An arrow whose expression ends with its script takes all markup on the line along. -/
theorem arrow_takes_markup_along :
    let page := "<script>const tell = () => 1</script><p>hi</p>\n".toList
    ∃ span, locate? true "tell" page = some span ∧ ¬ ∀ place c, span.start ≤ place → place < span.stop →
      page[place]? = some c → isSpace c = false → (codeView page)[place]? = some c ∨
        ∃ start comment, IsPageComment page start comment ∧ comment.contains place = true := by
  intro page
  have code : codeView page = showOnly [⟨8, 28⟩] 0 page := by
    have stretches : codeStretches page = [⟨8, 28⟩] := by decide +kernel
    rw [codeView, stretches]
  refine ⟨⟨"tell", 8, 47, 1, 1⟩, ?_, fun kept => ?_⟩
  · simp only [locate?, searchView, if_true, code]
    decide +kernel
  · rcases kept 28 '<' (by decide) (by decide) (by decide) (by decide) with shown | ⟨start, comment, isComment, _⟩
    · rw [code] at shown
      exact absurd shown (by decide)
    · have star : '*' ∈ page := (List.take_subset _ _) (isComment.ends.subset (by decide))
      exact absurd star (by decide)

end Removal
end Deadwood
