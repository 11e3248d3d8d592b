import Deadwood.Proofs.PageSpans

/-!
# Scans that move along

What some scans find does not depend on what stands before their cursor: behind another text they find the same, so much later.
The hits of two texts are then those that begin in the first, and behind them those of the second, looked for from where the
furthest of the others ends.
-/

set_option autoImplicit false
namespace Deadwood.Source

open Deadwood.Text

/-! ## What stands before the cursor -/

/-- The cursor in a text that comes behind so many characters and what they are, nearest first. -/
def Cursor.behind (pos : Nat) (before : List Char) (cursor : Cursor) : Cursor :=
  ⟨pos + cursor.pos, cursor.before ++ before, cursor.after⟩

def Stretch.later (pos : Nat) (stretch : Stretch) : Stretch :=
  ⟨pos + stretch.start, pos + stretch.stop⟩

namespace Scan

variable {α β : Type} {move : Nat → α → α}

def moveHit (move : Nat → α → α) (pos : Nat) (hit : Hit α) : Hit α :=
  ⟨pos + hit.start, pos + hit.stop, move pos hit.value⟩

/-- What stands before the text makes no difference to the scan, but that its successes come so much later. -/
def Moves (move : Nat → α → α) (scan : Scan α) : Prop :=
  ∀ pos before cursor, scan (cursor.behind pos before) =
    (scan cursor).map fun found => (move pos found.1, found.2.behind pos before)

def placeless (_ : Nat) (value : α) : α :=
  value

theorem advance_behind (cursor : Cursor) (pos : Nat) (before : List Char) (count : Nat) :
    (cursor.behind pos before).advance count = (cursor.advance count).behind pos before := by
  simp [Cursor.advance, Cursor.behind, Nat.add_assoc]

theorem moves_pure (value : α) (placed : ∀ pos, move pos value = value) : Moves move (pure value : Scan α) := by
  intro pos before cursor
  rw [pure_apply, pure_apply, List.map_singleton, placed]

theorem Moves.bind {moveNext : Nat → β → β} {first : Scan α} {next : α → Scan β} (movesFirst : Moves placeless first)
    (movesNext : ∀ value, Moves moveNext (next value)) : Moves moveNext (first >>= next) := by
  intro pos before cursor
  rw [bind_apply, bind_apply, movesFirst, List.flatMap_map, List.map_flatMap]
  exact List.flatMap_congr fun found _ => movesNext found.1 pos before found.2

theorem Moves.andThen {moveNext : Nat → β → β} {first : Scan α} {next : Scan β} (movesFirst : Moves move first)
    (movesNext : Moves moveNext next) : Moves moveNext (first >>= fun _ => next) := by
  intro pos before cursor
  rw [bind_apply, bind_apply, movesFirst, List.flatMap_map, List.map_flatMap]
  exact List.flatMap_congr fun found _ => movesNext pos before found.2

theorem Moves.either {first second : Scan α} (movesFirst : Moves move first) (movesSecond : Moves move second) :
    Moves move (either first second) := by
  intro pos before cursor
  rw [Scan.either, Scan.either, movesFirst, movesSecond, List.map_append]

theorem Moves.optional {scan : Scan Unit} (moves : Moves placeless scan) : Moves placeless (optional scan) :=
  moves.either (moves_pure () fun _ => rfl)

theorem moves_one (accepts : Char → Bool) : Moves placeless (one accepts) := by
  intro pos before cursor
  have sameAfter : (cursor.behind pos before).after = cursor.after := rfl
  rw [one_apply, one_apply, advance_behind, sameAfter]
  split
  · split <;> rfl
  · rfl

theorem moves_many (accepts : Char → Bool) : Moves placeless (many accepts) := by
  intro pos before cursor
  rw [many_apply, many_apply, List.map_map]
  refine List.map_congr_left fun count _ => ?_
  rw [advance_behind]
  rfl

theorem moves_oneOrMore (accepts : Char → Bool) : Moves placeless (oneOrMore accepts) :=
  (moves_one accepts).bind fun _ => moves_many accepts

theorem moves_chars (text : List Char) : Moves placeless (chars text) := by
  induction text with
  | nil => exact moves_pure () fun _ => rfl
  | cons c rest inductionHypothesis => exact (moves_one _).bind fun _ => inductionHypothesis

theorem moves_wordIgnoringCase (text : String) : Moves placeless (wordIgnoringCase text) := by
  unfold wordIgnoringCase
  induction text.toList with
  | nil => exact moves_pure () fun _ => rfl
  | cons c rest inductionHypothesis => exact (moves_one _).bind fun _ => inductionHypothesis

theorem first?_behind {scan : Scan α} (moves : Moves move scan) (pos start : Nat) (before behind text : List Char) :
    scan.first? ⟨pos + start, behind ++ before, text⟩ =
      (scan.first? ⟨start, behind, text⟩).map fun found => (move pos found.1, found.2.behind pos before) := by
  rw [first?, first?, ← List.head?_map]
  exact congrArg List.head? (moves pos before ⟨start, behind, text⟩)

/-- A search finds the same behind another text, so much later. -/
theorem search?_behind {scan : Scan α} (moves : Moves move scan) (pos start : Nat) (before behind text : List Char) :
    scan.search? (pos + start) (behind ++ before) text = (scan.search? start behind text).map (moveHit move pos) := by
  induction text generalizing start behind with
  | nil =>
      rw [search?, search?, first?_behind moves, Option.map_map, Option.map_map]
      rfl
  | cons c rest inductionHypothesis =>
      rw [search?, search?, first?_behind moves]
      cases scan.first? ⟨start, behind, c :: rest⟩ with
      | some found => rfl
      | none => exact inductionHypothesis (start + 1) (c :: behind)

theorem moves_skipTo {stop : Scan Unit} (moves : Moves placeless stop) : Moves (· + ·) (skipTo stop) := by
  intro pos before cursor
  have found := search?_behind moves pos cursor.pos before cursor.before cursor.after
  unfold skipTo
  rw [Cursor.behind]
  dsimp only
  rw [found]
  cases stop.search? cursor.pos cursor.before cursor.after with
  | none => rfl
  | some hit =>
      have length : pos + hit.stop - (pos + cursor.pos) = hit.stop - cursor.pos := Nat.add_sub_add_left ..
      simp [moveHit, Cursor.behind, length]

/-- All hits of a scan behind another text are its hits without it, so much later. -/
theorem hitsFrom_behind {scan : Scan α} (moves : Moves move scan) (busy pos start : Nat) (before behind text : List Char) :
    scan.hitsFrom busy (pos + start) (behind ++ before) text = (scan.hitsFrom busy start behind text).map (moveHit move pos) := by
  induction text generalizing busy start behind with
  | nil =>
      unfold hitsFrom
      rw [first?_behind moves]
      cases busy <;> cases scan.first? ⟨start, behind, []⟩ <;> rfl
  | cons c rest inductionHypothesis =>
      cases busy with
      | succ busy => exact inductionHypothesis busy (start + 1) (c :: behind)
      | zero =>
          rw [hitsFrom, hitsFrom, first?_behind moves]
          cases scan.first? ⟨start, behind, c :: rest⟩ with
          | none => exact inductionHypothesis 0 (start + 1) (c :: behind)
          | some found =>
              have left : pos + found.2.pos - (pos + start) - 1 = found.2.pos - start - 1 := by omega
              have later := inductionHypothesis (found.2.pos - start - 1) (start + 1) (c :: behind)
              simp only [Option.map_some, Cursor.behind, left, List.map_cons]
              exact congrArg (_ :: ·) later

/-- Behind a scan that passes something, what is asked of the characters around the cursor is settled. -/
theorem Moves.check {first : Scan Unit} (moves : Moves placeless first)
    (passes : ∀ cursor, ∀ found ∈ first cursor, found.2.before ≠ []) (holds : Option Char → Option Char → Bool) :
    Moves placeless (first >>= fun _ => check holds) := by
  intro pos before cursor
  rw [bind_apply, bind_apply, moves, List.flatMap_map, List.map_flatMap]
  refine List.flatMap_congr fun found member => ?_
  have sameHead : (found.2.behind pos before).before.head? = found.2.before.head? :=
    List.head?_append_of_ne_nil _ (passes cursor found member)
  have sameAfter : (found.2.behind pos before).after = found.2.after := rfl
  unfold Scan.check
  rw [sameHead, sameAfter]
  split <;> rfl

def upTo (mark : Scan Unit) : Scan Stretch :=
  here >>= fun start => skipTo mark >>= fun stop => pure ⟨start, stop⟩

theorem moves_upTo {mark : Scan Unit} (moves : Moves placeless mark) : Moves Stretch.later (upTo mark) := by
  intro pos before cursor
  have passes : ∀ cursor, upTo mark cursor = (skipTo mark cursor).map fun found => (⟨cursor.pos, found.1⟩, found.2) := by
    intro cursor
    simp only [upTo, bind_apply, here, pure_apply, List.flatMap_singleton, List.map_eq_flatMap]
  rw [passes, passes, moves_skipTo moves, List.map_map, List.map_map]
  rfl

end Scan

/-! ## Hits of a text in two parts -/

namespace Scan

variable {α : Type} {scan : Scan α}

def furthest (hits : List (Hit α)) (offset : Nat) : Nat :=
  (hits.map (·.stop - offset)).foldr max 0

theorem furthest_eq_zero {hits : List (Hit α)} {offset : Nat} (within : ∀ hit ∈ hits, hit.stop ≤ offset) :
    furthest hits offset = 0 := by
  induction hits with
  | nil => rfl
  | cons hit rest inductionHypothesis =>
      have later : furthest rest offset = 0 :=
        inductionHypothesis fun other listed => within other (List.mem_cons_of_mem hit listed)
      rw [furthest] at later ⊢
      rw [List.map_cons, List.foldr_cons, later, Nat.sub_eq_zero_of_le (within hit List.mem_cons_self)]
      rfl

/-- How far what the scan finds in the first of two texts reaches into the second. -/
def reach (scan : Scan α) (front back : List Char) : Nat :=
  furthest ((scan.hits (front ++ back)).filter (·.start < front.length)) front.length

/-- The hits of two texts are those that begin in the first, and then those of the second from where they end. -/
theorem exists_hitsFrom_append (scan : Scan α) (busy pos : Nat) (before front back : List Char) :
    ∃ early, scan.hitsFrom busy pos before (front ++ back) =
        early ++ scan.hitsFrom (max (busy - front.length) (furthest early (pos + front.length))) (pos + front.length)
          (front.reverse ++ before) back ∧
      ∀ hit ∈ early, pos ≤ hit.start ∧ hit.start < pos + front.length := by
  induction front generalizing busy pos before with
  | nil => exact ⟨[], by simp [furthest], fun _ listed => by cases listed⟩
  | cons c rest inductionHypothesis =>
      have onward (busy : Nat) := inductionHypothesis busy (pos + 1) (c :: before)
      have place : pos + 1 + rest.length = pos + (c :: rest).length := by rw [List.length_cons]; omega
      have behind : rest.reverse ++ c :: before = (c :: rest).reverse ++ before := by simp
      simp only [place, behind] at onward
      have within {hits : List (Hit α)} (inside : ∀ hit ∈ hits, pos + 1 ≤ hit.start ∧ hit.start < pos + (c :: rest).length) :
          ∀ hit ∈ hits, pos ≤ hit.start ∧ hit.start < pos + (c :: rest).length :=
        fun hit listed => ⟨Nat.le_of_succ_le (inside hit listed).1, (inside hit listed).2⟩
      cases busy with
      | succ busy =>
          obtain ⟨early, same, inside⟩ := onward busy
          refine ⟨early, ?_, within inside⟩
          rw [List.length_cons, Nat.add_sub_add_right]
          exact same
      | zero =>
          cases here : scan.first? ⟨pos, before, c :: (rest ++ back)⟩ with
          | none =>
              obtain ⟨early, same, inside⟩ := onward 0
              refine ⟨early, ?_, within inside⟩
              rw [List.cons_append, hitsFrom, here]
              simpa using same
          | some found =>
              obtain ⟨early, same, inside⟩ := onward (found.2.pos - pos - 1)
              refine ⟨⟨pos, found.2.pos, found.1⟩ :: early, ?_, fun hit listed => ?_⟩
              · have left : found.2.pos - pos - 1 - rest.length = found.2.pos - (pos + (c :: rest).length) := by
                  rw [List.length_cons]
                  omega
                rw [List.cons_append, hitsFrom, here, Nat.zero_sub, Nat.zero_max]
                simp only [left] at same
                exact congrArg (_ :: ·) same
              · rcases List.mem_cons.mp listed with rfl | listed
                · exact ⟨Nat.le_refl _, by rw [List.length_cons]; dsimp only; omega⟩
                · exact within inside hit listed

theorem hits_append {move : Nat → α → α} (moves : Moves move scan) (front back : List Char) :
    ∃ early, scan.hits (front ++ back) =
        early ++ (scan.hitsFrom (scan.reach front back) 0 [] back).map (moveHit move front.length) ∧
      ∀ hit ∈ early, hit.start < front.length := by
  obtain ⟨early, same, inside⟩ := exists_hitsFrom_append scan 0 0 [] front back
  have behind := hitsFrom_behind moves (furthest early front.length) front.length 0 front.reverse [] back
  simp only [Nat.zero_add, Nat.add_zero, Nat.zero_sub, Nat.zero_max, List.append_nil, List.nil_append] at same inside behind
  rw [behind] at same
  have isReach : scan.reach front back = furthest early front.length := by
    have late : ∀ hit ∈ (scan.hitsFrom (furthest early front.length) 0 [] back).map (moveHit move front.length),
        ¬ decide (hit.start < front.length) = true := by
      intro hit listed
      obtain ⟨first, _, rfl⟩ := List.mem_map.mp listed
      simp [moveHit]
    rw [reach, hits, same, List.filter_append, List.filter_eq_nil_iff.mpr late, List.append_nil,
      List.filter_eq_self.mpr fun hit listed => decide_eq_true (inside hit listed).2]
  exact ⟨early, isReach ▸ same, fun hit listed => (inside hit listed).2⟩

end Scan

end Deadwood.Source
