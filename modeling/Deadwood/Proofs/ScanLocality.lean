import Mathlib.Data.List.Basic
import Mathlib.Data.List.TakeWhile
import Deadwood.Source.Definition

/-!
# Locality of scans

A scan moves forward from its cursor. A local scan finds the same successes inside a window whatever stands before and
after the window, except that a word that ends with the window must not run on. Scans built from local ones are local.
-/

set_option autoImplicit false
namespace Deadwood.Source

open Deadwood.Text

def Cursor.advance (cursor : Cursor) (count : Nat) : Cursor :=
  ⟨cursor.pos + count, (cursor.after.take count).reverse ++ cursor.before, cursor.after.drop count⟩

namespace Cursor

variable {cursor : Cursor}

@[simp] theorem pos_advance (cursor : Cursor) (count : Nat) : (cursor.advance count).pos = cursor.pos + count :=
  rfl

@[simp] theorem after_advance (cursor : Cursor) (count : Nat) :
    (cursor.advance count).after = cursor.after.drop count :=
  rfl

@[simp] theorem advance_zero (cursor : Cursor) : cursor.advance 0 = cursor := by
  simp [advance]

theorem advance_advance (cursor : Cursor) (first second : Nat) :
    (cursor.advance first).advance second = cursor.advance (first + second) := by
  simp only [advance, List.drop_drop, Nat.add_assoc]
  congr 1
  rw [List.take_add, List.reverse_append, List.append_assoc]

theorem advance_append {pos count : Nat} {before window rest : List Char} (inside : count ≤ window.length) :
    (⟨pos, before, window ++ rest⟩ : Cursor).advance count =
      ⟨pos + count, (window.take count).reverse ++ before, window.drop count ++ rest⟩ := by
  simp only [advance]
  rw [List.take_append_of_le_length inside, List.drop_append_of_le_length inside]

end Cursor

namespace Scan

variable {α β γ : Type}

theorem bind_apply (first : Scan α) (next : α → Scan β) (cursor : Cursor) :
    (first >>= next) cursor = (first cursor).flatMap fun found => next found.1 found.2 :=
  rfl

theorem pure_apply (value : α) (cursor : Cursor) : (pure value : Scan α) cursor = [(value, cursor)] :=
  rfl

/-! ## Moving forward -/

/-- A scan only moves forward inside its text. -/
def Advances (scan : Scan α) : Prop :=
  ∀ cursor, ∀ found ∈ scan cursor, ∃ count ≤ cursor.after.length, found.2 = cursor.advance count

theorem advances_pure (value : α) : Advances (pure value : Scan α) := by
  intro cursor found member
  obtain rfl := List.mem_singleton.mp member
  exact ⟨0, Nat.zero_le _, cursor.advance_zero.symm⟩

theorem Advances.bind {first : Scan α} {next : α → Scan β} (firstAdvances : Advances first)
    (nextAdvances : ∀ value, Advances (next value)) : Advances (first >>= next) := by
  intro cursor found member
  obtain ⟨middle, middleMember, foundMember⟩ := List.mem_flatMap.mp member
  obtain ⟨firstCount, firstInside, middleEq⟩ := firstAdvances cursor middle middleMember
  obtain ⟨nextCount, nextInside, foundEq⟩ := nextAdvances middle.1 middle.2 found foundMember
  rw [middleEq, Cursor.advance_advance] at foundEq
  rw [middleEq, Cursor.after_advance, List.length_drop] at nextInside
  exact ⟨firstCount + nextCount, by omega, foundEq⟩

theorem Advances.either {first second : Scan α} (firstAdvances : Advances first) (secondAdvances : Advances second) :
    Advances (either first second) := by
  intro cursor found member
  rcases List.mem_append.mp member with early | late
  · exact firstAdvances cursor found early
  · exact secondAdvances cursor found late

theorem Advances.optional {scan : Scan Unit} (advances : Advances scan) : Advances (optional scan) :=
  advances.either (advances_pure ())

theorem eq_of_mem_check {holds : Option Char → Option Char → Bool} {cursor : Cursor} {found : Unit × Cursor}
    (member : found ∈ check holds cursor) : found = ((), cursor) := by
  unfold check at member
  split at member
  · exact List.mem_singleton.mp member
  · cases member

theorem advances_check (holds : Option Char → Option Char → Bool) : Advances (check holds) := by
  intro cursor found member
  obtain rfl := eq_of_mem_check member
  exact ⟨0, Nat.zero_le _, cursor.advance_zero.symm⟩

theorem one_apply (accepts : Char → Bool) (cursor : Cursor) :
    one accepts cursor =
      match cursor.after with
      | c :: _ => if accepts c then [(c, cursor.advance 1)] else []
      | [] => [] := by
  unfold one
  cases same : cursor.after with
  | nil => rfl
  | cons c rest => simp [Cursor.advance, same]

theorem advances_one (accepts : Char → Bool) : Advances (one accepts) := by
  intro cursor found member
  rw [one_apply] at member
  split at member
  · rename_i c rest same
    split at member
    · obtain rfl := List.mem_singleton.mp member
      exact ⟨1, by simp [same], rfl⟩
    · cases member
  · cases member

theorem runFrom_eq (accepts : Char → Bool) (pos : Nat) (before : List Char) (shorter : List (Unit × Cursor))
    (text : List Char) :
    runFrom accepts pos before shorter text =
      ((List.range ((text.takeWhile accepts).length + 1)).reverse.map
        fun count => ((), (⟨pos, before, text⟩ : Cursor).advance count)) ++ shorter := by
  induction text generalizing pos before shorter with
  | nil => simp [runFrom]
  | cons c rest ih =>
      by_cases accepted : accepts c = true
      · simp only [runFrom, accepted, if_true, ih, List.takeWhile_cons_of_pos accepted, List.length_cons]
        have oneMore : List.range ((rest.takeWhile accepts).length + 1 + 1) =
            0 :: (List.range ((rest.takeWhile accepts).length + 1)).map Nat.succ := List.range_succ_eq_map
        rw [oneMore, List.reverse_cons, List.map_append, List.map_singleton, List.append_assoc, Cursor.advance_zero,
          ← List.map_reverse, List.map_map, List.singleton_append]
        congr 1
        refine List.map_congr_left fun count _ => ?_
        simp [Cursor.advance, Nat.add_comm, Nat.add_left_comm]
      · simp [runFrom, accepted]

/-- The places reached by passing characters of a class, the furthest first. -/
theorem many_apply (accepts : Char → Bool) (cursor : Cursor) :
    many accepts cursor = (List.range ((cursor.after.takeWhile accepts).length + 1)).reverse.map
      fun count => ((), cursor.advance count) := by
  rw [many, runFrom_eq, List.append_nil]

theorem advances_many (accepts : Char → Bool) : Advances (many accepts) := by
  intro cursor found member
  rw [many_apply] at member
  obtain ⟨count, counted, rfl⟩ := List.mem_map.mp member
  have bound := List.mem_range.mp (List.mem_reverse.mp counted)
  have prefixLe := (List.takeWhile_prefix accepts : cursor.after.takeWhile accepts <+: cursor.after).length_le
  exact ⟨count, by omega, rfl⟩

theorem chars_apply (word : List Char) (cursor : Cursor) :
    chars word cursor = if word <+: cursor.after then [((), cursor.advance word.length)] else [] := by
  induction word generalizing cursor with
  | nil => simp [chars, pure_apply]
  | cons c rest ih =>
      rw [chars, bind_apply, one_apply]
      cases same : cursor.after with
      | nil => simp
      | cons first others =>
          by_cases equal : first = c
          · subst equal
            simp [ih, same, Cursor.advance_advance, Nat.add_comm]
          · simp [equal, Ne.symm equal]

theorem advances_chars (word : List Char) : Advances (chars word) := by
  intro cursor found member
  rw [chars_apply] at member
  split at member
  · rename_i begins
    obtain rfl := List.mem_singleton.mp member
    exact ⟨word.length, begins.length_le, rfl⟩
  · cases member

/-! ## Successes inside a window -/

/-- How far the successes of a scan reach, those that stay within `room` characters. -/
def within (scan : Scan α) (cursor : Cursor) (room : Nat) : List Nat :=
  ((scan cursor).map fun found => found.2.pos - cursor.pos).filter (· ≤ room)

/-- What follows the successes of a scan is of interest only for those that stay within the room, if nothing comes back
from beyond it. -/
theorem filter_flatMap_advances {first : Scan α} (advances : Advances first) (after : Cursor → List γ)
    (inside : γ → Bool) (cursor : Cursor) (room : Nat)
    (beyond : ∀ count, room < count → (after (cursor.advance count)).filter inside = []) :
    ((first cursor).flatMap fun found => after found.2).filter inside =
      (first.within cursor room).flatMap fun count => (after (cursor.advance count)).filter inside := by
  rw [within]
  have moves := advances cursor
  generalize first cursor = successes at moves ⊢
  induction successes with
  | nil => rfl
  | cons found others ih =>
      obtain ⟨count, _, foundEq⟩ := moves found List.mem_cons_self
      have rest := ih fun other member => moves other (List.mem_cons_of_mem found member)
      have reach : found.2.pos - cursor.pos = count := by
        rw [foundEq, Cursor.pos_advance, Nat.add_sub_cancel_left]
      rw [List.flatMap_cons, List.filter_append, rest, List.map_cons, List.filter_cons, reach, foundEq]
      by_cases near : count ≤ room
      · simp [near]
      · rw [beyond count (Nat.lt_of_not_le near)]
        simp [near]

theorem filter_map_advance {scan : Scan α} (advances : Advances scan) (cursor : Cursor) (base room : Nat)
    (start : cursor.pos = base + room) (limit : Nat) :
    ((scan cursor).map fun found => found.2.pos - base).filter (· ≤ limit) =
      if room ≤ limit then (scan.within cursor (limit - room)).map (room + ·) else [] := by
  rw [within]
  have moves := advances cursor
  generalize scan cursor = successes at moves ⊢
  induction successes with
  | nil => simp
  | cons found others ih =>
      obtain ⟨count, _, foundEq⟩ := moves found List.mem_cons_self
      have rest := ih fun other member => moves other (List.mem_cons_of_mem found member)
      have whole : found.2.pos - base = room + count := by
        rw [foundEq, Cursor.pos_advance]
        omega
      have part : found.2.pos - cursor.pos = count := by
        rw [foundEq, Cursor.pos_advance, Nat.add_sub_cancel_left]
      rw [List.map_cons, List.filter_cons, rest, whole, List.map_cons, List.filter_cons, part]
      by_cases begins : room ≤ limit
      · by_cases near : count ≤ limit - room
        · have both : room + count ≤ limit := by omega
          simp [begins, near, both]
        · have notBoth : ¬ room + count ≤ limit := by omega
          simp [begins, near, notBoth]
      · have notBoth : ¬ room + count ≤ limit := by omega
        simp [begins, notBoth]

theorem within_bind {first : Scan α} {next : Scan β} (firstAdvances : Advances first) (nextAdvances : Advances next)
    (cursor : Cursor) (room : Nat) :
    (first >>= fun _ => next).within cursor room =
      (first.within cursor room).flatMap fun count =>
        (next.within (cursor.advance count) (room - count)).map (count + ·) := by
  have reach : ∀ count, ((next (cursor.advance count)).map fun found => found.2.pos - cursor.pos).filter (· ≤ room) =
      if count ≤ room then (next.within (cursor.advance count) (room - count)).map (count + ·) else [] :=
    fun count => filter_map_advance nextAdvances (cursor.advance count) cursor.pos count rfl room
  rw [within, bind_apply, List.map_flatMap, filter_flatMap_advances firstAdvances
    (fun middle => (next middle).map fun found => found.2.pos - cursor.pos) _ cursor room]
  · refine List.flatMap_congr fun count member => ?_
    have near : count ≤ room := of_decide_eq_true (List.mem_filter.mp member).2
    rw [reach, if_pos near]
  · intro count far
    rw [reach, if_neg (Nat.not_le_of_gt far)]

/-! ## Local scans -/

/-- A word at the end of the window runs on after it in both continuations or in none. -/
def Meets (window rest other : List Char) : Prop :=
  window.getLast?.any isWordChar = true → rest.head?.any isWordChar = other.head?.any isWordChar

theorem Meets.drop {window rest other : List Char} (meets : Meets window rest other) (count : Nat) :
    Meets (window.drop count) rest other := by
  intro word
  apply meets
  rw [List.getLast?_drop] at word
  split at word
  · cases word
  · exact word

/-- A scan that finds the same successes inside a window whatever stands around the window. -/
structure Local (scan : Scan α) : Prop where
  advances : Advances scan
  same : ∀ (pos pos' : Nat) (before before' window rest rest' : List Char), Meets window rest rest' →
    scan.within ⟨pos, before, window ++ rest⟩ window.length =
      scan.within ⟨pos', before', window ++ rest'⟩ window.length

theorem Local.bind {first : Scan α} {next : Scan β} (firstLocal : Local first) (nextLocal : Local next) :
    Local (first >>= fun _ => next) where
  advances := firstLocal.advances.bind fun _ => nextLocal.advances
  same pos pos' before before' window rest rest' meets := by
    rw [within_bind firstLocal.advances nextLocal.advances, within_bind firstLocal.advances nextLocal.advances,
      firstLocal.same pos pos' before before' window rest rest' meets]
    refine List.flatMap_congr fun count member => ?_
    have inside : count ≤ window.length := of_decide_eq_true (List.mem_filter.mp member).2
    have room : window.length - count = (window.drop count).length := by rw [List.length_drop]
    rw [Cursor.advance_append inside, Cursor.advance_append inside, room]
    rw [nextLocal.same _ _ _ _ (window.drop count) rest rest' (meets.drop count)]

theorem within_either (first second : Scan α) (cursor : Cursor) (room : Nat) :
    (either first second).within cursor room = first.within cursor room ++ second.within cursor room := by
  simp [within, either]

theorem Local.either {first second : Scan α} (firstLocal : Local first) (secondLocal : Local second) :
    Local (either first second) where
  advances := firstLocal.advances.either secondLocal.advances
  same pos pos' before before' window rest rest' meets := by
    rw [within_either, within_either, firstLocal.same pos pos' before before' window rest rest' meets,
      secondLocal.same pos pos' before before' window rest rest' meets]

theorem within_pure (value : α) (cursor : Cursor) (room : Nat) : (pure value : Scan α).within cursor room = [0] := by
  simp [within, pure_apply]

theorem local_pure (value : α) : Local (pure value : Scan α) where
  advances := advances_pure value
  same _ _ _ _ _ _ _ _ := by rw [within_pure, within_pure]

theorem Local.optional {scan : Scan Unit} (scanLocal : Local scan) : Local (optional scan) :=
  scanLocal.either (local_pure ())

theorem local_one (accepts : Char → Bool) : Local (one accepts) where
  advances := advances_one accepts
  same pos pos' before before' window rest rest' _ := by
    simp only [within, one_apply]
    cases window with
    | nil =>
        cases rest with
        | nil => cases rest' with
          | nil => rfl
          | cons c' others' => by_cases accepted : accepts c' = true <;> simp [accepted]
        | cons c others =>
            by_cases accepted : accepts c = true
            · cases rest' with
              | nil => simp [accepted]
              | cons c' others' => by_cases accepted' : accepts c' = true <;> simp [accepted, accepted']
            · cases rest' with
              | nil => simp [accepted]
              | cons c' others' => by_cases accepted' : accepts c' = true <;> simp [accepted, accepted']
    | cons c window => by_cases accepted : accepts c = true <;> simp [accepted]

theorem filter_range_le (count room : Nat) :
    (List.range (count + 1)).filter (· ≤ room) = List.range (min count room + 1) := by
  induction count with
  | zero => simp
  | succ count ih =>
      rw [List.range_succ, List.filter_append, ih]
      by_cases near : count + 1 ≤ room
      · simp [near, Nat.min_eq_left (Nat.le_of_succ_le near), List.range_succ (n := count + 1)]
      · have far : room ≤ count := by omega
        simp [near, Nat.min_eq_right far, Nat.min_eq_right (Nat.le_succ_of_le far)]

theorem within_many (accepts : Char → Bool) (cursor : Cursor) (room : Nat) :
    (many accepts).within cursor room =
      (List.range (min (cursor.after.takeWhile accepts).length room + 1)).reverse := by
  have reach : ((many accepts cursor).map fun found => found.2.pos - cursor.pos) =
      (List.range ((cursor.after.takeWhile accepts).length + 1)).reverse := by
    rw [many_apply, List.map_map]
    refine (List.map_congr_left fun count _ => ?_).trans (List.map_id _)
    simp
  rw [within, reach, List.filter_reverse, filter_range_le]

theorem min_length_takeWhile_append (accepts : Char → Bool) (window rest : List Char) :
    min ((window ++ rest).takeWhile accepts).length window.length = (window.takeWhile accepts).length := by
  induction window with
  | nil => simp
  | cons c window ih =>
      by_cases accepted : accepts c = true
      · simp [accepted, Nat.succ_min_succ, ih]
      · simp [accepted]

theorem local_many (accepts : Char → Bool) : Local (many accepts) where
  advances := advances_many accepts
  same pos pos' before before' window rest rest' _ := by
    rw [within_many, within_many, min_length_takeWhile_append, min_length_takeWhile_append]

theorem local_oneOrMore (accepts : Char → Bool) : Local (oneOrMore accepts) :=
  (local_one accepts).bind (local_many accepts)

theorem local_chars (word : List Char) : Local (chars word) := by
  induction word with
  | nil => exact local_pure ()
  | cons c rest ih => exact (local_one (· == c)).bind ih

theorem local_word (text : String) : Local (word text) :=
  local_chars text.toList

/-! ## Keywords -/

theorem head?_before_advance {word : List Char} {cursor : Cursor} (begins : word <+: cursor.after) (some : word ≠ []) :
    (cursor.advance word.length).before.head? = word.getLast? := by
  obtain ⟨others, same⟩ := begins
  have taken : cursor.after.take word.length = word := by rw [← same, List.take_left]
  simp only [Cursor.advance, taken]
  rw [List.head?_append, List.head?_reverse]
  cases last : word.getLast? with
  | none => exact absurd (List.getLast?_eq_none_iff.mp last) some
  | some c => rfl

def keyword (text : List Char) : Scan Unit :=
  chars text >>= fun _ => wordEdge

theorem keyword_apply {text : List Char} (ends : text.getLast?.any isWordChar = true) (cursor : Cursor) :
    keyword text cursor =
      if text <+: cursor.after ∧ (cursor.after.drop text.length).head?.any isWordChar = false then
        [((), cursor.advance text.length)] else [] := by
  rw [keyword, bind_apply, chars_apply]
  by_cases begins : text <+: cursor.after
  · have some : text ≠ [] := by
      rintro rfl
      cases ends
    rw [if_pos begins, List.flatMap_singleton, wordEdge, check, head?_before_advance begins some, ends]
    have runsOn : ((true != (cursor.after.drop text.length).head?.any isWordChar) = true) ↔
        (cursor.after.drop text.length).head?.any isWordChar = false := by
      cases (cursor.after.drop text.length).head?.any isWordChar <;> decide
    simp only [Cursor.after_advance, begins, true_and, runsOn]
  · simp [begins]

theorem local_keyword {text : List Char} (ends : text.getLast?.any isWordChar = true) : Local (keyword text) where
  advances := (advances_chars text).bind fun _ => advances_check _
  same pos pos' before before' window rest rest' meets := by
    by_cases fits : text.length ≤ window.length
    · simp only [within, keyword_apply ends]
      have begins : ∀ others : List Char, text <+: window ++ others ↔ text <+: window := by
        intro others
        refine ⟨fun starts => ?_, fun starts => starts.trans (List.prefix_append window others)⟩
        exact List.prefix_of_prefix_length_le starts (List.prefix_append window others) fits
      simp only [begins]
      by_cases starts : text <+: window
      · obtain ⟨others, rfl⟩ := starts
        have next : ((text ++ others ++ rest).drop text.length).head?.any isWordChar =
            ((text ++ others ++ rest').drop text.length).head?.any isWordChar := by
          rw [List.append_assoc, List.append_assoc, List.drop_left, List.drop_left]
          cases others with
          | nil => exact meets (by rwa [List.append_nil])
          | cons c others => rfl
        simp only [next]
        split <;> simp
      · simp [starts]
    · have far : ∀ cursor, (keyword text).within cursor window.length = [] := by
        intro cursor
        rw [within, keyword_apply ends]
        split <;> simp [fits]
      rw [far, far]

end Scan
end Deadwood.Source
