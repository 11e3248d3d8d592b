import Mathlib.Data.List.Nodup
import Deadwood.Proofs.SplicedIntroductions
import Deadwood.Source.Mention

/-!
# The calls of a text

A name before an opening parenthesis is a call, white space between them allowed. Scanning finds every call: what a call
takes up is a word, white space and the parenthesis, and no other word begins inside of that. So only the places that are
said to be definitions are left out.
-/

set_option autoImplicit false
namespace Deadwood.Source

open Deadwood.Text Scan

/-! ## What scans find -/

namespace Scan

variable {α β : Type} {cursor : Cursor}

theorem mem_bind {first : Scan α} {next : α → Scan β} {found : β × Cursor} :
    found ∈ (first >>= next) cursor ↔ ∃ middle ∈ first cursor, found ∈ next middle.1 middle.2 :=
  List.mem_flatMap

theorem mem_pure {value : α} {found : α × Cursor} : found ∈ (pure value : Scan α) cursor ↔ found = (value, cursor) :=
  List.mem_singleton

theorem mem_check {holds : Option Char → Option Char → Bool} {found : Unit × Cursor} :
    found ∈ check holds cursor ↔ holds cursor.before.head? cursor.after.head? = true ∧ found = ((), cursor) := by
  unfold check
  split <;> simp_all

theorem mem_word {text : String} {found : Unit × Cursor} :
    found ∈ word text cursor ↔ text.toList <+: cursor.after ∧ found = ((), cursor.advance text.toList.length) := by
  rw [word, chars_apply]
  split <;> simp_all

theorem mem_one {accepts : Char → Bool} {found : Char × Cursor} :
    found ∈ one accepts cursor ↔
      ∃ c rest, cursor.after = c :: rest ∧ accepts c = true ∧ found = (c, cursor.advance 1) := by
  rw [one_apply]
  cases cursor.after with
  | nil => simp
  | cons c rest => by_cases accepted : accepts c = true <;> simp [accepted]

theorem le_length_takeWhile {accepts : Char → Bool} {count : Nat} {text : List Char} (inside : count ≤ text.length)
    (accepted : ∀ c ∈ text.take count, accepts c = true) : count ≤ (text.takeWhile accepts).length := by
  have split : text.takeWhile accepts = text.take count ++ (text.drop count).takeWhile accepts := by
    conv_lhs => rw [← List.take_append_drop count text]
    exact List.takeWhile_append_of_pos accepted
  rw [split, List.length_append, List.length_take]
  omega

theorem mem_many {accepts : Char → Bool} {found : Unit × Cursor} :
    found ∈ many accepts cursor ↔
      ∃ count ≤ cursor.after.length, (∀ c ∈ cursor.after.take count, accepts c = true) ∧
        found = ((), cursor.advance count) := by
  rw [many_apply, List.mem_map]
  simp only [List.mem_reverse, List.mem_range]
  have begins : cursor.after.takeWhile accepts <+: cursor.after := List.takeWhile_prefix accepts
  constructor
  · rintro ⟨count, bound, rfl⟩
    refine ⟨count, by have := begins.length_le; omega, fun c member => ?_, rfl⟩
    have taken : cursor.after.take count <+: cursor.after.takeWhile accepts :=
      List.prefix_of_prefix_length_le (List.take_prefix _ _) begins (by rw [List.length_take]; omega)
    exact List.mem_takeWhile_imp (taken.subset member)
  · rintro ⟨count, inside, accepted, rfl⟩
    exact ⟨count, Nat.lt_succ_of_le (le_length_takeWhile inside accepted), rfl⟩

/-! ## Hits -/

theorem advance_cons {pos : Nat} {before rest : List Char} (c : Char) (count : Nat) :
    (⟨pos, before, c :: rest⟩ : Cursor).advance (count + 1) = (⟨pos + 1, c :: before, rest⟩ : Cursor).advance count := by
  simp [Cursor.advance, Nat.add_comm, Nat.add_left_comm]

variable {scan : Scan α} {busy pos : Nat} {before text : List Char}

theorem exists_of_mem_hitsFrom {hit : Hit α} (member : hit ∈ scan.hitsFrom busy pos before text) :
    ∃ count ≤ text.length, ∃ success ∈ scan ((⟨pos, before, text⟩ : Cursor).advance count),
      hit = ⟨pos + count, success.2.pos, success.1⟩ := by
  induction text generalizing busy pos before with
  | nil =>
      unfold hitsFrom at member
      split at member
      · rename_i success first
        obtain rfl := List.mem_singleton.mp member
        exact ⟨0, Nat.le_refl _, success, Cursor.advance_zero _ ▸ List.mem_of_head? first, rfl⟩
      · cases member
  | cons c rest ih =>
      have later : ∀ {busy : Nat}, hit ∈ scan.hitsFrom busy (pos + 1) (c :: before) rest →
          ∃ count ≤ (c :: rest).length, ∃ success ∈ scan ((⟨pos, before, c :: rest⟩ : Cursor).advance count),
            hit = ⟨pos + count, success.2.pos, success.1⟩ := by
        intro busy member
        obtain ⟨count, inside, success, succeeds, rfl⟩ := ih member
        refine ⟨count + 1, Nat.succ_le_succ inside, success, ?_, by rw [Nat.add_assoc, Nat.add_comm 1]⟩
        rwa [advance_cons]
      unfold hitsFrom at member
      split at member
      · exact later member
      · split at member
        · rename_i success first
          rcases List.mem_cons.mp member with rfl | member
          · exact ⟨0, Nat.zero_le _, success, Cursor.advance_zero _ ▸ List.mem_of_head? first, rfl⟩
          · exact later member
        · exact later member

/-- Where a scan succeeds there is a hit, unless an earlier hit goes on there. -/
theorem mem_hitsFrom_or_covered {count : Nat} {success : α × Cursor} (inside : count ≤ text.length) (free : busy ≤ count)
    (first : scan.first? ((⟨pos, before, text⟩ : Cursor).advance count) = some success) :
    ⟨pos + count, success.2.pos, success.1⟩ ∈ scan.hitsFrom busy pos before text ∨
      ∃ hit ∈ scan.hitsFrom busy pos before text, hit.start < pos + count ∧ pos + count < hit.stop := by
  induction text generalizing busy pos before count with
  | nil =>
      obtain rfl := Nat.le_zero.mp inside
      obtain rfl := Nat.le_zero.mp free
      rw [Cursor.advance_zero] at first
      exact Or.inl (by simp [hitsFrom, first])
  | cons c rest ih =>
      cases count with
      | zero =>
          obtain rfl := Nat.le_zero.mp free
          rw [Cursor.advance_zero] at first
          simp [hitsFrom, first]
      | succ count =>
          rw [advance_cons] at first
          have goesOn : ∀ {busy : Nat}, busy ≤ count →
              ⟨pos + (count + 1), success.2.pos, success.1⟩ ∈ scan.hitsFrom busy (pos + 1) (c :: before) rest ∨
                ∃ hit ∈ scan.hitsFrom busy (pos + 1) (c :: before) rest,
                  hit.start < pos + (count + 1) ∧ pos + (count + 1) < hit.stop := by
            intro busy free
            rw [← Nat.add_assoc, Nat.add_right_comm]
            exact ih (Nat.le_of_succ_le_succ inside) free first
          cases busy with
          | succ busy =>
              rw [hitsFrom]
              exact goesOn (Nat.le_of_succ_le_succ free)
          | zero =>
              cases here : scan.first? ⟨pos, before, c :: rest⟩ with
              | none =>
                  simp only [hitsFrom, here]
                  exact goesOn (Nat.zero_le _)
              | some found =>
                  -- the hit made here either ends before the place, and the scan is free again there, or goes on there
                  simp only [hitsFrom, here, List.mem_cons]
                  by_cases clear : found.2.pos - pos - 1 ≤ count
                  · rcases goesOn clear with present | ⟨hit, member, starts, goes⟩
                    · exact Or.inl (Or.inr present)
                    · exact Or.inr ⟨hit, Or.inr member, starts, goes⟩
                  · refine Or.inr ⟨_, Or.inl rfl, ?_, ?_⟩
                    · dsimp only
                      omega
                    · dsimp only
                      omega

end Scan

/-! ## Identifiers -/

def IsIdentifier (text : List Char) : Prop :=
  ∃ c rest, text = c :: rest ∧ isIdentifierStart c = true ∧ ∀ d ∈ rest, isIdentifierPart d = true

theorem isIdentifierPart_of_isIdentifierStart {c : Char} (start : isIdentifierStart c = true) :
    isIdentifierPart c = true := by
  simp only [isIdentifierStart, Bool.or_eq_true] at start
  simp only [isIdentifierPart, isWordChar, Bool.or_eq_true]
  rcases start with (letter | underscore) | dollar
  · have alphanumeric : c.isAlphanum = true := by rw [Char.isAlphanum, letter, Bool.true_or]
    have ascii : c.toNat < 128 := by
      have range := toNat_of_isAlpha letter
      omega
    exact Or.inl (Or.inl (isAlphanumeric_of_isAlphanum c ascii ▸ alphanumeric))
  · exact Or.inl (Or.inr underscore)
  · exact Or.inr dollar

theorem toNat_of_isDigit {c : Char} (digit : c.isDigit = true) : 48 ≤ c.toNat ∧ c.toNat ≤ 57 := by
  have spelled : (decide (48 ≤ c.val) && decide (c.val ≤ 57)) = true := digit
  simp only [Bool.and_eq_true, decide_eq_true_eq, UInt32.le_iff_toNat_le] at spelled
  exact spelled

theorem isIdentifierPart_of_isSpace {c : Char} (space : isSpace c = true) : isIdentifierPart c = false := by
  have beyondAscii : ∀ n ∈ [0x85, 0xa0, 0x1680, 0x2000, 0x2001, 0x2002, 0x2003, 0x2004, 0x2005, 0x2006, 0x2007, 0x2008,
      0x2009, 0x200a, 0x2028, 0x2029, 0x202f, 0x205f, 0x3000], inRanges alphanumericRanges n = false := by
    decide +kernel
  simp only [isSpace, Bool.or_eq_true, Bool.and_eq_true, decide_eq_true_eq, beq_iff_eq] at space
  have notAlphanumeric : isAlphanumeric c = false := by
    unfold isAlphanumeric
    split
    · rename_i ascii
      by_contra alphanumeric
      rw [Bool.not_eq_false, Char.isAlphanum, Bool.or_eq_true] at alphanumeric
      rcases alphanumeric with letter | digit
      · have range := toNat_of_isAlpha letter
        omega
      · have range := toNat_of_isDigit digit
        omega
    · rename_i beyond
      apply beyondAscii
      simp only [List.mem_cons, List.not_mem_nil, or_false]
      omega
  have noUnderscore : c ≠ '_' := by
    rintro rfl
    revert space
    decide
  have noDollar : c ≠ '$' := by
    rintro rfl
    revert space
    decide
  simp [isIdentifierPart, isWordChar, notAlphanumeric, noUnderscore, noDollar]

theorem IsIdentifier.isIdentifierPart {text : List Char} (holds : IsIdentifier text) :
    ∀ c ∈ text, isIdentifierPart c = true := by
  obtain ⟨c, rest, rfl, start, parts⟩ := holds
  intro d member
  rcases List.mem_cons.mp member with rfl | member
  · exact isIdentifierPart_of_isIdentifierStart start
  · exact parts d member

theorem mem_identifier {cursor : Cursor} {found : Unit × Cursor} :
    found ∈ identifier cursor ↔
      ∃ count ≤ cursor.after.length, IsIdentifier (cursor.after.take count) ∧ found = ((), cursor.advance count) := by
  rw [identifier, mem_bind]
  constructor
  · rintro ⟨middle, member, passes⟩
    obtain ⟨c, rest, same, start, rfl⟩ := mem_one.mp member
    obtain ⟨count, inside, parts, rfl⟩ := mem_many.mp passes
    rw [Cursor.after_advance, same, List.drop_one, List.tail_cons] at inside parts
    rw [same]
    refine ⟨count + 1, Nat.succ_le_succ inside, ⟨c, rest.take count, rfl, start, parts⟩, ?_⟩
    rw [Cursor.advance_advance, Nat.add_comm]
  · rintro ⟨count, inside, ⟨c, others, split, start, parts⟩, rfl⟩
    cases same : cursor.after with
    | nil => simp [same] at split
    | cons d rest =>
        rw [same] at inside split
        cases count with
        | zero => cases split
        | succ count =>
            obtain ⟨rfl, rfl⟩ := List.cons.inj split
            refine ⟨(d, cursor.advance 1), mem_one.mpr ⟨d, rest, same, start, rfl⟩, mem_many.mpr ⟨count, ?_, ?_, ?_⟩⟩
            · rw [Cursor.after_advance, same]
              exact Nat.le_of_succ_le_succ inside
            · rw [Cursor.after_advance, same]
              exact parts
            · rw [Cursor.advance_advance, Nat.add_comm]

theorem mem_nameStretch {name : Scan Unit} {cursor : Cursor} {found : Stretch × Cursor} :
    found ∈ nameStretch name cursor ↔ ∃ passed ∈ name cursor, found = (⟨cursor.pos, passed.2.pos⟩, passed.2) := by
  simp only [nameStretch, bind_apply, here, pure_apply, List.flatMap_singleton, List.mem_flatMap, List.mem_singleton]

/-! ## Calls -/

/-- A word with an opening parenthesis after it and white space between them, at the beginning of a text. -/
structure BeginsCall (word blanks text : List Char) : Prop where
  identifier : IsIdentifier word
  blank : ∀ c ∈ blanks, isSpace c = true
  begins : word ++ (blanks ++ ['(']) <+: text

namespace BeginsCall

variable {word blanks text : List Char}

theorem isIdentifierPart_inside (call : BeginsCall word blanks text) {place : Nat} (inside : place < word.length) :
    ∃ c, text[place]? = some c ∧ isIdentifierPart c = true := by
  obtain ⟨rest, rfl⟩ := call.begins
  refine ⟨word[place], ?_, call.identifier.isIdentifierPart _ (List.getElem_mem inside)⟩
  rw [List.append_assoc, List.getElem?_append_left inside, List.getElem?_eq_getElem inside]

/-- Behind its word, a call takes up nothing that begins an identifier. -/
theorem not_isIdentifierStart_behind (call : BeginsCall word blanks text) {place : Nat} (behind : word.length ≤ place)
    (inside : place < word.length + blanks.length + 1) {c : Char} (shown : text[place]? = some c) :
    isIdentifierStart c = false := by
  obtain ⟨rest, rfl⟩ := call.begins
  rw [List.append_assoc, List.getElem?_append_right behind, List.append_assoc] at shown
  by_cases isBlank : place - word.length < blanks.length
  · rw [List.getElem?_append_left isBlank] at shown
    rw [← Bool.not_eq_true]
    intro start
    have visible := isSpace_of_isIdentifierStart start
    rw [call.blank c (List.mem_of_getElem? shown)] at visible
    cases visible
  · have opening : place - word.length = blanks.length := by omega
    rw [opening, List.getElem?_append_right (Nat.le_refl _), Nat.sub_self] at shown
    obtain rfl := Option.some.inj shown
    decide

theorem word_eq (call : BeginsCall word blanks text) : word = text.takeWhile isIdentifierPart := by
  obtain ⟨rest, rfl⟩ := call.begins
  have stops : (blanks ++ ['('] ++ rest).takeWhile isIdentifierPart = [] := by
    cases blanks with
    | nil => rfl
    | cons c others =>
        have noPart := isIdentifierPart_of_isSpace (call.blank c List.mem_cons_self)
        simp [noPart]
  rw [List.append_assoc, List.takeWhile_append_of_pos call.identifier.isIdentifierPart, stops, List.append_nil]

end BeginsCall

theorem mem_callScan {cursor : Cursor} {found : Stretch × Cursor} :
    found ∈ callScan cursor ↔ cursor.before.head?.any isIdentifierPart = false ∧
      ∃ word blanks, BeginsCall word blanks cursor.after ∧
        found = (⟨cursor.pos, cursor.pos + word.length⟩, cursor.advance (word.length + blanks.length + 1)) := by
  have opening : "(".toList = ['('] := rfl
  simp only [callScan, Scan.notAfter, mem_bind, mem_check, mem_nameStretch, mem_identifier, mem_many, mem_word, mem_pure,
    opening, Bool.not_eq_true']
  constructor
  · rintro ⟨_, ⟨apart, rfl⟩, _, ⟨_, ⟨length, inside, identifier, rfl⟩, rfl⟩, _, ⟨count, countInside, blank, rfl⟩, _,
      ⟨⟨rest, opens⟩, rfl⟩, rfl⟩
    simp only [Cursor.after_advance, List.length_drop] at countInside blank opens
    refine ⟨apart, cursor.after.take length, (cursor.after.drop length).take count, ⟨identifier, blank, rest, ?_⟩, ?_⟩
    · rw [List.append_assoc, List.append_assoc, opens, List.take_append_drop, List.take_append_drop]
    · rw [List.length_take_of_le inside, List.length_take_of_le (by rw [List.length_drop]; exact countInside)]
      simp only [Cursor.advance_advance, Cursor.pos_advance, List.length_singleton]
  · rintro ⟨apart, word, blanks, ⟨identifier, blank, rest, split⟩, rfl⟩
    rw [List.append_assoc, List.append_assoc] at split
    have wordTaken : cursor.after.take word.length = word := by rw [← split, List.take_left]
    have wordDropped : cursor.after.drop word.length = blanks ++ (['('] ++ rest) := by rw [← split, List.drop_left]
    refine ⟨_, ⟨apart, rfl⟩, _, ⟨_, ⟨word.length, ?_, ?_, rfl⟩, rfl⟩, _, ⟨blanks.length, ?_, ?_, rfl⟩, _, ⟨?_, rfl⟩, ?_⟩
    · rw [← split, List.length_append]
      exact Nat.le_add_right _ _
    · rwa [wordTaken]
    · rw [Cursor.after_advance, wordDropped, List.length_append]
      exact Nat.le_add_right _ _
    · rwa [Cursor.after_advance, wordDropped, List.take_left]
    · rw [Cursor.after_advance, Cursor.after_advance, wordDropped, List.drop_left]
      exact List.prefix_append _ _
    · simp only [Cursor.advance_advance, Cursor.pos_advance, List.length_singleton]

/-- A place of a view where a name stands as a word of its own, with white space and an opening parenthesis after it. -/
structure CallSite (view : List Char) (name : String) where
  before : List Char
  blanks : List Char
  after : List Char
  split : view = before ++ (name.toList ++ (blanks ++ '(' :: after))
  apart : before.getLast?.any isIdentifierPart = false
  blank : ∀ c ∈ blanks, isSpace c = true

def CallSite.offset {view : List Char} {name : String} (site : CallSite view name) : Nat :=
  site.before.length

namespace CallSite

variable {view : List Char} {name : String}

theorem take_offset (site : CallSite view name) : view.take site.offset = site.before :=
  (congrArg (List.take site.before.length) site.split).trans List.take_left

theorem drop_offset (site : CallSite view name) :
    view.drop site.offset = name.toList ++ (site.blanks ++ '(' :: site.after) :=
  (congrArg (List.drop site.before.length) site.split).trans List.drop_left

theorem offset_le (site : CallSite view name) : site.offset ≤ view.length := by
  rw [CallSite.offset, ← site.take_offset]
  exact List.length_take_le' site.offset view

theorem head?_before (site : CallSite view name) :
    ((Cursor.start view).advance site.offset).before.head? = site.before.getLast? := by
  simp only [Cursor.advance, Cursor.start, site.take_offset, List.append_nil, List.head?_reverse]

theorem getLast?_before (site : CallSite view name) (some : 0 < site.offset) :
    site.before.getLast? = view[site.offset - 1]? := by
  have previous : site.before[site.offset - 1]? = view[site.offset - 1]? := by
    conv_lhs => rw [← site.take_offset]
    exact List.getElem?_take_of_lt (Nat.sub_lt some Nat.one_pos)
  exact List.getLast?_eq_getElem?.trans previous

theorem beginsCall (site : CallSite view name) (identifier : IsIdentifier name.toList) :
    BeginsCall name.toList site.blanks (view.drop site.offset) where
  identifier := identifier
  blank := site.blank
  begins := by
    rw [site.drop_offset]
    exact ⟨site.after, by simp⟩

/-- No hit takes up the beginning of a call and something before it. -/
theorem not_covered (site : CallSite view name) (identifier : IsIdentifier name.toList) {hit : Hit Stretch}
    (member : hit ∈ callScan.hits view) : ¬ (hit.start < site.offset ∧ site.offset < hit.stop) := by
  rintro ⟨starts, goes⟩
  obtain ⟨count, inside, success, succeeds, rfl⟩ := exists_of_mem_hitsFrom member
  obtain ⟨_, word, blanks, call, rfl⟩ := mem_callScan.mp succeeds
  replace call : BeginsCall word blanks (view.drop count) := call
  simp only [Cursor.pos_advance, Nat.zero_add] at starts goes
  by_cases inWord : site.offset - 1 - count < word.length
  · -- the character before the name is part of the word as well
    obtain ⟨c, shown, part⟩ := call.isIdentifierPart_inside inWord
    have last : site.before.getLast? = some c := by
      rw [site.getLast?_before (Nat.zero_lt_of_lt starts), ← shown, List.getElem?_drop]
      congr 1
      omega
    have apart := site.apart
    rw [last, Option.any_some, part] at apart
    cases apart
  · -- the name would begin in the white space or at the parenthesis
    obtain ⟨c, rest, same, start, _⟩ := identifier
    have shown : (view.drop count)[site.offset - count]? = some c := by
      have first : (view.drop site.offset)[0]? = some c := by
        rw [site.drop_offset, same]
        rfl
      rw [← first, List.getElem?_drop, List.getElem?_drop]
      congr 1
      omega
    have behind : word.length ≤ site.offset - count := by omega
    have noStart := call.not_isIdentifierStart_behind behind (by omega) shown
    rw [start] at noStart
    cases noStart

theorem exists_hit (site : CallSite view name) (identifier : IsIdentifier name.toList) :
    ∃ hit ∈ callScan.hits view, hit.value = ⟨site.offset, site.offset + name.toList.length⟩ := by
  have call := site.beginsCall identifier
  obtain ⟨success, first⟩ : ∃ success, callScan.first? ((Cursor.start view).advance site.offset) = some success := by
    refine Option.isSome_iff_exists.mp (List.isSome_head?.mpr ?_)
    exact List.ne_nil_of_mem (mem_callScan.mpr ⟨site.head?_before ▸ site.apart, _, _, call, rfl⟩)
  rcases mem_hitsFrom_or_covered site.offset_le (Nat.zero_le _) first with member | ⟨hit, member, covered⟩
  · refine ⟨_, member, ?_⟩
    obtain ⟨_, word, blanks, found, rfl⟩ := mem_callScan.mp (List.mem_of_head? first)
    rw [Cursor.after_advance] at found
    have sameWord : word = name.toList := found.word_eq.trans call.word_eq.symm
    simp only [sameWord, Cursor.pos_advance, Cursor.start, Nat.zero_add]
  · rw [Nat.zero_add] at covered
    exact absurd covered (site.not_covered identifier member)

/-- Every call is listed, but for those at the positions of definitions. -/
theorem exists_mem_callsOf (site : CallSite view name) (identifier : IsIdentifier name.toList) {definedAt : List Nat}
    (noDefinition : site.offset ∉ definedAt) : ∃ kind, ⟨name, kind, site.offset⟩ ∈ callsOf view definedAt := by
  obtain ⟨hit, member, value⟩ := site.exists_hit identifier
  have spelled : String.ofList (hit.value.of view) = name := by
    have slice : hit.value.of view = (view.drop site.offset).take name.toList.length := by
      rw [value, Stretch.of, ← List.take_drop]
    rw [slice, site.drop_offset, List.take_left, String.ofList_toList]
  refine ⟨if isMember view hit.value.start then .memberCall else .call, List.mem_filterMap.mpr ⟨hit, member, ?_⟩⟩
  have place : hit.value.start = site.offset := by rw [value]
  rw [if_neg, spelled, place]
  rwa [place, List.contains_iff_mem]

end CallSite

/-! ## Names of definitions -/

theorem isIdentifier_of_mem_introductions {view : List Char} {introduction : Introduction}
    (member : introduction ∈ introductions view) : IsIdentifier introduction.name.toList := by
  obtain ⟨listed, _⟩ := List.mem_filter.mp (mem_of_mem_claims member)
  obtain ⟨⟨kind, introducer⟩, inIntroducers, hits⟩ := List.mem_flatMap.mp listed
  obtain ⟨hit, hitMember, rfl⟩ := List.mem_map.mp hits
  rw [Anatomy.introducers_eq] at inIntroducers
  obtain ⟨⟨_, anatomy⟩, inAnatomies, same⟩ := List.mem_map.mp inIntroducers
  obtain ⟨rfl, rfl⟩ := Prod.mk.inj same
  obtain ⟨start, _, success, succeeds, rfl⟩ := exists_of_mem_hitsFrom hitMember
  rw [Anatomy.introducer_apply] at succeeds
  split at succeeds
  case isFalse => cases succeeds
  case isTrue =>
    rw [named_apply] at succeeds
    obtain ⟨led, ledMember, succeeds⟩ := List.mem_flatMap.mp succeeds
    obtain ⟨passed, passes, succeeds⟩ := List.mem_flatMap.mp succeeds
    obtain ⟨_, _, rfl⟩ := List.mem_map.mp succeeds
    obtain ⟨lead, _, ledEq⟩ := (Anatomy.regular_of_mem_all inAnatomies).leadLocal.advances _ led ledMember
    obtain ⟨length, _, identifier, rfl⟩ := mem_identifier.mp passes
    rw [ledEq, Cursor.advance_advance, Cursor.after_advance] at identifier
    rw [String.toList_ofList, Stretch.of, ledEq]
    simp only [Cursor.advance_advance, Cursor.pos_advance]
    rwa [Nat.zero_add, Nat.zero_add, ← List.take_drop]

theorem isIdentifier_of_mem_definitionsOf {path : String} {code masked : List Char} {definition : Definition}
    (member : definition ∈ definitionsOf path code masked) : IsIdentifier definition.name.toList := by
  obtain ⟨introduction, introduced, rfl⟩ := List.mem_map.mp member
  exact isIdentifier_of_mem_introductions introduced

/-! ## The innermost definition -/

/-- A definition around an offset that starts last, and of those that start there the one whose name comes last. -/
structure Innermost (definitions : List Definition) (offset : Nat) (around : Definition) : Prop where
  member : around ∈ definitions
  contains : around.contains offset = true
  last : ∀ other ∈ definitions, other.contains offset = true →
    other.startOffset < around.startOffset ∨
      other.startOffset = around.startOffset ∧ other.position ≤ around.position

def InOrder (definitions : List Definition) : Prop :=
  definitions.Pairwise fun earlier later => earlier.position < later.position

/-- The definition that starts later, the new one if both start at the same place. -/
def later (best : Option Definition) (definition : Definition) : Option Definition :=
  match best with
  | some earlier => if earlier.startOffset ≤ definition.startOffset then some definition else some earlier
  | none => some definition

theorem enclosing?_eq (definitions : List Definition) (offset : Nat) :
    enclosing? definitions offset = ((definitions.filter (·.contains offset)).foldl later none).map (·.name) :=
  rfl

theorem foldl_later (candidates : List Definition) (first : Definition) (inOrder : InOrder (first :: candidates)) :
    ∃ around ∈ first :: candidates, candidates.foldl later (some first) = some around ∧
      ∀ other ∈ first :: candidates, other.startOffset < around.startOffset ∨
        other.startOffset = around.startOffset ∧ other.position ≤ around.position := by
  induction candidates generalizing first with
  | nil => exact ⟨first, List.mem_cons_self, rfl, by simp⟩
  | cons candidate rest ih =>
      obtain ⟨firstBefore, restInOrder⟩ := List.pairwise_cons.mp inOrder
      have positions := firstBefore candidate List.mem_cons_self
      rw [List.foldl_cons, later]
      -- the candidate takes over or not, and the one that is left over is no better than the one that stays
      split
      · rename_i starts
        obtain ⟨around, member, found, last⟩ := ih candidate restInOrder
        refine ⟨around, List.mem_cons_of_mem first member, found, fun other listed => ?_⟩
        rcases List.mem_cons.mp listed with rfl | listed
        · have := last candidate List.mem_cons_self
          omega
        · exact last other listed
      · rename_i starts
        have without : InOrder (first :: rest) :=
          List.pairwise_cons.mpr ⟨fun other listed => firstBefore other (List.mem_cons_of_mem candidate listed),
            (List.pairwise_cons.mp restInOrder).2⟩
        obtain ⟨around, member, found, last⟩ := ih first without
        have kept : (first :: rest).Sublist (first :: candidate :: rest) :=
          (List.sublist_cons_self candidate rest).cons_cons first
        refine ⟨around, kept.subset member, found, fun other listed => ?_⟩
        rcases List.mem_cons.mp listed with rfl | listed
        · exact last other List.mem_cons_self
        · rcases List.mem_cons.mp listed with rfl | listed
          · have := last first List.mem_cons_self
            omega
          · exact last other (List.mem_cons_of_mem first listed)

theorem inOrder_definitionsOf (path : String) (code masked : List Char) : InOrder (definitionsOf path code masked) :=
  List.pairwise_map.mpr (ordered_introductions masked)

variable {definitions : List Definition} {offset : Nat}

theorem Innermost.eq (inOrder : InOrder definitions) {first second : Definition}
    (firstInnermost : Innermost definitions offset first) (secondInnermost : Innermost definitions offset second) :
    first = second := by
  have samePosition : first.position = second.position := by
    have := firstInnermost.last second secondInnermost.member secondInnermost.contains
    have := secondInnermost.last first firstInnermost.member firstInnermost.contains
    omega
  have distinct : (definitions.map Definition.position).Nodup := List.pairwise_map.mpr (inOrder.imp Nat.ne_of_lt)
  exact List.inj_on_of_nodup_map distinct firstInnermost.member secondInnermost.member samePosition

/-- What encloses an offset is the innermost definition around it, if there is one around it. -/
theorem enclosing?_cases (inOrder : InOrder definitions) (offset : Nat) :
    (enclosing? definitions offset = none ∧ ∀ definition ∈ definitions, definition.contains offset = false) ∨
      ∃ around, Innermost definitions offset around ∧ enclosing? definitions offset = some around.name := by
  rw [enclosing?_eq]
  have candidates : ∀ definition, definition ∈ definitions.filter (·.contains offset) ↔
      definition ∈ definitions ∧ definition.contains offset = true := fun definition => List.mem_filter
  have inOrderToo : InOrder (definitions.filter (·.contains offset)) := inOrder.sublist List.filter_sublist
  cases found : definitions.filter (·.contains offset) with
  | nil =>
      refine Or.inl ⟨rfl, fun definition listed => ?_⟩
      rw [← Bool.not_eq_true]
      intro contains
      have member := (candidates definition).mpr ⟨listed, contains⟩
      rw [found] at member
      cases member
  | cons first rest =>
      rw [found] at candidates inOrderToo
      obtain ⟨around, member, fold, last⟩ := foldl_later rest first inOrderToo
      obtain ⟨listed, contains⟩ := (candidates around).mp member
      refine Or.inr ⟨around, ⟨listed, contains, fun other otherListed otherContains => ?_⟩, ?_⟩
      · exact last other ((candidates other).mpr ⟨otherListed, otherContains⟩)
      · rw [List.foldl_cons, later, fold, Option.map_some]

end Deadwood.Source
