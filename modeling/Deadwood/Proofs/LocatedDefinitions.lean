import Deadwood.Proofs.BindingIntroducers
import Deadwood.Proofs.Seam
import Deadwood.Proofs.UnendedBodies

/-!
# Located definitions

Definitions are read off a view with introducers of any name, none of which overlaps the one before; to cut a definition out, the
introducers of its name are looked for from the beginning. Both find the same: where an introducer of any name is found, the
introducers of that name find one there, and what comes before a name in an introducer is settled by the text and holds no place
where another introducer of the kind could begin. So the first introducer of a name never comes behind a definition of it.
-/

set_option autoImplicit false
namespace Deadwood

open Source Text Scan

namespace Source

/-! ## Runs that are settled -/

/-- A run of a class with a character of no such class behind it is all that comes of the class. -/
theorem length_takeWhile_of_next {accepts : Char → Bool} {count : Nat} {text : List Char} {c : Char}
    (accepted : ∀ d ∈ text.take count, accepts d = true) (next : text[count]? = some c) (rejected : accepts c = false) :
    (text.takeWhile accepts).length = count := by
  obtain ⟨inside, present⟩ := List.getElem?_eq_some_iff.mp next
  have split : text = text.take count ++ c :: text.drop (count + 1) := by
    rw [← present, ← List.drop_eq_getElem_cons inside, List.take_append_drop]
  rw [split, List.takeWhile_append_of_pos accepted, List.takeWhile_cons_of_neg (by rw [rejected]; decide), List.append_nil,
    List.length_take]
  omega

theorem getElem?_of_prefix {word text : List Char} (begins : word <+: text) {place : Nat} (inside : place < word.length) :
    text[place]? = some word[place] := by
  obtain ⟨others, rfl⟩ := begins
  rw [List.getElem?_append_left inside, List.getElem?_eq_getElem inside]

namespace Scan

/-- What stands just before the place that a cursor comes to. -/
theorem head?_before_of_advance (cursor : Cursor) {count : Nat} (later : 0 < count) (inside : count ≤ cursor.after.length) :
    (cursor.advance count).before.head? = cursor.after[count - 1]? := by
  have last : (cursor.after.take count).getLast? = cursor.after[count - 1]? := by
    rw [List.getLast?_eq_getElem?, List.length_take, Nat.min_eq_left inside, List.getElem?_take_of_lt (by omega)]
  have present : (cursor.after[count - 1]?).isSome = true := by
    rw [List.getElem?_eq_getElem (by omega)]
    rfl
  rw [Cursor.advance, List.head?_append, List.head?_reverse, last, Option.or_of_isSome present]

theorem count_eq_of_advance {cursor : Cursor} {count other : Nat} (same : cursor.advance count = cursor.advance other) :
    count = other :=
  Nat.add_left_cancel (congrArg Cursor.pos same)

/-- A scan that succeeds somewhere is found there or earlier. -/
theorem exists_search?_of_success {α : Type} {scan : Scan α} {pos : Nat} {before text : List Char} {count : Nat}
    (inside : count ≤ text.length) {success : α × Cursor}
    (succeeds : success ∈ scan ((⟨pos, before, text⟩ : Cursor).advance count)) :
    ∃ hit, scan.search? pos before text = some hit ∧ hit.start ≤ pos + count := by
  have first {cursor : Cursor} (succeeds : success ∈ scan cursor) : ∃ found, scan.first? cursor = some found :=
    Option.isSome_iff_exists.mp (List.isSome_head?.mpr (List.ne_nil_of_mem succeeds))
  induction text generalizing pos before count with
  | nil =>
      obtain rfl := Nat.le_zero.mp inside
      rw [Cursor.advance_zero] at succeeds
      obtain ⟨found, isFirst⟩ := first succeeds
      exact ⟨_, by rw [search?, isFirst, Option.map_some], Nat.le_refl _⟩
  | cons c rest inductionHypothesis =>
      cases here : scan.first? ⟨pos, before, c :: rest⟩ with
      | some found => exact ⟨_, by rw [search?, here], Nat.le_add_right _ _⟩
      | none =>
          cases count with
          | zero =>
              rw [Cursor.advance_zero] at succeeds
              obtain ⟨found, isFirst⟩ := first succeeds
              cases here.symm.trans isFirst
          | succ count =>
              rw [advance_cons] at succeeds
              obtain ⟨hit, found, starts⟩ := inductionHypothesis (Nat.le_of_succ_le_succ inside) succeeds
              exact ⟨hit, by rw [search?, here, found], by omega⟩

end Scan

theorem length_pos_of_isIdentifier {text : List Char} (identifier : IsIdentifier text) : 0 < text.length := by
  obtain ⟨_, _, rfl, _⟩ := identifier
  exact Nat.succ_pos _

/-! ## Introducers of a name -/

namespace Anatomy

/-- At a cursor stands an introducer of a name, with so many characters before the name. -/
structure Introduces (anatomy : Anatomy) (name : List Char) (cursor : Cursor) (lead : Nat) : Prop where
  edge : anatomy.edge cursor.before.head? cursor.after.head? = true
  leads : ((), cursor.advance lead) ∈ anatomy.lead cursor
  named : name <+: cursor.after.drop lead
  trails : ∃ ended, ended ∈ anatomy.trail (cursor.advance (lead + name.length))

variable {anatomy : Anatomy} {name : List Char} {cursor : Cursor} {lead other : Nat}

theorem introduces_of_mem (regular : anatomy.Regular) {found : Stretch × Cursor}
    (member : found ∈ anatomy.introducer (chars name) cursor) :
    ∃ lead, anatomy.Introduces name cursor lead ∧
      found.1 = ⟨cursor.pos + lead, cursor.pos + (lead + name.length)⟩ := by
  rw [introducer_apply] at member
  split at member
  case isFalse => cases member
  case isTrue edge =>
    rw [named_apply] at member
    obtain ⟨⟨_, led⟩, ledMember, member⟩ := List.mem_flatMap.mp member
    obtain ⟨passed, passedMember, member⟩ := List.mem_flatMap.mp member
    obtain ⟨ended, endedMember, rfl⟩ := List.mem_map.mp member
    obtain ⟨lead, _, rfl⟩ := regular.leadLocal.advances cursor _ ledMember
    rw [chars_apply] at passedMember
    split at passedMember
    case isFalse => cases passedMember
    case isTrue begins =>
      obtain rfl := List.mem_singleton.mp passedMember
      dsimp only at endedMember ⊢
      rw [Cursor.advance_advance] at endedMember ⊢
      exact ⟨lead, ⟨edge, ledMember, begins, ended, endedMember⟩, rfl⟩

/-- An introducer of any name is one of the name that it finds. -/
theorem introduces_of_mem_identifier (regular : anatomy.Regular) {found : Stretch × Cursor}
    (member : found ∈ anatomy.introducer identifier cursor) :
    ∃ lead length, anatomy.Introduces ((cursor.after.drop lead).take length) cursor lead ∧
      found.1 = ⟨cursor.pos + lead, cursor.pos + (lead + length)⟩ := by
  rw [introducer_apply] at member
  split at member
  case isFalse => cases member
  case isTrue edge =>
    rw [named_apply] at member
    obtain ⟨⟨_, led⟩, ledMember, member⟩ := List.mem_flatMap.mp member
    obtain ⟨passed, passedMember, member⟩ := List.mem_flatMap.mp member
    obtain ⟨ended, endedMember, rfl⟩ := List.mem_map.mp member
    obtain ⟨lead, leadInside, rfl⟩ := regular.leadLocal.advances cursor _ ledMember
    obtain ⟨length, inside, _, rfl⟩ := mem_identifier.mp passedMember
    dsimp only at inside endedMember ⊢
    rw [Cursor.after_advance, List.length_drop] at inside
    rw [Cursor.advance_advance] at endedMember ⊢
    have taken : ((cursor.after.drop lead).take length).length = length := by
      rw [List.length_take, List.length_drop, Nat.min_eq_left inside]
    exact ⟨lead, length, ⟨edge, ledMember, List.take_prefix _ _, ended, taken.symm ▸ endedMember⟩, rfl⟩

namespace Introduces

theorem exists_mem (introduces : anatomy.Introduces name cursor lead) :
    ∃ found, found ∈ anatomy.introducer (chars name) cursor := by
  obtain ⟨ended, endedMember⟩ := introduces.trails
  rw [introducer_apply, if_pos introduces.edge, named_apply]
  refine ⟨_, List.mem_flatMap.mpr ⟨_, introduces.leads, List.mem_flatMap.mpr ⟨((), cursor.advance (lead + name.length)), ?_,
    List.mem_map.mpr ⟨ended, endedMember, rfl⟩⟩⟩⟩
  dsimp only
  rw [chars_apply, Cursor.after_advance, if_pos introduces.named, Cursor.advance_advance]
  exact List.mem_singleton_self _

theorem exists_start (introduces : anatomy.Introduces name cursor lead) (identifier : IsIdentifier name) :
    ∃ c, cursor.after[lead]? = some c ∧ isIdentifierStart c = true := by
  obtain ⟨c, rest, rfl, start, _⟩ := identifier
  have present := getElem?_of_prefix introduces.named (Nat.zero_lt_succ rest.length)
  rw [List.getElem?_drop] at present
  exact ⟨c, present, start⟩

end Introduces

/-- What leads to a name is settled by the text, and no other introducer of the name begins within. -/
structure Steady (anatomy : Anatomy) (name : List Char) : Prop where
  sameLead : ∀ {cursor lead other}, anatomy.Introduces name cursor lead → anatomy.Introduces name cursor other → lead = other
  clear : ∀ {cursor lead count other}, anatomy.Introduces name cursor lead → 0 < count → count < lead →
    ¬ anatomy.Introduces name (cursor.advance count) other

/-- The first introducer of a name is no later than any other. -/
theorem Steady.exists_firstHit? (steady : anatomy.Steady name) (regular : anatomy.Regular) {view : List Char} {start : Nat}
    (inside : start ≤ view.length) (introduces : anatomy.Introduces name ((Cursor.start view).advance start) lead) :
    ∃ hit, (anatomy.introducer (chars name)).firstHit? view = some hit ∧ hit.value.start ≤ start + lead := by
  obtain ⟨success, succeeds⟩ := introduces.exists_mem
  obtain ⟨hit, found, early⟩ := exists_search?_of_success inside succeeds
  refine ⟨hit, found, ?_⟩
  obtain ⟨first, _, startsAt, firstSuccess, member, value⟩ := exists_of_search? found
  obtain ⟨firstLead, introducesFirst, stretch⟩ := introduces_of_mem regular member
  rw [value, stretch]
  simp only [Cursor.pos_advance, Nat.zero_add] at early startsAt ⊢
  rcases Nat.lt_or_eq_of_le (startsAt ▸ early) with before | same
  · -- the name comes before the second introducer, which would begin in what leads to it otherwise
    have between : ((Cursor.start view).advance first).advance (start - first) = (Cursor.start view).advance start := by
      rw [Cursor.advance_advance, Nat.add_sub_cancel' (Nat.le_of_lt before)]
    have apart : ¬ start - first < firstLead := fun within =>
      steady.clear introducesFirst (Nat.sub_pos_of_lt before) within (between ▸ introduces)
    omega
  · subst same
    have sameLead := steady.sameLead introducesFirst introduces
    omega

/-! ## Introducers that begin with a word -/

structure WordedLead (anatomy : Anatomy) (words : List (List Char)) (accepts : Char → Bool) : Prop where
  edge : anatomy.edge = atWordEdge
  passes : ∀ cursor, ∀ led ∈ anatomy.lead cursor, ∃ word ∈ words, word <+: cursor.after ∧
    ∃ count, led.2 = cursor.advance (word.length + count) ∧
      ∀ c ∈ (cursor.after.drop word.length).take count, accepts c = true
  letters : ∀ word ∈ words, ∀ c ∈ word, isWordChar c = true
  begins : ∀ word ∈ words, ∃ c rest, word = c :: rest ∧ accepts c = false
  apart : ∀ first ∈ words, ∀ second ∈ words, first.head? = second.head? → first = second
  rejects : ∀ c, isIdentifierStart c = true → accepts c = false

theorem head?_of_prefix {first second text : List Char} (firstBegins : first <+: text) (secondBegins : second <+: text)
    (firstSome : first ≠ []) (secondSome : second ≠ []) : first.head? = second.head? := by
  obtain ⟨_, rfl⟩ := firstBegins
  obtain ⟨_, same⟩ := secondBegins
  cases first with
  | nil => exact absurd rfl firstSome
  | cons c others =>
      cases second with
      | nil => exact absurd rfl secondSome
      | cons d more => rw [(List.cons.inj same).1]; rfl

theorem WordedLead.steady {words : List (List Char)} {accepts : Char → Bool} (worded : anatomy.WordedLead words accepts)
    (identifier : IsIdentifier name) : anatomy.Steady name where
  sameLead {cursor lead other} introduces introducesOther := by
    obtain ⟨word, isWord, begins, count, leadEq, passes⟩ := worded.passes _ _ introduces.leads
    obtain ⟨word', isWord', begins', count', otherEq, passes'⟩ := worded.passes _ _ introducesOther.leads
    obtain ⟨first, rest, spelled, _⟩ := worded.begins word isWord
    obtain ⟨first', rest', spelled', _⟩ := worded.begins word' isWord'
    have sameHead := head?_of_prefix begins begins' (by simp [spelled]) (by simp [spelled'])
    obtain rfl := worded.apart word isWord word' isWord' sameHead
    obtain ⟨c, present, start⟩ := introduces.exists_start identifier
    obtain ⟨c', present', start'⟩ := introducesOther.exists_start identifier
    rw [count_eq_of_advance leadEq, ← List.getElem?_drop] at present
    rw [count_eq_of_advance otherEq, ← List.getElem?_drop] at present'
    rw [count_eq_of_advance leadEq, count_eq_of_advance otherEq,
      ← length_takeWhile_of_next passes present (worded.rejects c start),
      ← length_takeWhile_of_next passes' present' (worded.rejects c' start')]
  clear {cursor lead count other} introduces later within introducesOther := by
    obtain ⟨word, isWord, begins, run, leadEq, passes⟩ := worded.passes _ _ introduces.leads
    obtain ⟨word', isWord', begins', _⟩ := worded.passes _ _ introducesOther.leads
    obtain ⟨first, rest, rfl, rejected⟩ := worded.begins word' isWord'
    have here : cursor.after[count]? = some first := by
      have present := getElem?_of_prefix begins' (Nat.zero_lt_succ rest.length)
      rwa [Cursor.after_advance, List.getElem?_drop] at present
    have leadIs := count_eq_of_advance leadEq
    by_cases inWord : count < word.length
    · -- inside the word no edge of a word comes
      have previous := getElem?_of_prefix begins (show count - 1 < word.length by omega)
      have edge := introducesOther.edge
      rw [worded.edge, atWordEdge, head?_before_of_advance cursor later (begins.length_le.trans' inWord.le), previous,
        Cursor.after_advance, List.head?_drop, getElem?_of_prefix begins inWord, Option.any_some, Option.any_some,
        worded.letters word isWord _ (List.getElem_mem _), worded.letters word isWord _ (List.getElem_mem _)] at edge
      cases edge
    · have inRun : first ∈ (cursor.after.drop word.length).take run := by
        refine List.mem_of_getElem? (i := count - word.length) ?_
        rw [List.getElem?_take_of_lt (by omega), List.getElem?_drop, Nat.add_sub_cancel' (Nat.le_of_not_lt inWord), here]
      rw [passes first inRun] at rejected
      cases rejected

def isSpaceOrStar (c : Char) : Bool :=
  isSpace c || c == '*'

theorem wordedLead_function : ofFunction.WordedLead ["function".toList] isSpaceOrStar where
  edge := rfl
  passes cursor led member := by
    obtain ⟨middle, word, more⟩ := mem_bind.mp member
    rw [keyword_apply (by decide)] at word
    split at word
    case isFalse => cases word
    case isTrue begins =>
      obtain rfl := List.mem_singleton.mp word
      have spaces : PassesOnly isSpaceOrStar (many isSpace) := passesOnly_many fun c space => by simp [isSpaceOrStar, space]
      have star : PassesOnly isSpaceOrStar (Scan.optional (Scan.word "*")) :=
        .either (passesOnly_chars (List.all_eq_true.mp (by decide))) (passesOnly_pure ())
      have passes := spaces.bind fun _ => star.bind fun _ => spaces
      obtain ⟨count, ledEq, accepted⟩ := passes _ led more
      rw [Cursor.advance_advance] at ledEq
      exact ⟨_, List.mem_singleton_self _, begins.1, count, ledEq, accepted⟩
  letters := by simp [isWordChar, isAlphanumeric]
  begins := by
    intro word isWord
    obtain rfl := List.mem_singleton.mp isWord
    exact ⟨'f', "unction".toList, by decide, by decide⟩
  apart := by decide
  rejects c start := by
    have noStar : c ≠ '*' := by
      rintro rfl
      cases start
    simp [isSpaceOrStar, isSpace_of_isIdentifierStart start, noStar]

theorem wordedLead_binding : ofBinding.WordedLead ["const".toList, "let".toList, "var".toList] isSpace where
  edge := rfl
  passes cursor led member := by
    obtain ⟨middle, words, more⟩ := mem_bind.mp member
    have passes : PassesOnly isSpace (oneOrMore isSpace) :=
      (passesOnly_one fun _ space => space).bind fun _ => passesOnly_many fun _ space => space
    obtain ⟨count, ledEq, accepted⟩ := passes _ led more
    have spelled : ∃ word ∈ ["const".toList, "let".toList, "var".toList], word <+: cursor.after ∧
        middle = ((), cursor.advance word.length) := by
      rcases List.mem_append.mp words with isConst | others
      · exact ⟨_, by simp, mem_word.mp isConst⟩
      · rcases List.mem_append.mp others with isLet | isVar
        · exact ⟨_, by simp, mem_word.mp isLet⟩
        · exact ⟨_, by simp, mem_word.mp isVar⟩
    obtain ⟨word, isWord, begins, rfl⟩ := spelled
    rw [Cursor.advance_advance] at ledEq
    exact ⟨word, isWord, begins, count, ledEq, accepted⟩
  letters := by simp [isWordChar, isAlphanumeric]
  begins := by
    intro word isWord
    simp only [List.mem_cons, List.not_mem_nil, or_false] at isWord
    rcases isWord with rfl | rfl | rfl
    · exact ⟨'c', "onst".toList, by decide, by decide⟩
    · exact ⟨'l', "et".toList, by decide, by decide⟩
    · exact ⟨'v', "ar".toList, by decide, by decide⟩
  apart := by decide
  rejects _ start := isSpace_of_isIdentifierStart start

/-! ## Introducers at the beginning of a line -/

/-- What leads to a name from the beginning of a line is words and blanks, and behind the name comes a mark. -/
structure LinedLead (anatomy : Anatomy) (mark : Char) : Prop where
  edge : anatomy.edge = atLineStart
  passes : PassesOnly isWordOrBlank anatomy.lead
  trails : ∃ trail : Scan Unit, anatomy.trail = many isInlineBlank >>= fun _ => chars [mark] >>= fun _ => trail
  rejects : isWordOrBlank mark = false

/-- Up to the mark there are words and blanks only, and between the name and the mark only blanks. -/
theorem LinedLead.exists_blanks {mark : Char} (lined : anatomy.LinedLead mark) (identifier : IsIdentifier name)
    (introduces : anatomy.Introduces name cursor lead) :
    ∃ blanks, (cursor.after.takeWhile isWordOrBlank).length = lead + name.length + blanks ∧
      ∀ c ∈ (cursor.after.drop (lead + name.length)).take blanks, isInlineBlank c = true := by
  obtain ⟨ended, endedMember⟩ := introduces.trails
  obtain ⟨trail, spelled⟩ := lined.trails
  rw [spelled] at endedMember
  obtain ⟨middle, middleMember, marked⟩ := mem_bind.mp endedMember
  obtain ⟨blanks, _, inline, rfl⟩ := mem_many.mp middleMember
  obtain ⟨_, marks, _⟩ := mem_bind.mp marked
  rw [Cursor.after_advance] at inline
  refine ⟨blanks, length_takeWhile_of_next (c := mark) ?_ ?_ lined.rejects, inline⟩
  · obtain ⟨count, leadEq, leadPasses⟩ := lined.passes _ _ introduces.leads
    obtain rfl := count_eq_of_advance leadEq
    intro c isIn
    rw [List.take_add, List.take_add] at isIn
    rcases List.mem_append.mp isIn with earlier | isBlank
    · rcases List.mem_append.mp earlier with isLead | isName
      · exact leadPasses c isLead
      · rw [← List.prefix_iff_eq_take.mp introduces.named] at isName
        rw [isWordOrBlank, identifier.isIdentifierPart c isName, Bool.true_or]
    · exact isWordOrBlank_of_isInlineBlank c (inline c isBlank)
  · rw [chars_apply] at marks
    split at marks
    case isFalse => cases marks
    case isTrue begins =>
      have present := getElem?_of_prefix begins Nat.zero_lt_one
      rwa [Cursor.after_advance, Cursor.after_advance, List.drop_drop, List.getElem?_drop] at present

theorem LinedLead.not_lt {mark : Char} (lined : anatomy.LinedLead mark) (identifier : IsIdentifier name)
    (introduces : anatomy.Introduces name cursor lead) (introducesOther : anatomy.Introduces name cursor other) :
    ¬ lead < other := by
  intro earlier
  obtain ⟨blanks, ends, inline⟩ := lined.exists_blanks identifier introduces
  obtain ⟨blanks', ends', _⟩ := lined.exists_blanks identifier introducesOther
  have positive := length_pos_of_isIdentifier identifier
  -- the last character of the later name stands where only blanks are
  have last : cursor.after[other + (name.length - 1)]? = some (name[name.length - 1]) := by
    rw [← List.getElem?_drop]
    exact getElem?_of_prefix introducesOther.named (by omega)
  have isBlank : isInlineBlank name[name.length - 1] = true := by
    refine inline _ (List.mem_of_getElem? (i := other - 1 - lead) ?_)
    rw [List.getElem?_take_of_lt (by omega), List.getElem?_drop, ← last]
    congr 1
    omega
  have noPart := isIdentifierPart_of_isSpace (Removal.isSpace_of_isInlineBlank isBlank)
  rw [identifier.isIdentifierPart _ (List.getElem_mem _)] at noPart
  cases noPart

theorem LinedLead.steady {mark : Char} (lined : anatomy.LinedLead mark) (identifier : IsIdentifier name) :
    anatomy.Steady name where
  sameLead introduces introducesOther :=
    Nat.le_antisymm (Nat.le_of_not_lt (lined.not_lt identifier introducesOther introduces))
      (Nat.le_of_not_lt (lined.not_lt identifier introduces introducesOther))
  clear {cursor lead count other} introduces later within introducesOther := by
    obtain ⟨run, leadEq, passes⟩ := lined.passes _ _ introduces.leads
    obtain rfl := count_eq_of_advance leadEq
    obtain ⟨c, present, _⟩ := introduces.exists_start identifier
    obtain ⟨inside, _⟩ := List.getElem?_eq_some_iff.mp present
    have previous : cursor.after[count - 1]? = some cursor.after[count - 1] := List.getElem?_eq_getElem _
    have edge := introducesOther.edge
    rw [lined.edge, atLineStart, head?_before_of_advance cursor later (by omega), previous, Option.all_some,
      beq_iff_eq] at edge
    have passed := passes '\n' (edge ▸ List.mem_of_getElem? (i := count - 1) ?_)
    · cases passed
    · rw [List.getElem?_take_of_lt (by omega), previous]

theorem linedLead_property : ofProperty.LinedLead ':' where
  edge := rfl
  passes := passesOnly_blanks
  trails := ⟨_, rfl⟩
  rejects := by decide

theorem linedLead_method : ofMethod.LinedLead '(' where
  edge := rfl
  passes := passesOnly_blanks.bind fun _ => passesOnly_modifiers
  trails := ⟨_, rfl⟩
  rejects := by decide

theorem steady_of_mem_all {kind : DefinitionKind} (isOne : (kind, anatomy) ∈ all) (identifier : IsIdentifier name) :
    anatomy.Steady name := by
  simp only [all, List.mem_cons, List.not_mem_nil, or_false, Prod.mk.injEq] at isOne
  rcases isOne with ⟨_, rfl⟩ | ⟨_, rfl⟩ | ⟨_, rfl⟩ | ⟨_, rfl⟩
  · exact wordedLead_function.steady identifier
  · exact wordedLead_binding.steady identifier
  · exact linedLead_property.steady identifier
  · exact linedLead_method.steady identifier

end Anatomy

/-! ## The nearest introducer of a name -/

/-- An introducer of a name in a view, found where it begins: of none is the name earlier. -/
structure IsNearest (view : List Char) (name : String) (hit : Hit Stretch) : Prop where
  introduces : ∃ introducer ∈ introducers (chars name.toList), ∃ success ∈
    introducer.2 ((Cursor.start view).advance hit.start), success.1 = hit.value
  spelled : hit.value.of view = name.toList
  earliest : ∀ introducer ∈ introducers (chars name.toList), ∀ start ≤ view.length, ∀ success ∈
    introducer.2 ((Cursor.start view).advance start), hit.value.start ≤ success.1.start

theorem exists_anatomy_of_mem_introducers {name : Scan Unit} {introducer : DefinitionKind × Scan Stretch}
    (isOne : introducer ∈ introducers name) :
    ∃ anatomy, (introducer.1, anatomy) ∈ Anatomy.all ∧ introducer.2 = anatomy.introducer name := by
  rw [Anatomy.introducers_eq] at isOne
  obtain ⟨⟨kind, anatomy⟩, isListed, rfl⟩ := List.mem_map.mp isOne
  exact ⟨anatomy, isListed, rfl⟩

theorem Anatomy.mem_introducers {kind : DefinitionKind} {anatomy : Anatomy} (isOne : (kind, anatomy) ∈ Anatomy.all)
    (name : Scan Unit) : (kind, anatomy.introducer name) ∈ introducers name := by
  rw [Anatomy.introducers_eq]
  exact List.mem_map.mpr ⟨_, isOne, rfl⟩

theorem pos_advance_start (view : List Char) (start : Nat) : ((Cursor.start view).advance start).pos = start :=
  Nat.zero_add start

theorem of_stretch (view : List Char) (start lead length : Nat) :
    (⟨start + lead, start + (lead + length)⟩ : Stretch).of view =
      ((((Cursor.start view).advance start).after.drop lead).take length) := by
  rw [Stretch.of, Cursor.after_advance, List.drop_drop, ← Nat.add_assoc, ← List.take_drop]
  rfl

theorem exists_introduces_of_mem_introductions {view : List Char} {introduction : Introduction}
    (member : introduction ∈ introductions view) :
    ∃ kind anatomy, (kind, anatomy) ∈ Anatomy.all ∧ ∃ start ≤ view.length, ∃ lead,
      anatomy.Introduces introduction.name.toList ((Cursor.start view).advance start) lead ∧
        introduction.position = start + lead := by
  obtain ⟨listed, _⟩ := List.mem_filter.mp (mem_of_mem_claims member)
  obtain ⟨introducer, isOne, hits⟩ := List.mem_flatMap.mp listed
  obtain ⟨hit, hitMember, rfl⟩ := List.mem_map.mp hits
  obtain ⟨anatomy, isListed, same⟩ := exists_anatomy_of_mem_introducers isOne
  obtain ⟨start, inside, success, succeeds, rfl⟩ := exists_of_mem_hitsFrom (same ▸ hitMember)
  replace succeeds : success ∈ anatomy.introducer identifier ((Cursor.start view).advance start) := succeeds
  obtain ⟨lead, length, introduces, stretch⟩ :=
    Anatomy.introduces_of_mem_identifier (Anatomy.regular_of_mem_all isListed) succeeds
  rw [pos_advance_start] at stretch
  refine ⟨_, anatomy, isListed, start, inside, lead, ?_, congrArg Stretch.start stretch⟩
  rwa [String.toList_ofList, stretch, of_stretch]

/-- Where an introduction is listed, an introducer of its name finds it. -/
theorem exists_success_of_mem_introductions {view : List Char} {introduction : Introduction}
    (member : introduction ∈ introductions view) :
    ∃ introducer ∈ introducers (chars introduction.name.toList), ∃ start ≤ view.length, ∃ success ∈
      introducer.2 ((Cursor.start view).advance start), success.1.start = introduction.position := by
  obtain ⟨kind, anatomy, isListed, start, inside, lead, introduces, position⟩ :=
    exists_introduces_of_mem_introductions member
  obtain ⟨success, succeeds⟩ := introduces.exists_mem
  refine ⟨_, Anatomy.mem_introducers isListed _, start, inside, success, succeeds, ?_⟩
  obtain ⟨other, introducesOther, stretch⟩ := Anatomy.introduces_of_mem (Anatomy.regular_of_mem_all isListed) succeeds
  have steady := Anatomy.steady_of_mem_all isListed (isIdentifier_of_mem_introductions member)
  rw [stretch, pos_advance_start, steady.sameLead introducesOther introduces, position]

end Source

namespace Removal

variable {view : List Char} {name : String} {best : Option (Hit Stretch)} {hit found : Hit Stretch}

theorem exists_nearer_of_found {introducer : DefinitionKind × Scan Stretch} (isFound : introducer.2.firstHit? view = some found)
    (best : Option (Hit Stretch)) : ∃ hit, nearer view best introducer = some hit ∧ hit.value.start ≤ found.value.start := by
  unfold nearer
  rw [isFound]
  cases best with
  | none => exact ⟨found, rfl, Nat.le_refl _⟩
  | some earlier =>
      dsimp only
      split
      case isTrue => exact ⟨found, rfl, Nat.le_refl _⟩
      case isFalse notBefore => exact ⟨earlier, rfl, Nat.le_of_not_lt notBefore⟩

theorem exists_nearer_of_best (isBest : best = some found) (introducer : DefinitionKind × Scan Stretch) :
    ∃ hit, nearer view best introducer = some hit ∧ hit.value.start ≤ found.value.start := by
  subst isBest
  unfold nearer
  cases introducer.2.firstHit? view with
  | none => exact ⟨found, rfl, Nat.le_refl _⟩
  | some other =>
      dsimp only
      split
      case isTrue before => exact ⟨other, rfl, Nat.le_of_lt before⟩
      case isFalse => exact ⟨found, rfl, Nat.le_refl _⟩

theorem exists_foldl_nearer_of_best (listed : List (DefinitionKind × Scan Stretch)) (isBest : best = some found) :
    ∃ hit, listed.foldl (nearer view) best = some hit ∧ hit.value.start ≤ found.value.start := by
  induction listed generalizing best found with
  | nil => exact ⟨found, isBest, Nat.le_refl _⟩
  | cons introducer rest inductionHypothesis =>
      obtain ⟨nearest, chosen, early⟩ := exists_nearer_of_best isBest introducer
      obtain ⟨hit, final, earlier⟩ := inductionHypothesis chosen
      exact ⟨hit, final, Nat.le_trans earlier early⟩

theorem exists_foldl_nearer_of_found (best : Option (Hit Stretch)) {listed : List (DefinitionKind × Scan Stretch)}
    {introducer : DefinitionKind × Scan Stretch} (isOne : introducer ∈ listed)
    (isFound : introducer.2.firstHit? view = some found) :
    ∃ hit, listed.foldl (nearer view) best = some hit ∧ hit.value.start ≤ found.value.start := by
  induction listed generalizing best with
  | nil => cases isOne
  | cons first rest inductionHypothesis =>
      rcases List.mem_cons.mp isOne with rfl | isLater
      · obtain ⟨nearest, chosen, early⟩ := exists_nearer_of_found isFound best
        obtain ⟨hit, final, earlier⟩ := exists_foldl_nearer_of_best rest chosen
        exact ⟨hit, final, Nat.le_trans earlier early⟩
      · exact inductionHypothesis _ isLater

/-- Where any introducer of a name succeeds, the first one of it is found, and no later. -/
theorem exists_firstIntroducer?_of_success (identifier : IsIdentifier name.toList)
    {introducer : DefinitionKind × Scan Stretch} (isOne : introducer ∈ introducers (chars name.toList)) {start : Nat}
    (inside : start ≤ view.length) {success : Stretch × Cursor}
    (succeeds : success ∈ introducer.2 ((Cursor.start view).advance start)) :
    ∃ hit, firstIntroducer? view name = some hit ∧ hit.value.start ≤ success.1.start := by
  obtain ⟨anatomy, isListed, same⟩ := exists_anatomy_of_mem_introducers isOne
  have regular := Anatomy.regular_of_mem_all isListed
  rw [same] at succeeds
  obtain ⟨lead, introduces, stretch⟩ := Anatomy.introduces_of_mem regular succeeds
  obtain ⟨first, isFirst, early⟩ :=
    (Anatomy.steady_of_mem_all isListed identifier).exists_firstHit? regular inside introduces
  obtain ⟨hit, chosen, earlier⟩ := exists_foldl_nearer_of_found none isOne (same ▸ isFirst)
  refine ⟨hit, chosen, Nat.le_trans earlier ?_⟩
  rwa [stretch, pos_advance_start]

theorem exists_introduces_of_firstIntroducer? (chosen : firstIntroducer? view name = some hit) :
    ∃ kind anatomy, (kind, anatomy) ∈ Anatomy.all ∧ ∃ lead,
      anatomy.Introduces name.toList ((Cursor.start view).advance hit.start) lead ∧
        hit.value = ⟨hit.start + lead, hit.start + (lead + name.toList.length)⟩ := by
  rcases foldl_nearer_eq_some (firstIntroducer?_eq view name ▸ chosen) with none | ⟨introducer, isOne, isFirst⟩
  · cases none
  obtain ⟨start, _, starts, success, succeeds, value⟩ := exists_of_search? isFirst
  obtain ⟨anatomy, isListed, same⟩ := exists_anatomy_of_mem_introducers isOne
  rw [Nat.zero_add] at starts
  subst starts
  replace succeeds : success ∈ anatomy.introducer (chars name.toList) ((Cursor.start view).advance hit.start) :=
    same ▸ succeeds
  obtain ⟨lead, introduces, stretch⟩ := Anatomy.introduces_of_mem (Anatomy.regular_of_mem_all isListed) succeeds
  exact ⟨_, anatomy, isListed, lead, introduces, by rw [value, stretch, pos_advance_start]⟩

theorem isNearest_of_firstIntroducer? (identifier : IsIdentifier name.toList) (chosen : firstIntroducer? view name = some hit) :
    IsNearest view name hit := by
  obtain ⟨kind, anatomy, isListed, lead, introduces, value⟩ := exists_introduces_of_firstIntroducer? chosen
  refine ⟨?_, ?_, ?_⟩
  · obtain ⟨success, succeeds⟩ := introduces.exists_mem
    obtain ⟨other, introducesOther, stretch⟩ := Anatomy.introduces_of_mem (Anatomy.regular_of_mem_all isListed) succeeds
    have sameLead := (Anatomy.steady_of_mem_all isListed identifier).sameLead introduces introducesOther
    refine ⟨_, Anatomy.mem_introducers isListed _, success, succeeds, ?_⟩
    rw [stretch, value, pos_advance_start, sameLead]
  · rw [value, of_stretch]
    exact (List.prefix_iff_eq_take.mp introduces.named).symm
  · intro introducer isOne start inside success succeeds
    obtain ⟨nearest, same, early⟩ := exists_firstIntroducer?_of_success identifier isOne inside succeeds
    obtain rfl := Option.some.inj (chosen.symm.trans same)
    exact early

/-- A span covers what introduces the name, and there is one unless the body behind the introducer does not end. -/
theorem locate?_of_firstIntroducer? {isPage : Bool} {text : List Char}
    (chosen : firstIntroducer? (searchView isPage text) name = some hit) :
    (locate? isPage name text = none ↔ Unended (searchView isPage text) hit.value.stop) ∧
      ∀ span, locate? isPage name text = some span → span.start ≤ hit.value.start ∧ hit.value.stop ≤ span.stop := by
  constructor
  · rw [unended_iff, locate?, chosen, Option.bind_some, Option.map_eq_none_iff]
  · intro span located
    rw [locate?, chosen, Option.bind_some] at located
    obtain ⟨bodyEnd, ends, rfl⟩ := Option.map_eq_some_iff.mp located
    obtain ⟨_, _, _, lead, _, value⟩ := exists_introduces_of_firstIntroducer? chosen
    have start := overDocComment_le text (searchView isPage text) (toLineStart text hit.start)
    have lineStart := toLineStart_le text hit.start
    have nameInside := (firstIntroducer?_bounds chosen).2
    obtain ⟨bodyAfterName, bodyInside⟩ := bodyFrom_bounds ends
    rw [List.length_drop, (shows_searchView isPage text).length_eq] at bodyInside
    rw [(shows_searchView isPage text).length_eq] at nameInside
    have stop := (overTerminator_bounds (show bodyEnd ≤ text.length by omega)).1
    rw [value] at bodyAfterName ⊢
    dsimp only at bodyAfterName ⊢
    omega

end Removal
end Deadwood
