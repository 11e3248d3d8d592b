import Deadwood.Proofs.ChainCalls

/-!
# Chains of remote calls

A remote call is a chain on the object that stands for the remote side: calls that say what happens to a result, and then the
call of the remote function. Wherever such an object occurs, its chain is read, however long it is.
-/

set_option autoImplicit false
namespace Deadwood.Source

open Deadwood.Text Scan

/-! ## Objects that stand for the remote side -/

/-- Parts in order with a dot between each two, and white space around the dots. -/
inductive SpellsDotted : List (List Char) → List Char → Prop
  | last (part : List Char) : SpellsDotted [part] part
  | dot (part : List Char) {next : List Char} {parts : List (List Char)} {before after rest : List Char}
      (spaceBefore : ∀ c ∈ before, isSpace c = true) (spaceAfter : ∀ c ∈ after, isSpace c = true)
      (spells : SpellsDotted (next :: parts) rest) :
      SpellsDotted (part :: next :: parts) (part ++ (before ++ '.' :: (after ++ rest)))

/-- Two parts may be spelled without white space in between. -/
theorem SpellsDotted.joined (part : List Char) {next : List Char} {parts : List (List Char)} {rest : List Char}
    (spells : SpellsDotted (next :: parts) rest) : SpellsDotted (part :: next :: parts) (part ++ '.' :: rest) :=
  @dot part next parts [] [] rest nofun nofun spells

theorem Cursor.after_advance_of_append {cursor : Cursor} {front back : List Char} (parts : cursor.after = front ++ back) :
    (cursor.advance front.length).after = back := by
  rw [Cursor.after_advance, parts, List.drop_left]

theorem mem_chars_iff_append {word : List Char} {cursor : Cursor} {found : Unit × Cursor} : found ∈ chars word cursor ↔
    ∃ rest, cursor.after = word ++ rest ∧ found = ((), cursor.advance word.length) := by
  rw [chars_apply]
  constructor
  · intro member
    split at member
    · rename_i begins
      obtain ⟨rest, parts⟩ := begins
      exact ⟨rest, parts.symm, List.mem_singleton.mp member⟩
    · cases member
  · rintro ⟨rest, parts, rfl⟩
    rw [if_pos ⟨rest, parts.symm⟩]
    exact List.mem_singleton_self _

theorem mem_many_iff_append {accepts : Char → Bool} {cursor : Cursor} {found : Unit × Cursor} : found ∈ many accepts cursor ↔
    ∃ run rest, cursor.after = run ++ rest ∧ (∀ c ∈ run, accepts c = true) ∧ found = ((), cursor.advance run.length) := by
  rw [mem_many]
  constructor
  · rintro ⟨count, inside, accepted, rfl⟩
    refine ⟨cursor.after.take count, cursor.after.drop count, (List.take_append_drop _ _).symm, accepted, ?_⟩
    rw [List.length_take, Nat.min_eq_left inside]
  · rintro ⟨run, rest, parts, accepted, rfl⟩
    rw [parts]
    exact ⟨run.length, by simp, by rwa [List.take_left], rfl⟩

theorem dottedScan_cons_cons (part next : List Char) (parts : List (List Char)) :
    dottedScan (part :: next :: parts) =
      (chars part >>= fun _ => many isSpace >>= fun _ => chars ['.'] >>= fun _ => many isSpace >>= fun _ =>
        dottedScan (next :: parts)) :=
  rfl

theorem mem_dottedScan {part : List Char} {parts : List (List Char)} {cursor : Cursor} {found : Unit × Cursor} :
    found ∈ dottedScan (part :: parts) cursor ↔ ∃ spelled rest, SpellsDotted (part :: parts) spelled ∧
      cursor.after = spelled ++ rest ∧ found = ((), cursor.advance spelled.length) := by
  induction parts generalizing part cursor with
  | nil =>
      rw [dottedScan, mem_chars_iff_append]
      constructor
      · rintro ⟨rest, parts, same⟩
        exact ⟨part, rest, .last part, parts, same⟩
      · rintro ⟨_, rest, ⟨⟩, parts, same⟩
        exact ⟨rest, parts, same⟩
  | cons next parts inductionHypothesis =>
      rw [dottedScan_cons_cons]
      simp only [mem_bind, mem_chars_iff_append, mem_many_iff_append, inductionHypothesis]
      constructor
      · rintro ⟨_, ⟨_, afterPart, rfl⟩, _, ⟨before, _, afterBefore, spaceBefore, rfl⟩, _, ⟨_, afterDot, rfl⟩, _,
          ⟨after, _, afterAfter, spaceAfter, rfl⟩, spelled, rest, spells, afterSpelled, rfl⟩
        rw [Cursor.after_advance_of_append afterPart] at afterBefore
        subst afterBefore
        have behindPart := Cursor.after_advance_of_append afterPart
        rw [Cursor.after_advance_of_append behindPart] at afterDot
        subst afterDot
        have behindDot := Cursor.after_advance_of_append (Cursor.after_advance_of_append behindPart)
        rw [behindDot] at afterAfter
        subst afterAfter
        rw [Cursor.after_advance_of_append behindDot] at afterSpelled
        subst afterSpelled
        refine ⟨_, rest, .dot part spaceBefore spaceAfter spells, by simpa using afterPart, ?_⟩
        simp only [Cursor.advance_advance, List.length_append, List.length_cons, List.length_nil]
        congr 2
        omega
      · rintro ⟨_, rest, @⟨⟩ | @⟨_, _, _, before, after, spelled, spaceBefore, spaceAfter, spells⟩, parts, rfl⟩
        have afterPart : cursor.after = part ++ (before ++ (['.'] ++ (after ++ (spelled ++ rest)))) := by simpa using parts
        have afterBefore := Cursor.after_advance_of_append afterPart
        have afterDot := Cursor.after_advance_of_append afterBefore
        have afterAfter := Cursor.after_advance_of_append afterDot
        have afterSpelled := Cursor.after_advance_of_append afterAfter
        refine ⟨_, ⟨_, afterPart, rfl⟩, _, ⟨before, _, afterBefore, spaceBefore, rfl⟩, _, ⟨_, afterDot, rfl⟩, _,
          ⟨after, _, afterAfter, spaceAfter, rfl⟩, spelled, rest, spells, afterSpelled, ?_⟩
        simp only [Cursor.advance_advance, List.length_append, List.length_cons, List.length_nil]
        congr 2
        omega

/-! ### The success that is preferred -/

section

variable {α β : Type}

/-- Successes that are among others, the preferred one being preferred among those as well. -/
structure Within (part whole : List α) : Prop where
  subset : part ⊆ whole
  first : ∀ preferred, part.head? = some preferred → whole.head? = some preferred

theorem Within.refl (whole : List α) : Within whole whole :=
  ⟨List.Subset.refl whole, fun _ => id⟩

theorem Within.flatMap {list : List β} {next : β → List α} {whole : List α} (within : ∀ each ∈ list, Within (next each) whole) :
    Within (list.flatMap next) whole where
  subset _ member := by
    obtain ⟨each, listed, found⟩ := List.mem_flatMap.mp member
    exact (within each listed).subset found
  first preferred isFirst := by
    rw [List.head?_flatMap] at isFirst
    obtain ⟨each, listed, here⟩ := List.exists_of_findSome?_eq_some isFirst
    exact (within each listed).first preferred here

def PrefersFar (scan : Scan α) : Prop :=
  ∀ cursor, ∀ found ∈ scan cursor, ∀ first, scan.first? cursor = some first → found.2.pos ≤ first.2.pos

theorem PrefersFar.of_within {scan target : Scan α} (far : PrefersFar target)
    (within : ∀ cursor, ∃ later, Within (scan cursor) (target later)) : PrefersFar scan := by
  intro cursor found member first isFirst
  obtain ⟨later, inTarget⟩ := within cursor
  exact far later found (inTarget.subset member) first (inTarget.first first isFirst)

theorem prefersFar_chars (word : List Char) : PrefersFar (chars word) := by
  intro cursor found member first isFirst
  obtain ⟨_, _, rfl⟩ := mem_chars_iff_append.mp member
  obtain ⟨_, _, rfl⟩ := mem_chars_iff_append.mp (List.mem_of_head? isFirst)
  exact Nat.le_refl _

theorem prefersFar_spaces_chars (word : List Char) : PrefersFar (many isSpace >>= fun _ => chars word) := by
  intro cursor found member first isFirst
  have descends : ((many isSpace >>= fun _ => chars word) cursor).Pairwise fun earlier later => later.2.pos ≤ earlier.2.pos := by
    rw [bind_apply, many_apply, List.flatMap_map]
    refine List.pairwise_flatMap.mpr ⟨fun count _ => ?_, List.pairwise_reverse.mpr (List.pairwise_lt_range.imp ?_)⟩
    · rw [chars_apply]
      split
      · exact List.pairwise_singleton _ _
      · exact .nil
    · intro nearer further ordered success atFurther other atNearer
      obtain ⟨_, _, rfl⟩ := mem_chars_iff_append.mp atFurther
      obtain ⟨_, _, rfl⟩ := mem_chars_iff_append.mp atNearer
      simp only [Cursor.pos_advance]
      omega
  rw [first?] at isFirst
  obtain ⟨others, whole⟩ := List.head?_eq_some_iff.mp isFirst
  rw [whole] at member descends
  rcases List.mem_cons.mp member with rfl | later
  · exact Nat.le_refl _
  · exact (List.pairwise_cons.mp descends).1 found later

end

def dotAt (text : List Char) : Nat :=
  (text.takeWhile (· != '.')).length

theorem dotAt_append {front : List Char} (noDot : '.' ∉ front) (back : List Char) :
    dotAt (front ++ back) = front.length + dotAt back := by
  have passes : ∀ c ∈ front, (c != '.') = true := fun c member => bne_iff_ne.mpr fun isDot => noDot (isDot ▸ member)
  rw [dotAt, List.takeWhile_append_of_pos passes, List.length_append, dotAt]

theorem dot_not_mem_of_isSpace {spaces : List Char} (space : ∀ c ∈ spaces, isSpace c = true) : '.' ∉ spaces := fun member => by
  cases space _ member

/-- A part with a dot behind it leads to what comes behind the first dot. -/
theorem within_dottedScan {part : List Char} (next : List Char) (parts : List (List Char)) (noDot : '.' ∉ part) (cursor : Cursor) :
    Within (dottedScan (part :: next :: parts) cursor)
      ((many isSpace >>= fun _ => dottedScan (next :: parts)) (cursor.advance (dotAt cursor.after + 1))) := by
  rw [dottedScan_cons_cons]
  refine .flatMap fun _ passes => .flatMap fun _ spaces => .flatMap fun _ dot => ?_
  obtain ⟨_, afterPart, rfl⟩ := mem_chars_iff_append.mp passes
  obtain ⟨before, _, afterBefore, spaceBefore, rfl⟩ := mem_many_iff_append.mp spaces
  obtain ⟨_, afterDot, rfl⟩ := mem_chars_iff_append.mp dot
  rw [Cursor.after_advance_of_append afterPart] at afterBefore
  subst afterBefore
  rw [Cursor.after_advance_of_append (Cursor.after_advance_of_append afterPart)] at afterDot
  subst afterDot
  have place : dotAt cursor.after = part.length + before.length := by
    rw [afterPart, dotAt_append noDot, dotAt_append (dot_not_mem_of_isSpace spaceBefore)]
    rfl
  rw [place, Cursor.advance_advance, Cursor.advance_advance]
  exact .refl _

theorem prefersFar_dottedScan {part : List Char} {parts : List (List Char)} (noDot : ∀ part' ∈ part :: parts, '.' ∉ part') :
    PrefersFar (dottedScan (part :: parts)) := by
  have afterSpaces : ∀ {part : List Char} {parts : List (List Char)}, (∀ part' ∈ part :: parts, '.' ∉ part') →
      PrefersFar (many isSpace >>= fun _ => dottedScan (part :: parts)) := by
    intro part parts noDot
    induction parts generalizing part with
    | nil => exact prefersFar_spaces_chars part
    | cons next parts inductionHypothesis =>
        refine (inductionHypothesis fun each member => noDot each (List.mem_cons_of_mem _ member)).of_within fun cursor => ?_
        refine ⟨cursor.advance (dotAt cursor.after + 1), .flatMap fun _ passes => ?_⟩
        obtain ⟨spaces, _, afterSpaces, space, rfl⟩ := mem_many_iff_append.mp passes
        have within := within_dottedScan next parts (noDot part List.mem_cons_self) (cursor.advance spaces.length)
        rw [Cursor.after_advance_of_append afterSpaces, Cursor.advance_advance] at within
        rwa [afterSpaces, dotAt_append (dot_not_mem_of_isSpace space), Nat.add_assoc]
  cases parts with
  | nil => exact prefersFar_chars part
  | cons next parts =>
      exact (afterSpaces fun each member => noDot each (List.mem_cons_of_mem _ member)).of_within fun cursor =>
        ⟨_, within_dottedScan next parts (noDot part List.mem_cons_self) cursor⟩

/-! ### Occurrences -/

theorem exists_dottedParts (current text : List Char) : ∃ part parts, dottedParts current text = part :: parts := by
  induction text generalizing current with
  | nil => exact ⟨_, _, rfl⟩
  | cons c rest inductionHypothesis =>
      rw [dottedParts]
      split
      · exact ⟨_, _, rfl⟩
      · exact inductionHypothesis _

theorem dot_not_mem_dottedParts {current text : List Char} (noDot : '.' ∉ current) :
    ∀ part ∈ dottedParts current text, '.' ∉ part := by
  induction text generalizing current with
  | nil => simpa [dottedParts] using noDot
  | cons c rest inductionHypothesis =>
      intro part member
      rw [dottedParts] at member
      split at member
      · rcases List.mem_cons.mp member with rfl | later
        · rwa [List.mem_reverse]
        · exact inductionHypothesis List.not_mem_nil part later
      · rename_i notDot
        refine inductionHypothesis (fun isDot => ?_) part member
        rcases List.mem_cons.mp isDot with rfl | early
        · exact notDot rfl
        · exact noDot early

/-- A spelling holds as many dots as stand between its parts. -/
theorem SpellsDotted.count_dot {parts : List (List Char)} {spelled : List Char} (spells : SpellsDotted parts spelled)
    (noDot : ∀ part ∈ parts, '.' ∉ part) : spelled.count '.' + 1 = parts.length := by
  induction spells with
  | last part => rw [List.count_eq_zero_of_not_mem (noDot part List.mem_cons_self)]; rfl
  | dot part spaceBefore spaceAfter _ inductionHypothesis =>
      have later := inductionHypothesis fun each member => noDot each (List.mem_cons_of_mem _ member)
      rw [List.count_append, List.count_append, List.count_cons_self, List.count_append,
        List.count_eq_zero_of_not_mem (noDot part List.mem_cons_self),
        List.count_eq_zero_of_not_mem (dot_not_mem_of_isSpace spaceBefore),
        List.count_eq_zero_of_not_mem (dot_not_mem_of_isSpace spaceAfter), List.length_cons, ← later]
      omega

theorem SpellsDotted.begins {part : List Char} {parts : List (List Char)} {spelled : List Char}
    (spells : SpellsDotted (part :: parts) spelled) : part <+: spelled := by
  cases spells with
  | last => exact List.prefix_refl _
  | dot => exact List.prefix_append _ _

/-- Behind a part that is not the last comes a character that belongs to no identifier. -/
theorem SpellsDotted.exists_behind {part next : List Char} {parts : List (List Char)} {spelled : List Char}
    (spells : SpellsDotted (part :: next :: parts) spelled) :
    ∃ c, spelled[part.length]? = some c ∧ isIdentifierPart c = false := by
  cases spells with
  | @dot _ _ _ before after rest spaceBefore _ _ =>
      cases before with
      | nil => exact ⟨'.', by simp, by decide⟩
      | cons c others => exact ⟨c, by simp, isIdentifierPart_of_isSpace (spaceBefore c List.mem_cons_self)⟩

/-- Where a spelling of identifiers comes from a character of none to the beginning of one, another part than the first begins. -/
theorem SpellsDotted.exists_part {parts : List (List Char)} {spelled : List Char} (spells : SpellsDotted parts spelled)
    (identifiers : ∀ part ∈ parts, IsIdentifier part) {place : Nat} {previous c : Char} (before : spelled[place]? = some previous)
    (apart : isIdentifierPart previous = false) (here : spelled[place + 1]? = some c) (start : isIdentifierStart c = true) :
    ∃ part ∈ parts.tail, part <+: spelled.drop (place + 1) := by
  have notInPart {part : List Char} (identifier : IsIdentifier part) {place : Nat} (stands : part[place]? = some previous) :
      False := by
    rw [identifier.isIdentifierPart _ (List.mem_of_getElem? stands)] at apart
    cases apart
  induction spells generalizing place with
  | last part => exact (notInPart (identifiers part List.mem_cons_self) before).elim
  | @dot part next parts spaces more rest spaceBefore spaceAfter spells inductionHypothesis =>
      have notInGap : ∀ d ∈ spaces ++ '.' :: more, isIdentifierStart d = false := by
        intro d member
        rw [List.mem_append, List.mem_cons] at member
        rw [← Bool.not_eq_true]
        intro starts
        have visible := isSpace_of_isIdentifierStart starts
        rcases member with member | rfl | member
        · rw [spaceBefore d member] at visible
          cases visible
        · cases starts
        · rw [spaceAfter d member] at visible
          cases visible
      have whole : part ++ (spaces ++ '.' :: (more ++ rest)) = part ++ ((spaces ++ '.' :: more) ++ rest) := by simp
      generalize spaces ++ '.' :: more = gap at notInGap whole
      rw [whole] at before here ⊢
      by_cases inPart : place < part.length
      · rw [List.getElem?_append_left inPart] at before
        exact (notInPart (identifiers part List.mem_cons_self) before).elim
      · by_cases inGap : place + 1 < part.length + gap.length
        · rw [List.getElem?_append_right (by omega), List.getElem?_append_left (by omega)] at here
          rw [notInGap c (List.mem_of_getElem? here)] at start
          cases start
        · have behind : (part ++ (gap ++ rest)).drop (place + 1) = rest.drop (place + 1 - (part.length + gap.length)) := by
            rw [← List.append_assoc, List.drop_append, List.drop_of_length_le (by rw [List.length_append]; omega),
              List.nil_append, List.length_append]
          rw [behind]
          rcases Nat.eq_or_lt_of_le (Nat.le_of_not_lt inGap) with atNext | inRest
          · rw [← atNext, Nat.sub_self, List.drop_zero]
            exact ⟨next, List.mem_cons_self, spells.begins⟩
          · rw [List.getElem?_append_right (by omega), List.getElem?_append_right (by omega)] at before here
            have next : place + 1 - part.length - gap.length = place - part.length - gap.length + 1 := by omega
            rw [next] at here
            rw [← Nat.sub_sub, next]
            obtain ⟨other, member, begins⟩ :=
              inductionHypothesis (fun each member => identifiers each (List.mem_cons_of_mem _ member)) before here
            exact ⟨other, List.mem_cons_of_mem _ member, begins⟩

/-- An object is spelled in a text, neither as part of a longer name nor as a member. -/
structure Occurrence (object : String) (text : List Char) where
  before : List Char
  spelled : List Char
  after : List Char
  whole : text = before ++ (spelled ++ after)
  spells : SpellsDotted (dottedParts [] object.toList) spelled
  apart : ∀ c, before.getLast? = some c → isIdentifierPart c = false ∧ c ≠ '.'

/-- A plain object consists of identifiers, and its first part begins with none of the others. -/
structure PlainObject (object : String) : Prop where
  identifiers : ∀ part ∈ dottedParts [] object.toList, IsIdentifier part
  distinct : ∀ first others, dottedParts [] object.toList = first :: others → ∀ other ∈ others, ¬ other <+: first

theorem bridgeObject_apply (object : String) (cursor : Cursor) : bridgeObject object cursor =
    if cursor.before.head?.any (fun c => isIdentifierPart c || c == '.') then []
    else dottedScan (dottedParts [] object.toList) cursor := by
  rw [bridgeObject, bind_apply, Scan.notAfter, check]
  cases cursor.before.head?.any fun c => isIdentifierPart c || c == '.'
  · simp
  · rfl

/-- Text without a dot at the beginning of what comes up to a dot is blank if that is. -/
theorem dropWhile_isBlank_of_noDot {extra rest more : List Char} (noDot : '.' ∉ extra)
    (leads : (extra ++ rest).dropWhile isBlank = '.' :: more) : rest.dropWhile isBlank = '.' :: more := by
  induction extra with
  | nil => exact leads
  | cons c extra inductionHypothesis =>
      rw [List.cons_append, List.dropWhile_cons] at leads
      split at leads
      · exact inductionHypothesis (fun member => noDot (List.mem_cons_of_mem _ member)) leads
      · exact absurd (List.mem_cons_self) ((List.cons.inj leads).1 ▸ noDot)

namespace Occurrence

variable {object : String} {text : List Char} (occurrence : Occurrence object text)

def offset : Nat :=
  occurrence.before.length

theorem after_advance : ((Cursor.start text).advance occurrence.offset).after = occurrence.spelled ++ occurrence.after :=
  Cursor.after_advance_of_append occurrence.whole

theorem take_offset : text.take occurrence.offset = occurrence.before :=
  (congrArg (List.take _) occurrence.whole).trans List.take_left

theorem offset_le : occurrence.offset ≤ text.length :=
  Nat.le_trans (Nat.le_add_right _ _) (Nat.le_of_eq ((congrArg List.length occurrence.whole).trans List.length_append).symm)

theorem getLast?_before (some : 0 < occurrence.offset) : occurrence.before.getLast? = text[occurrence.offset - 1]? := by
  have whole := congrArg (fun text : List Char => text[occurrence.offset - 1]?) occurrence.whole
  rw [List.getLast?_eq_getElem?, ← List.getElem?_append_left (Nat.sub_lt some Nat.one_pos)]
  exact whole.symm

theorem bridgeObject_offset : bridgeObject object ((Cursor.start text).advance occurrence.offset) =
    dottedScan (dottedParts [] object.toList) ((Cursor.start text).advance occurrence.offset) := by
  have before : ((Cursor.start text).advance occurrence.offset).before.head? = occurrence.before.getLast? := by
    simp [Cursor.advance, Cursor.start, occurrence.take_offset]
  rw [bridgeObject_apply, if_neg]
  rw [before]
  cases last : occurrence.before.getLast? with
  | none => decide
  | some c => simpa using occurrence.apart c last

/-- A chain behind an object is read from the end of a hit that begins with the object, unless another hit goes on there. -/
theorem exists_hit_or_covered {more : List Char} (leads : occurrence.after.dropWhile isBlank = '.' :: more) :
    (∃ hit ∈ (bridgeObject object).hits text, hit.start = occurrence.offset ∧
        (text.drop hit.stop).dropWhile isBlank = '.' :: more) ∨
      ∃ hit ∈ (bridgeObject object).hits text, hit.start < occurrence.offset ∧ occurrence.offset < hit.stop := by
  obtain ⟨part, parts, isObject⟩ := exists_dottedParts [] object.toList
  have noDot : ∀ part ∈ dottedParts [] object.toList, '.' ∉ part := dot_not_mem_dottedParts List.not_mem_nil
  have spells := occurrence.spells
  have finds := occurrence.bridgeObject_offset
  rw [isObject] at noDot spells finds
  have here : ((), ((Cursor.start text).advance occurrence.offset).advance occurrence.spelled.length) ∈
      dottedScan (part :: parts) ((Cursor.start text).advance occurrence.offset) :=
    mem_dottedScan.mpr ⟨_, _, spells, occurrence.after_advance, rfl⟩
  obtain ⟨success, first⟩ : ∃ success,
      (bridgeObject object).first? ((Cursor.start text).advance occurrence.offset) = some success := by
    rw [first?, finds]
    exact Option.isSome_iff_exists.mp (List.isSome_head?.mpr (List.ne_nil_of_mem here))
  rcases mem_hitsFrom_or_covered occurrence.offset_le (Nat.zero_le _) first with member | ⟨hit, member, covered⟩
  · refine Or.inl ⟨_, member, Nat.zero_add _, ?_⟩
    rw [first?, finds] at first
    -- the success that is preferred goes at least as far, and over no dot
    have far := prefersFar_dottedScan noDot _ _ here _ first
    obtain ⟨spelled, rest, spellsFirst, afterFirst, rfl⟩ := mem_dottedScan.mp (List.mem_of_head? first)
    have begins : occurrence.spelled <+: spelled := by
      refine List.prefix_of_prefix_length_le ⟨occurrence.after, occurrence.after_advance.symm⟩ ⟨rest, afterFirst.symm⟩ ?_
      simpa only [Cursor.pos_advance, Nat.add_le_add_iff_left] using far
    obtain ⟨extra, rfl⟩ := begins
    have parts : occurrence.after = extra ++ rest := by
      rw [occurrence.after_advance, List.append_assoc] at afterFirst
      exact List.append_cancel_left afterFirst
    have noDotExtra : '.' ∉ extra := by
      have one := spells.count_dot noDot
      have other := spellsFirst.count_dot noDot
      rw [List.count_append] at other
      exact List.count_eq_zero.mp (by omega)
    have behind : text.drop (((Cursor.start text).advance occurrence.offset).advance (occurrence.spelled ++ extra).length).pos =
        rest := by
      rw [← Cursor.after_advance_of_append afterFirst, Cursor.advance_advance, Cursor.pos_advance, Cursor.after_advance]
      rw [show (Cursor.start text).pos = 0 from rfl, Nat.zero_add]
      rfl
    rw [behind]
    exact dropWhile_isBlank_of_noDot noDotExtra (parts ▸ leads)
  · rw [Nat.zero_add] at covered
    exact Or.inr ⟨hit, member, covered⟩

/-- No hit goes on where a plain object occurs. -/
theorem not_covered (plain : PlainObject object) {hit : Hit Unit} (member : hit ∈ (bridgeObject object).hits text) :
    ¬ (hit.start < occurrence.offset ∧ occurrence.offset < hit.stop) := by
  rintro ⟨starts, goes⟩
  obtain ⟨first, others, isObject⟩ := exists_dottedParts [] object.toList
  have identifiers := plain.identifiers
  have distinct := plain.distinct first others isObject
  have spells := occurrence.spells
  obtain ⟨count, _, success, succeeds, rfl⟩ := exists_of_mem_hitsFrom member
  rw [bridgeObject_apply] at succeeds
  split at succeeds
  · cases succeeds
  · rw [isObject] at identifiers spells succeeds
    obtain ⟨spelled, rest, spellsHit, afterHit, rfl⟩ := mem_dottedScan.mp succeeds
    simp only [Cursor.pos_advance, Nat.zero_add] at starts goes
    replace afterHit : text.drop count = spelled ++ rest := afterHit
    have afterHere : text.drop occurrence.offset = occurrence.spelled ++ occurrence.after := occurrence.after_advance
    obtain ⟨place, isPlace⟩ : ∃ place, occurrence.offset = count + (place + 1) := ⟨occurrence.offset - count - 1, by omega⟩
    have inHit : ∀ index ≤ place + 1, text[count + index]? = spelled[index]? := fun index bounded => by
      rw [← List.getElem?_drop, afterHit, List.getElem?_append_left (by omega)]
    -- the occurrence begins behind a character of no identifier inside the hit, so with a later part
    obtain ⟨c, letters, isFirst, start, _⟩ := identifiers first List.mem_cons_self
    have here : spelled[place + 1]? = some c := by
      rw [← inHit _ (Nat.le_refl _), ← isPlace, ← Nat.add_zero occurrence.offset, ← List.getElem?_drop, afterHere]
      obtain ⟨others, same⟩ := spells.begins
      rw [← same, isFirst]
      rfl
    have last : occurrence.before.getLast? = spelled[place]? := by
      rw [occurrence.getLast?_before (Nat.zero_lt_of_lt starts), ← inHit _ (Nat.le_succ _), isPlace]
      rfl
    have before := last.trans (List.getElem?_eq_getElem (Nat.lt_of_succ_lt (by omega : place + 1 < spelled.length)))
    obtain ⟨part, member, beginsPart⟩ :=
      spellsHit.exists_part identifiers (last.symm.trans before) (occurrence.apart _ before).1 here start
    have sameText : text.drop occurrence.offset = spelled.drop (place + 1) ++ rest := by
      rw [isPlace, ← List.drop_drop, afterHit, List.drop_append_of_le_length (by omega)]
    have partHere : part <+: text.drop occurrence.offset := sameText ▸ beginsPart.trans (List.prefix_append _ _)
    have firstHere : first <+: text.drop occurrence.offset :=
      afterHere ▸ spells.begins.trans (List.prefix_append _ _)
    have longer : first.length < part.length := Nat.lt_of_not_le fun short =>
      distinct part member (List.prefix_of_prefix_length_le partHere firstHere short)
    -- the part is longer than the first, behind which no identifier goes on
    obtain ⟨next, parts, rfl⟩ := List.exists_cons_of_ne_nil (List.ne_nil_of_mem member)
    obtain ⟨d, behind, apart⟩ := spells.exists_behind
    have inPart := List.prefix_iff_getElem?.mp partHere first.length longer
    rw [afterHere, List.getElem?_append_left (List.getElem?_eq_some_iff.mp behind).1, behind] at inPart
    have partsOf := (identifiers part (List.mem_cons_of_mem _ member)).isIdentifierPart _ (List.getElem_mem longer)
    rw [← Option.some.inj inPart, apart] at partsOf
    cases partsOf

end Occurrence

/-! ## Chains as a whole -/

/-- How a chain ends behind its modifiers: with a call that is none of them, or with a parenthesis that never closes. -/
inductive ChainEnd (modifiers : List String) where
  | remote (call : ChainCall) (rest : List Char) (isRemote : String.ofList call.name ∉ modifiers)
  | unclosed (opening : CallOpening) (after : List Char)
      (never : ∀ argument rest, Balanced .round argument → after ≠ argument ++ ')' :: rest)

namespace ChainEnd

variable {modifiers : List String}

def spelled : ChainEnd modifiers → List Char
  | remote call rest _ => call.spelled ++ rest
  | unclosed opening after _ => opening.spelled ++ after

/-- What the end of a chain mentions that comes at an offset: the remote function, if its call is complete. -/
def mentions (place : Nat) : ChainEnd modifiers → List Mentioned
  | remote call _ _ => [call.remote place]
  | unclosed _ _ _ => []

theorem chainMentions_eq (literal : List Char) (place : Nat) (ending : ChainEnd modifiers) :
    chainMentions modifiers literal (place + ending.spelled.length) ending.spelled = ending.mentions place := by
  cases ending with
  | remote call rest isRemote =>
      rw [spelled, ChainCall.chainMentions_eq, if_neg (List.contains_iff_mem.not.mpr isRemote)]
      rfl
  | unclosed opening after never => exact opening.chainMentions_eq_nil after _ _ _ never

end ChainEnd

theorem exists_dot_of_chain {modifiers : List String} (calls : List ChainCall) (ending : ChainEnd modifiers) :
    ∃ more, (calls.flatMap ChainCall.spelled ++ ending.spelled).dropWhile isBlank = '.' :: more := by
  cases calls with
  | nil =>
      cases ending with
      | remote call rest _ =>
          rw [List.flatMap_nil, List.nil_append, ChainEnd.spelled, ChainCall.spelled, List.append_assoc]
          exact ⟨_, CallOpening.dropWhile_spelled _ _⟩
      | unclosed opening after _ => exact ⟨_, opening.dropWhile_spelled after⟩
  | cons call later =>
      rw [List.flatMap_cons, ChainCall.spelled, List.append_assoc, List.append_assoc]
      exact ⟨_, CallOpening.dropWhile_spelled _ _⟩

/-- White space before a chain makes no difference to what it mentions. -/
theorem chainMentions_congr (modifiers : List String) (literal : List Char) (total : Nat) {first second : List Char}
    (same : first.dropWhile isBlank = second.dropWhile isBlank) :
    chainMentions modifiers literal total first = chainMentions modifiers literal total second := by
  rw [chainMentions.eq_def modifiers literal total first, chainMentions.eq_def modifiers literal total second]
  dsimp only
  generalize first.dropWhile isBlank = next at same ⊢
  rw [same]

theorem infix_flatMap_of_mem {α β : Type} {list : List α} {each : α} (member : each ∈ list) (next : α → List β) :
    next each <:+: list.flatMap next := by
  obtain ⟨before, after, rfl⟩ := List.append_of_mem member
  exact ⟨before.flatMap next, after.flatMap next, by simp⟩

/-- A chain of any length is read completely: where an object occurs, the modifiers behind it name their handlers in order, then
comes the remote function if its call is complete, and nothing else. Only a hit of the same object that begins before the
occurrence and goes on there stands in the way, which cannot be if the object is plain. -/
theorem chain_is_read (bridge : Bridge) (masked literal : List Char) {object : String} (listed : object ∈ bridge.objects)
    (occurrence : Occurrence object masked) {calls : List ChainCall}
    (modify : ∀ call ∈ calls, String.ofList call.name ∈ bridge.modifiers) (ending : ChainEnd bridge.modifiers)
    (chain : occurrence.after = calls.flatMap ChainCall.spelled ++ ending.spelled) :
    (∃ hit ∈ (bridgeObject object).hits masked, hit.start = occurrence.offset ∧
      let place := occurrence.offset + occurrence.spelled.length
      let mentioned := ChainCall.handlersAlong place calls ++
        ending.mentions (place + (calls.flatMap ChainCall.spelled).length)
      chainMentions bridge.modifiers literal masked.length (masked.drop hit.stop) = mentioned ∧
        mentioned <:+: bridgeMentions bridge masked literal) ∨
    (∃ hit ∈ (bridgeObject object).hits masked, hit.start < occurrence.offset ∧ occurrence.offset < hit.stop) ∧
      ¬ PlainObject object := by
  obtain ⟨more, leads⟩ := exists_dot_of_chain calls ending
  rw [← chain] at leads
  rcases occurrence.exists_hit_or_covered leads with ⟨hit, member, starts, behind⟩ | ⟨hit, member, covers⟩
  · refine Or.inl ⟨hit, member, starts, ?_⟩
    intro place mentioned
    have total : masked.length = place + (calls.flatMap ChainCall.spelled ++ ending.spelled).length := by
      rw [← chain]
      refine (congrArg List.length occurrence.whole).trans ?_
      rw [List.length_append, List.length_append, ← Nat.add_assoc]
      rfl
    have report : chainMentions bridge.modifiers literal masked.length (masked.drop hit.stop) = mentioned := by
      rw [chainMentions_congr _ _ _ (behind.trans leads.symm), chain, total,
        ChainCall.chainMentions_modifiers literal place modify, ChainEnd.chainMentions_eq]
    refine ⟨report, ?_⟩
    rw [← report]
    have inObject := infix_flatMap_of_mem member fun hit =>
      chainMentions bridge.modifiers literal masked.length (masked.drop hit.stop)
    exact inObject.trans (infix_flatMap_of_mem listed fun object => ((bridgeObject object).hits masked).flatMap fun hit =>
        chainMentions bridge.modifiers literal masked.length (masked.drop hit.stop))
  · exact Or.inr ⟨⟨hit, member, covers⟩, fun plain => occurrence.not_covered plain member covers⟩

def ChainCall.compact (blanks name argument : String) (blank : blanks.toList.all isBlank = true)
    (identifier : IsIdentifier name.toList) (balanced : Balanced .round argument.toList) : ChainCall where
  beforeDot := blanks.toList
  afterDot := []
  name := name.toList
  afterName := []
  blankBeforeDot := List.all_eq_true.mp blank
  blankAfterDot := nofun
  identifier := identifier
  blankAfterName := nofun
  argument := argument.toList
  balanced := balanced

/-- A chain over several lines, with a handler, a callback that holds a call of its own, and the remote call. -/
def savingText : List Char :=
  "  google.script.run\n  .withSuccessHandler( onDone )\n".toList ++
    "  .withFailureHandler(function (e) \x7b tell(e); \x7d)\n  .save(form);".toList

def savingCalls : List ChainCall :=
  [.compact "\n  " "withSuccessHandler" " onDone " (by decide) (by decide) (by decide),
   .compact "\n  " "withFailureHandler" "function (e) \x7b tell(e); \x7d" (by decide) (by decide) (by decide +kernel)]

def savingEnd : ChainEnd ["withSuccessHandler", "withFailureHandler"] :=
  .remote (.compact "\n  " "save" "form" (by decide) (by decide) (by decide)) ";".toList (by decide)

theorem dottedParts_run : dottedParts [] "google.script.run".toList = ["google".toList, "script".toList, "run".toList] := by
  decide

def savingOccurrence : Occurrence "google.script.run" savingText where
  before := "  ".toList
  spelled := "google.script.run".toList
  after := savingCalls.flatMap ChainCall.spelled ++ savingEnd.spelled
  whole := by decide +kernel
  spells := by
    rw [dottedParts_run]
    exact .joined "google".toList (.joined "script".toList (.last "run".toList))
  apart := by
    intro c last
    obtain rfl : ' ' = c := Option.some.inj last
    decide

theorem plainObject_run : PlainObject "google.script.run" where
  identifiers := by
    rw [dottedParts_run]
    simp only [List.forall_mem_cons]
    decide
  distinct first others isObject := by
    rw [dottedParts_run] at isObject
    obtain ⟨rfl, rfl⟩ := List.cons.inj isObject
    decide

/-- Nothing is mentioned but the handler and the remote function; the call inside the callback is none of the chain's. -/
theorem saving_chain_is_read : ∃ hit ∈ (bridgeObject "google.script.run").hits savingText, hit.start = 2 ∧
    chainMentions ["withSuccessHandler", "withFailureHandler"] savingText savingText.length (savingText.drop hit.stop) =
      [⟨"onDone", .handler, 42⟩, ⟨"save", .bridge, 104⟩] := by
  have modify : ∀ call ∈ savingCalls, String.ofList call.name ∈ ["withSuccessHandler", "withFailureHandler"] := by decide
  have read := chain_is_read ⟨["google.script.run"], ["withSuccessHandler", "withFailureHandler"]⟩ savingText savingText
    (List.mem_singleton_self _) savingOccurrence modify savingEnd rfl
  rcases read with ⟨hit, member, starts, report, _⟩ | ⟨_, notPlain⟩
  · exact ⟨hit, member, starts, report.trans (by decide +kernel)⟩
  · exact absurd plainObject_run notPlain

/-- An object that is spelled with white space first and then once more from its last part on, with a remote call behind it. -/
def overlappingText : List Char :=
  "a. a.a.save();".toList

def overlappedOccurrence : Occurrence "a.a" overlappingText where
  before := "a. ".toList
  spelled := "a.a".toList
  after := ".save();".toList
  whole := by decide
  spells := by
    rw [show dottedParts [] "a.a".toList = ["a".toList, "a".toList] by decide]
    exact .joined "a".toList (.last "a".toList)
  apart := by
    intro c last
    obtain rfl : ' ' = c := Option.some.inj last
    decide

/-- The first hit takes up the object of the second occurrence, and the remote call behind that is not read. -/
theorem overlapped_chain_is_not_read :
    (∃ (call : ChainCall) (rest : List Char), String.ofList call.name ∉ defaultBridgeModifiers ∧
      overlappedOccurrence.after = call.spelled ++ rest) ∧
      bridgeMentions ⟨["a.a"], defaultBridgeModifiers⟩ overlappingText overlappingText = [] := by
  constructor
  · exact ⟨.compact "" "save" "" (by decide) (by decide) (by decide), ";".toList, by decide, by decide⟩
  · have stops : ((bridgeObject "a.a").hits overlappingText).map (·.stop) = [4] := by decide +kernel
    have ends : (readLink? ((overlappingText.drop 4).dropWhile isBlank)).isNone = true := by decide +kernel
    rw [bridgeMentions, List.flatMap_singleton,
      ← List.flatMap_map Hit.stop fun stop => chainMentions _ _ _ (overlappingText.drop stop), stops, List.flatMap_singleton]
    exact chainMentions_of_noLink _ _ _ (by decide) (Option.isNone_iff_eq_none.mp ends)

end Deadwood.Source
