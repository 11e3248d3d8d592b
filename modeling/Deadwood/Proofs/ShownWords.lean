import Deadwood.Proofs.CommentedMarkup
import Deadwood.Proofs.MaskTurns

/-!
# Words that a view shows

A view hides comments, literals and markup, and what it hides begins and ends with marks that belong to no identifier. So of two
characters of an identifier side by side a view shows both or neither, and a name that stands as a word of its own in a view
stands so in the text.
-/

set_option autoImplicit false
namespace Deadwood.Source

open Deadwood.Text Scan

theorem not_isIdentifierPart_blank (c : Char) : isIdentifierPart (blank c) = false := by
  unfold blank
  split
  · rename_i lineEnd
    rcases Bool.or_eq_true_iff.mp lineEnd with newline | returns
    · rw [beq_iff_eq.mp newline]
      decide
    · rw [beq_iff_eq.mp returns]
      decide
  · decide

theorem isSpace_of_isIdentifierPart {c : Char} (part : isIdentifierPart c = true) : isSpace c = false := by
  rw [← Bool.not_eq_true]
  intro space
  rw [isIdentifierPart_of_isSpace space] at part
  cases part

/-- A view shows words whole: a character of an identifier that shows stands in the text, and of two side by side both show or
neither does. -/
structure ShowsWords (view text : List Char) : Prop where
  stands : ∀ (place : Nat) (c : Char), view[place]? = some c → isIdentifierPart c = true → text[place]? = some c
  together : ∀ (place : Nat) (c d : Char), text[place]? = some c → text[place + 1]? = some d → isIdentifierPart c = true →
    isIdentifierPart d = true → (view[place]? = some c ↔ view[place + 1]? = some d)

/-- A name stands in a text as a word of its own. -/
structure StandsAt (text name : List Char) (place : Nat) : Prop where
  named : name <+: text.drop place
  before : ∀ (previous : Nat) (c : Char), previous + 1 = place → text[previous]? = some c → isIdentifierPart c = false
  after : ∀ c : Char, text[place + name.length]? = some c → isIdentifierPart c = false

namespace ShowsWords

variable {view between text name : List Char} {place : Nat}

theorem refl (text : List Char) : ShowsWords text text where
  stands _ _ shown _ := shown
  together _ _ _ first second _ _ := iff_of_true first second

/-- A view of a view shows words whole if both do. -/
theorem trans (first : ShowsWords view between) (second : ShowsWords between text) : ShowsWords view text where
  stands place c shown part := second.stands place c (first.stands place c shown part) part
  together place c d stands standsNext part partNext := by
    have same := second.together place c d stands standsNext part partNext
    constructor
    · intro shown
      have here := first.stands place c shown part
      exact (first.together place c d here (same.mp here) part partNext).mp shown
    · intro shown
      have next := first.stands (place + 1) d shown partNext
      exact (first.together place c d (same.mpr next) next part partNext).mpr shown

/-- The characters of a name that shows stand in the text. -/
theorem prefix_drop (shows : ShowsWords view text) (identifier : IsIdentifier name) (named : name <+: view.drop place) :
    name <+: text.drop place := by
  refine List.prefix_iff_getElem?.mpr fun index inside => ?_
  rw [List.getElem?_drop]
  have shown := List.prefix_iff_getElem?.mp named index inside
  rw [List.getElem?_drop] at shown
  exact shows.stands _ _ shown (identifier.isIdentifierPart _ (List.getElem_mem inside))

theorem standsAt (shows : ShowsWords view text) (identifier : IsIdentifier name) (stands : StandsAt view name place) :
    StandsAt text name place := by
  have shown : ∀ index (inside : index < name.length), view[place + index]? = some name[index] := fun index inside => by
    rw [← List.getElem?_drop]
    exact List.prefix_iff_getElem?.mp stands.named index inside
  have parts : ∀ index (inside : index < name.length), isIdentifierPart name[index] = true := fun index inside =>
    identifier.isIdentifierPart _ (List.getElem_mem inside)
  have some : 0 < name.length := by
    obtain ⟨_, _, rfl, _⟩ := identifier
    exact Nat.succ_pos _
  refine ⟨shows.prefix_drop identifier stands.named, fun previous c isPrevious present => ?_, fun c present => ?_⟩
  · by_contra part
    rw [Bool.not_eq_false] at part
    subst isPrevious
    -- a character of an identifier before the name would show as well
    have first := shown 0 some
    have alike := shows.together previous c _ present (shows.stands _ _ first (parts 0 some)) part (parts 0 some)
    rw [stands.before previous c rfl (alike.mpr first)] at part
    cases part
  · by_contra part
    rw [Bool.not_eq_false] at part
    have inside : name.length - 1 < name.length := Nat.sub_lt some Nat.one_pos
    have last := shown (name.length - 1) inside
    have next : place + (name.length - 1) + 1 = place + name.length := by omega
    have alike := shows.together _ _ c (shows.stands _ _ last (parts _ inside)) (next ▸ present) (parts _ inside) part
    rw [stands.after c (next ▸ alike.mp last)] at part
    cases part

end ShowsWords

/-! ## Masked views -/

def Region.contents : Region → Share
  | .code => .code
  | .lineComment => .comment
  | .blockComment => .comment
  | .quoted _ => .literal
  | .template => .literal
  | .pattern _ => .literal

def Region.Quotes : Region → Prop
  | .quoted quote => quote = '\'' ∨ quote = '"'
  | _ => True

theorem quotes_turn {region : Region} (quotes : region.Quotes) (allowed : Bool) (holes : List Nat) (text : List Char) :
    (turn allowed holes region text).region.Quotes := by
  fun_cases turn allowed holes region text
  all_goals simp_all [Region.Quotes]

theorem not_isIdentifierPart_mark : isIdentifierPart '\n' = false ∧ isIdentifierPart '/' = false ∧
    isIdentifierPart '\'' = false ∧ isIdentifierPart '"' = false ∧ isIdentifierPart '`' = false ∧
    isIdentifierPart '\x7b' = false ∧ isIdentifierPart '\x7d' = false := by
  decide

/-- What a turn passes first belongs to the contents of the region, unless it is no character of an identifier. -/
theorem share_turn {region : Region} (quotes : region.Quotes) (allowed : Bool) (holes : List Nat) {c : Char}
    (part : isIdentifierPart c = true) (rest : List Char) : (turn allowed holes region (c :: rest)).share = region.contents := by
  have marks := not_isIdentifierPart_mark
  generalize same : c :: rest = text
  fun_cases turn allowed holes region text
  case case7 quote d tail noEscape ends =>
    obtain ⟨rfl, -⟩ := List.cons.inj same
    rcases Bool.or_eq_true_iff.mp ends with isQuote | isFeed
    · rcases quotes with rfl | rfl <;> simp_all
    · simp_all
  all_goals simp_all [Region.contents]

/-- What a turn passes last belongs to the contents of the region that it leads to, unless it is no character of an identifier. -/
theorem contents_turn (allowed : Bool) (holes : List Nat) (region : Region) (text : List Char) {c : Char}
    (last : text[(turn allowed holes region text).count - 1]? = some c) (part : isIdentifierPart c = true) :
    (turn allowed holes region text).region.contents = (turn allowed holes region text).share := by
  have marks := not_isIdentifierPart_mark
  revert last
  fun_cases turn allowed holes region text
  case case18 d rest noLine noBlock isQuote =>
    intro last
    obtain rfl := Option.some.inj last
    rcases Bool.or_eq_true_iff.mp isQuote with isQuote | isQuote <;> simp_all
  all_goals simp_all [Region.contents]
  all_goals
    rintro rfl
    simp_all

namespace ComesTo

variable {view : View} {text : List Char} {offset : Nat} {region : Region} {holes : List Nat}

theorem quotes (here : ComesTo view text offset region holes) : region.Quotes := by
  induction here with
  | start => trivial
  | pass _ _ taken inductionHypothesis =>
      rw [← taken]
      exact quotes_turn inductionHypothesis _ _ _

theorem exists_around (view : View) {place : Nat} (inside : place < text.length) :
    ∃ offset region holes now, ComesTo view text offset region holes ∧
      turn (patternAllowed ((mask view text).take offset).reverse) holes region (text.drop offset) = now ∧
      offset ≤ place ∧ place < offset + now.count := by
  have passes : ∀ (region : Region) (holes : List Nat) (offset : Nat), offset < text.length →
      0 < (turn (patternAllowed ((mask view text).take offset).reverse) holes region (text.drop offset)).count :=
    fun region holes offset more => turn_count_pos (List.drop_eq_nil_iff.not.mpr (Nat.not_le_of_lt more)) _ _ _
  induction place with
  | zero => exact ⟨0, .code, [], _, .start, rfl, Nat.le_refl _, by simpa using passes .code [] 0 inside⟩
  | succ place inductionHypothesis =>
      obtain ⟨offset, region, holes, now, here, taken, past, within⟩ := inductionHypothesis (Nat.lt_of_succ_lt inside)
      by_cases same : place + 1 < offset + now.count
      · exact ⟨offset, region, holes, now, here, taken, Nat.le_succ_of_le past, same⟩
      · have next : offset + now.count = place + 1 := by omega
        have later := here.pass (Nat.lt_of_le_of_lt past (Nat.lt_of_succ_lt inside)) taken
        rw [next] at later
        exact ⟨place + 1, _, _, _, later, rfl, Nat.le_refl _, Nat.lt_add_of_pos_right (passes _ _ _ inside)⟩

/-- Two characters of an identifier side by side belong to one thing. -/
theorem exists_share (view : View) {place : Nat} {c d : Char} (first : text[place]? = some c) (second : text[place + 1]? = some d)
    (part : isIdentifierPart c = true) (partNext : isIdentifierPart d = true) :
    ∃ share, (mask view text)[place]? = some (shown (view.hides share) c) ∧
      (mask view text)[place + 1]? = some (shown (view.hides share) d) := by
  obtain ⟨inNext, isSecond⟩ := List.getElem?_eq_some_iff.mp second
  obtain ⟨offset, region, holes, now, here, taken, past, within⟩ := exists_around view (Nat.lt_of_succ_lt inNext)
  have shownFirst := here.getElem?_mask taken past within
  rw [first, Option.map_some] at shownFirst
  by_cases same : place + 1 < offset + now.count
  · have shownSecond := here.getElem?_mask taken (Nat.le_succ_of_le past) same
    rw [second, Option.map_some] at shownSecond
    exact ⟨now.share, shownFirst, shownSecond⟩
  · -- the second character begins a turn of its own, and neither turn passes a mark there
    have next : offset + now.count = place + 1 := by omega
    have later := here.pass (Nat.lt_of_le_of_lt past (Nat.lt_of_succ_lt inNext)) taken
    rw [next] at later
    have begins : text.drop (place + 1) = d :: text.drop (place + 1 + 1) := by
      rw [← List.getElem_cons_drop inNext, isSecond]
    have last : (text.drop offset)[now.count - 1]? = some c := by
      have isPlace : offset + (now.count - 1) = place := by omega
      rw [List.getElem?_drop, isPlace, first]
    have sameShare : now.region.contents = now.share := by
      subst taken
      exact contents_turn _ _ _ _ last part
    have shareNext := share_turn later.quotes (patternAllowed ((mask view text).take (place + 1)).reverse) now.holes partNext
      (text.drop (place + 1 + 1))
    rw [← begins] at shareNext
    have passes := turn_count_pos (List.drop_eq_nil_iff.not.mpr (Nat.not_le_of_lt inNext))
      (patternAllowed ((mask view text).take (place + 1)).reverse) now.holes now.region
    have shownSecond := later.getElem?_mask rfl (Nat.le_refl _) (Nat.lt_add_of_pos_right passes)
    rw [second, Option.map_some, shareNext, sameShare] at shownSecond
    exact ⟨_, shownFirst, shownSecond⟩

end ComesTo

theorem shown_eq_self_iff {hidden : Bool} {c : Char} (part : isIdentifierPart c = true) :
    shown hidden c = c ↔ hidden = false := by
  cases hidden with
  | false => exact iff_of_true rfl rfl
  | true =>
      refine iff_of_false (fun same => ?_) (by decide)
      have noPart := not_isIdentifierPart_blank c
      rw [show blank c = c from same, part] at noPart
      cases noPart

theorem showsWords_mask (view : View) (text : List Char) : ShowsWords (mask view text) text where
  stands place c shown part := (shows_mask view text).getElem?_of_visible shown (isSpace_of_isIdentifierPart part)
  together place c d first second part partNext := by
    obtain ⟨share, shownFirst, shownSecond⟩ := ComesTo.exists_share view first second part partNext
    rw [shownFirst, shownSecond, Option.some.injEq, Option.some.injEq, shown_eq_self_iff part, shown_eq_self_iff partNext]

/-! ## The code of a page -/

section

variable {α : Type}

def BeginsApart (scan : Scan α) : Prop :=
  ∀ cursor, ∀ found ∈ scan cursor, ∃ c, cursor.after[0]? = some c ∧ isIdentifierPart c = false

def EndsApart (scan : Scan α) : Prop :=
  ∀ cursor, ∀ found ∈ scan cursor, ∃ count c, found.2 = cursor.advance (count + 1) ∧ cursor.after[count]? = some c ∧
    isIdentifierPart c = false

def FindsApart (scan : Scan Stretch) : Prop :=
  ∀ cursor, ∀ found ∈ scan cursor,
    (∃ count c, found.1.start = cursor.pos + count + 1 ∧ cursor.after[count]? = some c ∧ isIdentifierPart c = false) ∧
    ∃ count c, found.1.stop = cursor.pos + count ∧ cursor.after[count]? = some c ∧ isIdentifierPart c = false

theorem BeginsApart.before {β : Type} {first : Scan α} (begins : BeginsApart first) (next : α → Scan β) :
    BeginsApart (first >>= next) := by
  intro cursor found member
  obtain ⟨middle, middleMember, _⟩ := mem_bind.mp member
  exact begins cursor middle middleMember

theorem beginsApart_one {accepts : Char → Bool} (apart : ∀ c, accepts c = true → isIdentifierPart c = false) :
    BeginsApart (one accepts) := by
  intro cursor found member
  obtain ⟨c, rest, same, accepted, _⟩ := mem_one.mp member
  exact ⟨c, by rw [same]; rfl, apart c accepted⟩

theorem endsApart_one {accepts : Char → Bool} (apart : ∀ c, accepts c = true → isIdentifierPart c = false) :
    EndsApart (one accepts) := by
  intro cursor found member
  obtain ⟨c, rest, same, accepted, rfl⟩ := mem_one.mp member
  exact ⟨0, c, rfl, by rw [same]; rfl, apart c accepted⟩

theorem endsApart_chars {word : List Char} {c : Char} (last : word.getLast? = some c) (apart : isIdentifierPart c = false) :
    EndsApart (chars word) := by
  intro cursor found member
  rw [chars_apply] at member
  split at member
  · rename_i begins
    obtain rfl := List.mem_singleton.mp member
    rw [List.getLast?_eq_getElem?] at last
    obtain ⟨inside, isLast⟩ := List.getElem?_eq_some_iff.mp last
    have positive : 0 < word.length := by omega
    refine ⟨word.length - 1, c, by rw [Nat.sub_add_cancel positive], ?_, apart⟩
    rw [List.prefix_iff_getElem?.mp begins _ inside, isLast]
  · cases member

theorem EndsApart.after {β : Type} {first : Scan α} {next : α → Scan β} (advances : Advances first)
    (ends : ∀ value, EndsApart (next value)) : EndsApart (first >>= next) := by
  intro cursor found member
  obtain ⟨middle, middleMember, foundMember⟩ := mem_bind.mp member
  obtain ⟨passed, _, middleEq⟩ := advances cursor middle middleMember
  obtain ⟨count, c, foundEq, present, apart⟩ := ends middle.1 middle.2 found foundMember
  rw [middleEq, Cursor.advance_advance] at foundEq
  rw [middleEq, Cursor.after_advance, List.getElem?_drop] at present
  exact ⟨passed + count, c, foundEq, present, apart⟩

theorem EndsApart.optional {first next : Scan Unit} (ends : EndsApart first) (advances : Advances first)
    (endsNext : EndsApart next) : EndsApart (first >>= fun _ => optional next) := by
  intro cursor found member
  obtain ⟨middle, middleMember, foundMember⟩ := mem_bind.mp member
  rcases List.mem_append.mp foundMember with passes | nothing
  · exact (EndsApart.after advances fun _ => endsNext) cursor found (mem_bind.mpr ⟨middle, middleMember, passes⟩)
  · obtain rfl := mem_pure.mp nothing
    exact ends cursor middle middleMember

/-- What stands up to a mark is apart if the mark begins and the opening ends apart. -/
theorem findsApart_upTo {opening : Scan α} {mark : α → Scan Unit} (ends : EndsApart opening)
    (begins : ∀ cursor, ∀ found ∈ opening cursor, BeginsApart (mark found.1)) :
    FindsApart (opening >>= fun value => upTo (mark value)) := by
  intro cursor found member
  obtain ⟨opened, opens, member⟩ := mem_bind.mp member
  obtain ⟨count, c, openedEq, present, apart⟩ := ends cursor opened opens
  obtain ⟨start, isHere, member⟩ := mem_bind.mp member
  obtain rfl := List.mem_singleton.mp isHere
  obtain ⟨stop, skips, member⟩ := mem_bind.mp member
  obtain rfl := mem_pure.mp member
  unfold skipTo at skips
  split at skips
  case h_2 => cases skips
  case h_1 hit searched =>
    obtain rfl := List.mem_singleton.mp skips
    obtain ⟨later, _, starts, success, succeeds, _⟩ := exists_of_search? searched
    obtain ⟨d, presentStop, apartStop⟩ := begins cursor opened opens _ success succeeds
    rw [Cursor.after_advance, List.getElem?_drop, openedEq, Cursor.after_advance, List.getElem?_drop] at presentStop
    refine ⟨⟨count, c, ?_, present, apart⟩, count + 1 + later, d, ?_, presentStop, apartStop⟩
    · dsimp only
      rw [openedEq, Cursor.pos_advance, Nat.add_assoc]
    · dsimp only
      rw [starts, openedEq, Cursor.pos_advance, Nat.add_assoc]

end

theorem not_isIdentifierPart_of_beq {mark c : Char} (apart : isIdentifierPart mark = false) (same : (c == mark) = true) :
    isIdentifierPart c = false := by
  rw [beq_iff_eq.mp same, apart]

theorem findsApart_scriptElement : FindsApart scriptElement := by
  have spelled : scriptElement = (wordIgnoringCase "<script" >>= fun _ => wordEdge >>= fun _ => many (· != '>') >>= fun _ =>
      one (· == '>')) >>= fun _ => upTo (wordIgnoringCase "</script" >>= fun _ => many isSpace >>= fun _ =>
        one (· == '>') >>= fun _ => pure ()) := by
    simp only [Scan.bind_assoc]
    rfl
  rw [spelled]
  refine findsApart_upTo ?_ fun _ _ _ => ?_
  · exact .after (advances_wordIgnoringCase _) fun _ => .after (advances_check _) fun _ => .after (advances_many _) fun _ =>
      endsApart_one fun _ => not_isIdentifierPart_of_beq (by decide)
  · refine ((beginsApart_one fun c same => ?_).before _).before _
    rw [eq_of_sameIgnoringCase same]
    decide

theorem findsApart_scriptlet : FindsApart scriptlet := by
  have spelled : scriptlet = (word "<?" >>= fun _ => Scan.optional (Scan.optional (word "!") >>= fun _ => word "=")) >>=
      fun _ => upTo (word "?>") := by
    simp only [Scan.bind_assoc]
    rfl
  rw [spelled]
  refine findsApart_upTo ?_ fun _ _ _ => ?_
  · refine (endsApart_chars (c := '?') rfl (by decide)).optional (advances_chars _) ?_
    exact .after (advances_chars _).optional fun _ => endsApart_chars (c := '=') rfl (by decide)
  · exact (beginsApart_one fun _ => not_isIdentifierPart_of_beq (by decide)).before _

theorem findsApart_handlerAttribute : FindsApart handlerAttribute := by
  have quoted (c : Char) (isQuote : (c == '"' || c == '\'') = true) : isIdentifierPart c = false := by
    rcases Bool.or_eq_true_iff.mp isQuote with isQuote | isQuote
    · exact not_isIdentifierPart_of_beq (by decide) isQuote
    · exact not_isIdentifierPart_of_beq (by decide) isQuote
  have spelled : handlerAttribute = (handlerOpening >>= fun _ => one (fun c => c == '"' || c == '\'')) >>= fun quote =>
      upTo (chars [quote]) := by
    simp only [handlerOpening, Scan.bind_assoc]
    rfl
  rw [spelled]
  refine findsApart_upTo (.after ?_ fun _ => endsApart_one quoted) fun cursor found member => ?_
  · exact (advances_one _).bind fun _ => (advances_wordIgnoringCase _).bind fun _ =>
      ((advances_one _).bind fun _ => advances_many _).bind fun _ => (advances_many _).bind fun _ =>
        (advances_one _).bind fun _ => advances_many _
  · obtain ⟨_, _, opened⟩ := mem_bind.mp member
    obtain ⟨quote, _, _, isQuote, rfl⟩ := mem_one.mp opened
    exact (beginsApart_one fun c same => not_isIdentifierPart_of_beq (quoted quote isQuote) same).before _

theorem FindsApart.of_mem_hits {scan : Scan Stretch} (finds : FindsApart scan) {page : List Char} {hit : Hit Stretch}
    (member : hit ∈ scan.hits page) :
    (∃ place c, hit.value.start = place + 1 ∧ page[place]? = some c ∧ isIdentifierPart c = false) ∧
      ∃ c, page[hit.value.stop]? = some c ∧ isIdentifierPart c = false := by
  obtain ⟨passed, _, success, succeeds, rfl⟩ := exists_of_mem_hitsFrom member
  obtain ⟨⟨count, c, starts, present, apart⟩, last, d, stops, presentStop, apartStop⟩ := finds _ success succeeds
  rw [Cursor.after_advance, List.getElem?_drop] at present presentStop
  rw [Cursor.pos_advance, Nat.zero_add] at starts stops
  refine ⟨⟨passed + count, c, starts, present, apart⟩, d, ?_, apartStop⟩
  dsimp only
  rw [stops]
  exact presentStop

/-- Characters that belong to no identifier stand around every piece of code on a page. -/
theorem apart_of_mem_codeStretches {page : List Char} {stretch : Stretch} (member : stretch ∈ codeStretches page) :
    (∃ place c, stretch.start = place + 1 ∧ page[place]? = some c ∧ isIdentifierPart c = false) ∧
      ∃ c, page[stretch.stop]? = some c ∧ isIdentifierPart c = false := by
  obtain ⟨hit, listed, rfl⟩ := List.mem_map.mp member
  rcases List.mem_append.mp (List.mem_filter.mp listed).1 with early | handler
  · rcases List.mem_append.mp early with script | scriptlet
    · exact findsApart_scriptElement.of_mem_hits script
    · exact findsApart_scriptlet.of_mem_hits scriptlet
  · exact findsApart_handlerAttribute.of_mem_hits handler

theorem showsWords_codeView (page : List Char) : ShowsWords (codeView page) page where
  stands place c shown part := (shows_showOnly _ 0 page).getElem?_of_visible shown (isSpace_of_isIdentifierPart part)
  together place c d first second part partNext := by
    rw [Removal.getElem?_codeView_iff first (isSpace_of_isIdentifierPart part),
      Removal.getElem?_codeView_iff second (isSpace_of_isIdentifierPart partNext)]
    have clash {place : Nat} {c d : Char} (stands : page[place]? = some c) (part : isIdentifierPart c = true)
        (other : page[place]? = some d) (apart : isIdentifierPart d = false) : False := by
      obtain rfl := Option.some.inj (stands.symm.trans other)
      rw [part] at apart
      cases apart
    refine exists_congr fun stretch => and_congr_right fun member => ?_
    obtain ⟨⟨previous, mark, begins, stands, apart⟩, ending, standsEnd, apartEnd⟩ := apart_of_mem_codeStretches member
    have noBegin : stretch.start ≠ place + 1 := fun same => by
      obtain rfl : previous = place := by omega
      exact clash first part stands apart
    have noEnd : stretch.stop ≠ place + 1 := fun same => clash second partNext (same ▸ standsEnd) apartEnd
    simp only [Stretch.contains, Bool.and_eq_true, decide_eq_true_eq]
    omega

/-- The code of a file shows words whole, and so does what is read of it. -/
theorem showsWords_codeOf (kind : FileKind) (text : List Char) : ShowsWords (codeOf kind text) text := by
  unfold codeOf
  split
  · exact showsWords_codeView text
  · exact .refl text

theorem showsWords_mask_codeOf (view : View) (kind : FileKind) (text : List Char) :
    ShowsWords (mask view (codeOf kind text)) text :=
  (showsWords_mask view _).trans (showsWords_codeOf kind text)

end Deadwood.Source
