import Deadwood.Proofs.JoinedLines
import Deadwood.Proofs.PlacedDefinitions
import Deadwood.Proofs.RemoteChains
import Deadwood.Text.Split

/-!
# The places of mentions

Calls, remote calls and calls in evaluated text are mentioned with the line of the name. A handler is mentioned with the line on
which its argument opens: the name stands behind white space, and where that holds a line feed it stands on a later line.
-/

set_option autoImplicit false
namespace Deadwood.Source

open Deadwood.Text Scan

/-! ## Words in a text -/

namespace StandsAt

variable {text name : List Char} {place : Nat}

/-- A name between texts that no identifier goes on into stands as a word of its own. -/
theorem of_parts {front back : List Char} (parts : text = front ++ (name ++ back))
    (before : ∀ c, front.getLast? = some c → isIdentifierPart c = false)
    (after : ∀ c, back.head? = some c → isIdentifierPart c = false) : StandsAt text name front.length where
  named := ⟨back, by rw [parts, List.drop_left]⟩
  before previous c isPrevious present := by
    refine before c ?_
    rw [List.getLast?_eq_getElem?, ← isPrevious, Nat.add_sub_cancel, ← present, parts, List.getElem?_append_left (by omega)]
  after c present := by
    refine after c ?_
    rw [← present, parts, List.getElem?_append_right (Nat.le_add_right _ _), Nat.add_sub_cancel_left,
      List.getElem?_append_right (Nat.le_refl _), Nat.sub_self, List.head?_eq_getElem?]

theorem tail {front : List Char} (stands : StandsAt (front ++ text) name (front.length + place)) : StandsAt text name place where
  named := by
    have named := stands.named
    rwa [List.drop_append, List.drop_of_length_le (Nat.le_add_right _ _), List.nil_append, Nat.add_sub_cancel_left] at named
  before previous c isPrevious present := by
    refine stands.before (front.length + previous) c (by omega) ?_
    rwa [List.getElem?_append_right (Nat.le_add_right _ _), Nat.add_sub_cancel_left]
  after c present := by
    refine stands.after c ?_
    rwa [Nat.add_assoc, List.getElem?_append_right (Nat.le_add_right _ _), Nat.add_sub_cancel_left]

/-- Behind another text a name that does not stand at the beginning still stands as a word of its own. -/
theorem behind (stands : StandsAt text name (place + 1)) (front : List Char) :
    StandsAt (front ++ text) name (front.length + (place + 1)) where
  named := by
    rw [List.drop_append, List.drop_of_length_le (Nat.le_add_right _ _), List.nil_append, Nat.add_sub_cancel_left]
    exact stands.named
  before previous c isPrevious present := by
    obtain rfl : previous = front.length + place := by omega
    rw [List.getElem?_append_right (Nat.le_add_right _ _), Nat.add_sub_cancel_left] at present
    exact stands.before place c rfl present
  after c present := by
    rw [Nat.add_assoc, List.getElem?_append_right (Nat.le_add_right _ _), Nat.add_sub_cancel_left] at present
    exact stands.after c present

/-- A name without line feeds stands before the next line feed as a whole. -/
theorem of_line {line below : List Char} (stands : StandsAt (line ++ below) name place) (within : place ≤ line.length)
    (feeds : below = [] ∨ below.head? = some '\n') (oneLine : '\n' ∉ name) : StandsAt line name place := by
  have named := stands.named
  rw [List.drop_append_of_le_length within] at named
  have short : name.length ≤ (line.drop place).length := by
    refine Nat.le_of_not_lt fun long => oneLine ?_
    have shown := List.prefix_iff_getElem?.mp named _ long
    rw [List.getElem?_append_right (Nat.le_refl _), Nat.sub_self, ← List.head?_eq_getElem?] at shown
    rcases feeds with none | feed
    · rw [none] at shown
      cases shown
    · rw [feed] at shown
      exact Option.some.inj shown ▸ List.getElem_mem long
  refine ⟨List.prefix_of_prefix_length_le named (List.prefix_append _ _) short, fun previous c isPrevious present => ?_,
    fun c present => ?_⟩
  · exact stands.before previous c isPrevious ((List.getElem?_append_left (by omega)).trans present)
  · exact stands.after c ((List.getElem?_append_left (List.getElem?_eq_some_iff.mp present).1).trans present)

end StandsAt

/-- The name stands somewhere in the text as a word of its own. -/
def HoldsWord (text name : List Char) : Prop :=
  ∃ place, StandsAt text name place

/-- The line of a text with a number, without its line feed. -/
def lineAt (text : List Char) (number : Nat) : List Char :=
  (splitOn '\n' text).getD (number - 1) []

theorem splitFrom_feed (part rest : List Char) :
    splitFrom '\n' part none ('\n' :: rest) = part.reverse :: splitFrom '\n' [] none rest := by
  simp [splitFrom]

theorem splitFrom_other {c : Char} (noFeed : c ≠ '\n') (part rest : List Char) :
    splitFrom '\n' part none (c :: rest) = splitFrom '\n' (c :: part) none rest := by
  simp [splitFrom, noFeed]

/-- The first part goes up to the first line feed. -/
theorem getElem?_splitFrom_zero (part text : List Char) :
    (splitFrom '\n' part none text)[0]? = some (part.reverse ++ text.takeWhile (· ≠ '\n')) := by
  induction text generalizing part with
  | nil => simp [splitFrom]
  | cons c rest inductionHypothesis =>
      by_cases feed : c = '\n'
      · simp [feed, splitFrom_feed]
      · simp [feed, splitFrom_other, inductionHypothesis]

/-- Of the parts between line feeds, the one with the place of a name holds the name. -/
theorem exists_holdsWord_splitFrom {name : List Char} (oneLine : '\n' ∉ name) (nonempty : name ≠ [])
    (part text : List Char) (place : Nat) (stands : StandsAt (part.reverse ++ text) name (part.length + place)) :
    ∃ line, (splitFrom '\n' part none text)[(text.take place).count '\n']? = some line ∧ HoldsWord line name := by
  induction text generalizing part place with
  | nil =>
      have named := stands.named
      rw [List.append_nil, List.drop_of_length_le (by simp)] at named
      exact absurd (List.prefix_nil.mp named) nonempty
  | cons c rest inductionHypothesis =>
      cases place with
      | zero =>
          refine ⟨_, getElem?_splitFrom_zero part (c :: rest), part.length, ?_⟩
          have parts := List.takeWhile_append_dropWhile (p := fun d => decide (d ≠ '\n')) (l := c :: rest)
          have stops := List.head?_dropWhile_not (fun d => decide (d ≠ '\n')) (c :: rest)
          generalize (c :: rest).takeWhile (fun d => decide (d ≠ '\n')) = line at parts
          generalize (c :: rest).dropWhile (fun d => decide (d ≠ '\n')) = below at parts stops
          rw [← parts, ← List.append_assoc] at stands
          refine stands.of_line (by simp) ?_ oneLine
          cases below with
          | nil => exact Or.inl rfl
          | cons d others => exact Or.inr (by simpa using stops)
      | succ place =>
          by_cases feed : c = '\n'
          · subst feed
            have behindFeed : StandsAt ((part.reverse ++ ['\n']) ++ rest) name ((part.reverse ++ ['\n']).length + place) := by
              rw [List.append_assoc, List.singleton_append, List.length_append, List.length_reverse, List.length_singleton,
                Nat.add_assoc, Nat.add_comm 1]
              exact stands
            obtain ⟨line, isLine, holds⟩ := inductionHypothesis [] place (by simpa using behindFeed.tail)
            refine ⟨line, ?_, holds⟩
            rwa [splitFrom_feed, List.take_succ_cons, List.count_cons_self, List.getElem?_cons_succ]
          · obtain ⟨line, isLine, holds⟩ := inductionHypothesis (c :: part) place (by
              rw [List.reverse_cons, List.append_assoc, List.singleton_append, List.length_cons, Nat.add_assoc, Nat.add_comm 1]
              exact stands)
            refine ⟨line, ?_, holds⟩
            rwa [splitFrom_other feed, List.take_succ_cons, List.count_cons_of_ne feed]

theorem StandsAt.holdsWord_line {text name : List Char} {place : Nat} (stands : StandsAt text name place)
    (identifier : IsIdentifier name) : HoldsWord (lineAt text (lineOf text place)) name := by
  have oneLine : '\n' ∉ name := fun member => nomatch identifier.isIdentifierPart _ member
  have nonempty : name ≠ [] := List.ne_nil_of_length_pos (length_pos_of_isIdentifier identifier)
  obtain ⟨line, isLine, holds⟩ := exists_holdsWord_splitFrom oneLine nonempty [] text place (by simpa using stands)
  rw [lineAt, lineOf, Nat.add_sub_cancel, splitOn, List.getD_eq_getElem?_getD, isLine]
  exact holds

/-! ## Names of calls -/

structure Mentioned.Names (view : List Char) (found : Mentioned) : Prop where
  identifier : IsIdentifier found.name.toList
  stands : StandsAt view found.name.toList found.position

theorem of_stretch_prefix {view word : List Char} {start : Nat} (begins : word <+: view.drop start) :
    (⟨start, start + word.length⟩ : Stretch).of view = word := by
  rw [Stretch.of, ← List.take_drop]
  exact (List.prefix_iff_eq_take.mp begins).symm

theorem names_of_mem_callsOf {view : List Char} {definedAt : List Nat} {found : Mentioned}
    (member : found ∈ callsOf view definedAt) : found.Names view := by
  obtain ⟨hit, hits, reported⟩ := List.mem_filterMap.mp member
  obtain ⟨count, inside, success, succeeds, rfl⟩ := exists_of_mem_hitsFrom hits
  obtain ⟨apart, word, blanks, call, rfl⟩ := mem_callScan.mp succeeds
  have place : ((⟨0, [], view⟩ : Cursor).advance count).pos = count := Nat.zero_add count
  replace call : BeginsCall word blanks (view.drop count) := call
  obtain ⟨rest, parts⟩ := call.begins
  have named : (⟨count, count + word.length⟩ : Stretch).of view = word :=
    of_stretch_prefix ((List.prefix_append _ _).trans call.begins)
  rw [place] at reported
  split at reported
  · cases reported
  · obtain rfl := Option.some.inj reported
    have stands : StandsAt view word (view.take count).length := by
      have viewParts : view = view.take count ++ (word ++ (blanks ++ '(' :: rest)) := by
        conv_lhs => rw [← List.take_append_drop count view, ← parts]
        simp
      refine .of_parts viewParts (fun c last => ?_) fun c first => ?_
      · have previous : ((⟨0, [], view⟩ : Cursor).advance count).before.head? = some c := by
          rw [Cursor.advance, List.append_nil, List.head?_reverse]
          exact last
        rwa [previous] at apart
      · cases blanks with
        | nil => exact Option.some.inj first ▸ by decide
        | cons d others => exact Option.some.inj first ▸ isIdentifierPart_of_isSpace (call.blank d List.mem_cons_self)
    rw [List.length_take, Nat.min_eq_left inside] at stands
    dsimp only
    refine ⟨?_, ?_⟩
    · simpa only [named, String.toList_ofList] using call.identifier
    · simpa only [named, String.toList_ofList] using stands

section

variable {α β : Type}

theorem EndsApart.many {first : Scan α} (ends : EndsApart first) {accepts : Char → Bool}
    (apart : ∀ c, accepts c = true → isIdentifierPart c = false) : EndsApart (first >>= fun _ => many accepts) := by
  intro cursor found member
  obtain ⟨middle, middleMember, passes⟩ := mem_bind.mp member
  obtain ⟨count, c, middleEq, present, apartLast⟩ := ends cursor middle middleMember
  obtain ⟨run, rest, parts, accepted, rfl⟩ := mem_many_iff_append.mp passes
  rcases List.eq_nil_or_concat run with rfl | ⟨others, last, rfl⟩
  · exact ⟨count, c, by rw [middleEq, List.length_nil, Cursor.advance_zero], present, apartLast⟩
  · rw [List.concat_eq_append] at parts accepted
    refine ⟨count + 1 + others.length, last, ?_, ?_, apart last (accepted last (by simp))⟩
    · rw [middleEq, Cursor.advance_advance, List.length_concat]
      exact congrArg cursor.advance (by omega)
    · rw [middleEq, Cursor.after_advance] at parts
      rw [← List.getElem?_drop, parts, List.append_assoc, List.getElem?_append_right (Nat.le_refl _), Nat.sub_self]
      rfl

theorem BeginsApart.afterSpaces {next : Scan β} (begins : BeginsApart next) :
    BeginsApart (many isSpace >>= fun _ => next) := by
  intro cursor found member
  obtain ⟨middle, passes, nextMember⟩ := mem_bind.mp member
  obtain ⟨run, rest, parts, space, rfl⟩ := mem_many_iff_append.mp passes
  cases run with
  | nil =>
      rw [List.length_nil, Cursor.advance_zero] at nextMember
      exact begins cursor found nextMember
  | cons c others => exact ⟨c, by rw [parts]; rfl, isIdentifierPart_of_isSpace (space c List.mem_cons_self)⟩

def FindsNames (scan : Scan Stretch) : Prop :=
  ∀ cursor, ∀ found ∈ scan cursor, ∃ place name, IsIdentifier name ∧ StandsAt cursor.after name (place + 1) ∧
    found.1 = ⟨cursor.pos + (place + 1), cursor.pos + (place + 1) + name.length⟩

/-- A name that is scanned between characters of no identifier stands as a word of its own. -/
theorem findsNames_between {lead : Scan α} (trail : α → Scan β) (ends : EndsApart lead)
    (begins : ∀ cursor, ∀ led ∈ lead cursor, BeginsApart (trail led.1)) :
    FindsNames (lead >>= fun value => nameStretch identifier >>= fun stretch => trail value >>= fun _ => pure stretch) := by
  intro cursor found member
  obtain ⟨led, leads, member⟩ := mem_bind.mp member
  obtain ⟨named, names, member⟩ := mem_bind.mp member
  obtain ⟨trailed, trails, member⟩ := mem_bind.mp member
  obtain rfl := mem_pure.mp member
  obtain ⟨count, c, ledEq, present, apart⟩ := ends cursor led leads
  obtain ⟨passed, passes, rfl⟩ := mem_nameStretch.mp names
  obtain ⟨length, inside, identifier, rfl⟩ := mem_identifier.mp passes
  obtain ⟨d, follows, apartNext⟩ := begins cursor led leads _ trailed trails
  dsimp only at follows ⊢
  rw [ledEq] at inside identifier follows ⊢
  simp only [Cursor.after_advance, List.getElem?_drop, List.drop_drop, List.length_drop, Nat.add_zero] at inside identifier follows
  have nameLength : ((cursor.after.drop (count + 1)).take length).length = length := by
    rw [List.length_take, List.length_drop, Nat.min_eq_left inside]
  refine ⟨count, _, identifier, ⟨List.take_prefix _ _, fun previous e isPrevious stands => ?_, fun e stands => ?_⟩, ?_⟩
  · obtain rfl : previous = count := Nat.succ.inj isPrevious
    exact Option.some.inj (present.symm.trans stands) ▸ apart
  · rw [nameLength, follows] at stands
    exact Option.some.inj stands ▸ apartNext
  · simp only [nameLength, Cursor.pos_advance]

end

theorem not_isIdentifierPart_of_isQuote {c : Char} (quote : isQuote c = true) : isIdentifierPart c = false := by
  simp only [isQuote, Bool.or_eq_true, beq_iff_eq] at quote
  rcases quote with (rfl | rfl) | rfl <;> decide

theorem FindsNames.names {scan : Scan Stretch} (finds : FindsNames scan) {view : List Char} {cursor : Cursor}
    (here : cursor.after = view.drop cursor.pos) (inside : cursor.pos ≤ view.length) {found : Stretch × Cursor}
    (member : found ∈ scan cursor) (kind : MentionKind) :
    (⟨String.ofList (found.1.of view), kind, found.1.start⟩ : Mentioned).Names view := by
  obtain ⟨place, name, identifier, stands, stretch⟩ := finds cursor found member
  have inView := stands.behind (view.take cursor.pos)
  rw [here, List.take_append_drop, List.length_take, Nat.min_eq_left inside] at inView
  have named : found.1.of view = name := by
    rw [stretch]
    exact of_stretch_prefix inView.named
  have starts : found.1.start = cursor.pos + (place + 1) := congrArg Stretch.start stretch
  refine ⟨?_, ?_⟩
  · simpa only [named, String.toList_ofList] using identifier
  · simpa only [named, String.toList_ofList, starts] using inView

theorem findsNames_evaluatedCall : FindsNames evaluatedCall := by
  have spelled : evaluatedCall =
      (wordEdge >>= fun _ => word "eval" >>= fun _ => many isSpace >>= fun _ => word "(" >>= fun _ => many isSpace >>= fun _ =>
        one isQuote >>= fun _ => many isSpace) >>= fun _ => nameStretch identifier >>= fun found =>
          (many isSpace >>= fun _ => word "(") >>= fun _ => pure found := by
    simp only [Scan.bind_assoc]
    rfl
  rw [spelled]
  refine findsNames_between (fun _ => many isSpace >>= fun _ => word "(") ?_ fun _ _ _ => ?_
  · have quoted := (endsApart_one fun _ => not_isIdentifierPart_of_isQuote).many fun _ => isIdentifierPart_of_isSpace
    exact .after (advances_check _) fun _ => .after (advances_chars _) fun _ => .after (advances_many _) fun _ =>
      .after (advances_chars _) fun _ => .after (advances_many _) fun _ => quoted
  · exact ((beginsApart_one fun _ => not_isIdentifierPart_of_beq (by decide)).before _).afterSpaces

theorem findsNames_bracketMember : FindsNames bracketMember := by
  have spelled : bracketMember =
      (word "[" >>= fun _ => many isSpace >>= fun _ => one (fun c => c == '\'' || c == '"' || c == '`')) >>= fun quote =>
        nameStretch identifier >>= fun found =>
          (chars [quote] >>= fun _ => many isSpace >>= fun _ => word "]") >>= fun _ => pure found := by
    simp only [Scan.bind_assoc]
    rfl
  rw [spelled]
  refine findsNames_between (fun quote => chars [quote] >>= fun _ => many isSpace >>= fun _ => word "]") ?_
    fun cursor led leads => ?_
  · exact .after (advances_chars _) fun _ => .after (advances_many _) fun _ =>
      endsApart_one fun _ => not_isIdentifierPart_of_isQuote
  · obtain ⟨_, _, leads⟩ := mem_bind.mp leads
    obtain ⟨_, _, leads⟩ := mem_bind.mp leads
    obtain ⟨quote, _, _, accepted, rfl⟩ := mem_one.mp leads
    have apart : isIdentifierPart quote = false := not_isIdentifierPart_of_isQuote accepted
    exact ((beginsApart_one fun _ => not_isIdentifierPart_of_beq apart).before _).before _

theorem names_of_mem_evaluatedMentions {view : List Char} {found : Mentioned} (member : found ∈ evaluatedMentions view) :
    found.Names view := by
  obtain ⟨hit, hits, rfl⟩ := List.mem_map.mp member
  obtain ⟨count, inside, success, succeeds, rfl⟩ := exists_of_mem_hitsFrom hits
  have place : ((⟨0, [], view⟩ : Cursor).advance count).pos = count := Nat.zero_add count
  exact findsNames_evaluatedCall.names (by rw [place]; rfl) (by rwa [place]) succeeds .dynamic

/-! ## Names in chains -/

theorem Cursor.after_at (text : List Char) (offset : Nat) :
    (Cursor.at text offset).after = text.drop (Cursor.at text offset).pos := by
  rcases Nat.le_total offset text.length with inside | beyond
  · rw [Cursor.at, Nat.min_eq_left inside]
  · rw [Cursor.at, Nat.min_eq_right beyond, List.drop_length, List.drop_of_length_le beyond]

/-- What a chain in a text mentions: the remote function, in brackets or in a call, or a handler, which is placed where the
argument of its modifier begins. -/
inductive ChainMention (literal text : List Char) : Mentioned → Prop
  | bracket {found : Mentioned} (names : found.Names literal) (isBridge : found.kind = .bridge) : ChainMention literal text found
  | remote {before rest : List Char} {call : ChainCall} (parts : text = before ++ (call.spelled ++ rest)) :
      ChainMention literal text (call.remote before.length)
  | handler {before rest : List Char} {call : ChainCall} (parts : text = before ++ (call.spelled ++ rest)) {found : Mentioned}
      (names : found ∈ call.handlers before.length) : ChainMention literal text found

theorem chainMention_of_mem {modifiers : List String} {literal before text : List Char} {found : Mentioned}
    (member : found ∈ chainMentions modifiers literal (before ++ text).length text) :
    ChainMention literal (before ++ text) found := by
  induction size : text.length using Nat.strong_induction_on generalizing before text with
  | h count inductionHypothesis =>
      by_cases bracket : (text.dropWhile isBlank).head? == some '['
      · rw [chainMentions, if_pos bracket] at member
        split at member
        · rename_i stretch _ first
          obtain rfl := List.mem_singleton.mp member
          have names := findsNames_bracketMember.names (Cursor.after_at _ _) (Nat.min_le_right _ _) (List.mem_of_head? first) .bridge
          exact .bracket names rfl
        · cases member
      · cases read : readLink? (text.dropWhile isBlank) with
        | none =>
            rw [chainMentions_of_noLink _ _ _ bracket read] at member
            cases member
        | some link =>
            obtain ⟨call, parts⟩ := ChainCall.exists_call_of_readLink? read
            rw [parts, List.length_append, ChainCall.chainMentions_eq] at member
            rw [parts]
            split at member
            · rcases List.mem_append.mp member with isHandler | later
              · exact .handler rfl isHandler
              · have shorter : link.rest.length < count := by
                  rw [← size, parts, List.length_append]
                  simp [ChainCall.spelled]
                have again : ChainMention literal ((before ++ call.spelled) ++ link.rest) found :=
                  inductionHypothesis link.rest.length shorter (by rwa [List.length_append, List.length_append]) rfl
                rwa [List.append_assoc] at again
            · obtain rfl := List.mem_singleton.mp member
              exact .remote rfl

theorem isIdentifierPart_of_isBlank {c : Char} (blank : isBlank c = true) : isIdentifierPart c = false := by
  rw [← Bool.not_eq_true]
  intro part
  rw [not_isBlank_of_isIdentifierPart part] at blank
  cases blank

theorem head?_append_apart {spaces rest : List Char} {mark c : Char} (blank : ∀ d ∈ spaces, isIdentifierPart d = false)
    (apart : isIdentifierPart mark = false) (first : (spaces ++ mark :: rest).head? = some c) : isIdentifierPart c = false := by
  cases spaces with
  | nil => exact Option.some.inj first ▸ apart
  | cons d others => exact Option.some.inj first ▸ blank d List.mem_cons_self

theorem getLast?_append_apart {front spaces : List Char} {mark c : Char} (blank : ∀ d ∈ spaces, isIdentifierPart d = false)
    (apart : isIdentifierPart mark = false) (last : (front ++ mark :: spaces).getLast? = some c) :
    isIdentifierPart c = false := by
  rw [← List.head?_reverse, List.reverse_append, List.reverse_cons, List.append_assoc] at last
  exact head?_append_apart (fun d member => blank d (List.mem_reverse.mp member)) apart last

/-- The remote function is mentioned where its name stands. -/
theorem names_remote {before rest : List Char} (call : ChainCall) :
    (call.remote before.length).Names (before ++ (call.spelled ++ rest)) where
  identifier := by
    rw [ChainCall.remote, String.toList_ofList]
    exact call.identifier
  stands := by
    have stands : StandsAt (before ++ (call.spelled ++ rest)) call.name (before ++ call.lead).length := by
      have parts : before ++ (call.spelled ++ rest) =
          (before ++ call.lead) ++ (call.name ++ (call.afterName ++ '(' :: (call.argument ++ ')' :: rest))) := by
        simp [ChainCall.spelled, CallOpening.spelled]
      refine .of_parts parts (fun c last => ?_) fun c first => ?_
      · rw [CallOpening.lead, ← List.append_assoc] at last
        exact getLast?_append_apart (fun d member => isIdentifierPart_of_isBlank (call.blankAfterDot d member)) (by decide) last
      · exact head?_append_apart (fun d member => isIdentifierPart_of_isBlank (call.blankAfterName d member)) (by decide) first
    rw [ChainCall.remote, String.toList_ofList]
    rwa [List.length_append] at stands

/-- A handler is mentioned just behind an opening parenthesis, and its name stands there behind white space at most. -/
structure Mentioned.HandsOver (view : List Char) (found : Mentioned) (opening place : Nat) : Prop where
  position : found.position = opening + 1
  opens : view[opening]? = some '('
  identifier : IsIdentifier found.name.toList
  stands : StandsAt view found.name.toList place
  later : opening < place
  space : ∀ index c, opening < index → index < place → view[index]? = some c → isSpace c = true

theorem exists_handsOver {before rest : List Char} {call : ChainCall} {found : Mentioned}
    (names : found ∈ call.handlers before.length) :
    found.kind = .handler ∧ ∃ opening place, found.HandsOver (before ++ (call.spelled ++ rest)) opening place := by
  unfold ChainCall.handlers at names
  split at names
  case isFalse => cases names
  case isTrue identifier =>
    obtain rfl := List.mem_singleton.mp names
    obtain ⟨spaceAfter, allSpaceAfter, trimmed⟩ := Removal.trimRight_split (trimLeft call.argument)
    have argument := List.takeWhile_append_dropWhile (p := isSpace) (l := call.argument)
    have spaceBefore : ∀ c ∈ call.argument.takeWhile isSpace, isSpace c = true := fun _ => List.mem_takeWhile_imp
    generalize call.argument.takeWhile isSpace = spaces at argument spaceBefore
    rw [← trimLeft, trimmed, ← trim] at argument
    generalize trim call.argument = name at argument identifier
    have opening : call.toCallOpening.spelled = (call.lead ++ (call.name ++ call.afterName)) ++ ['('] := by
      simp [CallOpening.spelled]
    generalize call.lead ++ (call.name ++ call.afterName) = front at opening
    have parts : before ++ (call.spelled ++ rest) =
        (before ++ front ++ '(' :: spaces) ++ (name ++ (spaceAfter ++ ')' :: rest)) := by
      rw [ChainCall.spelled, opening, ← argument]
      simp
    refine ⟨rfl, (before ++ front).length, (before ++ front ++ '(' :: spaces).length, ?_, ?_, ?_, ?_, ?_, ?_⟩
    · simp [opening, Nat.add_assoc]
    · rw [parts]
      simp
    · simpa using identifier
    · rw [String.toList_ofList]
      refine .of_parts parts (fun c last => ?_) fun c first => ?_
      · exact getLast?_append_apart (fun d member => isIdentifierPart_of_isSpace (spaceBefore d member)) (by decide) last
      · exact head?_append_apart (fun d member => isIdentifierPart_of_isSpace (List.all_eq_true.mp allSpaceAfter d member))
          (by decide) first
    · simp
    · intro index c behind early present
      obtain ⟨beyond, rfl⟩ := Nat.exists_eq_add_of_lt behind
      simp only [List.length_append, List.length_cons] at early
      rw [parts, List.append_assoc, Nat.add_assoc, List.getElem?_append_right (Nat.le_add_right _ _), Nat.add_sub_cancel_left,
        List.cons_append, List.getElem?_cons_succ, List.getElem?_append_left (by omega)] at present
      exact spaceBefore c (List.mem_of_getElem? present)

/-! ## Mentions of a file -/

variable {reading : Reading} {file : SourceFile}

theorem Mentioned.Names.of_words {view text : List Char} {found : Mentioned} (names : found.Names view)
    (words : ShowsWords view text) : found.Names text :=
  ⟨names.identifier, words.standsAt names.identifier names.stands⟩

/-- Every mention is placed where its name stands, or just behind the parenthesis that a handler stands in. -/
theorem place_of_mem_mentionedIn {found : Mentioned} (member : found ∈ mentionedIn reading file) :
    found.kind ≠ .handler ∧ found.Names file.text ∨ found.kind = .handler ∧ ∃ opening place,
      found.HandsOver (mask .code (codeOf file.kind file.text)) opening place := by
  have words (view : View) := showsWords_mask_codeOf view file.kind file.text
  unfold mentionedIn at member
  split at member
  · cases member
  · rcases List.mem_append.mp (List.mem_filter.mp member).1 with early | evaluated
    · rcases List.mem_append.mp early with call | remote
      · have isCall : found.kind ≠ .handler := by
          obtain ⟨hit, _, reported⟩ := List.mem_filterMap.mp call
          split at reported
          · cases reported
          · obtain rfl := Option.some.inj reported
            dsimp only
            split <;> exact nofun
        exact Or.inl ⟨isCall, (names_of_mem_callsOf call).of_words (words .code)⟩
      · obtain ⟨object, _, remote⟩ := List.mem_flatMap.mp remote
        obtain ⟨hit, _, remote⟩ := List.mem_flatMap.mp remote
        have whole := List.take_append_drop hit.stop (mask .code (codeOf file.kind file.text))
        have chain := chainMention_of_mem ((congrArg List.length whole).symm ▸ remote)
        rw [whole] at chain
        cases chain with
        | bracket names isBridge => exact Or.inl ⟨isBridge ▸ nofun, names.of_words (words .literal)⟩
        | @remote before rest call parts =>
            exact Or.inl ⟨nofun, (parts ▸ names_remote call).of_words (words .code)⟩
        | handler parts names =>
            rw [parts]
            exact Or.inr (exists_handsOver names)
    · obtain ⟨hit, _, isDynamic⟩ := List.mem_map.mp evaluated
      refine Or.inl ⟨?_, (names_of_mem_evaluatedMentions evaluated).of_words (words .literal)⟩
      rw [← isDynamic]
      exact nofun

theorem lineOf_eq_iff {text : List Char} {first second : Nat} (ordered : first ≤ second) :
    lineOf text first = lineOf text second ↔ ∀ index, first ≤ index → index < second → text[index]? ≠ some '\n' := by
  have parts : text.take second = text.take first ++ Removal.slice text first second := by
    conv_lhs => rw [← List.take_append_drop first (text.take second), List.take_take, Nat.min_eq_left ordered]
    rfl
  rw [lineOf, lineOf, parts, List.count_append]
  have none : (Removal.slice text first second).count '\n' = 0 ↔
      ∀ index, first ≤ index → index < second → text[index]? ≠ some '\n' := by
    rw [List.count_eq_zero, Removal.mem_slice_iff]
    constructor
    · intro free index after before present
      exact free ⟨index, after, before, present⟩
    · rintro free ⟨index, after, before, present⟩
      exact free index after before present
  rw [← none]
  omega

/-- Every mention of a file but a handler is listed with a line that holds its name as a word. A handler is listed with the line
where its argument opens; its name stands in the argument behind white space and what is hidden, and the line is that of the name
just if no line feed stands in between. -/
theorem mentions_point_at_lines (reading : Reading) (file : SourceFile) :
    ∀ mention ∈ (extract reading file).mentions,
      (mention.kind ≠ .handler → HoldsWord (lineAt file.text mention.line) mention.name.toList) ∧
      (mention.kind = .handler → ∃ opening place, file.text[opening]? = some '(' ∧ opening < place ∧
        StandsAt file.text mention.name.toList place ∧
        (∀ index c, opening < index → index < place →
          (mask .code (codeOf file.kind file.text))[index]? = some c → isSpace c = true) ∧
        HoldsWord (lineAt file.text (lineOf file.text place)) mention.name.toList ∧
        mention.line = lineOf file.text (opening + 1) ∧
        (mention.line = lineOf file.text place ↔
          ∀ index, opening < index → index < place → file.text[index]? ≠ some '\n')) := by
  intro mention member
  rw [mentions_extract] at member
  obtain ⟨found, listed, rfl⟩ := List.mem_map.mp member
  refine ⟨fun noHandler => ?_, fun isHandler => ?_⟩
  · obtain ⟨_, names⟩ := (place_of_mem_mentionedIn listed).resolve_right fun handler => noHandler handler.1
    exact names.stands.holdsWord_line names.identifier
  · obtain ⟨_, opening, place, hands⟩ := (place_of_mem_mentionedIn listed).resolve_left fun other => other.1 isHandler
    have stands := (showsWords_mask_codeOf .code file.kind file.text).standsAt hands.identifier hands.stands
    have shows := (shows_mask .code (codeOf file.kind file.text)).trans (shows_codeOf file.kind file.text)
    have line : (listedMention reading file found).line = lineOf file.text (opening + 1) := by
      rw [listedMention, hands.position]
    refine ⟨opening, place, shows.getElem?_of_visible hands.opens (by decide), hands.later, stands, hands.space,
      stands.holdsWord_line hands.identifier, line, ?_⟩
    rw [line]
    exact lineOf_eq_iff hands.later

/-- A chain with a handler on a line of its own. -/
def wrappedFile : SourceFile :=
  { path := "a.gs", kind := .backend, text := "google.script.run.withSuccessHandler(\n  onDone\n).save();\n".toList, size := 57 }

theorem isIdentifier_withSuccessHandler : IsIdentifier "withSuccessHandler".toList := by
  decide

theorem balanced_wrapped : Balanced .round "\n  onDone\n".toList := by
  decide

def wrappedCall : ChainCall :=
  .compact "" "withSuccessHandler" "\n  onDone\n" rfl isIdentifier_withSuccessHandler balanced_wrapped

theorem wrappedHandler_mentioned : ⟨"onDone", .handler, 37⟩ ∈ mentionedIn (.ofLists [] [] []) wrappedFile := by
  have shown : ∀ view, mask view wrappedFile.text = wrappedFile.text := mask_eq_self (by simp [wrappedFile])
  have code : codeOf wrappedFile.kind wrappedFile.text = wrappedFile.text := rfl
  have stops : ((bridgeObject "google.script.run").hits wrappedFile.text).map (·.stop) = [17] := by decide +kernel
  obtain ⟨hit, member, stop⟩ := List.mem_map.mp (stops ▸ List.mem_singleton_self 17)
  rw [mentionedIn, if_neg (by decide), code]
  dsimp only
  rw [shown, shown]
  refine List.mem_filter.mpr ⟨List.mem_append_left _ (List.mem_append_right _ ?_), by decide +kernel⟩
  refine List.mem_flatMap.mpr ⟨"google.script.run", List.mem_singleton_self _, List.mem_flatMap.mpr ⟨hit, member, ?_⟩⟩
  have chain : wrappedFile.text.drop hit.stop = wrappedCall.spelled ++ ".save();\n".toList := by
    rw [stop]
    decide +kernel
  have total : wrappedFile.text.length = 17 + (wrappedCall.spelled ++ ".save();\n".toList).length := by decide +kernel
  rw [chain, total, ChainCall.chainMentions_eq, if_pos (by decide +kernel)]
  exact List.mem_append_left _ (by decide +kernel)

def wrappedHandler : Mention :=
  listedMention (.ofLists [] [] []) wrappedFile ⟨"onDone", .handler, 37⟩

theorem wrappedHandler_listed : wrappedHandler ∈ (extract (.ofLists [] [] []) wrappedFile).mentions := by
  rw [mentions_extract]
  exact List.mem_map_of_mem wrappedHandler_mentioned

theorem wrappedHandler_points_behind_parenthesis : wrappedHandler ∈ (extract (.ofLists [] [] []) wrappedFile).mentions ∧
    wrappedHandler.kind = .handler ∧ ∃ opening place, wrappedFile.text[opening]? = some '(' ∧ opening < place ∧
      StandsAt wrappedFile.text "onDone".toList place ∧ wrappedHandler.line = lineOf wrappedFile.text (opening + 1) := by
  obtain ⟨opening, place, opens, later, stands, _, _, line, _⟩ :=
    (mentions_point_at_lines (.ofLists [] [] []) wrappedFile wrappedHandler wrappedHandler_listed).2 rfl
  exact ⟨wrappedHandler_listed, rfl, opening, place, opens, later, stands, line⟩

/-- The first line, with which the handler is listed, holds its parenthesis but not its name. -/
theorem wrappedHandler_listed_elsewhere : wrappedHandler ∈ (extract (.ofLists [] [] []) wrappedFile).mentions ∧
    wrappedHandler.name = "onDone" ∧ wrappedHandler.line = 1 ∧
      ¬ HoldsWord (lineAt wrappedFile.text wrappedHandler.line) wrappedHandler.name.toList := by
  have line : wrappedHandler.line = 1 := by
    rw [wrappedHandler, listedMention]
    decide +kernel
  refine ⟨wrappedHandler_listed, rfl, line, ?_⟩
  rintro ⟨place, stands⟩
  have held : "onDone".toList <:+: lineAt wrappedFile.text 1 :=
    stands.named.isInfix.trans (line ▸ (List.drop_suffix place _).isInfix)
  exact absurd held (by decide +kernel)

end Deadwood.Source
