import Deadwood.Proofs.ScanLocality

/-!
# The anatomy of introducers

Each of the four introducers asks something of the edge it begins at and then scans what leads to the name, the name,
and what follows it. Apart from the edge, all of that is local. An introducer begins with a visible character, possibly
after spaces and tabs, and ends with one.
-/

set_option autoImplicit false
namespace Deadwood.Source

open Deadwood.Text

namespace Scan

variable {α β γ : Type}

theorem bind_assoc (first : Scan α) (second : α → Scan β) (third : β → Scan γ) :
    (first >>= second) >>= third = first >>= fun value => second value >>= third := by
  funext cursor
  simp only [bind_apply, List.flatMap_assoc]

/-! ## Marks -/

/-- Where a name begins and ends and where the scan that found it stops, counted from where the scan began. -/
structure Mark where
  nameStart : Nat
  nameStop : Nat
  stop : Nat
  deriving Repr, DecidableEq

def Mark.hit (mark : Mark) (pos : Nat) : Hit Stretch :=
  ⟨pos, pos + mark.stop, ⟨pos + mark.nameStart, pos + mark.nameStop⟩⟩

def marks (scan : Scan Stretch) (cursor : Cursor) : List Mark :=
  (scan cursor).map fun found =>
    ⟨found.1.start - cursor.pos, found.1.stop - cursor.pos, found.2.pos - cursor.pos⟩

def marksWithin (scan : Scan Stretch) (cursor : Cursor) (room : Nat) : List Mark :=
  (marks scan cursor).filter (·.stop ≤ room)

/-- A name between what leads to it and what follows it. -/
def named (lead name trail : Scan Unit) : Scan Stretch :=
  lead >>= fun _ => nameStretch name >>= fun found => trail >>= fun _ => pure found

theorem named_apply (lead name trail : Scan Unit) (cursor : Cursor) :
    named lead name trail cursor = (lead cursor).flatMap fun led => (name led.2).flatMap fun passed =>
      (trail passed.2).map fun ended => (⟨led.2.pos, passed.2.pos⟩, ended.2) := by
  simp only [named, nameStretch, bind_apply, pure_apply, here, List.flatMap_assoc, List.flatMap_singleton]
  refine List.flatMap_congr fun led _ => List.flatMap_congr fun passed _ => ?_
  rw [List.map_eq_flatMap]

/-- The three parts of a scan for a name only move forward. -/
structure PartsAdvance (lead name trail : Scan Unit) : Prop where
  lead : Advances lead
  name : Advances name
  trail : Advances trail

/-- The marks of the ends that `trail` reaches after a name between the offsets `start` and `stop`. -/
theorem filter_marks_trail {trail : Scan Unit} (advances : Advances trail) (cursor : Cursor) (start stop room : Nat) :
    ((trail (cursor.advance stop)).map fun ended => (⟨start, stop, ended.2.pos - cursor.pos⟩ : Mark)).filter
        (·.stop ≤ room) =
      if stop ≤ room then (trail.within (cursor.advance stop) (room - stop)).map fun count =>
        ⟨start, stop, stop + count⟩ else [] := by
  have reach := filter_map_advance advances (cursor.advance stop) cursor.pos stop rfl room
  have marked : ((trail (cursor.advance stop)).map fun ended => (⟨start, stop, ended.2.pos - cursor.pos⟩ : Mark)) =
      ((trail (cursor.advance stop)).map fun ended => ended.2.pos - cursor.pos).map fun reached => ⟨start, stop, reached⟩ := by
    rw [List.map_map]
    rfl
  rw [marked, List.filter_map]
  simp only [Function.comp_def]
  rw [reach]
  split
  · rw [List.map_map]
    rfl
  · rfl

theorem marksWithin_named {lead name trail : Scan Unit} (parts : PartsAdvance lead name trail) (cursor : Cursor)
    (room : Nat) :
    marksWithin (named lead name trail) cursor room =
      (lead.within cursor room).flatMap fun start =>
        (name.within (cursor.advance start) (room - start)).flatMap fun length =>
          (trail.within (cursor.advance (start + length)) (room - (start + length))).map fun count =>
            ⟨start, start + length, start + length + count⟩ := by
  -- the marks of a name that is found at a cursor
  let marksAt : Cursor → List Mark := fun led => (name led).flatMap fun passed =>
    (trail passed.2).map fun ended => ⟨led.pos - cursor.pos, passed.2.pos - cursor.pos, ended.2.pos - cursor.pos⟩
  have marked : marks (named lead name trail) cursor = (lead cursor).flatMap fun led => marksAt led.2 := by
    simp only [marks, named_apply, List.map_flatMap, List.map_map]
    rfl
  have ended : ∀ start length, ((trail (cursor.advance (start + length))).map fun ended =>
      (⟨start, start + length, ended.2.pos - cursor.pos⟩ : Mark)).filter (·.stop ≤ room) =
        if start + length ≤ room then
          (trail.within (cursor.advance (start + length)) (room - (start + length))).map fun count =>
            ⟨start, start + length, start + length + count⟩
        else [] :=
    fun start length => filter_marks_trail parts.trail cursor start (start + length) room
  have inner : ∀ start, (marksAt (cursor.advance start)).filter (·.stop ≤ room) =
      (name.within (cursor.advance start) (room - start)).flatMap fun length =>
        if start + length ≤ room then
          (trail.within (cursor.advance (start + length)) (room - (start + length))).map fun count =>
            ⟨start, start + length, start + length + count⟩
        else [] := by
    intro start
    have found := filter_flatMap_advances parts.name (fun passed => (trail passed).map fun ended =>
      (⟨(cursor.advance start).pos - cursor.pos, passed.pos - cursor.pos, ended.2.pos - cursor.pos⟩ : Mark))
      (fun mark => decide (mark.stop ≤ room)) (cursor.advance start) (room - start)
    simp only [Cursor.advance_advance, Cursor.pos_advance, Nat.add_sub_cancel_left, ended] at found
    have same : marksAt (cursor.advance start) = (name (cursor.advance start)).flatMap fun passed =>
        (trail passed.2).map fun ended => ⟨start, passed.2.pos - cursor.pos, ended.2.pos - cursor.pos⟩ := by
      simp only [marksAt, Cursor.pos_advance, Nat.add_sub_cancel_left]
    rw [same]
    exact found fun count far => if_neg (by omega)
  rw [marksWithin, marked, filter_flatMap_advances parts.lead marksAt _ cursor room]
  · refine List.flatMap_congr fun start member => ?_
    have near : start ≤ room := of_decide_eq_true (List.mem_filter.mp member).2
    rw [inner]
    refine List.flatMap_congr fun length memberLength => ?_
    have nearLength : length ≤ room - start := of_decide_eq_true (List.mem_filter.mp memberLength).2
    rw [if_pos (by omega)]
  · intro start far
    rw [inner]
    refine List.flatMap_eq_nil_iff.mpr fun length _ => if_neg (by omega)

theorem marksWithin_named_congr {lead name trail : Scan Unit} (leadLocal : Local lead) (nameLocal : Local name)
    (trailLocal : Local trail) (pos pos' : Nat) (before before' window rest rest' : List Char)
    (meets : Meets window rest rest') :
    marksWithin (named lead name trail) ⟨pos, before, window ++ rest⟩ window.length =
      marksWithin (named lead name trail) ⟨pos', before', window ++ rest'⟩ window.length := by
  have parts : PartsAdvance lead name trail := ⟨leadLocal.advances, nameLocal.advances, trailLocal.advances⟩
  have moved : ∀ (scan : Scan Unit), Local scan → ∀ count ≤ window.length,
      scan.within ((⟨pos, before, window ++ rest⟩ : Cursor).advance count) (window.length - count) =
        scan.within ((⟨pos', before', window ++ rest'⟩ : Cursor).advance count) (window.length - count) := by
    intro scan scanLocal count inside
    have room : window.length - count = (window.drop count).length := by rw [List.length_drop]
    rw [Cursor.advance_append inside, Cursor.advance_append inside, room]
    exact scanLocal.same _ _ _ _ (window.drop count) rest rest' (meets.drop count)
  rw [marksWithin_named parts, marksWithin_named parts, leadLocal.same pos pos' before before' window rest rest' meets]
  refine List.flatMap_congr fun start startMember => ?_
  have startInside : start ≤ window.length := of_decide_eq_true (List.mem_filter.mp startMember).2
  rw [moved name nameLocal start startInside]
  refine List.flatMap_congr fun length lengthMember => ?_
  have lengthInside : length ≤ window.length - start := of_decide_eq_true (List.mem_filter.mp lengthMember).2
  rw [moved trail trailLocal (start + length) (by omega)]

/-! ## Visible ends -/

def EndsVisibly (scan : Scan α) : Prop :=
  ∀ cursor, ∀ found ∈ scan cursor, ∃ count c, found.2 = cursor.advance (count + 1) ∧
    cursor.after[count]? = some c ∧ isSpace c = false

theorem EndsVisibly.after {first : Scan α} {next : α → Scan β} (advances : Advances first)
    (ends : ∀ value, EndsVisibly (next value)) : EndsVisibly (first >>= next) := by
  intro cursor found member
  obtain ⟨middle, middleMember, foundMember⟩ := List.mem_flatMap.mp member
  obtain ⟨passed, _, middleEq⟩ := advances cursor middle middleMember
  obtain ⟨count, c, foundEq, present, visible⟩ := ends middle.1 middle.2 found foundMember
  rw [middleEq, Cursor.advance_advance] at foundEq
  rw [middleEq, Cursor.after_advance, List.getElem?_drop] at present
  exact ⟨passed + count, c, foundEq, present, visible⟩

theorem EndsVisibly.either {first second : Scan α} (firstEnds : EndsVisibly first) (secondEnds : EndsVisibly second) :
    EndsVisibly (either first second) := by
  intro cursor found member
  rcases List.mem_append.mp member with early | late
  · exact firstEnds cursor found early
  · exact secondEnds cursor found late

theorem endsVisibly_chars {word : List Char} {c : Char} (last : word.getLast? = some c) (visible : isSpace c = false) :
    EndsVisibly (chars word) := by
  intro cursor found member
  rw [chars_apply] at member
  split at member
  · rename_i begins
    obtain rfl := List.mem_singleton.mp member
    obtain ⟨others, same⟩ := begins
    have positive : 0 < word.length := by
      cases word with
      | nil => cases last
      | cons _ _ => exact Nat.succ_pos _
    refine ⟨word.length - 1, c, by rw [Nat.sub_add_cancel positive], ?_, visible⟩
    rw [← same, List.getElem?_append_left (by omega), ← last, List.getLast?_eq_getElem?]
  · cases member

theorem endsVisibly_keyword {word : List Char} {c : Char} (last : word.getLast? = some c) (visible : isSpace c = false) :
    EndsVisibly (keyword word) := by
  intro cursor found member
  obtain ⟨middle, middleMember, foundMember⟩ := List.mem_flatMap.mp member
  obtain ⟨count, d, middleEq, present⟩ := endsVisibly_chars last visible cursor middle middleMember
  obtain rfl := eq_of_mem_check foundMember
  exact ⟨count, d, middleEq, present⟩

/-- Every success of the scan passes spaces and tabs at most, and then a visible character. -/
def BeginsVisibly (scan : Scan α) : Prop :=
  ∀ cursor, ∀ found ∈ scan cursor, ∃ indent c, (∀ d ∈ cursor.after.take indent, isInlineBlank d = true) ∧
    cursor.after[indent]? = some c ∧ isSpace c = false

theorem BeginsVisibly.before {first : Scan α} (begins : BeginsVisibly first) (next : α → Scan β) :
    BeginsVisibly (first >>= next) := by
  intro cursor found member
  obtain ⟨middle, middleMember, _⟩ := List.mem_flatMap.mp member
  exact begins cursor middle middleMember

theorem BeginsVisibly.either {first second : Scan α} (firstBegins : BeginsVisibly first)
    (secondBegins : BeginsVisibly second) : BeginsVisibly (either first second) := by
  intro cursor found member
  rcases List.mem_append.mp member with early | late
  · exact firstBegins cursor found early
  · exact secondBegins cursor found late

theorem beginsVisibly_one {accepts : Char → Bool} (visible : ∀ c, accepts c = true → isSpace c = false) :
    BeginsVisibly (one accepts) := by
  intro cursor found member
  rw [one_apply] at member
  split at member
  · rename_i c rest same
    split at member
    · rename_i accepted
      exact ⟨0, c, by simp, by simp [same], visible c accepted⟩
    · cases member
  · cases member

theorem beginsVisibly_chars {word : List Char} {c : Char} (first : word.head? = some c) (visible : isSpace c = false) :
    BeginsVisibly (chars word) := by
  cases word with
  | nil => cases first
  | cons d rest =>
      obtain rfl := Option.some.inj first
      refine (beginsVisibly_one fun e same => ?_).before _
      rwa [beq_iff_eq.mp same]

/-- Indentation before a visible character. -/
theorem BeginsVisibly.indented {next : Scan α} (begins : BeginsVisibly next) :
    BeginsVisibly (many isInlineBlank >>= fun _ => next) := by
  intro cursor found member
  obtain ⟨middle, middleMember, foundMember⟩ := List.mem_flatMap.mp member
  rw [many_apply] at middleMember
  obtain ⟨count, counted, rfl⟩ := List.mem_map.mp middleMember
  obtain ⟨indent, c, inline, present, visible⟩ := begins (cursor.advance count) found foundMember
  rw [Cursor.after_advance] at inline present
  rw [List.getElem?_drop] at present
  refine ⟨count + indent, c, ?_, present, visible⟩
  intro d inside
  rw [List.take_add] at inside
  rcases List.mem_append.mp inside with early | late
  · have bound := List.mem_range.mp (List.mem_reverse.mp counted)
    have run : cursor.after.take count <+: cursor.after.takeWhile isInlineBlank := by
      refine List.prefix_of_prefix_length_le (List.take_prefix _ _) (List.takeWhile_prefix _) ?_
      rw [List.length_take]
      omega
    exact List.mem_takeWhile_imp (run.subset early)
  · exact inline d late

end Scan

/-! ## Parts of the introducers -/

open Scan

theorem toNat_of_isAlpha {c : Char} (letter : c.isAlpha = true) :
    (65 ≤ c.toNat ∧ c.toNat ≤ 90) ∨ (97 ≤ c.toNat ∧ c.toNat ≤ 122) := by
  have spelled : (decide (65 ≤ c.val ∧ c.val ≤ 90) || decide (97 ≤ c.val) && decide (c.val ≤ 122)) = true := letter
  simp only [Bool.or_eq_true, Bool.and_eq_true, decide_eq_true_eq, UInt32.le_iff_toNat_le] at spelled
  exact spelled

theorem isSpace_of_isIdentifierStart {c : Char} (start : isIdentifierStart c = true) : isSpace c = false := by
  simp only [isIdentifierStart, Bool.or_eq_true, beq_iff_eq] at start
  rcases start with (letter | rfl) | rfl
  · have range := toNat_of_isAlpha letter
    simp only [isSpace, Bool.or_eq_false_iff, Bool.and_eq_false_iff, decide_eq_false_iff_not, beq_eq_false_iff_ne]
    omega
  · decide
  · decide

theorem local_identifier : Local identifier :=
  (local_one isIdentifierStart).bind (local_many isIdentifierPart)

theorem beginsVisibly_identifier : BeginsVisibly identifier :=
  (beginsVisibly_one fun _ start => isSpace_of_isIdentifierStart start).before _

theorem local_function : Local (keyword "function".toList) :=
  local_keyword (by decide)

theorem local_parameters :
    Local (word "(" >>= fun _ => many (fun c => c != '(' && c != ')') >>= fun _ => word ")") :=
  (local_word "(").bind ((local_many _).bind (local_word ")"))

theorem local_callableValue : Local callableValue :=
  ((local_word "async").bind (local_many isSpace)).optional.bind
    (local_function.either
      ((local_parameters.either local_identifier).bind ((local_many isSpace).bind (local_word "=>"))))

theorem endsVisibly_callableValue : EndsVisibly callableValue := by
  have arrowEnds : EndsVisibly (word "=>") := endsVisibly_chars rfl rfl
  have functionEnds : EndsVisibly (keyword "function".toList) := endsVisibly_keyword rfl rfl
  refine EndsVisibly.after ((local_word "async").bind (local_many isSpace)).optional.advances fun _ => ?_
  refine functionEnds.either ?_
  refine EndsVisibly.after (local_parameters.either local_identifier).advances fun _ => ?_
  exact EndsVisibly.after (advances_many isSpace) fun _ => arrowEnds

/-! ## Modifiers -/

def modifier : Scan Unit :=
  either (word "async") (word "static") >>= fun _ => oneOrMore isInlineBlank

theorem local_modifier : Local modifier :=
  ((local_word "async").either (local_word "static")).bind (local_oneOrMore isInlineBlank)

theorem modifiersUpTo_succ (limit : Nat) :
    modifiersUpTo (limit + 1) = Scan.optional (modifier >>= fun _ => modifiersUpTo limit) := by
  rw [modifiersUpTo, modifier, Scan.bind_assoc]

theorem advances_modifiersUpTo (limit : Nat) : Advances (modifiersUpTo limit) := by
  induction limit with
  | zero => exact advances_pure ()
  | succ limit ih =>
      rw [modifiersUpTo_succ]
      exact (local_modifier.advances.bind fun _ => ih).optional

theorem beginsVisibly_modifier : BeginsVisibly modifier :=
  ((beginsVisibly_chars rfl rfl).either (beginsVisibly_chars rfl rfl)).before _

theorem endsVisibly_modifierWord : EndsVisibly (either (word "async") (word "static")) :=
  (endsVisibly_chars rfl rfl).either (endsVisibly_chars rfl rfl)

theorem pos_of_mem_within_modifier {cursor : Cursor} {room count : Nat} (member : count ∈ modifier.within cursor room) :
    0 < count := by
  obtain ⟨found, foundMember, rfl⟩ := List.mem_map.mp (List.mem_filter.mp member).1
  obtain ⟨middle, middleMember, nextMember⟩ := List.mem_flatMap.mp foundMember
  obtain ⟨passed, _, middleEq, _⟩ := endsVisibly_modifierWord cursor middle middleMember
  obtain ⟨more, _, foundEq⟩ := (local_oneOrMore isInlineBlank).advances middle.2 found nextMember
  rw [foundEq, middleEq, Cursor.pos_advance, Cursor.pos_advance]
  omega

theorem within_modifiersUpTo_succ (limit : Nat) (cursor : Cursor) (room : Nat) :
    (modifiersUpTo (limit + 1)).within cursor room =
      ((modifier.within cursor room).flatMap fun count =>
        ((modifiersUpTo limit).within (cursor.advance count) (room - count)).map (count + ·)) ++ [0] := by
  rw [modifiersUpTo_succ, Scan.optional, within_either, within_pure,
    within_bind local_modifier.advances (advances_modifiersUpTo limit)]

theorem within_modifiersUpTo_zero (limit : Nat) (cursor : Cursor) : (modifiersUpTo limit).within cursor 0 = [0] := by
  cases limit with
  | zero => exact within_pure () cursor 0
  | succ limit =>
      rw [within_modifiersUpTo_succ]
      have none : modifier.within cursor 0 = [] := by
        refine List.eq_nil_iff_forall_not_mem.mpr fun count member => ?_
        have near : count ≤ 0 := of_decide_eq_true (List.mem_filter.mp member).2
        have positive := pos_of_mem_within_modifier member
        omega
      rw [none, List.flatMap_nil, List.nil_append]

/-- Inside a window it makes no difference how many modifiers are allowed, if they are as many as the window has
characters. -/
theorem within_modifiersUpTo_congr (limit limit' pos pos' : Nat) (before before' window rest rest' : List Char)
    (meets : Meets window rest rest') (enough : window.length ≤ limit) (enough' : window.length ≤ limit') :
    (modifiersUpTo limit).within ⟨pos, before, window ++ rest⟩ window.length =
      (modifiersUpTo limit').within ⟨pos', before', window ++ rest'⟩ window.length := by
  induction limit generalizing limit' pos pos' before before' window with
  | zero =>
      have empty : window.length = 0 := Nat.le_zero.mp enough
      rw [empty, within_modifiersUpTo_zero, within_modifiersUpTo_zero]
  | succ limit ih =>
      cases limit' with
      | zero =>
          have empty : window.length = 0 := Nat.le_zero.mp enough'
          rw [empty, within_modifiersUpTo_zero, within_modifiersUpTo_zero]
      | succ limit' =>
          rw [within_modifiersUpTo_succ, within_modifiersUpTo_succ,
            local_modifier.same pos pos' before before' window rest rest' meets]
          congr 1
          refine List.flatMap_congr fun count member => ?_
          have inside : count ≤ window.length := of_decide_eq_true (List.mem_filter.mp member).2
          have positive := pos_of_mem_within_modifier member
          have room : window.length - count = (window.drop count).length := by rw [List.length_drop]
          rw [Cursor.advance_append inside, Cursor.advance_append inside, room]
          rw [ih limit' _ _ _ _ (window.drop count) (meets.drop count) (by omega) (by omega)]

theorem local_modifiers : Local modifiers where
  advances cursor := advances_modifiersUpTo cursor.after.length cursor
  same pos pos' before before' window rest rest' meets := by
    refine within_modifiersUpTo_congr _ _ pos pos' before before' window rest rest' meets ?_ ?_
    · rw [List.length_append]
      omega
    · rw [List.length_append]
      omega

theorem beginsVisibly_afterModifiers {α : Type} {next : Scan α} (begins : BeginsVisibly next) :
    BeginsVisibly (modifiers >>= fun _ => next) := by
  intro cursor found member
  obtain ⟨middle, middleMember, foundMember⟩ := List.mem_flatMap.mp member
  have atCursor : middle = ((), cursor) ∨ ∃ limit, middle ∈ (modifier >>= fun _ => modifiersUpTo limit) cursor := by
    unfold modifiers at middleMember
    cases limit : cursor.after.length with
    | zero =>
        rw [limit] at middleMember
        exact Or.inl (List.mem_singleton.mp middleMember)
    | succ limit =>
        rw [limit, modifiersUpTo_succ] at middleMember
        rcases List.mem_append.mp middleMember with some | none
        · exact Or.inr ⟨_, some⟩
        · exact Or.inl (List.mem_singleton.mp none)
  rcases atCursor with rfl | ⟨limit, some⟩
  · exact begins cursor found foundMember
  · exact beginsVisibly_modifier.before _ cursor middle some

/-! ## The four introducers -/

/-- What is asked of the edge where an introducer begins, what leads to the name, and what follows it. -/
structure Anatomy where
  edge : Option Char → Option Char → Bool
  lead : Scan Unit
  trail : Scan Unit

namespace Anatomy

def introducer (anatomy : Anatomy) (name : Scan Unit) : Scan Stretch :=
  check anatomy.edge >>= fun _ => named anatomy.lead name anatomy.trail

/-- Apart from its edge the introducer is local, and it begins and ends visibly. -/
structure Regular (anatomy : Anatomy) : Prop where
  leadLocal : Local anatomy.lead
  trailLocal : Local anatomy.trail
  begins : BeginsVisibly (named anatomy.lead identifier anatomy.trail)
  ends : EndsVisibly anatomy.trail

def atWordEdge (previous next : Option Char) : Bool :=
  previous.any isWordChar != next.any isWordChar

def atLineStart (previous _next : Option Char) : Bool :=
  previous.all (· == '\n')

def ofFunction : Anatomy where
  edge := atWordEdge
  lead := keyword "function".toList >>= fun _ => many isSpace >>= fun _ => Scan.optional (word "*") >>= fun _ =>
    many isSpace
  trail := many isSpace >>= fun _ => word "("

def ofBinding : Anatomy where
  edge := atWordEdge
  lead := either (word "const") (either (word "let") (word "var")) >>= fun _ => oneOrMore isSpace
  trail := many isSpace >>= fun _ => word "=" >>= fun _ => many isSpace >>= fun _ => callableValue

def ofProperty : Anatomy where
  edge := atLineStart
  lead := many isInlineBlank
  trail := many isInlineBlank >>= fun _ => word ":" >>= fun _ => many isInlineBlank >>= fun _ => callableValue

def ofMethod : Anatomy where
  edge := atLineStart
  lead := many isInlineBlank >>= fun _ => modifiers
  trail := many isInlineBlank >>= fun _ => word "(" >>= fun _ => many (fun c => c != '(' && c != ')') >>= fun _ =>
    word ")" >>= fun _ => many isInlineBlank >>= fun _ => word "\x7b"

def all : List (DefinitionKind × Anatomy) :=
  [(.function, ofFunction), (.boundCallable, ofBinding), (.method, ofProperty), (.method, ofMethod)]

theorem introducers_eq (name : Scan Unit) :
    introducers name = all.map fun (kind, anatomy) => (kind, anatomy.introducer name) := by
  have function : functionIntroducer name = ofFunction.introducer name := by
    simp only [introducer, ofFunction, named, keyword, Scan.bind_assoc]
    rfl
  have binding : bindingIntroducer name = ofBinding.introducer name := by
    simp only [introducer, ofBinding, named, Scan.bind_assoc]
    rfl
  have property : propertyIntroducer name = ofProperty.introducer name := by
    simp only [introducer, ofProperty, named, Scan.bind_assoc]
    rfl
  have method : methodIntroducer name = ofMethod.introducer name := by
    simp only [introducer, ofMethod, named, Scan.bind_assoc]
    rfl
  rw [introducers, function, binding, property, method]
  rfl

theorem beginsVisibly_nameStretch {name : Scan Unit} (begins : BeginsVisibly name) : BeginsVisibly (nameStretch name) := by
  intro cursor found member
  have named : nameStretch name cursor = (name cursor).map fun passed => (⟨cursor.pos, passed.2.pos⟩, passed.2) := by
    simp only [nameStretch, bind_apply, here, pure_apply, List.flatMap_singleton, List.map_eq_flatMap]
  rw [named] at member
  obtain ⟨passed, passedMember, _⟩ := List.mem_map.mp member
  exact begins cursor passed passedMember

theorem beginsVisibly_fromName (trail : Scan Unit) :
    BeginsVisibly (nameStretch identifier >>= fun found => trail >>= fun _ => pure found) :=
  (beginsVisibly_nameStretch beginsVisibly_identifier).before _

theorem regular_function : ofFunction.Regular where
  leadLocal := local_function.bind ((local_many isSpace).bind ((local_word "*").optional.bind (local_many isSpace)))
  trailLocal := (local_many isSpace).bind (local_word "(")
  begins := (((beginsVisibly_chars rfl rfl).before _).before _).before _
  ends := EndsVisibly.after (advances_many isSpace) fun _ => endsVisibly_chars rfl rfl

theorem regular_binding : ofBinding.Regular where
  leadLocal :=
    ((local_word "const").either ((local_word "let").either (local_word "var"))).bind (local_oneOrMore isSpace)
  trailLocal :=
    (local_many isSpace).bind ((local_word "=").bind ((local_many isSpace).bind local_callableValue))
  begins :=
    (((beginsVisibly_chars rfl rfl).either
      ((beginsVisibly_chars rfl rfl).either (beginsVisibly_chars rfl rfl))).before _).before _
  ends :=
    EndsVisibly.after (advances_many isSpace) fun _ => EndsVisibly.after (local_word "=").advances fun _ =>
      EndsVisibly.after (advances_many isSpace) fun _ => endsVisibly_callableValue

theorem regular_property : ofProperty.Regular where
  leadLocal := local_many isInlineBlank
  trailLocal :=
    (local_many isInlineBlank).bind ((local_word ":").bind ((local_many isInlineBlank).bind local_callableValue))
  begins := (beginsVisibly_fromName _).indented
  ends :=
    EndsVisibly.after (advances_many isInlineBlank) fun _ => EndsVisibly.after (local_word ":").advances fun _ =>
      EndsVisibly.after (advances_many isInlineBlank) fun _ => endsVisibly_callableValue

theorem regular_method : ofMethod.Regular where
  leadLocal := (local_many isInlineBlank).bind local_modifiers
  trailLocal :=
    (local_many isInlineBlank).bind ((local_word "(").bind ((local_many _).bind ((local_word ")").bind
      ((local_many isInlineBlank).bind (local_word "\x7b")))))
  begins := by
    rw [named, ofMethod, Scan.bind_assoc]
    exact (beginsVisibly_afterModifiers (beginsVisibly_fromName _)).indented
  ends :=
    EndsVisibly.after (advances_many isInlineBlank) fun _ => EndsVisibly.after (local_word "(").advances fun _ =>
      EndsVisibly.after (advances_many _) fun _ => EndsVisibly.after (local_word ")").advances fun _ =>
        EndsVisibly.after (advances_many isInlineBlank) fun _ => endsVisibly_chars rfl rfl

theorem regular_of_mem_all {kind : DefinitionKind} {anatomy : Anatomy} (member : (kind, anatomy) ∈ all) :
    anatomy.Regular := by
  simp only [all, List.mem_cons, Prod.mk.injEq, List.not_mem_nil, or_false] at member
  rcases member with ⟨_, rfl⟩ | ⟨_, rfl⟩ | ⟨_, rfl⟩ | ⟨_, rfl⟩
  · exact regular_function
  · exact regular_binding
  · exact regular_property
  · exact regular_method

end Anatomy
end Deadwood.Source
