import Deadwood.Proofs.Calls
import Deadwood.Proofs.SpanBounds

/-!
# A binding at the beginning of a text

A text that begins with a constant's binding to an arrow function has this binding for its first introducer of the constant's
name. A `function` takes up more room before a name than `const` does. A property or a method passes nothing but words and blanks
before its own mark, and so it would have to begin behind the name.
-/

set_option autoImplicit false
namespace Deadwood

open Source Text Scan

namespace Source

namespace Scan

variable {α β : Type} {accepts : Char → Bool}

/-! ## Scans that pass a run -/

def Passes (scan : Scan α) (run : List Char) : Prop :=
  ∀ pos before rest, ∃ value, (value, (⟨pos + run.length, run.reverse ++ before, rest⟩ : Cursor)) ∈
    scan ⟨pos, before, run ++ rest⟩

theorem passes_pure (value : α) : Passes (pure value : Scan α) [] := by
  intro pos before rest
  exact ⟨value, mem_pure.mpr rfl⟩

theorem Passes.bind {first : Scan α} {next : α → Scan β} {run later : List Char} (passesFirst : Passes first run)
    (passesNext : ∀ value, Passes (next value) later) : Passes (first >>= next) (run ++ later) := by
  intro pos before rest
  obtain ⟨value, member⟩ := passesFirst pos before (later ++ rest)
  obtain ⟨result, memberNext⟩ := passesNext value (pos + run.length) (run.reverse ++ before) rest
  refine ⟨result, mem_bind.mpr ⟨_, List.append_assoc run later rest ▸ member, ?_⟩⟩
  rw [List.length_append, List.reverse_append, List.append_assoc, ← Nat.add_assoc]
  exact memberNext

theorem Passes.right {first second : Scan α} {run : List Char} (passes : Passes second run) :
    Passes (either first second) run := by
  intro pos before rest
  obtain ⟨value, member⟩ := passes pos before rest
  exact ⟨value, List.mem_append_right _ member⟩

theorem Passes.left {first second : Scan α} {run : List Char} (passes : Passes first run) :
    Passes (either first second) run := by
  intro pos before rest
  obtain ⟨value, member⟩ := passes pos before rest
  exact ⟨value, List.mem_append_left _ member⟩

theorem passes_chars (run : List Char) : Passes (chars run) run := by
  intro pos before rest
  refine ⟨(), ?_⟩
  rw [chars_apply, if_pos (List.prefix_append run rest), Cursor.advance_append (Nat.le_refl _), List.take_length,
    List.drop_length]
  exact List.mem_singleton_self _

theorem passes_many {run : List Char} (accepted : ∀ c ∈ run, accepts c = true) : Passes (many accepts) run := by
  intro pos before rest
  refine ⟨(), mem_many.mpr ⟨run.length, ?_, ?_, ?_⟩⟩
  · rw [List.length_append]
    exact Nat.le_add_right _ _
  · rwa [List.take_left]
  · rw [Cursor.advance_append (Nat.le_refl _), List.take_length, List.drop_length]
    rfl

theorem passes_one {c : Char} (accepted : accepts c = true) : Passes (one accepts) [c] := by
  intro pos before rest
  exact ⟨c, mem_one.mpr ⟨c, rest, rfl, accepted, rfl⟩⟩

/-! ## Scans that pass a class -/

def PassesOnly (accepts : Char → Bool) (scan : Scan α) : Prop :=
  ∀ cursor, ∀ found ∈ scan cursor, ∃ count, found.2 = cursor.advance count ∧
    ∀ c ∈ cursor.after.take count, accepts c = true

theorem passesOnly_pure (value : α) : PassesOnly accepts (pure value : Scan α) := by
  intro cursor found member
  obtain rfl := mem_pure.mp member
  refine ⟨0, cursor.advance_zero.symm, fun c isIn => ?_⟩
  rw [List.take_zero] at isIn
  cases isIn

theorem PassesOnly.bind {first : Scan α} {next : α → Scan β} (passesFirst : PassesOnly accepts first)
    (passesNext : ∀ value, PassesOnly accepts (next value)) : PassesOnly accepts (first >>= next) := by
  intro cursor found member
  obtain ⟨middle, middleMember, foundMember⟩ := mem_bind.mp member
  obtain ⟨count, middleEq, accepted⟩ := passesFirst cursor middle middleMember
  obtain ⟨more, foundEq, acceptedMore⟩ := passesNext middle.1 middle.2 found foundMember
  rw [middleEq, Cursor.advance_advance] at foundEq
  rw [middleEq, Cursor.after_advance] at acceptedMore
  refine ⟨count + more, foundEq, fun c isIn => ?_⟩
  rw [List.take_add] at isIn
  rcases List.mem_append.mp isIn with early | late
  · exact accepted c early
  · exact acceptedMore c late

theorem PassesOnly.either {first second : Scan α} (passesFirst : PassesOnly accepts first)
    (passesSecond : PassesOnly accepts second) : PassesOnly accepts (either first second) := by
  intro cursor found member
  rcases List.mem_append.mp member with early | late
  · exact passesFirst cursor found early
  · exact passesSecond cursor found late

theorem passesOnly_chars {run : List Char} (accepted : ∀ c ∈ run, accepts c = true) : PassesOnly accepts (chars run) := by
  intro cursor found member
  rw [chars_apply] at member
  split at member
  case isTrue begins =>
    obtain rfl := List.mem_singleton.mp member
    refine ⟨run.length, rfl, ?_⟩
    rwa [← List.prefix_iff_eq_take.mp begins]
  case isFalse => cases member

theorem passesOnly_many {passed : Char → Bool} (accepted : ∀ c, passed c = true → accepts c = true) :
    PassesOnly accepts (many passed) := by
  intro cursor found member
  obtain ⟨count, _, passes, rfl⟩ := mem_many.mp member
  exact ⟨count, rfl, fun c isIn => accepted c (passes c isIn)⟩

theorem passesOnly_one {passed : Char → Bool} (accepted : ∀ c, passed c = true → accepts c = true) :
    PassesOnly accepts (one passed) := by
  intro cursor found member
  obtain ⟨c, rest, same, passes, rfl⟩ := mem_one.mp member
  refine ⟨1, rfl, fun d isIn => ?_⟩
  rw [same, List.take_succ_cons, List.take_zero, List.mem_singleton] at isIn
  exact accepted d (isIn ▸ passes)

end Scan

def isWordOrBlank (c : Char) : Bool :=
  isIdentifierPart c || isInlineBlank c

theorem isWordOrBlank_of_isInlineBlank (c : Char) (inline : isInlineBlank c = true) : isWordOrBlank c = true := by
  simp [isWordOrBlank, inline]

theorem passesOnly_blanks : PassesOnly isWordOrBlank (many isInlineBlank) :=
  passesOnly_many isWordOrBlank_of_isInlineBlank

theorem passesOnly_modifiersUpTo (limit : Nat) : PassesOnly isWordOrBlank (modifiersUpTo limit) := by
  induction limit with
  | zero => exact passesOnly_pure ()
  | succ limit inductionHypothesis =>
      have words : PassesOnly isWordOrBlank (either (word "async") (word "static")) :=
        .either (passesOnly_chars (List.all_eq_true.mp (by decide))) (passesOnly_chars (List.all_eq_true.mp (by decide)))
      rw [modifiersUpTo]
      refine .either (.bind words fun _ => .bind (.bind ?_ fun _ => ?_) fun _ => inductionHypothesis) (passesOnly_pure ())
      · exact passesOnly_one isWordOrBlank_of_isInlineBlank
      · exact passesOnly_blanks

theorem passesOnly_modifiers : PassesOnly isWordOrBlank modifiers :=
  fun cursor => passesOnly_modifiersUpTo cursor.after.length cursor

/-! ## The binding -/

def bindingText (name parameters rest : List Char) : List Char :=
  "const ".toList ++ (name ++ (" = (".toList ++ (parameters ++ (") =>".toList ++ rest))))

variable {name parameters : List Char} (rest : List Char)

-- stated here, as the equation that is generated for the definition is slow to come by
theorem bindingText_eq : bindingText name parameters rest =
    "const ".toList ++ (name ++ (" = (".toList ++ (parameters ++ (") =>".toList ++ rest)))) :=
  rfl

theorem passes_callableValue (noRound : ∀ c ∈ parameters, c ≠ '(' ∧ c ≠ ')') :
    Passes callableValue ('(' :: (parameters ++ ") =>".toList)) := by
  have list : Passes (word "(" >>= fun _ => many (fun c => c != '(' && c != ')') >>= fun _ => word ")")
      ("(".toList ++ (parameters ++ ")".toList)) :=
    (passes_chars _).bind fun _ => (passes_many fun c member => by simpa using noRound c member).bind fun _ => passes_chars _
  have arrow : Passes (many isSpace >>= fun _ => word "=>") (" ".toList ++ "=>".toList) :=
    (passes_many (List.all_eq_true.mp (by decide))).bind fun _ => passes_chars _
  have whole : Passes callableValue ([] ++ (("(".toList ++ (parameters ++ ")".toList)) ++ (" ".toList ++ "=>".toList))) :=
    (passes_pure ()).right.bind fun _ => (list.left.bind fun _ => arrow).right
  simpa using whole

theorem passes_bindingTrail (noRound : ∀ c ∈ parameters, c ≠ '(' ∧ c ≠ ')') :
    Passes Anatomy.ofBinding.trail (" = (".toList ++ (parameters ++ ") =>".toList)) := by
  have blank : Passes (many isSpace) " ".toList := passes_many (List.all_eq_true.mp (by decide))
  exact blank.bind fun _ => (passes_chars "=".toList).bind fun _ => blank.bind fun _ => passes_callableValue noRound

theorem passes_bindingLead : Passes Anatomy.ofBinding.lead "const ".toList := by
  have constant : Passes (either (word "const") (either (word "let") (word "var"))) "const".toList :=
    (passes_chars _).left
  have blank : Passes (oneOrMore isSpace) (" ".toList ++ []) :=
    (passes_one (by decide)).bind fun _ => passes_many (List.all_eq_true.mp (by decide))
  exact constant.bind fun _ => blank

theorem led_binding (identifier : IsIdentifier name) {found : Unit × Cursor}
    (member : found ∈ Anatomy.ofBinding.lead (Cursor.start (bindingText name parameters rest))) :
    found.2 = (Cursor.start (bindingText name parameters rest)).advance 6 := by
  obtain ⟨middle, middleMember, blanks⟩ := mem_bind.mp member
  have constant : middle.2 = (Cursor.start (bindingText name parameters rest)).advance 5 := by
    rcases List.mem_append.mp middleMember with isConst | others
    · obtain ⟨_, rfl⟩ := mem_word.mp isConst
      rfl
    · rcases List.mem_append.mp others with isLet | isVar
      · have begins := (mem_word.mp isLet).1
        simp [Cursor.start, bindingText_eq] at begins
      · have begins := (mem_word.mp isVar).1
        simp [Cursor.start, bindingText_eq] at begins
  obtain ⟨first, firstMember, more⟩ := mem_bind.mp blanks
  obtain ⟨_, _, _, _, rfl⟩ := mem_one.mp firstMember
  obtain ⟨count, _, spaces, rfl⟩ := mem_many.mp more
  obtain ⟨c, others, rfl, start, _⟩ := identifier
  rw [constant, Cursor.advance_advance] at spaces ⊢
  cases count with
  | zero => exact Cursor.advance_advance _ 5 1
  | succ count =>
      have space := spaces c (by simp [Cursor.start, bindingText_eq])
      rw [isSpace_of_isIdentifierStart start] at space
      cases space

theorem search?_of_first? {α : Type} {scan : Scan α} {pos : Nat} {before text : List Char} {success : α × Cursor}
    (first : scan.first? ⟨pos, before, text⟩ = some success) :
    scan.search? pos before text = some ⟨pos, success.2.pos, success.1⟩ := by
  cases text with
  | nil => rw [search?, first, Option.map_some]
  | cons c text => rw [search?, first]

theorem passes_nameStretch {run : List Char} {scan : Scan Unit} (passes : Passes scan run) : Passes (nameStretch scan) run := by
  intro pos before rest
  obtain ⟨value, member⟩ := passes pos before rest
  exact ⟨_, mem_nameStretch.mpr ⟨_, member, rfl⟩⟩

/-- The binding is found at the beginning, with the name behind `const`. -/
theorem exists_binding (identifier : IsIdentifier name) (noRound : ∀ c ∈ parameters, c ≠ '(' ∧ c ≠ ')') :
    ∃ hit, (Anatomy.ofBinding.introducer (chars name)).firstHit? (bindingText name parameters rest) = some hit ∧
      hit.start = 0 ∧ hit.value = ⟨6, 6 + name.length⟩ := by
  have opens : Anatomy.ofBinding.introducer (chars name) (Cursor.start (bindingText name parameters rest)) =
      named Anatomy.ofBinding.lead (chars name) Anatomy.ofBinding.trail (Cursor.start (bindingText name parameters rest)) := by
    rw [Anatomy.introducer_apply, if_pos]
    rfl
  have passes : Passes (named Anatomy.ofBinding.lead (chars name) Anatomy.ofBinding.trail)
      ("const ".toList ++ (name ++ ((" = (".toList ++ (parameters ++ ") =>".toList)) ++ []))) :=
    passes_bindingLead.bind fun _ => (passes_nameStretch (passes_chars name)).bind fun _ =>
      (passes_bindingTrail noRound).bind fun _ => passes_pure _
  obtain ⟨success, first⟩ : ∃ success, (Anatomy.ofBinding.introducer (chars name)).first?
      (Cursor.start (bindingText name parameters rest)) = some success := by
    obtain ⟨value, member⟩ := passes 0 [] rest
    have same : Cursor.start (bindingText name parameters rest) = ⟨0, [], "const ".toList ++
        (name ++ ((" = (".toList ++ (parameters ++ ") =>".toList)) ++ [])) ++ rest⟩ := by
      simp [bindingText_eq, Cursor.start]
    refine Option.isSome_iff_exists.mp (List.isSome_head?.mpr ?_)
    rw [opens, same]
    exact List.ne_nil_of_mem member
  refine ⟨_, search?_of_first? first, rfl, ?_⟩
  have member := List.mem_of_head? first
  rw [opens, named_apply] at member
  obtain ⟨led, ledMember, member⟩ := List.mem_flatMap.mp member
  obtain ⟨passed, passedMember, member⟩ := List.mem_flatMap.mp member
  obtain ⟨_, _, rfl⟩ := List.mem_map.mp member
  rw [led_binding rest identifier ledMember, chars_apply] at passedMember
  split at passedMember
  case isTrue =>
    obtain rfl := List.mem_singleton.mp passedMember
    simp [led_binding rest identifier ledMember, Cursor.start]
  case isFalse => cases passedMember

/-! ## The other introducers -/

/-- A function's name comes eight characters behind its introducer at the earliest. -/
theorem function_later {text : List Char} {hit : Hit Stretch}
    (found : (Anatomy.ofFunction.introducer (chars name)).firstHit? text = some hit) : 8 ≤ hit.value.start := by
  obtain ⟨count, _, _, success, succeeds, value⟩ := exists_of_search? found
  rw [Anatomy.introducer_apply] at succeeds
  split at succeeds
  case isFalse => cases succeeds
  case isTrue =>
    rw [named_apply] at succeeds
    obtain ⟨led, ledMember, succeeds⟩ := List.mem_flatMap.mp succeeds
    obtain ⟨passed, _, succeeds⟩ := List.mem_flatMap.mp succeeds
    obtain ⟨_, _, rfl⟩ := List.mem_map.mp succeeds
    obtain ⟨middle, word, blanks⟩ := mem_bind.mp ledMember
    obtain ⟨spelled, spelling, edge⟩ := mem_bind.mp word
    have behindWord : middle.2 = ((⟨0, [], text⟩ : Cursor).advance count).advance 8 := by
      rw [chars_apply] at spelling
      split at spelling
      case isTrue =>
        obtain rfl := List.mem_singleton.mp spelling
        rw [eq_of_mem_check edge]
        rfl
      case isFalse => cases spelling
    have onward : Advances (many isSpace >>= fun _ => Scan.optional (Scan.word "*") >>= fun _ => many isSpace) :=
      (advances_many isSpace).bind fun _ => (advances_chars _).optional.bind fun _ => advances_many isSpace
    obtain ⟨more, _, ledEq⟩ := onward middle.2 led blanks
    rw [value, ledEq, behindWord]
    simp only [Cursor.pos_advance]
    omega

/-- Up to the mark behind a name there are only words and blanks. -/
theorem exists_mark {lead trail : Scan Unit} (passesLead : PassesOnly isWordOrBlank lead) (identifier : IsIdentifier name)
    {mark : Char} {cursor : Cursor} {found : Stretch × Cursor}
    (member : found ∈ named lead (chars name) (many isInlineBlank >>= fun _ => chars [mark] >>= fun _ => trail) cursor) :
    ∃ run after, cursor.after = run ++ mark :: after ∧ ∀ c ∈ run, isWordOrBlank c = true := by
  rw [named_apply] at member
  obtain ⟨led, ledMember, member⟩ := List.mem_flatMap.mp member
  obtain ⟨passed, passedMember, member⟩ := List.mem_flatMap.mp member
  obtain ⟨_, ends, rfl⟩ := List.mem_map.mp member
  obtain ⟨blanks, blanksMember, ends⟩ := mem_bind.mp ends
  obtain ⟨_, marked, _⟩ := mem_bind.mp ends
  have passesName : PassesOnly isWordOrBlank (chars name) := by
    refine passesOnly_chars fun c isIn => ?_
    rw [isWordOrBlank, identifier.isIdentifierPart c isIn, Bool.true_or]
  have passesRun : PassesOnly isWordOrBlank (lead >>= fun _ => chars name >>= fun _ => many isInlineBlank) :=
    passesLead.bind fun _ => passesName.bind fun _ => passesOnly_blanks
  obtain ⟨count, blanksEq, accepted⟩ := passesRun cursor blanks
    (mem_bind.mpr ⟨led, ledMember, mem_bind.mpr ⟨passed, passedMember, blanksMember⟩⟩)
  rw [chars_apply, blanksEq, Cursor.after_advance] at marked
  split at marked
  case isTrue begins =>
    obtain ⟨after, split⟩ := begins
    refine ⟨cursor.after.take count, after, ?_, accepted⟩
    rw [← List.singleton_append, split, List.take_append_drop]
  case isFalse => cases marked

/-- What stands before the first mark of a binding reaches over its name. -/
theorem lt_of_mark (identifier : IsIdentifier name) {mark : Char} (noWord : isWordOrBlank mark = false) (other : mark ≠ '=')
    {count : Nat} {run after : List Char} (split : (bindingText name parameters rest).drop count = run ++ mark :: after)
    (accepted : ∀ c ∈ run, isWordOrBlank c = true) : 6 < count := by
  refine Nat.lt_of_not_le fun early => other ?_
  have text : bindingText name parameters rest = ("const ".toList ++ (name ++ " ".toList)) ++
      '=' :: (" (".toList ++ (parameters ++ (") =>".toList ++ rest))) := by
    simp [bindingText_eq]
  have short : count ≤ ("const ".toList ++ (name ++ " ".toList)).length := by
    rw [List.length_append]
    exact Nat.le_trans early (Nat.le_add_right _ _)
  have words : ∀ c ∈ ("const ".toList ++ (name ++ " ".toList)).drop count, isWordOrBlank c = true := by
    intro c member
    rcases List.mem_append.mp (List.mem_of_mem_drop member) with first | later
    · have all : ∀ d ∈ "const ".toList, isWordOrBlank d = true := List.all_eq_true.mp (by decide)
      exact all c first
    · rcases List.mem_append.mp later with inName | blank
      · rw [isWordOrBlank, identifier.isIdentifierPart c inName, Bool.true_or]
      · rw [List.mem_singleton.mp blank]
        decide
  rw [text, List.drop_append_of_le_length short] at split
  have left := congrArg (List.dropWhile isWordOrBlank) split
  rw [List.dropWhile_append_of_pos words, List.dropWhile_append_of_pos accepted, List.dropWhile_cons_of_neg (by decide),
    List.dropWhile_cons_of_neg (by rw [noWord]; decide)] at left
  exact (List.cons.inj left).1.symm

/-- A property's or method's name comes behind the name of a binding at the beginning. -/
theorem marked_later {anatomy : Anatomy} {mark : Char} {trail : Scan Unit}
    (parts : anatomy.trail = many isInlineBlank >>= fun _ => chars [mark] >>= fun _ => trail)
    (passesLead : PassesOnly isWordOrBlank anatomy.lead) (noWord : isWordOrBlank mark = false) (other : mark ≠ '=')
    (identifier : IsIdentifier name) {hit : Hit Stretch}
    (found : (anatomy.introducer (chars name)).firstHit? (bindingText name parameters rest) = some hit) :
    6 < hit.value.start := by
  obtain ⟨count, _, _, success, succeeds, value⟩ := exists_of_search? found
  rw [Anatomy.introducer_apply] at succeeds
  split at succeeds
  case isFalse => cases succeeds
  case isTrue =>
    rw [parts] at succeeds
    obtain ⟨run, after, split, accepted⟩ := exists_mark passesLead identifier succeeds
    have late := lt_of_mark rest identifier noWord other split accepted
    rw [named_apply] at succeeds
    obtain ⟨led, ledMember, succeeds⟩ := List.mem_flatMap.mp succeeds
    obtain ⟨passed, _, succeeds⟩ := List.mem_flatMap.mp succeeds
    obtain ⟨_, _, rfl⟩ := List.mem_map.mp succeeds
    obtain ⟨more, ledEq, _⟩ := passesLead _ led ledMember
    rw [value, ledEq]
    simp only [Cursor.pos_advance]
    omega

theorem property_later (identifier : IsIdentifier name) {hit : Hit Stretch}
    (found : (Anatomy.ofProperty.introducer (chars name)).firstHit? (bindingText name parameters rest) = some hit) :
    6 < hit.value.start := by
  have parts : Anatomy.ofProperty.trail = many isInlineBlank >>= fun _ => chars [':'] >>= fun _ =>
      many isInlineBlank >>= fun _ => callableValue := rfl
  exact marked_later rest parts passesOnly_blanks (by decide) (by decide) identifier found

theorem method_later (identifier : IsIdentifier name) {hit : Hit Stretch}
    (found : (Anatomy.ofMethod.introducer (chars name)).firstHit? (bindingText name parameters rest) = some hit) :
    6 < hit.value.start := by
  have parts : Anatomy.ofMethod.trail = many isInlineBlank >>= fun _ => chars ['('] >>= fun _ =>
      many (fun c => c != '(' && c != ')') >>= fun _ => word ")" >>= fun _ => many isInlineBlank >>= fun _ =>
        word "\x7b" := rfl
  have lead : PassesOnly isWordOrBlank Anatomy.ofMethod.lead := passesOnly_blanks.bind fun _ => passesOnly_modifiers
  exact marked_later rest parts lead (by decide) (by decide) identifier found

end Source

namespace Removal

theorem nearer_of_nearest {masked : List Char} {best : Option (Hit Stretch)} (kind : DefinitionKind) {scan : Scan Stretch}
    {hit : Hit Stretch} (found : scan.firstHit? masked = some hit)
    (nearest : ∀ earlier, best = some earlier → hit.value.start < earlier.value.start) :
    nearer masked best (kind, scan) = some hit := by
  unfold nearer
  rw [found]
  cases best with
  | none => rfl
  | some earlier => exact if_pos (nearest earlier rfl)

theorem nearer_keeps {masked : List Char} {best : Hit Stretch} (kind : DefinitionKind) {scan : Scan Stretch}
    (nearest : ∀ hit, scan.firstHit? masked = some hit → best.value.start ≤ hit.value.start) :
    nearer masked (some best) (kind, scan) = some best := by
  unfold nearer
  dsimp only
  cases found : scan.firstHit? masked with
  | none => rfl
  | some hit => exact if_neg (Nat.not_lt.mpr (nearest hit found))

theorem exists_firstIntroducer?_binding {name : String} {parameters : List Char} (identifier : IsIdentifier name.toList)
    (noRound : ∀ c ∈ parameters, c ≠ '(' ∧ c ≠ ')') (rest : List Char) :
    ∃ hit, firstIntroducer? (bindingText name.toList parameters rest) name = some hit ∧ hit.start = 0 ∧
      hit.value = ⟨6, 6 + name.toList.length⟩ := by
  obtain ⟨hit, found, start, value⟩ := exists_binding rest identifier noRound
  refine ⟨hit, ?_, start, value⟩
  rw [firstIntroducer?_eq, Anatomy.introducers_eq, Anatomy.all]
  rw [List.map_cons, List.map_cons, List.map_cons, List.map_cons, List.map_nil, List.foldl_cons, List.foldl_cons,
    List.foldl_cons, List.foldl_cons, List.foldl_nil]
  have nearest : ∀ earlier, nearer (bindingText name.toList parameters rest) none
      (.function, Anatomy.ofFunction.introducer (chars name.toList)) = some earlier →
        hit.value.start < earlier.value.start := by
    intro earlier best
    rcases nearer_eq_some best with none | foundEarlier
    · cases none
    · have late := function_later foundEarlier
      rw [value]
      dsimp only
      omega
  rw [nearer_of_nearest .boundCallable found nearest, nearer_keeps .method fun other foundOther => ?_,
    nearer_keeps .method fun other foundOther => ?_]
  · rw [value]
    exact Nat.le_of_lt (method_later rest identifier foundOther)
  · rw [value]
    exact Nat.le_of_lt (property_later rest identifier foundOther)

end Removal
end Deadwood
