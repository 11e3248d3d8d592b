import Deadwood.Proofs.LinkedCalls

/-!
# Calls of a chain

A chain is read call by call: a dot, a name, and an argument between parentheses, with white space in between. The argument is
balanced, so the parenthesis that closes it is the one that is counted up to, whatever calls and callbacks stand in it. A call
is read just where one is spelled.
-/

set_option autoImplicit false
namespace Deadwood.Source

open Deadwood.Text Scan

/-! ## Balanced texts -/

/-- A text in which every bracket of a kind is closed behind the bracket that it opens. -/
inductive Balanced (bracket : Bracket) : List Char → Prop
  | nil : Balanced bracket []
  | other {c : Char} {rest : List Char} (noOpening : c ≠ bracket.opening) (noClosing : c ≠ bracket.closing)
      (balanced : Balanced bracket rest) : Balanced bracket (c :: rest)
  | nested {inner rest : List Char} (balancedInner : Balanced bracket inner) (balanced : Balanced bracket rest) :
      Balanced bracket (bracket.opening :: (inner ++ bracket.closing :: rest))

section

variable {bracket : Bracket}

theorem closeAfter?_opening (depth : Nat) (rest : List Char) :
    closeAfter? bracket depth (bracket.opening :: rest) = (closeAfter? bracket (depth + 1) rest).map (· + 1) := by
  rw [closeAfter?.eq_def]
  exact if_pos (beq_self_eq_true _)

theorem closeAfter?_other {c : Char} (noOpening : c ≠ bracket.opening) (noClosing : c ≠ bracket.closing) (depth : Nat)
    (rest : List Char) : closeAfter? bracket depth (c :: rest) = (closeAfter? bracket depth rest).map (· + 1) := by
  rw [closeAfter?.eq_def]
  dsimp only
  rw [if_neg (by simpa using noOpening), if_neg (by simpa using noClosing)]

variable (apart : bracket.closing ≠ bracket.opening)

include apart

theorem closeAfter?_closing (depth : Nat) (rest : List Char) :
    closeAfter? bracket (depth + 2) (bracket.closing :: rest) = (closeAfter? bracket (depth + 1) rest).map (· + 1) := by
  rw [closeAfter?, if_neg (by simpa using apart), if_pos (beq_self_eq_true _)]

theorem closeAfter?_last (rest : List Char) : closeAfter? bracket 1 (bracket.closing :: rest) = some 1 := by
  rw [closeAfter?, if_neg (by simpa using apart), if_pos (beq_self_eq_true _)]

theorem closeAfter?_balanced {inner : List Char} (balanced : Balanced bracket inner) (depth : Nat) (rest : List Char) :
    closeAfter? bracket (depth + 1) (inner ++ rest) = (closeAfter? bracket (depth + 1) rest).map (· + inner.length) := by
  induction balanced generalizing depth rest with
  | nil => simp
  | @other c inner noOpening noClosing _ inductionHypothesis =>
      rw [List.cons_append, closeAfter?_other noOpening noClosing, inductionHypothesis, Option.map_map]
      rfl
  | @nested first second _ _ firstHypothesis secondHypothesis =>
      rw [List.cons_append, closeAfter?_opening, List.append_assoc, firstHypothesis, List.cons_append,
        closeAfter?_closing apart, secondHypothesis]
      simp only [Option.map_map, List.length_cons, List.length_append]
      congr 1
      funext count
      simp only [Function.comp_apply]
      omega

theorem exists_balanced_of_closeAfter? {depth count : Nat} {text : List Char}
    (closed : closeAfter? bracket (depth + 1) text = some count) :
    ∃ inner rest, text = inner ++ bracket.closing :: rest ∧ Balanced bracket inner ∧
      (depth = 0 ∧ count = inner.length + 1 ∨ ∃ shallower later, depth = shallower + 1 ∧
        closeAfter? bracket (shallower + 1) rest = some later ∧ count = inner.length + 1 + later) := by
  induction size : text.length using Nat.strong_induction_on generalizing depth count text with
  | h size inductionHypothesis =>
      subst size
      cases text with
      | nil => cases closed
      | cons c rest =>
          by_cases opens : c = bracket.opening
          · -- a text in brackets, and behind it what closes the bracket that is asked for
            subst opens
            rw [closeAfter?_opening] at closed
            obtain ⟨before, closedRest, rfl⟩ := Option.map_eq_some_iff.mp closed
            obtain ⟨first, behind, rfl, balancedFirst, onlyOne | ⟨_, later, same, closedLater, rfl⟩⟩ :=
              inductionHypothesis rest.length (Nat.lt_succ_self _) closedRest rfl
            · cases onlyOne.1
            · obtain rfl := Nat.succ.inj same
              obtain ⟨second, rest, rfl, balanced, ends⟩ := inductionHypothesis behind.length (by simp; omega) closedLater rfl
              refine ⟨_, rest, ?_, balancedFirst.nested balanced, ?_⟩
              · simp
              · simp only [List.length_cons, List.length_append]
                rcases ends with ⟨rfl, rfl⟩ | ⟨shallower, later, rfl, closedLast, rfl⟩
                · exact Or.inl ⟨rfl, by omega⟩
                · exact Or.inr ⟨shallower, later, rfl, closedLast, by omega⟩
          · by_cases closes : c = bracket.closing
            · subst closes
              refine ⟨[], rest, rfl, .nil, ?_⟩
              cases depth with
              | zero =>
                  rw [closeAfter?_last apart] at closed
                  exact Or.inl ⟨rfl, (Option.some.inj closed).symm⟩
              | succ depth =>
                  rw [closeAfter?_closing apart] at closed
                  obtain ⟨later, closedRest, rfl⟩ := Option.map_eq_some_iff.mp closed
                  exact Or.inr ⟨depth, later, rfl, closedRest, by rw [List.length_nil]; omega⟩
            · rw [closeAfter?_other opens closes] at closed
              obtain ⟨before, closedRest, rfl⟩ := Option.map_eq_some_iff.mp closed
              obtain ⟨inner, rest, rfl, balanced, ends⟩ := inductionHypothesis rest.length (Nat.lt_succ_self _) closedRest rfl
              refine ⟨c :: inner, rest, rfl, balanced.other opens closes, ?_⟩
              rw [List.length_cons]
              rcases ends with ⟨rfl, rfl⟩ | ⟨shallower, later, rfl, closedLater, rfl⟩
              · exact Or.inl ⟨rfl, rfl⟩
              · exact Or.inr ⟨shallower, later, rfl, closedLater, by omega⟩

/-- Just a balanced text stands up to the bracket that closes the one before it. -/
theorem closeAfter?_eq_some_iff {count : Nat} {text : List Char} : closeAfter? bracket 1 text = some count ↔
    ∃ inner rest, text = inner ++ bracket.closing :: rest ∧ Balanced bracket inner ∧ count = inner.length + 1 := by
  constructor
  · intro closed
    obtain ⟨inner, rest, whole, balanced, ⟨-, counted⟩ | ⟨_, _, nested, _⟩⟩ := exists_balanced_of_closeAfter? apart closed
    · exact ⟨inner, rest, whole, balanced, counted⟩
    · cases nested
  · rintro ⟨inner, rest, rfl, balanced, rfl⟩
    rw [closeAfter?_balanced apart balanced, closeAfter?_last apart, Option.map_some, Nat.add_comm]

theorem balanced_iff_closeAfter? {text : List Char} : Balanced bracket text ↔
    closeAfter? bracket 1 (text ++ [bracket.closing]) = some (text.length + 1) := by
  rw [closeAfter?_eq_some_iff apart]
  constructor
  · exact fun balanced => ⟨text, [], rfl, balanced, rfl⟩
  · rintro ⟨inner, rest, whole, balanced, counted⟩
    rwa [List.append_inj_left whole (Nat.succ.inj counted)]

end

instance (text : List Char) : Decidable (Balanced .round text) :=
  decidable_of_iff _ (balanced_iff_closeAfter? (by decide)).symm

/-! ## Calls of a chain -/

/-- The dot of a call, the name of what is called and the parenthesis that opens, with white space between them. -/
structure CallOpening where
  beforeDot : List Char
  afterDot : List Char
  name : List Char
  afterName : List Char
  blankBeforeDot : ∀ c ∈ beforeDot, isBlank c = true
  blankAfterDot : ∀ c ∈ afterDot, isBlank c = true
  identifier : IsIdentifier name
  blankAfterName : ∀ c ∈ afterName, isBlank c = true

def CallOpening.lead (opening : CallOpening) : List Char :=
  opening.beforeDot ++ '.' :: opening.afterDot

def CallOpening.spelled (opening : CallOpening) : List Char :=
  opening.lead ++ (opening.name ++ (opening.afterName ++ ['(']))

/-- A call of a chain, with its argument. -/
structure ChainCall extends CallOpening where
  argument : List Char
  balanced : Balanced .round argument

def ChainCall.spelled (call : ChainCall) : List Char :=
  call.toCallOpening.spelled ++ (call.argument ++ [')'])

theorem not_isBlank_of_isIdentifierPart {c : Char} (part : isIdentifierPart c = true) : isBlank c = false := by
  rw [← Bool.not_eq_true]
  intro blank
  simp only [isBlank, Bool.or_eq_true, beq_iff_eq] at blank
  rcases blank with ((rfl | rfl) | rfl) | rfl <;> cases part

theorem takeWhile_append_cons {accepts : Char → Bool} {run : List Char} (all : ∀ c ∈ run, accepts c = true) {c : Char}
    (next : accepts c = false) (rest : List Char) :
    (run ++ c :: rest).takeWhile accepts = run ∧ (run ++ c :: rest).dropWhile accepts = c :: rest := by
  rw [List.takeWhile_append_of_pos all, List.dropWhile_append_of_pos all, List.takeWhile_cons_of_neg (by rw [next]; decide),
    List.dropWhile_cons_of_neg (by rw [next]; decide), List.append_nil]
  exact ⟨rfl, rfl⟩

/-- Where neither a bracket nor a call comes the chain ends. -/
theorem chainMentions_of_noLink (modifiers : List String) (literal : List Char) (total : Nat) {text : List Char}
    (noBracket : ¬ (text.dropWhile isBlank).head? == some '[') (noLink : readLink? (text.dropWhile isBlank) = none) :
    chainMentions modifiers literal total text = [] := by
  rw [chainMentions, if_neg noBracket]
  split
  · rfl
  · rename_i link found
    cases noLink.symm.trans found

namespace CallOpening

variable (opening : CallOpening) (after : List Char)

theorem dropWhile_spelled : (opening.spelled ++ after).dropWhile isBlank =
    '.' :: (opening.afterDot ++ (opening.name ++ (opening.afterName ++ '(' :: after))) := by
  have parts : opening.spelled ++ after =
      opening.beforeDot ++ '.' :: (opening.afterDot ++ (opening.name ++ (opening.afterName ++ '(' :: after))) := by
    simp [spelled, lead]
  rw [parts, (takeWhile_append_cons opening.blankBeforeDot (by decide) _).2]

/-- At an opening a link is read, if its parenthesis closes. -/
theorem readLink?_eq : readLink? ((opening.spelled ++ after).dropWhile isBlank) =
    (closeAfter? .round 1 after).map fun length =>
      { name := String.ofList opening.name
        fromName := opening.name ++ (opening.afterName ++ '(' :: after)
        argument := after.take (length - 1)
        fromArgument := after
        rest := after.drop length } := by
  obtain ⟨first, others, isName, start, parts⟩ := opening.identifier
  have firstPart := isIdentifierPart_of_isIdentifierStart start
  have allParts : ∀ c ∈ opening.name, isIdentifierPart c = true := opening.identifier.isIdentifierPart
  -- what comes behind the name belongs to no identifier
  obtain ⟨next, behind, same, apart⟩ : ∃ next behind, opening.afterName ++ '(' :: after = next :: behind ∧
      isIdentifierPart next = false := by
    cases blanks : opening.afterName with
    | nil => exact ⟨'(', after, rfl, by decide⟩
    | cons c rest =>
        have isBlankHere := opening.blankAfterName c (blanks ▸ List.mem_cons_self)
        refine ⟨c, _, rfl, Bool.not_eq_true _ ▸ fun part => ?_⟩
        rw [not_isBlank_of_isIdentifierPart part] at isBlankHere
        cases isBlankHere
  have named : (opening.afterDot ++ (opening.name ++ (opening.afterName ++ '(' :: after))).dropWhile isBlank =
      opening.name ++ (opening.afterName ++ '(' :: after) := by
    rw [isName]
    exact (takeWhile_append_cons opening.blankAfterDot (not_isBlank_of_isIdentifierPart firstPart) _).2
  have run := takeWhile_append_cons allParts apart behind
  rw [← same] at run
  rw [dropWhile_spelled, readLink?]
  rw [named, run.1, run.2, (takeWhile_append_cons opening.blankAfterName (by decide) after).2]
  have begins : (opening.name ++ (opening.afterName ++ '(' :: after)).head?.any isIdentifierStart = true := by
    rw [isName]
    exact start
  exact if_pos begins

/-- An opening whose parenthesis never closes ends the chain. -/
theorem chainMentions_eq_nil (modifiers : List String) (literal : List Char) (total : Nat)
    (unclosed : ∀ argument rest, Balanced .round argument → after ≠ argument ++ ')' :: rest) :
    chainMentions modifiers literal total (opening.spelled ++ after) = [] := by
  refine chainMentions_of_noLink _ _ _ (by simp [dropWhile_spelled]) ?_
  rw [readLink?_eq, Option.map_eq_none_iff, Option.eq_none_iff_forall_ne_some]
  intro count closed
  obtain ⟨argument, rest, whole, balanced, _⟩ := (closeAfter?_eq_some_iff (by decide)).mp closed
  exact unclosed argument rest balanced whole

end CallOpening

/-- A trimmed text ends with no line feed, so it is an identifier as a whole. -/
theorem isIdentifierText_trim_iff (text : List Char) : isIdentifierText (trim text) = true ↔ IsIdentifier (trim text) := by
  have visible := List.head?_dropWhile_not isSpace (trimLeft text).reverse
  have reversed : (trim text).reverse = (trimLeft text).reverse.dropWhile isSpace := by rw [trim, trimRight, List.reverse_reverse]
  rw [← reversed] at visible
  generalize trim text = trimmed at visible ⊢
  have noLineFeed : ∀ rest, trimmed.reverse ≠ '\n' :: rest := fun rest same => by
    rw [same] at visible
    cases visible
  rw [isIdentifierText]
  split
  · rename_i same
    split at same
    · rename_i rest ends
      exact absurd ends (noLineFeed rest)
    · subst same
      refine ⟨fun never => absurd never Bool.false_ne_true, ?_⟩
      rintro ⟨_, _, same, _⟩
      cases same
  · rename_i c rest same
    split at same
    · rename_i rest ends
      exact absurd ends (noLineFeed rest)
    · subst same
      rw [Bool.and_eq_true, List.all_eq_true]
      constructor
      · rintro ⟨start, parts⟩
        exact ⟨c, rest, rfl, start, parts⟩
      · rintro ⟨_, _, same, start, parts⟩
        cases same
        exact ⟨start, parts⟩

instance (text : List Char) : Decidable (IsIdentifier text) :=
  match text with
  | [] => isFalse fun ⟨_, _, same, _⟩ => nomatch same
  | c :: rest =>
      decidable_of_iff (isIdentifierStart c = true ∧ rest.all isIdentifierPart = true)
        ⟨fun ⟨start, parts⟩ => ⟨c, rest, rfl, start, List.all_eq_true.mp parts⟩,
          fun ⟨_, _, same, start, parts⟩ => by cases same; exact ⟨start, List.all_eq_true.mpr parts⟩⟩

namespace ChainCall

/-- The handler that a call in a chain from an offset on names: its argument, if that is an identifier between white space. -/
def handlers (place : Nat) (call : ChainCall) : List Mentioned :=
  if IsIdentifier (trim call.argument) then
    [⟨String.ofList (trim call.argument), .handler, place + call.toCallOpening.spelled.length⟩]
  else []

def remote (place : Nat) (call : ChainCall) : Mentioned :=
  ⟨String.ofList call.name, .bridge, place + call.lead.length⟩

def handlersAlong : Nat → List ChainCall → List Mentioned
  | _, [] => []
  | place, call :: later => call.handlers place ++ handlersAlong (place + call.spelled.length) later

theorem readLink?_eq (call : ChainCall) (rest : List Char) : readLink? ((call.spelled ++ rest).dropWhile isBlank) =
    some
      { name := String.ofList call.name
        fromName := call.name ++ (call.afterName ++ '(' :: (call.argument ++ ')' :: rest))
        argument := call.argument
        fromArgument := call.argument ++ ')' :: rest
        rest := rest } := by
  have parts : call.spelled ++ rest = call.toCallOpening.spelled ++ (call.argument ++ ')' :: rest) := by
    simp [spelled]
  have closed : closeAfter? .round 1 (call.argument ++ ')' :: rest) = some (call.argument.length + 1) :=
    (closeAfter?_eq_some_iff (by decide)).mpr ⟨_, rest, rfl, call.balanced, rfl⟩
  rw [parts, CallOpening.readLink?_eq, closed, Option.map_some, Nat.add_sub_cancel, List.take_left, List.drop_append,
    List.drop_of_length_le (Nat.le_succ _)]
  simp

/-- A link is read only where a call comes. -/
theorem exists_call_of_readLink? {text : List Char} {link : Link} (found : readLink? (text.dropWhile isBlank) = some link) :
    ∃ call : ChainCall, text = call.spelled ++ link.rest := by
  have beforeDot := List.takeWhile_append_dropWhile (p := isBlank) (l := text)
  unfold readLink? at found
  split at found
  case h_2 => cases found
  case h_1 afterDot same =>
    have afterDotParts := List.takeWhile_append_dropWhile (p := isBlank) (l := afterDot)
    have nameParts := List.takeWhile_append_dropWhile (p := isIdentifierPart) (l := afterDot.dropWhile isBlank)
    have afterNameParts := List.takeWhile_append_dropWhile (p := isBlank)
      (l := (afterDot.dropWhile isBlank).dropWhile isIdentifierPart)
    dsimp only at found
    split at found
    case isFalse => cases found
    case isTrue begins =>
      split at found
      case h_2 => cases found
      case h_1 inside opens =>
        obtain ⟨count, closed, rfl⟩ := Option.map_eq_some_iff.mp found
        obtain ⟨argument, rest, rfl, balanced, rfl⟩ := (closeAfter?_eq_some_iff (by decide)).mp closed
        obtain ⟨c, first, start⟩ := (Option.any_eq_true _ _).mp begins
        obtain ⟨letters, fromName⟩ := List.head?_eq_some_iff.mp first
        have identifier : IsIdentifier ((afterDot.dropWhile isBlank).takeWhile isIdentifierPart) := by
          rw [fromName, List.takeWhile_cons_of_pos (isIdentifierPart_of_isIdentifierStart start)]
          exact ⟨c, _, rfl, start, fun d member => List.mem_takeWhile_imp member⟩
        refine ⟨⟨⟨text.takeWhile isBlank, afterDot.takeWhile isBlank, (afterDot.dropWhile isBlank).takeWhile isIdentifierPart,
          ((afterDot.dropWhile isBlank).dropWhile isIdentifierPart).takeWhile isBlank, fun _ => List.mem_takeWhile_imp,
          fun _ => List.mem_takeWhile_imp, identifier, fun _ => List.mem_takeWhile_imp⟩, argument, balanced⟩, ?_⟩
        rw [opens] at afterNameParts
        rw [← afterNameParts] at nameParts
        rw [← nameParts] at afterDotParts
        rw [same, ← afterDotParts] at beforeDot
        have behind : (argument ++ ')' :: rest).drop (argument.length + 1) = rest := by
          rw [List.drop_append, List.drop_of_length_le (Nat.le_succ _), Nat.add_sub_cancel_left]
          rfl
        rw [show Bracket.round.closing = ')' from rfl] at *
        rw [behind]
        conv_lhs => rw [← beforeDot]
        simp [spelled, CallOpening.spelled, CallOpening.lead]

/-- A call is a modifier, and the chain goes on behind it, or it is the remote call, and the chain ends. -/
theorem chainMentions_eq (modifiers : List String) (literal : List Char) (place : Nat) (call : ChainCall) (rest : List Char) :
    chainMentions modifiers literal (place + (call.spelled ++ rest).length) (call.spelled ++ rest) =
      if modifiers.contains (String.ofList call.name) then
        call.handlers place ++ chainMentions modifiers literal (place + call.spelled.length + rest.length) rest
      else [call.remote place] := by
  have noBracket : ¬ ((call.spelled ++ rest).dropWhile isBlank).head? == some '[' := by
    simp [spelled, List.append_assoc, CallOpening.dropWhile_spelled]
  have total : place + (call.spelled ++ rest).length = place + call.spelled.length + rest.length := by
    rw [List.length_append, Nat.add_assoc]
  have nameAt : place + (call.spelled ++ rest).length -
      (call.name ++ (call.afterName ++ '(' :: (call.argument ++ ')' :: rest))).length = place + call.lead.length := by
    simp [spelled, CallOpening.spelled]
    omega
  have argumentAt : place + (call.spelled ++ rest).length - (call.argument ++ ')' :: rest).length =
      place + call.toCallOpening.spelled.length := by
    simp [spelled]
    omega
  rw [chainMentions, if_neg noBracket]
  split
  · rename_i none
    cases none.symm.trans (call.readLink?_eq rest)
  · rename_i link found
    obtain rfl := Option.some.inj (found.symm.trans (call.readLink?_eq rest))
    dsimp only
    rw [nameAt, argumentAt]
    split
    · rw [handlers, total]
      simp only [isIdentifierText_trim_iff]
    · rfl

theorem chainMentions_modifiers {modifiers : List String} (literal : List Char) (place : Nat) {calls : List ChainCall}
    (modify : ∀ call ∈ calls, String.ofList call.name ∈ modifiers) (rest : List Char) :
    chainMentions modifiers literal (place + (calls.flatMap spelled ++ rest).length) (calls.flatMap spelled ++ rest) =
      handlersAlong place calls ++
        chainMentions modifiers literal (place + (calls.flatMap spelled).length + rest.length) rest := by
  induction calls generalizing place with
  | nil => simp [handlersAlong]
  | cons call later inductionHypothesis =>
      have isModifier := modify call List.mem_cons_self
      have others := inductionHypothesis (place + call.spelled.length) fun other member =>
        modify other (List.mem_cons_of_mem _ member)
      rw [List.flatMap_cons, List.append_assoc, chainMentions_eq, if_pos (List.contains_iff_mem.mpr isModifier), others,
        handlersAlong, List.append_assoc, List.length_append, Nat.add_assoc place]

end ChainCall

end Deadwood.Source
