import Deadwood.Proofs.BindingIntroducers
import Deadwood.Proofs.MovingScans

/-!
# Markup in comments

The comments of a page and its three kinds of code are found by scans of their own. What begins in a comment is not shown, but each
scan goes on only where what it has found ends. So what stands behind a comment is shown as if the comment were not there, but for
each kind of code only from where the last piece of that kind that begins in the comment ends.
-/

set_option autoImplicit false
namespace Deadwood

open Text

namespace Source

open Scan

/-! ## The scans of a page -/

theorem before_ne_nil_of_mem_wordIgnoringCase {cursor : Cursor} {found : Unit × Cursor}
    (member : found ∈ wordIgnoringCase "<script" cursor) : found.2.before ≠ [] := by
  have spelled : wordIgnoringCase "<script" = one (sameIgnoringCase '<') >>= fun _ => wordIgnoringCase "script" := rfl
  rw [spelled] at member
  obtain ⟨middle, first, more⟩ := mem_bind.mp member
  obtain ⟨c, rest, same, _, rfl⟩ := mem_one.mp first
  obtain ⟨count, _, foundEq⟩ := advances_wordIgnoringCase "script" _ _ more
  rw [foundEq, Cursor.advance]
  simp [Cursor.advance, same]

theorem moves_scriptElement : Moves Stretch.later scriptElement := by
  have spelled : scriptElement = (wordIgnoringCase "<script" >>= fun _ => wordEdge) >>= fun _ => many (· != '>') >>= fun _ =>
      one (· == '>') >>= fun _ => upTo (wordIgnoringCase "</script" >>= fun _ => many isSpace >>= fun _ =>
        one (· == '>') >>= fun _ => pure ()) := by
    simp only [Scan.bind_assoc]
    rfl
  rw [spelled]
  have opens : Moves placeless (wordIgnoringCase "<script" >>= fun _ => wordEdge) :=
    (moves_wordIgnoringCase _).check (fun _ _ => before_ne_nil_of_mem_wordIgnoringCase) _
  have closes : Moves placeless (wordIgnoringCase "</script" >>= fun _ => many isSpace >>= fun _ =>
      one (· == '>') >>= fun _ => pure ()) :=
    (moves_wordIgnoringCase _).bind fun _ => (moves_many _).bind fun _ => (moves_one _).bind fun _ => moves_pure () fun _ => rfl
  exact opens.bind fun _ => (moves_many _).bind fun _ => (moves_one _).bind fun _ => moves_upTo closes

theorem moves_scriptlet : Moves Stretch.later scriptlet := by
  have opens : Moves placeless (Scan.optional (Scan.optional (word "!") >>= fun _ => word "=")) :=
    ((moves_chars _).optional.bind fun _ => moves_chars _).optional
  exact (moves_chars _).bind fun _ => opens.bind fun _ => moves_upTo (moves_chars _)

theorem moves_handlerAttribute : Moves Stretch.later handlerAttribute :=
  (moves_one _).bind fun _ => (moves_wordIgnoringCase _).bind fun _ => (moves_oneOrMore _).bind fun _ =>
    (moves_many _).bind fun _ => (moves_one _).bind fun _ => (moves_many _).bind fun _ => (moves_one _).bind fun quote =>
      moves_upTo (moves_chars [quote])

theorem moves_markupComment : Moves placeless markupComment :=
  (moves_chars _).bind fun _ => (moves_skipTo (moves_chars _)).andThen (moves_pure () fun _ => rfl)

/-! ## Where nothing begins -/

theorem toNat_ofNat (n : Nat) : (Char.ofNat n).toNat = n ∨ (Char.ofNat n).toNat = 0 := by
  unfold Char.ofNat
  split
  · exact Or.inl rfl
  · exact Or.inr rfl

theorem eq_of_lowerChar {c : Char} (lowered : (lowerChar c).toNat = 60) : c = '<' := by
  have targets : ∀ run ∈ lowercaseRuns, 60 < run.2.2.2 := by
    have large : lowercaseRuns.all (60 < ·.2.2.2) = true := by cbv
    simpa using large
  unfold lowerChar at lowered
  dsimp only at lowered
  split at lowered
  · unfold Char.toLower at lowered
    split at lowered
    case isTrue upper =>
      have first : 65 ≤ c.val.toNat := UInt32.le_iff_toNat_le.mp upper.1
      have last : c.val.toNat ≤ 90 := UInt32.le_iff_toNat_le.mp upper.2
      have shifted : (c.val + ('a'.val - 'A'.val)).toNat = c.val.toNat + 32 := by
        rw [UInt32.toNat_add]
        exact Nat.mod_eq_of_lt (by simp; omega)
      exact absurd (shifted.symm.trans lowered) (by omega)
    case isFalse => exact Char.ext (UInt32.toNat_inj.mp lowered)
  · split at lowered
    · cases lowered
    · split at lowered
      case h_1 first last stride target found =>
        have large := targets _ (List.mem_of_find?_eq_some found)
        dsimp only at large
        rcases toNat_ofNat (target + (c.toNat - first)) with same | same <;> omega
      case h_2 => exact Char.ext (UInt32.toNat_inj.mp lowered)

theorem eq_of_sameIgnoringCase {c : Char} (same : sameIgnoringCase '<' c = true) : c = '<' := by
  have apart : ∀ siblings ∈ sharedUppercase, 60 ∉ siblings := by
    have none : sharedUppercase.all (!·.contains 60) = true := by cbv
    simpa using none
  have bracket : (lowerChar '<').toNat = 60 := by decide
  unfold sameIgnoringCase at same
  rw [bracket] at same
  dsimp only at same
  rcases Bool.or_eq_true_iff.mp same with equal | shared
  · exact eq_of_lowerChar (beq_iff_eq.mp equal).symm
  · obtain ⟨siblings, listed, both⟩ := List.any_eq_true.mp shared
    have here := List.contains_iff_mem.mp (Bool.and_eq_true_iff.mp both).1
    exact absurd here (apart siblings listed)

def isUnmarked (c : Char) : Bool :=
  c != '<' && c != '"' && c != '\''

/-- The scan begins nowhere before an angle bracket with neither brackets nor quotes on the way. -/
def AwaitsBracket {α : Type} (scan : Scan α) : Prop :=
  ∀ cursor unmarked rest, cursor.after = unmarked ++ '<' :: rest → unmarked ≠ [] →
    (∀ c ∈ unmarked, isUnmarked c = true) → scan cursor = []

theorem AwaitsBracket.before {α β : Type} {first : Scan α} (awaits : AwaitsBracket first) (next : α → Scan β) :
    AwaitsBracket (first >>= next) := by
  intro cursor unmarked rest same nonempty allUnmarked
  rw [bind_apply, awaits cursor unmarked rest same nonempty allUnmarked, List.flatMap_nil]

theorem awaitsBracket_one {accepts : Char → Bool} (onlyBracket : ∀ c, accepts c = true → c = '<') :
    AwaitsBracket (one accepts) := by
  intro cursor unmarked rest same nonempty allUnmarked
  obtain ⟨c, others, rfl⟩ := List.exists_cons_of_ne_nil nonempty
  rw [one_apply, same, List.cons_append]
  refine if_neg fun accepted => ?_
  have isBracket := onlyBracket c accepted
  have marked := allUnmarked c List.mem_cons_self
  rw [isBracket] at marked
  cases marked

theorem awaitsBracket_scriptElement : AwaitsBracket scriptElement :=
  ((awaitsBracket_one fun _ => eq_of_sameIgnoringCase).before _).before _

theorem awaitsBracket_scriptlet : AwaitsBracket scriptlet :=
  ((awaitsBracket_one fun _ => beq_iff_eq.mp).before _).before _

theorem awaitsBracket_markupComment : AwaitsBracket markupComment :=
  ((awaitsBracket_one fun _ => beq_iff_eq.mp).before _).before _

def handlerOpening : Scan Unit :=
  one isSpace >>= fun _ => wordIgnoringCase "on" >>= fun _ => oneOrMore isLetterIgnoringCase >>= fun _ => many isSpace >>= fun _ =>
    one (· == '=') >>= fun _ => many isSpace

theorem passesOnly_handlerOpening : PassesOnly (· != '<') handlerOpening := by
  have space (c : Char) (isSpace : isSpace c = true) : (c != '<') = true := by
    rw [bne_iff_ne]
    rintro rfl
    cases isSpace
  have letter (c : Char) (isLetter : isLetterIgnoringCase c = true) : (c != '<') = true := by
    rw [bne_iff_ne]
    rintro rfl
    have noLetter : isLetterIgnoringCase '<' = false := by cbv
    cases noLetter.symm.trans isLetter
  have equals (c : Char) (isEquals : (c == '=') = true) : (c != '<') = true := by
    rw [beq_iff_eq.mp isEquals]
    rfl
  have on : PassesOnly (· != '<') (wordIgnoringCase "on") := by
    have spelled : wordIgnoringCase "on" =
        one (sameIgnoringCase 'o') >>= fun _ => one (sameIgnoringCase 'n') >>= fun _ => pure () := rfl
    have apart (first : Char) (isFirst : sameIgnoringCase first '<' = false) (c : Char)
        (same : sameIgnoringCase first c = true) : (c != '<') = true := by
      rw [bne_iff_ne]
      rintro rfl
      cases isFirst.symm.trans same
    rw [spelled]
    exact (passesOnly_one (apart 'o' (by cbv))).bind fun _ =>
      (passesOnly_one (apart 'n' (by cbv))).bind fun _ => passesOnly_pure ()
  exact (passesOnly_one space).bind fun _ => on.bind fun _ =>
    ((passesOnly_one letter).bind fun _ => passesOnly_many letter).bind fun _ => (passesOnly_many space).bind fun _ =>
      (passesOnly_one equals).bind fun _ => passesOnly_many space

theorem awaitsBracket_handlerAttribute : AwaitsBracket handlerAttribute := by
  have spelled : handlerAttribute = handlerOpening >>= fun _ => one (fun c => c == '"' || c == '\'') >>= fun quote =>
      upTo (chars [quote]) := by
    simp only [handlerOpening, Scan.bind_assoc]
    rfl
  intro cursor unmarked rest same nonempty allUnmarked
  rw [spelled]
  refine List.eq_nil_iff_forall_not_mem.mpr fun found member => ?_
  obtain ⟨opened, opens, member⟩ := mem_bind.mp member
  obtain ⟨quoted, quotes, _⟩ := mem_bind.mp member
  obtain ⟨count, openedEq, passes⟩ := passesOnly_handlerOpening cursor opened opens
  obtain ⟨quote, others, after, isQuote, _⟩ := mem_one.mp quotes
  rw [openedEq, Cursor.after_advance, same] at after
  rw [same] at passes
  have quoteAt : (unmarked ++ '<' :: rest)[count]? = some quote := by
    rw [← List.head?_drop, after]
    rfl
  have early : count ≤ unmarked.length := by
    refine Nat.le_of_not_lt fun beyond => ?_
    have passed := passes '<' (List.mem_of_getElem? (i := unmarked.length) ?_)
    · cases passed
    · rw [List.getElem?_take_of_lt beyond, List.getElem?_append_right (Nat.le_refl _), Nat.sub_self]
      rfl
  rcases Nat.lt_or_eq_of_le early with before | here
  · rw [List.getElem?_append_left before] at quoteAt
    have unquoted := allUnmarked quote (List.mem_of_getElem? quoteAt)
    rcases Bool.or_eq_true_iff.mp isQuote with double | single
    · rw [beq_iff_eq.mp double] at unquoted
      cases unquoted
    · rw [beq_iff_eq.mp single] at unquoted
      cases unquoted
  · rw [here, List.getElem?_append_right (Nat.le_refl _), Nat.sub_self] at quoteAt
    obtain rfl := Option.some.inj quoteAt
    cases isQuote

theorem AwaitsBracket.start_le {α : Type} {scan : Scan α} (awaits : AwaitsBracket scan) {unmarked rest : List Char}
    (allUnmarked : ∀ c ∈ unmarked, isUnmarked c = true) {hit : Hit α} (member : hit ∈ scan.hits (unmarked ++ '<' :: rest)) :
    unmarked.length ≤ hit.start := by
  obtain ⟨count, _, success, succeeds, rfl⟩ := exists_of_mem_hitsFrom member
  refine Nat.le_of_not_lt fun before => ?_
  dsimp only at before
  rw [Nat.zero_add] at before
  have none := awaits ((⟨0, [], unmarked ++ '<' :: rest⟩ : Cursor).advance count) (unmarked.drop count) rest
    (List.drop_append_of_le_length (Nat.le_of_lt before)) (List.drop_eq_nil_iff.not.mpr (Nat.not_le_of_lt before))
    fun c isIn => allUnmarked c (List.mem_of_mem_drop isIn)
  rw [none] at succeeds
  cases succeeds

/-! ## The comment -/

theorem not_commentEnd_of_cons {c : Char} {others : List Char} (unclosed : ¬ "-->".toList <:+: c :: others)
    (rest : List Char) : ¬ "-->".toList <+: c :: (others ++ ("-->".toList ++ rest)) := by
  have spelled : "-->".toList = ['-', '-', '>'] := rfl
  rw [spelled] at unclosed ⊢
  intro begins
  -- the mark would have to begin in the text and to end in it
  match others with
  | [] => simp [List.cons_prefix_cons] at begins
  | [_] => simp [List.cons_prefix_cons] at begins
  | d :: e :: more =>
      simp only [List.cons_append, List.cons_prefix_cons] at begins
      obtain ⟨rfl, rfl, rfl, _⟩ := begins
      exact unclosed (List.prefix_append ['-', '-', '>'] more).isInfix

/-- An end mark that is not in a text is found only behind it. -/
theorem search?_commentEnd {comment : List Char} (unclosed : ¬ "-->".toList <:+: comment) (pos : Nat) (before rest : List Char) :
    (word "-->").search? pos before (comment ++ ("-->".toList ++ rest)) =
      some ⟨pos + comment.length, pos + comment.length + 3, ()⟩ := by
  induction comment generalizing pos before with
  | nil =>
      have here : (word "-->").first? ⟨pos, before, "-->".toList ++ rest⟩ =
          some ((), (⟨pos, before, "-->".toList ++ rest⟩ : Cursor).advance 3) := by
        rw [first?, word, chars_apply]
        exact congrArg List.head? (if_pos (List.prefix_append _ _))
      exact search?_of_first? here
  | cons c others inductionHypothesis =>
      have noneHere : (word "-->").first? ⟨pos, before, c :: (others ++ ("-->".toList ++ rest))⟩ = none := by
        rw [first?, word, chars_apply]
        exact congrArg List.head? (if_neg (not_commentEnd_of_cons unclosed rest))
      have later := inductionHypothesis (fun inside => unclosed (inside.trans (List.suffix_cons c others).isInfix)) (pos + 1)
        (c :: before)
      rw [List.cons_append, search?, noneHere]
      dsimp only
      rw [later, List.length_cons, Nat.add_right_comm pos 1, Nat.add_assoc pos]

def commentOf (comment : List Char) : List Char :=
  "<!--".toList ++ (comment ++ "-->".toList)

theorem length_commentOf (comment : List Char) : (commentOf comment).length = comment.length + 7 := by
  have opening : "<!--".toList.length = 4 := rfl
  have closing : "-->".toList.length = 3 := rfl
  rw [commentOf, List.length_append, List.length_append, opening, closing]
  omega

theorem first?_markupComment {comment : List Char} (unclosed : ¬ "-->".toList <:+: comment) (pos : Nat) (before rest : List Char) :
    ∃ later, markupComment.first? ⟨pos, before, commentOf comment ++ rest⟩ = some ((), later) ∧
      later.pos = pos + (commentOf comment).length := by
  have whole : commentOf comment ++ rest = "<!--".toList ++ (comment ++ ("-->".toList ++ rest)) := by
    simp only [commentOf, List.append_assoc]
  have ends := search?_commentEnd unclosed (pos + 4) ("<!--".toList.reverse ++ before) rest
  have opens : word "<!--" ⟨pos, before, "<!--".toList ++ (comment ++ ("-->".toList ++ rest))⟩ =
      [((), ⟨pos + 4, "<!--".toList.reverse ++ before, comment ++ ("-->".toList ++ rest)⟩)] := by
    rw [word, chars_apply]
    exact if_pos (List.prefix_append _ _)
  rw [whole, length_commentOf, first?, markupComment, bind_apply, opens, List.flatMap_singleton, bind_apply, skipTo]
  dsimp only
  rw [ends]
  refine ⟨_, rfl, ?_⟩
  dsimp only
  omega

namespace Scan

variable {α : Type}

theorem hitsFrom_length (scan : Scan α) (pos : Nat) (before front back : List Char) :
    scan.hitsFrom front.length pos before (front ++ back) =
      scan.hitsFrom 0 (pos + front.length) (front.reverse ++ before) back := by
  induction front generalizing pos before with
  | nil => rfl
  | cons c rest inductionHypothesis =>
      rw [List.length_cons, List.cons_append, hitsFrom, inductionHypothesis, Nat.add_assoc, Nat.add_comm 1,
        List.reverse_cons, List.append_assoc, List.singleton_append]

end Scan

theorem AwaitsBracket.hits_eq {α : Type} {scan : Scan α} (awaits : AwaitsBracket scan) {unmarked : List Char}
    (allUnmarked : ∀ c ∈ unmarked, isUnmarked c = true) (rest : List Char) :
    scan.hits (unmarked ++ '<' :: rest) = scan.hitsFrom 0 unmarked.length unmarked.reverse ('<' :: rest) := by
  obtain ⟨early, same, inside⟩ := exists_hitsFrom_append scan 0 0 [] unmarked ('<' :: rest)
  have none : early = [] := by
    refine List.eq_nil_iff_forall_not_mem.mpr fun hit listed => ?_
    have isHit : hit ∈ scan.hits (unmarked ++ '<' :: rest) := by
      rw [hits, same]
      exact List.mem_append_left _ listed
    have late := awaits.start_le allUnmarked isHit
    have before := (inside hit listed).2
    omega
  rw [hits, same, none]
  simp [furthest]

/-- The first comment of a page, and then those of what stands behind it. -/
theorem hits_markupComment {unmarked comment : List Char} (allUnmarked : ∀ c ∈ unmarked, isUnmarked c = true)
    (unclosed : ¬ "-->".toList <:+: comment) (rest : List Char) :
    markupComment.hits (unmarked ++ (commentOf comment ++ rest)) =
      ⟨unmarked.length, unmarked.length + (commentOf comment).length, ()⟩ ::
        (markupComment.hits rest).map (moveHit placeless (unmarked.length + (commentOf comment).length)) := by
  obtain ⟨later, first, place⟩ := first?_markupComment unclosed unmarked.length unmarked.reverse rest
  obtain ⟨others, spelled⟩ : ∃ others, commentOf comment = '<' :: others := ⟨_, rfl⟩
  have length : (commentOf comment).length = others.length + 1 := by rw [spelled, List.length_cons]
  rw [spelled, List.cons_append] at first
  have left : later.pos - unmarked.length - 1 = others.length := by omega
  have behind := hitsFrom_behind moves_markupComment 0 (unmarked.length + (commentOf comment).length) 0
    (others.reverse ++ '<' :: unmarked.reverse) [] rest
  rw [List.nil_append, Nat.add_zero, length, Nat.add_comm others.length, ← Nat.add_assoc] at behind
  rw [hits, hits, spelled, List.cons_append, ← hits, awaitsBracket_markupComment.hits_eq allUnmarked, hitsFrom, first]
  dsimp only
  rw [left, hitsFrom_length, behind, place]
  simp only [length, List.length_cons, Nat.add_assoc, Nat.add_comm 1]

/-! ## The code behind a comment -/

/-- The pieces of code of a page, where each kind is looked for only so many characters behind the beginning. -/
def codeStretchesFrom (elements scriptlets handlers : Nat) (page : List Char) : List Stretch :=
  let comments := markupComment.hits page |>.map fun hit => (⟨hit.start, hit.stop⟩ : Stretch)
  let visible := fun (hit : Hit Stretch) => !comments.any (·.contains hit.start)
  ((scriptElement.hitsFrom elements 0 [] page ++ scriptlet.hitsFrom scriptlets 0 [] page ++
    handlerAttribute.hitsFrom handlers 0 [] page).filter visible).map (·.value)

/-- The view of a page that shows these pieces of code. -/
def codeViewFrom (elements scriptlets handlers : Nat) (page : List Char) : List Char :=
  showOnly (codeStretchesFrom elements scriptlets handlers page) 0 page

theorem codeViewFrom_zero (page : List Char) : codeViewFrom 0 0 0 page = codeView page :=
  rfl

theorem contains_later (pos offset : Nat) (stretch : Stretch) :
    (stretch.later pos).contains (pos + offset) = stretch.contains offset := by
  simp [Stretch.contains, Stretch.later]

def inComment (page : List Char) (hit : Hit Stretch) : Bool :=
  ((markupComment.hits page).map fun found => (⟨found.start, found.stop⟩ : Stretch)).any (·.contains hit.start)

section Behind

variable {unmarked comment : List Char} (allUnmarked : ∀ c ∈ unmarked, isUnmarked c = true)
  (unclosed : ¬ "-->".toList <:+: comment) (rest : List Char)

include allUnmarked unclosed

theorem inComment_of_start {hit : Hit Stretch} (behind : unmarked.length ≤ hit.start)
    (before : hit.start < (unmarked ++ commentOf comment).length) :
    inComment (unmarked ++ commentOf comment ++ rest) hit = true := by
  rw [List.length_append] at before
  rw [inComment, List.append_assoc, hits_markupComment allUnmarked unclosed, List.map_cons, List.any_cons]
  simp [Stretch.contains, behind, before]

theorem inComment_moveHit (hit : Hit Stretch) :
    inComment (unmarked ++ commentOf comment ++ rest)
      (moveHit Stretch.later (unmarked ++ commentOf comment).length hit) = inComment rest hit := by
  have behind (found : Hit Unit) : (⟨(unmarked ++ commentOf comment).length + found.start,
      (unmarked ++ commentOf comment).length + found.stop⟩ : Stretch) =
        Stretch.later (unmarked ++ commentOf comment).length ⟨found.start, found.stop⟩ := rfl
  rw [inComment, inComment, List.append_assoc, hits_markupComment allUnmarked unclosed, ← List.length_append, List.map_cons,
    List.any_cons, List.map_map]
  simp only [moveHit, Function.comp_def, behind, List.any_map, contains_later]
  simp [Stretch.contains]

theorem filter_hits {scan : Scan Stretch} (moves : Moves Stretch.later scan) (awaits : AwaitsBracket scan) :
    ((scan.hits (unmarked ++ commentOf comment ++ rest)).filter
        fun hit => !inComment (unmarked ++ commentOf comment ++ rest) hit) =
      ((scan.hitsFrom (scan.reach (unmarked ++ commentOf comment) rest) 0 [] rest).filter fun hit => !inComment rest hit).map
        (moveHit Stretch.later (unmarked ++ commentOf comment).length) := by
  obtain ⟨early, same, inside⟩ := hits_append moves (unmarked ++ commentOf comment) rest
  have hidden : ∀ hit ∈ early, ¬ (!inComment (unmarked ++ commentOf comment ++ rest) hit) = true := by
    intro hit listed
    have isHit : hit ∈ scan.hits (unmarked ++ '<' :: ("!--".toList ++ (comment ++ "-->".toList) ++ rest)) := by
      have whole : unmarked ++ '<' :: ("!--".toList ++ (comment ++ "-->".toList) ++ rest) =
          unmarked ++ commentOf comment ++ rest := by
        rw [List.append_assoc unmarked]
        rfl
      rw [whole, same]
      exact List.mem_append_left _ listed
    have late := awaits.start_le allUnmarked isHit
    rw [inComment_of_start allUnmarked unclosed rest late (inside hit listed)]
    decide
  rw [same, List.filter_append, List.filter_eq_nil_iff.mpr hidden, List.nil_append, List.filter_map]
  congr 1
  refine List.filter_congr fun hit _ => ?_
  rw [Function.comp_apply, inComment_moveHit allUnmarked unclosed]

theorem codeStretches_append :
    codeStretches (unmarked ++ commentOf comment ++ rest) =
      (codeStretchesFrom (scriptElement.reach (unmarked ++ commentOf comment) rest)
        (scriptlet.reach (unmarked ++ commentOf comment) rest)
        (handlerAttribute.reach (unmarked ++ commentOf comment) rest) rest).map
          (Stretch.later (unmarked ++ commentOf comment).length) := by
  have elements := filter_hits allUnmarked unclosed rest moves_scriptElement awaitsBracket_scriptElement
  have scriptlets := filter_hits allUnmarked unclosed rest moves_scriptlet awaitsBracket_scriptlet
  have handlers := filter_hits allUnmarked unclosed rest moves_handlerAttribute awaitsBracket_handlerAttribute
  unfold inComment at elements scriptlets handlers
  unfold codeStretches codeStretchesFrom
  simp only [List.filter_append, List.map_append, elements, scriptlets, handlers, List.map_map]
  rfl

end Behind

theorem showOnly_append (stretches : List Stretch) (offset : Nat) (front back : List Char) :
    showOnly stretches offset (front ++ back) =
      showOnly stretches offset front ++ showOnly stretches (offset + front.length) back := by
  induction front generalizing offset with
  | nil => rfl
  | cons c rest inductionHypothesis =>
      rw [List.cons_append, showOnly, showOnly, inductionHypothesis, List.length_cons, Nat.add_assoc, Nat.add_comm 1]
      rfl

theorem showOnly_later (stretches : List Stretch) (pos offset : Nat) (text : List Char) :
    showOnly (stretches.map (Stretch.later pos)) (pos + offset) text = showOnly stretches offset text := by
  induction text generalizing offset with
  | nil => rfl
  | cons c rest inductionHypothesis =>
      rw [showOnly, showOnly, Nat.add_assoc, inductionHypothesis, List.any_map]
      simp only [Function.comp_def, contains_later]

theorem showOnly_before (stretches : List Stretch) (offset pos : Nat) (text : List Char) (before : offset + text.length ≤ pos) :
    showOnly (stretches.map (Stretch.later pos)) offset text = text.map blank := by
  induction text generalizing offset with
  | nil => rfl
  | cons c rest inductionHypothesis =>
      rw [List.length_cons] at before
      have noneHere : (stretches.map (Stretch.later pos)).any (·.contains offset) = false := by
        refine List.any_eq_false.mpr fun stretch listed => ?_
        obtain ⟨found, _, rfl⟩ := List.mem_map.mp listed
        have later : ¬ pos + found.start ≤ offset := by omega
        simp [Stretch.contains, Stretch.later, later]
      rw [showOnly, noneHere, inductionHypothesis (offset + 1) (by omega)]
      rfl

theorem reach_eq_zero {scan : Scan Stretch} {front back : List Char}
    (within : ∀ hit ∈ scan.hits (front ++ back), hit.start < front.length → hit.stop ≤ front.length) :
    scan.reach front back = 0 := by
  rw [reach, furthest_eq_zero fun hit listed => ?_]
  obtain ⟨isHit, early⟩ := List.mem_filter.mp listed
  exact within hit isHit (of_decide_eq_true early)

/-- Behind a comment a page shows what it shows without the comment, but of each kind of code only what is found from where the last
piece of that kind ends that begins in the comment. So if no piece that begins in the comment ends behind it, the comment makes no
difference, and else just if what is passed over makes none. -/
theorem codeView_behind_comment (unmarked comment rest : List Char)
    (allUnmarked : ∀ c ∈ unmarked, c ≠ '<' ∧ c ≠ '"' ∧ c ≠ '\'') (unclosed : ¬ "-->".toList <:+: comment) :
    ∀ front, front = unmarked ++ commentOf comment →
      codeView (front ++ rest) = front.map blank ++
        codeViewFrom (scriptElement.reach front rest) (scriptlet.reach front rest) (handlerAttribute.reach front rest) rest ∧
      (codeView (front ++ rest) = front.map blank ++ codeView rest ↔
        codeViewFrom (scriptElement.reach front rest) (scriptlet.reach front rest) (handlerAttribute.reach front rest) rest =
          codeView rest) ∧
      ((∀ scan ∈ [scriptElement, scriptlet, handlerAttribute], ∀ hit ∈ scan.hits (front ++ rest),
          hit.start < front.length → hit.stop ≤ front.length) →
        codeView (front ++ rest) = front.map blank ++ codeView rest) := by
  rintro front rfl
  have noneMarked : ∀ c ∈ unmarked, isUnmarked c = true := by
    intro c listed
    obtain ⟨noBracket, noDouble, noSingle⟩ := allUnmarked c listed
    simp [isUnmarked, noBracket, noDouble, noSingle]
  have shows : codeView (unmarked ++ commentOf comment ++ rest) = (unmarked ++ commentOf comment).map blank ++
      codeViewFrom (scriptElement.reach (unmarked ++ commentOf comment) rest)
        (scriptlet.reach (unmarked ++ commentOf comment) rest)
        (handlerAttribute.reach (unmarked ++ commentOf comment) rest) rest := by
    rw [codeView, codeStretches_append noneMarked unclosed, showOnly_append, showOnly_before _ _ _ _ (by omega), Nat.zero_add]
    exact congrArg (_ ++ ·) (showOnly_later _ _ 0 rest)
  refine ⟨shows, ?_, fun within => ?_⟩
  · rw [shows]
    exact List.append_right_inj _
  · rw [shows, reach_eq_zero (within scriptElement (by simp)), reach_eq_zero (within scriptlet (by simp)),
      reach_eq_zero (within handlerAttribute (by simp)), codeViewFrom_zero]

/-- A comment that holds a tag, and a script element behind it. -/
def commentedTag : List Char :=
  commentOf " <script> ".toList

def runElement : List Char :=
  "\n<script>run();</script>\n".toList

/-- The tag in the comment opens an element that goes on to the end of the real one, and so nothing of that is shown. -/
theorem commented_tag_hides_code : ¬ "-->".toList <:+: " <script> ".toList ∧
    codeView (commentedTag ++ runElement) = (commentedTag ++ runElement).map blank ∧
      codeView runElement = "\n        run();         \n".toList ∧
        codeView (commentedTag ++ runElement) ≠ commentedTag.map blank ++ codeView runElement := by
  have whole : codeView (commentedTag ++ runElement) = (commentedTag ++ runElement).map blank := by decide +kernel
  have shown : codeView runElement = "\n        run();         \n".toList := by decide +kernel
  refine ⟨by decide, whole, shown, ?_⟩
  rw [whole, shown, List.map_append]
  intro same
  have hidden : (runElement.map blank)[9]? = some ' ' := by decide +kernel
  rw [List.append_cancel_left same] at hidden
  cases hidden

theorem comment_of_word_behind : (∀ c ∈ "a ".toList, c ≠ '<' ∧ c ≠ '"' ∧ c ≠ '\'') ∧ ¬ "-->".toList <:+: " b ".toList ∧
    (∀ scan ∈ [scriptElement, scriptlet, handlerAttribute], ∀ hit ∈ scan.hits ("a ".toList ++ commentOf " b ".toList ++ runElement),
      hit.start < ("a ".toList ++ commentOf " b ".toList).length → hit.stop ≤ ("a ".toList ++ commentOf " b ".toList).length) ∧
    codeView ("a ".toList ++ commentOf " b ".toList ++ runElement) =
      ("a ".toList ++ commentOf " b ".toList).map blank ++ codeView runElement := by
  have unmarked : ∀ c ∈ "a ".toList, c ≠ '<' ∧ c ≠ '"' ∧ c ≠ '\'' := by simp
  have unclosed : ¬ "-->".toList <:+: " b ".toList := by decide
  have elements : scriptElement.hits ("a ".toList ++ commentOf " b ".toList ++ runElement) = [⟨13, 36, ⟨21, 27⟩⟩] := by cbv
  have scriptlets : scriptlet.hits ("a ".toList ++ commentOf " b ".toList ++ runElement) = [] := by decide +kernel
  have handlers : handlerAttribute.hits ("a ".toList ++ commentOf " b ".toList ++ runElement) = [] := by decide +kernel
  have within : ∀ scan ∈ [scriptElement, scriptlet, handlerAttribute],
      ∀ hit ∈ scan.hits ("a ".toList ++ commentOf " b ".toList ++ runElement),
        hit.start < ("a ".toList ++ commentOf " b ".toList).length →
          hit.stop ≤ ("a ".toList ++ commentOf " b ".toList).length := by
    simp only [List.forall_mem_cons, elements, scriptlets, handlers]
    exact ⟨by decide, by simp, by simp, by simp⟩
  exact ⟨unmarked, unclosed, within,
    (codeView_behind_comment "a ".toList " b ".toList runElement unmarked unclosed _ rfl).2.2 within⟩

end Source
end Deadwood
