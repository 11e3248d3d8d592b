import Deadwood.Proofs.MaskShape

/-!
# The turns of the scan

The scan of a text goes turn by turn: it passes one or two characters, which belong to the code, to a literal or to a
comment, and stands somewhere else then. A view has a say in this at one point only: whether a slash begins a pattern is
decided by what has been written.
-/

set_option autoImplicit false
namespace Deadwood.Source

open Deadwood.Text

inductive Share where
  | code
  | literal
  | comment
  deriving Repr, DecidableEq

def View.hides (view : View) : Share → Bool
  | .code => false
  | .literal => view.hidesLiterals
  | .comment => view.hidesComments

/-- How many characters the scan passes at a turn, what they belong to, and where it stands then. -/
structure Turn where
  count : Nat
  share : Share
  region : Region
  holes : List Nat
  deriving Repr, DecidableEq

/-- The turn of the scan in a region before a text, where a slash may begin a pattern or not. -/
def turn (allowed : Bool) (holes : List Nat) : Region → List Char → Turn
  | region, [] => ⟨0, .code, region, holes⟩
  | .lineComment, c :: _ => if c == '\n' then ⟨1, .code, .code, holes⟩ else ⟨1, .comment, .lineComment, holes⟩
  | .blockComment, '*' :: '/' :: _ => ⟨2, .comment, .code, holes⟩
  | .blockComment, _ :: _ => ⟨1, .comment, .blockComment, holes⟩
  | .quoted quote, '\\' :: _ :: _ => ⟨2, .literal, .quoted quote, holes⟩
  | .quoted quote, c :: _ =>
    if c == quote || c == '\n' then ⟨1, .code, .code, holes⟩ else ⟨1, .literal, .quoted quote, holes⟩
  | .template, '\\' :: _ :: _ => ⟨2, .literal, .template, holes⟩
  | .template, '$' :: '{' :: _ => ⟨2, .literal, .code, 0 :: holes⟩
  | .template, c :: _ => if c == '`' then ⟨1, .code, .code, holes⟩ else ⟨1, .literal, .template, holes⟩
  | .pattern inClass, '\\' :: _ :: _ => ⟨2, .literal, .pattern inClass, holes⟩
  | .pattern inClass, c :: _ =>
    if !inClass && c == '/' then ⟨1, .code, .code, holes⟩
    else ⟨1, .literal, .pattern (if inClass then c != ']' else c == '['), holes⟩
  | .code, '/' :: '/' :: _ => ⟨2, .comment, .lineComment, holes⟩
  | .code, '/' :: '*' :: _ => ⟨2, .comment, .blockComment, holes⟩
  | .code, c :: rest =>
    if c == '\'' || c == '"' then ⟨1, .code, .quoted c, holes⟩
    else if c == '`' then ⟨1, .code, .template, holes⟩
    else if c == '/' && allowed && patternCloses false rest then ⟨1, .code, .pattern false, holes⟩
    else match holes with
      | [] => ⟨1, .code, .code, []⟩
      | depth :: outer =>
        if c == '{' then ⟨1, .code, .code, (depth + 1) :: outer⟩
        else if c == '}' then
          match depth with
          | 0 => ⟨1, .literal, .template, outer⟩
          | depth + 1 => ⟨1, .code, .code, depth :: outer⟩
        else ⟨1, .code, .code, depth :: outer⟩

def Turn.image (turn : Turn) (view : View) (text : List Char) : List Char :=
  (text.take turn.count).map (shown (view.hides turn.share))

@[simp] theorem shown_false (c : Char) : shown false c = c := rfl

theorem maskFrom_eq_turn (view : View) (region : Region) (holes : List Nat) (written text : List Char) :
    maskFrom view region holes written text =
      let now := turn (patternAllowed written) holes region text
      now.image view text ++
        maskFrom view now.region now.holes ((now.image view text).reverse ++ written) (text.drop now.count) := by
  fun_cases maskFrom view region holes written text
  all_goals simp +zetaDelta [maskFrom, turn, Turn.image, View.hides, *]

/-- A turn passes something if there is anything. -/
theorem turn_count_pos {text : List Char} (remains : text ≠ []) (allowed : Bool) (holes : List Nat) (region : Region) :
    0 < (turn allowed holes region text).count := by
  fun_cases turn allowed holes region text
  case case1 => exact absurd rfl remains
  all_goals simp

theorem turn_count_le (allowed : Bool) (holes : List Nat) (region : Region) (text : List Char) :
    (turn allowed holes region text).count ≤ text.length := by
  fun_cases turn allowed holes region text
  all_goals simp

theorem image_length {now : Turn} {text : List Char} (fits : now.count ≤ text.length) (view : View) :
    (now.image view text).length = now.count := by
  rw [Turn.image, List.length_map, List.length_take]
  exact Nat.min_eq_left fits

theorem maskFrom_take_turn (view : View) (region : Region) (holes : List Nat) (written text : List Char) :
    let now := turn (patternAllowed written) holes region text
    (maskFrom view region holes written text).take now.count = now.image view text := by
  intro now
  have imageLength : (now.image view text).length = now.count := image_length (turn_count_le ..) view
  rw [maskFrom_eq_turn, ← imageLength]
  exact List.take_left

theorem maskFrom_drop_turn (view : View) (region : Region) (holes : List Nat) (written text : List Char) :
    let now := turn (patternAllowed written) holes region text
    (maskFrom view region holes written text).drop now.count =
      maskFrom view now.region now.holes ((now.image view text).reverse ++ written) (text.drop now.count) := by
  intro now
  have imageLength : (now.image view text).length = now.count := image_length (turn_count_le ..) view
  rw [maskFrom_eq_turn, ← imageLength, List.drop_left, imageLength]

/-- A slash that begins no comment is code either way. -/
theorem turn_slash (allowed : Bool) (holes : List Nat) {rest : List Char}
    (noLine : ∀ after, rest ≠ '/' :: after) (noBlock : ∀ after, rest ≠ '*' :: after) :
    turn allowed holes .code ('/' :: rest) =
      ⟨1, .code, if allowed && patternCloses false rest then .pattern false else .code, holes⟩ := by
  cases pattern : allowed && patternCloses false rest with
  | true => simp_all [turn]
  | false => cases holes <;> simp_all [turn]

theorem turn_congr {region : Region} {text : List Char}
    (noPattern : region = .code → ∀ rest, text = '/' :: rest → patternCloses false rest = false) (first second : Bool)
    (holes : List Nat) : turn first holes region text = turn second holes region text := by
  fun_cases turn first holes region text
  all_goals simp_all [turn]

/-- Turns differ only where one takes a slash for the beginning of a pattern and the other does not. -/
theorem turn_eq_or_slash (first second : Bool) (holes : List Nat) (region : Region) (text : List Char) :
    turn first holes region text = turn second holes region text ∨
      first ≠ second ∧ region = .code ∧ ∃ rest, text = '/' :: rest ∧ patternCloses false rest = true := by
  by_cases same : first = second
  · exact Or.inl (by rw [same])
  · by_cases slash : region = .code ∧ ∃ rest, text = '/' :: rest ∧ patternCloses false rest = true
    · exact Or.inr ⟨same, slash⟩
    · refine Or.inl (turn_congr (fun isCode rest begins => ?_) first second holes)
      exact Bool.eq_false_iff.mpr fun closes => slash ⟨isCode, rest, begins, closes⟩

/-! ## Where the scan comes to -/

/-- The scan of a text comes to an offset in a region, with so many braces open in the interpolations around it. What it
has written before is the view up to there. -/
inductive ComesTo (view : View) (text : List Char) : Nat → Region → List Nat → Prop
  | start : ComesTo view text 0 .code []
  | pass {offset : Nat} {region : Region} {holes : List Nat} {now : Turn} (here : ComesTo view text offset region holes)
      (more : offset < text.length)
      (taken : turn (patternAllowed ((mask view text).take offset).reverse) holes region (text.drop offset) = now) :
      ComesTo view text (offset + now.count) now.region now.holes

namespace ComesTo

variable {view : View} {text : List Char} {offset : Nat} {region : Region} {holes : List Nat}

theorem drop_mask (here : ComesTo view text offset region holes) :
    (mask view text).drop offset =
      maskFrom view region holes ((mask view text).take offset).reverse (text.drop offset) := by
  induction here with
  | start => rfl
  | @pass offset region holes now here more taken ih =>
      rw [← List.drop_drop, ← List.drop_drop, List.take_add, List.reverse_append, ih]
      rw [← taken, maskFrom_drop_turn, maskFrom_take_turn]

variable {now : Turn} (here : ComesTo view text offset region holes)
  (taken : turn (patternAllowed ((mask view text).take offset).reverse) holes region (text.drop offset) = now)

include here taken

theorem drop_take_mask : ((mask view text).drop offset).take now.count = now.image view (text.drop offset) := by
  rw [here.drop_mask, ← taken, maskFrom_take_turn]

/-- What has been written after it, nearest character first. -/
theorem written_pass :
    ((mask view text).take (offset + now.count)).reverse =
      (now.image view (text.drop offset)).reverse ++ ((mask view text).take offset).reverse := by
  rw [List.take_add, here.drop_take_mask taken, List.reverse_append]

theorem getElem?_mask {place : Nat} (past : offset ≤ place) (within : place < offset + now.count) :
    (mask view text)[place]? = text[place]?.map (shown (view.hides now.share)) := by
  have atPlace := congrArg (fun characters => characters[place - offset]?) (here.drop_take_mask taken)
  have inTurn : place - offset < now.count := by omega
  have sum : offset + (place - offset) = place := by omega
  simpa [Turn.image, List.getElem?_take_of_lt inTurn, sum] using atPlace

end ComesTo

end Deadwood.Source
