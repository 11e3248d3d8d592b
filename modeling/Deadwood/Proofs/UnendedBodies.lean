import Deadwood.Proofs.SpanBounds

/-!
# Bodies that do not end

The body that follows a name is a block, an arrow's block or expression, or a semicolon, whichever opens first outside of round and
square brackets. It has no end in just two cases: nothing opens a body, or a block opens and no brace closes it.
-/

set_option autoImplicit false
namespace Deadwood.Source

open Deadwood.Text

/-! ## Brackets that do not close -/

/-- Brackets never close just if no part that the text begins with closes more of them than were open and it opens. -/
theorem closeAfter?_eq_none_iff {bracket : Bracket} (apart : bracket.closing ≠ bracket.opening) {depth : Nat} (isOpen : 0 < depth)
    (text : List Char) : closeAfter? bracket depth text = none ↔
      ∀ count, (text.take count).count bracket.closing < depth + (text.take count).count bracket.opening := by
  induction text generalizing depth with
  | nil => simpa [closeAfter?] using isOpen
  | cons c rest inductionHypothesis =>
      rw [← Nat.and_forall_add_one]
      simp only [List.take_zero, List.count_nil, Nat.add_zero, isOpen, true_and, List.take_succ_cons, List.count_cons]
      unfold closeAfter?
      by_cases opens : c = bracket.opening
      · rw [if_pos (beq_iff_eq.mpr opens), Option.map_eq_none_iff, inductionHypothesis (Nat.succ_pos depth)]
        simp only [opens, beq_self_eq_true, if_true, beq_false_of_ne apart.symm]
        exact forall_congr' fun count => by simp; omega
      · rw [if_neg (by simpa using opens)]
        by_cases closes : c = bracket.closing
        · rw [if_pos (beq_iff_eq.mpr closes)]
          simp only [closes, beq_self_eq_true, if_true, beq_false_of_ne apart]
          cases depth with
          | zero => cases isOpen
          | succ depth =>
              cases depth with
              | zero => simpa using ⟨0, by simp⟩
              | succ depth =>
                  rw [Option.map_eq_none_iff, inductionHypothesis (Nat.succ_pos depth)]
                  exact forall_congr' fun count => by simp; omega
        · rw [if_neg (by simpa using closes), Option.map_eq_none_iff, inductionHypothesis isOpen]
          simp only [beq_false_of_ne opens, beq_false_of_ne closes]
          exact Iff.rfl

/-! ## Texts without a body -/

def openBrackets (text : List Char) : Int :=
  surplus .round text + surplus .square text

theorem openBrackets_cons (c : Char) (text : List Char) :
    openBrackets (c :: text) = openBrackets [c] + openBrackets text := by
  simp only [openBrackets, surplus, List.count_cons, List.count_nil]
  omega

def OpensBody (text : List Char) : Prop :=
  text.head? = some '\x7b' ∨ ['=', '>'] <+: text ∨ text.head? = some ';'

theorem opensBody_cons {c : Char} {text : List Char} :
    OpensBody (c :: text) ↔ c = '\x7b' ∨ (c = '=' ∧ text.head? = some '>') ∨ c = ';' := by
  cases text <;> simp [OpensBody, List.cons_prefix_cons, eq_comm]

/-- With so many brackets open before a text, no body opens outside of brackets. -/
def NoBody (depth : Int) (text : List Char) : Prop :=
  ∀ front after, text = front ++ after → depth + openBrackets front = 0 → ¬ OpensBody after

theorem noBody_nil (depth : Int) : NoBody depth [] := by
  intro front after split _ opens
  obtain ⟨rfl, rfl⟩ := List.append_eq_nil_iff.mp split.symm
  simp [OpensBody] at opens

theorem noBody_cons {depth : Int} {c : Char} {text : List Char} :
    NoBody depth (c :: text) ↔ (depth = 0 → ¬ OpensBody (c :: text)) ∧ NoBody (depth + openBrackets [c]) text := by
  constructor
  · intro none
    refine ⟨fun outside => none [] _ rfl (by rw [outside]; rfl), fun front after split outside => ?_⟩
    refine none (c :: front) after (by rw [split]; rfl) ?_
    rw [openBrackets_cons]
    omega
  · rintro ⟨notHere, later⟩ front after split outside
    cases front with
    | nil =>
        obtain rfl : c :: text = after := split
        exact notHere (by simpa [openBrackets, surplus] using outside)
    | cons d front =>
        obtain ⟨rfl, rfl⟩ := List.cons.inj split
        refine later front after rfl ?_
        rw [openBrackets_cons] at outside
        omega

/-- Inside of brackets, and where no body opens, the search for one goes on. -/
theorem bodyFrom_cons_of_not {depth : Int} {c : Char} {text : List Char} (noBody : depth = 0 → ¬ OpensBody (c :: text))
    (pos : Nat) : bodyFrom depth pos (c :: text) = bodyFrom (depth + openBrackets [c]) (pos + 1) text := by
  rw [opensBody_cons] at noBody
  rw [bodyFrom]
  split
  case isTrue opens =>
    have one : openBrackets [c] = 1 := by
      simp only [Bool.or_eq_true, beq_iff_eq] at opens
      rcases opens with rfl | rfl <;> rfl
    rw [one]
  case isFalse notOpening =>
    split
    case isTrue closes =>
      have one : openBrackets [c] = -1 := by
        simp only [Bool.or_eq_true, beq_iff_eq] at closes
        rcases closes with rfl | rfl <;> rfl
      rw [one]
      rfl
    case isFalse notClosing =>
      have none : openBrackets [c] = 0 := by
        simp only [Bool.or_eq_true, beq_iff_eq, not_or] at notOpening notClosing
        simp [openBrackets, surplus, Bracket.round, Bracket.square, notOpening, notClosing]
      simp only [not_or, not_and] at noBody
      rw [none, Int.add_zero, if_neg, if_neg, if_neg]
      all_goals
        simp only [Bool.and_eq_true, beq_iff_eq, not_and]
        intro outside
      · exact (noBody outside).2.2
      · exact (noBody outside).1
      · exact fun isArrow => (noBody outside.1).2.1 outside.2 isArrow

theorem bodyFrom_of_noBody {depth : Int} {text : List Char} (noBody : NoBody depth text) (pos : Nat) :
    bodyFrom depth pos text = ⟨none, none⟩ := by
  induction text generalizing depth pos with
  | nil => rfl
  | cons c rest inductionHypothesis =>
      obtain ⟨notHere, later⟩ := noBody_cons.mp noBody
      rw [bodyFrom_cons_of_not notHere, inductionHypothesis later]

/-! ## Bodies that do not end -/

/-- The body is a block that goes up to the brace that closes it, if one does, or it ends without a block. -/
inductive IsBody (text : List Char) (pos : Nat) (body : Body) : Prop
  | block (count : Nat) (brace : text[count]? = some '\x7b')
      (spelled : body = ⟨some (pos + count),
        (closeAfter? .curly 1 (text.drop (count + 1))).map (· + (pos + count + 1))⟩)
  | bare (stop : Nat) (spelled : body = ⟨none, some stop⟩)

theorem IsBody.append {text : List Char} {pos : Nat} {body : Body} (front : List Char)
    (isBody : IsBody text (pos + front.length) body) : IsBody (front ++ text) pos body := by
  cases isBody with
  | block count brace spelled =>
      refine .block (front.length + count) ?_ ?_
      · rwa [List.getElem?_append_right (Nat.le_add_right _ _), Nat.add_sub_cancel_left]
      · rw [spelled, Nat.add_assoc front.length, List.drop_length_add_append, Nat.add_assoc pos]
  | bare stop spelled => exact .bare stop spelled

theorem isBody_arrowBody (pos : Nat) (text : List Char) : IsBody text pos (arrowBody pos text) := by
  have whole := List.takeWhile_append_dropWhile (p := isBlank) (l := text)
  unfold arrowBody
  dsimp only
  split
  case h_1 rest same =>
    rw [same] at whole
    rw [← whole]
    refine IsBody.append _ (.block 0 rfl ?_)
    rw [whole]
    rfl
  case h_2 => exact .bare _ rfl

theorem isBody_of_opensBody {c : Char} {text : List Char} (opens : OpensBody (c :: text)) (pos : Nat) :
    IsBody (c :: text) pos (bodyFrom 0 pos (c :: text)) := by
  rcases opensBody_cons.mp opens with rfl | ⟨rfl, arrow⟩ | rfl
  · exact .block 0 rfl rfl
  · cases text with
    | nil => cases arrow
    | cons d rest =>
        obtain rfl := Option.some.inj arrow
        exact IsBody.append ['=', '>'] (isBody_arrowBody (pos + 2) rest)
  · exact .bare (pos + 1) rfl

theorem isBody_of_body {depth : Int} {text : List Char} (body : ¬ NoBody depth text) (pos : Nat) :
    IsBody text pos (bodyFrom depth pos text) := by
  induction text generalizing depth pos with
  | nil => exact absurd (noBody_nil depth) body
  | cons c rest inductionHypothesis =>
      by_cases here : depth = 0 ∧ OpensBody (c :: rest)
      · obtain ⟨rfl, opens⟩ := here
        exact isBody_of_opensBody opens pos
      · have notHere : depth = 0 → ¬ OpensBody (c :: rest) := fun outside opens => here ⟨outside, opens⟩
        rw [bodyFrom_cons_of_not notHere]
        exact IsBody.append [c] (inductionHypothesis (fun none => body (noBody_cons.mpr ⟨notHere, none⟩)) (pos + 1))

/-- After an offset there is no body, or only a block that no brace closes. -/
inductive Unended (view : List Char) (offset : Nat) : Prop
  | missing (noBody : NoBody 0 (view.drop offset))
  | unclosed (opening : Nat) (opens : (bodyAfter view offset).opening = some opening) (brace : view[opening]? = some '\x7b')
      (never : ∀ count, ((view.drop (opening + 1)).take count).count '\x7d' ≤
        ((view.drop (opening + 1)).take count).count '\x7b')

theorem closeAfter?_curly_eq_none_iff (text : List Char) : closeAfter? .curly 1 text = none ↔
    ∀ count, (text.take count).count '\x7d' ≤ (text.take count).count '\x7b' := by
  rw [closeAfter?_eq_none_iff (by decide) Nat.one_pos]
  exact forall_congr' fun count => by rw [Nat.add_comm, Nat.lt_succ_iff]; rfl

theorem unended_iff (view : List Char) (offset : Nat) : Unended view offset ↔ (bodyAfter view offset).stop = none := by
  by_cases noBody : NoBody 0 (view.drop offset)
  · exact iff_of_true (.missing noBody) (by rw [bodyAfter, bodyFrom_of_noBody noBody])
  cases spelledBody : isBody_of_body noBody offset with
  | block count brace spelled =>
      rw [List.getElem?_drop] at brace
      rw [List.drop_drop] at spelled
      have stops : (bodyAfter view offset).stop = none ↔ closeAfter? .curly 1 (view.drop (offset + count + 1)) = none := by
        rw [bodyAfter, spelled, Option.map_eq_none_iff, Nat.add_assoc]
      rw [stops, closeAfter?_curly_eq_none_iff]
      constructor
      · rintro (none | ⟨opening, opens, _, never⟩)
        · exact absurd none noBody
        · rw [bodyAfter, spelled] at opens
          obtain rfl := Option.some.inj opens
          exact never
      · exact .unclosed (offset + count) (by rw [bodyAfter, spelled]) brace
  | bare stop spelled =>
      refine iff_of_false ?_ (by rw [bodyAfter, spelled]; exact Option.some_ne_none _)
      rintro (none | ⟨opening, opens, _⟩)
      · exact noBody none
      · rw [bodyAfter, spelled] at opens
        cases opens

end Deadwood.Source
