/-!
# Order

Lists of texts are ordered by their first difference, texts by code points. A list comes before those that it
begins.
-/

set_option autoImplicit false
namespace Deadwood.Text

def notAfter : List String → List String → Bool
  | [], _ => true
  | _ :: _, [] => false
  | a :: first, b :: second => if a = b then notAfter first second else decide (a ≤ b)

theorem notAfter_append (texts rest : List String) : notAfter texts (texts ++ rest) = true := by
  induction texts with
  | nil => rfl
  | cons a texts textsInduction => simp [notAfter, textsInduction]

theorem notAfter_total (first second : List String) : (notAfter first second || notAfter second first) = true := by
  induction first generalizing second with
  | nil => simp [notAfter]
  | cons a first firstInduction =>
    cases second with
    | nil => simp [notAfter]
    | cons b second =>
      by_cases same : a = b
      · subst same
        simpa [notAfter] using firstInduction second
      · have ordered := String.le_total a b
        simp [notAfter, same, Ne.symm same, ordered]

theorem notAfter_antisymm {first second : List String} (before : notAfter first second = true)
    (after : notAfter second first = true) : first = second := by
  induction first generalizing second with
  | nil =>
    cases second with
    | nil => rfl
    | cons b second => simp [notAfter] at after
  | cons a first firstInduction =>
    cases second with
    | nil => simp [notAfter] at before
    | cons b second =>
      by_cases same : a = b
      · subst same
        simp [notAfter] at before after
        rw [firstInduction before after]
      · simp [notAfter, same] at before
        simp [notAfter, Ne.symm same] at after
        exact absurd (String.le_antisymm before after) same

theorem notAfter_trans {first second third : List String} (before : notAfter first second = true)
    (after : notAfter second third = true) : notAfter first third = true := by
  induction first generalizing second third with
  | nil => simp [notAfter]
  | cons a first firstInduction =>
    cases second with
    | nil => simp [notAfter] at before
    | cons b second =>
      cases third with
      | nil => simp [notAfter] at after
      | cons c third =>
        by_cases sameFirst : a = b <;> by_cases sameLast : b = c
        · subst sameFirst
          subst sameLast
          simp [notAfter] at before after ⊢
          exact firstInduction before after
        · subst sameFirst
          simpa [notAfter, sameLast] using after
        · subst sameLast
          simpa [notAfter, sameFirst] using before
        · simp [notAfter, sameFirst] at before
          simp [notAfter, sameLast] at after
          by_cases same : a = c
          · subst same
            exact absurd (String.le_antisymm before after) sameFirst
          · simp [notAfter, same]
            exact String.le_trans before after

end Deadwood.Text
