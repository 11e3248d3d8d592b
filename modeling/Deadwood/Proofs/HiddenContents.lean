import Deadwood.Proofs.MaskTurns

/-!
# Hidden contents

What stands inside a quotation or a comment has no part in the code view. Up to where the quotation or comment begins two scans
cannot tell its contents apart, though they look ahead for the end of a pattern; inside of it they write blanks; and what they
decide behind it they decide by what has been written.
-/

set_option autoImplicit false
namespace Deadwood.Source

open Deadwood.Text

/-! ## One way through a text -/

namespace ComesTo

variable {view : View} {text : List Char} {offset later : Nat} {region region' : Region} {holes holes' : List Nat}

/-- The scan stands in one way at an offset, and comes from there to nothing before the end of its turn. -/
theorem unique_and_passes (later : Nat) :
    (∀ {region holes region' holes'}, ComesTo view text later region holes → ComesTo view text later region' holes' →
      region = region' ∧ holes = holes') ∧
    ∀ {offset region holes region' holes'}, ComesTo view text offset region holes → ComesTo view text later region' holes' →
      offset < later →
        offset + (turn (patternAllowed ((mask view text).take offset).reverse) holes region (text.drop offset)).count ≤ later := by
  induction later using Nat.strongRecOn with
  | ind later ih =>
      have moves {offset : Nat} {region : Region} {holes : List Nat} (more : offset < text.length) (allowed : Bool) :
          0 < (turn allowed holes region (text.drop offset)).count :=
        turn_count_pos (List.ne_nil_of_length_pos (by rw [List.length_drop]; omega)) ..
      constructor
      · intro region holes region' holes' here there
        cases here with
        | start =>
            generalize atStart : (0 : Nat) = place at there
            cases there with
            | start => exact ⟨rfl, rfl⟩
            | pass _ more taken =>
                have := moves more _ |>.trans_eq (congrArg Turn.count taken)
                omega
        | @pass first region holes now here more taken =>
            generalize same : first + now.count = place at there
            cases there with
            | start =>
                have := moves more _ |>.trans_eq (congrArg Turn.count taken)
                omega
            | @pass second region' holes' now' there more' taken' =>
                have forth := moves more _ |>.trans_eq (congrArg Turn.count taken)
                have back := moves more' _ |>.trans_eq (congrArg Turn.count taken')
                rcases Nat.lt_trichotomy first second with earlier | rfl | behind
                · have := (ih second (by omega)).2 here there earlier
                  rw [taken] at this
                  omega
                · obtain ⟨rfl, rfl⟩ := (ih first (by omega)).1 here there
                  obtain rfl := taken.symm.trans taken'
                  exact ⟨rfl, rfl⟩
                · have := (ih first (by omega)).2 there here behind
                  rw [taken'] at this
                  omega
      · intro offset region holes region' holes' here there earlier
        cases there with
        | start => omega
        | @pass middle region' holes' now there more taken =>
            have forth := moves more _ |>.trans_eq (congrArg Turn.count taken)
            rcases Nat.lt_trichotomy offset middle with before | rfl | behind
            · exact ((ih middle (by omega)).2 here there before).trans (Nat.le_add_right _ _)
            · obtain ⟨rfl, rfl⟩ := (ih offset earlier).1 here there
              rw [taken]
            · have := (ih offset earlier).2 there here behind
              rw [taken] at this
              omega

theorem unique (here : ComesTo view text offset region holes) (there : ComesTo view text offset region' holes') :
    region = region' ∧ holes = holes' :=
  (unique_and_passes offset).1 here there

/-- Where the scan comes to later, it comes to after the turn that it takes here. -/
theorem turn_le (here : ComesTo view text offset region holes) (there : ComesTo view text later region' holes')
    (earlier : offset < later) :
    offset + (turn (patternAllowed ((mask view text).take offset).reverse) holes region (text.drop offset)).count ≤ later :=
  (unique_and_passes later).2 here there earlier

theorem passing (here : ComesTo view text offset region holes) (now : Turn) (more : offset < text.length)
    (taken : turn (patternAllowed ((mask view text).take offset).reverse) holes region (text.drop offset) = now) :
    ComesTo view text (offset + now.count) now.region now.holes :=
  here.pass more taken

end ComesTo

/-! ## Looking ahead -/

/-- A turn looks at two characters, and at a slash that may begin a pattern for the end of the pattern. -/
theorem turn_cons_cons {c d : Char} {rest rest' : List Char} {allowed : Bool} {region : Region}
    (closes : region = .code → c = '/' → d ≠ '/' → d ≠ '*' → allowed = true →
      patternCloses false (d :: rest) = patternCloses false (d :: rest')) (holes : List Nat) :
    turn allowed holes region (c :: d :: rest) = turn allowed holes region (c :: d :: rest') := by
  cases region with
  | lineComment => rfl
  | blockComment =>
      by_cases ends : c = '*' ∧ d = '/'
      · obtain ⟨rfl, rfl⟩ := ends
        rfl
      · simp_all [turn]
  | quoted quote =>
      by_cases escapes : c = '\\'
      · rw [escapes]
        rfl
      · simp_all [turn]
  | template =>
      by_cases escapes : c = '\\'
      · rw [escapes]
        rfl
      · by_cases opens : c = '$' ∧ d = '{'
        · obtain ⟨rfl, rfl⟩ := opens
          rfl
        · simp_all [turn]
  | pattern inClass =>
      by_cases escapes : c = '\\'
      · rw [escapes]
        rfl
      · simp_all [turn]
  | code =>
      by_cases line : c = '/' ∧ d = '/'
      · obtain ⟨rfl, rfl⟩ := line
        rfl
      · by_cases block : c = '/' ∧ d = '*'
        · obtain ⟨rfl, rfl⟩ := block
          rfl
        · by_cases slash : c = '/' ∧ allowed = true
          · obtain ⟨rfl, rfl⟩ := slash
            have same := closes rfl rfl (fun same => line ⟨rfl, same⟩) (fun same => block ⟨rfl, same⟩) rfl
            simp_all [turn]
          · by_cases isSlash : c = '/'
            · have notAllowed : allowed = false := Bool.eq_false_iff.mpr fun isAllowed => slash ⟨isSlash, isAllowed⟩
              simp_all [turn]
            · simp_all [turn]

theorem patternCloses_cons {c : Char} (plain : c ≠ '\\') (inClass : Bool) (rest : List Char) :
    patternCloses inClass (c :: rest) =
      if c == '\n' then false
      else if inClass then patternCloses (c != ']') rest
      else if c == '/' then true
      else patternCloses (c == '[') rest := by
  simp [patternCloses, plain]

section Beginnings

variable {view : View} {before first second : List Char} {c : Char} {holes holes' : List Nat}

/-- A pattern in which a scan stands before a point, and that it has left there, is closed before the point. -/
theorem patternCloses_of_left (second : List Char)
    (atEnd : ComesTo view (before ++ c :: first) before.length .code holes') {offset : Nat} {inClass : Bool}
    (here : ComesTo view (before ++ c :: first) offset (.pattern inClass) holes) (within : offset ≤ before.length)
    (closes : patternCloses inClass (before.drop offset ++ c :: first) = true) :
    patternCloses inClass (before.drop offset ++ second) = true := by
  have inside : offset < before.length := by
    refine Nat.lt_of_le_of_ne within fun same => ?_
    subst same
    cases (here.unique atEnd).1
  have more : offset < (before ++ c :: first).length := by
    rw [List.length_append]
    omega
  have rest : (before ++ c :: first).drop offset = before.drop offset ++ c :: first :=
    List.drop_append_of_le_length within
  have past := here.turn_le atEnd inside
  have next := here.pass more rfl
  rw [rest] at past next
  have later (count : Nat) : before.drop (offset + count) = (before.drop offset).drop count := by rw [List.drop_drop]
  cases from_here : before.drop offset with
  | nil =>
      have := List.drop_eq_nil_iff.mp from_here
      omega
  | cons d tail =>
      rw [from_here] at closes past next later
      by_cases escape : d = '\\'
      · subst escape
        cases tail with
        | nil =>
            -- the backslash would take the next character with it
            have lengths := congrArg List.length from_here
            rw [List.length_drop, List.length_singleton] at lengths
            simp only [List.cons_append, List.nil_append, turn] at past
            omega
        | cons e tail =>
            simp only [List.cons_append, turn] at past next
            simp only [List.cons_append, patternCloses] at closes ⊢
            have onwards := later 2
            simp only [List.drop_succ_cons, List.drop_zero] at onwards
            have result := patternCloses_of_left second atEnd next past (by rw [onwards]; exact closes)
            rwa [onwards] at result
      · have noLineFeed : d ≠ '\n' := by
          rintro rfl
          cases closes
        by_cases shut : inClass = false ∧ d = '/'
        · obtain ⟨rfl, rfl⟩ := shut
          rfl
        have goesOn : turn (patternAllowed ((mask view (before ++ c :: first)).take offset).reverse) holes (.pattern inClass)
            (d :: (tail ++ c :: first)) = ⟨1, .literal, .pattern (if inClass then d != ']' else d == '['), holes⟩ := by
          simp_all [turn]
        have same (others : List Char) :
            patternCloses inClass (d :: others) = patternCloses (if inClass then d != ']' else d == '[') others := by
          rw [patternCloses_cons escape]
          cases inClass <;> simp_all
        simp only [List.cons_append, goesOn] at past next
        rw [List.cons_append, same] at closes ⊢
        have onwards := later 1
        simp only [List.drop_succ_cons, List.drop_zero] at onwards
        have result := patternCloses_of_left second atEnd next past (by rw [onwards]; exact closes)
        rwa [onwards] at result
termination_by before.length - offset

/-- A slash before the point begins a pattern whatever follows the point, where the scan comes to the point both times. -/
theorem closes_of_closes (atEnd : ComesTo view (before ++ c :: first) before.length .code holes') {offset : Nat}
    (here : ComesTo view (before ++ c :: first) offset .code holes) (inside : offset < before.length)
    (allowed : patternAllowed ((mask view (before ++ c :: first)).take offset).reverse = true)
    (slash : (before ++ c :: first).drop offset = '/' :: (before.drop (offset + 1) ++ c :: first))
    (noLine : ∀ after, before.drop (offset + 1) ++ c :: first ≠ '/' :: after)
    (noBlock : ∀ after, before.drop (offset + 1) ++ c :: first ≠ '*' :: after) (second : List Char)
    (closes : patternCloses false (before.drop (offset + 1) ++ c :: first) = true) :
    patternCloses false (before.drop (offset + 1) ++ c :: second) = true := by
  have begins : ComesTo view (before ++ c :: first) (offset + 1) (.pattern false) holes := by
    have more : offset < (before ++ c :: first).length := by
      rw [List.length_append]
      omega
    refine here.passing ⟨1, .code, .pattern false, holes⟩ more ?_
    rw [slash, turn_slash _ _ noLine noBlock, allowed, closes]
    rfl
  exact patternCloses_of_left (c :: second) atEnd begins inside closes

/-- Two scans that stand alike before a point, and both come to it, take the same turn. -/
theorem turn_eq_before (firstEnds : ComesTo view (before ++ c :: first) before.length .code holes')
    {otherHoles : List Nat} (secondEnds : ComesTo view (before ++ c :: second) before.length .code otherHoles)
    {offset : Nat} {region : Region} (inside : offset < before.length)
    (inFirst : ComesTo view (before ++ c :: first) offset region holes)
    (inSecond : ComesTo view (before ++ c :: second) offset region holes)
    (written : (mask view (before ++ c :: first)).take offset = (mask view (before ++ c :: second)).take offset) :
    turn (patternAllowed ((mask view (before ++ c :: first)).take offset).reverse) holes region
        ((before ++ c :: first).drop offset) =
      turn (patternAllowed ((mask view (before ++ c :: second)).take offset).reverse) holes region
        ((before ++ c :: second).drop offset) := by
  have seen (others : List Char) :
      (before ++ c :: others).drop offset = before[offset] :: (before.drop (offset + 1) ++ c :: others) := by
    rw [List.drop_append_of_le_length (Nat.le_of_lt inside), List.drop_eq_getElem_cons inside, List.cons_append]
  obtain ⟨d, next⟩ : ∃ d, ∀ others, ∃ after, before.drop (offset + 1) ++ c :: others = d :: after := by
    cases before.drop (offset + 1) with
    | nil => exact ⟨c, fun others => ⟨others, rfl⟩⟩
    | cons d tail => exact ⟨d, fun others => ⟨tail ++ c :: others, rfl⟩⟩
  obtain ⟨afterFirst, nextFirst⟩ := next first
  obtain ⟨afterSecond, nextSecond⟩ := next second
  rw [seen first, seen second, nextFirst, nextSecond, ← written]
  refine turn_cons_cons (fun isCode isSlash noLine noBlock allowed => ?_) holes
  subst isCode
  rw [← nextFirst, ← nextSecond]
  refine Bool.eq_iff_iff.mpr ⟨fun closes => ?_, fun closes => ?_⟩
  · refine closes_of_closes firstEnds inFirst inside allowed (by rw [seen, isSlash]) ?_ ?_ second closes
    · rw [nextFirst]
      exact fun after same => noLine (List.cons.inj same).1
    · rw [nextFirst]
      exact fun after same => noBlock (List.cons.inj same).1
  · refine closes_of_closes secondEnds inSecond inside (written ▸ allowed) (by rw [seen, isSlash]) ?_ ?_ first closes
    · rw [nextSecond]
      exact fun after same => noLine (List.cons.inj same).1
    · rw [nextSecond]
      exact fun after same => noBlock (List.cons.inj same).1

/-- What a scan has passed before a point shows the same whatever follows the point. -/
theorem image_eq_before {now : Turn} {offset : Nat} (within : offset + now.count ≤ before.length) :
    now.image view ((before ++ first).drop offset) = now.image view ((before ++ second).drop offset) := by
  have onlyBefore (others : List Char) :
      ((before ++ others).drop offset).take now.count = (before.drop offset).take now.count := by
    rw [List.drop_append_of_le_length (by omega)]
    exact List.take_append_of_le_length (by rw [List.length_drop]; omega)
  rw [Turn.image, Turn.image, onlyBefore, onlyBefore]

/-- Two scans that stand alike before a point, and both come to it, stand alike there. -/
theorem alike_at_point {otherHoles : List Nat} (firstEnds : ComesTo view (before ++ c :: first) before.length .code holes')
    (secondEnds : ComesTo view (before ++ c :: second) before.length .code otherHoles)
    {offset : Nat} {region : Region} {holes : List Nat} (within : offset ≤ before.length)
    (inFirst : ComesTo view (before ++ c :: first) offset region holes)
    (inSecond : ComesTo view (before ++ c :: second) offset region holes)
    (written : (mask view (before ++ c :: first)).take offset = (mask view (before ++ c :: second)).take offset) :
    holes' = otherHoles ∧
      (mask view (before ++ c :: first)).take before.length = (mask view (before ++ c :: second)).take before.length := by
  rcases Nat.lt_or_eq_of_le within with inside | rfl
  · have more (others : List Char) : offset < (before ++ c :: others).length := by
      rw [List.length_append]
      omega
    obtain ⟨now, taken⟩ : ∃ now, turn (patternAllowed ((mask view (before ++ c :: first)).take offset).reverse) holes region
        ((before ++ c :: first).drop offset) = now := ⟨_, rfl⟩
    have alike := (turn_eq_before firstEnds secondEnds inside inFirst inSecond written).symm.trans taken
    have past := inFirst.turn_le firstEnds inside
    rw [taken] at past
    have remains : (before ++ c :: first).drop offset ≠ [] := fun none =>
      Nat.not_le_of_gt (more first) (List.drop_eq_nil_iff.mp none)
    have moves : 0 < now.count := taken ▸ turn_count_pos remains _ holes region
    refine alike_at_point firstEnds secondEnds past (inFirst.pass (more first) taken) (inSecond.pass (more second) alike) ?_
    apply List.reverse_injective
    rw [inFirst.written_pass taken, inSecond.written_pass alike, written, image_eq_before past]
  · exact ⟨(firstEnds.unique inFirst).2.trans (secondEnds.unique inSecond).2.symm, written⟩
termination_by before.length - offset

end Beginnings

/-! ## Within -/

/-- Contents that a scan passes character by character, without leaving them and without showing them, count by their length. -/
theorem maskFrom_eq_of_stays {view : View} {region : Region} {share : Share} {rest : List Char}
    (hidden : view.hides share = true) {first second : List Char} (sameLength : first.length = second.length)
    (firstStays : ∀ c after, c :: after <:+ first → ∀ allowed holes,
      turn allowed holes region (c :: (after ++ rest)) = ⟨1, share, region, holes⟩)
    (secondStays : ∀ c after, c :: after <:+ second → ∀ allowed holes,
      turn allowed holes region (c :: (after ++ rest)) = ⟨1, share, region, holes⟩)
    (firstBlank : ∀ c ∈ first, blank c = ' ') (secondBlank : ∀ c ∈ second, blank c = ' ') (holes : List Nat)
    (written : List Char) :
    maskFrom view region holes written (first ++ rest) = maskFrom view region holes written (second ++ rest) := by
  induction first generalizing second written with
  | nil =>
      cases second with
      | nil => rfl
      | cons d after => cases sameLength
  | cons c first ih =>
      cases second with
      | nil => cases sameLength
      | cons d second =>
          have oneBlank {e : Char} {after : List Char} (isBlank : blank e = ' ') :
              Turn.image ⟨1, share, region, holes⟩ view (e :: after) = [' '] := by
            simp [Turn.image, shown, hidden, isBlank]
          rw [List.cons_append, List.cons_append, maskFrom_eq_turn, maskFrom_eq_turn view region holes written (d :: _)]
          rw [firstStays c first (List.suffix_refl _), secondStays d second (List.suffix_refl _)]
          simp only [oneBlank (firstBlank c List.mem_cons_self), oneBlank (secondBlank d List.mem_cons_self), List.drop_one,
            List.tail_cons]
          apply congrArg
          apply ih (Nat.succ.inj sameLength)
          · exact fun e after isEnd => firstStays e after (isEnd.trans (List.suffix_cons c first))
          · exact fun e after isEnd => secondStays e after (isEnd.trans (List.suffix_cons d second))
          · exact fun e isIn => firstBlank e (List.mem_cons_of_mem c isIn)
          · exact fun e isIn => secondBlank e (List.mem_cons_of_mem d isIn)

/-- What encloses contents that are no code. -/
inductive Enclosure where
  | quotation (quote : Char) (isQuote : quote = '\'' ∨ quote = '"')
  | blockComment
  | lineComment (lineEnd : Char) (isLineEnd : isLineBreak lineEnd = true)

namespace Enclosure

def opening : Enclosure → List Char
  | quotation quote _ => [quote]
  | blockComment => ['/', '*']
  | lineComment _ _ => ['/', '/']

def closing : Enclosure → List Char
  | quotation quote _ => [quote]
  | blockComment => ['*', '/']
  | lineComment lineEnd _ => [lineEnd]

/-- What the scan is inside of behind the opening. -/
def region : Enclosure → Region
  | quotation quote _ => .quoted quote
  | blockComment => .blockComment
  | lineComment _ _ => .lineComment

def share : Enclosure → Share
  | quotation _ _ => .literal
  | blockComment => .comment
  | lineComment _ _ => .comment

/-- The contents end where the closing stands, and not before. -/
def Fits : Enclosure → List Char → Prop
  | quotation quote _, contents => quote ∉ contents ∧ '\\' ∉ contents
  | blockComment, contents => ¬ ['*', '/'] <:+: contents
  | lineComment _ _, _ => True

/-- A text that has contents between a beginning and an end. -/
def around (enclosure : Enclosure) (before contents behind : List Char) : List Char :=
  before ++ enclosure.opening ++ contents ++ enclosure.closing ++ behind

variable (enclosure : Enclosure)

/-- The scan passes an opening in one turn, which does not depend on what is enclosed. -/
theorem turn_opening : ∃ share, ∀ allowed holes rest,
    turn allowed holes .code (enclosure.opening ++ rest) = ⟨enclosure.opening.length, share, enclosure.region, holes⟩ := by
  cases enclosure with
  | quotation quote isQuote =>
      refine ⟨.code, fun allowed holes rest => ?_⟩
      rcases isQuote with rfl | rfl <;> rfl
  | blockComment => exact ⟨.comment, fun allowed holes rest => rfl⟩
  | lineComment lineEnd isLineEnd => exact ⟨.comment, fun allowed holes rest => rfl⟩

/-- Between the opening and the closing a scan goes character by character. -/
theorem stays {contents : List Char} (fits : enclosure.Fits contents) (oneLine : '\n' ∉ contents) (behind : List Char)
    (c : Char) (after : List Char) (isEnd : c :: after <:+ contents) (allowed : Bool) (holes : List Nat) :
    turn allowed holes enclosure.region (c :: (after ++ (enclosure.closing ++ behind))) =
      ⟨1, enclosure.share, enclosure.region, holes⟩ := by
  have within : c ∈ contents := isEnd.subset List.mem_cons_self
  have noLineFeed : c ≠ '\n' := fun same => oneLine (same ▸ within)
  cases enclosure with
  | quotation quote isQuote =>
      obtain ⟨noQuote, noBackslash⟩ := fits
      have notQuote : c ≠ quote := fun same => noQuote (same ▸ within)
      have notBackslash : c ≠ '\\' := fun same => noBackslash (same ▸ within)
      simp [region, share, turn, notQuote, notBackslash, noLineFeed]
  | blockComment =>
      have noCloser : ∀ rest, c = '*' → after ++ (['*', '/'] ++ behind) ≠ '/' :: rest := by
        rintro rest rfl same
        cases after with
        | nil => cases same
        | cons d after =>
            obtain rfl : d = '/' := (List.cons.inj same).1
            exact fits ((List.prefix_append ['*', '/'] after).isInfix.trans isEnd.isInfix)
      simp only [region, share, closing]
      rw [turn]
      exact fun rest isStar same => noCloser rest isStar same
  | lineComment lineEnd isLineEnd => simp [region, share, turn, noLineFeed]

variable {enclosure}

theorem mask_around {view : View} {before contents behind : List Char} {holes : List Nat} {share : Share}
    (passes : ∀ allowed holes rest,
      turn allowed holes .code (enclosure.opening ++ rest) = ⟨enclosure.opening.length, share, enclosure.region, holes⟩)
    (reached : ComesTo view (enclosure.around before contents behind) before.length .code holes) :
    let upTo := (enclosure.opening.map (shown (view.hides share))).reverse ++
      ((mask view (enclosure.around before contents behind)).take before.length).reverse
    mask view (enclosure.around before contents behind) =
      upTo.reverse ++ maskFrom view enclosure.region holes upTo (contents ++ (enclosure.closing ++ behind)) := by
  intro upTo
  have fromPoint : (enclosure.around before contents behind).drop before.length =
      enclosure.opening ++ (contents ++ (enclosure.closing ++ behind)) := by
    simp only [around, List.append_assoc, List.drop_left]
  have taken := passes (patternAllowed ((mask view (enclosure.around before contents behind)).take before.length).reverse)
    holes (contents ++ (enclosure.closing ++ behind))
  rw [← fromPoint] at taken
  have more : before.length < (enclosure.around before contents behind).length := by
    have opens : 0 < enclosure.opening.length := by cases enclosure <;> exact Nat.zero_lt_succ _
    simp only [around, List.length_append]
    omega
  have behindOpening := reached.pass more taken
  have written := reached.written_pass taken
  rw [Turn.image, fromPoint, List.take_left] at written
  rw [← List.take_append_drop (before.length + enclosure.opening.length) (mask view (enclosure.around before contents behind))]
  rw [behindOpening.drop_mask, written, ← List.drop_drop, fromPoint, List.drop_left]
  rw [← List.reverse_reverse (List.take _ (mask view _)), written]

/-- What a view hides does not come into it: neither where it is hidden nor anywhere else. -/
theorem mask_eq_of_hidden {view : View} {before first second behind : List Char} (hidden : view.hides enclosure.share = true)
    (sameLength : first.length = second.length) (firstFits : enclosure.Fits first) (secondFits : enclosure.Fits second)
    (firstBlank : ∀ c ∈ first, blank c = ' ') (secondBlank : ∀ c ∈ second, blank c = ' ') {holes otherHoles : List Nat}
    (firstReached : ComesTo view (enclosure.around before first behind) before.length .code holes)
    (secondReached : ComesTo view (enclosure.around before second behind) before.length .code otherHoles) :
    mask view (enclosure.around before first behind) = mask view (enclosure.around before second behind) := by
  have oneLine {contents : List Char} (isBlank : ∀ c ∈ contents, blank c = ' ') : '\n' ∉ contents :=
    fun isIn => absurd (isBlank _ isIn) (by decide)
  obtain ⟨mark, after, opens⟩ : ∃ mark after, ∀ contents,
      enclosure.around before contents behind = before ++ mark :: (after ++ contents ++ enclosure.closing ++ behind) := by
    cases enclosure <;> exact ⟨_, _, fun contents => by simp only [around, opening, List.append_assoc]; rfl⟩
  obtain ⟨rfl, written⟩ : holes = otherHoles ∧
      (mask view (enclosure.around before first behind)).take before.length =
        (mask view (enclosure.around before second behind)).take before.length := by
    rw [opens] at firstReached secondReached
    rw [opens, opens]
    exact alike_at_point firstReached secondReached (Nat.zero_le _) .start .start rfl
  obtain ⟨share, passes⟩ := turn_opening enclosure
  rw [mask_around passes firstReached, mask_around passes secondReached, written]
  apply congrArg
  exact maskFrom_eq_of_stays hidden sameLength (enclosure.stays firstFits (oneLine firstBlank) behind)
    (enclosure.stays secondFits (oneLine secondBlank) behind) firstBlank secondBlank holes _

end Enclosure

/-- The scan of the code view comes to the offset in code, be it in an interpolation. -/
def TopLevel (text : List Char) (offset : Nat) : Prop :=
  ∃ holes, ComesTo .code text offset .code holes

/-- The code view of a text does not depend on what stands in a quotation or a comment, but for its length. -/
theorem mask_code_eq_of_enclosed (enclosure : Enclosure) {before first second behind : List Char}
    (sameLength : first.length = second.length)
    (firstFits : enclosure.Fits first) (secondFits : enclosure.Fits second)
    (firstOneLine : ∀ c ∈ first, c ≠ '\n' ∧ c ≠ '\r') (secondOneLine : ∀ c ∈ second, c ≠ '\n' ∧ c ≠ '\r')
    (firstReached : TopLevel (enclosure.around before first behind) before.length)
    (secondReached : TopLevel (enclosure.around before second behind) before.length) :
    mask .code (enclosure.around before first behind) = mask .code (enclosure.around before second behind) := by
  obtain ⟨holes, firstReached⟩ := firstReached
  obtain ⟨otherHoles, secondReached⟩ := secondReached
  have isBlank {c : Char} (noLineEnd : c ≠ '\n' ∧ c ≠ '\r') : blank c = ' ' := by
    simp [blank, noLineEnd.1, noLineEnd.2]
  have hidden : View.code.hides enclosure.share = true := by
    cases enclosure <;> rfl
  exact Enclosure.mask_eq_of_hidden hidden sameLength firstFits secondFits (fun c isIn => isBlank (firstOneLine c isIn))
    (fun c isIn => isBlank (secondOneLine c isIn)) firstReached secondReached

/-- A brace in a quotation ends no interpolation, and a slash in it no pattern. -/
theorem mask_code_eq_in_interpolation :
    mask .code ((Enclosure.quotation '"' (.inr rfl)).around "`$\x7b1/".toList ['}'] "/2\x7d`".toList) =
      mask .code ((Enclosure.quotation '"' (.inr rfl)).around "`$\x7b1/".toList ['/'] "/2\x7d`".toList) := by
  have reached (text : List Char) (isEither : text = "`$\x7b1/\"\x7d\"/2\x7d`".toList ∨ text = "`$\x7b1/\"/\"/2\x7d`".toList) :
      ComesTo .code text 5 .code [0] := by
    rcases isEither with rfl | rfl
    all_goals
      apply (ComesTo.start.passing ⟨1, .code, .template, []⟩ (by decide) (by decide)).passing
        ⟨2, .literal, .code, [0]⟩ (by decide) (by decide) |>.passing
        ⟨1, .code, .code, [0]⟩ (by decide) (by decide) |>.passing
        ⟨1, .code, .code, [0]⟩ (by decide) (by decide)
  exact mask_code_eq_of_enclosed (.quotation '"' (.inr rfl)) rfl (by simp [Enclosure.Fits]) (by simp [Enclosure.Fits])
    (by simp) (by simp) ⟨[0], reached _ (.inl rfl)⟩ ⟨[0], reached _ (.inr rfl)⟩

end Deadwood.Source
