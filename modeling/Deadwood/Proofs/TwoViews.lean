import Deadwood.Proofs.MaskTurns

/-!
# The code view and the literal view

Definitions and calls are matched in the view that hides literals, names inside literals in the view that shows them, and
offsets of one are read in the other. The two scans go in step as long as they agree which slashes begin a pattern. Each
decides that by what it has written, so they can disagree only just behind the contents of a literal, which one of them has
written and the other not: behind the opening of an interpolation, or behind a quotation that the end of its line broke off.
-/

set_option autoImplicit false
namespace Deadwood.Source

open Deadwood.Text

theorem isBlank_blank (c : Char) : isBlank (blank c) = true := by
  unfold blank
  split
  · rename_i lineEnd
    rcases Bool.or_eq_true_iff.mp lineEnd with newline | returns
    · rw [beq_iff_eq.mp newline]
      rfl
    · rw [beq_iff_eq.mp returns]
      rfl
  · rfl

theorem blank_of_visible {c : Char} (visible : isBlank c = false) : blank c = ' ' := by
  refine if_neg fun lineEnd => ?_
  rcases Bool.or_eq_true_iff.mp lineEnd with newline | returns
  · rw [beq_iff_eq.mp newline] at visible
    cases visible
  · rw [beq_iff_eq.mp returns] at visible
    cases visible

/-! ## What a slash is judged by -/

theorem patternAllowed_blank {c : Char} (isBlank : isBlank c = true) (written : List Char) :
    patternAllowed (c :: written) = patternAllowed written := by
  unfold patternAllowed
  rw [List.dropWhile_cons_of_pos isBlank]

theorem patternAllowed_visible {c : Char} (visible : isBlank c = false) (written : List Char) :
    patternAllowed (c :: written) = (precedesPattern c ||
      (isNameChar c && patternKeywords.contains (String.ofList ((c :: written).takeWhile isNameChar).reverse))) := by
  unfold patternAllowed
  rw [List.dropWhile_cons_of_neg (by rw [visible]; decide)]

/-- What was written ends, blanks apart, in the contents of a literal, which the literal view shows and the code view hides.
Both are given nearest character first. -/
def BehindLiteral (code literal : List Char) : Prop :=
  ∃ blanks c older, literal = blanks ++ c :: older ∧ (∀ d ∈ blanks, isBlank d = true) ∧ isBlank c = false ∧
    code[blanks.length]? = some ' '

theorem BehindLiteral.blank {code literal : List Char} (behind : BehindLiteral code literal) {c : Char}
    (isBlank : isBlank c = true) (image : Char) : BehindLiteral (image :: code) (c :: literal) := by
  obtain ⟨blanks, last, older, rfl, blanksBefore, visible, hidden⟩ := behind
  refine ⟨c :: blanks, last, older, rfl, ?_, visible, hidden⟩
  rintro d (_ | ⟨_, member⟩)
  · exact isBlank
  · exact blanksBefore d member

theorem BehindLiteral.hidden {c : Char} (visible : isBlank c = false) (code literal : List Char) :
    BehindLiteral (Source.blank c :: code) (c :: literal) :=
  ⟨[], c, literal, rfl, by simp, visible, by rw [blank_of_visible visible]; rfl⟩

/-- Both views show the same word before a slash and judge the slash alike, unless the literal view takes it for the beginning
of a pattern because of literal contents that the code view does not show. -/
structure JudgedAlike (code literal : List Char) : Prop where
  word : code.takeWhile isNameChar = literal.takeWhile isNameChar
  judged : patternAllowed code = patternAllowed literal ∨
    patternAllowed code = false ∧ patternAllowed literal = true ∧ BehindLiteral code literal

structure BehindQuote (code literal : List Char) : Prop where
  division : patternAllowed code = false
  judged : patternAllowed literal = false ∨ BehindLiteral code literal

namespace JudgedAlike

variable {code literal : List Char}

theorem same (alike : JudgedAlike code literal) (c : Char) : JudgedAlike (c :: code) (c :: literal) where
  word := by
    cases isName : isNameChar c with
    | false => rw [List.takeWhile_cons_of_neg (by simp [isName]), List.takeWhile_cons_of_neg (by simp [isName])]
    | true => rw [List.takeWhile_cons_of_pos isName, List.takeWhile_cons_of_pos isName, alike.word]
  judged := by
    cases isBlank : isBlank c with
    | true =>
        rw [patternAllowed_blank isBlank, patternAllowed_blank isBlank]
        exact alike.judged.imp_right fun ⟨division, pattern, behind⟩ => ⟨division, pattern, behind.blank isBlank c⟩
    | false =>
        left
        rw [patternAllowed_visible isBlank, patternAllowed_visible isBlank]
        cases isName : isNameChar c with
        | false => rfl
        | true => rw [List.takeWhile_cons_of_pos isName, List.takeWhile_cons_of_pos isName, alike.word]

theorem blank (alike : JudgedAlike code literal) (c : Char) :
    JudgedAlike (Source.blank c :: code) (Source.blank c :: literal) :=
  alike.same (Source.blank c)

/-- Both show a mark that is neither blank nor part of a name. -/
theorem mark {c : Char} (visible : isBlank c = false) (noName : isNameChar c = false) (code literal : List Char) :
    JudgedAlike (c :: code) (c :: literal) where
  word := by rw [List.takeWhile_cons_of_neg (by simp [noName]), List.takeWhile_cons_of_neg (by simp [noName])]
  judged := Or.inl (by simp [patternAllowed_visible visible, noName])

/-- Behind the opening of an interpolation a slash begins a pattern where the opening is shown. -/
theorem opening (code literal : List Char) :
    JudgedAlike (Source.blank '{' :: Source.blank '$' :: code) ('{' :: '$' :: literal) where
  word := rfl
  judged := by
    have pattern : patternAllowed ('{' :: '$' :: literal) = true := by rw [patternAllowed_visible rfl]; rfl
    rw [pattern]
    cases patternAllowed (Source.blank '{' :: Source.blank '$' :: code) with
    | true => exact Or.inl rfl
    | false => exact Or.inr ⟨rfl, rfl, .hidden rfl _ _⟩

end JudgedAlike

namespace BehindQuote

variable {code literal : List Char}

theorem mark {quote : Char} (isQuote : quote = '\'' ∨ quote = '"') (code literal : List Char) :
    BehindQuote (quote :: code) (quote :: literal) := by
  rcases isQuote with rfl | rfl
  all_goals exact ⟨by rw [patternAllowed_visible rfl]; rfl, Or.inl (by rw [patternAllowed_visible rfl]; rfl)⟩

theorem hidden (quoted : BehindQuote code literal) (c : Char) : BehindQuote (blank c :: code) (c :: literal) where
  division := by rw [patternAllowed_blank (isBlank_blank c), quoted.division]
  judged := by
    cases isBlank : isBlank c with
    | true =>
        rw [patternAllowed_blank isBlank]
        exact quoted.judged.imp_right fun behind => behind.blank isBlank _
    | false => exact Or.inr (.hidden isBlank code literal)

theorem lineEnd (quoted : BehindQuote code literal) : JudgedAlike ('\n' :: code) ('\n' :: literal) where
  word := rfl
  judged := by
    have ends : isBlank '\n' = true := rfl
    rw [patternAllowed_blank ends, patternAllowed_blank ends, quoted.division]
    cases judged : patternAllowed literal with
    | false => exact Or.inl rfl
    | true =>
        have behind := quoted.judged.resolve_left (by rw [judged]; decide)
        exact Or.inr ⟨rfl, rfl, behind.blank ends '\n'⟩

end BehindQuote

/-! ## The two scans in step -/

/-- How what the two views show before a point inside a region compares. -/
def Compared : Region → List Char → List Char → Prop
  | .code, code, literal => JudgedAlike code literal
  | .lineComment, code, literal => JudgedAlike code literal
  | .blockComment, code, literal => JudgedAlike code literal
  | .quoted quote, code, literal => (quote = '\'' ∨ quote = '"') ∧ BehindQuote code literal
  | .template, _, _ => True
  | .pattern _, _, _ => True

/-- A turn that both scans take keeps the comparison. -/
theorem Compared.pass {region : Region} {code literal : List Char} (compared : Compared region code literal)
    (allowed : Bool) (holes : List Nat) (text : List Char) :
    let now := turn allowed holes region text
    Compared now.region ((now.image .code text).reverse ++ code) ((now.image .literal text).reverse ++ literal) := by
  fun_cases turn allowed holes region text
  all_goals simp_all [Turn.image, View.hides, View.code, View.literal, shown, Compared]
  case case2 => exact compared.same '\n'
  case case3 => exact compared.blank _
  case case4 => exact (compared.blank '*').blank '/'
  case case5 => exact compared.blank _
  case case6 => exact (compared.2.hidden '\\').hidden _
  case case7 quote c _ _ ends =>
    rcases ends with rfl | rfl
    · rcases compared.1 with rfl | rfl
      all_goals exact .mark rfl rfl code literal
    · exact compared.2.lineEnd
  case case8 => exact compared.2.hidden _
  case case10 => exact .opening code literal
  case case11 => exact .mark rfl rfl code literal
  case case14 => exact .mark rfl rfl code literal
  case case16 => exact (compared.blank '/').blank '/'
  case case17 => exact (compared.blank '/').blank '*'
  case case18 isQuote => exact .mark isQuote code literal
  case case21 => exact compared.same _
  case case22 => exact compared.same '{'
  case case24 => exact compared.same '}'
  case case25 => exact compared.same _

/-- Both scans come to an offset in the same region, and what they show before it compares. -/
structure InStep (text : List Char) (offset : Nat) (region : Region) (holes : List Nat) : Prop where
  code : ComesTo .code text offset region holes
  literal : ComesTo .literal text offset region holes
  compared : Compared region ((mask .code text).take offset).reverse ((mask .literal text).take offset).reverse

/-- At a slash that could begin a pattern the scans part: the literal view takes it for the beginning of one, because of
literal contents just before it, the code view, which does not show these, for a division. -/
structure PartsAt (text : List Char) (slash : Nat) : Prop where
  comesTo : ∃ holes, ComesTo .code text slash .code holes ∧ ComesTo .literal text slash .code holes
  isSlash : text[slash]? = some '/'
  closes : patternCloses false (text.drop (slash + 1)) = true
  division : patternAllowed ((mask .code text).take slash).reverse = false
  pattern : patternAllowed ((mask .literal text).take slash).reverse = true
  behind : BehindLiteral ((mask .code text).take slash).reverse ((mask .literal text).take slash).reverse

namespace InStep

variable {text : List Char} {offset : Nat} {region : Region} {holes : List Nat}

theorem start (text : List Char) : InStep text 0 .code [] where
  code := .start
  literal := .start
  compared := ⟨rfl, Or.inl rfl⟩

theorem pass (here : InStep text offset region holes) (more : offset < text.length) {now : Turn}
    (inCode : turn (patternAllowed ((mask .code text).take offset).reverse) holes region (text.drop offset) = now)
    (inLiteral : turn (patternAllowed ((mask .literal text).take offset).reverse) holes region (text.drop offset) = now) :
    InStep text (offset + now.count) now.region now.holes where
  code := here.code.pass more inCode
  literal := here.literal.pass more inLiteral
  compared := by
    rw [here.code.written_pass inCode, here.literal.written_pass inLiteral, ← inCode]
    exact here.compared.pass _ holes (text.drop offset)

/-- Where the turns differ the scans part. -/
theorem partsAt (here : InStep text offset region holes)
    (differ : turn (patternAllowed ((mask .code text).take offset).reverse) holes region (text.drop offset) ≠
      turn (patternAllowed ((mask .literal text).take offset).reverse) holes region (text.drop offset)) :
    PartsAt text offset ∧ (mask .code text)[offset]? = some '/' ∧ (mask .literal text)[offset]? = some '/' := by
  obtain ⟨judged, rfl, rest, begins, closes⟩ := (turn_eq_or_slash _ _ holes region _).resolve_left differ
  have isSlash : text[offset]? = some '/' := by rw [← List.head?_drop, begins]; rfl
  have restIs : text.drop (offset + 1) = rest := by rw [← List.drop_drop, begins]; rfl
  have alike : JudgedAlike _ _ := here.compared
  obtain ⟨division, pattern, behind⟩ := alike.judged.resolve_left judged
  refine ⟨⟨⟨holes, here.code, here.literal⟩, isSlash, by rw [restIs, closes], division, pattern, behind⟩, ?_⟩
  rw [begins] at differ
  have slashTurn (allowed : Bool) := @turn_slash allowed holes rest
    (fun _ isLine => differ (by rw [isLine]; rfl)) (fun _ isBlock => differ (by rw [isBlock]; rfl))
  constructor
  · rw [here.code.getElem?_mask rfl (Nat.le_refl offset) (by rw [begins, slashTurn]; simp), begins, slashTurn, isSlash]
    rfl
  · rw [here.literal.getElem?_mask rfl (Nat.le_refl offset) (by rw [begins, slashTurn]; simp), begins, slashTurn, isSlash]
    rfl

/-- What the code view shows of a turn, the literal view shows too. -/
theorem literal_shows (here : InStep text offset region holes)
    (same : turn (patternAllowed ((mask .code text).take offset).reverse) holes region (text.drop offset) =
      turn (patternAllowed ((mask .literal text).take offset).reverse) holes region (text.drop offset))
    {place : Nat} (past : offset ≤ place)
    (within : place < offset +
      (turn (patternAllowed ((mask .code text).take offset).reverse) holes region (text.drop offset)).count)
    (visible : (mask .code text)[place]? ≠ some ' ') : (mask .literal text)[place]? = (mask .code text)[place]? := by
  have inCode := here.code.getElem?_mask rfl past within
  rw [here.literal.getElem?_mask same.symm past within]
  rw [inCode] at visible ⊢
  cases here : text[place]? with
  | none => rfl
  | some c =>
      rw [here] at visible
      revert visible
      generalize Turn.share _ = share
      cases share with
      | code => intro; rfl
      | comment => intro; rfl
      | literal =>
          intro visible
          have notSpace : blank c ≠ ' ' := fun space => visible (congrArg some space)
          have kept : blank c = c := if_pos (by_contra fun noEnd => notSpace (if_neg noEnd))
          exact congrArg some kept.symm

/-- From a point on that both scans come to, the literal view shows what the code view shows, up to where they part. -/
theorem literal_shows_until_parting {offset : Nat} {region : Region} {holes : List Nat}
    (here : InStep text offset region holes) {place : Nat} (past : offset ≤ place)
    (visible : (mask .code text)[place]? ≠ some ' ') :
    (mask .literal text)[place]? = (mask .code text)[place]? ∨ ∃ slash < place, PartsAt text slash := by
  by_cases more : offset < text.length
  · by_cases same : turn (patternAllowed ((mask .code text).take offset).reverse) holes region (text.drop offset) =
        turn (patternAllowed ((mask .literal text).take offset).reverse) holes region (text.drop offset)
    · generalize passed : turn _ holes region (text.drop offset) = now at same
      have later := here.pass more passed same.symm
      have remains : text.drop offset ≠ [] := List.ne_nil_of_length_pos (by rw [List.length_drop]; omega)
      have moves : 0 < now.count := passed ▸ turn_count_pos remains ..
      by_cases within : place < offset + now.count
      · exact Or.inl (here.literal_shows (passed.trans same) past (by rw [passed]; exact within) visible)
      · exact later.literal_shows_until_parting (Nat.not_lt.mp within) visible
    · obtain ⟨parts, inCode, inLiteral⟩ := here.partsAt same
      rcases Nat.eq_or_lt_of_le past with rfl | behind
      · exact Or.inl (inLiteral.trans inCode.symm)
      · exact Or.inr ⟨offset, behind, parts⟩
  · have beyond (view : View) : (mask view text)[place]? = none :=
      List.getElem?_eq_none (by rw [(shows_mask view text).length_eq]; omega)
    exact Or.inl ((beyond .literal).trans (beyond .code).symm)
termination_by text.length - offset

end InStep

/-- What the code view shows at a place, the literal view shows there too, unless the two scans parted before: at a slash just
behind the contents of a literal, which the literal view took for the beginning of a pattern and the code view for a division. -/
theorem literal_view_shows_code_view (text : List Char) (place : Nat) :
    (mask .code text)[place]? = some ' ' ∨ (mask .literal text)[place]? = (mask .code text)[place]? ∨
      ∃ slash < place, PartsAt text slash :=
  or_iff_not_imp_left.mpr ((InStep.start text).literal_shows_until_parting (Nat.zero_le place))

/-- In an interpolation that begins with a pattern the code view takes the slash for a division and a quote in the pattern for
the beginning of a quotation. What follows the next quote is code then, though it stands in a comment. -/
theorem interpolated_pattern_parts_views :
    let text := "`$\x7b/\"/ // \" + run()\n\x7d`".toList
    (mask .code text)[14]? = some 'r' ∧ (mask .literal text)[14]? = some ' ' := by
  decide +kernel

end Deadwood.Source
