import Mathlib.Data.List.Basic
import Deadwood.Source.Mask

/-!
# Nested templates

Code can hold templates and templates can hold code, to any depth. The scan keeps no more of this than how many braces are
open in each interpolation around it, and that is enough: whatever a piece of code holds, it leaves these counts as it found
them, so the brace that ends an interpolation is told from the others.
-/

set_option autoImplicit false
namespace Deadwood.Source

open Deadwood.Text

/-! ## What is written -/

def specialChars : List Char :=
  ['\'', '"', '`', '{', '}', '/', '\\']

structure PlainChar where
  char : Char
  plain : char ∉ specialChars

/-- The characters are all text when they stand in a template: none ends it and none opens an interpolation. A backslash takes
the next character with it. -/
def staysText : List Char → Bool
  | [] => true
  | '\\' :: [] => false
  | '\\' :: _ :: rest => staysText rest
  | '$' :: '{' :: _ => false
  | c :: rest => c != '`' && staysText rest

structure TemplateText where
  chars : List Char
  staysText : staysText chars = true

mutual

/-- Code: plain characters, groups in braces, and templates. -/
inductive Code where
  | nil
  | plain (c : PlainChar) (rest : Code)
  | group (inside rest : Code)
  | template (parts : Template) (rest : Code)

/-- What stands between the marks of a template: text, and interpolations that hold code. -/
inductive Template where
  | last (text : TemplateText)
  | hole (text : TemplateText) (inside : Code) (rest : Template)

end

mutual

def Code.written : Code → List Char
  | .nil => []
  | .plain c rest => c.char :: rest.written
  | .group inside rest => '{' :: (inside.written ++ '}' :: rest.written)
  | .template parts rest => '`' :: (parts.written ++ '`' :: rest.written)

def Template.written : Template → List Char
  | .last text => text.chars
  | .hole text inside rest => text.chars ++ '$' :: '{' :: (inside.written ++ '}' :: rest.written)

end

mutual

/-- The code with its literal contents hidden or not. The marks of interpolations are contents; braces of code and the marks
of templates are not. -/
def Code.seen (hidden : Bool) : Code → List Char
  | .nil => []
  | .plain c rest => c.char :: rest.seen hidden
  | .group inside rest => '{' :: (inside.seen hidden ++ '}' :: rest.seen hidden)
  | .template parts rest => '`' :: (parts.seen hidden ++ '`' :: rest.seen hidden)

/-- The parts of a template with the text and the marks of interpolations hidden or not. -/
def Template.seen (hidden : Bool) : Template → List Char
  | .last text => text.chars.map (shown hidden)
  | .hole text inside rest =>
    text.chars.map (shown hidden) ++
      shown hidden '$' :: shown hidden '{' :: (inside.seen hidden ++ shown hidden '}' :: rest.seen hidden)

end

/-! ## What the scan does -/

variable {view : View} {holes : List Nat}

/-- From one place the scan passes characters, shows them as their image, and comes to another place, whatever was before. -/
def Goes (view : View) (first second : Region × List Nat) (passed image behind : List Char) : Prop :=
  ∀ before, maskFrom view first.1 first.2 before (passed ++ behind) =
    image ++ maskFrom view second.1 second.2 (image.reverse ++ before) behind

theorem Goes.nil (place : Region × List Nat) (behind : List Char) : Goes view place place [] [] behind :=
  fun _ => rfl

theorem Goes.append {first second third : Region × List Nat} {passed image more moreImage behind : List Char}
    (goes : Goes view first second passed image (more ++ behind)) (goesOn : Goes view second third more moreImage behind) :
    Goes view first third (passed ++ more) (image ++ moreImage) behind := by
  intro before
  rw [List.append_assoc, goes before, goesOn, List.reverse_append, List.append_assoc, List.append_assoc]

theorem Goes.cons {first second third : Region × List Nat} {c image : Char} {more moreImage behind : List Char}
    (goes : Goes view first second [c] [image] (more ++ behind)) (goesOn : Goes view second third more moreImage behind) :
    Goes view first third (c :: more) (image :: moreImage) behind :=
  goes.append goesOn

def deeper : List Nat → List Nat
  | [] => []
  | depth :: outer => (depth + 1) :: outer

theorem goes_plain (c : PlainChar) (holes : List Nat) (behind : List Char) :
    Goes view (.code, holes) (.code, holes) [c.char] [c.char] behind := by
  obtain ⟨c, plain⟩ := c
  simp only [specialChars, List.mem_cons, List.not_mem_nil, or_false, not_or] at plain
  obtain ⟨noSingle, noDouble, noTemplate, noOpening, noClosing, noSlash, -⟩ := plain
  intro before
  rcases holes with _ | ⟨_ | depth, outer⟩ <;>
    simp [maskFrom, noSingle, noDouble, noTemplate, noOpening, noClosing, noSlash]

theorem goes_opening (holes : List Nat) (behind : List Char) :
    Goes view (.code, holes) (.code, deeper holes) ['{'] ['{'] behind := by
  intro before
  cases holes <;> rfl

theorem goes_closing (holes : List Nat) (behind : List Char) :
    Goes view (.code, deeper holes) (.code, holes) ['}'] ['}'] behind := by
  intro before
  cases holes <;> rfl

theorem goes_templateOpening (holes : List Nat) (behind : List Char) :
    Goes view (.code, holes) (.template, holes) ['`'] ['`'] behind :=
  fun _ => rfl

theorem goes_templateClosing (holes : List Nat) (behind : List Char) :
    Goes view (.template, holes) (.code, holes) ['`'] ['`'] behind :=
  fun _ => rfl

theorem goes_holeOpening (holes : List Nat) (behind : List Char) :
    Goes view (.template, holes) (.code, 0 :: holes) ['$', '{']
      [shown view.hidesLiterals '$', shown view.hidesLiterals '{'] behind :=
  fun _ => rfl

theorem goes_holeClosing (holes : List Nat) (behind : List Char) :
    Goes view (.code, 0 :: holes) (.template, holes) ['}'] [shown view.hidesLiterals '}'] behind :=
  fun _ => rfl

/-- Text of a template is passed as text, if what follows it makes no interpolation of a dollar sign at its end. -/
theorem goes_text {text : List Char} (stays : staysText text = true) (holes : List Nat) {behind : List Char}
    (noBrace : ∀ rest, behind ≠ '{' :: rest) :
    Goes view (.template, holes) (.template, holes) text (text.map (shown view.hidesLiterals)) behind := by
  fun_induction staysText text with
  | case1 => exact .nil _ _
  | case2 => cases stays
  | case3 escaped rest ih =>
      have goes : Goes view (.template, holes) (.template, holes) ['\\', escaped]
          [shown view.hidesLiterals '\\', shown view.hidesLiterals escaped] (rest ++ behind) := fun _ => rfl
      exact goes.append (ih stays)
  | case4 => cases stays
  | case5 c rest noLone noEscape noHole ih =>
      obtain ⟨notClosing, stays⟩ := Bool.and_eq_true_iff.mp stays
      have notMark : c ≠ '`' := by simpa using notClosing
      have noBackslash : c ≠ '\\' := by
        intro same
        cases rest with
        | nil => exact noLone same rfl
        | cons d others => exact noEscape d others same rfl
      have opensNothing : ∀ others, c = '$' → rest ++ behind ≠ '{' :: others := by
        intro others same brace
        cases rest with
        | nil => exact noBrace others brace
        | cons d more => exact noHole more same (by rw [(List.cons.inj brace).1])
      have goes : Goes view (.template, holes) (.template, holes) [c] [shown view.hidesLiterals c] (rest ++ behind) := by
        intro before
        simp [maskFrom, notMark, noBackslash]
      exact goes.cons (ih stays)

mutual

/-- Code leaves the counts of open braces as it found them. -/
theorem goes_code (code : Code) (holes : List Nat) (behind : List Char) :
    Goes view (.code, holes) (.code, holes) code.written (code.seen view.hidesLiterals) behind := by
  cases code with
  | nil => exact .nil _ _
  | plain c rest => exact (goes_plain c holes _).cons (goes_code rest holes behind)
  | group inside rest =>
      refine (goes_opening holes _).cons ((goes_code inside (deeper holes) _).append ?_)
      exact (goes_closing holes _).cons (goes_code rest holes behind)
  | template parts rest =>
      refine (goes_templateOpening holes _).cons ((goes_template parts holes ?_).append ?_)
      · exact fun _ => by simp
      · exact (goes_templateClosing holes _).cons (goes_code rest holes behind)

/-- So does a template, up to the mark that ends it. -/
theorem goes_template (parts : Template) (holes : List Nat) {behind : List Char} (noBrace : ∀ rest, behind ≠ '{' :: rest) :
    Goes view (.template, holes) (.template, holes) parts.written (parts.seen view.hidesLiterals) behind := by
  cases parts with
  | last text => exact goes_text text.staysText holes noBrace
  | hole text inside rest =>
      refine (goes_text text.staysText holes (by simp)).append ?_
      refine (goes_holeOpening holes _).append ?_
      refine (goes_code inside (0 :: holes) _).append ?_
      exact (goes_holeClosing holes _).cons (goes_template rest holes noBrace)

end

/-- A view shows nested templates as they are written, except that it hides their text and the marks of their interpolations
if it hides literals. -/
theorem mask_nested (view : View) (code : Code) : mask view code.written = code.seen view.hidesLiterals := by
  have whole := @goes_code view code [] [] []
  rw [List.append_nil, List.append_nil] at whole
  rw [mask, whole, maskFrom, List.append_nil]

end Deadwood.Source
