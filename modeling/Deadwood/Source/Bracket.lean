/-!
# Brackets

Brackets are counted in the masked view of a text, where literals and comments hold none.
-/

set_option autoImplicit false
namespace Deadwood.Source

structure Bracket where
  opening : Char
  closing : Char
  deriving Repr, DecidableEq

namespace Bracket

def round : Bracket := ⟨'(', ')'⟩
def square : Bracket := ⟨'[', ']'⟩
def curly : Bracket := ⟨'{', '}'⟩

def label (bracket : Bracket) : String :=
  String.ofList [bracket.opening, bracket.closing]

end Bracket

def closeAfter? (bracket : Bracket) : Nat → List Char → Option Nat
  | _, [] => none
  | depth, c :: rest =>
    if c == bracket.opening then (closeAfter? bracket (depth + 1) rest).map (· + 1)
    else if c == bracket.closing then
      match depth with
      | 0 => (closeAfter? bracket 0 rest).map (· + 1)
      | 1 => some 1
      | depth + 2 => (closeAfter? bracket (depth + 1) rest).map (· + 1)
    else (closeAfter? bracket depth rest).map (· + 1)

/-- The position just after the bracket that closes the one at `start`; none if there is no opening bracket
there or it never closes. -/
def closeOf? (bracket : Bracket) (masked : List Char) (start : Nat) : Option Nat :=
  match masked.drop start with
  | [] => none
  | c :: rest =>
    if c == bracket.opening then (closeAfter? bracket 1 rest).map (· + (start + 1)) else none

def surplus (bracket : Bracket) (masked : List Char) : Int :=
  (masked.count bracket.opening : Int) - (masked.count bracket.closing : Int)

def checkedBrackets : List Bracket := [.curly, .round, .square]

end Deadwood.Source
