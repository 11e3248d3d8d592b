import Deadwood.Source.Mask
import Deadwood.Source.Scan

/-!
# The code view of a page

A page carries code in script elements, in scriptlets and in handler attributes. The code view shows these
and replaces all other markup by spaces, line ends kept, so offsets are those of the page. A piece of code
that begins inside a markup comment is not shown.
-/

set_option autoImplicit false
namespace Deadwood.Source

open Deadwood.Text

/-- Skips to the first place where `stop` succeeds and passes it. The value is the offset where it begins. -/
def Scan.skipTo (stop : Scan Unit) : Scan Nat := fun cursor =>
  match stop.search? cursor.pos cursor.before cursor.after with
  | some hit =>
    let passedText := cursor.after.take (hit.stop - cursor.pos)
    [(hit.start, ⟨hit.stop, passedText.reverse ++ cursor.before, cursor.after.drop (hit.stop - cursor.pos)⟩)]
  | none => []

/-- A stretch of a text, from `start` up to but not including `stop`. -/
structure Stretch where
  start : Nat
  stop : Nat
  deriving Repr, DecidableEq

def Stretch.contains (stretch : Stretch) (offset : Nat) : Bool :=
  stretch.start ≤ offset && offset < stretch.stop

def isLetterIgnoringCase (c : Char) : Bool :=
  "abcdefghijklmnopqrstuvwxyz".toList.any (sameIgnoringCase c)

def scriptElement : Scan Stretch := do
  Scan.wordIgnoringCase "<script"
  Scan.wordEdge
  Scan.many (· != '>')
  let _ ← Scan.one (· == '>')
  let start ← Scan.here
  let stop ← Scan.skipTo do
    Scan.wordIgnoringCase "</script"
    Scan.many isSpace
    let _ ← Scan.one (· == '>')
  pure ⟨start, stop⟩

/-- A scriptlet; the value is the stretch between its marks, an output mark belonging to the opening. -/
def scriptlet : Scan Stretch := do
  Scan.word "<?"
  Scan.optional do
    Scan.optional (Scan.word "!")
    Scan.word "="
  let start ← Scan.here
  let stop ← Scan.skipTo (Scan.word "?>")
  pure ⟨start, stop⟩

def handlerAttribute : Scan Stretch := do
  let _ ← Scan.one isSpace
  Scan.wordIgnoringCase "on"
  Scan.oneOrMore isLetterIgnoringCase
  Scan.many isSpace
  let _ ← Scan.one (· == '=')
  Scan.many isSpace
  let quote ← Scan.one fun c => c == '"' || c == '\''
  let start ← Scan.here
  let stop ← Scan.skipTo (Scan.chars [quote])
  pure ⟨start, stop⟩

def markupComment : Scan Unit := do
  Scan.word "<!--"
  let _ ← Scan.skipTo (Scan.word "-->")

def codeStretches (page : List Char) : List Stretch :=
  let comments := markupComment.hits page |>.map fun hit => (⟨hit.start, hit.stop⟩ : Stretch)
  let visible := fun (hit : Hit Stretch) => !comments.any (·.contains hit.start)
  ((scriptElement.hits page ++ scriptlet.hits page ++ handlerAttribute.hits page).filter visible).map (·.value)

def showOnly (stretches : List Stretch) (offset : Nat) : List Char → List Char
  | [] => []
  | c :: rest =>
    (if stretches.any (·.contains offset) then c else blank c) :: showOnly stretches (offset + 1) rest

def codeView (page : List Char) : List Char :=
  showOnly (codeStretches page) 0 page

end Deadwood.Source
