import Deadwood.Text.CharClass
import Deadwood.Text.Split

/-!
# Styled text

A text for the console can hold tags in square brackets that switch a style on, `[bold]`, or off, `[/bold]` or
`[/]`. The console here has no styles, so tags are only taken out. A bracket after an odd number of backslashes
stands for itself, and so does one that no tag can begin with.
-/

set_option autoImplicit false
namespace Deadwood.Text.Styled

/-- Why a text with tags cannot be shown: a style is switched off that is not on, or none is on. -/
inductive TagError where
  | notOpen (style : String)
  | nothingOpen
  deriving Repr, DecidableEq

def TagError.message : TagError → String
  | notOpen style => "no style to switch off: " ++ style
  | nothingOpen => "no style is on"

inductive Piece where
  | plain (text : List Char)
  | tag (inside : List Char)
  deriving Repr, DecidableEq

def opensTag (c : Char) : Bool :=
  ('a' ≤ c && c ≤ 'z') || c == '#' || c == '/' || c == '@'

/-- The text up to the closing bracket, unless another bracket opens before. -/
def upToBracket : List Char → Option (List Char)
  | [] => none
  | c :: rest =>
    if c == ']' then some []
    else if c == '[' then none
    else (upToBracket rest).map (c :: ·)

def tagInside? : List Char → Option (List Char)
  | [] => none
  | c :: rest => if opensTag c then (upToBracket rest).map (c :: ·) else none

def plainPiece (reversed : List Char) : List Piece :=
  if reversed.isEmpty then [] else [.plain (replaceAll ['\\', '['] ['['] reversed.reverse)]

/-- The pieces of a text: `plain` is the reversed plain text before, `backslashes` how many backslashes stand at
its end and are not yet part of it, and `passing` how many characters of a tag are still to be passed. -/
def piecesFrom (plain : List Char) (backslashes passing : Nat) : List Char → List Piece
  | [] => plainPiece (List.replicate backslashes '\\' ++ plain)
  | c :: rest =>
    if 0 < passing then piecesFrom plain backslashes (passing - 1) rest
    else if c == '\\' then piecesFrom plain (backslashes + 1) 0 rest
    else
      match if c == '[' then tagInside? rest else none with
      | none => piecesFrom (c :: (List.replicate backslashes '\\' ++ plain)) 0 0 rest
      | some inside =>
        let before := plainPiece plain ++ plainPiece (List.replicate (backslashes / 2) '\\')
        let piece : Piece := if backslashes % 2 = 0 then .tag inside else .plain ('[' :: inside ++ [']'])
        before ++ piece :: piecesFrom [] 0 (inside.length + 1) rest

def styleName (text : List Char) : String :=
  lower (String.ofList (trim text))

def switch (styles : List String) (inside : List Char) : Except TagError (List String) :=
  let name := inside.takeWhile (· != '=')
  match name with
  | '/' :: closed =>
    let style := styleName closed
    if style.isEmpty then
      match styles with
      | [] => .error .nothingOpen
      | _ :: rest => .ok rest
    else if styles.contains style then .ok (styles.erase style)
    else .error (.notOpen style)
  | _ => .ok (styleName name :: styles)

def plainText (styles : List String) : List Piece → Except TagError (List Char)
  | [] => .ok []
  | .plain text :: rest => do return text ++ (← plainText styles rest)
  | .tag inside :: rest => do plainText (← switch styles inside) rest

def isSilent (c : Char) : Bool :=
  [7, 8, 11, 12, 13].contains c.toNat

def shown (text : String) : Except TagError String :=
  (plainText [] (piecesFrom [] 0 0 text.toList)).map fun text => String.ofList (text.filter (!isSilent ·))

end Deadwood.Text.Styled
