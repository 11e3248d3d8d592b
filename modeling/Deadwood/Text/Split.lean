import Deadwood.Text.CharClass

/-!
# Splitting texts

Cutting a text at a separator and putting parts together again.
-/

set_option autoImplicit false
namespace Deadwood.Text

/-- The parts between occurrences of a character, at most the given number of cuts being made; `part` is the
reversed current part. -/
def splitFrom (separator : Char) (part : List Char) : Option Nat → List Char → List (List Char)
  | _, [] => [part.reverse]
  | some 0, rest => [part.reverse ++ rest]
  | cuts, c :: rest =>
    if c == separator then part.reverse :: splitFrom separator [] (cuts.map (· - 1)) rest
    else splitFrom separator (c :: part) cuts rest

def splitOn (separator : Char) (text : List Char) : List (List Char) :=
  splitFrom separator [] none text

def splitAtMost (separator : Char) (cuts : Nat) (text : List Char) : List (List Char) :=
  splitFrom separator [] (some cuts) text

def joinWith (separator : Char) : List (List Char) → List Char
  | [] => []
  | [part] => part
  | part :: rest => part ++ separator :: joinWith separator rest

/-- The parts between occurrences of a nonempty text; `part` is the reversed current part and `passing` counts
the characters of an occurrence that are still to be passed. -/
def splitOnFrom (separator : List Char) (part : List Char) (passing : Nat) : List Char → List (List Char)
  | [] => [part.reverse]
  | c :: rest =>
    match passing with
    | passing + 1 => splitOnFrom separator part passing rest
    | 0 =>
      if separator.isPrefixOf (c :: rest) then
        part.reverse :: splitOnFrom separator [] (separator.length - 1) rest
      else splitOnFrom separator (c :: part) 0 rest

def splitOnText (separator text : List Char) : List (List Char) :=
  splitOnFrom separator [] 0 text

def replaceAll (old new text : List Char) : List Char :=
  match splitOnText old text with
  | [] => []
  | first :: rest => first ++ (rest.map (new ++ ·)).flatten

def splitOnTextAtMost (separator : List Char) (cuts : Nat) (text : List Char) : List (List Char) :=
  let parts := splitOnText separator text
  match parts.drop cuts with
  | [] => parts
  | first :: rest => parts.take cuts ++ [first ++ (rest.map (separator ++ ·)).flatten]

def endsInOddBackslashes (text : List Char) : Bool :=
  (text.reverse.takeWhile (· == '\\')).length % 2 = 1

end Deadwood.Text
