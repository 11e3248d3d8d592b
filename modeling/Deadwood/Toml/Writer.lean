import Deadwood.Text.Quoted
import Deadwood.Text.Split
import Deadwood.Toml.Value

/-!
# Writing configuration files

Tables are written one after another, each entry on a line of its own. Texts are put in double quotes.
-/

set_option autoImplicit false
namespace Deadwood.Toml

open Text

/-- The mark before the two digits of a character below 256, as it comes after a stretch of a quoted text: short
if an even number of backslashes (that at the very beginning aside) ends the stretch. -/
def codeMark (stretch : List Char) : List Char :=
  let trailing := (stretch.tail.reverse.takeWhile (· == '\\')).length
  let plain := stretch.getLast? != some '\\'
  if plain != (trailing % 2 = 1) then ['x'] else ['u', '0', '0']

/-- Two stretches with the mark between them; doubled backslashes before it become single ones. -/
def joinPair (first second : List Char) : List Char :=
  let stretch := replaceAll ['\\', '\\'] ['\\'] first
  stretch ++ codeMark stretch ++ second

/-- Puts the stretches of a quoted text between marks together again, the first of them given apart. There must
be something before a mark. -/
def joinStretches (first : List Char) : List (List Char) → Except TomlError (List Char)
  | [] => .ok first
  | [second] => if first.isEmpty then .error .missingPart else .ok (joinPair first second)
  | second :: third :: rest =>
    if !first.isEmpty then joinStretches (joinPair first second) (third :: rest)
    else if second.isEmpty then .error .missingPart
    else joinStretches (joinPair second third) rest

def stringText (text : String) : Except TomlError String := do
  let quote := quoteFor text.toList
  let inner := text.toList.flatMap (quotedChar quote)
  let inner :=
    if quote == '\'' then
      replaceAll ['"'] ['\\', '"'] (replaceAll ['\\', '\''] ['\''] inner)
    else inner
  let joined ←
    match splitOnText ['\\', 'x'] inner with
    | [] => .ok []
    | first :: rest => joinStretches first rest
  return String.ofList ('"' :: joined ++ ['"'])

def valueText : TomlValue → Except TomlError String
  | .string text => stringText text
  | .integer value => .ok (toString value)
  | .array items => do
    let texts ← items.mapM fun
      | .string text => stringText text
      | _ => .error .wrongType
    return "[" ++ String.join (texts.map fun text => " " ++ text ++ ",") ++ "]"
  | _ => .error .wrongType

def render (tables : List (String × List (String × TomlValue))) : Except TomlError String := do
  let blocks ← tables.mapM fun (name, entries) => do
    let lines ← entries.mapM fun (key, value) => do return key ++ " = " ++ (← valueText value) ++ "\n"
    return "[" ++ name ++ "]\n" ++ String.join lines
  return "\n".intercalate blocks

end Deadwood.Toml
