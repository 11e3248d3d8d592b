import Deadwood.Text.CharClass
import Deadwood.Json.Printer

/-!
# Quoted texts in messages

A path in a message of the operating system is put in single quotes, or in double quotes if it holds single
quotes only. Quotes like those around it, backslashes, line ends and tabs are escaped, and so is every
character that is not printable.
-/

set_option autoImplicit false
namespace Deadwood.Text

def hexDigits (count value : Nat) : List Char :=
  (List.range count).reverse.map fun place => JsonValue.hexDigit (value / Nat.pow 16 place % 16)

def quotedChar (quote c : Char) : List Char :=
  let n := c.toNat
  if c == quote || c == '\\' then ['\\', c]
  else if c == '\n' then ['\\', 'n']
  else if c == '\r' then ['\\', 'r']
  else if c == '\t' then ['\\', 't']
  else if isPrintable c then [c]
  else if n < 0x100 then '\\' :: 'x' :: hexDigits 2 n
  else if n < 0x10000 then '\\' :: 'u' :: hexDigits 4 n
  else '\\' :: 'U' :: hexDigits 8 n

def quoteFor (text : List Char) : Char :=
  if text.contains '\'' && !text.contains '"' then '"' else '\''

def quoted (text : String) : String :=
  let quote := quoteFor text.toList
  String.ofList (quote :: text.toList.flatMap (quotedChar quote) ++ [quote])

def quotedPoints (points : List Nat) : String :=
  let quote := quoteFor (points.filterMap fun point => if point.isValidChar then some (Char.ofNat point) else none)
  let written (point : Nat) : List Char :=
    if point.isValidChar then quotedChar quote (Char.ofNat point) else '\\' :: 'u' :: hexDigits 4 point
  String.ofList (quote :: points.flatMap written ++ [quote])

end Deadwood.Text
