import Deadwood.Moment
import Deadwood.Text.Split
import Deadwood.Toml.Value

/-!
# Numbers, dates, times and strings

How a single value of a configuration file is written.
-/

set_option autoImplicit false
namespace Deadwood.Toml

open Text

/-! ## Numbers -/

def digitValue? (c : Char) : Option Nat :=
  match decimalValue? c with
  | some value => some value
  | none => if c.isAlpha then some (c.toLower.toNat - 'a'.toNat + 10) else none

def digits? (base : Nat) (text : List Char) : Option Nat :=
  if text.isEmpty then none
  else text.foldl (fun value c => do
    let value ← value
    let digit ← digitValue? c
    if digit < base then some (value * base + digit) else none) (some 0)

/-- The whole number without sign that a text stands for, in base ten without leading zeros or in another base
after its mark. -/
def natural? (text : List Char) : Option Nat :=
  match text with
  | '0' :: mark :: rest =>
    if mark == 'x' || mark == 'X' then digits? 16 rest
    else if mark == 'o' || mark == 'O' then digits? 8 rest
    else if mark == 'b' || mark == 'B' then digits? 2 rest
    else (digits? 10 text).filter (· = 0)
  | _ =>
    match digits? 10 text with
    | some value =>
      if 1 < text.length && (text.head?.bind decimalValue?) == some 0 && value ≠ 0 then none else some value
    | none => none

def integer? (text : List Char) : Option Int :=
  match trim text with
  | '-' :: rest => (natural? rest).map fun value => -(value : Int)
  | '+' :: rest => (natural? rest).map Int.ofNat
  | rest => (natural? rest).map Int.ofNat

def isDigits (text : List Char) : Bool :=
  (splitOn '_' text).all fun run => !run.isEmpty && run.all isDecimal

def dropSign : List Char → List Char
  | '-' :: rest => rest
  | '+' :: rest => rest
  | rest => rest

def isFraction (text : List Char) : Bool :=
  let body := (dropSign (trim text)).map Char.toLower
  let mantissa := body.takeWhile (· != 'e')
  let exponent := body.dropWhile (· != 'e')
  let whole := mantissa.takeWhile (· != '.')
  let places := (mantissa.dropWhile (· != '.')).drop 1
  ["inf", "infinity", "nan"].contains (String.ofList body)
    || ((whole.isEmpty || isDigits whole) && (places.isEmpty || isDigits places)
      && !(whole.isEmpty && places.isEmpty) && (exponent.isEmpty || isDigits (dropSign (exponent.drop 1))))

/-! ## Dates and times -/

/-- The number of a stretch of a text, if it holds digits only. -/
def field? (text : List Char) (start stop : Nat) : Option Nat :=
  Moment.number? ((text.take stop).drop start)

/-- The microseconds after the point of a second, an offset after them aside. -/
def microseconds? (text : List Char) : Option Nat :=
  match text.drop 19 with
  | '.' :: rest =>
    let digits := rest.takeWhile Char.isDigit
    (Moment.number? digits).map fun value => value * Nat.pow 10 (6 - digits.length) / Nat.pow 10 (digits.length - 6)
  | _ => some 0

def isDate (text : List Char) : Bool :=
  let moment := do
    let year ← field? text 0 4
    let month ← field? text 5 7
    let day ← field? text 8 10
    if text.length = 10 then some (⟨year, month, day, 0, 0, 0, 0⟩ : Moment)
    else
      some ⟨year, month, day, ← field? text 11 13, ← field? text 14 16, ← field? text 17 19,
        (microseconds? text).getD 0⟩
  (text.drop 1).contains '-' && moment.any Moment.isValid

def clockTime? (text : List Char) : Option (Nat × Nat × Nat) :=
  match text with
  | a :: b :: ':' :: c :: d :: ':' :: e :: f :: _ => do
    return (← Moment.number? [a, b], ← Moment.number? [c, d], ← Moment.number? [e, f])
  | _ => none

/-! ## Strings -/

def escape? : Char → Option Char
  | '0' => some (Char.ofNat 0)
  | 'b' => some (Char.ofNat 8)
  | 'f' => some (Char.ofNat 12)
  | 'n' => some '\n'
  | 'r' => some '\r'
  | 't' => some '\t'
  | '"' => some '"'
  | '\\' => some '\\'
  | _ => none

/-- Replaces escapes of one letter; marks of code points that are left are kept. -/
def unescape : List Char → Except TomlError (List Char)
  | '\\' :: c :: rest =>
    match escape? c with
    | some replaced => (replaced :: ·) <$> unescape rest
    | none =>
      if c == 'u' || c == 'U' then (fun tail => '\\' :: c :: tail) <$> unescape rest
      else .error .malformed
  | c :: rest => (c :: ·) <$> unescape rest
  | [] => .ok []

def codePoint (count : Nat) (text : List Char) : Except TomlError (List Char) :=
  let digits := (text.take count).map Char.toLower
  match digits with
  | [] => .error .missingPart
  | first :: rest =>
    let isHex (c : Char) := c.isDigit || ('a' ≤ c && c ≤ 'f')
    if !digits.all isHex then .error .malformed
    else if first == 'd' && rest.head?.any (fun c => !('0' ≤ c && c ≤ '7')) then .error .malformed
    else
      match digits? 16 digits with
      | some value =>
        if 0x7fffffff < value then .error .codePointTooLarge
        else if 0x10ffff < value then .error .malformed
        else .ok (Char.ofNat value :: text.drop digits.length)
      | none => .error .malformed

/-- Puts the parts of a text between marks of code points together, each mark replaced by its character unless
its backslash is itself escaped. -/
def replaceCodePoints (count : Nat) (mark before : List Char) (skip : Bool) :
    List (List Char) → Except TomlError (List Char)
  | [] => .ok before
  | part :: rest =>
    if skip then replaceCodePoints count mark (before ++ mark ++ part) (endsInOddBackslashes part) rest
    else do replaceCodePoints count mark (before ++ (← codePoint count part)) false rest

def readCodePoints (count : Nat) (mark text : List Char) : Except TomlError (List Char) :=
  match splitOnText mark text with
  | first :: rest => replaceCodePoints count mark first (endsInOddBackslashes first) rest
  | [] => .ok text

/-- Nothing stands after the end of a string. `parts` are what stands between its quotes after the opening one;
`triple` says that it opens with three, `empties` counts quotes in a row, `closed` says that it has ended. -/
def endsProperly (triple : Bool) (empties : Nat) (closed : Bool) : List (List Char) → Bool
  | [] => true
  | part :: rest =>
    if part.isEmpty then
      if triple then endsProperly triple (empties + 1) closed rest else endsProperly triple empties true rest
    else if endsInOddBackslashes part then endsProperly triple empties closed rest
    else if closed then false
    else if !triple || 1 < empties then endsProperly triple empties true rest
    else endsProperly triple 0 closed rest

def withinQuotes (quote : Char) (text : List Char) : List Char :=
  let inner :=
    if text[1]? == some quote && (text.length < 3 || text[2]? == some quote) then (text.drop 2).dropLast.dropLast
    else text
  inner.tail.dropLast

def readString (quote : Char) (text : List Char) : Except TomlError TomlValue := do
  let parts := splitOn quote text.tail
  let triple := 1 < parts.length && parts.head? == some [] && parts[1]? == some []
  if !endsProperly triple 0 false (if triple then parts.drop 2 else parts) then throw .malformed
  if quote == '"' then
    let short ← readCodePoints 4 ['\\', 'u'] text
    let long ← readCodePoints 8 ['\\', 'U'] short
    return .string (String.ofList (withinQuotes quote (← unescape long)))
  else return .string (String.ofList (withinQuotes quote text))

/-- Reads a value that is neither a string nor an array nor a table. `plain` says that it is not part of a
text with another equals sign. -/
def readScalar (plain : Bool) (text : List Char) : Except TomlError TomlValue :=
  match clockTime? text with
  | some (hour, minute, second) =>
    if hour < 24 && minute < 60 && second < 60 then .ok .time else .error .malformed
  | none =>
    if isDate text then .ok .date
    else if !plain then .error .malformed
    else
      let negative := text.head? == some '-'
      let body := (dropSign text).filter (· != '_')
      let lowered := body.map Char.toLower
      if body.contains '.' || (!body.contains 'x' && lowered.contains 'e') then
        if (body.dropWhile (· != '.')) == ['.'] || !body.head?.any Char.isDigit || !isFraction body then
          .error .malformed
        else .ok .fraction
      else if lowered == "inf".toList || lowered == "nan".toList then .ok .fraction
      else
        match integer? body with
        | some value => .ok (.integer (if negative then -value else value))
        | none => .error .malformed

end Deadwood.Toml
