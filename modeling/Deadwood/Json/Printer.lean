import Deadwood.Json.Value

/-!
# Writing structured values

Values are written over several lines with two spaces more for each level, in ASCII: any other character is
written as one or two UTF-16 units. Empty lists and objects stay on their line.
-/

set_option autoImplicit false
namespace Deadwood
namespace JsonValue

def hexDigit (value : Nat) : Char :=
  Char.ofNat (if value < 10 then 48 + value else 87 + value)

def escapeUnit (unit : Nat) : List Char :=
  ['\\', 'u', hexDigit (unit / 4096 % 16), hexDigit (unit / 256 % 16), hexDigit (unit / 16 % 16),
   hexDigit (unit % 16)]

def escapeChar (c : Char) : List Char :=
  if c == '"' then ['\\', '"']
  else if c == '\\' then ['\\', '\\']
  else if c == '\n' then ['\\', 'n']
  else if c == '\r' then ['\\', 'r']
  else if c == '\t' then ['\\', 't']
  else if c.toNat == 8 then ['\\', 'b']
  else if c.toNat == 12 then ['\\', 'f']
  else if 32 ≤ c.toNat && c.toNat < 127 then [c]
  else if c.toNat < 0x10000 then escapeUnit c.toNat
  else
    let offset := c.toNat - 0x10000
    escapeUnit (0xd800 + offset / 1024) ++ escapeUnit (0xdc00 + offset % 1024)

def quoted (text : String) : String :=
  String.ofList ('"' :: text.toList.flatMap escapeChar ++ ['"'])

def escapePoint (point : Nat) : List Char :=
  if point.isValidChar then escapeChar (Char.ofNat point) else escapeUnit point

def quotedPoints (points : List Nat) : String :=
  String.ofList ('"' :: points.flatMap escapePoint ++ ['"'])

def dropZeros : Nat → Nat → Int → Nat × Int
  | 0, mantissa, exponent => (mantissa, exponent)
  | limit + 1, mantissa, exponent =>
    if mantissa ≠ 0 && mantissa % 10 = 0 then dropZeros limit (mantissa / 10) (exponent + 1)
    else (mantissa, exponent)

/-- A decimal number: positional from a ten-thousandth to below ten to the sixteenth, else with an exponent of
at least two digits. -/
def decimalText (mantissa exponent : Int) : String :=
  let sign := if mantissa < 0 then "-" else ""
  let (digitsValue, power) := dropZeros (toString mantissa.natAbs).length mantissa.natAbs exponent
  let digits := (toString digitsValue).toList
  let point : Int := digits.length + power
  if digitsValue = 0 then sign ++ "0.0"
  else if -4 < point && point ≤ 16 then
    if point ≤ 0 then sign ++ "0." ++ String.ofList (List.replicate (-point).toNat '0' ++ digits)
    else
      let padded := digits ++ List.replicate (point.toNat - digits.length) '0'
      let fraction := padded.drop point.toNat
      sign ++ String.ofList (padded.take point.toNat) ++ "."
        ++ (if fraction.isEmpty then "0" else String.ofList fraction)
  else
    let shown := (point - 1).natAbs
    sign ++ String.ofList (digits.take 1) ++ (if digits.length = 1 then "" else "." ++ String.ofList (digits.drop 1))
      ++ (if point - 1 < 0 then "e-" else "e+") ++ (if shown < 10 then "0" else "") ++ toString shown

def newLine (level : Nat) : String :=
  String.ofList ('\n' :: List.replicate (2 * level) ' ')

mutual

def renderAt (level : Nat) : JsonValue → String
  | null => "null"
  | bool value => if value then "true" else "false"
  | int value => toString value
  | decimal mantissa exponent => decimalText mantissa exponent
  | special name => name
  | string value => quoted value
  | wide points => quotedPoints points
  | array items =>
    match items with
    | [] => "[]"
    | first :: rest =>
      "[" ++ newLine (level + 1) ++ renderAt (level + 1) first ++ renderItems (level + 1) rest
        ++ newLine level ++ "]"
  | object entries =>
    match entries with
    | [] => "\x7b\x7d"
    | (key, value) :: rest =>
      "\x7b" ++ newLine (level + 1) ++ quoted key ++ ": " ++ renderAt (level + 1) value
        ++ renderEntries (level + 1) rest ++ newLine level ++ "\x7d"
  | wideObject entries =>
    match entries with
    | [] => "\x7b\x7d"
    | (key, value) :: rest =>
      "\x7b" ++ newLine (level + 1) ++ quotedPoints key ++ ": " ++ renderAt (level + 1) value
        ++ renderWideEntries (level + 1) rest ++ newLine level ++ "\x7d"

def renderItems (level : Nat) : List JsonValue → String
  | [] => ""
  | item :: rest => "," ++ newLine level ++ renderAt level item ++ renderItems level rest

def renderEntries (level : Nat) : List (String × JsonValue) → String
  | [] => ""
  | (key, value) :: rest =>
    "," ++ newLine level ++ quoted key ++ ": " ++ renderAt level value ++ renderEntries level rest

def renderWideEntries (level : Nat) : List (List Nat × JsonValue) → String
  | [] => ""
  | (key, value) :: rest =>
    "," ++ newLine level ++ quotedPoints key ++ ": " ++ renderAt level value ++ renderWideEntries level rest

end

def render (value : JsonValue) : String :=
  renderAt 0 value

mutual

def renderLine : JsonValue → String
  | null => "null"
  | bool value => if value then "true" else "false"
  | int value => toString value
  | decimal mantissa exponent => decimalText mantissa exponent
  | special name => name
  | string value => quoted value
  | wide points => quotedPoints points
  | array items => "[" ++ ", ".intercalate (renderLines items) ++ "]"
  | object entries => "\x7b" ++ ", ".intercalate (renderEntryLines entries) ++ "\x7d"
  | wideObject entries => "\x7b" ++ ", ".intercalate (renderWideEntryLines entries) ++ "\x7d"

def renderLines : List JsonValue → List String
  | [] => []
  | item :: rest => renderLine item :: renderLines rest

def renderEntryLines : List (String × JsonValue) → List String
  | [] => []
  | (key, value) :: rest => (quoted key ++ ": " ++ renderLine value) :: renderEntryLines rest

def renderWideEntryLines : List (List Nat × JsonValue) → List String
  | [] => []
  | (key, value) :: rest => (quotedPoints key ++ ": " ++ renderLine value) :: renderWideEntryLines rest

end

end JsonValue
end Deadwood
