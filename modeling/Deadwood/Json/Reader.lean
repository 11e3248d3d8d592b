import Deadwood.Json.Double
import Deadwood.Json.Value

/-!
# Reading structured values

A text is read as one value with nothing but white space around it. Each reader gives what it has read and the
rest of the text. Later entries of an object replace earlier ones of the same key. The reader gives up where arrays and objects are
nested too deep.
-/

set_option autoImplicit false
namespace Deadwood

/-- Why a text is read as no value: it is none, or it is nested too deep. -/
inductive JsonFault where
  | malformed
  | tooDeep
  deriving Repr, DecidableEq

namespace JsonValue

def isGap (c : Char) : Bool :=
  c == ' ' || c == '\t' || c == '\n' || c == '\r'

def skipGap (text : List Char) : List Char :=
  text.dropWhile isGap

/-! ## Texts -/

def hexValue? (c : Char) : Option Nat :=
  if c.isDigit then some (c.toNat - 48)
  else if 'a' ≤ c && c ≤ 'f' then some (c.toNat - 87)
  else if 'A' ≤ c && c ≤ 'F' then some (c.toNat - 55)
  else none

def unit? : List Char → Option Nat
  | a :: b :: c :: d :: _ => do
    return (((← hexValue? a) * 16 + (← hexValue? b)) * 16 + (← hexValue? c)) * 16 + (← hexValue? d)
  | _ => none

def lowUnit? : List Char → Option Nat
  | '\\' :: 'u' :: rest => (unit? rest).filter fun unit => 0xdc00 ≤ unit && unit < 0xe000
  | _ => none

def escape? : Char → Option Char
  | '"' => some '"'
  | '\\' => some '\\'
  | '/' => some '/'
  | 'b' => some (Char.ofNat 8)
  | 'f' => some (Char.ofNat 12)
  | 'n' => some '\n'
  | 'r' => some '\r'
  | 't' => some '\t'
  | _ => none

/-- Reads a text after its opening quote; `pending` counts the characters of an escape that are passed over, and
`read` are the code points so far, reversed. -/
def readText (read : List Nat) (pending : Nat) : List Char → Option (List Nat × List Char)
  | [] => none
  | c :: rest =>
    match pending with
    | pending + 1 => readText read pending rest
    | 0 =>
      if c == '"' then some (read.reverse, rest)
      else if c.toNat < 32 then none
      else if c == '\\' then
        match rest with
        | 'u' :: digits =>
          match unit? digits with
          | none => none
          | some unit =>
            match (if 0xd800 ≤ unit && unit < 0xdc00 then lowUnit? (digits.drop 4) else none) with
            | some low => readText ((0x10000 + (unit - 0xd800) * 1024 + (low - 0xdc00)) :: read) 11 rest
            | none => readText (unit :: read) 5 rest
        | letter :: _ =>
          match escape? letter with
          | some replaced => readText (replaced.toNat :: read) 1 rest
          | none => none
        | [] => none
      else readText (c.toNat :: read) 0 rest

/-! ## Numbers -/

def leadingDigits (text : List Char) : List Char :=
  text.takeWhile Char.isDigit

def digitsValue (digits : List Char) : Nat :=
  digits.foldl (fun value digit => value * 10 + (digit.toNat - 48)) 0

def fraction (text : List Char) : List Char × List Char :=
  match text with
  | '.' :: rest =>
    let digits := leadingDigits rest
    if digits.isEmpty then ([], text) else (digits, rest.drop digits.length)
  | _ => ([], text)

def exponent (text : List Char) : Option Int × List Char :=
  match text with
  | c :: rest =>
    let (sign, digitsOn) : Int × List Char := match rest with
      | '-' :: more => (-1, more)
      | '+' :: more => (1, more)
      | _ => (1, rest)
    let digits := leadingDigits digitsOn
    if (c == 'e' || c == 'E') && !digits.isEmpty then
      (some (sign * digitsValue digits), digitsOn.drop digits.length)
    else (none, text)
  | [] => (none, [])

def ofDecimal (negative : Bool) (mantissa : Nat) (exponent : Int) : JsonValue :=
  match Double.nearest? mantissa exponent with
  | none => special (if negative then "-Infinity" else "Infinity")
  | some binary =>
    if binary.significand = 0 then if negative then special "-0.0" else decimal 0 0
    else
      let (digits, power) := binary.shortest
      decimal (if negative then -digits else digits) power

def readNumber (text : List Char) : Option (JsonValue × List Char) :=
  let (negative, unsigned) : Bool × List Char := match text with
    | '-' :: rest => (true, rest)
    | _ => (false, text)
  let run := leadingDigits unsigned
  let whole := if run.head? == some '0' then run.take 1 else run
  if whole.isEmpty then none
  else
    let (places, afterPlaces) := fraction (unsigned.drop whole.length)
    let (power, rest) := exponent afterPlaces
    if places.isEmpty && power.isNone then
      if digitLimit < whole.length then none
      else some (int (if negative then -digitsValue whole else digitsValue whole), rest)
    else some (ofDecimal negative (digitsValue (whole ++ places)) (power.getD 0 - places.length), rest)

/-! ## Values -/

def words : List (String × JsonValue) :=
  [("null", null), ("true", bool true), ("false", bool false), ("NaN", special "NaN"),
   ("Infinity", special "Infinity"), ("-Infinity", special "-Infinity")]

def readPlain (text : List Char) : Option (JsonValue × List Char) :=
  match words.find? fun (word, _) => word.toList.isPrefixOf text with
  | some (word, value) => some (value, text.drop word.length)
  | none => readNumber text

mutual

/-- Reads a value; `limit` bounds the steps, and `nesting` how deep arrays and objects may yet be nested. -/
def readValue : Nat → Nat → List Char → Except JsonFault (JsonValue × List Char)
  | 0, _, _ => .error .malformed
  | limit + 1, nesting, text =>
    match text with
    | '"' :: rest =>
      match readText [] 0 rest with
      | some (read, rest) => .ok (ofPoints read, rest)
      | none => .error .malformed
    | '[' :: rest =>
      match nesting with
      | 0 => .error .tooDeep
      | nesting + 1 =>
        match skipGap rest with
        | ']' :: rest => .ok (array [], rest)
        | rest => readItems limit nesting [] rest
    | '\x7b' :: rest =>
      match nesting with
      | 0 => .error .tooDeep
      | nesting + 1 =>
        match skipGap rest with
        | '\x7d' :: rest => .ok (object [], rest)
        | rest => readEntries limit nesting [] rest
    | _ =>
      match readPlain text with
      | some found => .ok found
      | none => .error .malformed

/-- Reads items up to the end of an array; `items` are those before, the latest first. -/
def readItems : Nat → Nat → List JsonValue → List Char → Except JsonFault (JsonValue × List Char)
  | 0, _, _, _ => .error .malformed
  | limit + 1, nesting, items, text => do
    let (item, rest) ← readValue limit nesting text
    match skipGap rest with
    | ',' :: rest => readItems limit nesting (item :: items) (skipGap rest)
    | ']' :: rest => .ok (array (item :: items).reverse, rest)
    | _ => .error .malformed

def readEntries : Nat → Nat → List (List Nat × JsonValue) → List Char → Except JsonFault (JsonValue × List Char)
  | 0, _, _, _ => .error .malformed
  | limit + 1, nesting, entries, text =>
    match text with
    | '"' :: rest =>
      match readText [] 0 rest with
      | none => .error .malformed
      | some (key, rest) =>
        match skipGap rest with
        | ':' :: rest => do
          let (value, rest) ← readValue limit nesting (skipGap rest)
          let entries := putEntry key value entries
          match skipGap rest with
          | ',' :: rest => readEntries limit nesting entries (skipGap rest)
          | '\x7d' :: rest => .ok (ofEntries entries, rest)
          | _ => .error .malformed
        | _ => .error .malformed
    | _ => .error .malformed

end

/-- How deep arrays and objects may be nested: this is what is left of the depth of calls when metadata and logs are read. -/
def nestingLimit : Nat := 970

def ofText (text : List Char) (nesting : Nat := nestingLimit) : Except JsonFault JsonValue :=
  match readValue (2 * text.length + 2) nesting (skipGap text) with
  | .ok (value, rest) => if (skipGap rest).isEmpty then .ok value else .error .malformed
  | .error fault => .error fault

end JsonValue
end Deadwood
