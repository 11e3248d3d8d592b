import Deadwood.Toml.Scalar

/-!
# Values and entries

How arrays, inline tables and entries are taken apart. A value is read by `readValue`, which lends itself to
the readers of arrays, inline tables and entries for the values inside; what it reads inside is always
shorter than the whole.
-/

set_option autoImplicit false
namespace Deadwood.Toml

open Text

abbrev ValueReader := Bool → List Char → Except TomlError TomlValue

def isQuote (c : Char) : Bool :=
  c == '"' || c == '\''

def beginsWithQuote (text : List Char) : Bool :=
  text.head?.any isQuote

/-! ## Stretches outside and inside of quotes -/

/-- Cuts at single quotes while the number of parts is even, taking up what a double quote had cut off. -/
def singleQuoteParts (parts : List (List Char)) : List (List Char) → List (List Char) × List (List Char)
  | [] => (parts, [])
  | next :: rest =>
    if parts.length % 2 = 0 then
      let last := parts.getLastD [] ++ '"' :: next
      singleQuoteParts (parts.dropLast ++ splitOn '\'' last) rest
    else (parts, next :: rest)

def quoteParts (line : List Char) : List (List Char) :=
  let rejoin (parts : List (List Char)) : List (List Char) :=
    match parts with
    | [] => []
    | first :: rest => splitOn '\'' first ++ rest
  match splitOn '"' line with
  | first :: second :: rest =>
    if first.contains '\'' then
      let (parts, others) := singleQuoteParts (splitOn '\'' first) (second :: rest)
      parts ++ rejoin others
    else rejoin (first :: second :: rest)
  | parts => rejoin parts

/-- How often a separator stands in the parts inside of quotes, up to the first part outside that holds it. -/
def separatorsBefore (separator : List Char) (quoted : Bool) : List (List Char) → Nat
  | [] => 0
  | part :: rest =>
    let count := (splitOnText separator part).length - 1
    if !quoted && 0 < count then 0 else count + separatorsBefore separator (!quoted) rest

/-! ## Arrays -/

def inside (text : List Char) : List Char :=
  text.tail.dropLast

def beginsWithString (array : List Char) : Bool :=
  beginsWithQuote (trim (inside array))

def isBounded : List Char → Bool
  | [] => true
  | first :: rest =>
    match rest.reverse with
    | [] => true
    | last :: before => last == first && (before.takeWhile (· == '\\')).length % 2 = 0

/-- A whole string: bounded by its quotes, three at each end if it begins with three. -/
def isWholeString (text : List Char) : Bool :=
  isBounded text &&
    match text, text.reverse with
    | a :: b :: c :: _, _ :: y :: z :: _ => !(a == b && b == c && y != a && z != a)
    | _, _ => true

/-- Puts strings that hold commas together again; the last part is not looked at unless it was `forced` upon
the part. -/
def mergeStrings (forced : Bool) (part : List Char) : List (List Char) → Except TomlError (List (List Char))
  | [] => if forced && !isWholeString (trim part) then .error .missingPart else .ok [part]
  | next :: rest =>
    if isWholeString (trim part) then (part :: ·) <$> mergeStrings false next rest
    else mergeStrings true (part ++ ',' :: next) rest

/-- The items of an array of arrays: cut at commas outside of brackets; `item` is the reversed current item. -/
def nestedItems (depth : Int) (item : List Char) : List Char → List (List Char)
  | [] => [item.reverse]
  | c :: rest =>
    if c == ',' && depth = 0 then item.reverse :: nestedItems 0 [] rest
    else nestedItems (if c == '[' then depth + 1 else if c == ']' then depth - 1 else depth) (c :: item) rest

/-- The items of an array of inline tables: each goes up to the brace that closes it, what follows up to the
next opening brace is passed over. `item` is the reversed current item, empty between items. -/
def tableItems (justClosed : Bool) (item : List Char) (depth : Nat) (inString : Bool) :
    List Char → List (List Char)
  | [] => []
  | c :: rest =>
    if justClosed then tableItems false [] depth false rest
    else if item.isEmpty then tableItems false (if c == '\x7b' then [c] else []) depth false rest
    else
      let escaped := (item.takeWhile (· == '\\')).length % 2 = 1
      let inString := if isQuote c then !inString || escaped else inString
      let depth := if !inString && c == '\x7b' then depth + 1 else depth
      if inString || c != '\x7d' then tableItems false (c :: item) depth inString rest
      else if 1 < depth then tableItems false (c :: item) (depth - 1) false rest
      else (c :: item).reverse :: tableItems true [] depth false rest

def arrayItems (array : List Char) : Except TomlError (List (List Char)) :=
  let inner := inside array
  if (trimLeft inner).head? == some '[' then .ok (nestedItems 0 [] inner)
  else if (trimLeft inner).head? == some '\x7b' then
    .ok (tableItems false (inner.take 1) (if inner.head? == some '\x7b' then 1 else 0) false inner.tail)
  else
    match splitOn ',' inner with
    | first :: rest => if beginsWithString array then mergeStrings false first rest else .ok (first :: rest)
    | [] => .ok []

def readItems (read : ValueReader) : Option Nat → List (List Char) → Except TomlError (List TomlValue)
  | _, [] => .ok []
  | sort, text :: rest =>
    if isAllSpace text then readItems read sort rest
    else do
      let value ← read true (trim text)
      if sort.any (· ≠ value.sort) then throw .malformed
      return value :: (← readItems read (some value.sort) rest)

def readArray (read : ValueReader) (text : List Char) : Except TomlError TomlValue := do
  return .array (← readItems read none (← arrayItems text))

/-! ## Entries -/

/-- A string or an array of strings that goes on in the next line, with the key that it belongs to and what
has been read; `joined` says that the last line end is left out. -/
structure OpenValue where
  key : String
  written : List Char
  joined : Bool
  deriving Repr

/-- The value can stand for itself: it is a string, `true`, `false`, an array or an inline table, or begins
with white space. -/
def standsAlone (value : List Char) : Bool :=
  match value with
  | [] => true
  | c :: _ =>
    c == ' ' || c == '\t' || isQuote c || c == '[' || c == '\x7b'
      || trim value == "true".toList || trim value == "false".toList

def isMeasure (value : List Char) : Bool :=
  isFraction value || isDate value || (clockTime? value).isSome

/-- Finds the equals sign after which the value of an entry begins, cutting at later ones while the value is
none; the flag says that the first cut was the right one. -/
def findValue (line : List Char) (plain : Bool) (cuts : Nat) (parts : List (List Char)) :
    Nat → Except TomlError (List Char × List Char × Bool)
  | 0 => .error .malformed
  | limit + 1 =>
    let value := parts.getLastD []
    if standsAlone value || isMeasure value then .ok (joinWith '=' parts.dropLast, value, plain)
    else
      let next := splitAtMost '=' (cuts + 1) line
      if next.getLastD [] == value then .error .malformed
      else findValue line false (cuts + 1) next limit

/-- The key and the value of an entry, and whether the value is plain. Underscores are taken out of a value that
begins with a digit. -/
def splitEntry (line : List Char) : Except TomlError (List Char × List Char × Bool) :=
  let cuts := 1 + separatorsBefore ['='] false (quoteParts line)
  let parts := splitAtMost '=' cuts line
  let value := parts.getLastD []
  let parts :=
    if value.head?.any Char.isDigit then parts.dropLast ++ [value.filter (· != '_')] else parts
  findValue line true cuts parts (line.length + 1)

def dottedNames (quoted : Bool) : List (List Char) → List (List Char)
  | [] => []
  | part :: rest =>
    (if quoted then [part] else (splitOn '.' part).map trim) ++ dottedNames (!quoted) rest

def keyNames (key : List Char) : Except TomlError (List String × String) :=
  if key.contains '.' then
    match (dottedNames false (quoteParts key)).reverse.dropWhile List.isEmpty with
    | [] => .error .missingPart
    | last :: before =>
      .ok ((before.reverse.filter (!·.isEmpty)).map String.ofList, String.ofList (trim last))
  else
    match key with
    | [] => .error .missingPart
    | first :: _ =>
      if isQuote first && key.getLast? == some first then do
        return ([], String.ofList (← unescape (inside key)))
      else .ok ([], String.ofList key)

def lastString : List (List Char) → Except TomlError (List Char)
  | [] => .ok []
  | [first] => .ok first
  | last :: before :: rest =>
    match last with
    | [] => .error .missingPart
    | c :: _ => if isQuote c then .ok last else lastString ((before ++ ',' :: last) :: rest)
termination_by parts => parts.length

def goesOn (value : List Char) : Except TomlError Bool := do
  if value.length < 3 then return false
  let last ←
    if value.head? == some '[' && value.getLast? != some ']' && beginsWithString value then
      lastString (splitOn ',' (trim value.tail)).reverse
    else pure value
  match last with
  | a :: b :: c :: _ =>
    let closed := 5 < last.length && (last.reverse.take 3).all (· == a)
    return isQuote a && a == b && a == c && !closed
  | [a, b] => if isQuote a && a == b then throw .missingPart else return false
  | _ => if last.all isQuote then throw .missingPart else return false

/-- Enters a line `key = value` into a table. Dotted keys lead through tables, which are made where they are
missing. A value that goes on in the next line is not entered but given back. -/
def enter (read : ValueReader) (line : List Char) (target : TomlValue) :
    Except TomlError (TomlValue × Option OpenValue) := do
  let (key, value, plain) ← splitEntry line
  let (through, name) ← keyNames (trim key)
  let value := trim value
  let opened ← target.descend through
  let entries? := (opened.at? (through.map .key)).bind TomlValue.entries?
  if ← goesOn value then
    if entries?.all fun entries => (entries.lookup name).isSome then throw .malformed
    let joined := endsInOddBackslashes value
    return (opened, some ⟨name, if joined then value.dropLast else value ++ ['\n'], joined⟩)
  let entered ← read plain value
  if entries?.all fun entries => (entries.lookup name).isSome then throw .malformed
  return (opened.change (TomlValue.insert name entered) (through.map .key), none)

/-! ## Inline tables -/

def isComplete (value : List Char) : Bool :=
  match value with
  | [] => false
  | first :: _ =>
    let last := value.getLastD first
    (first == last && isQuote first) || first == '-' || first.isDigit || value == "true".toList
      || value == "false".toList || (first == '[' && last == ']') || (first == '\x7b' && last == '\x7d')

def mergeEntries (before : Option (List Char)) : List (List Char) → Except TomlError (List (List Char))
  | [] => .ok []
  | part :: rest => do
    let line := (before.map (· ++ ',' :: part)).getD part
    match splitAtMost '=' 1 line with
    | [_, value] =>
      let value := trim value
      if value.isEmpty then throw .missingPart
      if isComplete value then return line :: (← mergeEntries none rest)
      if rest.isEmpty then throw .malformed
      mergeEntries (some line) rest
    | _ => throw .malformed

def enterAll (read : ValueReader) (target : TomlValue) : List (List Char) → Except TomlError TomlValue
  | [] => .ok target
  | line :: rest => do
    match ← enter read line target with
    | (entered, none) => enterAll read entered rest
    | (entered, some _) => return entered

def enterInline (read : ValueReader) (text : List Char) (target : TomlValue) : Except TomlError TomlValue := do
  let parts := splitOn ',' (inside text)
  if parts.length ≤ 1 && parts.all isAllSpace then return target
  enterAll read target (← mergeEntries none parts)

/-! ## Values -/

def readWithin : Nat → ValueReader
  | 0, _, _ => .error .malformed
  | limit + 1, plain, text =>
    match text with
    | [] => .error .malformed
    | first :: _ =>
      if text == "true".toList then .ok (.boolean true)
      else if text == "false".toList then .ok (.boolean false)
      else if isQuote first then readString first text
      else if first == '[' then readArray (readWithin limit) text
      else if first == '\x7b' then enterInline (readWithin limit) text (.inlineTable [])
      else readScalar plain text

def readValue : ValueReader := fun plain text =>
  readWithin (text.length + 1) plain text

end Deadwood.Toml
