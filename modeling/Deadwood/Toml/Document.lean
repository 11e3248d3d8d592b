import Deadwood.Text.Lines
import Deadwood.Toml.LogicalLines
import Deadwood.Toml.Reading

/-!
# Configuration documents

The second pass over a configuration file: headers say into which table the entries after them go. A document
keeps that table as the steps that lead to it.
-/

set_option autoImplicit false
namespace Deadwood.Toml

open Text TomlValue

/-- A document that is being read: its values, the steps to the table that entries go into, the tables that
longer headers have made, and a value that goes on in the next line. -/
structure Document where
  values : TomlValue := .table []
  current : List Step := []
  implied : List String := []
  openValue : Option OpenValue := none
  deriving Repr

/-! ## Headers -/

def isBareNameChar (c : Char) : Bool :=
  c.isAlphanum || c == '_' || c == '-'

/-- The names of a header from its parts between dots; `before` holds the parts so far of a name in quotes. -/
def headerNames (before : Option (List Char)) : List (List Char) → Except TomlError (List String)
  | [] => if before.isSome then .error .malformed else .ok []
  | part :: rest =>
    let joined := match before with
      | some earlier => earlier ++ '.' :: part
      | none => trim part
    let group := trim joined
    match group with
    | [] => .error .malformed
    | first :: _ =>
      if isQuote first then
        if group.getLast? == some first && group.length ≠ 1 then
          (String.ofList (inside group) :: ·) <$> headerNames none rest
        else headerNames (some joined) rest
      else if group.all isBareNameChar then (String.ofList group :: ·) <$> headerNames none rest
      else .error .malformed

def readHeader (line : List Char) : Except TomlError (List String × Bool) := do
  let isArray := (line.drop 1).head? == some '['
  if line.length = 1 then throw .malformed
  let closing := if isArray then "]]".toList else "]".toList
  let rest := line.drop closing.length
  let cuts := 1 + separatorsBefore closing false (quoteParts rest)
  let parts := splitOnTextAtMost closing cuts rest
  if parts.length < cuts + 1 || !isAllSpace (parts.getLastD []) then throw .malformed
  return (← headerNames none (splitOn '.' (closing.intercalate parts.dropLast)), isArray)

/-- Follows one name of a header from a level. The last name must be new unless a longer header has made its
table or it adds to an array of tables. -/
def stepInto (isArray isLast : Bool) (name : String) (document : Document) (level : List Step) :
    Except TomlError (Document × List Step) := do
  if name.isEmpty then throw .malformed
  let fresh : TomlValue := if isLast && isArray then .array [.table []] else .table []
  match document.values.at? level with
  | some (.array items) =>
    match items.getLast? with
    | none => throw .missingPart
    | some last =>
      let level := level ++ [.last]
      match last.entries? with
      | none => throw .wrongType
      | some entries =>
        let values :=
          if (entries.lookup name).isSome then document.values
          else document.values.change (insert name fresh) level
        return ({ document with values := values }, level ++ [.key name])
  | some (.string text) => throw (if text.isEmpty then .missingPart else .wrongType)
  | some value =>
    match value.entries? with
    | none => throw .wrongType
    | some entries =>
      let next := level ++ [.key name]
      match entries.lookup name with
      | none =>
        return ({ document with
          values := document.values.change (insert name fresh) level
          implied := if isLast then document.implied else document.implied ++ [name] }, next)
      | some found =>
        if !isLast then return (document, next)
        if document.implied.contains name then
          if isArray then throw .malformed
          return ({ document with implied := document.implied.erase name }, next)
        if !isArray then throw .malformed
        match found with
        | .array items =>
          return ({ document with
            values := document.values.change (insert name (.array (items ++ [.table []]))) level }, next)
        | _ => throw .notAnArray
  | none => throw .wrongType

def lastItem (values : TomlValue) (level : List Step) : Except TomlError (List Step) :=
  match values.at? level with
  | some (.array items) => if items.isEmpty then .error .missingPart else .ok (level ++ [.last])
  | some (.table _) => .ok level
  | some (.inlineTable _) => .ok level
  | some (.string text) => if text.isEmpty then .error .missingPart else .ok level
  | _ => .error .wrongType

def followHeader (isArray : Bool) (document : Document) (level : List Step) :
    List String → Except TomlError Document
  | [] => .ok { document with current := level }
  | name :: rest => do
    let (document, level) ← stepInto isArray rest.isEmpty name document level
    let level ← if isArray then lastItem document.values level else pure level
    followHeader isArray document level rest

/-! ## Lines -/

def continueValue (document : Document) (pending : OpenValue) (line : List Char) : Except TomlError Document := do
  let written := pending.written ++ line
  let last := line.reverse
  let quote := written.head?
  if quote == some '[' && line.isEmpty then throw .missingPart
  let closed :=
    if quote == some '[' then last.head? == some ']'
    else 2 < line.length && (last.take 3).all fun c => some c == quote
  if closed then
    let value ← readValue true written
    match document.values.at? document.current with
    | some (.table _) | some (.inlineTable _) =>
      return { document with
        values := document.values.change (insert pending.key value) document.current
        openValue := none }
    | _ => throw .wrongType
  else
    let joined := endsInOddBackslashes written
    return { document with
      openValue := some
        { pending with written := if joined then written.dropLast else written ++ ['\n'], joined := joined } }

def readLine (document : Document) (line : List Char) : Except TomlError Document := do
  match line with
  | '[' :: _ =>
    let (names, isArray) ← readHeader line
    followHeader isArray document [] names
  | '\x7b' :: _ =>
    if line.getLast? != some '\x7d' then throw .malformed
    match document.values.at? document.current with
    | some target =>
      let filled ← enterInline readValue line target
      return { document with values := document.values.change (fun _ => filled) document.current }
    | none => throw .wrongType
  | _ =>
    if !line.contains '=' then return document
    match document.values.at? document.current with
    | some target =>
      let (filled, openValue) ← enter readValue line target
      return { document with
        values := document.values.change (fun _ => filled) document.current
        openValue := openValue }
    | none => throw .wrongType

/-- Takes up a line. White space at its ends is dropped unless it is inside of a string of several lines. -/
def takeLine (document : Document) (line : List Char) : Except TomlError Document :=
  match document.openValue with
  | none => if isAllSpace line then .ok document else readLine document (trim line)
  | some pending =>
    let line := if pending.joined || !pending.written.contains '\n' then trim line else line
    if line.isEmpty && pending.joined then .ok document else continueValue document pending line

def readDocument (text : List Char) : Except TomlError (List (String × TomlValue)) := do
  let document ← (← logicalLines text).foldlM takeLine {}
  return (document.values.entries?).getD []

end Deadwood.Toml
