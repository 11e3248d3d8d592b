import Deadwood.Text.Split
import Deadwood.Toml.Value

/-!
# Logical lines

The first pass over a configuration file: comments are blanked, the lines of an array over several lines are
joined, and a line end right after opening triple quotes is dropped. Names of keys and the closing of
strings are checked on the way.
-/

set_option autoImplicit false
namespace Deadwood.Toml

open Text

/-- What comes before the equals sign of an entry. -/
inductive KeyPart where
  | none
  | name
  | afterName
  deriving Repr, DecidableEq

/-- Where the pass stands. `written` is what it has written, the latest character first. -/
structure Pass where
  written : List Char := []
  openArrays : Int := 0
  inString : Bool := false
  quote : Option Char := none
  multiline : Bool := false
  inArrayHeader : Bool := false
  inHeader : Bool := false
  atLineStart : Bool := true
  keyPart : KeyPart := .none
  dotted : Bool := false
  deriving Repr

/-- How many quotes stand just before, at most two. -/
def quotesBefore (quote : Char) (written : List Char) : Nat :=
  ((written.take 2).takeWhile (· == quote)).length

def Pass.singleQuote (pass : Pass) : Pass :=
  let pass :=
    if quotesBefore '\'' pass.written = 2 then
      { pass with multiline := !pass.multiline, inString := !pass.multiline }
    else { pass with inString := !pass.inString }
  { pass with quote := if pass.inString then some '\'' else Option.none }

/-- A double quote opens or closes a string unless it is escaped, the third in a row one over several
lines. -/
def Pass.doubleQuote (pass : Pass) : Pass :=
  let before := quotesBefore '"' pass.written
  let escaped :=
    before ≠ 1 && (((pass.written.drop before).takeWhile (· == '\\')).length % 2 = 1)
  let pass :=
    if escaped then pass
    else if before = 2 then { pass with multiline := !pass.multiline, inString := !pass.multiline }
    else { pass with inString := !pass.inString }
  { pass with quote := if pass.inString then some '"' else Option.none }

def Pass.bracket (pass : Pass) (c : Char) (next : Option Char) : Pass :=
  if c == '[' && !pass.inString && !pass.inHeader && !pass.inArrayHeader then
    if pass.atLineStart then
      if next == some '[' then { pass with inArrayHeader := true } else { pass with inHeader := true }
    else { pass with openArrays := pass.openArrays + 1 }
  else if c == ']' && !pass.inString then
    if pass.inHeader then { pass with inHeader := false }
    else if pass.inArrayHeader then
      if pass.written.head? == some ']' then { pass with inArrayHeader := false } else pass
    else { pass with openArrays := pass.openArrays - 1 }
  else pass

/-- A line end: inside a string over several lines it stays, except right after the opening quotes; inside an
array it becomes a space; else a new line begins. -/
def Pass.lineEnd (pass : Pass) : Except TomlError Pass :=
  if pass.inString || pass.multiline then
    if !pass.multiline then .error .malformed
    else
      match pass.written with
      | a :: b :: rest =>
        if (a == '\'' || a == '"') && a == b then
          let rest := match rest with
            | c :: earlier => if c == a then ' ' :: earlier else rest
            | [] => []
          .ok { pass with written := a :: a :: b :: rest }
        else .ok { pass with written := '\n' :: pass.written }
      | _ => .ok { pass with written := '\n' :: pass.written }
  else if pass.openArrays ≠ 0 then .ok { pass with written := ' ' :: pass.written }
  else .ok { pass with written := '\n' :: pass.written, atLineStart := true }

/-- What a character means to the name of a key. The flag says that it means nothing else. -/
def Pass.inKey (pass : Pass) (c : Char) (next : Option Char) : Except TomlError (Pass × Bool) := do
  if c == '\n' then throw .malformed
  let nextBeginsName := next.all fun n => !isSpace n && n != '.'
  if pass.inString then
    if pass.quote == some c && (pass.written.takeWhile (· == '\\')).length % 2 = 0 then
      return ({ pass with keyPart := .afterName, inString := false, quote := Option.none }, true)
    return (pass, true)
  match pass.keyPart with
  | .name =>
    if isSpace c then return ({ pass with keyPart := .afterName }, true)
    if c == '.' then return ({ pass with dotted := true }, true)
    if isAlphanumeric c || c == '_' || c == '-' then return (pass, true)
    if pass.dotted && pass.written.head? == some '.' && (c == '"' || c == '\'') then
      return ({ pass with inString := true, quote := some c }, true)
  | .afterName =>
    if isSpace c then
      if pass.dotted then
        if next.isNone then throw .missingPart
        if nextBeginsName then return ({ pass with keyPart := .name }, true)
      return (pass, true)
    if c == '.' then
      if next.isNone then throw .missingPart
      return ({ pass with dotted := true, keyPart := if nextBeginsName then .name else .afterName }, true)
  | .none => pure ()
  if c == '=' then return ({ pass with keyPart := .none, dotted := false }, false)
  throw .malformed

def Pass.step (pass : Pass) (c : Char) (next : Option Char) : Except TomlError Pass := do
  let (pass, done) ← if pass.keyPart = .none then pure (pass, false) else pass.inKey c next
  if done then return { pass with written := c :: pass.written }
  let pass := if c == '\'' && pass.quote != some '"' then pass.singleQuote else pass
  let pass := if c == '"' && pass.quote != some '\'' then pass.doubleQuote else pass
  let pass := pass.bracket c next
  if c == '\n' then pass.lineEnd
  else
    let written := { pass with written := c :: pass.written }
    if pass.atLineStart && c != ' ' && c != '\t' then
      if pass.inHeader || pass.inArrayHeader then return { written with atLineStart := false }
      if c == '=' then throw .malformed
      return { written with atLineStart := false, keyPart := .name }
    return written

def Pass.beginsComment (pass : Pass) (c : Char) : Bool :=
  c == '#' && pass.keyPart = .none && !pass.inString && !pass.inHeader && !pass.inArrayHeader

/-- Passes a text; inside a comment every character but the line end is blanked. -/
def passText (inComment : Bool) (pass : Pass) : List Char → Except TomlError Pass
  | [] => .ok pass
  | c :: rest => do
    if inComment && c != '\n' then
      passText true { pass with written := ' ' :: pass.written } rest
    else if pass.beginsComment c then
      passText true { pass with written := ' ' :: pass.written } rest
    else passText false (← pass.step c rest.head?) rest

def logicalLines (text : List Char) : Except TomlError (List (List Char)) := do
  let pass ← passText false {} text
  if pass.keyPart ≠ .none || pass.inString then throw .malformed
  return splitOn '\n' pass.written.reverse

end Deadwood.Toml
