import Deadwood.Source.Bracket
import Deadwood.Source.Markup
import Deadwood.Text.Lines

/-!
# Definitions

Four spellings define a name: `function name(`, a binding of a function or arrow to `name`, a property
`name:` holding one, and a method `name(...) {`. All are looked for in the masked view. The position of the
name identifies a definition; where two spellings claim one position the first in the order above wins.
-/

set_option autoImplicit false
namespace Deadwood.Source

open Deadwood.Text

inductive DefinitionKind where
  | function
  | boundCallable
  | method
  deriving Repr, DecidableEq, Inhabited

def DefinitionKind.label : DefinitionKind → String
  | function => "function"
  | boundCallable => "bound-callable"
  | method => "method"

def isIdentifierStart (c : Char) : Bool :=
  c.isAlpha || c == '_' || c == '$'

def isIdentifierPart (c : Char) : Bool :=
  isWordChar c || c == '$'

def identifier : Scan Unit := do
  let _ ← Scan.one isIdentifierStart
  Scan.many isIdentifierPart

def isIdentifierText (text : List Char) : Bool :=
  let body := match text.reverse with
    | '\n' :: rest => rest.reverse
    | _ => text
  match body with
  | [] => false
  | c :: rest => isIdentifierStart c && rest.all isIdentifierPart

def reservedWords : List String :=
  ["break", "case", "catch", "class", "const", "continue", "debugger", "default", "delete", "do", "else",
   "export", "extends", "finally", "for", "function", "if", "import", "in", "instanceof", "let", "new",
   "return", "super", "switch", "this", "throw", "try", "typeof", "var", "void", "while", "with", "yield",
   "await", "async", "static", "get", "set", "of", "true", "false", "null", "undefined", "arguments"]

def builtinNames : List String :=
  ["console", "parseInt", "parseFloat", "isNaN", "isFinite", "eval", "encodeURIComponent",
   "decodeURIComponent", "encodeURI", "decodeURI", "setTimeout", "setInterval", "clearTimeout",
   "clearInterval", "Object", "Array", "String", "Number", "Boolean", "Symbol", "Date", "Math", "JSON",
   "Promise", "RegExp", "Error", "TypeError", "RangeError", "Map", "Set", "WeakMap", "WeakSet", "Function",
   "Reflect", "Proxy", "require", "alert", "confirm", "prompt", "fetch", "document", "window", "location",
   "navigator", "localStorage", "sessionStorage", "getElementById", "querySelector", "querySelectorAll",
   "addEventListener", "removeEventListener", "createElement", "SpreadsheetApp", "DriveApp", "UrlFetchApp",
   "PropertiesService", "CacheService", "HtmlService", "ScriptApp", "Session", "Utilities", "Logger",
   "LockService", "MailApp", "GmailApp", "ContentService", "FormApp", "DocumentApp", "CalendarApp"]

/-- A name that a project can define: an identifier of two characters or more, neither reserved nor
provided. -/
def isProjectName (provided : List String) (name : String) : Bool :=
  1 < name.length && isIdentifierText name.toList && !reservedWords.contains name && !provided.contains name

/-! ## Introducers -/

def nameStretch (name : Scan Unit) : Scan Stretch := do
  let start ← Scan.here
  name
  let stop ← Scan.here
  pure ⟨start, stop⟩

/-- What makes a binding or property callable: `function`, or the parameters and arrow of an arrow function,
either possibly after `async`. -/
def callableValue : Scan Unit := do
  Scan.optional do
    Scan.word "async"
    Scan.many isSpace
  Scan.either
    (do
      Scan.word "function"
      Scan.wordEdge)
    (do
      Scan.either
        (do
          Scan.word "("
          Scan.many fun c => c != '(' && c != ')'
          Scan.word ")")
        identifier
      Scan.many isSpace
      Scan.word "=>")

def functionIntroducer (name : Scan Unit) : Scan Stretch := do
  Scan.wordEdge
  Scan.word "function"
  Scan.wordEdge
  Scan.many isSpace
  Scan.optional (Scan.word "*")
  Scan.many isSpace
  let found ← nameStretch name
  Scan.many isSpace
  Scan.word "("
  pure found

/-- `const name = `, `let name = ` or `var name = ` before a callable value. -/
def bindingIntroducer (name : Scan Unit) : Scan Stretch := do
  Scan.wordEdge
  Scan.either (Scan.word "const") (Scan.either (Scan.word "let") (Scan.word "var"))
  Scan.oneOrMore isSpace
  let found ← nameStretch name
  Scan.many isSpace
  Scan.word "="
  Scan.many isSpace
  callableValue
  pure found

/-- `name:` at the beginning of a line, before a callable value. -/
def propertyIntroducer (name : Scan Unit) : Scan Stretch := do
  Scan.lineStart
  Scan.many isInlineBlank
  let found ← nameStretch name
  Scan.many isInlineBlank
  Scan.word ":"
  Scan.many isInlineBlank
  callableValue
  pure found

def modifiersUpTo : Nat → Scan Unit
  | 0 => pure ()
  | limit + 1 => Scan.optional do
    Scan.either (Scan.word "async") (Scan.word "static")
    Scan.oneOrMore isInlineBlank
    modifiersUpTo limit

/-- Any number of the words `async` and `static`: no more can come than there are characters. -/
def modifiers : Scan Unit :=
  fun cursor => modifiersUpTo cursor.after.length cursor

def methodIntroducer (name : Scan Unit) : Scan Stretch := do
  Scan.lineStart
  Scan.many isInlineBlank
  modifiers
  let found ← nameStretch name
  Scan.many isInlineBlank
  Scan.word "("
  Scan.many fun c => c != '(' && c != ')'
  Scan.word ")"
  Scan.many isInlineBlank
  Scan.word "\x7b"
  pure found

def introducers (name : Scan Unit) : List (DefinitionKind × Scan Stretch) :=
  [(.function, functionIntroducer name), (.boundCallable, bindingIntroducer name),
   (.method, propertyIntroducer name), (.method, methodIntroducer name)]

/-! ## Bodies -/

/-- Where a definition's body opens, if it is a block, and where it ends, if it does. -/
structure Body where
  opening : Option Nat
  stop : Option Nat
  deriving Repr, DecidableEq

/-- The end of an expression that begins at `pos` inside `depth` brackets of its own: just after a semicolon,
or before a comma, a line feed or a bracket that closes more than the expression opens. -/
def expressionEnd (depth pos : Nat) : List Char → Nat
  | [] => pos
  | c :: rest =>
    if c == '(' || c == '[' || c == '{' then expressionEnd (depth + 1) (pos + 1) rest
    else if c == ')' || c == ']' || c == '}' then
      match depth with
      | 0 => pos
      | depth + 1 => expressionEnd depth (pos + 1) rest
    else if depth == 0 && c == ';' then pos + 1
    else if depth == 0 && (c == ',' || c == '\n') then pos
    else expressionEnd depth (pos + 1) rest

def arrowBody (pos : Nat) (afterArrow : List Char) : Body :=
  let opening := pos + (afterArrow.takeWhile isBlank).length
  match afterArrow.dropWhile isBlank with
  | '{' :: rest => ⟨some opening, (closeAfter? .curly 1 rest).map (· + (opening + 1))⟩
  | rest => ⟨none, some (expressionEnd 0 opening rest)⟩

/-- The body that comes first from `pos` on, outside of the round and square brackets of which `depth` are
open: a block, an arrow's block or expression, or a semicolon. -/
def bodyFrom (depth : Int) (pos : Nat) : List Char → Body
  | [] => ⟨none, none⟩
  | c :: rest =>
    if c == '(' || c == '[' then bodyFrom (depth + 1) (pos + 1) rest
    else if c == ')' || c == ']' then bodyFrom (depth - 1) (pos + 1) rest
    else if depth == 0 && c == '=' && rest.head? == some '>' then arrowBody (pos + 2) rest.tail
    else if depth == 0 && c == '{' then
      ⟨some pos, (closeAfter? .curly 1 rest).map (· + (pos + 1))⟩
    else if depth == 0 && c == ';' then ⟨none, some (pos + 1)⟩
    else bodyFrom depth (pos + 1) rest

def bodyAfter (masked : List Char) (pos : Nat) : Body :=
  bodyFrom 0 pos (masked.drop pos)

/-! ## The definitions of a text -/

/-- An introducer found in a text: what it defines, where the name begins and where the introducer does. -/
structure Introduction where
  name : String
  kind : DefinitionKind
  position : Nat
  start : Nat
  deriving Repr

/-- Adds an introduction to a list in the order of positions, unless its position is taken. -/
def claim (found : Introduction) : List Introduction → List Introduction
  | [] => [found]
  | earlier :: rest =>
    if found.position < earlier.position then found :: earlier :: rest
    else if found.position = earlier.position then earlier :: rest
    else earlier :: claim found rest

def Stretch.of (stretch : Stretch) (text : List Char) : List Char :=
  (text.take stretch.stop).drop stretch.start

def introductions (masked : List Char) : List Introduction :=
  let found := (introducers identifier).flatMap fun (kind, introducer) =>
    (introducer.hits masked).map fun hit =>
      (⟨String.ofList (hit.value.of masked), kind, hit.value.start, hit.start⟩ : Introduction)
  (found.filter fun introduction => isProjectName [] introduction.name).foldl
    (fun claimed introduction => claim introduction claimed) []

/-- A definition of a name in a file. Lines count from one; `startOffset` is where the introducer begins,
`position` where the name does, and `endOffset` is just after the body. -/
structure Definition where
  path : String
  name : String
  kind : DefinitionKind
  startLine : Nat
  endLine : Nat
  startOffset : Nat
  endOffset : Nat
  position : Nat
  deriving Repr, DecidableEq, Inhabited

def Definition.contains (definition : Definition) (offset : Nat) : Bool :=
  definition.startOffset ≤ offset && offset < definition.endOffset

/-- The definitions of a text with its masked view, in the order of their names' positions. One whose body
does not end goes to the end of the text. -/
def definitionsOf (path : String) (code masked : List Char) : List Definition :=
  (introductions masked).map fun introduction =>
    let nameEnd := introduction.position + introduction.name.length
    let stop := (bodyAfter masked nameEnd).stop.getD masked.length
    { path := path
      name := introduction.name
      kind := introduction.kind
      startLine := lineOf code introduction.position
      endLine := lineOf code (max (stop - 1) introduction.position)
      startOffset := introduction.start
      endOffset := stop
      position := introduction.position }

def enclosing? (definitions : List Definition) (offset : Nat) : Option String :=
  let innermost := (definitions.filter (·.contains offset)).foldl (fun best definition =>
    match best with
    | some earlier => if earlier.startOffset ≤ definition.startOffset then some definition else some earlier
    | none => some definition) none
  innermost.map (·.name)

end Deadwood.Source
