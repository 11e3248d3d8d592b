import Deadwood.Source.Definition
import Deadwood.Text.SortedSet

/-!
# Mentions

A mention is a place where a text names something that another place may define: a call, a remote call or
its result handlers, or a name called inside evaluated text. Calls and remote calls are read in the masked
view; names inside literals are read in the view that keeps literal contents.
-/

set_option autoImplicit false
namespace Deadwood.Source

open Deadwood.Text

inductive MentionKind where
  | call
  | bridge
  | handler
  | dynamic
  | memberCall
  | inclusion
  deriving Repr, DecidableEq, Inhabited

def MentionKind.label : MentionKind → String
  | call => "call"
  | bridge => "bridge"
  | handler => "handler"
  | dynamic => "dynamic"
  | memberCall => "member-call"
  | inclusion => "include"

structure Mentioned where
  name : String
  kind : MentionKind
  position : Nat
  deriving Repr, DecidableEq

/-! ## Calls -/

/-- An identifier before an opening parenthesis; the value is the name's stretch. -/
def callScan : Scan Stretch := do
  Scan.notAfter isIdentifierPart
  let found ← nameStretch identifier
  Scan.many isSpace
  Scan.word "("
  pure found

def isMember (masked : List Char) (offset : Nat) : Bool :=
  ((masked.take offset).reverse.dropWhile isBlank).head? == some '.'

def callsOf (masked : List Char) (definedAt : List Nat) : List Mentioned :=
  (callScan.hits masked).filterMap fun hit =>
    if definedAt.contains hit.value.start then none
    else
      let kind := if isMember masked hit.value.start then MentionKind.memberCall else MentionKind.call
      some ⟨String.ofList (hit.value.of masked), kind, hit.value.start⟩

/-! ## Remote calls -/

/-- What stands for the remote side, and the calls on it that only say what happens to the result. -/
structure Bridge where
  objects : List String
  modifiers : List String
  deriving Repr

def dottedParts (current : List Char) : List Char → List (List Char)
  | [] => [current.reverse]
  | c :: rest => if c == '.' then current.reverse :: dottedParts [] rest else dottedParts (c :: current) rest

/-- Parts in order with dots between them, white space allowed around each dot. -/
def dottedScan : List (List Char) → Scan Unit
  | [] => pure ()
  | [part] => Scan.chars part
  | part :: rest => do
    Scan.chars part
    Scan.many isSpace
    Scan.word "."
    Scan.many isSpace
    dottedScan rest

def bridgeObject (object : String) : Scan Unit := do
  Scan.notAfter fun c => isIdentifierPart c || c == '.'
  dottedScan (dottedParts [] object.toList)

/-- One `.name(argument)` of a chain; suffixes of the text say where its parts begin. -/
structure Link where
  name : String
  fromName : List Char
  argument : List Char
  fromArgument : List Char
  rest : List Char
  deriving Repr

/-- The link at the beginning of a text; none if there is none or its parenthesis never closes. -/
def readLink? (text : List Char) : Option Link :=
  match text with
  | '.' :: afterDot =>
    let fromName := afterDot.dropWhile isBlank
    if fromName.head?.any isIdentifierStart then
      match (fromName.dropWhile isIdentifierPart).dropWhile isBlank with
      | '(' :: inside =>
        (closeAfter? .round 1 inside).map fun length =>
          { name := String.ofList (fromName.takeWhile isIdentifierPart)
            fromName := fromName
            argument := inside.take (length - 1)
            fromArgument := inside
            rest := inside.drop length }
      | _ => none
    else none
  | _ => none

theorem length_dropWhile_le {α : Type} (p : α → Bool) (xs : List α) : (xs.dropWhile p).length ≤ xs.length :=
  (List.dropWhile_sublist p).length_le

theorem readLink?_rest_length {text : List Char} {link : Link} (found : readLink? text = some link) :
    link.rest.length < text.length := by
  unfold readLink? at found
  split at found
  · rename_i afterDot
    dsimp only at found
    split at found
    · split at found
      · rename_i inside opened
        obtain ⟨length, _, rfl⟩ := Option.map_eq_some_iff.1 found
        have inner := length_dropWhile_le isBlank ((afterDot.dropWhile isBlank).dropWhile isIdentifierPart)
        have middle := length_dropWhile_le isIdentifierPart (afterDot.dropWhile isBlank)
        have outer := length_dropWhile_le isBlank afterDot
        rw [opened] at inner
        simp only [List.length_cons, List.length_drop] at *
        omega
      · simp at found
    · simp at found
  · simp at found

/-- A name in quotes inside square brackets; the value is the name's stretch. -/
def bracketMember : Scan Stretch := do
  Scan.word "["
  Scan.many isSpace
  let quote ← Scan.one fun c => c == '\'' || c == '"' || c == '`'
  let found ← nameStretch identifier
  Scan.chars [quote]
  Scan.many isSpace
  Scan.word "]"
  pure found

/-- The mentions of a chain of links whose text begins after `total - text.length` characters: a handler for
each modifier whose argument is a bare name, and the remote function at the end of the chain. The remote
function may also be given in brackets as a literal, read in `literal`. -/
def chainMentions (modifiers : List String) (literal : List Char) (total : Nat) (text : List Char) :
    List Mentioned :=
  let next := text.dropWhile isBlank
  if next.head? == some '[' then
    match bracketMember.first? (Cursor.at literal (total - next.length)) with
    | some (found, _) => [⟨String.ofList (found.of literal), .bridge, found.start⟩]
    | none => []
  else
    match found : readLink? next with
    | none => []
    | some link =>
      have _shorter := readLink?_rest_length found
      if modifiers.contains link.name then
        let argument := trim link.argument
        let handlers : List Mentioned :=
          if isIdentifierText argument then
            [⟨String.ofList argument, .handler, total - link.fromArgument.length⟩]
          else []
        handlers ++ chainMentions modifiers literal total link.rest
      else [⟨link.name, .bridge, total - link.fromName.length⟩]
termination_by text.length
decreasing_by
  have trimmed := length_dropWhile_le isBlank text
  simp only [next] at *
  omega

def bridgeMentions (bridge : Bridge) (masked literal : List Char) : List Mentioned :=
  bridge.objects.flatMap fun object =>
    ((bridgeObject object).hits masked).flatMap fun hit =>
      chainMentions bridge.modifiers literal masked.length (masked.drop hit.stop)

/-! ## Names in literals -/

def isQuote (c : Char) : Bool :=
  c == '\'' || c == '"' || c == '`'

def evaluatedCall : Scan Stretch := do
  Scan.wordEdge
  Scan.word "eval"
  Scan.many isSpace
  Scan.word "("
  Scan.many isSpace
  let _ ← Scan.one isQuote
  Scan.many isSpace
  let found ← nameStretch identifier
  Scan.many isSpace
  Scan.word "("
  pure found

def evaluatedMentions (literal : List Char) : List Mentioned :=
  (evaluatedCall.hits literal).map fun hit =>
    ⟨String.ofList (hit.value.of literal), .dynamic, hit.value.start⟩

def plainLiteral : Scan Stretch := do
  let quote ← Scan.one isQuote
  let start ← Scan.here
  Scan.oneOrMore fun c => !isQuote c
  let stop ← Scan.here
  Scan.chars [quote]
  pure ⟨start, stop⟩

def includeCall : Scan Stretch := do
  Scan.notAfter fun c => isIdentifierPart c || c == '.'
  Scan.word "include"
  Scan.many isSpace
  Scan.word "("
  Scan.many isSpace
  let found ← plainLiteral
  Scan.many isSpace
  Scan.word ")"
  pure found

def pageLoad : Scan Stretch := do
  Scan.wordEdge
  Scan.word "HtmlService"
  Scan.many isSpace
  Scan.word "."
  Scan.many isSpace
  Scan.either (Scan.word "createTemplateFromFile") (Scan.word "createHtmlOutputFromFile")
  Scan.many isSpace
  Scan.word "("
  Scan.many isSpace
  plainLiteral

def includesOf (literal : List Char) : List String :=
  [includeCall, pageLoad].flatMap fun scan =>
    (scan.hits literal).map fun hit => String.ofList (trim (hit.value.of literal))

def triggerSetup : Scan Stretch := do
  Scan.word "ScriptApp"
  Scan.many isSpace
  Scan.word "."
  Scan.many isSpace
  Scan.word "newTrigger"
  Scan.many isSpace
  Scan.word "("
  Scan.many isSpace
  let quote ← Scan.one isQuote
  let found ← nameStretch identifier
  Scan.chars [quote]
  pure found

def triggerNamesOf (literal : List Char) : List String :=
  sortedSet ((triggerSetup.hits literal).map fun hit => String.ofList (hit.value.of literal))

/-- What only the view that keeps literal contents shows, everything else blanked. -/
def onlyInLiterals : List Char → List Char → List Char
  | hidden :: maskedRest, kept :: literalRest =>
    (if hidden == ' ' && kept != ' ' then kept else ' ') :: onlyInLiterals maskedRest literalRest
  | _, _ => []

def stringWordsOf (masked literal : List Char) : List String :=
  let words := (nameStretch identifier).hits (onlyInLiterals masked literal)
  sortedSet ((words.map fun hit => String.ofList (hit.value.of literal)).filter (1 < ·.length))

end Deadwood.Source
