import Deadwood.Source.Definition

/-!
# Cutting a function out of a text

The span of a definition covers its introducer from the beginning of the line if nothing stands before it,
a doc comment directly above, the body, and the separator after it with the rest of the line if that is
empty. Cutting a span leaves at most one blank line at the seam and nothing else changes.
-/

set_option autoImplicit false
namespace Deadwood

open Source Text

/-- The stretch of a text that a definition takes up, with the lines of its first and last character. -/
structure FunctionSpan where
  name : String
  start : Nat
  stop : Nat
  startLine : Nat
  endLine : Nat
  deriving Repr, DecidableEq

namespace Removal

def slice (text : List Char) (start stop : Nat) : List Char :=
  (text.take stop).drop start

/-- The beginning of the line if nothing but white space stands between it and the offset, else the
offset. -/
def toLineStart (text : List Char) (offset : Nat) : Nat :=
  let head := lineStart text offset
  if isAllSpace (slice text head offset) then head else offset

def lastIndexOf? (pattern : List Char) : List Char → Option Nat
  | [] => none
  | c :: rest =>
    match lastIndexOf? pattern rest with
    | some index => some (index + 1)
    | none => if pattern.isPrefixOf (c :: rest) then some 0 else none

/-- The beginning of the doc comment directly above an offset, or the offset itself. At most one line end
stands between the two, and the masked view shows nothing of the comment: a comment's end inside a literal is
none. -/
def overDocComment (text masked : List Char) (start : Nat) : Nat :=
  let above := (text.take start).reverse.dropWhile isBlank
  let commentEnd := above.length
  if !(['/', '*'].isPrefixOf above) then start
  else if 1 < (slice text commentEnd start).count '\n' then start
  else match lastIndexOf? ['/', '*'] (text.take (commentEnd - 2)) with
    | none => start
    | some opener =>
      if !(['/', '*', '*'].isPrefixOf (text.drop opener)) then start
      else if !isAllSpace (slice masked opener commentEnd) then start
      else toLineStart text opener

/-- The offset after a separator that follows, and after the rest of the line if that is empty. -/
def overTerminator (text : List Char) (stop : Nat) : Nat :=
  let afterBody := text.drop stop
  let next := afterBody.dropWhile isInlineBlank
  let (kept, tail) :=
    match next with
    | c :: rest => if c == ';' || c == ',' then (text.length - rest.length, rest) else (stop, next)
    | [] => (stop, next)
  match tail.dropWhile fun c => isInlineBlank c || c == '\r' with
  | '\n' :: rest => text.length - rest.length
  | [] => text.length
  | _ => kept

/-- The first introducer of a name in a masked view: the one whose name comes first, the earlier spelling
on a tie. -/
def firstIntroducer? (masked : List Char) (name : String) : Option (Hit Stretch) :=
  (introducers (Scan.chars name.toList)).foldl (fun best (_, introducer) =>
    match introducer.firstHit? masked, best with
    | some hit, some earlier => if hit.value.start < earlier.value.start then some hit else best
    | some hit, none => some hit
    | none, _ => best) none

/-- The view of a text in which definitions are looked for: of a page, only its code. -/
def searchView (isPage : Bool) (text : List Char) : List Char :=
  mask .code (if isPage then codeView text else text)

/-- The span of the first definition of a name; none if there is no definition or its body does not end. -/
def locate? (isPage : Bool) (name : String) (text : List Char) : Option FunctionSpan :=
  let masked := searchView isPage text
  (firstIntroducer? masked name).bind fun hit =>
    (bodyAfter masked hit.value.stop).stop.map fun bodyEnd =>
      let start := overDocComment text masked (toLineStart text hit.start)
      { name := name
        start := start
        stop := overTerminator text bodyEnd
        startLine := lineOf text start
        endLine := lineOf text (max (bodyEnd - 1) start) }

/-! ## The seam -/

def dropBlankLinesFrom (line : List Char) : List Char → List Char
  | [] => line
  | c :: rest =>
    if c == '\n' then dropBlankLinesFrom rest rest
    else if isInlineBlank c then dropBlankLinesFrom line rest
    else line

def dropBlankLines (text : List Char) : List Char :=
  dropBlankLinesFrom text text

def leadingBlankLines : List Char → Nat
  | [] => 0
  | c :: rest =>
    if c == '\n' then leadingBlankLines rest + 1
    else if isInlineBlank c then leadingBlankLines rest
    else 0

def endsWithBlankLine (text : List Char) : Bool :=
  match text.reverse with
  | '\n' :: rest => (rest.dropWhile isInlineBlank).head? == some '\n'
  | _ => false

/-- Puts together what was before and after a cut. At most one blank line is left between them, none at the
beginning, and the end is one line feed. -/
def seam (head tail : List Char) : List Char :=
  if isAllSpace tail then
    if isAllSpace head then [] else trimRight head ++ ['\n']
  else if isAllSpace head then dropBlankLines tail
  else if endsWithBlankLine head then head ++ dropBlankLines tail
  else if 2 ≤ leadingBlankLines tail then head ++ '\n' :: dropBlankLines tail
  else head ++ tail

def cut (text : List Char) (span : FunctionSpan) : List Char :=
  seam (text.take span.start) (text.drop span.stop)

/-- Cuts the first definition of a name out of a text, if it can be located. -/
def remove? (isPage : Bool) (name : String) (text : List Char) : Option (List Char × FunctionSpan) :=
  (locate? isPage name text).map fun span => (cut text span, span)

end Removal
end Deadwood
