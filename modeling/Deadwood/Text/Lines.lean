/-!
# Lines

Line numbers count line feeds only. Reading a file as text turns every line end (carriage return with line
feed, or carriage return alone) into one line feed; a difference listing splits at every Unicode line break.
-/

set_option autoImplicit false
namespace Deadwood.Text

/-- The one-based line that holds the given offset; an offset past the end counts as the end. -/
def lineOf (text : List Char) (offset : Nat) : Nat :=
  (text.take offset).count '\n' + 1

def fromEnd (text : List Char) (offset : Int) : Nat :=
  if offset < 0 then (text.length + offset).toNat else offset.toNat

def unifyLineEnds : List Char → List Char
  | [] => []
  | '\r' :: '\n' :: rest => '\n' :: unifyLineEnds rest
  | '\r' :: rest => '\n' :: unifyLineEnds rest
  | c :: rest => c :: unifyLineEnds rest

def isLineBreak (c : Char) : Bool :=
  let n := c.toNat
  (10 ≤ n && n ≤ 13) || (28 ≤ n && n ≤ 30) || n == 0x85 || n == 0x2028 || n == 0x2029

/-- The lines with their line ends, given the reversed beginning of the current line; a carriage return with
a line feed is one line end, and an empty rest is no line. -/
def splitLinesFrom (current : List Char) : List Char → List (List Char)
  | [] => if current.isEmpty then [] else [current.reverse]
  | '\r' :: '\n' :: rest => ('\n' :: '\r' :: current).reverse :: splitLinesFrom [] rest
  | c :: rest =>
    if isLineBreak c then (c :: current).reverse :: splitLinesFrom [] rest
    else splitLinesFrom (c :: current) rest

def splitLines (text : List Char) : List (List Char) :=
  splitLinesFrom [] text

/-- The position just after the last line feed before the offset, or the beginning. -/
def lineStart (text : List Char) (offset : Nat) : Nat :=
  offset - ((text.take offset).reverse.takeWhile (· ≠ '\n')).length

theorem unifyLineEnds_eq_self (text : List Char) (noReturn : '\r' ∉ text) : unifyLineEnds text = text := by
  induction text with
  | nil => rfl
  | cons c rest inductionHypothesis =>
      have headDiffers : c ≠ '\r' := fun same => noReturn (same ▸ List.mem_cons_self)
      have restFree : '\r' ∉ rest := fun member => noReturn (List.mem_cons_of_mem _ member)
      simp [unifyLineEnds, headDiffers, inductionHypothesis restFree]

end Deadwood.Text
