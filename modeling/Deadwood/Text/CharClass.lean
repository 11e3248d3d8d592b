import Deadwood.Text.AlphanumericRanges
import Deadwood.Text.LowercaseRuns
import Deadwood.Text.PrintableRanges
import Deadwood.Text.SigmaContext

/-!
# Character classes and case

White space, word characters, digits and lower case over all of Unicode 14. ASCII is decided by
comparison, everything above by the range tables, so every class agrees with core's ASCII class where
both are defined (`isAlphanumeric_of_isAlphanum`).
-/

set_option autoImplicit false
namespace Deadwood.Text

def inRanges (ranges : List (Nat × Nat)) (codePoint : Nat) : Bool :=
  ranges.any fun range => range.1 ≤ codePoint && codePoint ≤ range.2

/-- White space: the ASCII blanks, line ends and separators, next line, and Unicode's spaces. -/
def isSpace (c : Char) : Bool :=
  let n := c.toNat
  (9 ≤ n && n ≤ 13) || (28 ≤ n && n ≤ 32) || n == 0x85 || n == 0xa0 || n == 0x1680
    || (0x2000 ≤ n && n ≤ 0x200a) || n == 0x2028 || n == 0x2029 || n == 0x202f || n == 0x205f || n == 0x3000

def isAlphanumeric (c : Char) : Bool :=
  if c.toNat < 128 then c.isAlphanum else inRanges alphanumericRanges c.toNat

def isWordChar (c : Char) : Bool :=
  isAlphanumeric c || c == '_'

/-- Space, tab, line feed and carriage return: what separates tokens on a line or across lines. -/
def isBlank (c : Char) : Bool :=
  c == ' ' || c == '\t' || c == '\n' || c == '\r'

def isInlineBlank (c : Char) : Bool :=
  c == ' ' || c == '\t'

def decimalValue? (c : Char) : Option Nat :=
  (decimalZeros.find? fun first => first ≤ c.toNat && c.toNat ≤ first + 9).map fun first => c.toNat - first

def isDecimal (c : Char) : Bool :=
  (decimalValue? c).isSome

def isPrintable (c : Char) : Bool :=
  if c.toNat < 128 then 32 ≤ c.toNat && c.toNat < 127 else inRanges printableRanges c.toNat

/-- The single lower case character of a code point, itself if it has none. -/
def lowerChar (c : Char) : Char :=
  let n := c.toNat
  if n < 128 then c.toLower
  else if n == 0x130 then 'i'
  else match lowercaseRuns.find? fun (first, last, stride, _) =>
      first ≤ n && n ≤ last && (n - first) % stride == 0 with
    | some (first, _, _, target) => Char.ofNat (target + (n - first))
    | none => c

def nextCased : List Char → Bool
  | [] => false
  | c :: rest =>
    if inRanges caseIgnorableRanges c.toNat then nextCased rest else inRanges casedRanges c.toNat

/-- Lower case of a text whose reversed beginning is given: a capital sigma at the end of a word becomes a
final one, and a dotted capital i keeps its dot as a mark of its own. -/
def lowerFrom (before : List Char) : List Char → List Char
  | [] => []
  | c :: rest =>
    let image :=
      if c == 'Σ' then [if nextCased before && !nextCased rest then 'ς' else 'σ']
      else if c == 'İ' then ['i', Char.ofNat 0x307]
      else [lowerChar c]
    image ++ lowerFrom (c :: before) rest

def lower (text : String) : String :=
  String.ofList (lowerFrom [] text.toList)

/-- The two characters are the same when case is ignored: they have one lower case, or lower cases that share
an upper case. -/
def sameIgnoringCase (a b : Char) : Bool :=
  let x := (lowerChar a).toNat
  let y := (lowerChar b).toNat
  x == y || sharedUppercase.any fun siblings => siblings.contains x && siblings.contains y

def trimLeft (text : List Char) : List Char :=
  text.dropWhile isSpace

def trimRight (text : List Char) : List Char :=
  (text.reverse.dropWhile isSpace).reverse

def trim (text : List Char) : List Char :=
  trimRight (trimLeft text)

def isAllSpace (text : List Char) : Bool :=
  text.all isSpace

theorem isAlphanumeric_of_isAlphanum (c : Char) (ascii : c.toNat < 128) :
    isAlphanumeric c = c.isAlphanum := by
  simp [isAlphanumeric, ascii]

end Deadwood.Text
