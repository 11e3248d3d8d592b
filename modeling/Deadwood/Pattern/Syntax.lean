import Deadwood.Text.CharClass

/-!
# Search patterns

The syntax tree of the patterns that settings use to protect names, and why a pattern text may be refused.
-/

set_option autoImplicit false
namespace Deadwood

open Text

/-- The switches in force at a place of a pattern. -/
structure PatternFlags where
  ignoreCase : Bool := false
  multiline : Bool := false
  dotAll : Bool := false
  verbose : Bool := false
  ascii : Bool := false
  deriving Repr, DecidableEq

/-- A class of characters with a letter of its own. -/
inductive Category where
  | decimal
  | space
  | word
  deriving Repr, DecidableEq

def Category.contains (category : Category) (ascii : Bool) (c : Char) : Bool :=
  (!ascii || c.toNat < 128) &&
    match category with
    | decimal => isDecimal c
    | space => if ascii then c == ' ' || (9 ≤ c.toNat && c.toNat ≤ 13) else isSpace c
    | word => isWordChar c

inductive SetItem where
  | char (c : Char)
  | range (first last : Char)
  | category (category : Category) (negated : Bool)
  deriving Repr, DecidableEq

/-- A set of characters and the switches it is read under. -/
structure CharSet where
  negated : Bool
  items : List SetItem
  ignoreCase : Bool
  ascii : Bool
  deriving Repr, DecidableEq

def CharSet.same (set : CharSet) (a b : Char) : Bool :=
  a == b || (set.ignoreCase &&
    (if set.ascii then a.toLower == b.toLower else sameIgnoringCase a b))

def CharSet.inRange (set : CharSet) (first last c : Char) : Bool :=
  (first ≤ c && c ≤ last) ||
    (set.ignoreCase && (List.range (last.toNat + 1 - first.toNat)).any fun step =>
      set.same (Char.ofNat (first.toNat + step)) c)

def CharSet.contains (set : CharSet) (c : Char) : Bool :=
  set.negated != set.items.any fun
    | .char other => set.same other c
    | .range first last => set.inRange first last c
    | .category category negated => negated != category.contains set.ascii c

/-- Where a pattern may ask to be without passing a character. -/
inductive Anchor where
  | textStart
  | textEnd
  | lineStart
  | lineEnd
  | lastLineEnd
  | wordEdge (ascii : Bool)
  | noWordEdge (ascii : Bool)
  deriving Repr, DecidableEq

/-- How a repetition chooses its count: the most first, the fewest first, or the most without going back. -/
inductive Greed where
  | greedy
  | lazy
  | possessive
  deriving Repr, DecidableEq

inductive Pattern where
  | empty
  | one (set : CharSet)
  | anchor (anchor : Anchor)
  | sequence (first second : Pattern)
  | either (first second : Pattern)
  | repeated (body : Pattern) (least : Nat) (most : Option Nat) (greed : Greed)
  | group (number : Nat) (body : Pattern)
  | sameAs (number : Nat) (ignoreCase ascii : Bool)
  | ahead (negated : Bool) (body : Pattern)
  | behind (negated : Bool) (width : Nat) (body : Pattern)
  | atomic (body : Pattern)
  | ifGroup (number : Nat) (present absent : Pattern)
  deriving Repr

inductive PatternError where
  | unbalancedParenthesis
  | unterminatedGroup
  | unterminatedSet
  | unterminatedComment
  | nothingToRepeat
  | multipleRepeat
  | crossedBounds
  | boundTooLarge
  | badRange
  | badEscape
  | badGroupName
  | unknownGroup
  | openGroup
  | unknownExtension
  | badFlags
  | contraryFlags
  | lateFlags
  | tooManyBranches
  | variableWidthBehind
  deriving Repr, DecidableEq

end Deadwood
