/-!
# Structured values

Values of the data format in which metadata, logs and detailed reports are written. An object keeps its keys
in order. A number with a fraction or exponent is kept as the decimal digits by which it is written and a power of ten. A text
that is read may hold half of a pair of UTF-16 units, and then is no text of characters but one of code points.
-/

set_option autoImplicit false
namespace Deadwood

inductive JsonValue where
  | null
  | bool (value : Bool)
  | int (value : Int)
  | decimal (mantissa : Int) (exponent : Int)
  | special (name : String)
  | string (value : String)
  | wide (points : List Nat)
  | array (items : List JsonValue)
  | object (entries : List (String × JsonValue))
  | wideObject (entries : List (List Nat × JsonValue))
  deriving Repr, Inhabited

namespace JsonValue

def points (text : String) : List Nat :=
  text.toList.map Char.toNat

def textOf? (points : List Nat) : Option String :=
  (points.mapM fun point : Nat => if point.isValidChar then some (Char.ofNat point) else none).map String.ofList

def ofPoints (points : List Nat) : JsonValue :=
  match textOf? points with
  | some text => string text
  | none => wide points

def ofEntries (entries : List (List Nat × JsonValue)) : JsonValue :=
  match entries.mapM fun entry => (textOf? entry.1).map (·, entry.2) with
  | some entries => object entries
  | none => wideObject entries

def get? (value : JsonValue) (key : String) : Option JsonValue :=
  match value with
  | object entries => entries.lookup key
  | wideObject entries => entries.lookup (points key)
  | _ => none

def strings (texts : List String) : JsonValue :=
  array (texts.map string)

def nat (value : Nat) : JsonValue :=
  int value

def ofOption : Option String → JsonValue
  | some text => string text
  | none => null

/-- Puts an entry into a list of entries: in place of one with the same key, else at the end. -/
def putEntry {κ : Type} [DecidableEq κ] (key : κ) (value : JsonValue) : List (κ × JsonValue) → List (κ × JsonValue)
  | [] => [(key, value)]
  | (other, old) :: rest =>
    if other = key then (key, value) :: rest else (other, old) :: putEntry key value rest

def update (value : JsonValue) (entries : List (String × JsonValue)) : JsonValue :=
  match value with
  | object old => object (entries.foldl (fun old entry => putEntry entry.1 entry.2 old) old)
  | wideObject old => wideObject (entries.foldl (fun old entry => putEntry (points entry.1) entry.2 old) old)
  | _ => value

/-! ## Long numbers -/

def digitLimit : Nat := 4300

mutual

def isShort : JsonValue → Bool
  | int value => value.natAbs < Nat.pow 10 digitLimit
  | array items => areShort items
  | object entries => haveShort entries
  | wideObject entries => haveShortWide entries
  | _ => true

def areShort : List JsonValue → Bool
  | [] => true
  | item :: rest => isShort item && areShort rest

def haveShort : List (String × JsonValue) → Bool
  | [] => true
  | (_, value) :: rest => isShort value && haveShort rest

def haveShortWide : List (List Nat × JsonValue) → Bool
  | [] => true
  | (_, value) :: rest => isShort value && haveShortWide rest

end

/-! ## Nesting -/

mutual

def depth : JsonValue → Nat
  | array items => depthOfItems items + 1
  | object entries => depthOfEntries entries + 1
  | wideObject entries => depthOfWide entries + 1
  | _ => 0

def depthOfItems : List JsonValue → Nat
  | [] => 0
  | item :: rest => max (depth item) (depthOfItems rest)

def depthOfEntries : List (String × JsonValue) → Nat
  | [] => 0
  | (_, value) :: rest => max (depth value) (depthOfEntries rest)

def depthOfWide : List (List Nat × JsonValue) → Nat
  | [] => 0
  | (_, value) :: rest => max (depth value) (depthOfWide rest)

end

end JsonValue
end Deadwood
