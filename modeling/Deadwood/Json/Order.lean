import Deadwood.Json.Double
import Deadwood.Json.Value

/-!
# Comparing structured values

Texts are compared by code points, numbers by value, arrays by their first difference; truth values count as
numbers, and a number with a point is the binary fraction that it is held as. Values of different kinds are never
equal, and neither of them comes first. Objects are equal if they have equal values for the same keys, and none of
them comes before another.
-/

set_option autoImplicit false
namespace Deadwood
namespace JsonValue

/-! ## Numbers -/

def decimal? : JsonValue → Option (Int × Int)
  | .int value => some (value, 0)
  | .bool value => some (if value then 1 else 0, 0)
  | .decimal mantissa exponent =>
    (Double.nearest? mantissa.natAbs exponent).map fun binary => (mantissa.sign * binary.decimal.1, binary.decimal.2)
  | .special "-0.0" => some (0, 0)
  | _ => none

/-- How two multiples of powers of ten compare. They are brought to one power only if their first digits stand at
the same place. -/
def compareDecimals (first second : Int × Int) : Ordering :=
  let place (number : Int × Int) : Int := (toString number.1.natAbs).length + number.2
  let scaled (number : Int × Int) : Int := number.1 * Int.pow 10 (number.2 - min first.2 second.2).toNat
  match compare first.1.sign second.1.sign with
  | .eq =>
    if first.1 = 0 then .eq
    else match compare (place first) (place second) with
      | .eq => compare (scaled first) (scaled second)
      | order => if 0 < first.1 then order else order.swap
  | order => order

/-- Where a number that is none of the decimal ones stands among them: before all, after all, or nowhere. -/
def special? : JsonValue → Option Ordering
  | .special "-0.0" => none
  | .special name => some (if name = "-Infinity" then .lt else if name = "Infinity" then .gt else .eq)
  | _ => none

def compareNumbers? (first second : JsonValue) : Option Ordering :=
  match first.special?, second.special?, first.decimal?, second.decimal? with
  | some a, some b, _, _ => some (if a = .eq || b = .eq then .eq else compare a b)
  | some a, none, _, some _ => some a
  | none, some b, some _, _ => some b.swap
  | none, none, some a, some b => some (compareDecimals a b)
  | _, _, _, _ => none

/-- Two numbers are equal; what is not a number at all is equal to itself only. -/
def sameNumber (first second : JsonValue) : Bool :=
  match first.special?, second.special? with
  | some a, some b => a == b
  | none, none => compareNumbers? first second == some .eq
  | _, _ => false

/-! ## Values -/

mutual

def same : JsonValue → JsonValue → Bool
  | .null, .null => true
  | .string a, .string b => a == b
  | .wide a, .wide b => a == b
  | .array items, .array others => sameItems items others
  | .object entries, .object others => entries.length == others.length && sameEntries entries others
  | .wideObject entries, .wideObject others => entries.length == others.length && sameWideEntries entries others
  | first, second => sameNumber first second

def sameItems : List JsonValue → List JsonValue → Bool
  | [], [] => true
  | item :: items, other :: others => same item other && sameItems items others
  | _, _ => false

def sameEntries : List (String × JsonValue) → List (String × JsonValue) → Bool
  | [], _ => true
  | (key, value) :: entries, others =>
    (match others.lookup key with
      | some other => same value other
      | none => false) && sameEntries entries others

def sameWideEntries : List (List Nat × JsonValue) → List (List Nat × JsonValue) → Bool
  | [], _ => true
  | (key, value) :: entries, others =>
    (match others.lookup key with
      | some other => same value other
      | none => false) && sameWideEntries entries others

end

/-! ## Texts -/

def comparePoints : List Nat → List Nat → Ordering
  | [], [] => .eq
  | [], _ :: _ => .lt
  | _ :: _, [] => .gt
  | point :: rest, other :: others =>
    match compare point other with
    | .eq => comparePoints rest others
    | order => order

mutual

def compare? : JsonValue → JsonValue → Option Ordering
  | .string a, .string b => some (compare a b)
  | .wide a, .wide b => some (comparePoints a b)
  | .wide a, .string b => some (comparePoints a (points b))
  | .string a, .wide b => some (comparePoints (points a) b)
  | .array items, .array others => compareItems? items others
  | first, second =>
    match compareNumbers? first second with
    | some order => some order
    | none => if same first second then some .eq else none

/-- How two lists of values compare by their first difference, if they can be compared. -/
def compareItems? : List JsonValue → List JsonValue → Option Ordering
  | [], [] => some .eq
  | [], _ :: _ => some .lt
  | _ :: _, [] => some .gt
  | item :: items, other :: others => if same item other then compareItems? items others else compare? item other

end

end JsonValue
end Deadwood
