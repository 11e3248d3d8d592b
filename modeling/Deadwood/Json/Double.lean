/-!
# Binary fractions

A number with a point or an exponent is held as the nearest of the numbers with 53 binary digits, and written with the fewest
decimal digits that are read back as it. A number here is a decimal: a mantissa and a power of ten.
-/

set_option autoImplicit false
namespace Deadwood.Double

/-- A number with at most 53 binary digits: a whole number and a power of two. -/
structure Binary where
  significand : Nat
  power : Int
  deriving Repr, DecidableEq

def precision : Nat := 53

def leastPower : Int := -1074

def placeLimits : Int × Int := (-330, 310)

def roundQuotient (dividend divisor : Nat) : Nat :=
  let whole := dividend / divisor
  let rest := 2 * (dividend % divisor)
  if rest < divisor || (rest = divisor && whole % 2 = 0) then whole else whole + 1

def scale (dividend divisor : Nat) (power : Int) : Nat × Nat :=
  (dividend * Nat.pow 2 power.toNat, divisor * Nat.pow 2 (-power).toNat)

def firstPlace (dividend divisor : Nat) : Int :=
  let guess : Int := dividend.log2 - divisor.log2
  let (scaled, unit) := scale dividend divisor (-guess)
  if unit ≤ scaled then guess else guess - 1

/-- The nearest binary fraction to a decimal; nothing if it is too great. -/
def nearest? (mantissa : Nat) (exponent : Int) : Option Binary :=
  let place : Int := (toString mantissa).length + exponent
  if mantissa = 0 || place < placeLimits.1 then some ⟨0, 0⟩
  else if placeLimits.2 < place then none
  else
    let dividend := mantissa * Nat.pow 10 exponent.toNat
    let divisor := Nat.pow 10 (-exponent).toNat
    let power := max (firstPlace dividend divisor - (precision - 1)) leastPower
    let (scaled, unit) := scale dividend divisor (-power)
    let significand := roundQuotient scaled unit
    let found : Binary :=
      if significand = Nat.pow 2 precision then ⟨Nat.pow 2 (precision - 1), power + 1⟩ else ⟨significand, power⟩
    if 1024 < found.power + precision then none else some found

def Binary.decimal (binary : Binary) : Nat × Int :=
  if 0 ≤ binary.power then (binary.significand * Nat.pow 2 binary.power.toNat, 0)
  else (binary.significand * Nat.pow 5 (-binary.power).toNat, binary.power)

/-- Of the two decimals around a binary fraction whose last digit stands at a place, the nearer one that is read back as it. -/
def Binary.around? (binary : Binary) (unit : Int) : Option (Nat × Int) :=
  let (mantissa, exponent) := binary.decimal
  let dividend := mantissa * Nat.pow 10 (exponent - unit).toNat
  let divisor := Nat.pow 10 (unit - exponent).toNat
  let below := dividend / divisor
  let candidates := if roundQuotient dividend divisor = below then [below, below + 1] else [below + 1, below]
  (candidates.find? fun digits => nearest? digits unit = some binary).map (·, unit)

def Binary.shortest (binary : Binary) : Nat × Int :=
  let (mantissa, exponent) := binary.decimal
  let place : Int := (toString mantissa).length + exponent
  if binary.significand = 0 then (0, 0)
  else ((List.range 17).findSome? fun count => binary.around? (place - Int.ofNat (count + 1))).getD binary.decimal

end Deadwood.Double
