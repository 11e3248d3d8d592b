/-!
# Shares in percent

A share is shown in percent with one place. The quotient is kept to 53 significant bits, so is its
hundredfold, and that number is rounded to one place; a tie goes to the even neighbour each time.
-/

set_option autoImplicit false
namespace Deadwood.Report

def roundQuotient (numerator denominator : Nat) : Nat :=
  let whole := numerator / denominator
  let rest := numerator % denominator
  if denominator < 2 * rest || (denominator = 2 * rest && whole % 2 = 1) then whole + 1 else whole

/-- A quotient below two to the 52nd rounded to 53 significant bits: a number and the power of two that it
is divided by. -/
def roundBits (numerator denominator : Nat) : Nat × Nat :=
  if numerator = 0 then (0, 0)
  else
    let shift := 52 + denominator.log2 - numerator.log2
    let shift := if numerator * Nat.pow 2 shift / denominator < Nat.pow 2 52 then shift + 1 else shift
    (roundQuotient (numerator * Nat.pow 2 shift) denominator, shift)

def tenthsOfPercent (part whole : Nat) : Nat :=
  let (quotient, shift) := roundBits part whole
  let (hundredfold, shift) := roundBits (quotient * 100) (Nat.pow 2 shift)
  roundQuotient (hundredfold * 10) (Nat.pow 2 shift)

def percent (part whole : Nat) : String :=
  let tenths := if whole = 0 then 0 else tenthsOfPercent part whole
  toString (tenths / 10) ++ "." ++ toString (tenths % 10) ++ "%"

end Deadwood.Report
