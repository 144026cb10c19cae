/-!
# Decimal places

A double in decimal with two places. A finite double is a whole multiple of 2⁻¹⁰⁷⁴, so the
nearest decimal is found in whole numbers.
-/

namespace Elocution.Text

/-- The whole number nearest to a quotient; a tie goes to the even neighbour. -/
def roundQuotient (n d : Nat) : Nat :=
  if 2 * (n % d) < d then n / d
  else if d < 2 * (n % d) then n / d + 1
  else n / d + n / d % 2

/-- The magnitude of a finite double in units of 2⁻¹⁰⁷⁴. -/
def magnitude (x : Float) : Nat :=
  let word := x.toBits.toNat
  let exponent := word >>> 52 % 1 <<< 11
  let fraction := word % 1 <<< 52
  if exponent = 0 then fraction else (1 <<< 52 + fraction) <<< (exponent - 1)

/-- A double that is finite and not negative, with two places. -/
def withTwoPlaces (x : Float) : String :=
  let n := roundQuotient (100 * magnitude x) (1 <<< 1074)
  toString (n / 100) ++ "." ++ toString (n / 10 % 10) ++ toString (n % 10)

end Elocution.Text
