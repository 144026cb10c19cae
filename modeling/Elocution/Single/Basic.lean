/-!
# Single precision

Operations on 32-bit floating-point numbers beyond the arithmetic of `Float32`, each defined
on the sign, significand and exponent that the bits encode: rounding to a binary format,
conversion to whole numbers, remainder, and the comparisons that skip undefined operands.
-/

namespace Elocution.Single

/-- The circumference of the unit circle, rounded. -/
def tau : Float32 := Float32.ofBits 0x40c90fdb

def isNegative (x : Float32) : Bool := x.toBits >>> 31 == 1

/-- The significand of a finite number, hidden bit included. -/
def significand (x : Float32) : Nat :=
  let fraction := (x.toBits &&& 0x7fffff).toNat
  if (x.toBits >>> 23) &&& 0xff == 0 then fraction else fraction + 1 <<< 23

/-- The exponent of the last bit of the significand of a finite number. -/
def exponent (x : Float32) : Int :=
  max ((x.toBits >>> 23) &&& 0xff).toNat 1 - 150

/-- The quotient `m / 2 ^ k` rounded to the nearest whole number, a half to the even one. -/
def halveRounded (m k : Nat) : Nat :=
  let whole := m >>> k
  let rest := m - whole <<< k
  if 2 * rest > 1 <<< k || (2 * rest == 1 <<< k && whole % 2 == 1) then whole + 1 else whole

/-- The number nearest to `m * 2 ^ e`, a half to the even neighbour; infinite on overflow. -/
def ofScaled (m : Nat) (e : Int) : Float32 :=
  if m = 0 then 0
  else
    let last : Int := max (m.log2 + 1 + e - 24) (-149)
    let shift := last - e
    let kept := if shift ≤ 0 then m <<< (-shift).toNat else halveRounded m shift.toNat
    let bits := ((last + 149).toNat <<< 23) + kept
    Float32.ofBits (UInt32.ofNat (min bits 0x7f800000))

/-- A whole number as a single, rounded to nearest. -/
def ofCount (n : Nat) : Float32 := n.toUInt64.toFloat32

/-- A sample as a single; always exact. -/
def ofSample (s : Int16) : Float32 :=
  if s < 0 then -(ofCount s.toInt.natAbs) else ofCount s.toInt.natAbs

/-- The greater operand; an undefined operand is skipped. -/
def maxNum (a b : Float32) : Float32 :=
  if a.isNaN then b else if b.isNaN then a else if a < b then b else a

/-- The lesser operand; an undefined operand is skipped. -/
def minNum (a b : Float32) : Float32 :=
  if a.isNaN then b else if b.isNaN then a else if b < a then b else a

/-- The number moved into `lo` to `hi`; an undefined number stays undefined. -/
def clamp (lo hi x : Float32) : Float32 :=
  if x < lo then lo else if hi < x then hi else x

/-- The largest count that a conversion gives. -/
def maxCount : Nat := UInt64.size - 1

/-- The nearest whole number, a half away from zero, held between 0 and `maxCount`. -/
def roundCount (x : Float32) : Nat :=
  if x.isNaN then 0
  else if x < 0 then 0
  else if x.isInf then maxCount
  else
    let e := exponent x
    let m := significand x
    min maxCount (if 0 ≤ e then m <<< e.toNat else (m + 1 <<< ((-e).toNat - 1)) >>> (-e).toNat)

/-- The number without its fraction as a sample, held in the range of samples. -/
def toSample (x : Float32) : Int16 :=
  if x < 0 then Int16.ofInt (-(min (-x).toUInt32.toNat 32768 : Nat))
  else Int16.ofInt (min x.toUInt32.toNat 32767 : Nat)

/-- The remainder of `x` by `y` with the sign of `x`; always exact. -/
def rem (x y : Float32) : Float32 :=
  if x.isNaN || y.isNaN || x.isInf || y == 0 then 0 / 0
  else if y.isInf then x
  else
    let e := min (exponent x) (exponent y)
    let m := significand x <<< (exponent x - e).toNat
    let n := significand y <<< (exponent y - e).toNat
    if m < n then x
    else
      let r := ofScaled (m % n) e
      if isNegative x then -r else r

end Elocution.Single
