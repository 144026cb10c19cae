import Elocution.Single.Basic

/-!
# Powers of two

Two to a single-precision power, by the reduction `x = k / 32 + r` with `|r| ≤ 1 / 64`: a
table of the powers `2 ^ (k / 32)` times a cubic in `r`, in double precision, rounded once.
-/

namespace Elocution.Single

/-- Bits of `2 ^ (k / 32)` for `k` from 0 to 31, less `k` in the place of thirty-seconds. -/
def powerTable : List UInt64 :=
  [0x3ff0000000000000, 0x3fefd9b0d3158574, 0x3fefb5586cf9890f, 0x3fef9301d0125b51,
   0x3fef72b83c7d517b, 0x3fef54873168b9aa, 0x3fef387a6e756238, 0x3fef1e9df51fdee1,
   0x3fef06fe0a31b715, 0x3feef1a7373aa9cb, 0x3feedea64c123422, 0x3feece086061892d,
   0x3feebfdad5362a27, 0x3feeb42b569d4f82, 0x3feeab07dd485429, 0x3feea47eb03a5585,
   0x3feea09e667f3bcd, 0x3fee9f75e8ec5f74, 0x3feea11473eb0187, 0x3feea589994cce13,
   0x3feeace5422aa0db, 0x3feeb737b0cdc5e5, 0x3feec49182a3f090, 0x3feed503b23e255d,
   0x3feee89f995ad3ad, 0x3feeff76f2fb5e47, 0x3fef199bdd85529c, 0x3fef3720dcef9069,
   0x3fef5818dcfba487, 0x3fef7c97337b9b5f, 0x3fefa4afa2a490da, 0x3fefd0765b6e4540]

/-- A finite single as a double; always exact. -/
def widen (x : Float32) : Float :=
  let scale := Float.ofBits (UInt64.ofNat (exponent x + 1023).toNat <<< 52)
  let size := (significand x).toUInt64.toFloat * scale
  if isNegative x then -size else size

/-- A positive normal double rounded to a single. -/
def narrow (x : Float) : Float32 :=
  let bits := x.toBits.toNat
  ofScaled (bits % 1 <<< 52 + 1 <<< 52) ((bits >>> 52 : Nat) - 1075)

/-- Adding it to a double leaves the nearest multiple of a thirty-second in the last bits. -/
def thirtySecondShift : Float := Float.ofBits 0x42e8000000000000

def cubicThird : Float := Float.ofBits 0x3fac6af84b912394

def cubicSecond : Float := Float.ofBits 0x3fcebfce50fac4f3

def cubicFirst : Float := Float.ofBits 0x3fe62e42ff0c52d6

/-- Computes `2 ^ x` for a double in the range where the result is a positive normal double. -/
def powerOfTwoDouble (x : Float) : Float :=
  let shifted := x + thirtySecondShift
  let k := shifted.toBits
  let r := x - (shifted - thirtySecondShift)
  let scale := Float.ofBits (powerTable.getD (k.toNat % 32) 0 + (k <<< 47))
  let z := cubicThird * r + cubicSecond
  let y := z * (r * r) + (cubicFirst * r + 1)
  y * scale

/-- Computes `2 ^ x`, which is infinite from 128 on and zero up to -150. -/
def powerOfTwo (x : Float32) : Float32 :=
  if x.isNaN then x
  else if 128 ≤ x then 1 / 0
  else if x ≤ -150 then 0
  else narrow (powerOfTwoDouble (widen x))

end Elocution.Single
