/-!
# Double precision numbers through their bits

A double is read off its 64 bits: a sign, eleven bits of exponent, fifty-two of fraction.  The
questions that filters ask about a number (which of two is smaller, is it whole, which double is
nearest to this integer) are answered here in exact integer arithmetic on those bits, so that
laws about them are laws about integers.

`magnitudeOfNat` rounds a natural number to the nearest double, a tie to the one with the even
last bit.  `orderKey` sends finite doubles to integers in their numeric order, with both zeros at
zero.
-/

namespace EntityFilter.Binary64

/-- The bits of the sign position: `2 ^ 63`. -/
def signBit : Nat := Nat.pow 2 63

/-- The number of values of the fraction field: `2 ^ 52`. -/
def fractions : Nat := Nat.pow 2 52

/-- The bits, without the sign, of the double nearest to `n`; a tie goes to the even last bit.

The fraction field starts with the second binary digit, and a fraction that rounds up to the next
power of two carries into the exponent field by itself. -/
def magnitudeOfNat (n : Nat) : Nat :=
  if n = 0 then 0
  else
    let e := n.log2
    if e ≤ 52 then (e + 1022) * fractions + n * Nat.pow 2 (52 - e)
    else
      let unit := Nat.pow 2 (e - 52)
      let whole := n / unit
      let rest := n % unit
      let up := unit < 2 * rest ∨ (2 * rest = unit ∧ whole % 2 = 1)
      (e + 1022) * fractions + whole + (if up then 1 else 0)

/-- The double nearest to an integer. -/
def ofInt (i : Int) : Float :=
  Float.ofBits (UInt64.ofNat ((if i < 0 then signBit else 0) + magnitudeOfNat i.natAbs))

/-- The place of an integer in the numeric order of the doubles. -/
def keyOfInt (i : Int) : Int :=
  if i < 0 then -(magnitudeOfNat i.natAbs : Int) else magnitudeOfNat i.natAbs

/-- The place of a finite double in the numeric order. -/
def orderKey (x : Float) : Int :=
  let bits := x.toBits.toNat
  if bits < signBit then bits else -((bits - signBit : Nat) : Int)

/-- A finite double as a sign and a magnitude `mantissa * 2 ^ exponent`. -/
structure Parts where
  /-- Whether the sign bit is set. -/
  negative : Bool
  /-- The whole number that the fraction field stands for. -/
  mantissa : Nat
  /-- The power of two that the mantissa is scaled by. -/
  exponent : Int

/-- The exponent field: 2047 for infinities and for what is not a number. -/
def exponentField (x : Float) : Nat := x.toBits.toNat / fractions % 2048

/-- Neither infinite nor undefined. -/
def isFinite (x : Float) : Bool := exponentField x < 2047

/-- What is greater than every finite double. -/
def infinity : Float := Float.ofBits 0x7FF0000000000000

/-- The parts of a finite double. -/
def parts (x : Float) : Parts :=
  let bits := x.toBits.toNat
  let field := exponentField x
  let fraction := bits % fractions
  { negative := signBit ≤ bits
    mantissa := if field = 0 then fraction else fractions + fraction
    exponent := (if field = 0 then 1 else (field : Int)) - 1075 }

namespace Parts

/-- The magnitude cut down to a whole number. -/
def truncated (p : Parts) : Nat :=
  if 0 ≤ p.exponent then p.mantissa * Nat.pow 2 p.exponent.toNat
  else p.mantissa / Nat.pow 2 (-p.exponent).toNat

/-- Whether the magnitude is a whole number. -/
def isWhole (p : Parts) : Bool :=
  0 ≤ p.exponent || p.mantissa % Nat.pow 2 (-p.exponent).toNat == 0

end Parts

/-- The least 64-bit signed integer: `-2 ^ 63`. -/
def minInt64 : Int := -9223372036854775808

/-- The greatest 64-bit signed integer: `2 ^ 63 - 1`. -/
def maxInt64 : Int := 9223372036854775807

/-- The greatest 64-bit unsigned integer: `2 ^ 64 - 1`. -/
def maxUInt64 : Nat := 18446744073709551615

/-- Cut off the fraction and clamp to the signed 64-bit integers; what is not a number is zero. -/
def toInt64Clamped (x : Float) : Int :=
  let p := parts x
  if isFinite x then
    let i : Int := if p.negative then -(p.truncated : Int) else p.truncated
    max minInt64 (min maxInt64 i)
  else if x.toBits.toNat % fractions ≠ 0 then 0
  else if p.negative then minInt64 else maxInt64

/-- Whether a double is finite and has no fraction. -/
def isWhole (x : Float) : Bool := isFinite x && (parts x).isWhole

end EntityFilter.Binary64
