import EntityFilter.Number.Binary64

/-!
# Reading decimals by scaling a significand

A decimal numeral is read in two steps.  Its digits are gathered into one whole number, as many as
fit into 64 bits; then that number is rounded to a double and scaled by a power of ten, the double
nearest to it.  Each of the two steps rounds on its own, so the result is the nearest double for
numerals of up to fifteen digits and may be a neighbour of it for longer ones.

A numeral without point and exponent whose digits all fit is an integer, and minus zero is the
double minus zero, since there is no such integer.
-/

namespace EntityFilter

/-- A decimal numeral as it is written: sign, digits before and after the point, exponent. -/
structure Numeral where
  /-- Whether a minus sign stands in front. -/
  negative : Bool
  /-- The digits before the point. -/
  whole : List Nat
  /-- The digits after the point, if there is one. -/
  fraction : Option (List Nat)
  /-- The exponent, if there is one. -/
  exponent : Option Int

namespace Numeral

/-- Add digits to a significand while it fits into 64 bits; the digits left over come second. -/
def gather (significand : Nat) : List Nat → Nat × List Nat
  | [] => (significand, [])
  | d :: ds =>
    if significand * 10 + d ≤ Binary64.maxUInt64 then gather (significand * 10 + d) ds
    else (significand, d :: ds)

/-- The double nearest to a power of ten. -/
def powerOfTen (n : Nat) : Float := Float.ofScientific 1 false n

/-- Scale a magnitude by a power of ten; `none` when it leaves the doubles. -/
def scale? (x : Float) (e : Int) : Option Float :=
  if 308 < e then (if Binary64.orderKey x = 0 then some 0.0 else none)
  else if 0 ≤ e then
    let y := x * powerOfTen e.toNat
    if Binary64.isFinite y then some y else none
  else if -308 ≤ e then some (x / powerOfTen (-e).toNat)
  else if -616 ≤ e then some (x / powerOfTen 308 / powerOfTen (-e - 308).toNat)
  else some 0.0

/-- The double that a numeral stands for; `none` when it is too great. -/
def toFloat? (n : Numeral) : Option Float :=
  let (head, skipped) := gather 0 n.whole
  let (significand, dropped) := gather head (n.fraction.getD [])
  let places : Int := skipped.length - ((n.fraction.getD []).length - dropped.length : Nat)
  (scale? (Binary64.ofInt significand) (places + n.exponent.getD 0)).map fun x =>
    if n.negative then -x else x

/-- The integer that a numeral stands for, when it is written as one and fits. -/
def toInt? (n : Numeral) : Option Int :=
  match n.fraction, n.exponent, gather 0 n.whole with
  | none, none, (i, []) =>
    if n.negative then
      if i = 0 ∨ Binary64.signBit < i then none else some (-(i : Int))
    else some i
  | _, _, _ => none

end Numeral

end EntityFilter
