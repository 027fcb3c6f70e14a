-- Numbers of the binary64 format, as their sixty-four bits, and the nearest
-- of them to a decimal number.
import Lectern.Text.Basic

namespace Lectern

/-- A number of the binary64 format, by its bits: the sign, eleven bits of
exponent, fifty-two bits of fraction. -/
structure Binary64 where
  bits : UInt64
deriving DecidableEq

/-- A decimal number: `digits · 10 ^ exponent`, and its sign. -/
structure Decimal where
  negative : Bool
  digits : Nat
  exponent : Int
deriving DecidableEq

namespace Binary64

/-! ## Special numbers -/

/-- The bits of infinity, which all finite numbers are below. -/
def infinityBits : Nat := 0x7FF0000000000000

/-- The number with a sign and with bits behind the sign. -/
def signed (negative : Bool) (magnitude : Nat) : Binary64 :=
  ⟨UInt64.ofNat (if negative then 0x8000000000000000 + magnitude else magnitude)⟩

/-- Infinity above all numbers. -/
def infinity : Binary64 := signed false infinityBits

/-- Infinity below all numbers. -/
def negativeInfinity : Binary64 := signed true infinityBits

/-- What is no number. -/
def nan : Binary64 := ⟨0x7FF8000000000000⟩

/-- Whether the sign is a minus. -/
def isNegative (x : Binary64) : Bool := 0x8000000000000000 ≤ x.bits.toNat

/-- The bits without the sign. -/
def magnitude (x : Binary64) : Nat := x.bits.toNat % 0x8000000000000000

/-- Whether the bits are those of no number. -/
def isNaN (x : Binary64) : Bool := infinityBits < x.magnitude

/-- Whether the bits are those of an infinity. -/
def isInfinite (x : Binary64) : Bool := x.magnitude = infinityBits

/-! ## Rounding -/

/-- A quotient rounded to the nearest whole number, a half to the even one. -/
def roundHalfEven (num den : Nat) : Nat :=
  let q := num / den
  let twice := 2 * (num % den)
  if twice < den then q
  else if den < twice then q + 1
  else if q % 2 = 0 then q else q + 1

/-- The exponent `e` with `2 ^ e ≤ num / den < 2 ^ (e + 1)`. -/
def binaryExponent (num den : Nat) : Int :=
  let e : Int := (num.log2 : Int) - (den.log2 : Int)
  let above : Bool :=
    if 0 ≤ e then den <<< e.toNat ≤ num else den ≤ num <<< (-e).toNat
  if above then e else e - 1

/-- The bits of the number nearest to a quotient. The last bit of the
fraction is worth `2 ^ unit`, and never less than `2 ^ (-1074)`. A fraction
that rounds up to the next power of two carries into the exponent. -/
def nearestMagnitude (num den : Nat) : Nat :=
  if num = 0 then 0
  else
    let unit : Int := max (binaryExponent num den - 52) (-1074)
    let fraction :=
      if 0 ≤ unit then roundHalfEven num (den <<< unit.toNat)
      else roundHalfEven (num <<< (-unit).toNat) den
    min infinityBits ((unit + 1074).toNat * 0x10000000000000 + fraction)

end Binary64

/-- The bits of the number nearest to a decimal number. Those from
`10 ^ 310` on are infinite and those below `10 ^ (-326)` are zero, whatever
their digits are. -/
def Decimal.nearestMagnitude (d : Decimal) : Nat :=
  let size : Int := (Nat.toDigits 10 d.digits).length + d.exponent
  if d.digits = 0 then 0
  else if 311 ≤ size then Binary64.infinityBits
  else if size < -326 then 0
  else if 0 ≤ d.exponent then Binary64.nearestMagnitude (d.digits * Nat.pow 10 d.exponent.toNat) 1
  else Binary64.nearestMagnitude d.digits (Nat.pow 10 (-d.exponent).toNat)

/-- The binary64 number nearest to a decimal number, a tie to the even one. -/
def Decimal.nearest (d : Decimal) : Binary64 := Binary64.signed d.negative d.nearestMagnitude

end Lectern
