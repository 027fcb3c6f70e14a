-- The shortest decimal number that reads back as a given binary64 number.
-- For one digit, for two, and so on, the number lies between two decimals of
-- that many digits. The first of these that reads back is taken, and the
-- nearer one when both do.
import Lectern.Number.Binary64

namespace Lectern.Binary64

/-! ## The decimals next to a number -/

/-- The value of a finite number as a quotient. -/
def quotient (x : Binary64) : Nat × Nat :=
  let exponent := x.magnitude / 0x10000000000000
  let fraction := x.magnitude % 0x10000000000000
  if exponent = 0 then (fraction, Nat.pow 2 1074)
  else
    let whole := fraction + 0x10000000000000
    if 1075 ≤ exponent then (whole * Nat.pow 2 (exponent - 1075), 1)
    else (whole, Nat.pow 2 (1075 - exponent))

/-- The quotient measured in units of `10 ^ exponent`. -/
def inUnits (q : Nat × Nat) (exponent : Int) : Nat × Nat :=
  if 0 ≤ exponent then (q.1, q.2 * Nat.pow 10 exponent.toNat)
  else (q.1 * Nat.pow 10 (-exponent).toNat, q.2)

/-- The exponent `e` with `10 ^ e ≤ num / den < 10 ^ (e + 1)`. It is looked
for from `start` on, downwards. -/
def decimalExponent (q : Nat × Nat) (start : Int) : Nat → Int
  | 0 => start
  | steps + 1 =>
    let u := inUnits q start
    if u.2 ≤ u.1 then start else decimalExponent q (start - 1) steps

/-- The decimal of `count` digits that reads back as the number `x`, if one
of the two next to it does. -/
def neighbour? (x : Binary64) (q : Nat × Nat) (top : Int) (count : Nat) : Option Decimal :=
  let exponent := top - (count : Int) + 1
  let u := inUnits q exponent
  let below : Decimal := ⟨false, u.1 / u.2, exponent⟩
  let above : Decimal := ⟨false, u.1 / u.2 + 1, exponent⟩
  let reads (d : Decimal) : Bool := d.nearestMagnitude = x.magnitude
  let nearer := if 2 * (u.1 % u.2) < u.2 ∨ (2 * (u.1 % u.2) = u.2 ∧ u.1 / u.2 % 2 = 0)
    then below else above
  if reads below && reads above then some nearer
  else if reads below then some below
  else if reads above then some above
  else none

/-- The shortest decimal that reads back as a finite number, without its
sign. Seventeen digits are always enough. -/
def shortest (x : Binary64) : Decimal :=
  let q := x.quotient
  let top := decimalExponent q 308 632
  ((List.range 17).findSome? fun i => neighbour? x q top (i + 1)).getD ⟨false, 0, 0⟩

/-! ## Text -/

/-- The digits of the shortest decimal without zeros at the end, and the
exponent of the first of them. -/
def significant (d : Decimal) : Text × Int :=
  let digits := Text.ofNat d.digits
  let kept := (digits.reverse.dropWhile (· == CodePoint.ofChar '0')).reverse
  (kept, d.exponent + digits.length - 1)

/-- A number in decimal. From `10 ^ (-4)` up to `10 ^ 16` it is written
with a point in its place, and otherwise with an exponent of two digits or
more. -/
def text (x : Binary64) : Text :=
  let sign : Text := if x.isNegative then ['-'] else []
  if x.isNaN then Text.ofString "nan"
  else if x.isInfinite then sign ++ Text.ofString "inf"
  else if x.magnitude = 0 then sign ++ Text.ofString "0.0"
  else
    let (digits, top) := significant x.shortest
    let zeros (n : Int) : Text := List.replicate n.toNat '0'
    if 16 ≤ top ∨ top < -4 then
      let tail : Text := if digits.length = 1 then [] else '.' :: digits.drop 1
      let power := (Text.ofNat top.natAbs).leftpad 2 (CodePoint.ofChar '0')
      sign ++ digits.take 1 ++ tail
        ++ Text.ofString (if top < 0 then "e-" else "e+") ++ power
    else if top < 0 then
      sign ++ Text.ofString "0." ++ zeros (-top - 1) ++ digits
    else
      let whole := digits.take (top.toNat + 1) ++ zeros (top + 1 - digits.length)
      let rest := digits.drop (top.toNat + 1)
      sign ++ whole ++ Text.ofString "." ++ (if rest.isEmpty then zeros 1 else rest)

end Lectern.Binary64
